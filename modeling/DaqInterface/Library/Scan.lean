import Mathlib.Tactic

/-!
# Scanning

The first place of a list from which on the rest passes a test, and brackets: how deep a place
is (`level`), where a bracket is closed (`close_at`) and which bracket is open at a place
(`open_at`).  A balanced part of a list can be replaced by another one
(`Balanced.replace`).
-/

namespace Scan

variable {α : Type}

/-! ## The first place -/

/-- The first place from which on the rest passes the test. -/
def first_at (test : List α → Bool) : List α → Option ℕ
  | [] => if test [] then some 0 else none
  | a :: l => if test (a :: l) then some 0 else (first_at test l).map (· + 1)

theorem first_at_eq_some {test : List α → Bool} {l : List α} {i : ℕ} :
    first_at test l = some i ↔
      i ≤ l.length ∧ test (l.drop i) = true ∧ ∀ j < i, test (l.drop j) = false := by
  induction l generalizing i with
  | nil =>
    unfold first_at
    constructor
    · intro h
      split_ifs at h with htest
      obtain rfl := Option.some.inj h
      exact ⟨le_refl 0, htest, fun j hj => absurd hj (Nat.not_lt_zero j)⟩
    · rintro ⟨hle, htest, -⟩
      obtain rfl : i = 0 := Nat.le_zero.mp hle
      exact if_pos htest
  | cons a l ih =>
    unfold first_at
    constructor
    · intro h
      split_ifs at h with htest
      · obtain rfl := Option.some.inj h
        exact ⟨Nat.zero_le _, htest, fun j hj => absurd hj (Nat.not_lt_zero j)⟩
      · obtain ⟨k, hk, rfl⟩ := Option.map_eq_some_iff.mp h
        obtain ⟨hle, hpass, hbefore⟩ := ih.mp hk
        refine ⟨Nat.succ_le_succ hle, hpass, fun j hj => ?_⟩
        cases j with
        | zero => simpa using htest
        | succ j => exact hbefore j (Nat.lt_of_succ_lt_succ hj)
    · rintro ⟨hle, hpass, hbefore⟩
      cases i with
      | zero => exact if_pos hpass
      | succ i =>
        have hfirst : test (a :: l) = false := hbefore 0 (Nat.succ_pos i)
        have hrest : first_at test l = some i :=
          ih.mpr ⟨Nat.le_of_succ_le_succ hle, hpass,
            fun j hj => hbefore (j + 1) (Nat.succ_lt_succ hj)⟩
        rw [if_neg (by simp [hfirst]), hrest]
        rfl

theorem first_at_eq_none {test : List α → Bool} {l : List α} :
    first_at test l = none ↔ ∀ j, test (l.drop j) = false := by
  constructor
  · intro h j
    induction l generalizing j with
    | nil =>
      unfold first_at at h
      split_ifs at h with htest
      rw [List.drop_nil]
      simpa using htest
    | cons a l ih =>
      unfold first_at at h
      split_ifs at h with htest
      cases j with
      | zero => simpa using htest
      | succ j => exact ih (Option.map_eq_none_iff.mp h) j
  · intro h
    by_contra hsome
    obtain ⟨i, hi⟩ := Option.ne_none_iff_exists'.mp hsome
    obtain ⟨-, hpass, -⟩ := first_at_eq_some.mp hi
    rw [h i] at hpass
    cases hpass

/-- A word whose characters pass a test, before a character that does not. -/
theorem takeWhile_word {test : α → Bool} {l l' : List α} (hl : ∀ a ∈ l, test a = true)
    (hl' : ∀ a, l'.head? = some a → test a = false) : (l ++ l').takeWhile test = l := by
  rw [List.takeWhile_append_of_pos hl]
  cases l' with
  | nil => simp
  | cons a l' =>
    rw [List.takeWhile_cons_of_neg (by simp [hl' a rfl]), List.append_nil]

theorem dropWhile_word {test : α → Bool} {l l' : List α} (hl : ∀ a ∈ l, test a = true)
    (hl' : ∀ a, l'.head? = some a → test a = false) : (l ++ l').dropWhile test = l' := by
  rw [List.dropWhile_append_of_pos hl]
  cases l' with
  | nil => rfl
  | cons a l' => exact List.dropWhile_cons_of_neg (by simp [hl' a rfl])

/-- What a test shows of each element; that a type is finite plays no part. -/
theorem forall_of_all {p : α → Prop} [DecidablePred p] {l : List α}
    (h : (l.all fun a => decide (p a)) = true) : ∀ a ∈ l, p a :=
  fun a ha => of_decide_eq_true (List.all_eq_true.mp h a ha)

/-! ## Brackets -/

/-- A pair of brackets. -/
structure Brackets (α : Type) where
  opening : α
  closing : α
  ne : opening ≠ closing

namespace Brackets

variable [DecidableEq α] (b : Brackets α)

/-- The number of open brackets behind a list, where some are open before it; none where a
bracket is closed that was not opened. -/
def level : ℕ → List α → Option ℕ
  | d, [] => some d
  | d, a :: l =>
    if a = b.opening then level (d + 1) l
    else if a = b.closing then if d = 0 then none else level (d - 1) l
    else level d l

/-- Every bracket is closed. -/
def Balanced (l : List α) : Prop := b.level 0 l = some 0

instance (l : List α) : Decidable (b.Balanced l) :=
  inferInstanceAs (Decidable (b.level 0 l = some 0))

/-- The number of characters before the bracket that closes the last of so many open
brackets. -/
def close_at : ℕ → List α → Option ℕ
  | _, [] => none
  | needed, a :: l =>
    let needed := if a = b.opening then needed + 1 else if a = b.closing then needed - 1 else needed
    if needed = 0 then some 0 else (close_at needed l).map (· + 1)

/-- Backwards, where so many brackets are closed: the number of characters before the
bracket that is still open. -/
def open_at : ℕ → List α → Option ℕ
  | _, [] => none
  | closed, a :: l =>
    if a = b.opening then if closed = 0 then some 0 else (open_at (closed - 1) l).map (· + 1)
    else if a = b.closing then (open_at (closed + 1) l).map (· + 1)
    else (open_at closed l).map (· + 1)

variable {b}

theorem level_append (d : ℕ) (l l' : List α) :
    b.level d (l ++ l') = (b.level d l).bind fun e => b.level e l' := by
  induction l generalizing d with
  | nil => rfl
  | cons a l ih =>
    simp only [List.cons_append, level]
    split_ifs
    · exact ih (d + 1)
    · rfl
    · exact ih (d - 1)
    · exact ih d

/-- More open brackets before a list stay open behind it. -/
theorem level_add {d e : ℕ} {l : List α} (h : b.level d l = some e) (k : ℕ) :
    b.level (d + k) l = some (e + k) := by
  induction l generalizing d with
  | nil =>
    obtain rfl := Option.some.inj h
    rfl
  | cons a l ih =>
    simp only [level] at h ⊢
    split_ifs at h ⊢ with hopen hclose hzero hzero'
    · have hnext := ih h
      rwa [Nat.add_right_comm] at hnext
    · omega
    · have hnext := ih h
      have heq : d - 1 + k = d + k - 1 := by omega
      rwa [heq] at hnext
    · exact ih h

theorem Balanced.level {l : List α} (h : b.Balanced l) (d : ℕ) : b.level d l = some d := by
  have hadd := level_add h d
  rwa [Nat.zero_add] at hadd

theorem Balanced.level_append {l : List α} (h : b.Balanced l) (d : ℕ) (l' : List α) :
    b.level d (l ++ l') = b.level d l' := by
  rw [Brackets.level_append, h.level]
  rfl

theorem Balanced.append {l l' : List α} (h : b.Balanced l) (h' : b.Balanced l') :
    b.Balanced (l ++ l') := (h.level_append 0 l').trans h'

/-- A list without brackets. -/
theorem balanced_of_forall {l : List α} (h : ∀ a ∈ l, a ≠ b.opening ∧ a ≠ b.closing) :
    b.Balanced l := by
  induction l with
  | nil => rfl
  | cons a l ih =>
    obtain ⟨hopen, hclose⟩ := h a List.mem_cons_self
    unfold Balanced Brackets.level
    rw [if_neg hopen, if_neg hclose]
    exact ih fun c hc => h c (List.mem_cons_of_mem a hc)

/-- Brackets around a balanced list. -/
theorem Balanced.wrap {l : List α} (h : b.Balanced l) :
    b.Balanced (b.opening :: (l ++ [b.closing])) := by
  unfold Balanced Brackets.level
  rw [if_pos rfl, h.level_append]
  simp [Brackets.level, b.ne.symm]

/-- Behind a balanced part that is longer than another one, no bracket is closed. -/
theorem Balanced.eq_nil_of_append {l more rest rest' : List α} (h : b.Balanced l)
    (h' : b.Balanced (l ++ more)) (heq : b.closing :: rest = more ++ rest') : more = [] := by
  cases more with
  | nil => rfl
  | cons a more =>
    obtain ⟨rfl, -⟩ := List.cons.inj heq
    unfold Balanced at h'
    rw [h.level_append] at h'
    simp [Brackets.level, b.ne.symm] at h'

/-- A list has only one balanced part up to a closing bracket. -/
theorem Balanced.eq_of_append_closing {l l' rest rest' : List α} (h : b.Balanced l)
    (h' : b.Balanced l') (heq : l ++ b.closing :: rest = l' ++ b.closing :: rest') : l = l' := by
  rcases List.append_eq_append_iff.mp heq with ⟨more, rfl, hmore⟩ | ⟨more, rfl, hmore⟩
  · rw [h.eq_nil_of_append h' hmore, List.append_nil]
  · rw [h'.eq_nil_of_append h hmore, List.append_nil]

/-- Behind an opening bracket nothing is balanced that ends with this bracket and a balanced part. -/
theorem Balanced.not_append_opening {l l' : List α} (h : b.Balanced l) :
    ¬ b.Balanced (l' ++ b.opening :: l) := by
  intro h'
  unfold Balanced at h'
  rw [Brackets.level_append] at h'
  obtain ⟨d, -, hd⟩ := Option.bind_eq_some_iff.mp h'
  unfold Brackets.level at hd
  rw [if_pos rfl, h.level] at hd
  exact Nat.succ_ne_zero d (Option.some.inj hd)

/-- A list has only one balanced part behind an opening bracket up to its end. -/
theorem Balanced.eq_of_opening_append {l l' front front' : List α} (h : b.Balanced l)
    (h' : b.Balanced l') (heq : front ++ b.opening :: l = front' ++ b.opening :: l') : l = l' := by
  rcases List.append_eq_append_iff.mp heq with ⟨more, rfl, hmore⟩ | ⟨more, rfl, hmore⟩
  · cases more with
    | nil => exact (List.cons.inj hmore).2
    | cons a more => exact absurd ((List.cons.inj hmore).2 ▸ h) h'.not_append_opening
  · cases more with
    | nil => exact (List.cons.inj hmore).2.symm
    | cons a more => exact absurd ((List.cons.inj hmore).2 ▸ h') h.not_append_opening

/-- A balanced part can be replaced by another one. -/
theorem Balanced.replace {before part after part' : List α}
    (h : b.Balanced (before ++ part ++ after)) (hpart : b.Balanced part)
    (hpart' : b.Balanced part') : b.Balanced (before ++ part' ++ after) := by
  unfold Balanced at h ⊢
  rw [List.append_assoc, Brackets.level_append] at h ⊢
  rw [← h]
  cases b.level 0 before with
  | none => rfl
  | some d =>
    rw [Option.bind_some, Option.bind_some, hpart'.level_append, hpart.level_append]

/-- Where brackets are open, and all are closed in the end, the last of them is closed behind a
part in which the others are closed. -/
theorem close_at_of_level {n d : ℕ} {l : List α} (h : b.level (d + (n + 1)) l = some 0) :
    ∃ part rest, l = part ++ b.closing :: rest ∧ b.level n part = some 0 ∧
      b.level d rest = some 0 ∧ b.close_at (n + 1) l = some part.length := by
  induction l generalizing n with
  | nil =>
    have hzero := Option.some.inj h
    omega
  | cons a l ih =>
    unfold level at h
    by_cases hopen : a = b.opening
    · rw [if_pos hopen, Nat.add_assoc] at h
      obtain ⟨part, rest, rfl, hpart, hrest, hclose⟩ := ih h
      refine ⟨a :: part, rest, rfl, ?_, hrest, ?_⟩
      · unfold level
        rw [if_pos hopen]
        exact hpart
      · unfold close_at
        rw [if_pos hopen, if_neg (Nat.succ_ne_zero _), hclose]
        rfl
    · by_cases hclosing : a = b.closing
      · rw [if_neg hopen, if_pos hclosing, if_neg (by omega)] at h
        cases n with
        | zero =>
          refine ⟨[], l, ?_, rfl, h, ?_⟩
          · rw [hclosing]
            rfl
          · unfold close_at
            rw [if_neg hopen, if_pos hclosing, if_pos rfl]
            rfl
        | succ n =>
          have hlevel : b.level (d + (n + 1)) l = some 0 := h
          obtain ⟨part, rest, rfl, hpart, hrest, hclose⟩ := ih hlevel
          refine ⟨a :: part, rest, rfl, ?_, hrest, ?_⟩
          · unfold level
            rw [if_neg hopen, if_pos hclosing, if_neg (Nat.succ_ne_zero _)]
            exact hpart
          · unfold close_at
            rw [if_neg hopen, if_pos hclosing, if_neg (by omega), Nat.add_sub_cancel, hclose]
            rfl
      · rw [if_neg hopen, if_neg hclosing] at h
        obtain ⟨part, rest, rfl, hpart, hrest, hclose⟩ := ih h
        refine ⟨a :: part, rest, rfl, ?_, hrest, ?_⟩
        · unfold level
          rw [if_neg hopen, if_neg hclosing]
          exact hpart
        · unfold close_at
          rw [if_neg hopen, if_neg hclosing, if_neg (Nat.succ_ne_zero _), hclose]
          rfl

/-- Where brackets are open behind a list, the search backwards finds the last of them that is
not closed any more. -/
theorem open_at_of_level {l : List α} {d closed : ℕ} (h : b.level 0 l = some d) :
    (closed < d → ∃ front part, l = front ++ b.opening :: part ∧ b.level 0 part = some closed ∧
      b.open_at closed l.reverse = some part.length) ∧
    (d ≤ closed → b.open_at closed l.reverse = none) := by
  induction l using List.reverseRecOn generalizing d closed with
  | nil =>
    obtain rfl := Option.some.inj h
    exact ⟨fun hlt => absurd hlt (Nat.not_lt_zero _), fun _ => rfl⟩
  | append_singleton l a ih =>
    rw [level_append] at h
    obtain ⟨e, he, hlast⟩ := Option.bind_eq_some_iff.mp h
    rw [List.reverse_append, List.reverse_singleton, List.singleton_append]
    unfold open_at
    simp only [level] at hlast
    split_ifs at hlast ⊢ with hopen hzero hclosing
    · obtain rfl := Option.some.inj hlast
      refine ⟨fun _ => ⟨l, [], by rw [hopen], by rw [hzero]; rfl, rfl⟩, fun hle => ?_⟩
      omega
    · obtain rfl := Option.some.inj hlast
      obtain ⟨hfound, hnone⟩ := @ih e (closed - 1) he
      constructor
      · intro hlt
        obtain ⟨front, part, rfl, hpart, hat⟩ := hfound (by omega)
        refine ⟨front, part ++ [a], by simp, ?_, by rw [hat]; simp⟩
        rw [level_append, hpart, Option.bind_some]
        simp only [level]
        rw [if_pos hopen]
        congr 1
        omega
      · intro hle
        rw [hnone (by omega)]
        rfl
    · obtain rfl := Option.some.inj hlast
      obtain ⟨hfound, hnone⟩ := @ih e (closed + 1) he
      constructor
      · intro hlt
        obtain ⟨front, part, rfl, hpart, hat⟩ := hfound (by omega)
        refine ⟨front, part ++ [a], by simp, ?_, by rw [hat]; simp⟩
        rw [level_append, hpart, Option.bind_some]
        simp only [level]
        rw [if_neg hopen, if_pos hclosing, if_neg (Nat.succ_ne_zero _), Nat.add_sub_cancel]
      · intro hle
        rw [hnone (by omega)]
        rfl
    · obtain rfl := Option.some.inj hlast
      obtain ⟨hfound, hnone⟩ := @ih e closed he
      constructor
      · intro hlt
        obtain ⟨front, part, rfl, hpart, hat⟩ := hfound hlt
        refine ⟨front, part ++ [a], by simp, ?_, by rw [hat]; simp⟩
        rw [level_append, hpart, Option.bind_some]
        simp only [level]
        rw [if_neg hopen, if_neg hclosing]
      · intro hle
        rw [hnone hle]
        rfl

/-- The bracket that closes stands in the list. -/
theorem close_at_lt {needed i : ℕ} {l : List α} (h : b.close_at needed l = some i) :
    i < l.length := by
  induction l generalizing needed i with
  | nil => cases h
  | cons a l ih =>
    simp only [close_at] at h
    split_ifs at h with hopen hzero hclose hzero hzero
    all_goals
      first
      | obtain ⟨j, hj, rfl⟩ := Option.map_eq_some_iff.mp h
        exact Nat.succ_lt_succ (ih hj)
      | obtain rfl := Option.some.inj h
        exact Nat.succ_pos _

/-- Behind open brackets, the bracket that is found is a closing one. -/
theorem close_at_spec {needed i : ℕ} {l : List α} (h : b.close_at (needed + 1) l = some i) :
    l[i]? = some b.closing := by
  induction l generalizing needed i with
  | nil => cases h
  | cons a l ih =>
    simp only [close_at] at h
    by_cases hopen : a = b.opening
    · rw [if_pos hopen, if_neg (Nat.succ_ne_zero _)] at h
      obtain ⟨j, hj, rfl⟩ := Option.map_eq_some_iff.mp h
      exact ih hj
    · rw [if_neg hopen] at h
      by_cases hclose : a = b.closing
      · rw [if_pos hclose, Nat.add_sub_cancel] at h
        cases needed with
        | zero =>
          obtain rfl := Option.some.inj h
          exact congrArg some hclose
        | succ needed =>
          rw [if_neg (Nat.succ_ne_zero _)] at h
          obtain ⟨j, hj, rfl⟩ := Option.map_eq_some_iff.mp h
          exact ih hj
      · rw [if_neg hclose, if_neg (Nat.succ_ne_zero _)] at h
        obtain ⟨j, hj, rfl⟩ := Option.map_eq_some_iff.mp h
        exact ih hj

/-- The first characters of a list are enough to find an open bracket among them. -/
theorem open_at_take {closed i k : ℕ} {l : List α} :
    b.open_at closed (l.take k) = some i ↔ b.open_at closed l = some i ∧ i < k := by
  induction l generalizing closed i k with
  | nil => simp [open_at]
  | cons a l ih =>
    cases k with
    | zero => simp [open_at]
    | succ k =>
      have hshift : ∀ closed, (b.open_at closed (l.take k)).map (· + 1) = some i ↔
          (b.open_at closed l).map (· + 1) = some i ∧ i < k + 1 := by
        intro closed
        simp only [Option.map_eq_some_iff]
        constructor
        · rintro ⟨j, hj, rfl⟩
          obtain ⟨hj, hlt⟩ := ih.mp hj
          exact ⟨⟨j, hj, rfl⟩, Nat.succ_lt_succ hlt⟩
        · rintro ⟨⟨j, hj, rfl⟩, hlt⟩
          exact ⟨j, ih.mpr ⟨hj, Nat.lt_of_succ_lt_succ hlt⟩, rfl⟩
      simp only [List.take_succ_cons, open_at]
      split_ifs
      · constructor
        · intro h
          obtain rfl := Option.some.inj h
          exact ⟨rfl, Nat.succ_pos k⟩
        · exact fun h => h.1
      · exact hshift _
      · exact hshift _
      · exact hshift _

/-- The bracket that is found is an opening one. -/
theorem open_at_spec {closed i : ℕ} {l : List α} (h : b.open_at closed l = some i) :
    ∃ before, l.drop i = b.opening :: before := by
  induction l generalizing closed i with
  | nil => cases h
  | cons a l ih =>
    have hshift : ∀ closed, (b.open_at closed l).map (· + 1) = some i →
        ∃ before, (a :: l).drop i = b.opening :: before := by
      intro closed h
      obtain ⟨j, hj, rfl⟩ := Option.map_eq_some_iff.mp h
      exact ih hj
    unfold open_at at h
    split_ifs at h with hopen hzero hclose
    · obtain rfl := Option.some.inj h
      exact ⟨l, by rw [hopen]; rfl⟩
    · exact hshift _ h
    · exact hshift _ h
    · exact hshift _ h

end Brackets

end Scan
