import DaqInterface.Model.Paragraph

/-!
# What the wrapping of messages does

The loop of `make_paragraph` ends for every message, since each turn moves on or changes the
direction, which happens once.  It only turns white space into line ends.  But the first line is
looked through backwards to its very start, so a message that begins with a long word raises
instead (`make_paragraph_iff`).
-/

namespace DaqInterface

/-! ## White space that becomes a line end -/

/-- A character stays, or is white space that becomes a line end. -/
def Wrapped (c d : Char) : Prop := d = c ∨ isSpace c = true ∧ d = '\n'

theorem Wrapped.trans {c d e : Char} (h : Wrapped c d) (h' : Wrapped d e) : Wrapped c e := by
  rcases h with rfl | ⟨hc, rfl⟩
  · exact h'
  · rcases h' with rfl | ⟨-, rfl⟩
    · exact Or.inr ⟨hc, rfl⟩
    · exact Or.inr ⟨hc, rfl⟩

theorem wrapped_refl (text : List Char) : List.Forall₂ Wrapped text text :=
  List.forall₂_same.mpr fun _ _ => Or.inl rfl

theorem wrapped_trans {text text' text'' : List Char} (h : List.Forall₂ Wrapped text text')
    (h' : List.Forall₂ Wrapped text' text'') : List.Forall₂ Wrapped text text'' := by
  induction h generalizing text'' with
  | nil => exact h'
  | cons hc _ ih =>
    cases h' with
    | cons hd hrest => exact List.Forall₂.cons (hc.trans hd) (ih hrest)

/-- The result is the message with spaces in the place of its line ends, and then line ends in the
place of some of its white space, behind a first line end. -/
def Rewrapped (userstring result : List Char) : Prop :=
  ∃ body, result = '\n' :: body ∧ List.Forall₂ Wrapped (spaced userstring) body

/-- There is white space at a place. -/
def SpaceAt (text : List Char) (i : ℕ) : Prop := ∃ c, text[i]? = some c ∧ isSpace c = true

theorem spaceAt_iff {text : List Char} {i : ℕ} :
    text[i]?.any isSpace = true ↔ SpaceAt text i := by
  unfold SpaceAt
  cases text[i]? with
  | none => simp
  | some c => simp

theorem SpaceAt.lt {text : List Char} {i : ℕ} (h : SpaceAt text i) : i < text.length := by
  obtain ⟨c, hc, -⟩ := h
  exact (List.getElem?_eq_some_iff.mp hc).1

/-! ## One turn -/

/-- What a turn changes in the text. -/
theorem wrapped_break {text : List Char} {i : ℕ} (h : SpaceAt text i) :
    List.Forall₂ Wrapped text (text.take i ++ '\n' :: text.drop (i + 1)) := by
  obtain ⟨c, hc, hspace⟩ := h
  obtain ⟨hi, rfl⟩ := List.getElem?_eq_some_iff.mp hc
  have hsplit : text = text.take i ++ text[i] :: text.drop (i + 1) := by
    rw [List.cons_getElem_drop_succ, List.take_append_drop]
  have hkept := List.rel_append (wrapped_refl (text.take i))
    (List.Forall₂.cons (Or.inr ⟨hspace, rfl⟩) (wrapped_refl (text.drop (i + 1))))
  dsimp only at hkept
  rwa [← hsplit] at hkept

theorem length_break {text : List Char} {i : ℕ} (h : i < text.length) :
    (text.take i ++ '\n' :: text.drop (i + 1)).length = text.length := by
  rw [List.length_append, List.length_cons, List.length_take, List.length_drop]
  omega

/-- A line end stands where the text was broken. -/
theorem spaceAt_break {text : List Char} {i : ℕ} (h : i < text.length) :
    SpaceAt (text.take i ++ '\n' :: text.drop (i + 1)) i := by
  have hlength : (text.take i).length = i := by
    rw [List.length_take]
    omega
  refine ⟨'\n', ?_, by decide⟩
  rw [List.getElem?_append_right (le_of_eq hlength), hlength, Nat.sub_self]
  rfl

/-- Backwards the last white space is found. -/
theorem back_to_space_some {text : List Char} {i j : ℕ} (h : back_to_space text i = some j) :
    j ≤ i ∧ SpaceAt text j ∧ ∀ k, SpaceAt text k → k ≤ i → k ≤ j := by
  induction i with
  | zero =>
    unfold back_to_space at h
    split_ifs at h with hspace
    obtain rfl := Option.some.inj h
    exact ⟨le_refl _, spaceAt_iff.mp hspace, fun k _ hk => hk⟩
  | succ i ih =>
    unfold back_to_space at h
    split_ifs at h with hspace
    · obtain rfl := Option.some.inj h
      exact ⟨le_refl _, spaceAt_iff.mp hspace, fun k _ hk => hk⟩
    · obtain ⟨hle, hat, hlast⟩ := ih h
      refine ⟨Nat.le_succ_of_le hle, hat, fun k hk hki => hlast k hk ?_⟩
      have hne : k ≠ i + 1 := by
        rintro rfl
        exact hspace (spaceAt_iff.mpr hk)
      omega

theorem back_to_space_none {text : List Char} {i : ℕ} :
    back_to_space text i = none ↔ ∀ k ≤ i, ¬ SpaceAt text k := by
  induction i with
  | zero =>
    unfold back_to_space
    split_ifs with hspace
    · have hat : SpaceAt text 0 := spaceAt_iff.mp hspace
      exact ⟨fun h => (by cases h), fun h => absurd hat (h 0 (le_refl _))⟩
    · refine ⟨fun _ k hk hat => hspace (spaceAt_iff.mpr ?_), fun _ => rfl⟩
      rwa [Nat.le_zero.mp hk] at hat
  | succ i ih =>
    unfold back_to_space
    split_ifs with hspace
    · have hat : SpaceAt text (i + 1) := spaceAt_iff.mp hspace
      exact ⟨fun h => (by cases h), fun h => absurd hat (h (i + 1) (le_refl _))⟩
    · rw [ih]
      constructor
      · intro h k hk hat
        rcases Nat.le_succ_iff.mp hk with hle | rfl
        · exact h k hle hat
        · exact hspace (spaceAt_iff.mpr hat)
      · exact fun h k hk => h k (Nat.le_succ_of_le hk)

/-- Forwards some white space is found. -/
theorem on_to_space_some {rest : List Char} {i j : ℕ} (h : on_to_space rest i = some j) :
    ∃ k, j = i + k ∧ SpaceAt rest k := by
  induction rest generalizing i with
  | nil => cases h
  | cons c cs ih =>
    unfold on_to_space at h
    split_ifs at h with hspace
    · obtain rfl := Option.some.inj h
      exact ⟨0, rfl, c, rfl, hspace⟩
    · obtain ⟨k, rfl, d, hd, hat⟩ := ih h
      exact ⟨k + 1, by omega, d, hd, hat⟩

theorem on_to_space_drop {text : List Char} {i j : ℕ}
    (h : on_to_space (text.drop i) i = some j) : i ≤ j ∧ SpaceAt text j := by
  obtain ⟨k, rfl, c, hc, hspace⟩ := on_to_space_some h
  rw [List.getElem?_drop] at hc
  exact ⟨Nat.le_add_right i k, c, hc, hspace⟩

/-! ## The loop -/

/-- The loop returns the text with white space turned into line ends. -/
def Paragraph.Returns (chars_per_line turns : ℕ) (p : Paragraph) : Prop :=
  ∃ body, p.wrap chars_per_line turns = some (.ok body) ∧
    List.Forall₂ Wrapped p.userstring body

/-- A turn that breaks the text leads to what the next one leads to. -/
theorem Paragraph.Returns.of_break {chars_per_line turns i : ℕ} {p : Paragraph}
    (hat : SpaceAt p.userstring i) (hturn : p.wrap chars_per_line (turns + 1) =
      (p.break_at chars_per_line i).wrap chars_per_line turns)
    (h : (p.break_at chars_per_line i).Returns chars_per_line turns) :
    p.Returns chars_per_line (turns + 1) := by
  obtain ⟨body, hbody, hwrapped⟩ := h
  exact ⟨body, hturn.trans hbody, wrapped_trans (wrapped_break hat) hwrapped⟩

/-- A turn that looks ahead. -/
theorem Paragraph.wrap_ahead {chars_per_line turns i : ℕ} {p : Paragraph}
    (hend : ¬ p.userstring.length ≤ p.string_index) (hignore : p.ignore_algorithm = true)
    (hnext : on_to_space (p.userstring.drop p.string_index) p.string_index = some i) :
    p.wrap chars_per_line (turns + 1) =
      (p.break_at chars_per_line i).wrap chars_per_line turns := by
  rw [wrap, if_neg hend, if_pos hignore, hnext]

/-- A turn that looks back. -/
theorem Paragraph.wrap_back {chars_per_line turns i : ℕ} {p : Paragraph}
    (hend : ¬ p.userstring.length ≤ p.string_index) (hignore : p.ignore_algorithm = false)
    (hback : back_to_space p.userstring p.string_index = some i) :
    p.wrap chars_per_line (turns + 1) =
      (p.break_at chars_per_line i).wrap chars_per_line turns := by
  rw [wrap, if_neg hend, hignore, if_neg Bool.false_ne_true, hback]

/-- Looking ahead, each turn moves on. -/
theorem Paragraph.returns_forward {chars_per_line turns : ℕ} (hpos : 0 < chars_per_line)
    {p : Paragraph} (hignore : p.ignore_algorithm = true)
    (hturns : p.userstring.length - p.string_index < turns) : p.Returns chars_per_line turns := by
  induction turns generalizing p with
  | zero => omega
  | succ turns ih =>
    by_cases hend : p.userstring.length ≤ p.string_index
    · refine ⟨p.userstring, ?_, wrapped_refl _⟩
      rw [wrap, if_pos hend]
    · cases hnext : on_to_space (p.userstring.drop p.string_index) p.string_index with
      | none =>
        refine ⟨p.userstring, ?_, wrapped_refl _⟩
        rw [wrap, if_neg hend, if_pos hignore, hnext]
      | some i =>
        obtain ⟨hle, hat⟩ := on_to_space_drop hnext
        refine Returns.of_break hat (wrap_ahead hend hignore hnext) (ih ?_ ?_)
        · show (p.ignore_algorithm || _) = true
          rw [hignore, Bool.true_or]
        · have hlt := hat.lt
          show (p.userstring.take i ++ '\n' :: p.userstring.drop (i + 1)).length -
            (i + chars_per_line) < turns
          rw [length_break hlt]
          omega

/-- Looking back, each turn moves on too, or the direction changes. -/
theorem Paragraph.returns_backward {chars_per_line turns b : ℕ} (hpos : 0 < chars_per_line)
    {p : Paragraph} (hignore : p.ignore_algorithm = false)
    (hprevious : p.previous_string_index = some p.string_index)
    (hindex : p.string_index = b + chars_per_line) (hat : SpaceAt p.userstring b)
    (hturns : p.userstring.length - p.string_index + 1 < turns) :
    p.Returns chars_per_line turns := by
  induction turns generalizing p b with
  | zero => omega
  | succ turns ih =>
    by_cases hend : p.userstring.length ≤ p.string_index
    · refine ⟨p.userstring, ?_, wrapped_refl _⟩
      rw [wrap, if_pos hend]
    · cases hback : back_to_space p.userstring p.string_index with
      | none => exact absurd hat (back_to_space_none.mp hback b (by omega))
      | some i =>
        obtain ⟨hle, hspace, hlast⟩ := back_to_space_some hback
        have hbi : b ≤ i := hlast b hat (by omega)
        have hlt := hspace.lt
        have hlength : (p.break_at chars_per_line i).userstring.length = p.userstring.length :=
          length_break hlt
        have hstep : (p.break_at chars_per_line i).string_index = i + chars_per_line := rfl
        have hflag : (p.break_at chars_per_line i).ignore_algorithm =
            (p.previous_string_index == some (i + chars_per_line)) := by
          show (p.ignore_algorithm || _) = _
          rw [hignore, Bool.false_or]
        refine Returns.of_break hspace (wrap_back hend hignore hback) ?_
        rcases Nat.eq_or_lt_of_le hbi with rfl | hmore
        · -- the same break again: from now on the loop looks ahead
          refine returns_forward hpos ?_ ?_
          · rw [hflag, hprevious, hindex]
            exact beq_self_eq_true _
          · rw [hlength, hstep, ← hindex]
            omega
        · refine @ih i (p.break_at chars_per_line i) ?_ rfl rfl (spaceAt_break hlt) ?_
          · rw [hflag, hprevious, hindex]
            exact beq_false_of_ne fun heq => by
              have := Option.some.inj heq
              omega
          · rw [hlength, hstep]
            omega

/-! ## Messages -/

theorem length_spaced (text : List Char) : (spaced text).length = text.length :=
  List.length_map _

theorem spaceAt_spaced {text : List Char} {i : ℕ} : SpaceAt (spaced text) i ↔ SpaceAt text i := by
  unfold SpaceAt spaced
  rw [List.getElem?_map]
  cases text[i]? with
  | none => simp
  | some c =>
    by_cases hc : c = '\n'
    · subst hc
      have hline : isSpace '\n' = true := by decide
      have hblank : isSpace ' ' = true := by decide
      simp [hline, hblank]
    · simp [hc]

/-- White space within the first line and behind it. -/
theorem exists_space_iff {text : List Char} {n : ℕ} :
    (∃ c ∈ text.take (n + 1), isSpace c = true) ↔ ∃ i ≤ n, SpaceAt text i := by
  constructor
  · rintro ⟨c, hc, hspace⟩
    obtain ⟨i, hi, rfl⟩ := List.getElem_of_mem hc
    rw [List.length_take] at hi
    refine ⟨i, by omega, text[i], List.getElem?_eq_getElem (by omega), ?_⟩
    rwa [List.getElem_take] at hspace
  · rintro ⟨i, hi, c, hc, hspace⟩
    refine ⟨c, List.mem_of_getElem? (i := i) ?_, hspace⟩
    rw [List.getElem?_take_of_lt (by omega), hc]

/-- Where the first line has no white space, the first turn raises. -/
theorem make_paragraph_raises {userstring : List Char} {chars_per_line : ℕ}
    (hlong : chars_per_line < userstring.length)
    (hword : ∀ c ∈ userstring.take (chars_per_line + 1), isSpace c = false) :
    make_paragraph userstring chars_per_line = some (.error "AssertionError") := by
  have hnone : back_to_space (spaced userstring) chars_per_line = none := by
    refine back_to_space_none.mpr fun k hk hat => ?_
    obtain ⟨c, hc, hspace⟩ := exists_space_iff.mpr ⟨k, hk, spaceAt_spaced.mp hat⟩
    rw [hword c hc] at hspace
    cases hspace
  have hmore : ¬ (spaced userstring).length ≤ chars_per_line := by
    rw [length_spaced]
    omega
  unfold make_paragraph
  rw [Paragraph.wrap]
  dsimp only
  rw [if_neg hmore, if_neg Bool.false_ne_true, hnone]
  rfl

/-- Everywhere else the loop returns. -/
theorem make_paragraph_returns {userstring : List Char} {chars_per_line : ℕ}
    (hpos : 0 < chars_per_line) (h : userstring.length ≤ chars_per_line ∨
      ∃ c ∈ userstring.take (chars_per_line + 1), isSpace c = true) :
    Paragraph.Returns chars_per_line (userstring.length + 3)
      ⟨spaced userstring, chars_per_line, none, false⟩ := by
  by_cases hend : (spaced userstring).length ≤ chars_per_line
  · refine ⟨spaced userstring, ?_, wrapped_refl _⟩
    rw [Paragraph.wrap, if_pos hend]
  · have hspace : ∃ c ∈ userstring.take (chars_per_line + 1), isSpace c = true := by
      rw [length_spaced] at hend
      exact h.resolve_left hend
    obtain ⟨k, hk, hat⟩ := exists_space_iff.mp hspace
    cases hback : back_to_space (spaced userstring) chars_per_line with
    | none => exact absurd (spaceAt_spaced.mpr hat) (back_to_space_none.mp hback k hk)
    | some i =>
      obtain ⟨hle, hi, -⟩ := back_to_space_some hback
      refine Paragraph.Returns.of_break hi (Paragraph.wrap_back hend rfl hback) ?_
      refine Paragraph.returns_backward hpos rfl rfl rfl (spaceAt_break hi.lt) ?_
      show ((spaced userstring).take i ++ '\n' :: (spaced userstring).drop (i + 1)).length -
        (i + chars_per_line) + 1 < userstring.length + 2
      rw [length_break hi.lt, length_spaced]
      omega

/-- A message is wrapped when it fits on the first line or has white space within that line or
right behind it, and only then. -/
theorem make_paragraph_iff (userstring : List Char) {chars_per_line : ℕ}
    (hpos : 0 < chars_per_line) :
    (∃ result, make_paragraph userstring chars_per_line = some (.ok result) ∧
        Rewrapped userstring result) ↔
      userstring.length ≤ chars_per_line ∨
        ∃ c ∈ userstring.take (chars_per_line + 1), isSpace c = true := by
  constructor
  · rintro ⟨result, hresult, -⟩
    by_contra hnot
    rw [not_or] at hnot
    have hraises := make_paragraph_raises (Nat.lt_of_not_le hnot.1)
      fun c hc => Bool.eq_false_iff.mpr fun hspace => hnot.2 ⟨c, hc, hspace⟩
    rw [hresult] at hraises
    cases hraises
  · intro h
    obtain ⟨body, hbody, hwrapped⟩ := make_paragraph_returns hpos h
    refine ⟨'\n' :: body, ?_, body, rfl, hwrapped⟩
    unfold make_paragraph
    rw [hbody]
    rfl

/-- A message of two words. -/
theorem two_words_wrapped :
    0 < 4 ∧ ∃ result, make_paragraph "lost host".toList 4 = some (.ok result) ∧
      Rewrapped "lost host".toList result :=
  ⟨by decide, (make_paragraph_iff "lost host".toList (by decide)).mpr
    (Or.inr ⟨' ', by decide, by decide⟩)⟩

/-- A path of more than 75 characters. -/
theorem long_path_raises :
    ¬ ∃ result, make_paragraph (List.replicate 76 'a') 75 = some (.ok result) := by
  rintro ⟨result, hresult⟩
  have hword : ∀ c ∈ (List.replicate 76 'a').take (75 + 1), isSpace c = false := by
    intro c hc
    rw [List.eq_of_mem_replicate (List.mem_of_mem_take hc)]
    decide
  rw [make_paragraph_raises (by decide) hword] at hresult
  cases hresult

end DaqInterface
