import DaqInterface.Library.Pattern

/-!
# Parts of a text

A text as a row of items, found one after the other, and the characters between them: what is
found at a place may depend on the text before it.  A text that is cut behind its items
(`pieces`) can be put together again with a mark behind each piece, and where the mark does not
occur in the pieces they can be told from the result (`intercalate_inj`).  `Pattern.sub` puts a
text in the place of each item of an expression (`sub_eq_render`).
-/

namespace Parts

variable {α : Type}

/-- A character, or an item with what is known of it. -/
inductive Segment (α : Type)
  | char (c : Char)
  | item (text : List Char) (a : α)

/-- What begins at a place: the number of its characters, and what is known of it.  The text
before the place is given backwards. -/
abbrev Finder (α : Type) : Type := List Char → List Char → Option (ℕ × α)

/-- The parts of the rest of a text, behind the first characters, which belong to an item. -/
def parts (find : Finder α) : ℕ → List Char → List Char → List (Segment α)
  | _, _, [] => []
  | skip + 1, before, c :: rest => parts find skip (c :: before) rest
  | 0, before, c :: rest =>
    match find before (c :: rest) with
    | some (n + 1, a) =>
      .item (c :: rest.take n) a :: parts find (rest.take n).length (c :: before) rest
    | _ => .char c :: parts find 0 (c :: before) rest

/-- The parts with something in the place of the items. -/
def render (f : List Char → α → List Char) : List (Segment α) → List Char
  | [] => []
  | .char c :: l => c :: render f l
  | .item text a :: l => f text a ++ render f l

/-- The text, cut behind each item, with something in the place of the items. -/
def pieces (f : List Char → α → List Char) : List (Segment α) → List (List Char)
  | [] => [[]]
  | .char c :: l =>
    match pieces f l with
    | [] => [[c]]
    | piece :: more => (c :: piece) :: more
  | .item text a :: l => f text a :: pieces f l

/-- The items. -/
def items : List (Segment α) → List (List Char × α)
  | [] => []
  | .char _ :: l => items l
  | .item text a :: l => (text, a) :: items l

variable {find : Finder α} {before rest : List Char}

/-! ## Going through a text -/

theorem parts_skip (find : Finder α) (skipped before rest : List Char) :
    parts find skipped.length before (skipped ++ rest) =
      parts find 0 (skipped.reverse ++ before) rest := by
  induction skipped generalizing before with
  | nil => rfl
  | cons c skipped ih =>
    rw [List.reverse_cons, List.append_assoc, List.singleton_append, ← ih (c :: before)]
    rfl

/-- A text has no item, or it has a first one. -/
inductive First (find : Finder α) (before rest : List Char) : Prop
  | none (hitems : items (parts find 0 before rest) = [])
      (hpieces : ∀ f, pieces f (parts find 0 before rest) = [rest])
  | some (gap text more : List Char) (a : α) (hrest : rest = gap ++ (text ++ more))
      (hne : text ≠ [])
      (hfind : ∃ n, find (gap.reverse ++ before) (text ++ more) = .some (n, a) ∧
        text = (text ++ more).take n)
      (hitems : items (parts find 0 before rest) =
        (text, a) :: items (parts find 0 (text.reverse ++ (gap.reverse ++ before)) more))
      (hpieces : ∀ f, pieces f (parts find 0 before rest) =
        (gap ++ f text a) :: pieces f (parts find 0 (text.reverse ++ (gap.reverse ++ before)) more))

theorem pieces_ne_nil (f : List Char → α → List Char) (l : List (Segment α)) : pieces f l ≠ [] := by
  induction l with
  | nil => exact List.cons_ne_nil _ _
  | cons part l ih =>
    cases part with
    | char c =>
      unfold pieces
      split
      · exact List.cons_ne_nil _ _
      · exact List.cons_ne_nil _ _
    | item text a => exact List.cons_ne_nil _ _

theorem first (find : Finder α) (before rest : List Char) : First find before rest := by
  induction rest generalizing before with
  | nil => exact .none rfl fun f => rfl
  | cons c rest ih =>
    -- a character in front of the parts of the rest
    have hchar : (parts find 0 before (c :: rest) = .char c :: parts find 0 (c :: before) rest) →
        First find before (c :: rest) := by
      intro hparts
      cases ih (c :: before) with
      | none hitems hpieces =>
        refine .none ?_ fun f => ?_
        · rw [hparts]
          exact hitems
        · rw [hparts, pieces, hpieces]
      | some gap text more a hrest hne hfind hitems hpieces =>
        have hbefore : (c :: gap).reverse ++ before = gap.reverse ++ c :: before := by simp
        refine .some (c :: gap) text more a ?_ hne ?_ ?_ fun f => ?_
        · rw [hrest]
          rfl
        · rw [hbefore]
          exact hfind
        · rw [hparts, hbefore]
          exact hitems
        · rw [hparts, hbefore, pieces, hpieces]
          rfl
    cases hfind : find before (c :: rest) with
    | none => exact hchar (by rw [parts, hfind])
    | some found =>
      obtain ⟨n, a⟩ := found
      cases n with
      | zero => exact hchar (by rw [parts, hfind])
      | succ n =>
        have hsplit : c :: rest = (c :: rest.take n) ++ rest.drop n := by
          rw [List.cons_append, List.take_append_drop]
        have hmore : parts find (rest.take n).length (c :: before) rest =
            parts find 0 ((c :: rest.take n).reverse ++ ([].reverse ++ before)) (rest.drop n) := by
          have hskip := parts_skip find (rest.take n) (c :: before) (rest.drop n)
          rw [List.take_append_drop] at hskip
          simpa using hskip
        have hparts : parts find 0 before (c :: rest) = .item (c :: rest.take n) a ::
            parts find 0 ((c :: rest.take n).reverse ++ ([].reverse ++ before)) (rest.drop n) := by
          rw [parts, hfind, ← hmore]
        refine .some [] (c :: rest.take n) (rest.drop n) a hsplit (List.cons_ne_nil _ _) ?_ ?_ ?_
        · refine ⟨n + 1, ?_, ?_⟩
          · rw [← hsplit]
            exact hfind
          · rw [← hsplit]
            rfl
        · rw [hparts]
          rfl
        · intro f
          rw [hparts]
          rfl

/-- Induction along the items. -/
theorem first_induction (find : Finder α) {P : List Char → List Char → Prop}
    (none : ∀ before rest, items (parts find 0 before rest) = [] →
      (∀ f, pieces f (parts find 0 before rest) = [rest]) → P before rest)
    (some : ∀ before gap text more a, text ≠ [] →
      (∃ n, find (gap.reverse ++ before) (text ++ more) = .some (n, a) ∧
        text = (text ++ more).take n) →
      items (parts find 0 before (gap ++ (text ++ more))) =
        (text, a) :: items (parts find 0 (text.reverse ++ (gap.reverse ++ before)) more) →
      (∀ f, pieces f (parts find 0 before (gap ++ (text ++ more))) =
        (gap ++ f text a) :: pieces f (parts find 0 (text.reverse ++ (gap.reverse ++ before)) more)) →
      P (text.reverse ++ (gap.reverse ++ before)) more → P before (gap ++ (text ++ more)))
    (before rest : List Char) : P before rest := by
  induction hn : rest.length using Nat.strong_induction_on generalizing before rest with
  | _ n ih =>
    cases first find before rest with
    | none hitems hpieces => exact none before rest hitems hpieces
    | some gap text more a hrest hne hfind hitems hpieces =>
      subst hrest
      refine some before gap text more a hne hfind hitems hpieces (ih more.length ?_ _ _ rfl)
      have hpos := List.length_pos_iff.mpr hne
      simp only [List.length_append] at hn
      omega

/-- The pieces put together again are the text. -/
theorem flatten_pieces (find : Finder α) (before rest : List Char) :
    (pieces (fun text _ => text) (parts find 0 before rest)).flatten = rest := by
  induction before, rest using first_induction find with
  | none before rest hitems hpieces =>
    rw [hpieces]
    simp
  | some before gap text more a hne hfind hitems hpieces ih =>
    rw [hpieces, List.flatten_cons, ih, List.append_assoc]

/-- A mark behind each item is a mark between the pieces. -/
theorem render_mark (f : List Char → α → List Char) (mark : List Char) (l : List (Segment α)) :
    render (fun text a => f text a ++ mark) l = mark.intercalate (pieces f l) := by
  induction l with
  | nil => rfl
  | cons part l ih =>
    obtain ⟨piece, more, hpieces⟩ := List.exists_cons_of_ne_nil (pieces_ne_nil f l)
    cases part with
    | char c =>
      rw [render, ih, pieces, hpieces]
      cases more <;> rfl
    | item text a =>
      rw [render, ih, pieces, hpieces, List.intercalate_cons_cons, List.append_assoc]

theorem flatten_pieces_eq_render (f : List Char → α → List Char) (l : List (Segment α)) :
    (pieces f l).flatten = render f l := by
  induction l with
  | nil => rfl
  | cons part l ih =>
    obtain ⟨piece, more, hpieces⟩ := List.exists_cons_of_ne_nil (pieces_ne_nil f l)
    cases part with
    | char c =>
      rw [hpieces] at ih
      rw [render, pieces, hpieces, ← ih]
      rfl
    | item text a => rw [render, pieces, List.flatten_cons, ih]

/-- The parts put together again are the text. -/
theorem render_text (find : Finder α) (before rest : List Char) :
    render (fun text _ => text) (parts find 0 before rest) = rest := by
  rw [← flatten_pieces_eq_render, flatten_pieces]

/-- Where nothing is found, there are only characters. -/
theorem render_of_none (f : List Char → α → List Char)
    (h : ∀ i < rest.length, find ((rest.take i).reverse ++ before) (rest.drop i) = none) :
    render f (parts find 0 before rest) = rest := by
  induction rest generalizing before with
  | nil => rfl
  | cons c rest ih =>
    have hfirst : find before (c :: rest) = none := h 0 (Nat.succ_pos _)
    have hmore : ∀ i < rest.length,
        find ((rest.take i).reverse ++ c :: before) (rest.drop i) = none := by
      intro i hi
      have hnext := h (i + 1) (Nat.succ_lt_succ hi)
      rw [List.take_succ_cons, List.reverse_cons, List.append_assoc, List.drop_succ_cons] at hnext
      exact hnext
    rw [parts, hfirst]
    exact congrArg (c :: ·) (ih hmore)

/-- Where one item is found, the rest are characters. -/
theorem render_of_only (f : List Char → α → List Char) {gap text more : List Char} {a : α}
    (hne : text ≠ []) (hfind : find (gap.reverse ++ before) (text ++ more) = some (text.length, a))
    (h : ∀ i < (gap ++ (text ++ more)).length,
      (find (((gap ++ (text ++ more)).take i).reverse ++ before)
        ((gap ++ (text ++ more)).drop i)).isSome = true → i = gap.length) :
    render f (parts find 0 before (gap ++ (text ++ more))) = gap ++ (f text a ++ more) := by
  induction gap generalizing before with
  | nil =>
    obtain ⟨c, tail, rfl⟩ := List.exists_cons_of_ne_nil hne
    simp only [List.nil_append, List.length_nil, List.reverse_nil] at hfind h ⊢
    have hnone : ∀ i < more.length,
        find ((more.take i).reverse ++ (tail.reverse ++ c :: before)) (more.drop i) = none := by
      intro i hi
      have hlater := h (i + (c :: tail).length) (by rw [List.length_append]; omega)
      have htake : (((c :: tail) ++ more).take (i + (c :: tail).length)).reverse ++ before =
          (more.take i).reverse ++ (tail.reverse ++ c :: before) := by
        rw [Nat.add_comm, List.take_length_add_append]
        simp
      have hdrop : ((c :: tail) ++ more).drop (i + (c :: tail).length) = more.drop i := by
        rw [Nat.add_comm, List.drop_length_add_append]
      rw [htake, hdrop] at hlater
      by_contra hsome
      have hzero := hlater (Option.isSome_iff_ne_none.mpr hsome)
      rw [List.length_cons] at hzero
      omega
    have hitem : parts find 0 before (c :: (tail ++ more)) =
        .item (c :: tail) a :: parts find 0 (tail.reverse ++ c :: before) more := by
      rw [List.cons_append] at hfind
      rw [parts, hfind, List.length_cons]
      dsimp only
      rw [List.take_left, parts_skip]
    rw [List.cons_append, hitem, render, render_of_none f hnone]
  | cons c gap ih =>
    rw [List.cons_append] at h ⊢
    have hfirst : find before (c :: (gap ++ (text ++ more))) = none := by
      by_contra hsome
      have hzero := h 0 (Nat.succ_pos _) (Option.isSome_iff_ne_none.mpr hsome)
      rw [List.length_cons] at hzero
      omega
    have hmore : ∀ i < (gap ++ (text ++ more)).length,
        (find (((gap ++ (text ++ more)).take i).reverse ++ c :: before)
          ((gap ++ (text ++ more)).drop i)).isSome = true → i = gap.length := by
      intro i hi hsome
      have hnext := h (i + 1) (Nat.succ_lt_succ hi)
      rw [List.take_succ_cons, List.reverse_cons, List.append_assoc, List.drop_succ_cons] at hnext
      have hplace := hnext hsome
      rw [List.length_cons] at hplace
      omega
    rw [List.reverse_cons, List.append_assoc] at hfind
    rw [parts, hfirst]
    exact congrArg (c :: ·) (ih hfind hmore)

theorem pieces_congr {f g : List Char → α → List Char} {l : List (Segment α)}
    (h : ∀ item ∈ items l, f item.1 item.2 = g item.1 item.2) : pieces f l = pieces g l := by
  induction l with
  | nil => rfl
  | cons part l ih =>
    cases part with
    | char c =>
      have htail := ih h
      rw [pieces, pieces, htail]
    | item text a =>
      have hitem := h (text, a) List.mem_cons_self
      have htail := ih fun item hi => h item (List.mem_cons_of_mem _ hi)
      rw [pieces, pieces, htail, hitem]

/-- Every item is found at some place. -/
theorem found_of_mem_items {item : List Char × α}
    (h : item ∈ items (parts find 0 before rest)) : ∃ before' more n,
      find before' (item.1 ++ more) = some (n, item.2) ∧ item.1 = (item.1 ++ more).take n := by
  induction before, rest using first_induction find with
  | none before rest hitems hpieces =>
    rw [hitems] at h
    exact absurd h List.not_mem_nil
  | some before gap text more a hne hfind hitems hpieces ih =>
    rw [hitems] at h
    rcases List.mem_cons.mp h with rfl | h
    · obtain ⟨n, hn, htake⟩ := hfind
      exact ⟨gap.reverse ++ before, more, n, hn, htake⟩
    · exact ih h

/-- An item is a part of the text. -/
theorem infix_of_mem_items {item : List Char × α}
    (h : item ∈ items (parts find 0 before rest)) : item.1 <:+: rest := by
  induction before, rest using first_induction find with
  | none before rest hitems hpieces =>
    rw [hitems] at h
    exact absurd h List.not_mem_nil
  | some before gap text more a hne hfind hitems hpieces ih =>
    rw [hitems] at h
    rcases List.mem_cons.mp h with rfl | h
    · exact ⟨gap, more, List.append_assoc _ _ _⟩
    · exact (ih h).trans ⟨gap ++ text, [], by simp⟩

/-- A character occurs in the text with marks as often as in the text and in the marks. -/
theorem count_render_mark (c : Char) (mark : List Char) (l : List (Segment α)) :
    (render (fun text _ => text ++ mark) l).count c =
      (render (fun text _ => text) l).count c + (items l).length * mark.count c := by
  induction l with
  | nil => simp [render, items]
  | cons part l ih =>
    cases part with
    | char d =>
      simp only [render, items, List.count_cons, ih]
      omega
    | item text a =>
      simp only [render, items, List.count_append, List.length_cons, ih, Nat.succ_mul]
      omega

/-- With other items, a character that these do not have does not occur more often. -/
theorem count_render_le {c : Char} {f : List Char → α → List Char} (hf : ∀ text a, c ∉ f text a)
    (l : List (Segment α)) :
    (render f l).count c ≤ (render (fun text _ => text) l).count c := by
  induction l with
  | nil => exact le_refl 0
  | cons part l ih =>
    cases part with
    | char d =>
      simp only [render, List.count_cons]
      omega
    | item text a =>
      simp only [render, List.count_append, List.count_eq_zero_of_not_mem (hf text a)]
      omega

/-- With items that have a character once, and others that do not have it in their places, the
character occurs less often by the number of items. -/
theorem count_render_add {c : Char} {f : List Char → α → List Char} {l : List (Segment α)}
    (honce : ∀ item ∈ items l, item.1.count c = 1)
    (hf : ∀ item ∈ items l, c ∉ f item.1 item.2) :
    (render f l).count c + (items l).length = (render (fun text _ => text) l).count c := by
  induction l with
  | nil => rfl
  | cons part l ih =>
    cases part with
    | char d =>
      have hrest := ih honce hf
      simp only [render, items, List.count_cons]
      omega
    | item text a =>
      have hrest := ih (fun item hi => honce item (List.mem_cons_of_mem _ hi))
        fun item hi => hf item (List.mem_cons_of_mem _ hi)
      have htext : text.count c = 1 := honce (text, a) List.mem_cons_self
      have hnone : (f text a).count c = 0 :=
        List.count_eq_zero_of_not_mem (hf (text, a) List.mem_cons_self)
      simp only [render, items, List.count_append, List.length_cons]
      omega

/-! ## Texts one behind the other -/

theorem items_append (l l' : List (Segment α)) : items (l ++ l') = items l ++ items l' := by
  induction l with
  | nil => rfl
  | cons part l ih =>
    cases part with
    | char c => exact ih
    | item text a => exact congrArg ((text, a) :: ·) ih

theorem render_append (f : List Char → α → List Char) (l l' : List (Segment α)) :
    render f (l ++ l') = render f l ++ render f l' := by
  induction l with
  | nil => rfl
  | cons part l ih =>
    cases part with
    | char c => exact congrArg (c :: ·) ih
    | item text a => exact (congrArg (f text a ++ ·) ih).trans (List.append_assoc _ _ _).symm

/-- What is found in the first text is the same with and without the second one. -/
def Apart (find : Finder α) (before text more : List Char) : Prop :=
  ∀ front rest, rest ≠ [] → text = front ++ rest →
    find (front.reverse ++ before) (rest ++ more) = find (front.reverse ++ before) rest

theorem Apart.tail {find : Finder α} {before text more : List Char} {c : Char}
    (h : Apart find before (c :: text) more) : Apart find (c :: before) text more := by
  intro front rest hne htext
  have hcons := h (c :: front) rest hne (by rw [htext]; rfl)
  rwa [List.reverse_cons, List.append_assoc, List.singleton_append] at hcons

theorem parts_append {find : Finder α} (hle : ∀ before rest n a,
      find before rest = some (n, a) → n ≤ rest.length) {before text more : List Char} {skip : ℕ}
    (hskip : skip ≤ text.length) (h : Apart find before text more) :
    parts find skip before (text ++ more) =
      parts find skip before text ++ parts find 0 (text.reverse ++ before) more := by
  induction text generalizing before skip with
  | nil =>
    obtain rfl := Nat.le_zero.mp hskip
    rfl
  | cons c cs ih =>
    have hbefore : (c :: cs).reverse ++ before = cs.reverse ++ c :: before := by simp
    rw [hbefore, List.cons_append]
    cases skip with
    | succ skip => exact ih (Nat.le_of_succ_le_succ hskip) h.tail
    | zero =>
      have hsame : find before (c :: (cs ++ more)) = find before (c :: cs) :=
        h [] (c :: cs) (List.cons_ne_nil c cs) rfl
      have hchar := congrArg (Segment.char c :: ·) (ih (Nat.zero_le _) h.tail)
      cases hfind : find before (c :: cs) with
      | none =>
        rw [parts, parts, hsame, hfind]
        exact hchar
      | some found =>
        obtain ⟨n, a⟩ := found
        cases n with
        | zero =>
          rw [parts, parts, hsame, hfind]
          exact hchar
        | succ n =>
          have hn : n ≤ cs.length := Nat.le_of_succ_le_succ (hle before (c :: cs) (n + 1) a hfind)
          have htake : (cs ++ more).take n = cs.take n := List.take_append_of_le_length hn
          have hlength : (cs.take n).length ≤ cs.length := by
            rw [List.length_take]
            omega
          rw [parts, parts, hsame, hfind]
          dsimp only
          rw [htake, ih hlength h.tail]
          rfl

/-- Where the text before a place makes no difference. -/
theorem parts_before {find : Finder α} (h : ∀ before before' rest, find before rest = find before' rest)
    (skip : ℕ) (before before' rest : List Char) :
    parts find skip before rest = parts find skip before' rest := by
  induction rest generalizing skip before before' with
  | nil => cases skip <;> rfl
  | cons c rest ih =>
    cases skip with
    | succ skip => exact ih skip _ _
    | zero =>
      rw [parts, parts, h before before']
      split
      · exact congrArg _ (ih _ _ _)
      · exact congrArg _ (ih _ _ _)

/-! ## Marks -/

/-- Where a mark begins with a character that does not occur in it again, and it occurs in none
of the pieces, the text with marks between the pieces determines them. -/
theorem intercalate_inj {mark : List Char} {c : Char} {tail : List Char} (hmark : mark = c :: tail)
    (hc : c ∉ tail) {l l' : List (List Char)} (hl : l ≠ []) (hl' : l' ≠ [])
    (hpieces : ∀ piece ∈ l, ¬ mark <:+: piece) (hpieces' : ∀ piece ∈ l', ¬ mark <:+: piece)
    (h : mark.intercalate l = mark.intercalate l') : l = l' := by
  -- a piece does not go on where another one ends
  have hsame : ∀ {piece piece' more more' : List Char}, ¬ mark <:+: piece' →
      piece ++ (mark ++ more) = piece' ++ (mark ++ more') → piece.length ≤ piece'.length →
      piece = piece' := by
    intro piece piece' more more' hnot heq hle
    rcases List.append_eq_append_iff.mp heq with ⟨front, rfl, hfront⟩ | ⟨front, rfl, hfront⟩
    · cases front with
      | nil => rw [List.append_nil]
      | cons d front =>
        exfalso
        rw [hmark, List.cons_append, List.cons_append, List.cons_append] at hfront
        obtain ⟨rfl, hfront'⟩ := List.cons.inj hfront
        rcases List.append_eq_append_iff.mp hfront' with ⟨rest, rfl, hrest⟩ | ⟨rest, rfl, hrest⟩
        · refine hnot ⟨piece, rest, ?_⟩
          rw [hmark]
          simp
        · cases rest with
          | nil =>
            refine hnot ⟨piece, [], ?_⟩
            rw [hmark]
            simp
          | cons e rest =>
            obtain ⟨rfl, -⟩ := List.cons.inj hrest
            exact hc (List.mem_append_right _ List.mem_cons_self)
    · have hnil : front = [] := by
        rw [List.length_append] at hle
        exact List.length_eq_zero_iff.mp (by omega)
      rw [hnil, List.append_nil]
  induction l generalizing l' with
  | nil => exact absurd rfl hl
  | cons piece l ih =>
    obtain ⟨piece', l', rfl⟩ := List.exists_cons_of_ne_nil hl'
    have hpiece := hpieces piece List.mem_cons_self
    have hpiece' := hpieces' piece' List.mem_cons_self
    cases l with
    | nil =>
      cases l' with
      | nil => simpa using h
      | cons next' l' =>
        rw [List.intercalate_singleton, List.intercalate_cons_cons] at h
        exact absurd ⟨piece', mark.intercalate (next' :: l'), h.symm⟩ hpiece
    | cons next l =>
      cases l' with
      | nil =>
        rw [List.intercalate_singleton, List.intercalate_cons_cons] at h
        exact absurd ⟨piece, mark.intercalate (next :: l), h⟩ hpiece'
      | cons next' l' =>
        rw [List.intercalate_cons_cons, List.intercalate_cons_cons, List.append_assoc,
          List.append_assoc] at h
        have heq : piece = piece' := by
          rcases Nat.le_total piece.length piece'.length with hle | hle
          · exact hsame hpiece' h hle
          · exact (hsame hpiece h.symm hle).symm
        subst heq
        have hrest := List.append_cancel_left (List.append_cancel_left h)
        rw [ih (List.cons_ne_nil _ _) (List.cons_ne_nil _ _)
          (fun p hp => hpieces p (List.mem_cons_of_mem _ hp))
          (fun p hp => hpieces' p (List.mem_cons_of_mem _ hp)) hrest]

/-- A mark does not lie across the place where the second text begins with its first character. -/
theorem infix_append_of_head {mark : List Char} {c : Char} {tail front back : List Char}
    (hmark : mark = c :: tail) (hc : c ∉ tail) (h : mark <:+: front ++ c :: back) :
    mark <:+: front ∨ mark <:+: c :: back := by
  obtain ⟨start, rest, heq⟩ := h
  rw [List.append_assoc] at heq
  rcases List.append_eq_append_iff.mp heq with ⟨more, hfront, hmore⟩ | ⟨more, hstart, hmore⟩
  · rcases List.append_eq_append_iff.mp hmore with ⟨gap, hgap, -⟩ | ⟨gap, hgap, hback⟩
    · exact Or.inl ⟨start, gap, by rw [hfront, hgap, List.append_assoc]⟩
    · cases more with
      | nil => exact Or.inr ⟨[], rest, by simpa using hmore⟩
      | cons d more =>
        cases gap with
        | nil => exact Or.inl ⟨start, [], by rw [hfront, hgap]; simp⟩
        | cons e gap =>
          obtain ⟨rfl, -⟩ := List.cons.inj hback
          rw [hmark, List.cons_append] at hgap
          obtain ⟨-, rfl⟩ := List.cons.inj hgap
          exact absurd (List.mem_append_right _ List.mem_cons_self) hc
  · exact Or.inr ⟨more, rest, by rw [List.append_assoc]; exact hmore.symm⟩

/-! ## Expressions -/

/-- The matches of an expression. -/
def matches_of (p : Pattern) : Finder (List (List Char)) := fun _ text =>
  (p.at_start text).map fun m => (text.length - m.2.length, m.1)

/-- An expression that matches no empty text. -/
def Consumes (p : Pattern) : Prop :=
  ∀ text m, p.at_start text = some m → m.2.length < text.length

theorem consumes_of_text {word : String} {q : Pattern} (hword : word.toList ≠ []) :
    Consumes (Pattern.seq (Pattern.text word) q) := by
  intro text m hm
  obtain ⟨first, hfirst, second, hsecond, rfl⟩ := Pattern.mem_ways_seq.mp (List.mem_of_head? hm)
  have hprefix : word.toList <+: text := by
    by_contra hnot
    rw [Pattern.ways_text_eq_nil hnot] at hfirst
    exact absurd hfirst List.not_mem_nil
  obtain ⟨rest, rfl⟩ := hprefix
  rw [Pattern.ways_text] at hfirst
  obtain rfl := List.mem_singleton.mp hfirst
  have hle : second.2.length ≤ rest.length := Pattern.length_left_le q hsecond
  have hpos := List.length_pos_iff.mpr hword
  rw [List.length_append]
  exact Nat.lt_of_le_of_lt hle (by omega)

theorem matches_of_none {p : Pattern} {text : List Char} (h : p.at_start text = none)
    (before : List Char) : matches_of p before text = none := by
  rw [matches_of, h]
  rfl

theorem matches_of_some {p : Pattern} (hp : Consumes p) {c : Char} {text rest : List Char}
    {groups : List (List Char)} (h : p.at_start (c :: text) = some (groups, rest))
    (before : List Char) :
    matches_of p before (c :: text) = some (text.length - rest.length + 1, groups) := by
  have hlt : rest.length < (c :: text).length := hp _ _ h
  rw [matches_of, h, Option.map_some, List.length_cons,
    Nat.sub_add_comm (Nat.le_of_lt_succ hlt)]

theorem sub_from_eq_render {p : Pattern} (hp : Consumes p)
    (replacement : List (List Char) → List Char) (skip : ℕ) (before text : List Char) :
    p.sub_from replacement skip text =
      render (fun _ groups => replacement groups) (parts (matches_of p) skip before text) := by
  induction text generalizing skip before with
  | nil =>
    cases skip <;> rfl
  | cons c text ih =>
    cases skip with
    | succ skip => exact ih skip (c :: before)
    | zero =>
      cases hstart : p.at_start (c :: text) with
      | none =>
        rw [parts, matches_of_none hstart, render, Pattern.sub_from, hstart]
        exact congrArg (c :: ·) (ih 0 (c :: before))
      | some m =>
        obtain ⟨groups, rest⟩ := m
        have hfind := matches_of_some hp hstart before
        have hlength : (text.take (text.length - rest.length)).length =
            text.length - rest.length := by
          rw [List.length_take]
          omega
        rw [parts, hfind, Pattern.sub_from, hstart]
        show _ = replacement groups ++ render _ _
        rw [hlength]
        exact congrArg (replacement groups ++ ·) (ih _ (c :: before))

/-- `sub` puts the replacement in the place of each match. -/
theorem sub_eq_render {p : Pattern} (hp : Consumes p)
    (replacement : List (List Char) → List Char) (before text : List Char) :
    p.sub replacement text =
      render (fun _ groups => replacement groups) (parts (matches_of p) 0 before text) :=
  sub_from_eq_render hp replacement 0 before text

/-- `search` gives the groups of the first match. -/
theorem search_eq_head {p : Pattern} (hp : Consumes p) (before text : List Char) :
    p.search text = ((items (parts (matches_of p) 0 before text)).head?).map Prod.snd := by
  induction text generalizing before with
  | nil =>
    cases hstart : p.at_start [] with
    | none =>
      rw [Pattern.search, hstart]
      rfl
    | some m => exact absurd (hp _ _ hstart) (Nat.not_lt_zero _)
  | cons c text ih =>
    cases hstart : p.at_start (c :: text) with
    | none =>
      rw [parts, matches_of_none hstart, Pattern.search, hstart]
      exact ih (c :: before)
    | some m =>
      obtain ⟨groups, rest⟩ := m
      rw [parts, matches_of_some hp hstart before, Pattern.search, hstart]
      rfl

/-! ## Matches that are items -/

/-- No match begins in a text that is followed by another one. -/
def Unmatched (p : Pattern) (text rest : List Char) : Prop :=
  ∀ back, back <:+ text → back ≠ [] → p.at_start (back ++ rest) = none

/-- The matches in a text are certain of its items. -/
def Placed (p : Pattern) (f : List Char → α → List Char) (hit : α → Bool) :
    List (Segment α) → Prop
  | [] => True
  | .char c :: l => p.at_start (c :: render f l) = none ∧ Placed p f hit l
  | .item text a :: l =>
    (if hit a then f text a ≠ [] ∧
        ∃ groups, p.at_start (f text a ++ render f l) = some (groups, render f l)
      else Unmatched p (f text a) (render f l)) ∧ Placed p f hit l

theorem sub_from_length (p : Pattern) (replacement : List (List Char) → List Char)
    (front rest : List Char) :
    p.sub_from replacement front.length (front ++ rest) = p.sub replacement rest := by
  induction front with
  | nil => rfl
  | cons c front ih => exact ih

theorem sub_unmatched {p : Pattern} {text rest : List Char} (h : Unmatched p text rest)
    (replacement : List (List Char) → List Char) :
    p.sub replacement (text ++ rest) = text ++ p.sub replacement rest := by
  induction text with
  | nil => rfl
  | cons c text ih =>
    have hhead : p.at_start (c :: (text ++ rest)) = none :=
      h (c :: text) (List.suffix_refl _) (List.cons_ne_nil _ _)
    have htail : Unmatched p text rest :=
      fun back hback hne => h back (hback.trans (List.suffix_cons c text)) hne
    rw [List.cons_append, Pattern.sub, Pattern.sub_from, hhead]
    exact congrArg (c :: ·) (ih htail)

theorem sub_matched {p : Pattern} {text rest : List Char} {groups : List (List Char)}
    (hne : text ≠ []) (h : p.at_start (text ++ rest) = some (groups, rest))
    (replacement : List (List Char) → List Char) :
    p.sub replacement (text ++ rest) = replacement groups ++ p.sub replacement rest := by
  obtain ⟨c, tail, rfl⟩ := List.exists_cons_of_ne_nil hne
  rw [List.cons_append] at h ⊢
  have hskip : (tail ++ rest).length - rest.length = tail.length := by
    rw [List.length_append, Nat.add_sub_cancel]
  rw [Pattern.sub, Pattern.sub_from, h]
  dsimp only
  rw [hskip, sub_from_length]

/-- Where the matches are certain items, `sub` replaces these items. -/
theorem sub_render {p : Pattern} {f : List Char → α → List Char} {hit : α → Bool}
    {l : List (Segment α)} (h : Placed p f hit l) (new : List Char) :
    p.sub (fun _ => new) (render f l) =
      render (fun text a => if hit a then new else f text a) l := by
  induction l with
  | nil => rfl
  | cons part l ih =>
    cases part with
    | char c =>
      obtain ⟨hnone, hrest⟩ := h
      rw [render, render, Pattern.sub, Pattern.sub_from, hnone]
      exact congrArg (c :: ·) (ih hrest)
    | item text a =>
      obtain ⟨hitem, hrest⟩ := h
      rw [render, render]
      by_cases ha : hit a = true
      · rw [if_pos ha] at hitem ⊢
        obtain ⟨hne, groups, hmatch⟩ := hitem
        rw [sub_matched hne hmatch, ih hrest]
      · rw [if_neg ha] at hitem ⊢
        rw [sub_unmatched hitem, ih hrest]

end Parts
