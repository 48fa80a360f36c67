import DaqInterface.Properties.TableContext

/-!
# The ranges of tables

In a text whose braces are closed, `table_range` answers with the first place at which a table of
the name begins, up to the brace that closes it (`table_range_first`); the name may be the end of a
longer key there.  `enclosing_table_range` finds the brace that is open at a place, but ends its
range at the next brace of either kind: it answers with the innermost table around the place exactly
where no table begins between the place and the end of this table (`enclosing_found_iff`).
-/

namespace DaqInterface

open Scan

variable {key text rest : List Char}

/-! ## The table around a place -/

/-- The innermost table around the place `loc`, from its opening brace at `i` to just behind the
brace that closes it: what stands in it before and behind the place is balanced. -/
def Encloses (text : List Char) (loc i j : ℕ) : Prop :=
  ∃ before seen left after,
    text = before ++ braces.opening :: (seen ++ (left ++ braces.closing :: after)) ∧
    braces.Balanced seen ∧ braces.Balanced left ∧
    i = before.length ∧ loc = i + 1 + seen.length ∧ j = loc + left.length + 1

/-- Around the first place of a text, the innermost table is found; where none is open there, none
is. -/
def EnclosingFound (text searchstring : List Char) : Prop :=
  ∀ loc, find searchstring text 0 = some loc →
    if braces.level 0 (text.take loc) = some 0 then enclosing_table_range text searchstring 0 = none
    else ∃ i j, Encloses text loc i j ∧ enclosing_table_range text searchstring 0 = some (i, j)

/-- A brace of either kind. -/
def isBrace (c : Char) : Bool := c == braces.opening || c == braces.closing

/-- The next brace of either kind. -/
def next_brace (rest : List Char) : Option ℕ :=
  first_at (fun rest => rest.head? = some braces.opening || rest.head? = some braces.closing) rest

theorem next_brace_eq {before after : List Char} {c : Char} (hc : isBrace c = true)
    (hbefore : ∀ d ∈ before, isBrace d = false) :
    next_brace (before ++ c :: after) = some before.length := by
  unfold next_brace
  refine first_at_eq_some.mpr ⟨by simp, ?_, fun j hj => ?_⟩
  · rw [List.drop_left]
    simpa [isBrace] using hc
  · have hplain : isBrace before[j] = false := hbefore _ (List.getElem_mem hj)
    rw [List.drop_append_of_le_length hj.le, List.drop_eq_getElem_cons hj, List.cons_append,
      List.head?_cons]
    simpa [isBrace] using hplain

/-- The next brace is at most as far as any brace. -/
theorem next_brace_le {before after : List Char} {c : Char} (hc : isBrace c = true) {k : ℕ}
    (h : next_brace (before ++ c :: after) = some k) : k ≤ before.length := by
  by_contra hlt
  have hfail := (first_at_eq_some.mp h).2.2 before.length (by omega)
  rw [List.drop_left, List.head?_cons] at hfail
  have hbrace : isBrace c = false := by simpa [isBrace] using hfail
  rw [hbrace] at hc
  cases hc

/-- A text without opening braces in which every brace is closed has no closing ones. -/
theorem no_brace_of_balanced {inside : List Char} (hinside : braces.Balanced inside)
    (hopening : braces.opening ∉ inside) : ∀ c ∈ inside, isBrace c = false := by
  induction inside with
  | nil => exact fun c hc => absurd hc List.not_mem_nil
  | cons c inside ih =>
    have hc : c ≠ braces.opening := fun h => hopening (h ▸ List.mem_cons_self)
    unfold Brackets.Balanced Brackets.level at hinside
    rw [if_neg hc] at hinside
    split_ifs at hinside with hclosing hzero
    · exact absurd rfl hzero
    · intro d hd
      rcases List.mem_cons.mp hd with rfl | hd
      · simp [isBrace, hc, hclosing]
      · exact ih hinside (fun h => hopening (List.mem_cons_of_mem c h)) d hd

/-- At a place, the brace that is open is found and the next brace ends the range. -/
theorem enclosing_table_range_eq {searchstring : List Char} {loc : ℕ}
    (hfind : find searchstring text 0 = some loc) :
    enclosing_table_range text searchstring 0 =
      (braces.open_at 0 (text.take loc).reverse).bind fun distance =>
        (next_brace (text.drop loc)).map fun closing => (loc - 1 - distance, loc + closing + 1) := by
  unfold enclosing_table_range
  rw [hfind]
  rfl

/-- Where braces are open at a place, there is an innermost table around it. -/
theorem exists_encloses (hbalanced : braces.Balanced text) {loc : ℕ} (hloc : loc ≤ text.length)
    (hopen : braces.level 0 (text.take loc) ≠ some 0) : ∃ i j, Encloses text loc i j := by
  have hsplit : (braces.level 0 (text.take loc)).bind (fun d => braces.level d (text.drop loc)) =
      some 0 := by
    rw [← Brackets.level_append, List.take_append_drop]
    exact hbalanced
  obtain ⟨d, hd, hrest⟩ := Option.bind_eq_some_iff.mp hsplit
  obtain ⟨e, rfl⟩ : ∃ e, d = e + 1 := Nat.exists_eq_succ_of_ne_zero fun h => hopen (h ▸ hd)
  obtain ⟨before, seen, htake, hseen, -⟩ := (Brackets.open_at_of_level hd).1 (Nat.succ_pos e)
  obtain ⟨left, after, hdrop, hleft, -, -⟩ := @Brackets.close_at_of_level _ _ braces 0 e _ hrest
  have hlength := congrArg List.length htake
  rw [List.length_take, Nat.min_eq_left hloc, List.length_append, List.length_cons] at hlength
  refine ⟨before.length, loc + left.length + 1, before, seen, left, after, ?_, hseen, hleft, rfl,
    by omega, rfl⟩
  rw [← List.take_append_drop loc text, htake, hdrop]
  simp

/-- What is found at a place with a table around it. -/
theorem Encloses.range {searchstring : List Char} {loc i j : ℕ} (h : Encloses text loc i j)
    (hbalanced : braces.Balanced text) (hfind : find searchstring text 0 = some loc) :
    braces.level 0 (text.take loc) ≠ some 0 ∧
      enclosing_table_range text searchstring 0 =
        (next_brace (text.drop loc)).map fun closing => (i, loc + closing + 1) := by
  obtain ⟨before, seen, left, after, rfl, hseen, hleft, rfl, rfl, rfl⟩ := h
  have htake : (before ++ braces.opening :: (seen ++ (left ++ braces.closing :: after))).take
      (before.length + 1 + seen.length) = before ++ braces.opening :: seen := by
    rw [← List.cons_append, ← List.append_assoc]
    exact List.take_left' (by simp [Nat.add_assoc, Nat.add_comm 1])
  obtain ⟨d, hd⟩ : ∃ d, braces.level 0 before = some d := by
    unfold Brackets.Balanced at hbalanced
    rw [Brackets.level_append] at hbalanced
    obtain ⟨d, hd, -⟩ := Option.bind_eq_some_iff.mp hbalanced
    exact ⟨d, hd⟩
  have hlevel : braces.level 0 (before ++ braces.opening :: seen) = some (d + 1) := by
    rw [Brackets.level_append, hd, Option.bind_some]
    unfold Brackets.level
    rw [if_pos rfl]
    exact hseen.level (d + 1)
  rw [enclosing_table_range_eq hfind, htake, hlevel]
  obtain ⟨before', seen', heq, hseen', hat⟩ :=
    (Brackets.open_at_of_level hlevel).1 (Nat.succ_pos d)
  have hsame : seen = seen' := hseen.eq_of_opening_append hseen' heq
  rw [hat, ← hsame, Option.bind_some]
  refine ⟨fun h => Nat.succ_ne_zero d (Option.some.inj h), ?_⟩
  have hopening : before.length + 1 + seen.length - 1 - seen.length = before.length := by omega
  rw [hopening]

/-- What stands behind a place in the innermost table around it. -/
theorem Encloses.behind {loc i j : ℕ} (h : Encloses text loc i j) :
    ∃ left after, text.drop loc = left ++ braces.closing :: after ∧ braces.Balanced left ∧
      j = loc + left.length + 1 ∧ (text.take j).drop loc = left ++ [braces.closing] := by
  obtain ⟨before, seen, left, after, rfl, -, hleft, rfl, rfl, rfl⟩ := h
  have hdrop : (before ++ braces.opening :: (seen ++ (left ++ braces.closing :: after))).drop
      (before.length + 1 + seen.length) = left ++ braces.closing :: after := by
    rw [← List.cons_append, ← List.append_assoc]
    exact List.drop_left' (by simp [Nat.add_assoc, Nat.add_comm 1])
  refine ⟨left, after, hdrop, hleft, rfl, ?_⟩
  have hcount : before.length + 1 + seen.length + left.length + 1 -
      (before.length + 1 + seen.length) = (left ++ [braces.closing]).length := by
    rw [List.length_append, List.length_singleton]
    omega
  have hsplit : left ++ braces.closing :: after = (left ++ [braces.closing]) ++ after := by simp
  rw [List.drop_take, hdrop, hcount, hsplit, List.take_left]

theorem find_le_length {searchstring : List Char} {loc : ℕ}
    (hfind : find searchstring text 0 = some loc) : loc ≤ text.length := by
  obtain ⟨i, hi, rfl⟩ := Option.map_eq_some_iff.mp hfind
  rw [Nat.zero_add]
  exact (first_at_eq_some.mp hi).1

/-- In a text whose braces are closed, the innermost table around the first place of a string is
found exactly where no table begins between this place and the end of the table. -/
theorem enclosing_found_iff {searchstring : List Char} (hbalanced : braces.Balanced text) :
    EnclosingFound text searchstring ↔
      ∀ loc i j, find searchstring text 0 = some loc → Encloses text loc i j →
        braces.opening ∉ (text.take j).drop loc := by
  constructor
  · intro h loc i j hfind hencloses hmem
    have hfound := h loc hfind
    rw [if_neg (hencloses.range hbalanced hfind).1] at hfound
    obtain ⟨i', j', hencloses', hanswer⟩ := hfound
    obtain ⟨left, after, hdrop, hleft, rfl, htable⟩ := hencloses.behind
    obtain ⟨left', after', hdrop', hleft', rfl, -⟩ := hencloses'.behind
    obtain rfl := hleft.eq_of_append_closing hleft' (hdrop.symm.trans hdrop')
    -- the next brace would have to be the one that closes the table
    rw [(hencloses'.range hbalanced hfind).2] at hanswer
    obtain ⟨closing, hnext, hpair⟩ := Option.map_eq_some_iff.mp hanswer
    have hclosing : closing = left.length := by
      have hend := (Prod.mk.inj hpair).2
      omega
    rw [htable] at hmem
    have hopening : braces.opening ∈ left := by
      rcases List.mem_append.mp hmem with hmem | hmem
      · exact hmem
      · exact absurd (List.mem_singleton.mp hmem) braces.ne
    obtain ⟨front, back, rfl⟩ := List.append_of_mem hopening
    rw [hdrop, List.append_assoc, List.cons_append] at hnext
    have hle := next_brace_le (by decide) hnext
    rw [hclosing, List.length_append, List.length_cons] at hle
    omega
  · intro h loc hfind
    split_ifs with hlevel
    · rw [enclosing_table_range_eq hfind, (Brackets.open_at_of_level hlevel).2 le_rfl]
      rfl
    · obtain ⟨i, j, hencloses⟩ := exists_encloses hbalanced (find_le_length hfind) hlevel
      refine ⟨i, j, hencloses, ?_⟩
      have hopening := h loc i j hfind hencloses
      obtain ⟨left, after, hdrop, hleft, rfl, htable⟩ := hencloses.behind
      rw [htable] at hopening
      have hplain := no_brace_of_balanced hleft fun hmem => hopening (List.mem_append_left _ hmem)
      rw [(hencloses.range hbalanced hfind).2, hdrop, next_brace_eq (by decide) hplain]
      rfl

/-- The range around an output without tables behind it is the table. -/
theorem plain_output_found : EnclosingFound "out: \x7b a: \x7b\x7d b: x \x7d".toList "b:".toList := by
  refine (enclosing_found_iff (by decide)).mpr fun loc i j hfind _ hmem => ?_
  have hloc : find "b:".toList "out: \x7b a: \x7b\x7d b: x \x7d".toList 0 = some 13 := by decide
  obtain rfl := Option.some.inj (hloc.symm.trans hfind)
  rw [List.drop_take] at hmem
  exact absurd (List.mem_of_mem_take hmem) (by decide)

/-- A table with a table in it. -/
def nested_output : List Char := "out: \x7b b: x a: \x7b\x7d \x7d".toList

/-- The range that is found ends at the table that begins behind the place. -/
theorem nested_output_cut : braces.Balanced nested_output ∧ ¬ EnclosingFound nested_output "b:".toList := by
  refine ⟨by decide, fun h => ?_⟩
  have hfind : find "b:".toList nested_output 0 = some 7 := by decide
  have hrange : enclosing_table_range nested_output "b:".toList 0 = some (5, 16) := by decide
  have hfound := h 7 hfind
  rw [if_neg (by decide), hrange] at hfound
  obtain ⟨i, j, hencloses, hanswer⟩ := hfound
  obtain ⟨rfl, rfl⟩ := Prod.mk.inj (Option.some.inj hanswer)
  obtain ⟨left, -, -, -, -, htable⟩ := hencloses.behind
  have hlast := congrArg List.getLast? htable
  rw [List.getLast?_concat] at hlast
  exact absurd hlast (by decide)

/-! ## Tables of a name -/

/-- A table of a name, from its first letter to just behind the brace that closes it. -/
def TableOf (text key : List Char) (table_start table_end : ℕ) : Prop :=
  ∃ before spaces spaces' inside after,
    text = before ++ (key ++ spaces ++ ':' :: spaces' ++ braces.opening ::
      (inside ++ [braces.closing])) ++ after ∧
    (∀ c ∈ spaces, isSpace c = true) ∧ (∀ c ∈ spaces', isSpace c = true) ∧
    braces.Balanced inside ∧ table_start = before.length ∧
    table_end = table_start + (key ++ spaces ++ ':' :: spaces' ++ braces.opening ::
      (inside ++ [braces.closing])).length

/-- `table_range` answers with the first place, from `startingloc` on, where a table of the name
begins that is admitted, up to the brace that closes it, and with nothing where there is none. -/
def FindsTable (text key : List Char) (startingloc : ℕ) (admitted : ℕ → Prop) : Prop :=
  ((∀ j, startingloc ≤ j → BeginsTable key (text.drop j) → ¬ admitted j) ∧
      table_range text key startingloc = .ok none) ∨
    ∃ table_start table_end, startingloc ≤ table_start ∧ admitted table_start ∧
      TableOf text key table_start table_end ∧
      (∀ j, startingloc ≤ j → j < table_start → BeginsTable key (text.drop j) → ¬ admitted j) ∧
      table_range text key startingloc = .ok (some (table_start, table_end))

/-- The name that begins at a place is not the end of a longer one. -/
def WholeKey (text : List Char) (j : ℕ) : Prop := (text.take j).getLast?.all fun c => !isKeyChar c

/-- A name made of the characters of keys. -/
structure KeyName (key : List Char) : Prop where
  ne_nil : key ≠ []
  keyChars : ∀ c ∈ key, isKeyChar c = true

theorem KeyName.plain (hkey : KeyName key) : PlainName key := by
  have hother : ∀ d, isKeyChar d = false → d ∉ key := by
    intro d hd hmem
    rw [hkey.keyChars d hmem] at hd
    cases hd
  refine ⟨hkey.ne_nil, fun c hc => ⟨?_, ?_⟩, fun c hc => ?_, fun hinfix => ?_⟩
  · rintro rfl
    exact hother _ (by decide) hc
  · rintro rfl
    exact hother _ (by decide) hc
  · by_contra hspace
    rw [Bool.not_eq_false] at hspace
    exact hother c (not_isKeyChar_of_space hspace) hc
  · have hat : '@' ∈ key ++ ": \x7b ".toList := hinfix.subset (by decide)
    rcases List.mem_append.mp hat with hat | hat
    · exact hother '@' (by decide) hat
    · exact absurd hat (by decide)

/-- In a document without references whose braces are closed, `table_range` finds the first table of
the name, which may be the end of a longer key. -/
theorem table_range_first (hkey : KeyName key) (hsane : Sane text) (startingloc : ℕ) :
    FindsTable text key startingloc fun _ => True := by
  rcases table_range_eq hkey.plain hsane.no_reference startingloc with
    ⟨hnone, hno⟩ | ⟨loc, hle, hloc, hfirst, heq⟩
  · left
    refine ⟨fun j hj hbegins => ?_, hnone⟩
    have hopens := opens_table_iff.mpr hbegins
    rw [hno j hj] at hopens
    cases hopens
  · right
    obtain ⟨d, hd⟩ := level_drop hsane.balanced loc
    obtain ⟨spaces, spaces', tail, hdrop, hspaces, hspaces'⟩ := opens_table_iff.mp hloc
    rw [hdrop] at hd
    obtain ⟨inside, after, rfl, hinside, hlength⟩ :=
      @table_length_eq key _ _ _ (no_braces_of_head hkey.plain hspaces hspaces') hd
    rw [← hdrop] at hlength
    have hlt : loc ≤ text.length := by
      by_contra hgt
      rw [List.drop_eq_nil_of_le (by omega)] at hdrop
      simp at hdrop
    rw [hlength] at heq
    refine ⟨loc, _, hle, trivial, ⟨text.take loc, spaces, spaces', inside, after, ?_, hspaces,
      hspaces', hinside, ?_, rfl⟩, fun j hj hlt hbegins => ?_, ?_⟩
    · calc text = text.take loc ++ text.drop loc := (List.take_append_drop loc text).symm
        _ = _ := by rw [hdrop]; simp
    · rw [List.length_take, Nat.min_eq_left hlt]
    · have hopens := opens_table_iff.mpr hbegins
      rw [hfirst j hj hlt] at hopens
      cases hopens
    · rw [heq]
      simp only [List.length_append, List.length_cons, List.length_nil, Except.map]
      congr 3
      omega

/-- Two tables, the key of the first of which ends with the key of the second. -/
def longer_key_first : List Char := "my_art: \x7b \x7d art: \x7b \x7d".toList

theorem longer_key_first_sane : Sane longer_key_first := ⟨by decide, by decide⟩

theorem art_key : KeyName "art".toList := ⟨by decide, forall_of_all (by decide)⟩

/-- The first of the two tables is found. -/
theorem longer_key_found : FindsTable longer_key_first "art".toList 0 fun _ => True :=
  table_range_first art_key longer_key_first_sane 0

/-- The table whose key is the name is not found. -/
theorem whole_key_not_found : KeyName "art".toList ∧ Sane longer_key_first ∧
    ¬ FindsTable longer_key_first "art".toList 0 (WholeKey longer_key_first) := by
  have hrange : table_range longer_key_first "art".toList 0 = .ok (some (3, 11)) := by
    decide +kernel
  refine ⟨art_key, longer_key_first_sane, ?_⟩
  rintro (⟨-, hnone⟩ | ⟨table_start, table_end, -, hwhole, -, -, hsome⟩)
  · rw [hrange] at hnone
    cases hnone
  · rw [hrange] at hsome
    obtain ⟨rfl, rfl⟩ := Prod.mk.inj (Option.some.inj (Except.ok.inj hsome))
    exact absurd hwhole (by unfold WholeKey; decide)

end DaqInterface
