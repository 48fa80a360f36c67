import DaqInterface.Model.FhiclTables
import DaqInterface.Properties.Links

/-!
# What the search for tables finds

In a document without references, `table_range` finds the first place where a table of the
name begins, and the text up to its closing brace (`table_range_eq`); the loop over the tables
leaves a document without references (`Ranged.turn`), and a well-braced one well-braced
(`Sane.replace`), so that the search for tables never fails there
(`Visited.searchable`).
-/

namespace DaqInterface

open Scan

variable {key text rest : List Char}

/-! ## Places where a table begins -/

/-- A name for which tables can be searched. -/
structure PlainName (key : List Char) : Prop where
  ne_nil : key ≠ []
  /-- It has no braces. -/
  no_braces : ∀ c ∈ key, c ≠ braces.opening ∧ c ≠ braces.closing
  /-- It is one word. -/
  no_space : ∀ c ∈ key, isSpace c = false
  /-- It does not speak of a reference. -/
  no_reference : ¬ "@local::".toList <:+: key ++ ": \x7b ".toList

theorem tablename_plain (nodetype : NodeType) : PlainName nodetype.tablename.toList := by
  cases nodetype
  · exact ⟨by decide, forall_of_all (by decide), forall_of_all (by decide), by decide⟩
  · exact ⟨by decide, forall_of_all (by decide), forall_of_all (by decide), by decide⟩

theorem not_isSpace_of_brace {c : Char} (h : isSpace c = true) :
    c ≠ braces.opening ∧ c ≠ braces.closing := by
  constructor
  · rintro rfl
    revert h
    decide
  · rintro rfl
    revert h
    decide

/-- What stands behind a colon is the end of the text. -/
theorem behind_colon_eq {more : List Char} (h : behind_colon key rest = some more) :
    ∃ spaces spaces', rest = key ++ spaces ++ ':' :: spaces' ++ more ∧
      (∀ c ∈ spaces, isSpace c = true) ∧ ∀ c ∈ spaces', isSpace c = true := by
  unfold behind_colon at h
  split_ifs at h with hstarts
  split at h
  · rename_i more' hcolon
    obtain ⟨tail, rfl⟩ := hstarts
    rw [List.drop_left] at hcolon
    refine ⟨tail.takeWhile isSpace, more'.takeWhile isSpace, ?_,
      List.all_eq_true.mp List.all_takeWhile, List.all_eq_true.mp List.all_takeWhile⟩
    rw [← Option.some.inj h, List.append_assoc, List.append_assoc, List.cons_append,
      List.takeWhile_append_dropWhile, ← hcolon, List.takeWhile_append_dropWhile]
  · cases h

/-- A table of a name begins here: the name, a colon and an opening brace, with nothing but white
space between them. -/
def BeginsTable (key rest : List Char) : Prop :=
  ∃ spaces spaces' tail, rest = key ++ spaces ++ ':' :: spaces' ++ braces.opening :: tail ∧
    (∀ c ∈ spaces, isSpace c = true) ∧ ∀ c ∈ spaces', isSpace c = true

theorem opens_table_iff : opens_table key rest = true ↔ BeginsTable key rest := by
  constructor
  · intro h
    unfold opens_table at h
    split at h
    · rename_i more hmore
      obtain ⟨spaces, spaces', heq, hspaces, hspaces'⟩ := behind_colon_eq hmore
      obtain ⟨tail, rfl⟩ := List.head?_eq_some_iff.mp (of_decide_eq_true h)
      exact ⟨spaces, spaces', tail, heq, hspaces, hspaces'⟩
    · cases h
  · rintro ⟨spaces, spaces', tail, rfl, hspaces, hspaces'⟩
    have hsplit : key ++ spaces ++ ':' :: spaces' ++ braces.opening :: tail =
        key ++ (spaces ++ ':' :: (spaces' ++ braces.opening :: tail)) := by simp
    have hcolon : (spaces ++ ':' :: (spaces' ++ braces.opening :: tail)).dropWhile isSpace =
        ':' :: (spaces' ++ braces.opening :: tail) :=
      dropWhile_word hspaces fun c hc => by
        obtain rfl := Option.some.inj hc
        decide
    have hbrace : (spaces' ++ braces.opening :: tail).dropWhile isSpace = braces.opening :: tail :=
      dropWhile_word hspaces' fun c hc => by
        obtain rfl := Option.some.inj hc
        decide
    have hbehind : behind_colon key (key ++ (spaces ++ ':' :: (spaces' ++ braces.opening :: tail))) =
        some (braces.opening :: tail) := by
      unfold behind_colon
      rw [if_pos (List.prefix_append _ _), List.drop_left, hcolon]
      exact congrArg some hbrace
    unfold opens_table
    rw [hsplit, hbehind]
    rfl

/-- What stands before the brace of a table has no braces. -/
theorem no_braces_of_head {spaces spaces' : List Char} (hkey : PlainName key)
    (hspaces : ∀ c ∈ spaces, isSpace c = true) (hspaces' : ∀ c ∈ spaces', isSpace c = true) :
    ∀ c ∈ key ++ spaces ++ ':' :: spaces', c ≠ braces.opening ∧ c ≠ braces.closing := by
  intro c hc
  rcases List.mem_append.mp hc with hc | hc
  · rcases List.mem_append.mp hc with hc | hc
    · exact hkey.no_braces c hc
    · exact not_isSpace_of_brace (hspaces c hc)
  · rcases List.mem_cons.mp hc with rfl | hc
    · decide
    · exact not_isSpace_of_brace (hspaces' c hc)

theorem prefix_of_opens_table (h : opens_table key rest = true) : key <+: rest := by
  unfold opens_table at h
  split at h
  · rename_i more hmore
    unfold behind_colon at hmore
    split_ifs at hmore with hstarts
    exact hstarts
  · cases h

/-- Where all braces of the rest of a text are closed, a table that begins there ends behind the
brace that closes its own. -/
theorem table_length_eq {head tail : List Char} {d : ℕ}
    (hhead : ∀ c ∈ head, c ≠ braces.opening ∧ c ≠ braces.closing)
    (hlevel : braces.level d (head ++ braces.opening :: tail) = some 0) :
    ∃ inside after, tail = inside ++ braces.closing :: after ∧ braces.Balanced inside ∧
      table_length key (head ++ braces.opening :: tail) =
        .ok (head.length + 1 + inside.length + 1) := by
  have hopen : braces.level (d + (0 + 1)) tail = some 0 := by
    rw [(Brackets.balanced_of_forall hhead).level_append] at hlevel
    unfold Brackets.level at hlevel
    rwa [if_pos rfl] at hlevel
  obtain ⟨inside, after, rfl, hinside, -, hclose⟩ := Brackets.close_at_of_level hopen
  refine ⟨inside, after, rfl, hinside, ?_⟩
  have hidx : (head ++ braces.opening :: (inside ++ braces.closing :: after)).idxOf braces.opening =
      head.length := by
    rw [List.idxOf_append, if_neg fun hmem => (hhead _ hmem).1 rfl, List.idxOf_cons_self,
      Nat.zero_add]
  have hdrop : (head ++ braces.opening :: (inside ++ braces.closing :: after)).drop
      (head.length + 1) = inside ++ braces.closing :: after := by
    rw [List.drop_append]
    simp
  have hclose' : braces.close_at 1 (inside ++ braces.closing :: after) = some inside.length := hclose
  unfold table_length
  rw [hidx]
  dsimp only
  rw [hdrop, hclose']

theorem table_length_ok (hkey : PlainName key) {d : ℕ} (hlevel : braces.level d rest = some 0)
    (h : opens_table key rest = true) :
    ∃ table after, rest = table ++ after ∧ table_length key rest = .ok table.length ∧
      braces.Balanced table ∧ table ≠ [] := by
  obtain ⟨spaces, spaces', tail, rfl, hspaces, hspaces'⟩ := opens_table_iff.mp h
  have hhead := no_braces_of_head hkey hspaces hspaces'
  obtain ⟨inside, after, rfl, hinside, hlength⟩ := @table_length_eq key _ _ _ hhead hlevel
  refine ⟨(key ++ spaces ++ ':' :: spaces') ++ braces.opening :: (inside ++ [braces.closing]), after,
    by simp, ?_, (Brackets.balanced_of_forall hhead).append hinside.wrap, by simp⟩
  rw [hlength]
  simp only [List.length_append, List.length_cons, List.length_nil]
  congr 1
  omega

/-! ## The first table -/

theorem find_eq_some {needle : List Char} {startingloc loc : ℕ}
    (h : find needle text startingloc = some loc) :
    startingloc ≤ loc ∧ needle <+: text.drop loc ∧
      ∀ j, startingloc ≤ j → j < loc → ¬ needle <+: text.drop j := by
  obtain ⟨i, hi, rfl⟩ := Option.map_eq_some_iff.mp h
  obtain ⟨-, hpass, hbefore⟩ := first_at_eq_some.mp hi
  rw [List.drop_drop] at hpass
  refine ⟨Nat.le_add_right _ _, of_decide_eq_true hpass, fun j hle hlt hstarts => ?_⟩
  have hfail := hbefore (j - startingloc) (by omega)
  rw [List.drop_drop, Nat.add_sub_cancel' hle] at hfail
  exact of_decide_eq_false hfail hstarts

theorem find_eq_none {needle : List Char} {startingloc : ℕ}
    (h : find needle text startingloc = none) :
    ∀ j, startingloc ≤ j → ¬ needle <+: text.drop j := by
  intro j hle hstarts
  have hfail := first_at_eq_none.mp (Option.map_eq_none_iff.mp h) (j - startingloc)
  rw [List.drop_drop, Nat.add_sub_cancel' hle] at hfail
  exact of_decide_eq_false hfail hstarts

/-- No reference is followed in a text without references. -/
theorem local_reference_eq_none (h : ¬ "@local::".toList <:+: text) :
    local_reference key text = none := by
  unfold local_reference
  cases hfirst : first_at (fun rest => (reference_here key rest).isSome) text with
  | none => rfl
  | some i =>
    obtain ⟨-, hpass, -⟩ := first_at_eq_some.mp hfirst
    exfalso
    unfold reference_here at hpass
    split at hpass
    · rename_i more hmore
      by_cases hreference : "@local::".toList <+: more ∧
          ((more.drop 8).takeWhile fun c => !isSpace c) ≠ []
      swap
      · rw [if_neg hreference] at hpass
        cases hpass
      obtain ⟨spaces, spaces', heq, -⟩ := behind_colon_eq hmore
      have hsuffix : more <:+ text := by
        refine List.IsSuffix.trans ?_ (List.drop_suffix i text)
        rw [heq]
        exact List.suffix_append _ _
      exact h (hreference.1.isInfix.trans hsuffix.isInfix)
    · cases hpass

theorem drop_no_reference (h : ¬ "@local::".toList <:+: text) (i : ℕ) :
    ¬ "@local::".toList <:+: text.drop i :=
  fun hpart => h (hpart.trans (List.drop_suffix i text).isInfix)

theorem table_range_in_none {n startingloc : ℕ} (hkey : PlainName key)
    (hreference : ¬ "@local::".toList <:+: text) (hn : text.length < n)
    (h : ∀ j, startingloc ≤ j → opens_table key (text.drop j) = false) :
    table_range_in n text key startingloc = .ok none := by
  induction n generalizing text startingloc with
  | zero => omega
  | succ n ih =>
    unfold table_range_in
    cases hfind : find key text startingloc with
    | none => rfl
    | some loc =>
      obtain ⟨hle, hstarts, -⟩ := find_eq_some hfind
      have hlength := hstarts.length_le
      have hne := List.length_pos_of_ne_nil hkey.ne_nil
      rw [List.length_drop] at hlength
      have hshort : (text.drop (loc + 1)).length < n := by
        rw [List.length_drop]
        omega
      have hrest : ∀ j, 0 ≤ j → opens_table key ((text.drop (loc + 1)).drop j) = false := by
        intro j _
        rw [List.drop_drop]
        exact h _ (by omega)
      dsimp only
      rw [local_reference_eq_none (drop_no_reference hreference loc)]
      dsimp only
      rw [h loc hle, ih (drop_no_reference hreference _) hshort hrest]
      rfl

theorem table_range_in_some {n startingloc loc : ℕ} (hkey : PlainName key)
    (hreference : ¬ "@local::".toList <:+: text) (hn : text.length < n)
    (hle : startingloc ≤ loc) (hloc : opens_table key (text.drop loc) = true)
    (h : ∀ j, startingloc ≤ j → j < loc → opens_table key (text.drop j) = false) :
    table_range_in n text key startingloc =
      (table_length key (text.drop loc)).map fun length => some (loc, loc + length) := by
  induction n generalizing text startingloc loc with
  | zero => omega
  | succ n ih =>
    unfold table_range_in
    cases hfind : find key text startingloc with
    | none => exact absurd (prefix_of_opens_table hloc) (find_eq_none hfind loc hle)
    | some first =>
      obtain ⟨hlefirst, hstarts, hbefore⟩ := find_eq_some hfind
      have hfirst : first ≤ loc := by
        by_contra hgt
        exact hbefore loc hle (by omega) (prefix_of_opens_table hloc)
      dsimp only
      rw [local_reference_eq_none (drop_no_reference hreference first)]
      dsimp only
      rcases hfirst.eq_or_lt with rfl | hlt
      · rw [if_pos hloc]
      · have hlength := hstarts.length_le
        have hne := List.length_pos_of_ne_nil hkey.ne_nil
        rw [List.length_drop] at hlength
        have hshort : (text.drop (first + 1)).length < n := by
          rw [List.length_drop]
          omega
        have hdrop : ∀ j, (text.drop (first + 1)).drop j = text.drop (first + 1 + j) :=
          fun j => List.drop_drop
        have hadd : first + 1 + (loc - (first + 1)) = loc := by omega
        have hloc' : opens_table key ((text.drop (first + 1)).drop (loc - (first + 1))) = true := by
          rw [hdrop, hadd]
          exact hloc
        have hrest : ∀ j, 0 ≤ j → j < loc - (first + 1) →
            opens_table key ((text.drop (first + 1)).drop j) = false := by
          intro j _ hj
          rw [hdrop]
          exact h _ (by omega) (by omega)
        rw [h first hlefirst hlt, ih (drop_no_reference hreference _) hshort (Nat.zero_le _) hloc'
          hrest, hdrop, hadd]
        cases table_length key (text.drop loc) with
        | error e => rfl
        | ok length =>
          have hend : first + 1 + (loc - (first + 1) + length) = loc + length := by omega
          simp only [Except.map, Bool.false_eq_true, if_false, Option.map_some, hadd, hend]

/-- What `table_range` answers in a text without references: the first place where a table
begins decides. -/
theorem table_range_eq (hkey : PlainName key) (hreference : ¬ "@local::".toList <:+: text)
    (startingloc : ℕ) :
    (table_range text key startingloc = .ok none ∧
        ∀ j, startingloc ≤ j → opens_table key (text.drop j) = false) ∨
      ∃ loc, startingloc ≤ loc ∧ opens_table key (text.drop loc) = true ∧
        (∀ j, startingloc ≤ j → j < loc → opens_table key (text.drop j) = false) ∧
        table_range text key startingloc =
          (table_length key (text.drop loc)).map fun length => some (loc, loc + length) := by
  by_cases hnone : ∀ j, startingloc ≤ j → opens_table key (text.drop j) = false
  · left
    exact ⟨table_range_in_none hkey hreference (Nat.lt_succ_self _) hnone, hnone⟩
  · right
    push Not at hnone
    have hexists : ∃ j, startingloc ≤ j ∧ opens_table key (text.drop j) = true := by
      obtain ⟨j, hj, hopen⟩ := hnone
      exact ⟨j, hj, by simpa using hopen⟩
    obtain ⟨hle, hloc⟩ := Nat.find_spec hexists
    have hbefore : ∀ j, startingloc ≤ j → j < Nat.find hexists →
        opens_table key (text.drop j) = false := by
      intro j hj hlt
      have hno := Nat.find_min hexists hlt
      push Not at hno
      simpa using hno hj
    exact ⟨Nat.find hexists, hle, hloc, hbefore,
      table_range_in_some hkey hreference (Nat.lt_succ_self _) hle hloc hbefore⟩

/-- A table has a length, and ends in the text. -/
theorem table_length_bounds {length : ℕ} (h : table_length key rest = .ok length) :
    0 < length ∧ length ≤ rest.length := by
  unfold table_length at h
  dsimp only at h
  split at h
  · rename_i close_brace_loc hclose
    have hlt := Brackets.close_at_lt hclose
    rw [List.length_drop] at hlt
    have heq := Except.ok.inj h
    omega
  · cases h

/-- The table that the search finds. -/
structure FirstTable (text key : List Char) (startingloc table_start table_end : ℕ) : Prop where
  le : startingloc ≤ table_start
  opens : opens_table key (text.drop table_start) = true
  first : ∀ j, startingloc ≤ j → j < table_start → opens_table key (text.drop j) = false
  length : table_length key (text.drop table_start) = .ok (table_end - table_start)
  lt : table_start < table_end
  le_length : table_end ≤ text.length

theorem table_range_some (hkey : PlainName key) (hreference : ¬ "@local::".toList <:+: text)
    {startingloc table_start table_end : ℕ}
    (h : table_range text key startingloc = .ok (some (table_start, table_end))) :
    FirstTable text key startingloc table_start table_end := by
  rcases table_range_eq hkey hreference startingloc with ⟨hnone, -⟩ | ⟨loc, hle, hloc, hfirst, heq⟩
  · rw [hnone] at h
    cases h
  · rw [heq] at h
    obtain ⟨length, hlength, h⟩ := Loop.map_eq_ok.mp h
    obtain ⟨rfl, rfl⟩ := Prod.mk.inj (Option.some.inj h)
    obtain ⟨hpos, hlen⟩ := table_length_bounds hlength
    rw [List.length_drop] at hlen
    exact ⟨hle, hloc, hfirst, by rw [hlength, Nat.add_sub_cancel_left], by omega, by omega⟩

theorem table_range_none (hkey : PlainName key) (hreference : ¬ "@local::".toList <:+: text)
    {startingloc : ℕ} (h : table_range text key startingloc = .ok none) :
    ∀ j, startingloc ≤ j → opens_table key (text.drop j) = false := by
  rcases table_range_eq hkey hreference startingloc with ⟨-, hnone⟩ | ⟨loc, -, -, -, heq⟩
  · exact hnone
  · rw [heq] at h
    obtain ⟨length, -, h⟩ := Loop.map_eq_ok.mp h
    cases h

/-! ## Documents -/

/-- Where all braces of a text are closed, they are closed behind each place. -/
theorem level_drop (hbalanced : braces.Balanced text) (loc : ℕ) :
    ∃ d, braces.level d (text.drop loc) = some 0 := by
  unfold Brackets.Balanced at hbalanced
  rw [← List.take_append_drop loc text, Brackets.level_append] at hbalanced
  obtain ⟨d, -, hd⟩ := Option.bind_eq_some_iff.mp hbalanced
  exact ⟨d, hd⟩

/-- A document whose braces are closed, and which has no references. -/
structure Sane (text : List Char) : Prop where
  balanced : braces.Balanced text
  no_reference : ¬ "@local::".toList <:+: text

/-- In such a document, the search for tables does not fail, and the table that it finds is
balanced. -/
theorem Sane.table_range_ok (hkey : PlainName key) (hsane : Sane text) (startingloc : ℕ) :
    ∃ range, table_range text key startingloc = .ok range ∧
      ∀ table_start table_end, range = some (table_start, table_end) →
        braces.Balanced ((text.take table_end).drop table_start) := by
  rcases table_range_eq hkey hsane.no_reference startingloc with ⟨hnone, -⟩ | ⟨loc, -, hloc, -, heq⟩
  · exact ⟨none, hnone, fun table_start table_end h => by cases h⟩
  · obtain ⟨d, hd⟩ := level_drop hsane.balanced loc
    obtain ⟨table, after, hsplit, hlength, hbalanced, -⟩ := table_length_ok hkey hd hloc
    rw [hlength] at heq
    refine ⟨some (loc, loc + table.length), heq, fun table_start table_end h => ?_⟩
    obtain ⟨rfl, rfl⟩ := Prod.mk.inj (Option.some.inj h)
    rw [List.drop_take, Nat.add_sub_cancel_left, hsplit, List.take_left]
    exact hbalanced

/-! ## New tables -/

/-- A text without a certain character, found around a place with this character, stands before
or behind it. -/
theorem infix_of_append {α : Type} {needle before after : List α} {a : α} (ha : a ∉ needle)
    (h : needle <:+: before ++ a :: after) : needle <:+: before ∨ needle <:+: after := by
  obtain ⟨x, y, heq⟩ := h
  rw [List.append_assoc] at heq
  rcases List.append_eq_append_iff.mp heq with ⟨z, hz, hrest⟩ | ⟨z, hz, hrest⟩
  · rcases List.append_eq_append_iff.mp hrest with ⟨w, hw, -⟩ | ⟨w, hw, hw'⟩
    · left
      rw [hz, hw]
      exact ⟨x, w, by simp⟩
    · cases w with
      | nil =>
        left
        rw [List.append_nil] at hw
        rw [hz, hw]
        exact ⟨x, [], by simp⟩
      | cons c w =>
        obtain ⟨rfl, -⟩ := List.cons.inj hw'
        exact absurd (by rw [hw]; simp) ha
  · cases z with
    | nil =>
      rw [List.nil_append] at hrest
      cases needle with
      | nil => exact Or.inl ⟨[], before, by simp⟩
      | cons c needle =>
        obtain ⟨rfl, -⟩ := List.cons.inj hrest
        exact absurd List.mem_cons_self ha
    | cons c z =>
      right
      obtain ⟨-, hafter⟩ := List.cons.inj hrest
      refine ⟨z, y, ?_⟩
      rw [hafter, List.append_assoc]
      rfl

/-- The text of a new table, line by line. -/
theorem new_table_eq (key nodes after : List Char) :
    new_table key nodes ++ after = '\n' :: (key ++ ": \x7b ".toList ++ '\n' :: (nodes ++
      '\n' :: (" \x7d ".toList ++ '\n' :: after))) := by
  simp [new_table]

theorem new_table_balanced (hkey : PlainName key) {nodes : List Char}
    (hnodes : braces.Balanced nodes) : braces.Balanced (new_table key nodes) := by
  have hname : braces.Balanced ("\n".toList ++ key ++ ": ".toList) := by
    refine Brackets.balanced_of_forall fun c hc => ?_
    rcases List.mem_append.mp hc with hc | hc
    · rcases List.mem_append.mp hc with hc | hc
      · rw [List.mem_singleton.mp hc]
        decide
      · exact hkey.no_braces c hc
    · have hcolon : ∀ c ∈ ": ".toList, c ≠ braces.opening ∧ c ≠ braces.closing :=
        forall_of_all (by decide)
      exact hcolon c hc
  have hline : braces.Balanced (" \n".toList ++ nodes ++ "\n ".toList) :=
    ((by decide : braces.Balanced " \n".toList).append hnodes).append (by decide)
  have hall := (hname.append hline.wrap).append (by decide : braces.Balanced " \n".toList)
  have heq : new_table key nodes = "\n".toList ++ key ++ ": ".toList ++
      braces.opening :: (" \n".toList ++ nodes ++ "\n ".toList ++ [braces.closing]) ++
      " \n".toList := by
    simp [new_table, braces]
  rw [heq]
  exact hall

/-- A new table in the place of an old one brings no references. -/
theorem replace_no_reference (hkey : PlainName key) {before after nodes : List Char}
    (hbefore : ¬ "@local::".toList <:+: before) (hafter : ¬ "@local::".toList <:+: after)
    (hnodes : ¬ "@local::".toList <:+: nodes) :
    ¬ "@local::".toList <:+: before ++ new_table key nodes ++ after := by
  have hnewline : '\n' ∉ "@local::".toList := by decide
  rw [List.append_assoc, new_table_eq]
  intro hpart
  rcases infix_of_append hnewline hpart with hpart | hpart
  · exact hbefore hpart
  rcases infix_of_append hnewline hpart with hpart | hpart
  · exact hkey.no_reference hpart
  rcases infix_of_append hnewline hpart with hpart | hpart
  · exact hnodes hpart
  rcases infix_of_append hnewline hpart with hpart | hpart
  · revert hpart
    decide
  · exact hafter hpart

/-! ## The states of the loop -/

section Loop

variable {generate : List Char → Bool → Except String (List Char)} {loop next : TableLoop}
  {table_start table_end : ℕ}

/-- The search for a table and for the one around it raises nothing. -/
def Searchable (key document : List Char) (searchstart : ℕ) : Prop :=
  (∃ range, table_range document key searchstart = .ok range) ∧
    ∃ name, enclosing_table_name document key searchstart = .ok name

/-- The document with a new table in the place of an old one. -/
def with_table (key document : List Char) (table_start table_end : ℕ) (nodes : List Char) :
    List Char :=
  document.take table_start ++ new_table key nodes ++ document.drop table_end

/-- New tables refer to nothing. -/
def NoReferences (generate : List Char → Bool → Except String (List Char)) : Prop :=
  ∀ document inter nodes, generate document inter = .ok nodes → ¬ "@local::".toList <:+: nodes

theorem resume_ok {document : List Char} {searchstart frontier : ℕ}
    {replaced : List (List Char × List Char)}
    (h : TableLoop.resume key document searchstart replaced frontier = .ok loop) :
    ∃ range inter, table_range document key searchstart = .ok range ∧
      determine_if_inter_subsystem_transfer document key searchstart = .ok inter ∧
      loop = ⟨document, searchstart, range, inter, replaced, frontier⟩ := by
  obtain ⟨range, hrange, h⟩ := Loop.bind_eq_ok.mp h
  obtain ⟨inter, hinter, h⟩ := Loop.bind_eq_ok.mp h
  exact ⟨range, inter, hrange, hinter, (Except.ok.inj h).symm⟩

theorem resume_fields {document : List Char} {searchstart frontier : ℕ}
    {replaced : List (List Char × List Char)}
    (h : TableLoop.resume key document searchstart replaced frontier = .ok loop) :
    loop.document = document ∧ loop.searchstart = searchstart ∧ loop.replaced = replaced ∧
      loop.frontier = frontier := by
  obtain ⟨range, inter, -, -, rfl⟩ := resume_ok h
  exact ⟨rfl, rfl, rfl, rfl⟩

/-- The loop goes on exactly where the search raises nothing. -/
theorem exists_resume_iff {document : List Char} {searchstart frontier : ℕ}
    {replaced : List (List Char × List Char)} :
    (∃ loop, TableLoop.resume key document searchstart replaced frontier = .ok loop) ↔
      Searchable key document searchstart := by
  constructor
  · rintro ⟨loop, h⟩
    obtain ⟨range, inter, hrange, hinter, -⟩ := resume_ok h
    obtain ⟨name, hname, -⟩ := Loop.map_eq_ok.mp hinter
    exact ⟨⟨range, hrange⟩, name, hname⟩
  · rintro ⟨⟨range, hrange⟩, name, hname⟩
    refine ⟨⟨document, searchstart, range, name ∈ enclosing_sender_tables, replaced, frontier⟩, ?_⟩
    exact Loop.bind_eq_ok.mpr ⟨range, hrange,
      Loop.bind_eq_ok.mpr ⟨_, Loop.map_eq_ok.mpr ⟨name, hname, rfl⟩, rfl⟩⟩

/-- What a turn does: it leaves the document as it is, or it puts a new table into it. -/
theorem turn_eq_ok : loop.turn key generate table_start table_end = .ok next ↔
    (enclosing_table_name loop.document key loop.searchstart = .ok "message".toList ∧
        TableLoop.resume key loop.document table_end loop.replaced loop.frontier = .ok next) ∨
      ∃ name, enclosing_table_name loop.document key loop.searchstart = .ok name ∧
        name ≠ "message".toList ∧
        ∃ nodes, generate loop.document loop.inter_subsystem_transfer = .ok nodes ∧
          TableLoop.resume key (with_table key loop.document table_start table_end nodes) table_end
            (loop.replaced ++ [((loop.document.take table_end).drop table_start, nodes)])
            (table_start + (new_table key nodes).length) = .ok next := by
  constructor
  · intro h
    obtain ⟨name, hname, h⟩ := Loop.bind_eq_ok.mp h
    split_ifs at h with hmessage
    · right
      obtain ⟨nodes, hnodes, h⟩ := Loop.bind_eq_ok.mp h
      exact ⟨name, hname, hmessage, nodes, hnodes, h⟩
    · left
      push Not at hmessage
      rw [hname, hmessage]
      exact ⟨rfl, h⟩
  · rintro (⟨hname, h⟩ | ⟨name, hname, hmessage, nodes, hnodes, h⟩)
    · refine Loop.bind_eq_ok.mpr ⟨_, hname, ?_⟩
      rw [if_neg (not_not_intro rfl)]
      exact h
    · refine Loop.bind_eq_ok.mpr ⟨_, hname, ?_⟩
      rw [if_pos hmessage]
      exact Loop.bind_eq_ok.mpr ⟨nodes, hnodes, h⟩

/-- The states that the loop goes through. -/
inductive Visited (key source : List Char)
    (generate : List Char → Bool → Except String (List Char)) : TableLoop → Prop
  | start {loop : TableLoop} (h : TableLoop.start key source = .ok loop) :
    Visited key source generate loop
  | turn {loop next : TableLoop} {table_start table_end : ℕ}
    (hloop : Visited key source generate loop) (hrange : loop.range = some (table_start, table_end))
    (h : loop.turn key generate table_start table_end = .ok next) :
    Visited key source generate next

/-- What a state of the loop knows of its document. -/
structure Ranged (key : List Char) (loop : TableLoop) : Prop where
  no_reference : ¬ "@local::".toList <:+: loop.document
  range : table_range loop.document key loop.searchstart = .ok loop.range
  inter : determine_if_inter_subsystem_transfer loop.document key loop.searchstart =
    .ok loop.inter_subsystem_transfer

theorem Ranged.of_resume {document : List Char} {searchstart frontier : ℕ}
    {replaced : List (List Char × List Char)} (hreference : ¬ "@local::".toList <:+: document)
    (h : TableLoop.resume key document searchstart replaced frontier = .ok loop) :
    Ranged key loop := by
  obtain ⟨range, inter, hrange, hinter, rfl⟩ := resume_ok h
  exact ⟨hreference, hrange, hinter⟩

/-- Where the table of a turn stands. -/
theorem Ranged.table (hkey : PlainName key) (hloop : Ranged key loop)
    (hrange : loop.range = some (table_start, table_end)) :
    FirstTable loop.document key loop.searchstart table_start table_end := by
  have h := hloop.range
  rw [hrange] at h
  exact table_range_some hkey hloop.no_reference h

theorem take_no_reference (h : ¬ "@local::".toList <:+: text) (i : ℕ) :
    ¬ "@local::".toList <:+: text.take i :=
  fun hpart => h (hpart.trans (List.take_prefix i text).isInfix)

theorem Ranged.turn (hkey : PlainName key) (hgenerate : NoReferences generate)
    (hloop : Ranged key loop) (h : loop.turn key generate table_start table_end = .ok next) :
    Ranged key next := by
  rcases turn_eq_ok.mp h with ⟨-, h⟩ | ⟨-, -, -, nodes, hnodes, h⟩
  · exact Ranged.of_resume hloop.no_reference h
  · refine Ranged.of_resume ?_ h
    exact replace_no_reference hkey (take_no_reference hloop.no_reference _)
      (drop_no_reference hloop.no_reference _) (hgenerate _ _ _ hnodes)

theorem Visited.ranged (hkey : PlainName key) (hgenerate : NoReferences generate)
    {source : List Char} (hsource : ¬ "@local::".toList <:+: source)
    (h : Visited key source generate loop) : Ranged key loop := by
  induction h with
  | start h => exact Ranged.of_resume hsource h
  | turn _ _ h ih => exact ih.turn hkey hgenerate h

/-! ## Well-braced documents -/

/-- A new table in the place of a balanced old one. -/
theorem Sane.replace (hkey : PlainName key) {document nodes : List Char} (h : Sane document)
    (hle : table_start ≤ table_end)
    (htable : braces.Balanced ((document.take table_end).drop table_start)) (hnodes : Sane nodes) :
    Sane (with_table key document table_start table_end nodes) where
  balanced := by
    refine Brackets.Balanced.replace ?_ htable (new_table_balanced hkey hnodes.balanced)
    have htake : document.take table_start ++ (document.take table_end).drop table_start =
        document.take table_end := by
      conv_rhs => rw [← List.take_append_drop table_start (document.take table_end)]
      rw [List.take_take, min_eq_left hle]
    rw [htake, List.take_append_drop]
    exact h.balanced
  no_reference := replace_no_reference hkey (take_no_reference h.no_reference _)
    (drop_no_reference h.no_reference _) hnodes.no_reference

/-- Where the braces of the new tables are closed, those of the document stay closed. -/
theorem Visited.sane (hkey : PlainName key)
    (hgenerate : ∀ document inter nodes, generate document inter = .ok nodes → Sane nodes)
    {source : List Char} (hsource : Sane source) (h : Visited key source generate loop) :
    Sane loop.document := by
  have hreferences : NoReferences generate :=
    fun document inter nodes hnodes => (hgenerate document inter nodes hnodes).no_reference
  induction h with
  | start h =>
    obtain ⟨range, inter, -, -, rfl⟩ := resume_ok h
    exact hsource
  | @turn loop next table_start table_end hloop hrange h ih =>
    rcases turn_eq_ok.mp h with ⟨-, h⟩ | ⟨-, -, -, nodes, hnodes, h⟩
    · obtain ⟨range, inter, -, -, rfl⟩ := resume_ok h
      exact ih
    · have hranged := hloop.ranged hkey hreferences hsource.no_reference
      obtain ⟨range, hok, hbalanced⟩ := ih.table_range_ok hkey loop.searchstart
      have hsame := Except.ok.inj (hranged.range.symm.trans hok)
      have htable := hranged.table hkey hrange
      rw [hsame] at hrange
      obtain ⟨range', inter, -, -, rfl⟩ := resume_ok h
      exact ih.replace hkey htable.lt.le (hbalanced _ _ hrange) (hgenerate _ _ _ hnodes)

/-- There, the search for the next table never fails. -/
theorem Visited.searchable (hkey : PlainName key)
    (hgenerate : ∀ document inter nodes, generate document inter = .ok nodes → Sane nodes)
    {source : List Char} (hsource : Sane source) (h : Visited key source generate loop)
    (searchstart : ℕ) :
    Searchable key loop.document searchstart ↔
      ∃ name, enclosing_table_name loop.document key searchstart = .ok name := by
  obtain ⟨range, hrange, -⟩ := (h.sane hkey hgenerate hsource).table_range_ok hkey searchstart
  exact ⟨fun hsearch => hsearch.2, fun hname => ⟨⟨range, hrange⟩, hname⟩⟩

end Loop

/-! ## The tables of the bookkeeping -/

theorem not_mem_intercalate {c : Char} {separator : String} {l : List String}
    (hseparator : c ∉ separator.toList) (h : ∀ s ∈ l, c ∉ s.toList) :
    c ∉ (separator.intercalate l).toList := by
  induction l with
  | nil => simp
  | cons s l ih =>
    have hs := h s List.mem_cons_self
    have hl := ih fun t ht => h t (List.mem_cons_of_mem s ht)
    cases l with
    | nil => simpa using hs
    | cons t l =>
      rw [String.intercalate_cons_cons]
      simp only [String.toList_append, List.mem_append, not_or]
      exact ⟨⟨hs, hseparator⟩, hl⟩

namespace Bookkeeping

variable {self : Bookkeeping} {c : Computed} {p : Procinfo} {nodetype : NodeType}
  {max_event_size : ℤ}

/-- The names of hosts and plugins have no `@`. -/
structure PlainNames (named : Bookkeeping) : Prop where
  transfer : ∀ transfer ∈ [named.default_transfer, named.br_transfer, named.eb_transfer,
    named.dl_transfer], '@' ∉ transfer.toList
  HOSTNAME : '@' ∉ named.HOSTNAME.toList
  host : ∀ p ∈ named.procinfos, '@' ∉ p.host.toList

theorem PlainNames.host_map (h : self.PlainNames) : '@' ∉ self.host_map_string.toList := by
  have hhosts : ∀ s ∈ (self.procinfos_sorted_by_rank.filter fun p => p.name ≠ .RoutingManager).map
      (fun p => "\x7brank: " ++ toString p.rank ++ " host: \"" ++
        (if p.host = "localhost" then self.HOSTNAME else p.host) ++ "\"\x7d"), '@' ∉ s.toList := by
    intro s hs
    obtain ⟨p, hp, rfl⟩ := List.mem_map.mp hs
    have hmem : p ∈ self.procinfos := mem_sort_by_rank.mp (List.mem_filter.mp hp).1
    have hhost : '@' ∉ (if p.host = "localhost" then self.HOSTNAME else p.host).toList := by
      split_ifs
      · exact h.HOSTNAME
      · exact h.host p hmem
    have hrank := not_mem_toString_nat (c := '@') (by decide) p.rank
    simp only [String.toList_append, List.mem_append, not_or]
    exact ⟨⟨⟨⟨by decide, hrank⟩, by decide⟩, hhost⟩, by decide⟩
  have hseparator : '@' ∉ ", ".toList := by decide
  have hall := not_mem_intercalate hseparator hhosts
  unfold host_map_string
  simp only [String.toList_append, List.mem_append, not_or]
  exact ⟨⟨by decide, hall⟩, by decide⟩

theorem PlainNames.node (h : self.PlainNames) {common : ℚ} {q : Procinfo} {i : ℕ} {node : Node}
    (hnode : self.create_node c p nodetype common q i = .ok node) : '@' ∉ node.text.toList := by
  obtain ⟨words, -, hnode⟩ := Loop.bind_eq_ok.mp hnode
  split at hnode
  · cases hnode
  · obtain rfl := Except.ok.inj hnode
    have htransfer : '@' ∉ (self.transfer_to_use p q).toList := by
      unfold transfer_to_use
      split_ifs <;> exact h.transfer _ (by simp)
    have hmap : '@' ∉ (if i = 0 then self.host_map_string else "").toList := by
      split_ifs
      · exact h.host_map
      · decide
    have hinitial : '@' ∉ nodetype.initial.toList := by cases nodetype <;> decide
    have hkey : '@' ∉ nodetype.rank_key.toList := by cases nodetype <;> decide
    have hrank := not_mem_toString_nat (c := '@') (by decide) q.rank
    have hwords := not_mem_toString_int (c := '@') (by decide) (by decide) (Double.trunc words)
    unfold Node.text
    simp only [String.toList_append, List.mem_append, not_or]
    exact ⟨⟨⟨⟨⟨⟨⟨⟨⟨⟨⟨⟨hinitial, hrank⟩, by decide⟩, htransfer⟩, by decide⟩, hkey⟩, by decide⟩, hrank⟩,
      by decide⟩, hwords⟩, by decide⟩, hmap⟩, by decide⟩

theorem PlainNames.no_references (h : self.PlainNames) :
    NoReferences (self.table_text c p nodetype max_event_size) := by
  intro document inter nodes hnodes
  obtain ⟨text, htext, rfl⟩ := Loop.map_eq_ok.mp hnodes
  obtain ⟨entries, hentries, rfl⟩ := Loop.map_eq_ok.mp htext
  obtain ⟨-, common, -, hall⟩ := create_nodes_ok hentries
  have hnode : ∀ s ∈ entries.map Node.text, '@' ∉ s.toList := by
    intro s hs
    obtain ⟨node, hmem, rfl⟩ := List.mem_map.mp hs
    obtain ⟨q, -, i, hcreate⟩ := Recursion.exists_of_forall₂ hall hmem
    exact h.node hcreate
  have hseparator : '@' ∉ "\n".toList := by decide
  have hat := not_mem_intercalate hseparator hnode
  exact fun hpart => hat (hpart.subset (by decide))

end Bookkeeping

end DaqInterface
