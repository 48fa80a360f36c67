import DaqInterface.Properties.TableContext

/-!
# Rewriting the tables of a document

`rewritten` is what the loop over the tables of a document is for: it goes through the
document once and puts a new table in the place of each table of the name that is not directly
inside a `message` table.  The loop edits the document that it searches and goes on
at a place of the document before the edit.  Its result is the rewritten document exactly where
each turn decides right and skips no table (`tables_rewritten_iff`).
-/

namespace DaqInterface

open Scan

variable {key source text before rest : List Char}

/-- A table begins here that must be rewritten. -/
def due (key before rest : List Char) : Bool :=
  begins_table key before rest && decide (enclosing_key before ≠ some "message".toList)

theorem prefix_of_due (hkey : PlainName key) (h : due key before rest = true) : key <+: rest := by
  unfold due at h
  simp only [Bool.and_eq_true] at h
  exact prefix_of_begins_table hkey h.1

/-! ## The rewritten document -/

/-- The document with its tables rewritten, one after the other; the first characters belong
to a table that has been rewritten.  The list has the table and its new nodes for each of
them. -/
def rewritten (key : List Char) :
    ℕ → List Char → List Char → List (List Char × List Char) → Option (List Char)
  | _, _, [], replaced => if replaced = [] then some [] else none
  | skip + 1, before, c :: rest, replaced => rewritten key skip (c :: before) rest replaced
  | 0, before, c :: rest, replaced =>
    if due key before (c :: rest) then
      match replaced with
      | [] => none
      | (table, nodes) :: replaced =>
        if table <+: c :: rest ∧ table_length key (bare .code (c :: rest)) = .ok table.length then
          (rewritten key (table.length - 1) (c :: before) rest replaced).map
            (new_table key nodes ++ ·)
        else none
    else (rewritten key 0 (c :: before) rest replaced).map (c :: ·)

/-- Where no table is due, a character stays. -/
theorem rewritten_cons {c : Char} (replaced : List (List Char × List Char))
    (h : due key before (c :: rest) = false) :
    rewritten key 0 before (c :: rest) replaced =
      (rewritten key 0 (c :: before) rest replaced).map (c :: ·) :=
  if_neg (by rw [h]; exact Bool.false_ne_true)

/-- Where a table is due, it is the next of the list. -/
theorem rewritten_due {c : Char} (table nodes : List Char)
    (replaced : List (List Char × List Char)) (h : due key before (c :: rest) = true) :
    rewritten key 0 before (c :: rest) ((table, nodes) :: replaced) =
      if table <+: c :: rest ∧ table_length key (bare .code (c :: rest)) = .ok table.length then
        (rewritten key (table.length - 1) (c :: before) rest replaced).map
          (new_table key nodes ++ ·)
      else none :=
  if_pos h

theorem rewritten_due_nil {c : Char} (h : due key before (c :: rest) = true) :
    rewritten key 0 before (c :: rest) [] = none := if_pos h

theorem rewritten_skip (skipped before rest : List Char)
    (replaced : List (List Char × List Char)) :
    rewritten key skipped.length before (skipped ++ rest) replaced =
      rewritten key 0 (skipped.reverse ++ before) rest replaced := by
  induction skipped generalizing before with
  | nil => rfl
  | cons c skipped ih =>
    rw [List.reverse_cons, List.append_assoc, List.singleton_append, ← ih (c :: before)]
    rfl

/-- Up to the next table that is due, the document stays as it is. -/
theorem rewritten_keep {kept : List Char} (replaced : List (List Char × List Char))
    (h : ∀ i < kept.length, due key ((kept.take i).reverse ++ before) (kept.drop i ++ rest) = false) :
    rewritten key 0 before (kept ++ rest) replaced =
      (rewritten key 0 (kept.reverse ++ before) rest replaced).map (kept ++ ·) := by
  induction kept generalizing before with
  | nil => simp
  | cons c kept ih =>
    have hfirst : due key before (c :: (kept ++ rest)) = false := h 0 (Nat.succ_pos _)
    have hrest : ∀ i < kept.length,
        due key ((kept.take i).reverse ++ c :: before) (kept.drop i ++ rest) = false := by
      intro i hi
      have hnext := h (i + 1) (Nat.succ_lt_succ hi)
      rwa [List.take_succ_cons, List.reverse_cons, List.append_assoc] at hnext
    rw [List.cons_append, rewritten_cons replaced hfirst, ih hrest, Option.map_map,
      List.reverse_cons, List.append_assoc]
    rfl

/-- A table that is due gets the next nodes. -/
theorem rewritten_table {table : List Char} (nodes : List Char)
    (replaced : List (List Char × List Char)) (hdue : due key before (table ++ rest) = true)
    (hne : table ≠ []) (hlength : table_length key (bare .code (table ++ rest)) = .ok table.length) :
    rewritten key 0 before (table ++ rest) ((table, nodes) :: replaced) =
      (rewritten key 0 (table.reverse ++ before) rest replaced).map (new_table key nodes ++ ·) := by
  have hstarts : table <+: table ++ rest := List.prefix_append table rest
  cases table with
  | nil => exact absurd rfl hne
  | cons c table =>
    rw [List.cons_append] at hdue hlength hstarts ⊢
    rw [rewritten_due (c :: table) nodes replaced hdue, if_pos ⟨hstarts, hlength⟩, List.length_cons,
      Nat.add_sub_cancel, rewritten_skip, List.reverse_cons, List.append_assoc]
    rfl

/-- A place of the rest of a document, where a part has been gone through before. -/
def due_in (key before rest : List Char) (i : ℕ) : Bool :=
  due key ((rest.take i).reverse ++ before) (rest.drop i)

/-- Up to a place before which no table is due, the document stays as it is. -/
theorem rewritten_take {i : ℕ} (replaced : List (List Char × List Char)) (hi : i ≤ rest.length)
    (h : ∀ j < i, due_in key before rest j = false) :
    rewritten key 0 before rest replaced =
      (rewritten key 0 ((rest.take i).reverse ++ before) (rest.drop i) replaced).map
        (rest.take i ++ ·) := by
  have hlength : (rest.take i).length = i := by
    rw [List.length_take]
    omega
  have hkeep : ∀ j < (rest.take i).length,
      due key (((rest.take i).take j).reverse ++ before) ((rest.take i).drop j ++ rest.drop i) =
        false := by
    intro j hj
    rw [hlength] at hj
    have hdrop : (rest.take i).drop j ++ rest.drop i = rest.drop j := by
      conv_rhs => rw [← List.take_append_drop i rest]
      rw [List.drop_append_of_le_length (by omega)]
    rw [List.take_take, min_eq_left hj.le, hdrop]
    exact h j hj
  have hsplit := rewritten_keep replaced hkeep
  rwa [List.take_append_drop] at hsplit

/-- A table that is due begins inside the rest, with the first letter of the name. -/
theorem exists_drop_of_due_in (hkey : PlainName key) {i : ℕ}
    (h : due_in key before rest i = true) :
    i < rest.length ∧ ∃ c tail, rest.drop i = c :: tail ∧ isSpace c = false := by
  have hstarts : key <+: rest.drop i := prefix_of_due hkey h
  obtain ⟨k, key', rfl⟩ := List.exists_cons_of_ne_nil hkey.ne_nil
  obtain ⟨tail, htail⟩ := hstarts
  refine ⟨?_, k, key' ++ tail, htail.symm, hkey.no_space k List.mem_cons_self⟩
  by_contra hge
  rw [List.drop_eq_nil_of_le (by omega)] at htail
  cases htail

/-- At the first table that is due, a new line begins, and the list has this table. -/
theorem rewritten_first_due {replaced : List (List Char × List Char)} {result : List Char} {i : ℕ}
    (hkey : PlainName key) (h : rewritten key 0 before rest replaced = some result)
    (hi : due_in key before rest i = true) (hbefore : ∀ j < i, due_in key before rest j = false) :
    result[i]? = some '\n' ∧ ∃ table nodes more, replaced = (table, nodes) :: more ∧
      table_length key (bare .code (rest.drop i)) = .ok table.length := by
  obtain ⟨hlt, c, tail, hdrop, -⟩ := exists_drop_of_due_in hkey hi
  have hdue : due key ((rest.take i).reverse ++ before) (c :: tail) = true := by
    rw [← hdrop]
    exact hi
  rw [rewritten_take replaced hlt.le hbefore, hdrop] at h
  obtain ⟨more, hmore, rfl⟩ := Option.map_eq_some_iff.mp h
  have hlength : (rest.take i).length = i := by
    rw [List.length_take]
    omega
  rw [List.getElem?_append_right (by omega), hlength, Nat.sub_self, hdrop]
  cases replaced with
  | nil =>
    rw [rewritten_due_nil hdue] at hmore
    cases hmore
  | cons entry replaced =>
    obtain ⟨table, nodes⟩ := entry
    rw [rewritten_due table nodes replaced hdue] at hmore
    split_ifs at hmore with htable
    obtain ⟨more', -, rfl⟩ := Option.map_eq_some_iff.mp hmore
    exact ⟨rfl, table, nodes, replaced, rfl, htable.2⟩

/-- Up to a place with no table that is due, the characters stay as they are. -/
theorem rewritten_not_due {replaced : List (List Char × List Char)} {result : List Char} {i : ℕ}
    (h : rewritten key 0 before rest replaced = some result) (hlt : i < rest.length)
    (hbefore : ∀ j ≤ i, due_in key before rest j = false) : result[i]? = rest[i]? := by
  have hnext : ∀ j < i + 1, due_in key before rest j = false :=
    fun j hj => hbefore j (Nat.lt_succ_iff.mp hj)
  have hle : i + 1 ≤ rest.length := hlt
  rw [rewritten_take replaced hle hnext] at h
  obtain ⟨more, -, rfl⟩ := Option.map_eq_some_iff.mp h
  have hlength : (rest.take (i + 1)).length = i + 1 := by
    rw [List.length_take]
    omega
  rw [List.getElem?_append_left (by omega), List.getElem?_take_of_lt (Nat.lt_succ_self i)]

/-- Where no table is due any more, nothing changes. -/
theorem rewritten_none_due (h : ∀ j, due_in key before rest j = false) :
    rewritten key 0 before rest [] = some rest := by
  rw [rewritten_take [] (le_refl rest.length) fun j _ => h j, List.drop_length, rewritten,
    if_pos rfl, List.take_length]
  simp

section Loop

variable {generate : List Char → Bool → Except String (List Char)} {loop next final : TableLoop}
  {table_start table_end : ℕ}

/-! ## The loop and the rewritten document -/

/-- The loop has rewritten the document up to the frontier. -/
def Follows (key source : List Char) (loop : TableLoop) : Prop :=
  ∃ written gone rest, loop.document = written ++ rest ∧ source = gone ++ rest ∧
    loop.frontier = written.length ∧
    ∀ replaced, rewritten key 0 [] source (loop.replaced ++ replaced) =
      (rewritten key 0 gone.reverse rest replaced).map (written ++ ·)

/-- A place of the document, behind the frontier, where a table begins that must be rewritten:
what stands before it counts as it was in the beginning. -/
def due_at (key source : List Char) (loop : TableLoop) (place : ℕ) : Prop :=
  loop.frontier ≤ place ∧
    due key (source.take (source.length - (loop.document.length - place))).reverse
      (loop.document.drop place) = true

theorem due_at_iff {written gone rest : List Char} {place : ℕ}
    (hdocument : loop.document = written ++ rest) (hsource : source = gone ++ rest)
    (hfrontier : loop.frontier = written.length) :
    due_at key source loop place ↔
      ∃ i, place = written.length + i ∧ due_in key gone.reverse rest i = true := by
  have hplace : ∀ i, due key (source.take (source.length -
      (loop.document.length - (written.length + i)))).reverse
        (loop.document.drop (written.length + i)) = due_in key gone.reverse rest i := by
    intro i
    have hdrop : loop.document.drop (written.length + i) = rest.drop i := by
      rw [hdocument, ← List.drop_drop, List.drop_left]
    have htake : source.take (source.length - (loop.document.length - (written.length + i))) =
        gone ++ rest.take i := by
      rw [hdocument, hsource, List.length_append, List.length_append]
      rcases Nat.le_total i rest.length with hi | hi
      · have heq : gone.length + rest.length - (written.length + rest.length -
            (written.length + i)) = gone.length + i := by omega
        rw [heq, List.take_append, Nat.add_sub_cancel_left, List.take_of_length_le (by omega)]
      · have heq : gone.length + rest.length - (written.length + rest.length -
            (written.length + i)) = (gone ++ rest).length := by
          rw [List.length_append]
          omega
        rw [heq, List.take_length, List.take_of_length_le hi]
    rw [hdrop, htake, due_in, List.reverse_append]
  unfold due_at
  rw [hfrontier]
  constructor
  · rintro ⟨hle, hdue⟩
    obtain ⟨i, rfl⟩ := Nat.exists_eq_add_of_le hle
    rw [hplace i] at hdue
    exact ⟨i, rfl, hdue⟩
  · rintro ⟨i, rfl, hdue⟩
    exact ⟨Nat.le_add_right _ _, (hplace i).trans hdue⟩

/-- Before the place from which on the loop searches, no table is due any more. -/
def Clean (key source : List Char) (loop : TableLoop) : Prop :=
  ∀ place < loop.searchstart, ¬ due_at key source loop place

/-- The search does not go past a table that is due. -/
def Seen (key source : List Char) (loop : TableLoop) : Prop :=
  ∀ place, loop.searchstart ≤ place → due_at key source loop place →
    ∃ table_start table_end, loop.range = some (table_start, table_end) ∧ table_start ≤ place

/-- A turn leaves a table alone exactly where it is not due, it finds the end of a table that is
due, and the search does not go on behind another table that is due: not inside a table that is
left alone, and not in the part of the document that is skipped where the new table is shorter
than the old one. -/
structure RightTurn (key source : List Char)
    (generate : List Char → Bool → Except String (List Char)) (loop : TableLoop)
    (table_start table_end : ℕ) : Prop where
  decides : enclosing_table_name loop.document key loop.searchstart = .ok "message".toList ↔
    ¬ due_at key source loop table_start
  kept : ¬ due_at key source loop table_start → Searchable key loop.document table_end ∧
    ∀ place, table_start < place → place < table_end → ¬ due_at key source loop place
  replaced : due_at key source loop table_start →
    table_length key (bare .code (loop.document.drop table_start)) =
      .ok (table_end - table_start) ∧
    ∃ nodes, generate loop.document loop.inter_subsystem_transfer = .ok nodes ∧
      Searchable key (with_table key loop.document table_start table_end nodes) table_end ∧
      ∀ place, table_end ≤ place →
        place + (new_table key nodes).length < table_end + (table_end - table_start) →
        ¬ due_at key source loop place

/-! ## What a turn does to the tables that are due -/

/-- The character at which a table that is due begins is no space. -/
theorem getElem?_of_due_at (hkey : PlainName key) (hfollows : Follows key source loop) {place : ℕ}
    (h : due_at key source loop place) :
    ∃ c, loop.document[place]? = some c ∧ isSpace c = false := by
  obtain ⟨written, gone, rest, hdocument, hsource, hfrontier, -⟩ := hfollows
  obtain ⟨i, rfl, hdue⟩ := (due_at_iff hdocument hsource hfrontier).mp h
  obtain ⟨-, c, tail, hdrop, hc⟩ := exists_drop_of_due_in hkey hdue
  refine ⟨c, ?_, hc⟩
  have hi : rest[i]? = some c := by
    rw [← List.head?_drop, hdrop]
    rfl
  rw [hdocument, List.getElem?_append_right (Nat.le_add_right _ _), Nat.add_sub_cancel_left]
  exact hi

/-- A table that is left alone stays due or not. -/
theorem due_at_kept {place : ℕ} (hdocument : next.document = loop.document)
    (hfrontier : next.frontier = loop.frontier) :
    due_at key source next place ↔ due_at key source loop place := by
  unfold due_at
  rw [hdocument, hfrontier]

theorem Follows.kept (h : Follows key source loop) (hdocument : next.document = loop.document)
    (hfrontier : next.frontier = loop.frontier) (hreplaced : next.replaced = loop.replaced) :
    Follows key source next := by
  unfold Follows
  rw [hdocument, hfrontier, hreplaced]
  exact h

/-- Behind a new table, the same tables are due as behind the old one. -/
theorem due_at_replaced {nodes : List Char} {place : ℕ} (hle : loop.frontier ≤ table_end)
    (hlt : table_start < table_end) (hlength : table_end ≤ loop.document.length)
    (hdocument : next.document = with_table key loop.document table_start table_end nodes)
    (hfrontier : next.frontier = table_start + (new_table key nodes).length) :
    due_at key source next place ↔ ∃ place', table_end ≤ place' ∧
      place + table_end = place' + next.frontier ∧ due_at key source loop place' := by
  have htake : (loop.document.take table_start).length = table_start := by
    rw [List.length_take]
    omega
  have hnew : (loop.document.take table_start ++ new_table key nodes).length = next.frontier := by
    rw [List.length_append, htake, hfrontier]
  have hplace : ∀ i, due key (source.take (source.length -
      (next.document.length - (next.frontier + i)))).reverse
        (next.document.drop (next.frontier + i)) =
      due key (source.take (source.length - (loop.document.length - (table_end + i)))).reverse
        (loop.document.drop (table_end + i)) := by
    intro i
    have hdrop : next.document.drop (next.frontier + i) = loop.document.drop (table_end + i) := by
      rw [hdocument, with_table, ← List.drop_drop, ← hnew, List.drop_left, List.drop_drop]
    have hrest : next.document.length - (next.frontier + i) =
        loop.document.length - (table_end + i) := by
      rw [hdocument, with_table, List.length_append, hnew, List.length_drop]
      omega
    rw [hdrop, hrest]
  unfold due_at
  constructor
  · rintro ⟨hbehind, hdue⟩
    obtain ⟨i, rfl⟩ := Nat.exists_eq_add_of_le hbehind
    rw [hplace i] at hdue
    exact ⟨table_end + i, Nat.le_add_right _ _, by omega, by omega, hdue⟩
  · rintro ⟨place', hbehind, heq, -, hdue⟩
    obtain ⟨i, rfl⟩ := Nat.exists_eq_add_of_le hbehind
    obtain rfl : place = next.frontier + i := by omega
    exact ⟨Nat.le_add_right _ _, (hplace i).trans hdue⟩

/-- Where the first table that is due is replaced, the loop has rewritten the document up to
the end of it. -/
theorem Follows.replaced {nodes : List Char} (h : Follows key source loop)
    (hdue : due_at key source loop table_start)
    (hfirst : ∀ place < table_start, ¬ due_at key source loop place)
    (hlt : table_start < table_end) (hlength : table_end ≤ loop.document.length)
    (hend : table_length key (bare .code (loop.document.drop table_start)) =
      .ok (table_end - table_start))
    (hdocument : next.document = with_table key loop.document table_start table_end nodes)
    (hfrontier : next.frontier = table_start + (new_table key nodes).length)
    (hreplaced : next.replaced =
      loop.replaced ++ [((loop.document.take table_end).drop table_start, nodes)]) :
    Follows key source next := by
  obtain ⟨written, gone, rest, heq, hsource, hwritten, hspec⟩ := h
  have hiff : ∀ place, due_at key source loop place ↔
      ∃ i, place = written.length + i ∧ due_in key gone.reverse rest i = true :=
    fun place => due_at_iff heq hsource hwritten
  obtain ⟨i, rfl, hdue_in⟩ := (hiff table_start).mp hdue
  have hbefore : ∀ j < i, due_in key gone.reverse rest j = false := by
    intro j hj
    have hno := hfirst (written.length + j) (by omega)
    rw [hiff] at hno
    by_contra hyes
    exact hno ⟨j, rfl, by simpa using hyes⟩
  obtain ⟨t, rfl⟩ := Nat.exists_eq_add_of_le hlt.le
  rw [heq, List.length_append] at hlength
  have hdrop : loop.document.drop (written.length + i) = rest.drop i := by
    rw [heq, ← List.drop_drop, List.drop_left]
  -- the rest is what stands before the table, the table and what stands behind it
  have hsplit : rest = rest.take i ++ ((rest.drop i).take t ++ rest.drop (i + t)) := by
    rw [← List.drop_drop, List.take_append_drop, List.take_append_drop]
  have htable : (loop.document.take (written.length + i + t)).drop (written.length + i) =
      (rest.drop i).take t := by
    rw [List.drop_take, hdrop, Nat.add_sub_cancel_left]
  have htlength : ((rest.drop i).take t).length = t := by
    rw [List.length_take, List.length_drop]
    omega
  refine ⟨written ++ rest.take i ++ new_table key nodes,
    gone ++ rest.take i ++ (rest.drop i).take t, rest.drop (i + t), ?_, ?_, ?_, fun more => ?_⟩
  · rw [hdocument, with_table, heq, Nat.add_assoc, List.take_append, Nat.add_sub_cancel_left,
      List.take_of_length_le (Nat.le_add_right _ _), ← List.drop_drop, List.drop_left]
  · rw [hsource]
    conv_lhs => rw [hsplit]
    simp
  · have htake : (rest.take i).length = i := by
      rw [List.length_take]
      omega
    rw [hfrontier, List.length_append, List.length_append, htake]
  · have hdue' : due key ((rest.take i).reverse ++ gone.reverse)
        ((rest.drop i).take t ++ rest.drop (i + t)) = true := by
      rw [← List.drop_drop, List.take_append_drop]
      exact hdue_in
    have hend' : table_length key (bare .code ((rest.drop i).take t ++ rest.drop (i + t))) =
        .ok ((rest.drop i).take t).length := by
      rw [hdrop, Nat.add_sub_cancel_left] at hend
      rw [htlength, ← List.drop_drop, List.take_append_drop]
      exact hend
    have hne : (rest.drop i).take t ≠ [] := by
      intro hnil
      rw [hnil] at htlength
      exact absurd htlength (by rw [List.length_nil]; omega)
    have hrest : rest.drop i = (rest.drop i).take t ++ rest.drop (i + t) := by
      rw [← List.drop_drop, List.take_append_drop]
    have hstep := rewritten_table nodes more hdue' hne hend'
    rw [← hrest] at hstep
    rw [hreplaced, htable, List.append_assoc, hspec, List.singleton_append,
      rewritten_take _ (by omega) hbefore, hstep, List.reverse_append, List.reverse_append,
      Option.map_map, Option.map_map]
    congr 1
    funext result
    simp

/-- The searches of the loop raise nothing, and each of its states sees the tables that are due
and turns right. -/
def TurnsRight (key source : List Char)
    (generate : List Char → Bool → Except String (List Char)) : Prop :=
  Searchable key source 0 ∧ ∀ loop, Visited key source generate loop → Seen key source loop ∧
    ∀ table_start table_end, loop.range = some (table_start, table_end) →
      RightTurn key source generate loop table_start table_end

/-! ## Right turns -/

/-- Before the place where a right turn goes on, no table is due. -/
theorem RightTurn.clean_kept (hclean : Clean key source loop) (hseen : Seen key source loop)
    (hright : RightTurn key source generate loop table_start table_end)
    (hrange : loop.range = some (table_start, table_end))
    (hdue : ¬ due_at key source loop table_start) :
    ∀ place < table_end, ¬ due_at key source loop place := by
  intro place hlt hplace
  rcases Nat.lt_or_ge place loop.searchstart with hbefore | hbehind
  · exact hclean place hbefore hplace
  obtain ⟨start, stop, hrange', hle⟩ := hseen place hbehind hplace
  obtain ⟨rfl, rfl⟩ := Prod.mk.inj (Option.some.inj (hrange.symm.trans hrange'))
  rcases hle.eq_or_lt with rfl | hinside
  · exact hdue hplace
  · exact (hright.kept hdue).2 place hinside hlt hplace

/-- The table of a turn is the first that is due, if it is due. -/
theorem first_due (hclean : Clean key source loop) (hseen : Seen key source loop)
    (hrange : loop.range = some (table_start, table_end)) :
    ∀ place < table_start, ¬ due_at key source loop place := by
  intro place hlt hplace
  rcases Nat.lt_or_ge place loop.searchstart with hbefore | hbehind
  · exact hclean place hbefore hplace
  obtain ⟨start, stop, hrange', hle⟩ := hseen place hbehind hplace
  obtain ⟨rfl, rfl⟩ := Prod.mk.inj (Option.some.inj (hrange.symm.trans hrange'))
  exact absurd hlt (not_lt_of_ge hle)

/-- A right turn ends, goes on behind the table and leaves less of the old document. -/
theorem RightTurn.step (hkey : PlainName key) (hloop : Ranged key loop)
    (hfollows : Follows key source loop) (hclean : Clean key source loop)
    (hseen : Seen key source loop)
    (hright : RightTurn key source generate loop table_start table_end)
    (hrange : loop.range = some (table_start, table_end)) :
    ∃ next, loop.turn key generate table_start table_end = .ok next ∧
      Follows key source next ∧ Clean key source next ∧
      (next.document.length - next.frontier < loop.document.length - loop.frontier ∨
        next.document.length - next.frontier = loop.document.length - loop.frontier ∧
        next.document.length - next.searchstart < loop.document.length - loop.searchstart) := by
  have htable := hloop.table hkey hrange
  obtain ⟨hle, -, -, -, hlt, hlength⟩ := htable
  obtain ⟨name, hname, -⟩ := Loop.map_eq_ok.mp hloop.inter
  by_cases hdue : due_at key source loop table_start
  · obtain ⟨hend, nodes, hnodes, hsearch, hskip⟩ := hright.replaced hdue
    have hmessage : name ≠ "message".toList := by
      rintro rfl
      exact hright.decides.mp hname hdue
    obtain ⟨next, hnext⟩ := exists_resume_iff.mpr hsearch
    have hturn := turn_eq_ok.mpr (Or.inr ⟨name, hname, hmessage, nodes, hnodes, hnext⟩)
    have hfrontier : loop.frontier ≤ table_start := hdue.1
    obtain ⟨hdocument, hsearchstart, hreplaced, hnew⟩ := resume_fields hnext
    refine ⟨next, hturn, ?_, ?_, Or.inl ?_⟩
    · exact hfollows.replaced hdue (first_due hclean hseen hrange) hlt hlength hend hdocument hnew
        hreplaced
    · intro place hplace hdue'
      obtain ⟨place', hbehind, heq, hdue'⟩ :=
        (due_at_replaced (hfrontier.trans hlt.le) hlt hlength hdocument hnew).mp hdue'
      exact hskip place' hbehind (by omega) hdue'
    · rw [hdocument, hnew, with_table, List.length_append, List.length_append, List.length_take,
        List.length_drop]
      omega
  · obtain ⟨hsearch, -⟩ := hright.kept hdue
    have hmessage := hright.decides.mpr hdue
    obtain ⟨next, hnext⟩ := exists_resume_iff.mpr hsearch
    have hturn : loop.turn key generate table_start table_end = .ok next :=
      turn_eq_ok.mpr (Or.inl ⟨hmessage, hnext⟩)
    obtain ⟨hdocument, hsearchstart, hreplaced, hfrontier⟩ := resume_fields hnext
    refine ⟨next, hturn, hfollows.kept hdocument hfrontier hreplaced, ?_, Or.inr ⟨?_, ?_⟩⟩
    · intro place hplace
      rw [due_at_kept hdocument hfrontier]
      exact hright.clean_kept hclean hseen hrange hdue place (hsearchstart ▸ hplace)
    · rw [hdocument, hfrontier]
    · rw [hdocument, hsearchstart]
      omega

/-- Where no table is due any more, the document of the loop is the rewritten one. -/
theorem Follows.rewritten_eq (h : Follows key source loop)
    (hno : ∀ place, ¬ due_at key source loop place) :
    rewritten key 0 [] source loop.replaced = some loop.document := by
  obtain ⟨written, gone, rest, hdocument, hsource, hfrontier, hspec⟩ := h
  have hrest : ∀ j, due_in key gone.reverse rest j = false := by
    intro j
    have hplace := hno (written.length + j)
    rw [due_at_iff hdocument hsource hfrontier] at hplace
    by_contra hyes
    exact hplace ⟨j, rfl, by simpa using hyes⟩
  have hspec' := hspec []
  rw [List.append_nil, rewritten_none_due hrest] at hspec'
  rw [hspec', hdocument]
  rfl

/-- The loop ends with the rewritten document. -/
def EndsRewritten (key source : List Char)
    (generate : List Char → Bool → Except String (List Char)) (loop : TableLoop) : Prop :=
  ∃ turns final, loop.run key generate turns = .ok (some final) ∧
    rewritten key 0 [] source final.replaced = some final.document

theorem run_turn {turns : ℕ} (hrange : loop.range = some (table_start, table_end))
    (hturn : loop.turn key generate table_start table_end = .ok next) :
    loop.run key generate (turns + 1) = next.run key generate turns := by
  rw [TableLoop.run, hrange]
  dsimp only
  rw [hturn]
  rfl

/-- Right turns lead to the rewritten document: what is left of the old document, and then what
is left to search, gets less with each of them. -/
theorem ends_of_right (hkey : PlainName key) (hgenerate : NoReferences generate)
    (hright : ∀ loop, Visited key source generate loop → Seen key source loop ∧
      ∀ table_start table_end, loop.range = some (table_start, table_end) →
        RightTurn key source generate loop table_start table_end)
    (hvisited : Visited key source generate loop) (hloop : Ranged key loop)
    (hfollows : Follows key source loop) (hclean : Clean key source loop) :
    EndsRewritten key source generate loop := by
  induction hold : loop.document.length - loop.frontier using Nat.strong_induction_on
    generalizing loop with
  | _ old ih_old =>
    induction hsearch : loop.document.length - loop.searchstart using Nat.strong_induction_on
      generalizing loop with
    | _ search ih_search =>
      obtain ⟨hseen, hturns⟩ := hright loop hvisited
      cases hrange : loop.range with
      | none =>
        refine ⟨0, loop, ?_, hfollows.rewritten_eq fun place hdue => ?_⟩
        · rw [TableLoop.run, if_pos hrange]
        · rcases Nat.lt_or_ge place loop.searchstart with hbefore | hbehind
          · exact hclean place hbefore hdue
          · obtain ⟨start, stop, hrange', -⟩ := hseen place hbehind hdue
            rw [hrange] at hrange'
            cases hrange'
      | some range =>
        obtain ⟨table_start, table_end⟩ := range
        obtain ⟨next, hturn, hfollows', hclean', hless⟩ :=
          (hturns table_start table_end hrange).step hkey hloop hfollows hclean hseen hrange
        have hvisited' := hvisited.turn hrange hturn
        have hloop' := hloop.turn hkey hgenerate hturn
        have hends : EndsRewritten key source generate next := by
          rcases hless with hless | ⟨hsame, hless⟩
          · exact ih_old _ (hold ▸ hless) hvisited' hloop' hfollows' hclean' rfl
          · exact ih_search _ (hsearch ▸ hless) hvisited' hloop' hfollows' hclean'
              (hsame.trans hold) rfl
        obtain ⟨turns, final, hrun, hfinal⟩ := hends
        exact ⟨turns + 1, final, (run_turn hrange hturn).trans hrun, hfinal⟩

/-! ## The turns of a loop that ends with the rewritten document -/

theorem exists_more {final : TableLoop} {more : List (List Char × List Char)}
    (hfollows : Follows key source loop)
    (hfinal : rewritten key 0 [] source (loop.replaced ++ more) = some final.document) :
    ∃ written gone rest result, loop.document = written ++ rest ∧ source = gone ++ rest ∧
      loop.frontier = written.length ∧ final.document = written ++ result ∧
      rewritten key 0 gone.reverse rest more = some result := by
  obtain ⟨written, gone, rest, hdocument, hsource, hfrontier, hspec⟩ := hfollows
  rw [hspec] at hfinal
  obtain ⟨result, hresult, heq⟩ := Option.map_eq_some_iff.mp hfinal
  exact ⟨written, gone, rest, result, hdocument, hsource, hfrontier, heq.symm, hresult⟩

/-- At the first table that is due, the rewritten document has a new line, and the table is the
next that was replaced. -/
theorem rewritten_at_due {final : TableLoop} {more : List (List Char × List Char)} {place : ℕ}
    (hkey : PlainName key) (hfollows : Follows key source loop)
    (hfinal : rewritten key 0 [] source (loop.replaced ++ more) = some final.document)
    (hdue : due_at key source loop place)
    (hfirst : ∀ place' < place, ¬ due_at key source loop place') :
    final.document[place]? = some '\n' ∧ ∃ table nodes more', more = (table, nodes) :: more' ∧
      table_length key (bare .code (loop.document.drop place)) = .ok table.length := by
  obtain ⟨written, gone, rest, result, hdocument, hsource, hfrontier, heq, hresult⟩ :=
    exists_more hfollows hfinal
  have hiff : ∀ place, due_at key source loop place ↔
      ∃ i, place = written.length + i ∧ due_in key gone.reverse rest i = true :=
    fun place => due_at_iff hdocument hsource hfrontier
  obtain ⟨i, rfl, hdue_in⟩ := (hiff place).mp hdue
  have hbefore : ∀ j < i, due_in key gone.reverse rest j = false := by
    intro j hj
    have hno := hfirst (written.length + j) (by omega)
    rw [hiff] at hno
    by_contra hyes
    exact hno ⟨j, rfl, by simpa using hyes⟩
  obtain ⟨hline, table, nodes, more', hmore, hlength⟩ :=
    rewritten_first_due hkey hresult hdue_in hbefore
  refine ⟨?_, table, nodes, more', hmore, ?_⟩
  · rw [heq, List.getElem?_append_right (Nat.le_add_right _ _), Nat.add_sub_cancel_left]
    exact hline
  · rw [hdocument, ← List.drop_drop, List.drop_left]
    exact hlength

/-- Up to a place with no table that is due, the rewritten document is that of the loop. -/
theorem rewritten_at_not_due {final : TableLoop} {more : List (List Char × List Char)} {place : ℕ}
    (hfollows : Follows key source loop)
    (hfinal : rewritten key 0 [] source (loop.replaced ++ more) = some final.document)
    (hlt : place < loop.document.length)
    (hno : ∀ place' ≤ place, ¬ due_at key source loop place') :
    final.document[place]? = loop.document[place]? := by
  obtain ⟨written, gone, rest, result, hdocument, hsource, hfrontier, heq, hresult⟩ :=
    exists_more hfollows hfinal
  rw [heq, hdocument]
  rw [hdocument, List.length_append] at hlt
  rcases Nat.lt_or_ge place written.length with hwritten | hrest
  · rw [List.getElem?_append_left hwritten, List.getElem?_append_left hwritten]
  · obtain ⟨i, rfl⟩ := Nat.exists_eq_add_of_le hrest
    have hbefore : ∀ j ≤ i, due_in key gone.reverse rest j = false := by
      intro j hj
      have hplace := hno (written.length + j) (by omega)
      rw [due_at_iff hdocument hsource hfrontier] at hplace
      by_contra hyes
      exact hplace ⟨j, rfl, by simpa using hyes⟩
    rw [List.getElem?_append_right hrest, List.getElem?_append_right hrest, Nat.add_sub_cancel_left]
    exact rewritten_not_due hresult (by omega) hbefore

/-- Where the rewritten document is that of the loop up to a place, no table is due before this
place. -/
theorem clean_of_same {final : TableLoop} {more : List (List Char × List Char)} {stop : ℕ}
    (hkey : PlainName key) (hfollows : Follows key source loop)
    (hfinal : rewritten key 0 [] source (loop.replaced ++ more) = some final.document)
    (hsame : ∀ place < stop, final.document[place]? = loop.document[place]?) :
    ∀ place < stop, ¬ due_at key source loop place := by
  intro place
  induction place using Nat.strong_induction_on with
  | _ place ih =>
    intro hlt hdue
    obtain ⟨hline, -⟩ := rewritten_at_due hkey hfollows hfinal hdue fun place' hplace' =>
      ih place' hplace' (hplace'.trans hlt)
    obtain ⟨c, hc, hspace⟩ := getElem?_of_due_at hkey hfollows hdue
    rw [hsame place hlt, hc] at hline
    rw [Option.some.inj hline] at hspace
    revert hspace
    decide

theorem getElem?_with_table {nodes : List Char} {place : ℕ}
    (hlength : table_start ≤ loop.document.length) (hlt : place < table_start) :
    (with_table key loop.document table_start table_end nodes)[place]? =
      loop.document[place]? := by
  have htake : (loop.document.take table_start).length = table_start := by
    rw [List.length_take]
    omega
  rw [with_table, List.append_assoc, List.getElem?_append_left (by omega),
    List.getElem?_take_of_lt hlt]

theorem getElem?_with_table_start {nodes : List Char}
    (hlength : table_start ≤ loop.document.length) :
    (with_table key loop.document table_start table_end nodes)[table_start]? = some '\n' := by
  have htake : (loop.document.take table_start).length = table_start := by
    rw [List.length_take]
    omega
  rw [with_table, List.append_assoc, List.getElem?_append_right (by omega), htake, Nat.sub_self,
    new_table_eq]
  rfl

/-- What a run consists of. -/
theorem run_eq_ok {turns : ℕ} (h : loop.run key generate turns = .ok (some final)) :
    (loop.range = none ∧ final = loop) ∨ ∃ table_start table_end next turns',
      turns = turns' + 1 ∧ loop.range = some (table_start, table_end) ∧
      loop.turn key generate table_start table_end = .ok next ∧
      next.run key generate turns' = .ok (some final) := by
  cases hrange : loop.range with
  | none =>
    left
    refine ⟨rfl, ?_⟩
    cases turns with
    | zero =>
      rw [TableLoop.run, if_pos hrange] at h
      exact (Option.some.inj (Except.ok.inj h)).symm
    | succ turns =>
      rw [TableLoop.run, hrange] at h
      exact (Option.some.inj (Except.ok.inj h)).symm
  | some range =>
    right
    obtain ⟨table_start, table_end⟩ := range
    cases turns with
    | zero =>
      rw [TableLoop.run, if_neg (by rw [hrange]; exact Option.some_ne_none _)] at h
      cases Except.ok.inj h
    | succ turns =>
      rw [TableLoop.run, hrange] at h
      obtain ⟨next, hturn, hrun⟩ := Loop.bind_eq_ok.mp h
      exact ⟨table_start, table_end, next, turns, rfl, rfl, hturn, hrun⟩

/-- A run changes nothing before the place from which on it searches, and it keeps what was
replaced. -/
theorem run_keeps {turns : ℕ} (hkey : PlainName key) (hgenerate : NoReferences generate)
    (hloop : Ranged key loop) (h : loop.run key generate turns = .ok (some final)) :
    (∀ place < loop.searchstart, final.document[place]? = loop.document[place]?) ∧
      loop.replaced <+: final.replaced := by
  induction turns generalizing loop with
  | zero =>
    rcases run_eq_ok h with ⟨-, rfl⟩ | ⟨_, _, _, turns', hturns, -⟩
    · exact ⟨fun _ _ => rfl, List.prefix_rfl⟩
    · cases hturns
  | succ turns ih =>
    rcases run_eq_ok h with ⟨-, rfl⟩ | ⟨table_start, table_end, next, _, hturns, hrange, hturn, hrun⟩
    · exact ⟨fun _ _ => rfl, List.prefix_rfl⟩
    obtain rfl := Nat.succ.inj hturns
    obtain ⟨hsame, hstarts⟩ := ih (hloop.turn hkey hgenerate hturn) hrun
    obtain ⟨hle, -, -, -, hlt, hlength⟩ := hloop.table hkey hrange
    rcases turn_eq_ok.mp hturn with ⟨-, hnext⟩ | ⟨-, -, -, nodes, -, hnext⟩
    · obtain ⟨hdocument, hsearchstart, hreplaced, -⟩ := resume_fields hnext
      rw [hdocument] at hsame
      rw [hreplaced] at hstarts
      exact ⟨fun place hplace => hsame place (by omega), hstarts⟩
    · obtain ⟨hdocument, hsearchstart, hreplaced, -⟩ := resume_fields hnext
      rw [hreplaced] at hstarts
      refine ⟨fun place hplace => ?_, (List.prefix_append _ _).trans hstarts⟩
      rw [hsame place (by omega), hdocument]
      exact getElem?_with_table (by omega) (by omega)

/-- The character at which a table begins is no space. -/
theorem getElem?_of_opens {place : ℕ} (hkey : PlainName key)
    (h : opens_table key (loop.document.drop place) = true) :
    ∃ c, loop.document[place]? = some c ∧ isSpace c = false := by
  obtain ⟨k, key', rfl⟩ := List.exists_cons_of_ne_nil hkey.ne_nil
  obtain ⟨tail, htail⟩ := prefix_of_opens_table h
  refine ⟨k, ?_, hkey.no_space k List.mem_cons_self⟩
  rw [← List.head?_drop, ← htail]
  rfl

/-- Where a loop ends with the rewritten document, nothing is due before the place where it
searches. -/
theorem EndsRewritten.clean (hkey : PlainName key) (hgenerate : NoReferences generate)
    (hloop : Ranged key loop) (hfollows : Follows key source loop)
    (hends : EndsRewritten key source generate loop) : Clean key source loop := by
  obtain ⟨turns, final, hrun, hfinal⟩ := hends
  obtain ⟨hsame, more, hmore⟩ := run_keeps hkey hgenerate hloop hrun
  rw [← hmore] at hfinal
  exact clean_of_same hkey hfollows hfinal hsame

/-- A table that is left alone, where the loop ends with the rewritten document. -/
theorem EndsRewritten.right_kept (hkey : PlainName key) (hgenerate : NoReferences generate)
    (hloop : Ranged key loop) (hfollows : Follows key source loop)
    (hrange : loop.range = some (table_start, table_end))
    (hname : enclosing_table_name loop.document key loop.searchstart = .ok "message".toList)
    (hnext : TableLoop.resume key loop.document table_end loop.replaced loop.frontier = .ok next)
    (hends : EndsRewritten key source generate next) :
    Seen key source loop ∧ RightTurn key source generate loop table_start table_end ∧
      Follows key source next := by
  have hlt := (hloop.table hkey hrange).lt
  have hsearch := exists_resume_iff.mp ⟨next, hnext⟩
  have hloop' : Ranged key next := Ranged.of_resume hloop.no_reference hnext
  obtain ⟨hdocument, hsearchstart, hreplaced, hfrontier⟩ := resume_fields hnext
  have hfollows' : Follows key source next := hfollows.kept hdocument hfrontier hreplaced
  have hclean := hends.clean hkey hgenerate hloop' hfollows'
  have hnone : ∀ place < table_end, ¬ due_at key source loop place :=
    fun place hplace hdue =>
      hclean place (hsearchstart ▸ hplace) ((due_at_kept hdocument hfrontier).mpr hdue)
  refine ⟨fun place _ hdue => ?_, ⟨?_, fun _ => ⟨hsearch, ?_⟩, ?_⟩, hfollows'⟩
  · refine ⟨table_start, table_end, hrange, ?_⟩
    by_contra hplace
    exact hnone place (by omega) hdue
  · exact ⟨fun _ => hnone table_start hlt, fun _ => hname⟩
  · exact fun place _ hplace => hnone place hplace
  · exact fun hdue => absurd hdue (hnone table_start hlt)

/-- A table that is replaced, where the loop ends with the rewritten document: the new line
with which the new table begins tells that the old one was due. -/
theorem EndsRewritten.right_replaced {nodes name : List Char} (hkey : PlainName key)
    (hgenerate : NoReferences generate) (hloop : Ranged key loop)
    (hfollows : Follows key source loop) (hrange : loop.range = some (table_start, table_end))
    (hname : enclosing_table_name loop.document key loop.searchstart = .ok name)
    (hmessage : name ≠ "message".toList)
    (hnodes : generate loop.document loop.inter_subsystem_transfer = .ok nodes)
    (hnext : TableLoop.resume key (with_table key loop.document table_start table_end nodes)
      table_end (loop.replaced ++ [((loop.document.take table_end).drop table_start, nodes)])
      (table_start + (new_table key nodes).length) = .ok next)
    (hloop' : Ranged key next) (hends : EndsRewritten key source generate next) :
    Seen key source loop ∧ RightTurn key source generate loop table_start table_end ∧
      Follows key source next := by
  obtain ⟨hle, hopens, -, -, hlt, hlength⟩ := hloop.table hkey hrange
  have hsearch := exists_resume_iff.mp ⟨next, hnext⟩
  obtain ⟨turns, final, hrun, hfinal⟩ := id hends
  obtain ⟨hsame, more, hmore⟩ := run_keeps hkey hgenerate hloop' hrun
  obtain ⟨hdocument, hsearchstart, hreplaced, hnew⟩ := resume_fields hnext
  rw [hdocument, hsearchstart] at hsame
  rw [hreplaced, List.append_assoc] at hmore
  rw [← hmore] at hfinal
  have hbefore : ∀ place < table_start, ¬ due_at key source loop place := by
    refine clean_of_same hkey hfollows hfinal fun place hplace => ?_
    rw [hsame place (by omega)]
    exact getElem?_with_table (by omega) hplace
  have hdue : due_at key source loop table_start := by
    by_contra hno
    have hnone : ∀ place ≤ table_start, ¬ due_at key source loop place := by
      intro place hplace
      rcases hplace.eq_or_lt with rfl | hplace
      · exact hno
      · exact hbefore place hplace
    have hstays := rewritten_at_not_due hfollows hfinal (by omega) hnone
    obtain ⟨c, hc, hspace⟩ := getElem?_of_opens hkey hopens
    rw [hsame table_start hlt, getElem?_with_table_start (by omega), hc] at hstays
    rw [← Option.some.inj hstays] at hspace
    revert hspace
    decide
  obtain ⟨-, table, nodes', more', heq, hend⟩ :=
    rewritten_at_due hkey hfollows hfinal hdue hbefore
  obtain ⟨hentry, -⟩ := List.cons.inj heq
  obtain ⟨rfl, rfl⟩ := Prod.mk.inj hentry
  have htable : ((loop.document.take table_end).drop table_start).length =
      table_end - table_start := by
    rw [List.length_drop, List.length_take]
    omega
  rw [htable] at hend
  have hfrontier : loop.frontier ≤ table_end := hdue.1.trans hlt.le
  have hfollows' : Follows key source next :=
    hfollows.replaced hdue hbefore hlt hlength hend hdocument hnew hreplaced
  have hclean := hends.clean hkey hgenerate hloop' hfollows'
  refine ⟨fun place _ hplace => ?_, ⟨?_, fun hno => absurd hdue hno, fun _ => ⟨hend, nodes, hnodes,
    hsearch, fun place hbehind hskip hplace => ?_⟩⟩, hfollows'⟩
  · refine ⟨table_start, table_end, hrange, ?_⟩
    by_contra hlt'
    exact hbefore place (by omega) hplace
  · refine ⟨fun hmessage' => ?_, fun hno => absurd hdue hno⟩
    exact absurd (Except.ok.inj (hname.symm.trans hmessage')) hmessage
  · have hplace' : next.frontier + (place - table_end) < next.searchstart := by
      rw [hnew, hsearchstart]
      omega
    refine hclean _ hplace' ((due_at_replaced hfrontier hlt hlength hdocument hnew).mpr ?_)
    exact ⟨place, hbehind, by omega, hplace⟩

/-- A loop that ends with the rewritten document sees the tables that are due; its turn is right
and leads to a loop that ends so. -/
theorem EndsRewritten.right (hkey : PlainName key) (hgenerate : NoReferences generate)
    (hloop : Ranged key loop) (hfollows : Follows key source loop)
    (hends : EndsRewritten key source generate loop) :
    Seen key source loop ∧
      ∀ table_start table_end, loop.range = some (table_start, table_end) →
        RightTurn key source generate loop table_start table_end ∧
        ∀ next, loop.turn key generate table_start table_end = .ok next →
          Follows key source next ∧ EndsRewritten key source generate next := by
  obtain ⟨turns, final, hrun, hfinal⟩ := hends
  rcases run_eq_ok hrun with ⟨hrange, rfl⟩ | ⟨start, stop, next, turns', -, hrange, hturn, hrun'⟩
  · -- the loop has ended: its document is the rewritten one
    have hnone : ∀ place, ¬ due_at key source final place := by
      intro place
      have hfinal' : rewritten key 0 [] source (final.replaced ++ []) = some final.document := by
        rw [List.append_nil]
        exact hfinal
      have hclean : ∀ other < place + 1, ¬ due_at key source final other :=
        clean_of_same hkey hfollows hfinal' fun _ _ => rfl
      exact hclean place (Nat.lt_succ_self place)
    refine ⟨fun place _ hdue => absurd hdue (hnone place), fun start stop hrange' => ?_⟩
    rw [hrange] at hrange'
    cases hrange'
  · have hends' : EndsRewritten key source generate next := ⟨turns', final, hrun', hfinal⟩
    have hloop' := hloop.turn hkey hgenerate hturn
    have hright : Seen key source loop ∧ RightTurn key source generate loop start stop ∧
        Follows key source next := by
      rcases turn_eq_ok.mp hturn with ⟨hname, hnext⟩ | ⟨name, hname, hmessage, nodes, hnodes, hnext⟩
      · exact hends'.right_kept hkey hgenerate hloop hfollows hrange hname hnext
      · exact hends'.right_replaced hkey hgenerate hloop hfollows hrange hname hmessage hnodes hnext
          hloop'
    obtain ⟨hseen, hturns, hfollows'⟩ := hright
    refine ⟨hseen, fun table_start table_end hrange' => ?_⟩
    obtain ⟨rfl, rfl⟩ := Prod.mk.inj (Option.some.inj (hrange.symm.trans hrange'))
    refine ⟨hturns, fun next' hturn' => ?_⟩
    obtain rfl := Except.ok.inj (hturn.symm.trans hturn')
    exact ⟨hfollows', hends'⟩

/-- Every state of a loop that ends with the rewritten document has rewritten it up to the
frontier, and goes on to end with it. -/
theorem Visited.ends (hkey : PlainName key) (hgenerate : NoReferences generate)
    (hsource : ¬ "@local::".toList <:+: source)
    (hends : ∀ loop, TableLoop.start key source = .ok loop → EndsRewritten key source generate loop)
    (h : Visited key source generate loop) :
    Follows key source loop ∧ EndsRewritten key source generate loop := by
  induction h with
  | start h =>
    refine ⟨?_, hends _ h⟩
    obtain ⟨range, inter, -, -, rfl⟩ := resume_ok h
    exact ⟨[], [], source, rfl, rfl, rfl, fun replaced => by simp⟩
  | turn hloop hrange h ih =>
    obtain ⟨hfollows, hends'⟩ := ih
    have hranged := hloop.ranged hkey hgenerate hsource
    obtain ⟨-, hturns⟩ := hends'.right hkey hgenerate hranged hfollows
    exact (hturns _ _ hrange).2 _ h

/-- The loop over the tables of a document ends with the rewritten document exactly where it
turns right. -/
theorem ends_rewritten_iff (hkey : PlainName key) (hgenerate : NoReferences generate)
    (hsource : ¬ "@local::".toList <:+: source) :
    (∃ loop, TableLoop.start key source = .ok loop ∧ EndsRewritten key source generate loop) ↔
      TurnsRight key source generate := by
  constructor
  · rintro ⟨loop, hstart, hends⟩
    refine ⟨exists_resume_iff.mp ⟨loop, hstart⟩, fun loop' hvisited => ?_⟩
    have hends_start : ∀ other, TableLoop.start key source = .ok other →
        EndsRewritten key source generate other := by
      intro other hother
      obtain rfl := Except.ok.inj (hstart.symm.trans hother)
      exact hends
    obtain ⟨hfollows, hends'⟩ := hvisited.ends hkey hgenerate hsource hends_start
    have hranged := hvisited.ranged hkey hgenerate hsource
    obtain ⟨hseen, hturns⟩ := hends'.right hkey hgenerate hranged hfollows
    exact ⟨hseen, fun table_start table_end hrange => (hturns table_start table_end hrange).1⟩
  · rintro ⟨hsearch, hright⟩
    obtain ⟨loop, hstart⟩ : ∃ loop, TableLoop.start key source = .ok loop :=
      exists_resume_iff.mpr hsearch
    have hvisited : Visited key source generate loop := .start hstart
    refine ⟨loop, hstart, ends_of_right hkey hgenerate hright hvisited
      (hvisited.ranged hkey hgenerate hsource) ?_ ?_⟩
    · obtain ⟨range, inter, -, -, rfl⟩ := resume_ok hstart
      exact ⟨[], [], source, rfl, rfl, rfl, fun replaced => by simp⟩
    · obtain ⟨range, inter, -, -, rfl⟩ := resume_ok hstart
      exact fun place hplace => absurd hplace (Nat.not_lt_zero place)

end Loop

/-! ## The tables of the bookkeeping -/

namespace Bookkeeping

variable {self : Bookkeeping} {c : Computed} {p : Procinfo} {nodetype : NodeType}
  {max_event_size : ℤ}

/-- The loop over the tables of a kind in the document of a process ends, and its result is the
document with a new table in the place of each table of that kind that is not directly inside a
`message` table, exactly where the loop turns right. -/
theorem tables_rewritten_iff (hnames : self.PlainNames)
    (hsource : ¬ "@local::".toList <:+: p.document.toList) :
    (∃ turns final, self.write_tables c p nodetype max_event_size turns = .ok (some final) ∧
        rewritten nodetype.tablename.toList 0 [] p.document.toList final.replaced =
          some final.document) ↔
      TurnsRight nodetype.tablename.toList p.document.toList
        (self.table_text c p nodetype max_event_size) := by
  rw [← ends_rewritten_iff (tablename_plain nodetype) hnames.no_references hsource]
  constructor
  · rintro ⟨turns, final, hrun, hfinal⟩
    obtain ⟨loop, hstart, hrun⟩ := Loop.bind_eq_ok.mp hrun
    exact ⟨loop, hstart, turns, final, hrun, hfinal⟩
  · rintro ⟨loop, hstart, turns, final, hrun, hfinal⟩
    exact ⟨turns, final, Loop.bind_eq_ok.mpr ⟨loop, hstart, hrun⟩, hfinal⟩

/-- A BoardReader with a table inside others. -/
def reader_with_table : Procinfo :=
  ranked .BoardReader 0 "daq: \x7b sender: \x7b destinations: \x7b \x7d \x7d \x7d \n"

/-- The table of the BoardReader is rewritten. -/
theorem reader_turns_right :
    TurnsRight NodeType.destinations.tablename.toList reader_with_table.document.toList
      ((reader_to_logger false "" "" "").table_text nothing_computed reader_with_table
        .destinations 10240) := by
  have hnames : (reader_to_logger false "" "" "").PlainNames :=
    ⟨by decide, by decide, by decide⟩
  have htest : ((reader_to_logger false "" "" "").write_tables nothing_computed reader_with_table
      .destinations 10240 1).toOption.any (fun loop => loop.any fun final =>
        decide (rewritten NodeType.destinations.tablename.toList 0 []
          reader_with_table.document.toList final.replaced = some final.document)) = true := by
    decide +kernel
  obtain ⟨loop, hrun, hfinal⟩ := Loop.exists_of_any htest
  obtain ⟨final, rfl, hrewritten⟩ := (Option.any_eq_true _ _).mp hfinal
  exact (tables_rewritten_iff hnames (by decide +kernel)).mp
    ⟨1, final, hrun, of_decide_eq_true hrewritten⟩

/-- The table of the EventBuilder is left as it is: the search for the table around it finds
the label. -/
theorem builder_table_left :
    ¬ ∃ turns final, (reader_to_logger false "" "" "").write_tables nothing_computed
        builder_with_label .sources 10240 turns = .ok (some final) ∧
      rewritten NodeType.sources.tablename.toList 0 [] builder_with_label.document.toList
        final.replaced = some final.document := by
  rintro ⟨turns, final, hrun, hfinal⟩
  obtain ⟨loop, hstart, hrun⟩ := Loop.bind_eq_ok.mp hrun
  have hnames : (reader_to_logger false "" "" "").PlainNames :=
    ⟨by decide, by decide, by decide⟩
  obtain ⟨-, hright⟩ := (ends_rewritten_iff (tablename_plain .sources) hnames.no_references
    (by decide +kernel)).mp ⟨loop, hstart, turns, final, hrun, hfinal⟩
  have htest : (TableLoop.start NodeType.sources.tablename.toList
      builder_with_label.document.toList).toOption.any (fun loop =>
        decide (loop.range = some (42, 54)) && decide (enclosing_table_name loop.document
          NodeType.sources.tablename.toList loop.searchstart = .ok "message".toList) &&
        decide (loop.frontier ≤ 42) &&
        due NodeType.sources.tablename.toList (builder_with_label.document.toList.take
          (builder_with_label.document.toList.length - (loop.document.length - 42))).reverse
          (loop.document.drop 42)) = true := by
    decide +kernel
  obtain ⟨loop', hstart', htest⟩ := Loop.exists_of_any htest
  obtain rfl := Except.ok.inj (hstart.symm.trans hstart')
  simp only [Bool.and_eq_true, decide_eq_true_eq] at htest
  obtain ⟨⟨⟨hrange, hname⟩, hfrontier⟩, hdue⟩ := htest
  have hturn := (hright loop (.start hstart)).2 42 54 hrange
  exact hturn.decides.mp hname ⟨hfrontier, hdue⟩

end Bookkeeping

end DaqInterface
