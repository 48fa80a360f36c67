import DaqInterface.Model.FhiclTables

/-!
# The calls of `table_range`

`table_range` as it calls itself, for any name: the name becomes a part of two regular expressions,
and the name of a reference may be any text.  What `re.search` finds for these expressions is a
parameter (`ReSearch`); a name that is taken letter by letter is one case (`letter_by_letter`), and
there the recursion is the `table_range_in` of the documents (`table_range_in_eq_run`).
-/

namespace DaqInterface

open Scan

/-- `re.search` for the two expressions that `table_range` makes from a name; it fails where the
name cannot be read as part of a regular expression. -/
structure ReSearch where
  /-- `%s\s*:\s*@local::(\S+)`: the first group. -/
  reference : List Char → List Char → Except String (Option (List Char))
  /-- `^%s\s*:\s*{`. -/
  opens : List Char → List Char → Except String Bool

/-- Why a call fails. -/
inductive TableFailure
  /-- The exception that `table_range` raises. -/
  | no_close_brace (tablename : List Char)
  /-- One that is raised by what it calls. -/
  | raised (message : String)
  deriving DecidableEq

/-- What a call answers; `none` is `(-1, -1)`. -/
abbrev TableAnswer : Type := Except TableFailure (Option (ℕ × ℕ))

/-- The arguments of a call. -/
structure TableCall where
  fhiclstring : List Char
  tablename : List Char
  startingloc : ℕ
  deriving DecidableEq

/-- What a call does. -/
inductive TableMove
  | answers (answer : TableAnswer)
  /-- Another name is looked for in the same text. -/
  | refers (call : TableCall)
  /-- The search goes on behind a place; what is found there is counted from it. -/
  | goes_on (loc : ℕ) (call : TableCall)
  deriving DecidableEq

namespace TableCall

/-- The range of the table whose name stands at a place. -/
def table_at (call : TableCall) (loc : ℕ) : TableAnswer :=
  let rest := call.fhiclstring.drop loc
  if braces.opening ∉ rest then .error (.raised "ValueError: substring not found")
  else
    let open_brace_loc := rest.idxOf braces.opening
    match braces.close_at 1 (rest.drop (open_brace_loc + 1)) with
    | some close_brace_loc => .ok (some (loc, loc + (open_brace_loc + 1 + close_brace_loc + 1)))
    | none => .error (.no_close_brace call.tablename)

/-- One call, up to the call that it makes. -/
def move (re : ReSearch) (call : TableCall) : TableMove :=
  match find call.tablename call.fhiclstring call.startingloc with
  | none => .answers (.ok none)
  | some loc =>
    match re.reference call.tablename (call.fhiclstring.drop loc) with
    | .error message => .answers (.error (.raised message))
    | .ok (some original_table_name) => .refers ⟨call.fhiclstring, original_table_name, 0⟩
    | .ok none =>
      match re.opens call.tablename (call.fhiclstring.drop loc) with
      | .error message => .answers (.error (.raised message))
      | .ok true => .answers (call.table_at loc)
      | .ok false => .goes_on (loc + 1) ⟨call.fhiclstring.drop (loc + 1), call.tablename, 0⟩

/-- A range that is counted from a place. -/
def shifted (loc : ℕ) (answer : TableAnswer) : TableAnswer :=
  answer.map fun range => range.map fun (table_start, table_end) => (loc + table_start, loc + table_end)

/-- The calls inside each other, if there are no more than the given number. -/
def run (re : ReSearch) : ℕ → TableCall → Option TableAnswer
  | 0, _ => none
  | n + 1, call =>
    match call.move re with
    | .answers answer => some answer
    | .refers next => run re n next
    | .goes_on loc next => (run re n next).map (shifted loc)

end TableCall

/-! ## Names without special characters -/

/-- What `re.search` finds where every letter of a name stands for itself. -/
def letter_by_letter : ReSearch where
  reference tablename text := .ok (local_reference tablename text)
  opens tablename text := .ok (opens_table tablename text)

@[simp] theorem letter_by_letter_reference (tablename text : List Char) :
    letter_by_letter.reference tablename text = .ok (local_reference tablename text) := rfl

@[simp] theorem letter_by_letter_opens (tablename text : List Char) :
    letter_by_letter.opens tablename text = .ok (opens_table tablename text) := rfl

/-- The text of a failure. -/
def TableFailure.message : TableFailure → String
  | no_close_brace tablename =>
    "Unable to find close brace for requested table \"" ++ String.ofList tablename ++ "\""
  | raised message => message

theorem opening_mem_of_opens {tablename rest : List Char} (h : opens_table tablename rest = true) :
    braces.opening ∈ rest := by
  unfold opens_table behind_colon at h
  split_ifs at h with hprefix
  · split at h
    · rename_i more hmore
      split at hmore
      · rename_i more' hcolon
        obtain rfl := Option.some.inj hmore
        obtain ⟨tail, htail⟩ := List.head?_eq_some_iff.mp (of_decide_eq_true h)
        have hmem : braces.opening ∈ more'.dropWhile isSpace := htail ▸ List.mem_cons_self
        have hmore' : braces.opening ∈ (rest.drop tablename.length).dropWhile isSpace := by
          rw [hcolon]
          exact List.mem_cons_of_mem _ ((List.dropWhile_sublist _).subset hmem)
        exact List.mem_of_mem_drop ((List.dropWhile_sublist _).subset hmore')
      · cases hmore
    · cases h

/-- For such names, the calls answer what the search for tables in documents answers. -/
theorem table_range_in_eq_run (n : ℕ) (text tablename : List Char) (startingloc : ℕ) :
    table_range_in n text tablename startingloc =
      match TableCall.run letter_by_letter n ⟨text, tablename, startingloc⟩ with
      | none => .error "RecursionError: maximum recursion depth exceeded"
      | some answer => answer.mapError TableFailure.message := by
  induction n generalizing text tablename startingloc with
  | zero => rfl
  | succ n ih =>
    unfold table_range_in TableCall.run TableCall.move
    cases hfind : find tablename text startingloc with
    | none => rfl
    | some loc =>
      simp only [letter_by_letter_reference]
      cases hreference : local_reference tablename (text.drop loc) with
      | some original => exact ih text original 0
      | none =>
        simp only [letter_by_letter_opens]
        cases hopens : opens_table tablename (text.drop loc) with
        | true =>
          dsimp only
          rw [if_pos rfl]
          unfold TableCall.table_at table_length
          dsimp only
          rw [if_neg (not_not_intro (opening_mem_of_opens hopens))]
          cases braces.close_at 1 ((text.drop loc).drop ((text.drop loc).idxOf braces.opening + 1)) with
          | none => rfl
          | some close => rfl
        | false =>
          dsimp only
          rw [if_neg Bool.false_ne_true, ih]
          cases TableCall.run letter_by_letter n ⟨text.drop (loc + 1), tablename, 0⟩ with
          | none => rfl
          | some answer =>
            cases answer with
            | error failure => rfl
            | ok range => rfl

end DaqInterface
