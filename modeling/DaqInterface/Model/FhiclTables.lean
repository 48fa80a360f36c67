import DaqInterface.Library.Scan
import DaqInterface.Model.Transfers

/-!
# Tables in FHiCL documents

The search for a table and for the table around a place (`table_range`,
`enclosing_table_range`, `enclosing_table_name`), and the loop of the bookkeeping that writes
the tables of sources and destinations into a document.  Places are counted from the start of
a document; `none` is the answer `(-1, -1)`.
-/

namespace DaqInterface

open Scan

/-- `{` and `}`. -/
def braces : Brackets Char := ⟨'\x7b', '\x7d', by decide⟩

/-! ## Finding a table -/

/-- `text.find(needle, startingloc)`. -/
def find (needle text : List Char) (startingloc : ℕ) : Option ℕ :=
  (first_at (fun rest => decide (needle <+: rest)) (text.drop startingloc)).map (startingloc + ·)

/-- What stands behind a key, a colon and the white space around it. -/
def behind_colon (key rest : List Char) : Option (List Char) :=
  if key <+: rest then
    match (rest.drop key.length).dropWhile isSpace with
    | ':' :: more => some (more.dropWhile isSpace)
    | _ => none
  else none

/-- `^tablename\s*:\s*{` -/
def opens_table (tablename rest : List Char) : Bool :=
  match behind_colon tablename rest with
  | some more => decide (more.head? = some braces.opening)
  | none => false

/-- `tablename\s*:\s*@local::(\S+)` at the start of a text: the name that is referred to. -/
def reference_here (tablename rest : List Char) : Option (List Char) :=
  match behind_colon tablename rest with
  | some more =>
    if "@local::".toList <+: more ∧ ((more.drop 8).takeWhile fun c => !isSpace c) ≠ [] then
      some ((more.drop 8).takeWhile fun c => !isSpace c)
    else none
  | none => none

/-- The name that the table first refers to; a name is taken letter by letter. -/
def local_reference (tablename text : List Char) : Option (List Char) :=
  (first_at (fun rest => (reference_here tablename rest).isSome) text).bind fun i =>
    reference_here tablename (text.drop i)

/-- The length of the table that begins here, with its name and its braces. -/
def table_length (tablename rest : List Char) : Except String ℕ :=
  let open_brace_loc := rest.idxOf braces.opening
  match braces.close_at 1 (rest.drop (open_brace_loc + 1)) with
  | some close_brace_loc => .ok (open_brace_loc + 1 + close_brace_loc + 1)
  | none => .error ("Unable to find close brace for requested table \"" ++
      String.ofList tablename ++ "\"")

/-- `table_range`; the first argument bounds the number of calls inside each other. -/
def table_range_in : ℕ → List Char → List Char → ℕ → Except String (Option (ℕ × ℕ))
  | 0, _, _, _ => .error "RecursionError: maximum recursion depth exceeded"
  | n + 1, text, tablename, startingloc =>
    match find tablename text startingloc with
    | none => .ok none
    | some loc =>
      match local_reference tablename (text.drop loc) with
      | some original => table_range_in n text original 0
      | none =>
        if opens_table tablename (text.drop loc) then
          (table_length tablename (text.drop loc)).map fun length => some (loc, loc + length)
        else
          -- not a table: search behind its first letter
          (table_range_in n (text.drop (loc + 1)) tablename 0).map fun range =>
            range.map fun (table_start, table_end) => (loc + 1 + table_start, loc + 1 + table_end)

/-- `table_range`. -/
def table_range (text tablename : List Char) (startingloc : ℕ) :
    Except String (Option (ℕ × ℕ)) :=
  table_range_in (text.length + 1) text tablename startingloc

example : table_range "my sources sources : \x7b a: \x7b\x7d \x7d ".toList "sources".toList 0 =
    .ok (some (11, 30)) := by decide +kernel

/-! ## The table around a place -/

/-- `enclosing_table_range`. -/
def enclosing_table_range (text searchstring : List Char) (startingloc : ℕ) : Option (ℕ × ℕ) :=
  (find searchstring text startingloc).bind fun loc =>
    (braces.open_at 0 ((text.take loc).drop startingloc).reverse).bind fun distance =>
      -- an opening brace lowers `opening_count`, so the first brace of either kind ends the search
      (first_at (fun rest => rest.head? = some braces.opening || rest.head? = some braces.closing)
        (text.drop loc)).map fun closing => (loc - 1 - distance, loc + closing + 1)

/-- `text.rindex(":", 0, end)`. -/
def rindex_colon (text : List Char) (stop : ℕ) : Except String ℕ :=
  match first_at (fun rest => rest.head? = some ':') (text.take stop).reverse with
  | some distance => .ok ((text.take stop).length - 1 - distance)
  | none => .error "ValueError: substring not found"

/-- A text without the blanks at its end. -/
def without_blanks (text : List Char) : List Char :=
  (text.reverse.dropWhile (· == ' ')).reverse

/-- What stands before a colon and the blanks before it.  Where only blanks stand before it, the
search for the last character that is none goes on at the end of the text. -/
def before_colon (text : List Char) (colon_loc : ℕ) : List Char :=
  if (text.take colon_loc).all (· == ' ') then
    if text.getLast? = some ' ' then without_blanks text else []
  else without_blanks (text.take colon_loc)

/-- The last word of a text. -/
def last_word (text : List Char) : List Char :=
  (text.reverse.takeWhile fun c => !isSpace c).reverse

/-- The name before a brace; without a brace, the last character of the text stands in. -/
def name_before (text : List Char) (open_brace_loc : Option ℕ) : Except String (List Char) :=
  (rindex_colon text (open_brace_loc.getD (text.length - 1))).map fun colon_loc =>
    last_word (before_colon text colon_loc)

/-- `enclosing_table_name`. -/
def enclosing_table_name (text searchstring : List Char) (startingloc : ℕ) :
    Except String (List Char) :=
  name_before text ((enclosing_table_range text searchstring startingloc).map Prod.fst)

/-! ## The loop -/

/-- The tables around the outputs to another subsystem. -/
def enclosing_sender_tables : List (List Char) :=
  ["routingNetOutput".toList, "binaryNetOutput".toList, "subsystemOutput".toList]

/-- `determine_if_inter_subsystem_transfer`. -/
def determine_if_inter_subsystem_transfer (text tablename : List Char) (searchstart : ℕ) :
    Except String Bool :=
  (enclosing_table_name text tablename searchstart).map fun name => name ∈ enclosing_sender_tables

/-- The text of a new table. -/
def new_table (tablename nodes : List Char) : List Char :=
  "\n".toList ++ tablename ++ ": \x7b \n".toList ++ nodes ++ "\n \x7d \n".toList

/-- Where the loop over the tables of a document has got to. -/
structure TableLoop where
  /-- `fhicl_used`. -/
  document : List Char
  searchstart : ℕ
  /-- `table_start` and `table_end`. -/
  range : Option (ℕ × ℕ)
  inter_subsystem_transfer : Bool
  /-- The tables that have been replaced, each with the nodes of the new one: nothing reads it, it
  only records what was taken from the document and put into it. -/
  replaced : List (List Char × List Char)
  /-- The place behind the last table that has been replaced: nothing reads it, it only
  records where the text begins that is still as it was. -/
  frontier : ℕ
  deriving DecidableEq

/-- The loop before its first turn, or behind a turn. -/
def TableLoop.resume (tablename document : List Char) (searchstart : ℕ)
    (replaced : List (List Char × List Char)) (frontier : ℕ) : Except String TableLoop := do
  let range ← table_range document tablename searchstart
  let inter ← determine_if_inter_subsystem_transfer document tablename searchstart
  pure ⟨document, searchstart, range, inter, replaced, frontier⟩

/-- The loop before its first turn. -/
def TableLoop.start (tablename document : List Char) : Except String TableLoop :=
  TableLoop.resume tablename document 0 [] 0

/-- One turn of the loop; `generate` makes the nodes of a table, from the document and
`inter_subsystem_transfer`. -/
def TableLoop.turn (tablename : List Char)
    (generate : List Char → Bool → Except String (List Char)) (loop : TableLoop)
    (table_start table_end : ℕ) : Except String TableLoop := do
  let name ← enclosing_table_name loop.document tablename loop.searchstart
  if name ≠ "message".toList then do
    let nodes ← generate loop.document loop.inter_subsystem_transfer
    TableLoop.resume tablename (loop.document.take table_start ++ new_table tablename nodes ++
        loop.document.drop table_end)
      table_end (loop.replaced ++ [((loop.document.take table_end).drop table_start, nodes)])
      (table_start + (new_table tablename nodes).length)
  else TableLoop.resume tablename loop.document table_end loop.replaced loop.frontier

/-- The loop; the first argument bounds the number of turns. -/
def TableLoop.run (tablename : List Char)
    (generate : List Char → Bool → Except String (List Char)) :
    ℕ → TableLoop → Except String (Option TableLoop)
  | 0, loop => .ok (if loop.range = none then some loop else none)
  | n + 1, loop =>
    match loop.range with
    | none => .ok (some loop)
    | some (table_start, table_end) =>
      loop.turn tablename generate table_start table_end >>= TableLoop.run tablename generate n

namespace Bookkeeping

/-- The nodes of a table of a process whose document is given. -/
def table_text (self : Bookkeeping) (c : Computed) (p : Procinfo) (nodetype : NodeType)
    (max_event_size : ℤ) (document : List Char) (inter_subsystem_transfer : Bool) :
    Except String (List Char) :=
  (self.create_sources_or_destinations_string c (p.with_document (String.ofList document)) nodetype
    max_event_size inter_subsystem_transfer).map String.toList

/-- The loop over the tables of one kind in the document of a process. -/
def write_tables (self : Bookkeeping) (c : Computed) (p : Procinfo) (nodetype : NodeType)
    (max_event_size : ℤ) (turns : ℕ) : Except String (Option TableLoop) := do
  let loop ← TableLoop.start nodetype.tablename.toList p.document.toList
  loop.run nodetype.tablename.toList (self.table_text c p nodetype max_event_size) turns

end Bookkeeping

end DaqInterface
