import DaqInterface.Library.Dict
import DaqInterface.Library.Graph
import DaqInterface.Library.Memo
import DaqInterface.Model.Parameters
import DaqInterface.Model.Process

/-!
# Fragments and event sizes

The first part of `bookkeeping_for_fhicl_documents_artdaq_v3_base`: the sizes that the
BoardReaders state, the fragments and the space of each subsystem, the check for cycles
among the subsystems and the three recursions over them.  A result of this part is a
`Computed`; what is written into the documents is made from it.
-/

namespace DaqInterface

/-- What the bookkeeping reads: the attributes of the program and its environment. -/
structure Bookkeeping where
  /-- The processes. -/
  procinfos : List Procinfo
  /-- The declared subsystems. -/
  subsystems : List (String × Subsystem)
  /-- The BoardReaders state the sizes of their fragments. -/
  advanced_memory_usage : Bool
  /-- A fragment id counts once in a subsystem. -/
  strict_fragment_id_mode : Bool
  /-- The size of the fragments, where the BoardReaders do not state it. -/
  max_fragment_size_bytes : ℤ
  /-- The plugins that transfer data. -/
  default_transfer : String
  br_transfer : String
  eb_transfer : String
  dl_transfer : String
  /-- The name shown for `localhost`. -/
  HOSTNAME : String
  /-- The number of nested calls after which the interpreter gives up. -/
  recursion_limit : ℕ

/-- The document of a process; the bookkeeping is done where every process has one. -/
def Procinfo.document (p : Procinfo) : String := p.fhicl_used.getD ""

/-- `d[key]`. -/
def getitem {α : Type} (d : List (String × α)) (key : String) : Except String α :=
  match d.lookup key with
  | some value => .ok value
  | none => .error ("KeyError: '" ++ key ++ "'")

theorem getitem_eq_ok {α : Type} {d : List (String × α)} {key : String} {value : α} :
    getitem d key = .ok value ↔ d.lookup key = some value := by
  unfold getitem
  split
  · rename_i value' h
    rw [h]
    constructor
    · intro heq
      rw [Except.ok.inj heq]
    · intro heq
      rw [Option.some.inj heq]
  · rename_i h
    rw [h]
    constructor
    · intro heq
      cases heq
    · intro heq
      cases heq

namespace Bookkeeping

/-- The names of the declared subsystems. -/
def names (self : Bookkeeping) : List String := self.subsystems.map Prod.fst

/-- The BoardReaders. -/
def boardreaders (self : Bookkeeping) : List Procinfo :=
  self.procinfos.filter fun p => p.name == .BoardReader

/-! ## Sizes of fragments -/

/-- Record the size that the document of a BoardReader states; no other document may. -/
def record_fragment_size (p : Procinfo) (sizes : List (String × ℤ)) :
    Except String (List (String × ℤ)) :=
  let res := (Pattern.findall re_max_frag_size p.document.toList).map fun groups => groups.headD []
  if p.name = .BoardReader then
    match res.getLast? with
    | some token => (fragment_size_of_token token).map fun size => Dict.assign p.label size sizes
    | none => .error ("Unable to find the max_fragment_size_bytes variable in the FHiCL document for "
        ++ p.label)
  else if res ≠ [] then
    .error ("max_fragment_size_bytes is found in the FHiCL document for " ++ p.label)
  else .ok sizes

/-- What one process adds to `max_fragment_size_by_label`. -/
def stated_fragment_size (p : Procinfo) (sizes : List (String × ℤ)) :
    Except String (List (String × ℤ)) := do
  let sizes ← record_fragment_size p sizes
  if contains "max_event_size_bytes" p.document then
    throw ("max_event_size_bytes is found in the FHiCL document for " ++ p.label)
  else pure sizes

/-- `max_fragment_size_by_label`. -/
def max_fragment_size_by_label (self : Bookkeeping) : Except String (List (String × ℤ)) :=
  if self.advanced_memory_usage then
    self.procinfos.foldlM (fun sizes p => stated_fragment_size p sizes) []
  else .ok []

/-- The size of the largest fragment of a BoardReader. -/
def fragment_space (self : Bookkeeping) (sizes : List (String × ℤ)) (p : Procinfo) :
    Except String ℤ :=
  if self.advanced_memory_usage then getitem sizes p.label else .ok self.max_fragment_size_bytes

/-! ## The fragments of a subsystem -/

/-- The fragments of the subsystems, before anything comes from their sources. -/
structure Totals where
  /-- `subsystem_fragment_space`. -/
  fragment_space : String → ℤ
  /-- `subsystem_fragment_ids`. -/
  fragment_ids : String → List ℕ
  /-- The space reserved for each BoardReader, with its subsystem: nothing reads it, it only
  records what `fragment_space` is made of. -/
  reserved : List (String × ℤ)

/-- Reserve space in a subsystem. -/
def Totals.reserve (totals : Totals) (ss : String) (space : ℤ) (ids : List ℕ) : Totals where
  fragment_space := Function.update totals.fragment_space ss (totals.fragment_space ss + space)
  fragment_ids := Function.update totals.fragment_ids ss (totals.fragment_ids ss ++ ids)
  reserved := totals.reserved ++ [(ss, space)]

/-- The ids of a list that are not there yet, each once. -/
def new_ids (known : List ℕ) : List ℕ → List ℕ
  | [] => []
  | tid :: ids => if tid ∈ known then new_ids known ids else tid :: new_ids (known ++ [tid]) ids

/-- Count the fragments of one BoardReader. -/
def count_reader (self : Bookkeeping) (sizes : List (String × ℤ)) (totals : Totals)
    (p : Procinfo) : Except String Totals := do
  let fragments := read_fragments p.document
  let space ← self.fragment_space sizes p
  if !self.strict_fragment_id_mode then do
    let _ ← getitem self.subsystems p.subsystem
    pure (totals.reserve p.subsystem (fragments.generated_fragments_per_event * space)
      fragments.reader_ids)
  else if fragments.reader_ids = [] then pure (totals.reserve p.subsystem 0 [])
  else do
    let _ ← getitem self.subsystems p.subsystem
    let ids := new_ids (totals.fragment_ids p.subsystem) fragments.reader_ids
    pure (totals.reserve p.subsystem (ids.length * space) ids)

/-- The fragments of all subsystems. -/
def count_fragments (self : Bookkeeping) (sizes : List (String × ℤ)) : Except String Totals :=
  self.boardreaders.foldlM (self.count_reader sizes) ⟨fun _ => 0, fun _ => [], []⟩

/-! ## Cycles -/

/-- The sources of a subsystem. -/
def sources_of (self : Bookkeeping) (ss : String) : List String :=
  ((self.subsystems.lookup ss).map Subsystem.sources).getD []

/-- `find_cycle_in_subsystem_graph`, and the exception for a cycle. -/
def check_cycles (self : Bookkeeping) : Except String Unit :=
  match Graph.find_cycle self.names self.sources_of self.recursion_limit with
  | none => .error "RecursionError: maximum recursion depth exceeded"
  | some (some cycle) => .error
    ("Circular dependency detected in the subsystem sources configuration: " ++
      " -> ".intercalate cycle)
  | some none => .ok ()

/-! ## The recursions -/

/-- The sources that a recursion goes through. -/
def source_list (self : Bookkeeping) (ss : String) : Except String (List String) :=
  (getitem self.subsystems ss).map Subsystem.sources

/-- `calculate_expected_fragments_per_event`. -/
def expected_fragments_recursion (self : Bookkeeping) (totals : Totals) :
    Recursion String ℕ String where
  start ss := (getitem self.subsystems ss).map fun _ => (totals.fragment_ids ss).length
  keys := self.source_list
  known ss ss_source :=
    -- a subsystem that is its own source adds nothing
    if ss_source = ss then .ok (some 0)
    else (getitem self.subsystems ss_source).map fun source =>
      if source.fragmentMode then none else some 1
  add count n := count + n
  finish count := count

/-- The size of the events of a subsystem before anything comes from its sources;
`scale` multiplies with the memory scale factor. -/
def own_event_size (self : Bookkeeping) (scale : ℤ → Except String ℤ) (totals : Totals)
    (ss : String) : Except String ℤ := do
  let _ ← getitem self.subsystems ss
  let size := totals.fragment_space ss
  if self.advanced_memory_usage then do
    let size ← scale size
    pure (if size % 8 ≠ 0 then size + (8 - size % 8) else size)
  else pure size

/-- `calculate_max_event_size`. -/
def max_event_size_recursion (self : Bookkeeping) (scale : ℤ → Except String ℤ)
    (totals : Totals) : Recursion String ℤ String where
  start := self.own_event_size scale totals
  keys := self.source_list
  known _ _ := .ok none
  add size n := size + n
  finish size := if size < 10240 then 10240 else size

/-- An element of a `fragment_ids` list. -/
inductive FragmentId
  /-- A fragment of a BoardReader. -/
  | reader (id : ℕ)
  /-- The one fragment that a subsystem sends. -/
  | subsystem (ss : String)
  deriving DecidableEq

/-- `calculate_subsystem_fragment_ids`. -/
def fragment_ids_recursion (self : Bookkeeping) (totals : Totals) :
    Recursion String (List FragmentId) String where
  start ss := (getitem self.subsystems ss).map fun _ =>
    (totals.fragment_ids ss).map FragmentId.reader
  keys := self.source_list
  known _ ss_source :=
    (getitem self.subsystems ss_source).map fun source =>
      if source.fragmentMode then none else some [.subsystem ss_source]
  add ids more := ids ++ more
  finish ids := ids

/-- What is computed before the documents are changed. -/
structure Computed where
  max_fragment_size_by_label : List (String × ℤ)
  totals : Totals
  expected_fragments_per_event : List (String × ℕ)
  max_event_sizes : List (String × ℤ)
  fragment_ids : List (String × List FragmentId)

/-- The values of a recursion for all subsystems. -/
def values {α : Type} (self : Bookkeeping) (r : Recursion String α String) :
    Except String (List (String × α)) :=
  r.table "RecursionError: maximum recursion depth exceeded" self.recursion_limit self.names []

/-- The computations before the documents are changed. -/
def compute (self : Bookkeeping) (scale : ℤ → Except String ℤ) : Except String Computed := do
  let sizes ← self.max_fragment_size_by_label
  let totals ← self.count_fragments sizes
  self.check_cycles
  let expected ← self.values (self.expected_fragments_recursion totals)
  let max_event_sizes ← self.values (self.max_event_size_recursion scale totals)
  let fragment_ids ← self.values (self.fragment_ids_recursion totals)
  pure ⟨sizes, totals, expected, max_event_sizes, fragment_ids⟩

/-- `int(float(size * 1.1))`. -/
def memory_scale (size : ℤ) : Except String ℤ :=
  match Double.of_rat size with
  | none => .error "OverflowError: int too large to convert to float"
  | some x =>
    match Double.of_rat (x * Double.round (11 / 10)) with
    | none => .error "OverflowError: cannot convert float infinity to integer"
    | some y => .ok (Double.trunc y)

end Bookkeeping

end DaqInterface
