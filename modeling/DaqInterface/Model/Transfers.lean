import DaqInterface.Model.Bookkeeping

/-!
# Sources and destinations tables

`create_sources_or_destinations_string`: the table that names, in the document of one
process, the processes it gets data from or sends data to, with the plugin and the size of
the buffer for each of them.
-/

namespace DaqInterface

/-- The two kinds of tables. -/
inductive NodeType
  | sources
  | destinations
  deriving DecidableEq, Repr

/-- The key of a table. -/
def NodeType.tablename : NodeType → String
  | .sources => "sources"
  | .destinations => "destinations"

/-- The letter before the rank in the key of a node. -/
def NodeType.initial : NodeType → String
  | .sources => "s"
  | .destinations => "d"

/-- The key of a rank in a node. -/
def NodeType.rank_key : NodeType → String
  | .sources => "source_rank"
  | .destinations => "destination_rank"

/-- An entry of a table. -/
structure Node where
  nodetype : NodeType
  /-- The process at the other end. -/
  rank : ℕ
  /-- The plugin that transfers the data. -/
  transfer : String
  /-- The size of the buffer, in words of 8 bytes. -/
  words : ℤ
  /-- The hosts of all processes; only the first node names them. -/
  host_map : String
  deriving DecidableEq

/-- The text of a node. -/
def Node.text (node : Node) : String :=
  node.nodetype.initial ++ toString node.rank ++ ": \x7b transferPluginType: " ++ node.transfer ++
    " " ++ node.nodetype.rank_key ++ ": " ++ toString node.rank ++ " max_fragment_size_words: " ++
    toString node.words ++ " " ++ node.host_map ++ " \x7d"

/-- A process whose document has changed. -/
def Procinfo.with_document (p : Procinfo) (document : String) : Procinfo :=
  { p with fhicl_used := some document }

@[simp] theorem Procinfo.with_document_name (p : Procinfo) (document : String) :
    (p.with_document document).name = p.name := rfl

@[simp] theorem Procinfo.with_document_subsystem (p : Procinfo) (document : String) :
    (p.with_document document).subsystem = p.subsystem := rfl

@[simp] theorem Procinfo.with_document_label (p : Procinfo) (document : String) :
    (p.with_document document).label = p.label := rfl

@[simp] theorem Procinfo.with_document_document (p : Procinfo) (document : String) :
    (p.with_document document).document = document := rfl

namespace Bookkeeping

/-! ## The processes of a table -/

/-- The processes, lowest rank first. -/
def sort_by_rank (procs : List Procinfo) : List Procinfo :=
  procs.insertionSort fun p q => p.rank ≤ q.rank

/-- `procinfos_sorted_by_rank`. -/
def procinfos_sorted_by_rank (self : Bookkeeping) : List Procinfo := sort_by_rank self.procinfos

/-- `host_map_string`. -/
def host_map_string (self : Bookkeeping) : String :=
  let hosts := (self.procinfos_sorted_by_rank.filter fun p => p.name ≠ .RoutingManager).map fun p =>
    "\x7brank: " ++ toString p.rank ++ " host: \"" ++
      (if p.host = "localhost" then self.HOSTNAME else p.host) ++ "\"\x7d"
  "host_map: [" ++ ", ".intercalate hosts ++ "]"

/-- `subsystem_has_dataloggers`. -/
def subsystem_has_dataloggers (self : Bookkeeping) (ss : String) : Bool :=
  self.procinfos.any fun p => p.subsystem == ss && p.name == .DataLogger

/-- `_procinfos_by_ss_type`. -/
def procinfos_by_ss_type (self : Bookkeeping) (ss : String) (name : ProcType) : List Procinfo :=
  self.procinfos_sorted_by_rank.filter fun p => p.subsystem == ss && p.name == name

/-- The destination of a subsystem. -/
def destination_of (self : Bookkeeping) (ss : String) : Option String :=
  (self.subsystems.lookup ss).bind Subsystem.destination

/-- `_inter_ss_eb_destinations`: an empty name counts as no destination. -/
def inter_ss_eb_destinations (self : Bookkeeping) (ss : String) : List Procinfo :=
  match self.destination_of ss with
  | some dest_ss => if dest_ss ≠ "" then self.procinfos_by_ss_type dest_ss .EventBuilder else []
  | none => []

/-- `_inter_ss_eb_sources`. -/
def inter_ss_eb_sources (self : Bookkeeping) (ss : String) : List Procinfo :=
  if ss ∈ self.names then
    sort_by_rank (self.names.flatMap fun other_ss =>
      if self.destination_of other_ss = some ss then
        self.procinfos_by_ss_type other_ss .EventBuilder
      else [])
  else []

/-- The processes of a table inside one subsystem. -/
def procinfos_inside (self : Bookkeeping) (p : Procinfo) (nodetype : NodeType) : List Procinfo :=
  let of_type := self.procinfos_by_ss_type p.subsystem
  let without_dataloggers := fun name =>
    if self.subsystem_has_dataloggers p.subsystem then [] else of_type name
  match p.name, nodetype with
  | .BoardReader, .destinations => of_type .EventBuilder
  | .EventBuilder, .sources => of_type .BoardReader
  | .EventBuilder, .destinations =>
    sort_by_rank (of_type .DataLogger ++ without_dataloggers .Dispatcher)
  | .DataLogger, .sources => of_type .EventBuilder
  | .DataLogger, .destinations => of_type .Dispatcher
  | .Dispatcher, .sources => sort_by_rank (of_type .DataLogger ++ without_dataloggers .EventBuilder)
  | _, _ => []

/-- `procinfos_for_string`: the processes of a table. -/
def procinfos_for_string (self : Bookkeeping) (p : Procinfo) (nodetype : NodeType)
    (inter_subsystem_transfer : Bool) : List Procinfo :=
  let inside := if inter_subsystem_transfer then [] else self.procinfos_inside p nodetype
  if p.name = .EventBuilder ∧ (inter_subsystem_transfer ∨ nodetype = .sources) then
    match nodetype with
    | .destinations => sort_by_rank (inside ++ self.inter_ss_eb_destinations p.subsystem)
    | .sources => sort_by_rank (inside ++ self.inter_ss_eb_sources p.subsystem)
  else inside

/-! ## The size of the buffers -/

/-- The size of the events in the buffers of a process: what its document states, except in
advanced mode, or else the given size. -/
def event_size_for (self : Bookkeeping) (p : Procinfo) (max_event_size : ℤ) : Except String ℤ :=
  if self.advanced_memory_usage then .ok max_event_size
  else (stated_event_size p.document).map fun size => size.getD max_event_size

/-- A size in words of 8 bytes, as a double. -/
def in_words (size : ℤ) : Except String ℚ :=
  match Double.of_rat (size / 8) with
  | some words => .ok words
  | none => .error "OverflowError: integer division result too large for a float"

/-- The size of the buffers of a process, where it is the same for all nodes: -1 for the
sources of an EventBuilder. -/
def buffer_size_words (self : Bookkeeping) (c : Computed) (p : Procinfo) (nodetype : NodeType)
    (max_event_size : ℤ) : Except String ℚ :=
  if p.name = .BoardReader then self.fragment_space c.max_fragment_size_by_label p >>= in_words
  else if p.name ≠ .EventBuilder ∨ nodetype ≠ .sources then
    self.event_size_for p max_event_size >>= in_words
  else .ok (-1)

/-- The size of the buffer in which an EventBuilder gets data from a process. -/
def source_size_words (self : Bookkeeping) (c : Computed) (source : Procinfo) : Except String ℚ :=
  if source.name = .BoardReader then
    self.fragment_space c.max_fragment_size_by_label source >>= in_words
  else if source.name = .EventBuilder then
    getitem c.max_event_sizes source.subsystem >>= in_words
  else .error "AssertionError: process type shouldn't be considered for an EventBuilder's sources table"

/-! ## The table -/

/-- The plugin between two processes. -/
def transfer_to_use (self : Bookkeeping) (p q : Procinfo) : String :=
  if p.name = .BoardReader ∨ q.name = .BoardReader then self.br_transfer
  else if p.name = .EventBuilder ∨ q.name = .EventBuilder then self.eb_transfer
  else if p.name = .DataLogger ∨ q.name = .DataLogger then self.dl_transfer
  else self.default_transfer

/-- The node for one process, the `i`-th of the table. -/
def create_node (self : Bookkeeping) (c : Computed) (p : Procinfo) (nodetype : NodeType)
    (common : ℚ) (q : Procinfo) (i : ℕ) : Except String Node := do
  let words ←
    (if nodetype = .sources ∧ p.name = .EventBuilder then self.source_size_words c q
    else .ok common)
  if words = -1 then throw "AssertionError"
  else
    pure { nodetype := nodetype
           rank := q.rank
           transfer := self.transfer_to_use p q
           words := Double.trunc words
           host_map := if i = 0 then self.host_map_string else "" }

/-- The nodes of a table. -/
def create_nodes (self : Bookkeeping) (c : Computed) (p : Procinfo) (nodetype : NodeType)
    (max_event_size : ℤ) (inter_subsystem_transfer : Bool) : Except String (List Node) := do
  let common ← self.buffer_size_words c p nodetype max_event_size
  let _ ← getitem self.subsystems p.subsystem
  (self.procinfos_for_string p nodetype inter_subsystem_transfer).zipIdx.mapM fun (q, i) =>
    self.create_node c p nodetype common q i

/-- `create_sources_or_destinations_string`. -/
def create_sources_or_destinations_string (self : Bookkeeping) (c : Computed) (p : Procinfo)
    (nodetype : NodeType) (max_event_size : ℤ) (inter_subsystem_transfer : Bool) :
    Except String String :=
  (self.create_nodes c p nodetype max_event_size inter_subsystem_transfer).map fun nodes =>
    "\n".intercalate (nodes.map Node.text)

/-- The nodes that are written into the document of a process. -/
def table_nodes (self : Bookkeeping) (c : Computed) (p : Procinfo) (nodetype : NodeType)
    (inter_subsystem_transfer : Bool) : Except String (List Node) := do
  let max_event_size ← getitem c.max_event_sizes p.subsystem
  self.create_nodes c p nodetype max_event_size inter_subsystem_transfer

end Bookkeeping

end DaqInterface
