import DaqInterface.Library.Template
import DaqInterface.Model.ConfigFiles
import DaqInterface.Model.InitFragments

/-!
# The documents of the processes

`bookkeeping_for_fhicl_documents_artdaq_v3_base` as a whole: one pass over the documents after
the other, with the computations of the first part and the router processes in between.  A pass
over the processes is the change of one document (`rewrite`).
-/

namespace DaqInterface

open Pattern

open Bookkeeping (Computed FragmentId)

/-! ## Regular expressions -/

def re_expected_frags : Pattern :=
  row [parameter "expected_fragments_per_event", some_of Char.isDigit]

def re_expected_frags_stated : Pattern :=
  row [text "\n", before_comment, text "expected_fragments_per_event", spaces, text ":"]

def re_host_map : Pattern := row [parameter "host_map", text "[", few fun c => c ≠ '\n', text "]"]

def re_req_addr : Pattern :=
  row [parameter "request_address", some_of fun c => c == '"' || c.isDigit || c == '.']

def re_partition : Pattern := row [parameter "partition_number", some_of Char.isDigit]

def re_first_logger_rank : Pattern := row [parameter "firstLoggerRank", some_of fun c => !isSpace c]

def re_filename : Pattern :=
  row [group (row [many fun c => c ≠ '\n', text "fileName", spaces, text ":",
    many fun c => isSpace c || c == '"']), text "/", some_of fun c => !isSpace c, text "/"]

/-- A parameter of the boot file in a document. -/
def re_overwritten (fhicl_key : String) : Pattern :=
  row [parameter fhicl_key, some_of fun c => !isSpace c]

namespace Bookkeeper

variable (self : Bookkeeper)

/-- Change the document of each process. -/
def rewrite (change : Procinfo → Except String (List Char)) : Except String Bookkeeper :=
  (self.procinfos.mapM fun p => (change p).map fun document =>
    p.with_document (String.ofList document)).map self.with_procinfos

/-- Neither a BoardReader nor a RoutingManager. -/
def receives_events (p : Procinfo) : Bool := p.name != .BoardReader && p.name != .RoutingManager

/-! ## Sizes and ids -/

/-- `max_event_size_bytes`, which is added where it does not stand yet. -/
def set_max_event_size (c : Computed) (p : Procinfo) : Except String (List Char) :=
  let document := p.document.toList
  if self.advanced_memory_usage ∧ receives_events p then
    if found re_max_evt_size_search p.document then
      (getitem c.max_event_sizes p.subsystem).map fun size =>
        substitute re_max_evt_size_sub ("max_event_size_bytes: " ++ toString size) document
    else
      match first_group re_buffer_count p.document with
      | none => .error ("artdaq's FHiCL requirements have changed since this code was written (DAQInterface expects a parameter called 'buffer_count' in "
          ++ p.label ++ ", but this doesn't appear to exist -> DAQInterface code needs to be changed to accommodate this)")
      | some buffer_count => (getitem c.max_event_sizes p.subsystem).map fun size =>
          substitute re_buffer_count ("\n" ++ String.ofList buffer_count ++
            "\nmax_event_size_bytes: " ++ toString size) document
  else .ok document

/-- The text of an element of a `fragment_ids` list. -/
def fragment_id_text : FragmentId → String
  | .reader id => toString id
  | .subsystem ss => ss

/-- `fragment_ids`, where they are to be filled in. -/
def set_fragment_ids (c : Computed) (p : Procinfo) : Except String (List Char) :=
  let document := p.document.toList
  if receives_events p ∧ found re_fragment_ids_search p.document then
    (getitem c.fragment_ids p.subsystem).map fun ids =>
      substitute re_fragment_ids_sub
        ("fragment_ids: [ " ++ ", ".intercalate (ids.map fragment_id_text) ++ " ]") document
  else .ok document

/-! ## Checks -/

/-- The parameters and tables that a document must have. -/
def preflight (p : Procinfo) : Except String Unit :=
  if p.name = .RoutingManager then .ok ()
  else if p.name = .EventBuilder ∧ !found re_expected_frags_stated ("\n" ++ p.document) then
    .error ("Required FHiCL parameter 'expected_fragments_per_event' was not found in the " ++
      "configuration for " ++ p.label ++ " (" ++ p.name.spelled ++ "). DAQInterface sets this " ++
      "parameter during bookkeeping - please add 'expected_fragments_per_event: 0' (or any " ++
      "placeholder value) to the FHiCL document.")
  else do
    let tablename := if p.name = .BoardReader then "destinations" else "sources"
    let range ← table_range p.document.toList tablename.toList 0
    if range = none then
      throw ("Required FHiCL table '" ++ tablename ++ "' was not found in the configuration for " ++
        p.label ++ " (" ++ p.name.spelled ++ "). DAQInterface fills in this table during " ++
        "bookkeeping - please add '" ++ tablename ++ ": \x7b\x7d' to the FHiCL document.")
    else pure ()

/-! ## Tables of sources and destinations -/

/-- The document of a process with its tables of one kind; a loop that has not ended after the
given number of turns is taken to fail. -/
def set_tables_of (c : Computed) (turns : ℕ) (p : Procinfo) (nodetype : NodeType)
    (document : List Char) : Except String (List Char) := do
  let loop ← TableLoop.start nodetype.tablename.toList document
  let generate := fun document inter => do
    let max_event_size ← getitem c.max_event_sizes p.subsystem
    self.table_text c p nodetype max_event_size document inter
  let ended ← loop.run nodetype.tablename.toList generate turns
  match ended with
  | some loop => pure loop.document
  | none => throw "the loop over the tables has not ended"

/-- The document of a process with its tables. -/
def set_tables (c : Computed) (turns : ℕ) (p : Procinfo) : Except String (List Char) := do
  let document ← self.set_tables_of c turns p .sources p.document.toList
  self.set_tables_of c turns p .destinations document

/-! ## Parameters -/

/-- The address for requests that stands in a document. -/
def request_address_for (p : Procinfo) : Except String String :=
  match self.request_address with
  | some request_address => .ok request_address
  | none => (int_of_signed_text p.subsystem.toList).map fun ss =>
      "227.128." ++ toString self.partition_number ++ "." ++ toString (128 + ss)

/-- The parameters that do not depend on router processes. -/
def set_parameters (c : Computed) (p : Procinfo) : Except String (List Char) := do
  let expected ←
    (if p.name = .DataLogger ∨ p.name = .Dispatcher then .ok 1
    else getitem c.expected_fragments_per_event p.subsystem)
  let request_address ← self.request_address_for p
  let document := substitute re_expected_frags
    ("expected_fragments_per_event: " ++ toString expected) p.document.toList
  let document := substitute re_host_map self.host_map_string document
  let document := substitute re_req_addr
    ("request_address: \"" ++ strip_quotes request_address ++ "\"") document
  pure (substitute re_partition ("partition_number: " ++ toString self.partition_number) document)

/-- `firstLoggerRank`: the lowest rank of a process that writes root files. -/
def first_logger_rank : ℕ :=
  (self.procinfos.filter fun p => fhicl_writes_root_file p.document).foldl
    (fun rank p => if p.rank < rank then p.rank else rank) 9999999

/-- The document of a process with this rank. -/
def set_first_logger_rank (p : Procinfo) : Except String (List Char) :=
  let document := p.document.toList
  if fhicl_writes_root_file p.document ∧ found re_first_logger_rank p.document then
    .ok (substitute re_first_logger_rank ("firstLoggerRank: " ++ toString self.first_logger_rank)
      document)
  else .ok document

/-- The document of a process with the directory that the boot file gives for data. -/
def set_data_directory (p : Procinfo) : Except String (List Char) :=
  let document := p.document.toList
  match self.data_directory_override with
  | none => .ok document
  | some directory =>
    if (p.name = .EventBuilder ∨ p.name = .DataLogger) ∧ fhicl_writes_root_file p.document then
      match (enclosing_table_range document "RootOutput".toList 0).orElse fun _ =>
          enclosing_table_range document "RootDAQOut".toList 0 with
      | none => .error "AssertionError"
      | some (start, stop) =>
        let table := (document.take stop).drop start
        (Template.sub re_filename 1 ("\\1" ++ directory).toList table).map fun table =>
          document.take start ++ table ++ document.drop stop
    else .ok document

/-- The document of a process with the values that the boot file gives. -/
def set_overwrites (p : Procinfo) : Except String (List Char) :=
  self.bootfile_fhicl_overwrites.foldlM (fun document (fhicl_key, fhicl_value) =>
    Template.sub (re_overwritten fhicl_key) 0 (fhicl_key ++ ": " ++ fhicl_value).toList document)
    p.document.toList

/-! ## The whole -/

/-- The first part: everything up to the tables of sources and destinations. -/
def write_tables (scale : ℤ → Except String ℤ) (turns : ℕ) :
    Except String (Computed × Bookkeeper) := do
  let c ← self.compute scale
  let self ← self.rewrite (self.set_max_event_size c)
  let self ← self.rewrite (set_fragment_ids c)
  self.check_routers
  self.procinfos.forM preflight
  let self ← self.rewrite (self.set_tables c turns)
  pure (c, self)

/-- What follows the router processes. -/
def write_rest : Except String (List Procinfo) := do
  let self ← self.rewrite self.set_first_logger_rank
  let self ← self.rewrite self.set_data_directory
  let self ← self.rewrite self.set_overwrites
  write_init_fragment_counts self.subsystems self.procinfos

/-- The second part, from the BoardReaders that send nothing on. -/
def write_parameters (c : Computed) : Except String (List Procinfo) := do
  let nonsending := self.nonsending_boardreaders
  let self ← self.rewrite (self.set_parameters c)
  let seen ← self.private_networks_seen
  let procinfos ← self.bookkeep_routers nonsending seen
  (self.with_procinfos procinfos).write_rest

/-- `bookkeeping_for_fhicl_documents_artdaq_v3_base`. -/
def bookkeeping_for_fhicl_documents (scale : ℤ → Except String ℤ) (turns : ℕ) :
    Except String (List Procinfo) := do
  let (c, self) ← self.write_tables scale turns
  self.write_parameters c

end Bookkeeper

end DaqInterface
