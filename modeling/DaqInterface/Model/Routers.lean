import DaqInterface.Model.BootFile
import DaqInterface.Model.FhiclTables

/-!
# Router processes

The part of `bookkeeping_for_fhicl_documents_artdaq_v3_base` that tells the processes how to
reach the router processes, which are the RoutingManagers and the DFOs: the checks on where they
stand, the ports they are given and the tables in the documents that name these ports.  In the
loop that gives out the ports the address for the requests of each subsystem is chosen as well.
-/

namespace DaqInterface

open Pattern

/-! ## Regular expressions -/

def re_gen_frags_zero : Pattern :=
  row [text "\n", spaces, parameter "generated_fragments_per_event", text "0"]

def re_multicast_ip : Pattern :=
  row [parameter "multicast_interface_ip", some_of fun c => !isSpace c]

def re_table_update_port : Pattern := row [parameter "table_update_port", some_of Char.isDigit]

def re_routing_token_port : Pattern := row [parameter "routing_token_port", some_of Char.isDigit]

def re_routing_mgr_host : Pattern :=
  row [parameter "routing_manager_hostname", some_of fun c => !isSpace c]

def re_send_requests : Pattern := row [text "\n", spaces, parameter "send_requests", text "true"]

/-- A quotation mark that may be missing. -/
def quote : Pattern := alt (text "\"") empty

/-- The expression for one of the modes in which requests are sent. -/
def re_request_mode (first second : Char) (rest : String) : Pattern :=
  row [text "\n", spaces, parameter "request_mode", quote, char fun c => c == first || c == second,
    text rest, quote]

/-- The modes that are looked for. -/
def request_modes : List Pattern :=
  [re_request_mode 'W' 'w' "indow", re_request_mode 'S' 's' "ingle", re_request_mode 'B' 'b' "uffer"]

def re_address : Pattern :=
  let number := some_of Char.isDigit
  row [group (row [number, text ".", number, text ".", number, text "."]), number]

/-- `re.sub` with a text that names no group. -/
def substitute (p : Pattern) (replacement : String) (document : List Char) : List Char :=
  p.sub (fun _ => replacement.toList) document

/-- `text.strip('"')`. -/
def strip_quotes (text : String) : String :=
  String.ofList ((text.toList.dropWhile (· == '"')).reverse.dropWhile (· == '"')).reverse

/-! ## Router processes -/

/-- The type of a process, as it is written. -/
def ProcType.spelled : ProcType → String
  | .BoardReader => "BoardReader"
  | .EventBuilder => "EventBuilder"
  | .DataLogger => "DataLogger"
  | .Dispatcher => "Dispatcher"
  | .RoutingManager => "RoutingManager"

/-- The kinds of router processes. -/
inductive Router
  | RoutingManager
  | DFO
  deriving DecidableEq, Repr

/-- `get_router_process_identifier`. -/
def get_router_process_identifier (p : Procinfo) : Option Router :=
  if p.name = .RoutingManager then some .RoutingManager
  else if contains "DFO" p.label then some .DFO
  else none

/-- The target of a router process, where none given stands for the EventBuilders. -/
def Procinfo.with_target (p : Procinfo) : Procinfo :=
  if (get_router_process_identifier p).isSome ∧ p.target = "not set" then
    { p with target := "EventBuilder" }
  else p

/-- The document of a BoardReader says that it sends nothing. -/
def sends_nothing (p : Procinfo) : Bool :=
  found re_sends_no_frags p.document || found re_gen_frags_zero p.document

/-- What the later parts of the bookkeeping read besides. -/
structure Bookkeeper extends Bookkeeping where
  ARTDAQ_BASE_PORT : ℤ
  ARTDAQ_PORTS_PER_PARTITION : ℤ
  partition_number : ℤ
  boot_filename : String
  /-- The address for requests, where it is given. -/
  request_address : Option String
  disable_private_network_bookkeeping : Bool
  /-- The private networks that a host sees. -/
  get_private_networks : String → Except String (List String)
  /-- The first of the networks when their set is made a list. -/
  first_network : Finset String → String
  /-- The directory for the files with data, where the boot file gives one. -/
  data_directory_override : Option String
  /-- Values that the boot file gives for parameters of the documents. -/
  bootfile_fhicl_overwrites : List (String × String)

namespace Bookkeeper

variable (self : Bookkeeper)

/-- The same with other processes, or with other documents for them. -/
def with_procinfos (procinfos : List Procinfo) : Bookkeeper :=
  { self with procinfos := procinfos }

/-! ## Where router processes stand -/

/-- The check of one process: a DFO is alone among the EventBuilders of its subsystem, and
there is no RoutingManager in the subsystem it sends to. -/
def check_router (p : Procinfo) : Except String Unit :=
  if get_router_process_identifier p = some .DFO then
    let rogue_eventbuilders := self.procinfos.filter fun pi =>
      pi.name == .EventBuilder && pi.subsystem == p.subsystem && pi.label != p.label
    let routingmanagers := self.procinfos.filter fun pi => pi.name == .RoutingManager
    if rogue_eventbuilders ≠ [] then
      .error ("The following EventBuilder(s) were found in subsystem " ++ p.subsystem ++
        ", location of DFO process " ++ p.label ++
        "; a DFO can't share a subsystems with other EventBuilders: " ++
        " ".intercalate (rogue_eventbuilders.map Procinfo.label))
    else if routingmanagers = [] then .ok ()
    else do
      let ss ← getitem self.subsystems p.subsystem
      let rogue_routingmanagers := routingmanagers.filter fun pi =>
        ss.destination = some pi.subsystem
      let destination := ss.destination.getD "None"
      if rogue_routingmanagers ≠ [] then
        throw ("A RoutingManager was found in subsystem " ++ destination ++
          "; this is illegal since a parent of subsystem " ++ destination ++ ", subsystem " ++
          p.subsystem ++ ", contains a DFO (" ++ p.label ++ "). The problem RoutingManager(s): " ++
          " ".intercalate (rogue_routingmanagers.map Procinfo.label))
      else pure ()
  else .ok ()

/-- The checks on router processes. -/
def check_routers : Except String Unit := self.procinfos.forM self.check_router

/-! ## Ports -/

/-- The subsystem that a router process serves and the type of processes it sends data to. -/
structure RouterKey where
  subsystem : String
  target : String
  deriving DecidableEq

/-- What is known about the router processes. -/
structure Routes where
  routing_base_ports : List (RouterKey × ℤ)
  router_process_hostnames : List (RouterKey × String)
  /-- The number of ports that have been given out. -/
  router_id : ℕ
  deriving DecidableEq

/-- `d[(subsystem, target)]`, where the subsystem may be missing. -/
def route {α : Type} (d : List (RouterKey × α)) (ss : Option String) (target : String) :
    Except String α :=
  match ss.bind fun ss => d.lookup ⟨ss, target⟩ with
  | some value => .ok value
  | none => .error ("KeyError: (" ++ (ss.map fun ss => "'" ++ ss ++ "'").getD "None" ++ ", '" ++
      target ++ "')")

/-- A RoutingManager is in the subsystem it serves, a DFO in a source of it. -/
def serves (entry : String × Subsystem) (p : Procinfo) : Bool :=
  match get_router_process_identifier p with
  | some .RoutingManager => p.subsystem == entry.1
  | some .DFO => decide (p.subsystem ∈ entry.2.sources)
  | none => false

/-- `router_process_for_subsystem_as_list`. -/
def routers_for (procinfos : List Procinfo) (entry : String × Subsystem) : List Procinfo :=
  procinfos.filter (serves entry)

/-- Give a router process its port. -/
def add_route (ss : String) (routes : Routes) (p : Procinfo) : Routes where
  routing_base_ports := Dict.assign ⟨ss, p.target⟩
    (self.ARTDAQ_BASE_PORT + 10 + self.ARTDAQ_PORTS_PER_PARTITION * self.partition_number +
      routes.router_id) routes.routing_base_ports
  router_process_hostnames := Dict.assign ⟨ss, p.target⟩
    (if p.host = "localhost" then self.HOSTNAME else p.host) routes.router_process_hostnames
  router_id := routes.router_id + 1

/-- Give ports to the router processes of a subsystem. -/
def add_routes (procinfos : List Procinfo) (routes : Routes) (entry : String × Subsystem) :
    Except String Routes :=
  let routers := routers_for procinfos entry
  if ¬ (routers.map Procinfo.target).Nodup then
    .error ("DAQInterface has found more than one router process (RoutingManager, DFO, etc.) " ++
      "associated with subsystem " ++ entry.1 ++ " requested in the boot file " ++
      self.boot_filename ++ " with the same target; this isn't currently supported")
  else .ok (routers.foldl (self.add_route entry.1) routes)

/-! ## The address for requests -/

/-- `nonsending_boardreaders`, once for each router process with the target EventBuilder. -/
def nonsending_boardreaders : List String :=
  self.procinfos.flatMap fun p =>
    if (get_router_process_identifier p).isSome ∧ p.target = "EventBuilder" then
      (self.procinfos.filter fun p => p.name == .BoardReader && sends_nothing p).map Procinfo.label
    else []

/-- `private_networks_seen`. -/
def private_networks_seen : Except String (List (String × List String)) :=
  if self.disable_private_network_bookkeeping then .ok []
  else self.procinfos.foldlM (fun seen p => (self.get_private_networks p.host).map fun networks =>
    Dict.assign p.label networks seen) []

/-- `zero_out_last_subnet`. -/
def zero_out_last_subnet (network : String) : Except String String :=
  match re_address.at_start network.toList with
  | some (groups, _) => .ok (String.ofList (groups.headD []) ++ "0")
  | none => .error "Developer error: proper address not passed to \"zero_out_last_subnet\""

/-- The networks that a process sees. -/
def networks_of (seen : List (String × List String)) (label : String) :
    Except String (Finset String) := do
  let networks ← getitem seen label
  let subnets ← networks.mapM zero_out_last_subnet
  pure subnets.toFinset

/-- The processes of a subsystem that are involved in requests: BoardReaders that send data,
unless they are known to send nothing, and the EventBuilders. -/
def processes_involved_in_requests (nonsending : List String) (procinfos : List Procinfo)
    (ss : String) : List String :=
  let subsystem_procinfos := procinfos.filter fun p => p.subsystem == ss
  let boardreaders := subsystem_procinfos.filter fun p =>
    p.name == .BoardReader && decide (p.label ∉ nonsending) &&
      request_modes.any fun re => found re p.document
  let eventbuilders := subsystem_procinfos.filter fun p =>
    p.name == .EventBuilder && found re_send_requests p.document
  (boardreaders ++ eventbuilders).map Procinfo.label

/-- The networks that all of some processes see. -/
def common_networks (seen : List (String × List String)) (first : String) (labels : List String) :
    Except String (Finset String) := do
  let networks ← networks_of seen first
  labels.foldlM (fun common label => (networks_of seen label).map fun more => common ∩ more) networks

/-- Change the document of the process with a label, the last one if there are several. -/
def change_document (label : String) (change : List Char → List Char)
    (procinfos : List Procinfo) : List Procinfo :=
  match procinfos.reverse.findIdx? fun p => p.label == label with
  | none => procinfos
  | some i => procinfos.modify (procinfos.length - 1 - i) fun p =>
      p.with_document (String.ofList (change p.document.toList))

/-- Write the address for the requests of a subsystem into the documents of the processes that
are involved in them; without a common network they are left as they are. -/
def bookkeep_multicast (nonsending : List String) (seen : List (String × List String))
    (procinfos : List Procinfo) (ss : String) : Except String (List Procinfo) :=
  if self.disable_private_network_bookkeeping then .ok procinfos
  else
    match processes_involved_in_requests nonsending procinfos ss with
    | [] => .ok procinfos
    | first :: labels => (common_networks seen first labels).map fun common =>
      if common.Nonempty then
        (first :: labels).foldl (fun procinfos label => change_document label (substitute re_multicast_ip
          ("multicast_interface_ip: \"" ++ self.first_network common ++ "\"")) procinfos) procinfos
      else procinfos

/-! ## The loop over the subsystems -/

/-- The ports of one subsystem and the address for its requests. -/
def route_subsystem (nonsending : List String) (seen : List (String × List String))
    (s : Routes × List Procinfo) (entry : String × Subsystem) :
    Except String (Routes × List Procinfo) := do
  let procinfos := s.2.map Procinfo.with_target
  let routes ← self.add_routes procinfos s.1 entry
  let procinfos ← self.bookkeep_multicast nonsending seen procinfos entry.1
  pure (routes, procinfos)

/-- The ports of all subsystems and the addresses for their requests. -/
def route_subsystems (nonsending : List String) (seen : List (String × List String)) :
    Except String (Routes × List Procinfo) :=
  self.subsystems.foldlM (self.route_subsystem nonsending seen) (⟨[], [], 0⟩, self.procinfos)

/-! ## Tables -/

/-- The subsystem whose router process a table names. -/
inductive RoutedSubsystem
  | own
  | destination
  deriving DecidableEq

/-- A table in a document that names a router process. -/
structure RouterTable where
  routed : RoutedSubsystem
  tablename : String
  target : String
  deriving DecidableEq

/-- `subsystems_without_dataloggers`. -/
def subsystems_without_dataloggers : List String := []

/-- `_parents_of_subsystems_with_routing_managers`. -/
def parents_of_subsystems_with_routing_managers : Except String (List String) :=
  (self.procinfos.filter fun p => p.name == .RoutingManager).foldlM
    (fun parents p => (self.source_list p.subsystem).map fun sources => parents ++ sources) []

/-- `(subsystem, target) in router_process_hostnames`. -/
def Routes.has (routes : Routes) (ss target : String) : Bool :=
  (routes.router_process_hostnames.lookup ⟨ss, target⟩).isSome

/-- A table, where a condition holds. -/
def table_if (condition : Bool) (routed : RoutedSubsystem) (tablename target : String) :
    List RouterTable :=
  if condition then [⟨routed, tablename, target⟩] else []

/-- The tables that are bookkept in the document of a process. -/
def router_tables (routes : Routes) (parents : List String) (p : Procinfo) : List RouterTable :=
  match get_router_process_identifier p with
  | some .RoutingManager => [⟨.own, "daq", p.target⟩]
  | some .DFO => [⟨.destination, "art", p.target⟩]
  | none =>
    match p.name with
    | .BoardReader =>
      table_if (routes.has p.subsystem "EventBuilder" && !sends_nothing p)
        .own "routing_table_config" "EventBuilder"
    | .EventBuilder =>
      table_if (routes.has p.subsystem "EventBuilder") .own "routing_token_config" "EventBuilder" ++
      table_if (routes.has p.subsystem "DataLogger") .own "routing_table_config" "DataLogger" ++
      table_if (routes.has p.subsystem "Dispatcher" &&
        decide (p.subsystem ∈ subsystems_without_dataloggers))
        .own "routing_table_config" "Dispatcher" ++
      table_if (decide (p.subsystem ∈ parents)) .destination "routing_table_config" "EventBuilder"
    | .DataLogger =>
      table_if (routes.has p.subsystem "DataLogger") .own "routing_token_config" "DataLogger" ++
      table_if (routes.has p.subsystem "Dispatcher") .own "routing_table_config" "Dispatcher"
    | .Dispatcher =>
      table_if (routes.has p.subsystem "Dispatcher") .own "routing_token_config" "Dispatcher"
    | .RoutingManager => []

/-- A text before, in and behind a range; without a range the indices are -1. -/
def slices (text : List Char) : Option (ℕ × ℕ) → List Char × List Char × List Char
  | some (table_start, table_end) =>
    (text.take table_start, (text.take table_end).drop table_start, text.drop table_end)
  | none => (text.dropLast, [], text.drop (text.length - 1))

/-- The parameters that a table gives for a router process. -/
structure RouterAddress where
  table_update_port : ℤ
  routing_token_port : ℤ
  routing_manager_hostname : String
  deriving DecidableEq

/-- The subsystem whose router process a table of a process names. -/
def routed_subsystem (p : Procinfo) : RoutedSubsystem → Except String (Option String)
  | .own => .ok (some p.subsystem)
  | .destination => (getitem self.subsystems p.subsystem).map Subsystem.destination

/-- The address of the router process that a table of a process names. -/
def router_address (routes : Routes) (p : Procinfo) (table : RouterTable) :
    Except String RouterAddress := do
  let ss ← self.routed_subsystem p table.routed
  let base_port ← route routes.routing_base_ports ss table.target
  let hostname ← route routes.router_process_hostnames ss table.target
  pure ⟨base_port + routes.router_id, base_port, hostname⟩

/-- Put an address into a table; the hostname only if it is to be told. -/
def RouterAddress.write (address : RouterAddress) (tell_hostname : Bool) (table : List Char) :
    List Char :=
  let table := substitute re_table_update_port
    ("table_update_port: " ++ toString address.table_update_port) table
  let table := substitute re_routing_token_port
    ("routing_token_port: " ++ toString address.routing_token_port) table
  if tell_hostname then
    substitute re_routing_mgr_host
      ("routing_manager_hostname: \"" ++ strip_quotes address.routing_manager_hostname ++ "\"") table
  else table

/-- `bookkeep_table_for_router_process`. -/
def bookkeep_table_for_router_process (routes : Routes) (p : Procinfo) (table : RouterTable) :
    Except String Procinfo := do
  let document := p.document.toList
  let range ← table_range document table.tablename.toList 0
  let again ←
    (match range with
    | some (_, table_end) => table_range (document.drop table_end) table.tablename.toList 0
    | none => .ok none)
  if again ≠ none then
    throw ("The table \"" ++ table.tablename ++ "\" appears more than once in the FHiCL config for " ++
      "process \"" ++ p.label ++ "\"; this is not allowed")
  else do
    let address ← self.router_address routes p table
    let (before, inside, behind) := slices document range
    let tell_hostname := p.name ≠ .RoutingManager ∨ !self.disable_private_network_bookkeeping
    pure (p.with_document (String.ofList (before ++ "\n".toList ++ address.write tell_hostname inside ++
      "\n".toList ++ behind)))

/-- The tables of one process. -/
def bookkeep_router_tables (routes : Routes) (parents : List String) (p : Procinfo) :
    Except String Procinfo :=
  (router_tables routes parents p).foldlM (self.bookkeep_table_for_router_process routes) p

/-- The ports of the router processes, the addresses for requests and the tables that name router
processes. -/
def bookkeep_routers (nonsending : List String) (seen : List (String × List String)) :
    Except String (List Procinfo) := do
  let (routes, procinfos) ← self.route_subsystems nonsending seen
  let parents ← self.parents_of_subsystems_with_routing_managers
  procinfos.mapM (self.bookkeep_router_tables routes parents)

end Bookkeeper

end DaqInterface
