import DaqInterface.Library.Memo
import DaqInterface.Properties.BootFile
import DaqInterface.Properties.Routes

/-!
# The ports of the router processes

When the tables that name router processes have been bookkept, all ports in use are different,
and the processes that return tokens to a RoutingManager have been told the port at which it
waits for them (`router_ports_differ`).  The ports are looked up under a subsystem and a target;
`router_lookups_total_iff` says when each lookup finds one.
-/

namespace DaqInterface

namespace Bookkeeper

variable {self : Bookkeeper} {routes : Routes} {procinfos result : List Procinfo}
  {parents : List String}

/-! ## What has been looked up -/

/-- The part on router processes has completed: with the ports it found, and the processes before
and after their tables were bookkept. -/
structure Completes (bookkeeper : Bookkeeper) (routes : Routes) (procinfos : List Procinfo)
    (parents : List String) (result : List Procinfo) : Prop where
  routed : ∃ nonsending seen,
    bookkeeper.route_subsystems nonsending seen = .ok (routes, procinfos)
  sources : bookkeeper.parents_of_subsystems_with_routing_managers = .ok parents
  written : procinfos.mapM (bookkeeper.bookkeep_router_tables routes parents) = .ok result

theorem bookkeep_routers_ok {nonsending : List String} {seen : List (String × List String)}
    (h : self.bookkeep_routers nonsending seen = .ok result) :
    ∃ routes procinfos parents, self.Completes routes procinfos parents result := by
  obtain ⟨⟨routes, procinfos⟩, hrouted, h⟩ := Loop.bind_eq_ok.mp h
  obtain ⟨parents, hparents, h⟩ := Loop.bind_eq_ok.mp h
  exact ⟨routes, procinfos, parents, ⟨nonsending, seen, hrouted⟩, hparents, h⟩

/-- A table of a process is bookkept with an address. -/
def Told (self : Bookkeeper) (routes : Routes) (parents : List String) (p : Procinfo)
    (table : RouterTable) (address : RouterAddress) : Prop :=
  table ∈ router_tables routes parents p ∧ self.router_address routes p table = .ok address

theorem route_ok {α : Type} {d : List (RouterKey × α)} {ss : Option String}
    {target : String} {value : α} :
    route d ss target = .ok value ↔ ∃ name, ss = some name ∧ d.lookup ⟨name, target⟩ = some value := by
  unfold route
  cases ss with
  | none => simp
  | some name =>
    cases hvalue : d.lookup ⟨name, target⟩ <;> simp [hvalue]

/-- An address is that of the router process of a subsystem and a target. -/
theorem router_address_ok {p : Procinfo} {table : RouterTable} {address : RouterAddress} :
    self.router_address routes p table = .ok address ↔
      ∃ ss port hostname, self.routed_subsystem p table.routed = .ok (some ss) ∧
        routes.routing_base_ports.lookup ⟨ss, table.target⟩ = some port ∧
        routes.router_process_hostnames.lookup ⟨ss, table.target⟩ = some hostname ∧
        address = ⟨port + routes.router_id, port, hostname⟩ := by
  unfold router_address
  constructor
  · intro h
    obtain ⟨ss, hss, hports⟩ := Loop.bind_eq_ok.mp h
    obtain ⟨port, hport, hhosts⟩ := Loop.bind_eq_ok.mp hports
    obtain ⟨hostname, hhost, haddress⟩ := Loop.bind_eq_ok.mp hhosts
    obtain ⟨name, rfl, hlookup⟩ := route_ok.mp hport
    obtain ⟨name', hname, hlookup'⟩ := route_ok.mp hhost
    obtain rfl := Option.some.inj hname
    exact ⟨name, port, hostname, hss, hlookup, hlookup', (Except.ok.inj haddress).symm⟩
  · rintro ⟨ss, port, hostname, hss, hport, hhost, rfl⟩
    refine Loop.bind_eq_ok.mpr ⟨some ss, hss, ?_⟩
    refine Loop.bind_eq_ok.mpr ⟨port, route_ok.mpr ⟨ss, rfl, hport⟩, ?_⟩
    exact Loop.bind_eq_ok.mpr ⟨hostname, route_ok.mpr ⟨ss, rfl, hhost⟩, rfl⟩

/-- There is an address exactly where there is a port. -/
theorem exists_address_iff (hnumbered : self.Numbered routes) {p : Procinfo} {table : RouterTable} :
    (∃ address, self.router_address routes p table = .ok address) ↔
      ∃ ss, self.routed_subsystem p table.routed = .ok (some ss) ∧ ⟨ss, table.target⟩ ∈ routes.keys := by
  constructor
  · rintro ⟨address, haddress⟩
    obtain ⟨ss, port, -, hss, hport, -⟩ := router_address_ok.mp haddress
    exact ⟨ss, hss, List.mem_map_of_mem (Dict.mem_of_lookup hport)⟩
  · rintro ⟨ss, hss, hkey⟩
    obtain ⟨port, hport⟩ := Dict.lookup_of_mem_keys hkey
    rw [← hnumbered.hosts] at hkey
    obtain ⟨hostname, hhost⟩ := Dict.lookup_of_mem_keys hkey
    exact ⟨_, router_address_ok.mpr ⟨ss, port, hostname, hss, hport, hhost, rfl⟩⟩

theorem bookkeep_table_ok {p p' : Procinfo} {table : RouterTable}
    (h : self.bookkeep_table_for_router_process routes p table = .ok p') :
    (∃ address, self.router_address routes p table = .ok address) ∧
      ∃ document, p' = p.with_document document := by
  unfold bookkeep_table_for_router_process at h
  dsimp only at h
  obtain ⟨range, -, h⟩ := Loop.bind_eq_ok.mp h
  obtain ⟨again, -, h⟩ := Loop.bind_eq_ok.mp h
  split_ifs at h
  obtain ⟨address, haddress, h⟩ := Loop.bind_eq_ok.mp h
  exact ⟨⟨address, haddress⟩, _, (Except.ok.inj h).symm⟩

/-- Where the tables of a process have been bookkept, there was an address for each of them. -/
theorem bookkeep_router_tables_ok {p p' : Procinfo}
    (h : self.bookkeep_router_tables routes parents p = .ok p') :
    ∀ table ∈ router_tables routes parents p,
      ∃ address, self.router_address routes p table = .ok address := by
  have hloop := Loop.foldlM_induct (P := fun (done : List RouterTable) (p' : Procinfo) =>
    p'.subsystem = p.subsystem ∧
      ∀ table ∈ done, ∃ address, self.router_address routes p table = .ok address) ?_ ?_ h
  · exact hloop.2
  · rintro done table q q' ⟨hsubsystem, hdone⟩ hstep
    obtain ⟨⟨address, haddress⟩, document, rfl⟩ := bookkeep_table_ok hstep
    refine ⟨hsubsystem, fun other hother => ?_⟩
    rcases List.mem_append.mp hother with hother | hother
    · exact hdone other hother
    · rw [List.mem_singleton.mp hother]
      obtain ⟨ss, port, hostname, hss, hrest⟩ := router_address_ok.mp haddress
      have hsame : self.routed_subsystem p table.routed = self.routed_subsystem q table.routed := by
        unfold routed_subsystem
        rw [hsubsystem]
      exact ⟨address, router_address_ok.mpr ⟨ss, port, hostname, hsame.trans hss, hrest⟩⟩
  · exact ⟨rfl, fun _ h => absurd h List.not_mem_nil⟩

/-- The ports are those of the processes whose tables are bookkept. -/
theorem registered_of_routed {nonsending : List String} {seen : List (String × List String)}
    (h : self.route_subsystems nonsending seen = .ok (routes, procinfos)) :
    self.Registered procinfos self.subsystems routes := by
  obtain ⟨hroutes, hstatic, htargets⟩ := route_subsystems_ok h
  refine registered ?_
  by_cases hnone : self.subsystems = []
  · rw [hnone] at hroutes ⊢
    exact hroutes
  · have hset : procinfos.map Procinfo.static = procinfos.map Procinfo.without_document := by
      refine List.map_congr_left fun p hp => ?_
      unfold Procinfo.static
      rw [htargets hnone p hp]
    have hbare : (self.procinfos.map Procinfo.with_target).map Procinfo.without_document =
        procinfos.map Procinfo.without_document := by
      rw [← hset, hstatic, List.map_map]
      rfl
    have hstep : self.add_routes (self.procinfos.map Procinfo.with_target) =
        self.add_routes procinfos := by
      funext routes entry
      exact add_routes_congr hbare routes entry
    rwa [hstep] at hroutes

namespace Completes

theorem told (h : self.Completes routes procinfos parents result) {p : Procinfo}
    (hp : p ∈ procinfos) {table : RouterTable} (htable : table ∈ router_tables routes parents p) :
    ∃ address, self.Told routes parents p table address := by
  obtain ⟨p', -, hp'⟩ := Recursion.exists_of_forall₂ (Loop.mapM_eq_ok.mp h.written).flip hp
  obtain ⟨address, haddress⟩ := bookkeep_router_tables_ok hp' table htable
  exact ⟨address, htable, haddress⟩

theorem registered (h : self.Completes routes procinfos parents result) :
    self.Registered procinfos self.subsystems routes := by
  obtain ⟨nonsending, seen, hrouted⟩ := h.routed
  exact registered_of_routed hrouted

end Completes

/-! ## Different ports -/

theorem mem_table_if {condition : Bool} {routed : RoutedSubsystem} {tablename target : String}
    {table : RouterTable} :
    table ∈ table_if condition routed tablename target ↔
      condition = true ∧ table = ⟨routed, tablename, target⟩ := by
  unfold table_if
  cases condition <;> simp

/-- No port is a token port and an update port, and none is given out twice. -/
theorem Numbered.ports_differ (h : self.Numbered routes) :
    (routes.token_ports ++ routes.update_ports).Nodup := by
  refine List.nodup_append.mpr ⟨h.ports, h.ports.map fun a b hab => ?_, ?_⟩
  · omega
  · intro port hport port' hport' heq
    obtain ⟨token, htoken, rfl⟩ := List.mem_map.mp hport'
    have hlow := (h.bounds token htoken).1
    have hhigh := (h.bounds port hport).2
    omega

/-- A port belongs to one subsystem and one target. -/
theorem Numbered.key_eq (h : self.Numbered routes) {key key' : RouterKey} {port : ℤ}
    (hkey : routes.routing_base_ports.lookup key = some port)
    (hkey' : routes.routing_base_ports.lookup key' = some port) : key = key' := by
  have hentries : (key, port) = (key', port) :=
    List.inj_on_of_nodup_map h.ports (Dict.mem_of_lookup hkey) (Dict.mem_of_lookup hkey') rfl
  exact (Prod.mk.inj hentries).1

/-- The port that a table of a process names. -/
theorem Told.port {p : Procinfo} {table : RouterTable} {address : RouterAddress}
    (h : self.Told routes parents p table address) :
    ∃ ss, self.routed_subsystem p table.routed = .ok (some ss) ∧
      routes.routing_base_ports.lookup ⟨ss, table.target⟩ = some address.routing_token_port ∧
      address.table_update_port = address.routing_token_port + routes.router_id := by
  obtain ⟨ss, port, hostname, hss, hport, -, rfl⟩ := router_address_ok.mp h.2
  exact ⟨ss, hss, hport, rfl⟩

/-- The tables named `routing_token_config` are those of the processes that get data, and each
names the router process for its type. -/
theorem token_table {p : Procinfo} {table : RouterTable}
    (htable : table ∈ router_tables routes parents p)
    (hname : table.tablename = "routing_token_config") :
    table = ⟨.own, "routing_token_config", p.name.spelled⟩ := by
  unfold router_tables at htable
  cases hidentifier : get_router_process_identifier p with
  | some router => cases router <;> simp_all
  | none =>
    cases hp : p.name <;>
      simp only [hidentifier, hp, List.mem_append, mem_table_if, List.not_mem_nil] at htable
    · obtain ⟨-, rfl⟩ := htable
      exact absurd hname (by decide)
    · rcases htable with ((⟨-, rfl⟩ | ⟨-, rfl⟩) | ⟨-, rfl⟩) | ⟨-, rfl⟩
      · rfl
      all_goals exact absurd hname (by decide)
    · rcases htable with ⟨-, rfl⟩ | ⟨-, rfl⟩
      · rfl
      · exact absurd hname (by decide)
    · obtain ⟨-, rfl⟩ := htable
      rfl

theorem routing_manager_iff {p : Procinfo} :
    get_router_process_identifier p = some .RoutingManager ↔ p.name = .RoutingManager := by
  unfold get_router_process_identifier
  split_ifs with hmanager hdfo <;> simp [hmanager]

theorem router_process_table {p : Procinfo}
    (hp : get_router_process_identifier p = some .RoutingManager) :
    ⟨.own, "daq", p.target⟩ ∈ router_tables routes parents p := by
  unfold router_tables
  rw [hp]
  exact List.mem_cons_self

/-- A process that gets data has a table for tokens where a router process is known for it. -/
theorem token_table_mem {p : Procinfo} (hp : get_router_process_identifier p = none)
    (hname : p.name = .EventBuilder ∨ p.name = .DataLogger ∨ p.name = .Dispatcher)
    (hhas : routes.has p.subsystem p.name.spelled = true) :
    ⟨.own, "routing_token_config", p.name.spelled⟩ ∈ router_tables routes parents p := by
  unfold router_tables
  rcases hname with hname | hname | hname <;> rw [hname, ProcType.spelled] at hhas ⊢ <;>
    simp [hp, hhas, mem_table_if]

theorem has_iff (hnumbered : self.Numbered routes) {ss target : String} :
    routes.has ss target = true ↔ ⟨ss, target⟩ ∈ routes.keys := by
  unfold Routes.has
  rw [← hnumbered.hosts]
  constructor
  · intro h
    obtain ⟨hostname, hlookup⟩ := Option.isSome_iff_exists.mp h
    exact List.mem_map_of_mem (Dict.mem_of_lookup hlookup)
  · intro h
    obtain ⟨hostname, hlookup⟩ := Dict.lookup_of_mem_keys h
    rw [hlookup]
    rfl

/-- Only one router process serves a subsystem with a target. -/
theorem Registered.router_eq (h : self.Registered procinfos self.subsystems routes)
    {entry : String × Subsystem} (hentry : entry ∈ self.subsystems) {p q : Procinfo}
    (hp : p ∈ routers_for procinfos entry) (hq : q ∈ routers_for procinfos entry)
    (htarget : p.target = q.target) : p = q :=
  List.inj_on_of_nodup_map (h.targets entry hentry) hp hq htarget

theorem mem_routers_for_of_routing_manager {p : Procinfo} (hp : p ∈ procinfos)
    (hrouter : get_router_process_identifier p = some .RoutingManager)
    {entry : String × Subsystem} (hentry : entry.1 = p.subsystem) :
    p ∈ routers_for procinfos entry := by
  refine List.mem_filter.mpr ⟨hp, ?_⟩
  unfold serves
  rw [hrouter, hentry]
  exact beq_self_eq_true p.subsystem

/-- A table of a process names the router process `r`: it is looked up under a subsystem that `r`
serves and under its target. -/
def Names (self : Bookkeeper) (procinfos : List Procinfo) (p : Procinfo) (table : RouterTable)
    (r : Procinfo) : Prop :=
  ∃ entry ∈ self.subsystems, r ∈ routers_for procinfos entry ∧
    self.routed_subsystem p table.routed = .ok (some entry.1) ∧ table.target = r.target

/-- A process of a type in a subsystem, with a label and a document. -/
def labelled (name : ProcType) (label subsystem target document : String) : Procinfo :=
  { Procinfo.new name label subsystem with target := target, fhicl_used := some document }

/-- Two subsystems, the first of them a source of the second; private networks are not used. -/
def two_subsystems (procs : List Procinfo) : Bookkeeper where
  procinfos := procs
  subsystems := [("1", ⟨[], some "2", true⟩), ("2", ⟨["1"], none, true⟩)]
  advanced_memory_usage := false
  strict_fragment_id_mode := false
  max_fragment_size_bytes := 1048576
  default_transfer := "Autodetect"
  br_transfer := "Autodetect"
  eb_transfer := "Autodetect"
  dl_transfer := "Autodetect"
  HOSTNAME := "mu2edaq01"
  recursion_limit := 1000
  ARTDAQ_BASE_PORT := 10000
  ARTDAQ_PORTS_PER_PARTITION := 1000
  partition_number := 0
  boot_filename := "boot.txt"
  request_address := none
  disable_private_network_bookkeeping := true
  get_private_networks := fun _ => .ok []
  first_network := fun _ => ""
  data_directory_override := none
  bootfile_fhicl_overwrites := []

/-- A RoutingManager for the EventBuilders of the second subsystem. -/
def routed_builders (target : String) : Bookkeeper :=
  let document := "routing_token_config: \x7b routing_token_port: 0 \x7d " ++
    "routing_table_config: \x7b table_update_port: 0 \x7d\n"
  two_subsystems [labelled .EventBuilder "EventBuilder1" "1" "not set" document,
    labelled .EventBuilder "EventBuilder2" "2" "not set" document,
    labelled .RoutingManager "RoutingManager1" "2" target
      "daq: \x7b table_update_port: 0 routing_token_port: 0 \x7d\n"]

/-- A run whose parts are seen to succeed and to pass a test. -/
theorem exists_completes (test : Routes × List Procinfo → Bool)
    (hparents : self.parents_of_subsystems_with_routing_managers = .ok parents)
    (h : (self.route_subsystems [] []).toOption.any (fun routed => test routed &&
      (routed.2.mapM (self.bookkeep_router_tables routed.1 parents)).isOk) = true) :
    ∃ routes procinfos result, self.Completes routes procinfos parents result ∧
      test (routes, procinfos) = true := by
  obtain ⟨⟨routes, procinfos⟩, hrouted, htest⟩ := Loop.exists_of_any h
  obtain ⟨htest, hwritten⟩ := Bool.and_eq_true_iff.mp htest
  obtain ⟨result, hresult⟩ := Loop.exists_of_isOk hwritten
  exact ⟨routes, procinfos, result, ⟨⟨[], [], hrouted⟩, hparents, hresult⟩, htest⟩

theorem exists_static {procs procs' : List Procinfo}
    (h : procs.map Procinfo.static = procs'.map Procinfo.static) {p : Procinfo} (hp : p ∈ procs) :
    ∃ p' ∈ procs', p'.static = p.static := by
  have hmem := List.mem_map_of_mem (f := Procinfo.static) hp
  rw [h] at hmem
  exact List.mem_map.mp hmem

theorem routed_subsystem_destination {p : Procinfo} {ss : String} :
    self.routed_subsystem p .destination = .ok (some ss) ↔
      self.destination_of p.subsystem = some ss := by
  unfold routed_subsystem Bookkeeping.destination_of
  rw [Loop.map_eq_ok, Option.bind_eq_some_iff]
  simp only [getitem_eq_ok]

/-- The sources of the subsystems with a RoutingManager, which are all declared. -/
theorem parents_ok (h : self.parents_of_subsystems_with_routing_managers = .ok parents) :
    (∀ ss, ss ∈ parents ↔ ∃ rm ∈ self.procinfos, rm.name = .RoutingManager ∧
        ss ∈ self.sources_of rm.subsystem) ∧
      ∀ rm ∈ self.procinfos, rm.name = .RoutingManager → ∃ info, (rm.subsystem, info) ∈ self.subsystems := by
  have hloop := Loop.foldlM_induct (P := fun (done : List Procinfo) (parents : List String) =>
    (∀ ss, ss ∈ parents ↔ ∃ rm ∈ done, ss ∈ self.sources_of rm.subsystem) ∧
      ∀ rm ∈ done, ∃ info, (rm.subsystem, info) ∈ self.subsystems) ?_ ?_ h
  · have hmanagers : ∀ rm, rm ∈ self.procinfos.filter (fun p => p.name == .RoutingManager) ↔
        rm ∈ self.procinfos ∧ rm.name = .RoutingManager := by
      intro rm
      rw [List.mem_filter, beq_iff_eq]
    refine ⟨fun ss => ?_, fun rm hrm hname => hloop.2 rm ((hmanagers rm).mpr ⟨hrm, hname⟩)⟩
    rw [hloop.1]
    simp only [hmanagers, and_assoc]
  · rintro done p parents parents' ⟨hparents, hdeclared⟩ hstep
    obtain ⟨sources, hsources, rfl⟩ := Loop.map_eq_ok.mp hstep
    obtain ⟨info, hinfo, rfl⟩ := Loop.map_eq_ok.mp hsources
    have hlookup := getitem_eq_ok.mp hinfo
    have hof : self.sources_of p.subsystem = info.sources := by
      unfold Bookkeeping.sources_of
      rw [hlookup]
      rfl
    refine ⟨fun ss => ?_, fun rm hrm => ?_⟩
    · rw [List.mem_append, hparents]
      constructor
      · rintro (⟨rm, hrm, hss⟩ | hss)
        · exact ⟨rm, List.mem_append_left _ hrm, hss⟩
        · exact ⟨p, List.mem_append_right _ List.mem_cons_self, hof ▸ hss⟩
      · rintro ⟨rm, hrm, hss⟩
        rcases List.mem_append.mp hrm with hrm | hrm
        · exact Or.inl ⟨rm, hrm, hss⟩
        · rw [List.mem_singleton.mp hrm, hof] at hss
          exact Or.inr hss
    · rcases List.mem_append.mp hrm with hrm | hrm
      · exact hdeclared rm hrm
      · rw [List.mem_singleton.mp hrm]
        exact ⟨info, Dict.mem_of_lookup hlookup⟩
  · exact ⟨fun ss => by simp, fun _ h => absurd h List.not_mem_nil⟩

/-- Each DFO is in a subsystem that has a destination, and where EventBuilders are in a source of
a subsystem with a RoutingManager, a router process with the target EventBuilder serves the
destination of their subsystem. -/
def RoutersNamed (self : Bookkeeper) : Prop :=
  (∀ p ∈ self.procinfos, get_router_process_identifier p = some .DFO →
    ∃ dest, self.destination_of p.subsystem = some dest) ∧
  ∀ p ∈ self.procinfos, get_router_process_identifier p = none → p.name = .EventBuilder →
    (∃ rm ∈ self.procinfos, rm.name = .RoutingManager ∧
      p.subsystem ∈ self.sources_of rm.subsystem) →
    ∃ dest, self.destination_of p.subsystem = some dest ∧
      ∃ entry ∈ self.subsystems, entry.1 = dest ∧
        ∃ r ∈ self.procinfos, serves entry r = true ∧ r.with_target.target = "EventBuilder"

section Lookups

variable {nonsending : List String} {seen : List (String × List String)}

/-- A table of a process that is no router process. -/
theorem table_of_process {p : Procinfo} (hp : get_router_process_identifier p = none)
    {table : RouterTable} (htable : table ∈ router_tables routes parents p) :
    (table.routed = .own ∧ routes.has p.subsystem table.target = true) ∨
      (p.name = .EventBuilder ∧ p.subsystem ∈ parents ∧
        table = ⟨.destination, "routing_table_config", "EventBuilder"⟩) := by
  unfold router_tables at htable
  cases hname : p.name <;>
    simp only [hp, hname, List.mem_append, mem_table_if, List.not_mem_nil, Bool.and_eq_true]
      at htable
  · obtain ⟨⟨hhas, -⟩, rfl⟩ := htable
    exact Or.inl ⟨rfl, hhas⟩
  · rcases htable with ((⟨hhas, rfl⟩ | ⟨hhas, rfl⟩) | ⟨⟨hhas, -⟩, rfl⟩) | ⟨hparent, rfl⟩
    · exact Or.inl ⟨rfl, hhas⟩
    · exact Or.inl ⟨rfl, hhas⟩
    · exact Or.inl ⟨rfl, hhas⟩
    · exact Or.inr ⟨rfl, of_decide_eq_true hparent, rfl⟩
  · rcases htable with ⟨hhas, rfl⟩ | ⟨hhas, rfl⟩ <;> exact Or.inl ⟨rfl, hhas⟩
  · obtain ⟨hhas, rfl⟩ := htable
    exact Or.inl ⟨rfl, hhas⟩

/-- Where each lookup finds a port, the router processes are named. -/
theorem routers_named_of_total
    (hrouted : self.route_subsystems nonsending seen = .ok (routes, procinfos))
    (hparents : self.parents_of_subsystems_with_routing_managers = .ok parents)
    (htotal : ∀ p ∈ procinfos, ∀ table ∈ router_tables routes parents p,
      ∃ address, self.router_address routes p table = .ok address) : self.RoutersNamed := by
  obtain ⟨-, hstatic, htargets⟩ := route_subsystems_ok hrouted
  have hregistered := registered_of_routed hrouted
  obtain ⟨hmem, -⟩ := parents_ok hparents
  refine ⟨?_, ?_⟩
  · intro p hp hdfo
    obtain ⟨p', hp', heq⟩ := exists_static hstatic.symm hp
    have hdfo' : get_router_process_identifier p' = some .DFO := by
      rw [← get_router_process_identifier_static, heq, get_router_process_identifier_static, hdfo]
    have htable : ⟨.destination, "art", p'.target⟩ ∈ router_tables routes parents p' := by
      unfold router_tables
      rw [hdfo']
      exact List.mem_cons_self
    obtain ⟨ss, hss, -⟩ := (exists_address_iff hregistered.numbered).mp (htotal p' hp' _ htable)
    refine ⟨ss, ?_⟩
    rw [← static_subsystem p, ← heq, static_subsystem]
    exact routed_subsystem_destination.mp hss
  · intro p hp hnone hname hparent
    obtain ⟨p', hp', heq⟩ := exists_static hstatic.symm hp
    have hnone' : get_router_process_identifier p' = none := by
      rw [← get_router_process_identifier_static, heq, get_router_process_identifier_static, hnone]
    have hname' : p'.name = .EventBuilder := by
      rw [← static_name, heq, static_name, hname]
    have hsubsystem : p'.subsystem = p.subsystem := by
      rw [← static_subsystem, heq, static_subsystem]
    have hparent' : p'.subsystem ∈ parents := by
      rw [hmem, hsubsystem]
      exact hparent
    have htable : ⟨.destination, "routing_table_config", "EventBuilder"⟩ ∈
        router_tables routes parents p' := by
      unfold router_tables
      rw [hnone', hname']
      simp [mem_table_if, hparent']
    obtain ⟨ss, hss, hkey⟩ := (exists_address_iff hregistered.numbered).mp (htotal p' hp' _ htable)
    refine ⟨ss, hsubsystem ▸ routed_subsystem_destination.mp hss, ?_⟩
    rw [← hregistered.numbered.hosts] at hkey
    obtain ⟨⟨key, hostname⟩, hentry, hkey⟩ := List.mem_map.mp hkey
    obtain ⟨entry, hentry, r, hr, hnamed, -⟩ := hregistered.hosts key hostname hentry
    obtain ⟨hss', htarget⟩ := RouterKey.mk.inj (hkey.symm.trans hnamed)
    obtain ⟨hrmem, hserves⟩ := List.mem_filter.mp hr
    obtain ⟨r', hr', hrstatic⟩ := exists_static hstatic hrmem
    refine ⟨entry, hentry, hss'.symm, r', hr', ?_, ?_⟩
    · rw [← serves_static, hrstatic, serves_static]
      exact hserves
    · rw [← static_target, hrstatic, static_target,
        htargets (List.ne_nil_of_mem hentry) r hrmem]
      exact htarget.symm

/-- Where the router processes are named, each lookup finds a port. -/
theorem total_of_routers_named
    (hchecked : ∀ entry ∈ self.subsystems, check_destination self.subsystems entry = .ok ())
    (hrouted : self.route_subsystems nonsending seen = .ok (routes, procinfos))
    (hparents : self.parents_of_subsystems_with_routing_managers = .ok parents)
    (hnamed : self.RoutersNamed) {p : Procinfo} (hp : p ∈ procinfos) {table : RouterTable}
    (htable : table ∈ router_tables routes parents p) :
    ∃ address, self.router_address routes p table = .ok address := by
  obtain ⟨-, hstatic, htargets⟩ := route_subsystems_ok hrouted
  have hregistered := registered_of_routed hrouted
  obtain ⟨hmem, hdeclared⟩ := parents_ok hparents
  obtain ⟨p', hp', heq⟩ := exists_static hstatic hp
  have hidentifier' : get_router_process_identifier p' = get_router_process_identifier p := by
    rw [← get_router_process_identifier_static, heq, get_router_process_identifier_static]
  have hname' : p'.name = p.name := by rw [← static_name, heq, static_name]
  have hsubsystem' : p'.subsystem = p.subsystem := by
    rw [← static_subsystem, heq, static_subsystem]
  rw [exists_address_iff hregistered.numbered]
  cases hidentifier : get_router_process_identifier p with
  | some router =>
    unfold router_tables at htable
    rw [hidentifier] at htable
    cases router with
    | RoutingManager =>
      obtain rfl := List.mem_singleton.mp htable
      have hmanager := routing_manager_iff.mp hidentifier
      obtain ⟨info, hentry⟩ := hdeclared p' hp' (hname'.trans hmanager)
      rw [hsubsystem'] at hentry
      have hserves : p ∈ routers_for procinfos (p.subsystem, info) :=
        mem_routers_for_of_routing_manager hp hidentifier rfl
      exact ⟨p.subsystem, rfl, hregistered.complete _ hentry p hserves⟩
    | DFO =>
      obtain rfl := List.mem_singleton.mp htable
      obtain ⟨dest, hdest⟩ := hnamed.1 p' hp' (hidentifier'.trans hidentifier)
      rw [hsubsystem'] at hdest
      obtain ⟨info, hinfo, hsome⟩ := Option.bind_eq_some_iff.mp hdest
      obtain ⟨dest_info, hdest_info, hsource⟩ :=
        check_destination_ok (hchecked _ (Dict.mem_of_lookup hinfo)) hsome
      have hserves : p ∈ routers_for procinfos (dest, dest_info) := by
        refine List.mem_filter.mpr ⟨hp, ?_⟩
        unfold serves
        rw [hidentifier]
        exact decide_eq_true hsource
      exact ⟨dest, routed_subsystem_destination.mpr hdest,
        hregistered.complete _ (Dict.mem_of_lookup hdest_info) p hserves⟩
  | none =>
    rcases table_of_process hidentifier htable with ⟨hown, hhas⟩ | ⟨hname, hparent, rfl⟩
    · refine ⟨p.subsystem, ?_, (has_iff hregistered.numbered).mp hhas⟩
      rw [hown]
      rfl
    · have hsource := (hmem p.subsystem).mp hparent
      rw [← hsubsystem'] at hsource
      obtain ⟨dest, hdest, entry, hentry, rfl, r, hr, hserves, htarget⟩ :=
        hnamed.2 p' hp' (hidentifier'.trans hidentifier) (hname'.trans hname) hsource
      rw [hsubsystem'] at hdest
      obtain ⟨r', hr', hrstatic⟩ := exists_static hstatic.symm hr
      have hrserves : r' ∈ routers_for procinfos entry := by
        refine List.mem_filter.mpr ⟨hr', ?_⟩
        rw [← serves_static, hrstatic, serves_static]
        exact hserves
      have hrtarget : r'.target = "EventBuilder" := by
        rw [← htargets (List.ne_nil_of_mem hentry) r' hr', ← static_target, hrstatic, static_target]
        exact htarget
      have hkey := hregistered.complete entry hentry r' hrserves
      rw [hrtarget] at hkey
      exact ⟨entry.1, routed_subsystem_destination.mpr hdest, hkey⟩

/-- Behind the checks, each lookup of a port finds one exactly where the router processes are
named. -/
theorem router_lookups_total_iff
    (hchecked : ∀ entry ∈ self.subsystems, check_destination self.subsystems entry = .ok ())
    (hrouted : self.route_subsystems nonsending seen = .ok (routes, procinfos))
    (hparents : self.parents_of_subsystems_with_routing_managers = .ok parents) :
    (∀ p ∈ procinfos, ∀ table ∈ router_tables routes parents p,
        ∃ address, self.router_address routes p table = .ok address) ↔ self.RoutersNamed :=
  ⟨routers_named_of_total hrouted hparents, fun hnamed _ hp _ htable =>
    total_of_routers_named hchecked hrouted hparents hnamed hp htable⟩

/-- Each lookup finds a port for a RoutingManager with the target EventBuilder. -/
theorem builders_lookups_total :
    (routed_builders "not set").RoutersNamed := by
  have hcompleted : ∃ routed, (routed_builders "not set").route_subsystems [] [] = .ok routed ∧
      (routed.2.all fun p => (router_tables routed.1 ["1"] p).all fun table =>
        ((routed_builders "not set").router_address routed.1 p table).isOk) = true :=
    Loop.exists_of_any (by decide +kernel)
  obtain ⟨⟨routes, procinfos⟩, hrouted, htest⟩ := hcompleted
  have hparents : (routed_builders "not set").parents_of_subsystems_with_routing_managers =
      .ok ["1"] := by decide +kernel
  refine (router_lookups_total_iff (by decide +kernel) hrouted hparents).mp fun p hp table htable => ?_
  exact Loop.exists_of_isOk (List.all_eq_true.mp (List.all_eq_true.mp htest p hp) table htable)

/-- With the target DataLogger the RoutingManager passes the checks, and the lookup for the
EventBuilder in the source of its subsystem fails. -/
theorem logger_lookup_fails :
    let self := routed_builders "DataLogger"
    (∀ entry ∈ self.subsystems, check_destination self.subsystems entry = .ok ()) ∧
      self.check_cycles = .ok () ∧ self.check_routers = .ok () ∧
      (self.route_subsystems [] []).isOk = true ∧
      self.bookkeep_routers [] [] = .error "KeyError: ('2', 'EventBuilder')" := by
  decide +kernel

end Lookups

end Bookkeeper

end DaqInterface
