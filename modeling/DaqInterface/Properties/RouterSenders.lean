import DaqInterface.Properties.Links
import DaqInterface.Properties.RouterPorts

/-!
# The senders of routed data

A process that sends data to processes for which a RoutingManager is responsible has to know
where the RoutingManager sends its table updates.  `senders_told_iff` says when all of them are
told: what a process has been told is the address that was written last into its
`routing_table_config` table.
-/

namespace DaqInterface

namespace Bookkeeper

variable {self : Bookkeeper} {routes : Routes} {procinfos result : List Procinfo}
  {parents : List String}

/-- The address that is written last into the tables of a name in the document of a process. -/
def told_last (self : Bookkeeper) (routes : Routes) (parents : List String) (tablename : String)
    (p : Procinfo) : Option RouterAddress :=
  ((router_tables routes parents p).filter fun table => table.tablename == tablename).getLast?.bind
    fun table => (self.router_address routes p table).toOption

/-- A process sends data to processes of the target of a RoutingManager in its subsystem: one of
them is among its destinations.  A BoardReader that sends nothing does not count, and the document
has a table for the address of the RoutingManager. -/
structure SendsFor (bookkeeper : Bookkeeper) (procinfos : List Procinfo) (r p : Procinfo) : Prop where
  mem : p ∈ procinfos
  sends : p.name = .BoardReader → sends_nothing p = false
  receiver : ∃ q inter, q ∈ (bookkeeper.with_procinfos procinfos).procinfos_for_string p
    .destinations inter ∧ q.subsystem = r.subsystem ∧ q.name.spelled = r.target
  table : ∃ range, table_range p.document.toList "routing_table_config".toList 0 = .ok (some range)

/-- The process has been told the address of the RoutingManager. -/
def KnowsRouter (self : Bookkeeper) (routes : Routes) (parents : List String) (r p : Procinfo) :
    Prop :=
  ∃ address address', self.Told routes parents r ⟨.own, "daq", r.target⟩ address ∧
    self.told_last routes parents "routing_table_config" p = some address' ∧
    address'.table_update_port = address.table_update_port ∧
    address'.routing_manager_hostname = address.routing_manager_hostname

/-- A subsystem is a source of a subsystem with a RoutingManager. -/
def FeedsRouted (self : Bookkeeper) (procinfos : List Procinfo) (ss : String) : Prop :=
  ∃ rm ∈ procinfos, rm.name = .RoutingManager ∧ ss ∈ self.sources_of rm.subsystem

/-- No sender is labelled as a DFO, and where EventBuilders send to DataLoggers or Dispatchers with
a RoutingManager, it is to DataLoggers, and their subsystem feeds no subsystem with a
RoutingManager. -/
def SendersPlain (self : Bookkeeper) (procinfos : List Procinfo) : Prop :=
  ∀ r ∈ procinfos, r.name = .RoutingManager → ∀ p, self.SendsFor procinfos r p →
    get_router_process_identifier p = none ∧
      (p.name = .EventBuilder → r.target ≠ "Dispatcher" ∧
        (r.target = "DataLogger" → ¬ self.FeedsRouted procinfos p.subsystem))

/-! ## Addresses -/

/-- Two tables under one key are told one address. -/
theorem Told.address_eq {p p' : Procinfo} {table table' : RouterTable}
    {address address' : RouterAddress} {ss : String}
    (h : self.Told routes parents p table address) (h' : self.Told routes parents p' table' address')
    (hss : self.routed_subsystem p table.routed = .ok (some ss))
    (hss' : self.routed_subsystem p' table'.routed = .ok (some ss))
    (htarget : table.target = table'.target) : address = address' := by
  obtain ⟨name, port, hostname, hname, hport, hhost, rfl⟩ := router_address_ok.mp h.2
  obtain ⟨name', port', hostname', hname', hport', hhost', rfl⟩ := router_address_ok.mp h'.2
  obtain rfl := Option.some.inj (Except.ok.inj (hss.symm.trans hname))
  obtain rfl := Option.some.inj (Except.ok.inj (hss'.symm.trans hname'))
  rw [htarget] at hport hhost
  obtain rfl := Option.some.inj (hport.symm.trans hport')
  obtain rfl := Option.some.inj (hhost.symm.trans hhost')
  rfl

/-- Tables that are told one port for updates have one target. -/
theorem Told.target_eq (hnumbered : self.Numbered routes) {p p' : Procinfo}
    {table table' : RouterTable} {address address' : RouterAddress}
    (h : self.Told routes parents p table address) (h' : self.Told routes parents p' table' address')
    (hupdate : address.table_update_port = address'.table_update_port) :
    table.target = table'.target := by
  obtain ⟨ss, -, hport, hupdate₁⟩ := h.port
  obtain ⟨ss', -, hport', hupdate₂⟩ := h'.port
  have htoken : address.routing_token_port = address'.routing_token_port := by omega
  rw [htoken] at hport
  exact (RouterKey.mk.inj (hnumbered.key_eq hport hport')).2

/-- What is told last is told in one of the tables. -/
theorem told_last_eq_some {tablename : String} {p : Procinfo} {address : RouterAddress}
    (h : self.told_last routes parents tablename p = some address) :
    ∃ table, ((router_tables routes parents p).filter fun table =>
        table.tablename == tablename).getLast? = some table ∧
      table.tablename = tablename ∧ self.Told routes parents p table address := by
  obtain ⟨table, hlast, haddress⟩ := Option.bind_eq_some_iff.mp h
  obtain ⟨hmem, hname⟩ := List.mem_filter.mp (List.mem_of_getLast? hlast)
  exact ⟨table, hlast, eq_of_beq hname, hmem, Loop.toOption_eq_some.mp haddress⟩

theorem told_last_of_getLast {tablename : String} {p : Procinfo} {table : RouterTable}
    {address : RouterAddress}
    (hlast : ((router_tables routes parents p).filter fun table =>
        table.tablename == tablename).getLast? = some table)
    (h : self.Told routes parents p table address) :
    self.told_last routes parents tablename p = some address :=
  Option.bind_eq_some_iff.mpr ⟨table, hlast, Loop.toOption_eq_some.mpr h.2⟩

/-! ## Who sends for a RoutingManager -/

/-- Where a sender is, and what it sends to. -/
inductive Way (bookkeeper : Bookkeeper) (r p : Procinfo) : Prop
  | reader (hname : p.name = .BoardReader) (hsends : sends_nothing p = false)
      (htarget : r.target = "EventBuilder") (hsubsystem : p.subsystem = r.subsystem)
  | outer (hname : p.name = .EventBuilder) (htarget : r.target = "EventBuilder")
      (hdest : bookkeeper.destination_of p.subsystem = some r.subsystem)
  | inner (hname : p.name = .EventBuilder) (htarget : r.target = "DataLogger")
      (hsubsystem : p.subsystem = r.subsystem)
  | direct (hname : p.name = .EventBuilder) (htarget : r.target = "Dispatcher")
      (hsubsystem : p.subsystem = r.subsystem)
  | logger (hname : p.name = .DataLogger) (htarget : r.target = "Dispatcher")
      (hsubsystem : p.subsystem = r.subsystem)

theorem SendsFor.way {r p : Procinfo} (h : self.SendsFor procinfos r p) : self.Way r p := by
  obtain ⟨q, inter, hq, hsubsystem, htarget⟩ := h.receiver
  have hlink := (Bookkeeping.linked_of_destination hq).2
  unfold Bookkeeping.Linked at hlink
  cases hp : p.name <;> cases hname : q.name <;>
    simp only [hp, hname, hsubsystem] at hlink <;> rw [hname] at htarget
  · exact .reader hp (h.sends hp) htarget.symm hlink
  · exact .outer hp htarget.symm hlink
  · exact .inner hp htarget.symm hlink
  · exact .direct hp htarget.symm hlink.1
  · exact .logger hp htarget.symm hlink

/-! ## What they are told -/

section Told

variable {r p : Procinfo} {address : RouterAddress}

theorem feeds_iff (h : self.Completes routes procinfos parents result) {ss : String} :
    ss ∈ parents ↔ self.FeedsRouted procinfos ss := by
  obtain ⟨nonsending, seen, hrouted⟩ := h.routed
  obtain ⟨-, hstatic, -⟩ := route_subsystems_ok hrouted
  rw [(parents_ok h.sources).1]
  have hmanagers : ∀ {procs procs' : List Procinfo},
      procs.map Procinfo.static = procs'.map Procinfo.static →
      (∃ rm ∈ procs, rm.name = .RoutingManager ∧ ss ∈ self.sources_of rm.subsystem) →
      ∃ rm ∈ procs', rm.name = .RoutingManager ∧ ss ∈ self.sources_of rm.subsystem := by
    rintro procs procs' hsame ⟨rm, hrm, hname, hss⟩
    obtain ⟨rm', hrm', heq⟩ := exists_static hsame hrm
    refine ⟨rm', hrm', ?_, ?_⟩
    · rw [← static_name, heq, static_name, hname]
    · rw [← static_subsystem rm', heq, static_subsystem]
      exact hss
  exact ⟨hmanagers hstatic.symm, hmanagers hstatic⟩

/-- The last table of a sender for the address of a RoutingManager, where the senders are
plain. -/
theorem last_table (h : self.Completes routes procinfos parents result)
    (hchecked : ∀ entry ∈ self.subsystems, check_destination self.subsystems entry = .ok ())
    (hr : r ∈ procinfos) (hrouter : r.name = .RoutingManager)
    (hkey : ⟨r.subsystem, r.target⟩ ∈ routes.keys) (hway : self.Way r p)
    (hnone : get_router_process_identifier p = none)
    (hplain : p.name = .EventBuilder → r.target ≠ "Dispatcher" ∧
      (r.target = "DataLogger" → ¬ self.FeedsRouted procinfos p.subsystem)) :
    ∃ table, ((router_tables routes parents p).filter fun table =>
        table.tablename == "routing_table_config").getLast? = some table ∧
      self.routed_subsystem p table.routed = .ok (some r.subsystem) ∧ table.target = r.target := by
  have hhas := (has_iff h.registered.numbered).mpr hkey
  cases hway with
  | reader hname hsends htarget hsubsystem =>
    rw [htarget, ← hsubsystem] at hhas
    refine ⟨⟨.own, "routing_table_config", "EventBuilder"⟩, ?_, by rw [← hsubsystem]; rfl,
      htarget.symm⟩
    simp [router_tables, hnone, hname, hhas, hsends, table_if]
  | outer hname htarget hdest =>
    have hparent : p.subsystem ∈ parents := by
      rw [feeds_iff h]
      refine ⟨r, hr, hrouter, ?_⟩
      obtain ⟨info, hinfo, hsome⟩ := Option.bind_eq_some_iff.mp hdest
      obtain ⟨dest_info, hdest_info, hsource⟩ :=
        check_destination_ok (hchecked _ (Dict.mem_of_lookup hinfo)) hsome
      unfold Bookkeeping.sources_of
      rw [hdest_info]
      exact hsource
    refine ⟨⟨.destination, "routing_table_config", "EventBuilder"⟩, ?_,
      routed_subsystem_destination.mpr hdest, htarget.symm⟩
    simp [router_tables, hnone, hname, hparent, table_if]
  | inner hname htarget hsubsystem =>
    rw [htarget, ← hsubsystem] at hhas
    have hparent : p.subsystem ∉ parents := by
      rw [feeds_iff h]
      exact (hplain hname).2 htarget
    refine ⟨⟨.own, "routing_table_config", "DataLogger"⟩, ?_, by rw [← hsubsystem]; rfl,
      htarget.symm⟩
    cases hbuilders : routes.has p.subsystem "EventBuilder" <;>
      simp [router_tables, hnone, hname, hhas, hparent, hbuilders, table_if,
        subsystems_without_dataloggers]
  | direct hname htarget hsubsystem => exact absurd htarget (hplain hname).1
  | logger hname htarget hsubsystem =>
    rw [htarget, ← hsubsystem] at hhas
    refine ⟨⟨.own, "routing_table_config", "Dispatcher"⟩, ?_, by rw [← hsubsystem]; rfl,
      htarget.symm⟩
    cases hloggers : routes.has p.subsystem "DataLogger" <;>
      simp [router_tables, hnone, hname, hhas, hloggers, table_if]

/-- A sender that has been told the address is plain. -/
theorem plain_of_knows (h : self.Completes routes procinfos parents result)
    (hknows : self.KnowsRouter routes parents r p) :
    get_router_process_identifier p = none ∧
      (p.name = .EventBuilder → r.target ≠ "Dispatcher" ∧
        (r.target = "DataLogger" → ¬ self.FeedsRouted procinfos p.subsystem)) := by
  obtain ⟨address, address', htold, hlast, hupdate, -⟩ := hknows
  obtain ⟨table, htable, hname, htold'⟩ := told_last_eq_some hlast
  have htarget : table.target = r.target := htold'.target_eq h.registered.numbered htold hupdate
  have hnone : get_router_process_identifier p = none := by
    cases hidentifier : get_router_process_identifier p with
    | none => rfl
    | some router =>
      have hmem := htold'.1
      unfold router_tables at hmem
      rw [hidentifier] at hmem
      cases router <;> rw [List.mem_singleton.mp hmem] at hname <;> exact absurd hname (by simp)
  refine ⟨hnone, fun hbuilder => ⟨?_, ?_⟩⟩
  · intro hdispatcher
    have hmem := htold'.1
    rw [hdispatcher] at htarget
    simp only [router_tables, hnone, hbuilder, List.mem_append, mem_table_if] at hmem
    rcases hmem with ((⟨-, rfl⟩ | ⟨-, rfl⟩) | ⟨hwithout, rfl⟩) | ⟨-, rfl⟩
    · exact absurd htarget (by simp)
    · exact absurd htarget (by simp)
    · simp [subsystems_without_dataloggers] at hwithout
    · exact absurd htarget (by simp)
  · intro hlogger hfeeds
    have hparent := (feeds_iff h).mpr hfeeds
    have hdest : table = ⟨.destination, "routing_table_config", "EventBuilder"⟩ := by
      simp [router_tables, hnone, hbuilder, hparent, table_if] at htable
      exact htable.symm
    rw [hdest, hlogger] at htarget
    exact absurd htarget (by simp)

end Told

/-- An EventBuilder with a table for the address of a RoutingManager. -/
def told_builder : Procinfo :=
  labelled .EventBuilder "EventBuilder1" "1" "not set" ("routing_table_config: \x7b " ++
    "table_update_port: 0 routing_manager_hostname: localhost \x7d\n")

/-- The DataLogger to which the EventBuilder sends. -/
def routed_logger : Procinfo := labelled .DataLogger "DataLogger1" "1" "not set" "\n"

/-- The RoutingManager of the DataLogger. -/
def logger_router : Procinfo :=
  labelled .RoutingManager "RoutingManager1" "1" "DataLogger" "\n"

/-- The EventBuilder sends to a DataLogger with a RoutingManager, and its subsystem is a source of
one in which a RoutingManager is responsible for the EventBuilders. -/
def routed_twice : Bookkeeper :=
  two_subsystems [told_builder, routed_logger,
    labelled .EventBuilder "EventBuilder2" "2" "not set" "\n", logger_router,
    labelled .RoutingManager "RoutingManager2" "2" "EventBuilder" "\n"]

end Bookkeeper

end DaqInterface
