import DaqInterface.Library.Fold
import DaqInterface.Model.Routers

/-!
# Routes to the router processes

What the loop over the subsystems leaves behind.  The processes differ from what they were in
their documents and in the targets that were not set (`route_subsystems_ok`), and the ports and
hosts are those of the router processes that serve the subsystems, all of them different
(`Registered`).
-/

namespace DaqInterface

/-! ## Processes without their documents -/

/-- A process without its document. -/
def Procinfo.without_document (p : Procinfo) : Procinfo := { p with fhicl_used := none }

/-- What does not change in a process when its document is written and its target is set. -/
def Procinfo.static (p : Procinfo) : Procinfo := p.with_target.without_document

@[simp] theorem get_router_process_identifier_without_document (p : Procinfo) :
    get_router_process_identifier p.without_document = get_router_process_identifier p := rfl

@[simp] theorem get_router_process_identifier_with_document (p : Procinfo) (document : String) :
    get_router_process_identifier (p.with_document document) = get_router_process_identifier p := rfl

@[simp] theorem without_document_with_document (p : Procinfo) (document : String) :
    (p.with_document document).without_document = p.without_document := rfl

@[simp] theorem with_target_name (p : Procinfo) : p.with_target.name = p.name := by
  unfold Procinfo.with_target
  split_ifs <;> rfl

@[simp] theorem with_target_label (p : Procinfo) : p.with_target.label = p.label := by
  unfold Procinfo.with_target
  split_ifs <;> rfl

@[simp] theorem with_target_subsystem (p : Procinfo) : p.with_target.subsystem = p.subsystem := by
  unfold Procinfo.with_target
  split_ifs <;> rfl

@[simp] theorem with_target_host (p : Procinfo) : p.with_target.host = p.host := by
  unfold Procinfo.with_target
  split_ifs <;> rfl

@[simp] theorem with_target_document (p : Procinfo) : p.with_target.document = p.document := by
  unfold Procinfo.with_target
  split_ifs <;> rfl

@[simp] theorem get_router_process_identifier_with_target (p : Procinfo) :
    get_router_process_identifier p.with_target = get_router_process_identifier p := by
  unfold get_router_process_identifier
  rw [with_target_name, with_target_label]

theorem target_is_set (p : Procinfo) :
    ¬ ((get_router_process_identifier p.with_target).isSome ∧ p.with_target.target = "not set") := by
  rw [get_router_process_identifier_with_target]
  unfold Procinfo.with_target
  split_ifs with hset
  · simp
  · exact hset

/-- A target is set once. -/
@[simp] theorem with_target_with_target (p : Procinfo) :
    p.with_target.with_target = p.with_target := if_neg (target_is_set p)

theorem with_target_eq_self {p q : Procinfo}
    (h : p.without_document = q.with_target.without_document) : p.with_target = p := by
  have hidentifier := congrArg get_router_process_identifier h
  have htarget := congrArg Procinfo.target h
  have hset := target_is_set q
  rw [← get_router_process_identifier_without_document q.with_target, ← hidentifier] at hset
  refine if_neg fun hunset => hset ⟨hunset.1, ?_⟩
  exact htarget.symm.trans hunset.2

theorem with_target_without_document (p : Procinfo) :
    p.without_document.with_target = p.with_target.without_document := by
  unfold Procinfo.with_target
  split_ifs with h h' <;> first | rfl | exact absurd h h' | exact absurd ‹_› h

@[simp] theorem static_name (p : Procinfo) : p.static.name = p.name := with_target_name p

@[simp] theorem static_label (p : Procinfo) : p.static.label = p.label := with_target_label p

@[simp] theorem static_subsystem (p : Procinfo) : p.static.subsystem = p.subsystem :=
  with_target_subsystem p

@[simp] theorem static_host (p : Procinfo) : p.static.host = p.host := with_target_host p

@[simp] theorem static_target (p : Procinfo) : p.static.target = p.with_target.target := rfl

@[simp] theorem get_router_process_identifier_static (p : Procinfo) :
    get_router_process_identifier p.static = get_router_process_identifier p :=
  get_router_process_identifier_with_target p

@[simp] theorem static_with_target (p : Procinfo) : p.with_target.static = p.static := by
  unfold Procinfo.static
  rw [with_target_with_target]

theorem static_of_without_document {p q : Procinfo} (h : p.without_document = q.without_document) :
    p.static = q.static := by
  unfold Procinfo.static
  rw [← with_target_without_document, ← with_target_without_document, h]

namespace Bookkeeper

variable {self : Bookkeeper}

@[simp] theorem serves_static (entry : String × Subsystem) (p : Procinfo) :
    serves entry p.static = serves entry p := by
  unfold serves
  rw [get_router_process_identifier_static, static_subsystem]

theorem serves_with_target (entry : String × Subsystem) (p : Procinfo) :
    serves entry p.with_target = serves entry p := by
  unfold serves
  rw [get_router_process_identifier_with_target, with_target_subsystem]

theorem serves_without_document (entry : String × Subsystem) (p : Procinfo) :
    serves entry p.without_document = serves entry p := rfl

/-! ## The documents in the loop -/

theorem map_without_document_change_document (label : String) (change : List Char → List Char)
    (procinfos : List Procinfo) :
    (change_document label change procinfos).map Procinfo.without_document =
      procinfos.map Procinfo.without_document := by
  unfold change_document
  split
  · rfl
  · refine List.ext_getElem? fun i => ?_
    rw [List.getElem?_map, List.getElem?_map, List.getElem?_modify]
    cases procinfos[i]? with
    | none => rfl
    | some p =>
      simp only [Option.map_eq_map, Option.map_some]
      split_ifs <;> rfl

/-- The address for requests changes nothing but documents. -/
theorem bookkeep_multicast_ok {nonsending : List String} {seen : List (String × List String)}
    {procinfos procinfos' : List Procinfo} {ss : String}
    (h : self.bookkeep_multicast nonsending seen procinfos ss = .ok procinfos') :
    procinfos'.map Procinfo.without_document = procinfos.map Procinfo.without_document := by
  unfold bookkeep_multicast at h
  split_ifs at h
  · rw [Except.ok.inj h]
  · split at h
    · rw [Except.ok.inj h]
    · rename_i first labels hinvolved
      obtain ⟨common, -, rfl⟩ := Loop.map_eq_ok.mp h
      split_ifs
      · generalize hall : first :: labels = all
        clear hinvolved hall h
        induction all generalizing procinfos with
        | nil => rfl
        | cons label all ih =>
          rw [List.foldl_cons, ih, map_without_document_change_document]
      · rfl

/-- The ports depend on the targets and the places of the processes only. -/
theorem add_routes_congr {procinfos procinfos' : List Procinfo}
    (h : procinfos.map Procinfo.without_document = procinfos'.map Procinfo.without_document)
    (routes : Routes) (entry : String × Subsystem) :
    self.add_routes procinfos routes entry = self.add_routes procinfos' routes entry := by
  have hbare : ∀ procs : List Procinfo, self.add_routes procs routes entry =
      self.add_routes (procs.map Procinfo.without_document) routes entry := by
    intro procs
    have hrouters : routers_for (procs.map Procinfo.without_document) entry =
        (routers_for procs entry).map Procinfo.without_document := by
      unfold routers_for
      rw [List.filter_map]
      congr 1
    unfold add_routes
    dsimp only
    rw [hrouters, List.map_map, List.foldl_map]
    rfl
  rw [hbare procinfos, hbare procinfos', h]

/-- The loop over the subsystems: the ports are those of the processes with their targets set, and
nothing but documents and targets changes. -/
theorem route_subsystems_ok {nonsending : List String} {seen : List (String × List String)}
    {routes : Routes} {procinfos : List Procinfo}
    (h : self.route_subsystems nonsending seen = .ok (routes, procinfos)) :
    self.subsystems.foldlM (self.add_routes (self.procinfos.map Procinfo.with_target)) ⟨[], [], 0⟩ =
        .ok routes ∧
      procinfos.map Procinfo.static = self.procinfos.map Procinfo.static ∧
      (self.subsystems ≠ [] → ∀ p ∈ procinfos, p.with_target = p) := by
  have hloop := Loop.foldlM_induct
    (P := fun (done : List (String × Subsystem)) (s : Routes × List Procinfo) =>
      done.foldlM (self.add_routes (self.procinfos.map Procinfo.with_target)) ⟨[], [], 0⟩ =
          .ok s.1 ∧
        s.2.map Procinfo.static = self.procinfos.map Procinfo.static ∧
        (done ≠ [] → ∀ p ∈ s.2, p.with_target = p))
    ?_ ?_ h
  · exact hloop
  · rintro done entry ⟨routes, procs⟩ ⟨routes', procs'⟩ ⟨hroutes, hstatic, -⟩ hstep
    obtain ⟨routes₁, hadd, hstep⟩ := Loop.bind_eq_ok.mp hstep
    obtain ⟨procs₁, hmulticast, hstep⟩ := Loop.bind_eq_ok.mp hstep
    obtain ⟨rfl, rfl⟩ := Prod.mk.inj (Except.ok.inj hstep)
    have hbare := bookkeep_multicast_ok hmulticast
    have hprocs : procs₁.map Procinfo.static = procs.map Procinfo.static := by
      have hof := congrArg (List.map Procinfo.with_target) hbare
      simp only [List.map_map] at hof
      have hcomp : Procinfo.with_target ∘ Procinfo.without_document = Procinfo.static := by
        funext p
        exact with_target_without_document p
      have hset : Procinfo.static ∘ Procinfo.with_target = Procinfo.static := by
        funext p
        exact static_with_target p
      rwa [hcomp, ← Function.comp_assoc, hcomp, hset] at hof
    refine ⟨?_, hprocs.trans hstatic, ?_⟩
    · rw [List.foldlM_append]
      refine Loop.bind_eq_ok.mpr ⟨routes, hroutes, ?_⟩
      refine Loop.foldlM_cons.mpr ⟨routes₁, ?_, rfl⟩
      rw [← hadd]
      refine add_routes_congr ?_ routes entry
      rw [List.map_map, List.map_map]
      exact hstatic.symm
    · intro _ p hp
      have hmem := List.mem_map_of_mem (f := Procinfo.without_document) hp
      rw [hbare, List.map_map] at hmem
      obtain ⟨q, -, hq⟩ := List.mem_map.mp hmem
      exact with_target_eq_self hq.symm
  · exact ⟨rfl, rfl, fun h => absurd rfl h⟩

/-! ## Ports -/

/-- The first port that is given out. -/
def first_port (self : Bookkeeper) : ℤ :=
  self.ARTDAQ_BASE_PORT + 10 + self.ARTDAQ_PORTS_PER_PARTITION * self.partition_number

/-- The host of a process, as the others know it. -/
def shown_host (self : Bookkeeper) (p : Procinfo) : String :=
  if p.host = "localhost" then self.HOSTNAME else p.host

/-- The subsystems and targets for which there is a port. -/
def Routes.keys (routes : Routes) : List RouterKey := routes.routing_base_ports.map Prod.fst

/-- `routing_token_port`, of all router processes. -/
def Routes.token_ports (routes : Routes) : List ℤ := routes.routing_base_ports.map Prod.snd

/-- `table_update_port`, of all router processes. -/
def Routes.update_ports (routes : Routes) : List ℤ :=
  routes.token_ports.map fun port => port + routes.router_id

/-- The ports have been given out one after the other, one for each subsystem and target. -/
structure Numbered (bookkeeper : Bookkeeper) (routes : Routes) : Prop where
  keys : routes.keys.Nodup
  hosts : routes.router_process_hostnames.map Prod.fst = routes.keys
  ports : routes.token_ports.Nodup
  bounds : ∀ port ∈ routes.token_ports,
    bookkeeper.first_port ≤ port ∧ port < bookkeeper.first_port + routes.router_id

theorem Numbered.start : self.Numbered ⟨[], [], 0⟩ :=
  ⟨List.nodup_nil, rfl, List.nodup_nil, fun _ h => absurd h List.not_mem_nil⟩

theorem Numbered.add_route {routes : Routes} (h : self.Numbered routes) (ss : String)
    (p : Procinfo) : self.Numbered (self.add_route ss routes p) := by
  have hnew : self.first_port + routes.router_id ∉ routes.token_ports := by
    intro hmem
    have hbound := (h.bounds _ hmem).2
    omega
  refine ⟨Dict.keys_nodup_assign h.keys, ?_, Dict.values_nodup_assign h.ports hnew, ?_⟩
  · show (Dict.assign _ _ _).map Prod.fst = (Dict.assign _ _ _).map Prod.fst
    rw [Dict.keys_assign, Dict.keys_assign, h.hosts]
    rfl
  · intro port hport
    have hid : (self.add_route ss routes p).router_id = routes.router_id + 1 := rfl
    rw [hid]
    push_cast
    rcases Dict.mem_values_assign hport with rfl | hold
    · unfold first_port
      omega
    · have hbound := h.bounds port hold
      omega

/-- What the ports have to do with the processes: there is a port for each router process and each
subsystem that it serves, and the host that goes with it is that of such a process. -/
structure Registered (bookkeeper : Bookkeeper) (procinfos : List Procinfo)
    (done : List (String × Subsystem)) (routes : Routes) : Prop where
  numbered : bookkeeper.Numbered routes
  targets : ∀ entry ∈ done, ((routers_for procinfos entry).map Procinfo.target).Nodup
  complete : ∀ entry ∈ done, ∀ p ∈ routers_for procinfos entry, ⟨entry.1, p.target⟩ ∈ routes.keys
  hosts : ∀ key host, (key, host) ∈ routes.router_process_hostnames → ∃ entry ∈ done,
    ∃ p ∈ routers_for procinfos entry, key = ⟨entry.1, p.target⟩ ∧ host = bookkeeper.shown_host p

/-- What giving out the ports of one subsystem adds, one router process after the other. -/
theorem add_routers (ss : String) {routes : Routes} (h : self.Numbered routes)
    (routers : List Procinfo) :
    self.Numbered (routers.foldl (self.add_route ss) routes) ∧
      (∀ key, key ∈ (routers.foldl (self.add_route ss) routes).keys ↔
        key ∈ routes.keys ∨ ∃ p ∈ routers, key = ⟨ss, p.target⟩) ∧
      ∀ key host, (key, host) ∈ (routers.foldl (self.add_route ss) routes).router_process_hostnames →
        (key, host) ∈ routes.router_process_hostnames ∨
          ∃ p ∈ routers, key = ⟨ss, p.target⟩ ∧ host = self.shown_host p := by
  induction routers generalizing routes with
  | nil =>
    refine ⟨h, fun key => ?_, fun key host hmem => Or.inl hmem⟩
    simp
  | cons p routers ih =>
    obtain ⟨hnumbered, hkeys, hhosts⟩ := ih (h.add_route ss p)
    rw [List.foldl_cons]
    refine ⟨hnumbered, fun key => ?_, fun key host hmem => ?_⟩
    · have hfirst : key ∈ (self.add_route ss routes p).keys ↔
          key = ⟨ss, p.target⟩ ∨ key ∈ routes.keys := Dict.mem_keys_assign
      rw [hkeys, hfirst, List.exists_mem_cons_iff]
      tauto
    · rcases hhosts key host hmem with hmem | ⟨q, hq, hkey, hhost⟩
      · rcases Dict.mem_assign hmem with hnew | hold
        · obtain ⟨hkey, hhost⟩ := Prod.mk.inj hnew
          exact Or.inr ⟨p, List.mem_cons_self, hkey, hhost⟩
        · exact Or.inl hold
      · exact Or.inr ⟨q, List.mem_cons_of_mem p hq, hkey, hhost⟩

theorem add_routes_ok {procinfos : List Procinfo} {routes routes' : Routes}
    {entry : String × Subsystem} (h : self.add_routes procinfos routes entry = .ok routes') :
    ((routers_for procinfos entry).map Procinfo.target).Nodup ∧
      (routers_for procinfos entry).foldl (self.add_route entry.1) routes = routes' := by
  unfold add_routes at h
  dsimp only at h
  split_ifs at h with htargets
  exact ⟨htargets, Except.ok.inj h⟩

/-- The ports behind the loop over the subsystems. -/
theorem registered {procinfos : List Procinfo} {routes : Routes}
    (h : self.subsystems.foldlM (self.add_routes procinfos) ⟨[], [], 0⟩ = .ok routes) :
    self.Registered procinfos self.subsystems routes := by
  refine Loop.foldlM_induct (P := self.Registered procinfos) ?_ ?_ h
  · intro done entry routes routes' hdone hstep
    obtain ⟨htargets, rfl⟩ := add_routes_ok hstep
    obtain ⟨hnumbered, hkeys, hhosts⟩ :=
      add_routers entry.1 hdone.numbered (routers_for procinfos entry)
    refine ⟨hnumbered, ?_, ?_, ?_⟩
    · intro other hother
      rcases List.mem_append.mp hother with hother | hother
      · exact hdone.targets other hother
      · rw [List.mem_singleton.mp hother]
        exact htargets
    · intro other hother p hp
      rw [hkeys]
      rcases List.mem_append.mp hother with hother | hother
      · exact Or.inl (hdone.complete other hother p hp)
      · rw [List.mem_singleton.mp hother] at hp ⊢
        exact Or.inr ⟨p, hp, rfl⟩
    · intro key host hmem
      rcases hhosts key host hmem with hold | ⟨p, hp, hkey, hhost⟩
      · obtain ⟨other, hother, hserved⟩ := hdone.hosts key host hold
        exact ⟨other, List.mem_append_left _ hother, hserved⟩
      · exact ⟨entry, List.mem_append_right _ List.mem_cons_self, p, hp, hkey, hhost⟩
  · refine ⟨Numbered.start, ?_, ?_, ?_⟩
    · exact fun _ h => absurd h List.not_mem_nil
    · exact fun _ h => absurd h List.not_mem_nil
    · exact fun _ _ h => absurd h List.not_mem_nil

end Bookkeeper

end DaqInterface
