import DaqInterface.Library.Fold
import DaqInterface.Model.Documents
import DaqInterface.Properties.RouterPorts

/-!
# Targets that are not set

The target of a router process may be left out, which stands for the EventBuilders.  The
bookkeeping is compared with what it does when the target is written out from the start
(`retargeted`): the two write the same documents (`targets_default`) unless the target decides
which BoardReaders are left out when the address for requests is chosen.
-/

namespace DaqInterface

open Bookkeeping (Computed)

@[simp] theorem with_target_rank (p : Procinfo) : p.with_target.rank = p.rank := by
  unfold Procinfo.with_target
  split_ifs <;> rfl

@[simp] theorem with_target_fhicl_used (p : Procinfo) :
    p.with_target.fhicl_used = p.fhicl_used := by
  unfold Procinfo.with_target
  split_ifs <;> rfl

theorem with_target_with_document (p : Procinfo) (document : String) :
    (p.with_document document).with_target = p.with_target.with_document document := by
  unfold Procinfo.with_target
  split_ifs <;> first | rfl | contradiction

/-! ## What does not read the targets -/

namespace Bookkeeping

/-- The same with the targets written out. -/
def retargeted (self : Bookkeeping) : Bookkeeping :=
  { self with procinfos := self.procinfos.map Procinfo.with_target }

variable {self : Bookkeeping} {c : Computed} {p : Procinfo}

theorem stated_fragment_size_with_target (p : Procinfo) (sizes : List (String × ℤ)) :
    stated_fragment_size p.with_target sizes = stated_fragment_size p sizes := by
  unfold Procinfo.with_target
  split_ifs <;> rfl

theorem count_reader_with_target (sizes : List (String × ℤ)) (totals : Totals) (p : Procinfo) :
    self.retargeted.count_reader sizes totals p.with_target = self.count_reader sizes totals p := by
  unfold Procinfo.with_target
  split_ifs <;> rfl

theorem filter_map_with_target {test : Procinfo → Bool}
    (htest : ∀ p : Procinfo, test p.with_target = test p) (procs : List Procinfo) :
    (procs.map Procinfo.with_target).filter test = (procs.filter test).map Procinfo.with_target := by
  rw [List.filter_map]
  congr 1
  exact List.filter_congr fun p _ => htest p

theorem compute_retargeted (scale : ℤ → Except String ℤ) :
    self.retargeted.compute scale = self.compute scale := by
  have hsizes : self.retargeted.max_fragment_size_by_label = self.max_fragment_size_by_label := by
    unfold max_fragment_size_by_label
    congr 1
    exact Loop.foldlM_map_eq (fun p _ sizes => stated_fragment_size_with_target p sizes) []
  have hcount : ∀ sizes, self.retargeted.count_fragments sizes = self.count_fragments sizes := by
    intro sizes
    have hreaders : self.retargeted.boardreaders = self.boardreaders.map Procinfo.with_target :=
      filter_map_with_target (fun p => by rw [with_target_name]) self.procinfos
    unfold count_fragments
    rw [hreaders]
    exact Loop.foldlM_map_eq (fun p _ totals => count_reader_with_target sizes totals p) _
  unfold compute
  rw [hsizes]
  simp only [hcount]
  rfl

/-! ### Tables -/

theorem sort_by_rank_map (procs : List Procinfo) :
    sort_by_rank (procs.map Procinfo.with_target) =
      (sort_by_rank procs).map Procinfo.with_target := by
  refine (List.map_insertionSort _ _ _ _ fun p _ q _ => ?_).symm
  rw [with_target_rank, with_target_rank]

theorem sorted_retargeted : self.retargeted.procinfos_sorted_by_rank =
    self.procinfos_sorted_by_rank.map Procinfo.with_target := sort_by_rank_map self.procinfos

theorem host_map_string_retargeted : self.retargeted.host_map_string = self.host_map_string := by
  unfold host_map_string
  rw [sorted_retargeted, filter_map_with_target fun p => by rw [with_target_name]]
  simp only [List.map_map, Function.comp_def, with_target_rank, with_target_host]
  rfl

theorem procinfos_by_ss_type_retargeted (ss : String) (name : ProcType) :
    self.retargeted.procinfos_by_ss_type ss name =
      (self.procinfos_by_ss_type ss name).map Procinfo.with_target := by
  unfold procinfos_by_ss_type
  rw [sorted_retargeted, filter_map_with_target fun p => by rw [with_target_name,
    with_target_subsystem]]

theorem subsystem_has_dataloggers_retargeted (ss : String) :
    self.retargeted.subsystem_has_dataloggers ss = self.subsystem_has_dataloggers ss := by
  unfold subsystem_has_dataloggers retargeted
  rw [List.any_map]
  congr 1
  funext p
  simp

theorem inter_ss_eb_destinations_retargeted (ss : String) :
    self.retargeted.inter_ss_eb_destinations ss =
      (self.inter_ss_eb_destinations ss).map Procinfo.with_target := by
  have hdest : self.retargeted.destination_of ss = self.destination_of ss := rfl
  unfold inter_ss_eb_destinations
  rw [hdest]
  cases self.destination_of ss with
  | none => rfl
  | some dest_ss =>
    dsimp only
    split_ifs
    · exact procinfos_by_ss_type_retargeted dest_ss .EventBuilder
    · rfl

theorem inter_ss_eb_sources_retargeted (ss : String) :
    self.retargeted.inter_ss_eb_sources ss =
      (self.inter_ss_eb_sources ss).map Procinfo.with_target := by
  have hnames : self.retargeted.names = self.names := rfl
  have hdest : self.retargeted.destination_of = self.destination_of := rfl
  unfold inter_ss_eb_sources
  rw [hnames, hdest]
  split_ifs
  · rw [← sort_by_rank_map, List.map_flatMap]
    congr 2
    funext other_ss
    split_ifs
    · exact procinfos_by_ss_type_retargeted other_ss .EventBuilder
    · rfl
  · rfl

theorem procinfos_inside_retargeted (p : Procinfo) (nodetype : NodeType) :
    self.retargeted.procinfos_inside p.with_target nodetype =
      (self.procinfos_inside p nodetype).map Procinfo.with_target := by
  unfold procinfos_inside
  rw [with_target_name, with_target_subsystem, subsystem_has_dataloggers_retargeted]
  cases p.name <;> cases nodetype <;> dsimp only
  all_goals first
    | rfl
    | exact procinfos_by_ss_type_retargeted _ _
    | (rw [← sort_by_rank_map, List.map_append, procinfos_by_ss_type_retargeted]
       split_ifs <;> simp [procinfos_by_ss_type_retargeted])

theorem procinfos_for_string_retargeted (p : Procinfo) (nodetype : NodeType) (inter : Bool) :
    self.retargeted.procinfos_for_string p.with_target nodetype inter =
      (self.procinfos_for_string p nodetype inter).map Procinfo.with_target := by
  have hinside : (if inter = true then [] else (self.procinfos_inside p nodetype).map
      Procinfo.with_target) = (if inter = true then [] else
        self.procinfos_inside p nodetype).map Procinfo.with_target := by
    split_ifs <;> rfl
  unfold procinfos_for_string
  rw [with_target_name, with_target_subsystem, procinfos_inside_retargeted,
    inter_ss_eb_destinations_retargeted, inter_ss_eb_sources_retargeted, hinside]
  dsimp only
  by_cases houter : p.name = .EventBuilder ∧ (inter = true ∨ nodetype = .sources)
  · rw [if_pos houter, if_pos houter]
    cases nodetype <;> dsimp only <;> rw [← sort_by_rank_map, List.map_append]
  · rw [if_neg houter, if_neg houter]

theorem create_node_retargeted (p q : Procinfo) (nodetype : NodeType) (common : ℚ) (i : ℕ) :
    self.retargeted.create_node c p.with_target nodetype common q.with_target i =
      self.create_node c p nodetype common q i := by
  have hsource : self.retargeted.source_size_words c q.with_target = self.source_size_words c q := by
    unfold Procinfo.with_target
    split_ifs <;> rfl
  have htransfer : self.retargeted.transfer_to_use p.with_target q.with_target =
      self.transfer_to_use p q := by
    unfold transfer_to_use
    rw [with_target_name, with_target_name]
    rfl
  unfold create_node
  rw [hsource, htransfer, host_map_string_retargeted, with_target_name, with_target_rank]

theorem create_nodes_retargeted (p : Procinfo) (nodetype : NodeType) (max_event_size : ℤ)
    (inter : Bool) :
    self.retargeted.create_nodes c p.with_target nodetype max_event_size inter =
      self.create_nodes c p nodetype max_event_size inter := by
  have hwords : self.retargeted.buffer_size_words c p.with_target nodetype max_event_size =
      self.buffer_size_words c p nodetype max_event_size := by
    unfold Procinfo.with_target
    split_ifs <;> rfl
  have hsubsystems : self.retargeted.subsystems = self.subsystems := rfl
  unfold create_nodes
  rw [hwords, hsubsystems, with_target_subsystem, procinfos_for_string_retargeted,
    List.zipIdx_map]
  congr 1
  funext common
  congr 1
  funext _
  rw [List.mapM_map]
  congr 1
  funext ⟨q, i⟩
  exact create_node_retargeted p q nodetype common i

theorem table_text_retargeted (p : Procinfo) (nodetype : NodeType) (max_event_size : ℤ)
    (document : List Char) (inter : Bool) :
    self.retargeted.table_text c p.with_target nodetype max_event_size document inter =
      self.table_text c p nodetype max_event_size document inter := by
  unfold table_text create_sources_or_destinations_string
  rw [← with_target_with_document, create_nodes_retargeted]

end Bookkeeping

/-! ## Init fragments -/

theorem sends_to_with_target (p q : Procinfo) :
    sends_to_via_RootNetOutput p.with_target q.with_target = sends_to_via_RootNetOutput p q := by
  have hrange : ∀ last_start module, sends_in_range p.with_target q.with_target last_start module =
      sends_in_range p q last_start module := by
    intro last_start module
    unfold sends_in_range destination_string
    rw [with_target_document, with_target_label, with_target_rank]
  have hmodules : ∀ modules last_start, sends_in_modules p.with_target q.with_target last_start
      modules = sends_in_modules p q last_start modules := by
    intro modules
    induction modules with
    | nil => exact fun _ => rfl
    | cons module modules ih =>
      intro last_start
      unfold sends_in_modules
      rw [hrange]
      simp only [ih]
  unfold sends_to_via_RootNetOutput
  rw [hmodules, with_target_document]

theorem count_senders_with_target (senders : List Procinfo) (q : Procinfo) :
    count_senders (senders.map Procinfo.with_target) q.with_target = count_senders senders q := by
  refine Loop.foldlM_map_eq (fun p _ count => ?_) 0
  have hcount : art_analyzer_count p.with_target = art_analyzer_count p := by
    unfold art_analyzer_count
    rw [with_target_document]
  rw [sends_to_with_target, hcount]

theorem procinfos_by_ss_name_with_target (procs : List Procinfo) (ss : String) (name : ProcType) :
    procinfos_by_ss_name (procs.map Procinfo.with_target) ss name =
      (procinfos_by_ss_name procs ss name).map Procinfo.with_target :=
  Bookkeeping.filter_map_with_target (fun p => by rw [with_target_name, with_target_subsystem]) procs

theorem init_fragment_count_with_target (procs : List Procinfo) (entry : String × Subsystem)
    (q : Procinfo) :
    init_fragment_count (procs.map Procinfo.with_target) entry q.with_target =
      init_fragment_count procs entry q := by
  unfold init_fragment_count
  simp only [procinfos_by_ss_name_with_target, ← List.map_flatMap, count_senders_with_target,
    with_target_name, with_target_subsystem]

/-- The loop with the targets written out. -/
def InitLoop.retargeted (loop : InitLoop) : InitLoop :=
  { loop with procinfos := loop.procinfos.map Procinfo.with_target }

theorem InitLoop.turn_retargeted (entry : String × Subsystem) (loop : InitLoop) (i : ℕ) :
    loop.retargeted.turn entry i = (loop.turn entry i).map InitLoop.retargeted := by
  have hget : loop.retargeted.procinfos[i]? = loop.procinfos[i]?.map Procinfo.with_target :=
    List.getElem?_map
  unfold InitLoop.turn
  rw [hget]
  cases loop.procinfos[i]? with
  | none => rfl
  | some q =>
    have hcount : loop.retargeted.count entry q.with_target = loop.count entry q := by
      unfold InitLoop.count
      rw [with_target_name]
      have hcounts : loop.retargeted.init_fragment_counts = loop.init_fragment_counts := rfl
      have hprocs : loop.retargeted.procinfos = loop.procinfos.map Procinfo.with_target := rfl
      rw [hcounts, hprocs, init_fragment_count_with_target]
    simp only [Option.map_some, hcount]
    cases loop.count entry q with
    | error e => rfl
    | ok counts =>
      have hset : (loop.procinfos.map Procinfo.with_target).set i
          (with_init_fragment_count q.with_target ((counts.lookup q.name).getD 0)) =
          (loop.procinfos.set i
            (with_init_fragment_count q ((counts.lookup q.name).getD 0))).map
              Procinfo.with_target := by
        unfold with_init_fragment_count
        rw [List.map_set, with_target_with_document, with_target_document]
      show Except.ok (InitLoop.mk _ _) = Except.ok (InitLoop.retargeted (InitLoop.mk _ _))
      unfold InitLoop.retargeted
      rw [with_target_name, hset]

theorem init_places_with_target (procs : List Procinfo) (ss : String) :
    init_places (procs.map Procinfo.with_target) ss = init_places procs ss := by
  unfold init_places
  congr 1
  funext name
  rw [List.zipIdx_map, List.filter_map, List.map_map]
  simp [Function.comp_def]

theorem write_init_fragment_counts_with_target (subsystems : List (String × Subsystem))
    (procs : List Procinfo) :
    write_init_fragment_counts subsystems (procs.map Procinfo.with_target) =
      (write_init_fragment_counts subsystems procs).map (List.map Procinfo.with_target) := by
  refine Loop.foldlM_state_eq (fun procs entry => ?_) subsystems procs
  unfold write_subsystem_counts
  rw [init_places_with_target]
  have hloop := Loop.foldlM_state_eq (fun loop i => InitLoop.turn_retargeted entry loop i)
    (init_places procs entry.1) ⟨procs, []⟩
  have hstart : InitLoop.retargeted ⟨procs, []⟩ = ⟨procs.map Procinfo.with_target, []⟩ := rfl
  rw [hstart] at hloop
  rw [hloop]
  cases (init_places procs entry.1).foldlM (InitLoop.turn entry) ⟨procs, []⟩ with
  | error e => rfl
  | ok loop => rfl

namespace Bookkeeper

variable {self : Bookkeeper} {c : Computed}

/-- The same with the targets written out. -/
def retargeted (self : Bookkeeper) : Bookkeeper :=
  self.with_procinfos (self.procinfos.map Procinfo.with_target)

/-- A pass that does not read the targets. -/
theorem rewrite_retargeted {change change' : Procinfo → Except String (List Char)}
    (h : ∀ p ∈ self.procinfos, change' p.with_target = change p) :
    self.retargeted.rewrite change' = (self.rewrite change).map retargeted := by
  have hmap : (self.procinfos.map Procinfo.with_target).mapM (fun p => (change' p).map
      fun document => p.with_document (String.ofList document)) =
      (self.procinfos.mapM fun p => (change p).map fun document =>
        p.with_document (String.ofList document)).map (List.map Procinfo.with_target) := by
    refine Loop.mapM_map_eq fun p hp => ?_
    rw [h p hp]
    cases change p with
    | error e => rfl
    | ok document =>
      show Except.ok _ = Except.ok _
      rw [with_target_with_document]
  unfold rewrite
  have hprocs : self.retargeted.procinfos = self.procinfos.map Procinfo.with_target := rfl
  rw [hprocs, hmap]
  cases self.procinfos.mapM fun p => (change p).map fun document =>
      p.with_document (String.ofList document) with
  | error e => rfl
  | ok procs => rfl

theorem set_max_event_size_with_target (p : Procinfo) :
    self.retargeted.set_max_event_size c p.with_target = self.set_max_event_size c p := by
  unfold Procinfo.with_target
  split_ifs <;> rfl

theorem set_fragment_ids_with_target (p : Procinfo) :
    set_fragment_ids c p.with_target = set_fragment_ids c p := by
  unfold Procinfo.with_target
  split_ifs <;> rfl

theorem preflight_with_target (p : Procinfo) : preflight p.with_target = preflight p := by
  unfold Procinfo.with_target
  split_ifs <;> rfl

theorem check_routers_retargeted : self.retargeted.check_routers = self.check_routers := by
  have hfilter : ∀ test : Procinfo → Bool, (∀ p : Procinfo, test p.with_target = test p) →
      self.retargeted.procinfos.filter test =
        (self.procinfos.filter test).map Procinfo.with_target :=
    fun test htest => Bookkeeping.filter_map_with_target htest self.procinfos
  refine Loop.forM_map_eq fun p _ => ?_
  have hsubsystems : self.retargeted.subsystems = self.subsystems := rfl
  unfold check_router
  rw [get_router_process_identifier_with_target, with_target_subsystem, with_target_label,
    hsubsystems]
  rw [hfilter _ fun p => by rw [with_target_name, with_target_subsystem, with_target_label],
    hfilter _ fun p => by rw [with_target_name]]
  simp only [ne_eq, List.map_eq_nil_iff, List.map_map, Function.comp_def, with_target_label]
  congr 4
  funext ss
  rw [Bookkeeping.filter_map_with_target fun p => by rw [with_target_subsystem]]
  simp only [List.map_eq_nil_iff, List.map_map, Function.comp_def, with_target_label]

theorem set_tables_retargeted (turns : ℕ) (p : Procinfo) :
    self.retargeted.set_tables c turns p.with_target = self.set_tables c turns p := by
  have hof : ∀ nodetype document, self.retargeted.set_tables_of c turns p.with_target nodetype
      document = self.set_tables_of c turns p nodetype document := by
    intro nodetype document
    unfold set_tables_of
    have htext : ∀ size document inter, self.retargeted.table_text c p.with_target nodetype size
        document inter = self.table_text c p nodetype size document inter :=
      fun size document inter => Bookkeeping.table_text_retargeted p nodetype size document inter
    simp only [htext, with_target_subsystem]
  unfold set_tables
  rw [hof, with_target_document]
  simp only [hof]

/-- The first part of the bookkeeping does not read the targets. -/
theorem write_tables_retargeted (scale : ℤ → Except String ℤ) (turns : ℕ) :
    self.retargeted.write_tables scale turns =
      (self.write_tables scale turns).map fun (c, self) => (c, self.retargeted) := by
  have hcompute : self.retargeted.compute scale = self.compute scale :=
    Bookkeeping.compute_retargeted scale
  unfold write_tables
  refine Loop.bind_same_eq hcompute fun c _ => ?_
  refine Loop.bind_map_eq retargeted
    (rewrite_retargeted fun p _ => set_max_event_size_with_target p) fun self₁ _ => ?_
  refine Loop.bind_map_eq retargeted
    (rewrite_retargeted fun p _ => set_fragment_ids_with_target p) fun self₂ _ => ?_
  refine Loop.bind_same_eq check_routers_retargeted fun _ _ => ?_
  refine Loop.bind_same_eq (Loop.forM_map_eq fun p _ => preflight_with_target p) fun _ _ => ?_
  exact Loop.bind_map_eq retargeted (rewrite_retargeted fun p _ => set_tables_retargeted turns p)
    fun self₃ _ => rfl

/-! ## What follows the router processes -/

theorem set_parameters_retargeted (p : Procinfo) :
    self.retargeted.set_parameters c p.with_target = self.set_parameters c p := by
  have hhosts : self.retargeted.host_map_string = self.host_map_string :=
    Bookkeeping.host_map_string_retargeted
  have haddress : self.retargeted.request_address_for p.with_target =
      self.request_address_for p := by
    unfold request_address_for
    rw [with_target_subsystem]
    rfl
  unfold set_parameters
  rw [hhosts, haddress, with_target_name, with_target_subsystem, with_target_document]
  rfl

theorem private_networks_seen_retargeted :
    self.retargeted.private_networks_seen = self.private_networks_seen := by
  unfold private_networks_seen
  congr 1
  refine Loop.foldlM_map_eq (fun p _ seen => ?_) []
  rw [with_target_host, with_target_label]
  rfl

theorem first_logger_rank_retargeted :
    self.retargeted.first_logger_rank = self.first_logger_rank := by
  have hfilter : self.retargeted.procinfos.filter (fun p => fhicl_writes_root_file p.document) =
      (self.procinfos.filter fun p => fhicl_writes_root_file p.document).map Procinfo.with_target :=
    Bookkeeping.filter_map_with_target (fun p => by rw [with_target_document]) self.procinfos
  unfold first_logger_rank
  rw [hfilter, List.foldl_map]
  simp only [with_target_rank]

theorem set_first_logger_rank_retargeted (p : Procinfo) :
    self.retargeted.set_first_logger_rank p.with_target = self.set_first_logger_rank p := by
  unfold set_first_logger_rank
  rw [first_logger_rank_retargeted, with_target_document]

theorem set_data_directory_retargeted (p : Procinfo) :
    self.retargeted.set_data_directory p.with_target = self.set_data_directory p := by
  unfold set_data_directory
  rw [with_target_document, with_target_name]
  rfl

theorem set_overwrites_retargeted (p : Procinfo) :
    self.retargeted.set_overwrites p.with_target = self.set_overwrites p := by
  unfold set_overwrites
  rw [with_target_document]
  rfl

/-! ## Who is left out of the requests -/

theorem mem_nonsending {label : String} :
    label ∈ self.nonsending_boardreaders ↔
      (∃ r ∈ self.procinfos, (get_router_process_identifier r).isSome ∧ r.target = "EventBuilder") ∧
        ∃ p ∈ self.procinfos, p.name = .BoardReader ∧ sends_nothing p = true ∧ p.label = label := by
  unfold nonsending_boardreaders
  rw [List.mem_flatMap]
  constructor
  · rintro ⟨r, hr, hlabel⟩
    split_ifs at hlabel with hrouter
    · obtain ⟨p, hp, rfl⟩ := List.mem_map.mp hlabel
      obtain ⟨hp, htest⟩ := List.mem_filter.mp hp
      obtain ⟨hname, hnothing⟩ := Bool.and_eq_true_iff.mp htest
      exact ⟨⟨r, hr, hrouter⟩, p, hp, eq_of_beq hname, hnothing, rfl⟩
    · exact absurd hlabel List.not_mem_nil
  · rintro ⟨⟨r, hr, hrouter⟩, p, hp, hname, hnothing, rfl⟩
    refine ⟨r, hr, ?_⟩
    rw [if_pos hrouter]
    refine List.mem_map_of_mem (List.mem_filter.mpr ⟨hp, ?_⟩)
    rw [hname, hnothing]
    rfl

theorem mem_nonsending_retargeted {label : String} :
    label ∈ self.retargeted.nonsending_boardreaders ↔
      (∃ r ∈ self.procinfos, (get_router_process_identifier r).isSome ∧
        r.with_target.target = "EventBuilder") ∧
        ∃ p ∈ self.procinfos, p.name = .BoardReader ∧ sends_nothing p = true ∧ p.label = label := by
  have hprocs : self.retargeted.procinfos = self.procinfos.map Procinfo.with_target := rfl
  have hnothing : ∀ p : Procinfo, sends_nothing p.with_target = sends_nothing p := by
    intro p
    unfold sends_nothing
    rw [with_target_document]
  rw [mem_nonsending, hprocs]
  simp only [List.mem_map, exists_exists_and_eq_and, get_router_process_identifier_with_target, with_target_name,
    with_target_label, hnothing]

/-- A document states a mode of requests. -/
def StatesRequests (document : String) : Prop :=
  (request_modes.any fun re => found re document) = true

/-- The targets that are not set do not matter for the address of requests: private networks are
not used, or each target is set, or the target EventBuilder is written out somewhere, or no
BoardReader of a declared subsystem that sends nothing states a mode of requests. -/
def TargetsSettled (self : Bookkeeper) (c : Computed) : Prop :=
  self.disable_private_network_bookkeeping = true ∨
  (∀ r ∈ self.procinfos, (get_router_process_identifier r).isSome → r.target ≠ "not set") ∨
  (∃ r ∈ self.procinfos, (get_router_process_identifier r).isSome ∧ r.target = "EventBuilder") ∨
  ∀ p ∈ self.procinfos, p.name = .BoardReader → p.subsystem ∈ self.names → sends_nothing p = true →
    ∀ document, self.set_parameters c p = .ok document →
      ¬ StatesRequests (String.ofList document)

theorem target_of_set {r : Procinfo} (h : r.target ≠ "not set") : r.with_target = r :=
  if_neg fun hunset => h hunset.2

/-- A BoardReader that states a mode of requests is left out in both cases or in none. -/
theorem nonsending_iff (hsettled : self.TargetsSettled c)
    (hnetworks : self.disable_private_network_bookkeeping = false)
    (hlabels : (self.procinfos.map Procinfo.label).Nodup) {p : Procinfo} (hp : p ∈ self.procinfos)
    (hname : p.name = .BoardReader) (hsubsystem : p.subsystem ∈ self.names)
    {document : List Char} (hdocument : self.set_parameters c p = .ok document)
    (hstates : StatesRequests (String.ofList document)) :
    p.label ∈ self.retargeted.nonsending_boardreaders ↔
      p.label ∈ self.nonsending_boardreaders := by
  rw [mem_nonsending_retargeted, mem_nonsending]
  rcases hsettled with hdisabled | hset | hexplicit | hsilent
  · rw [hnetworks] at hdisabled
    cases hdisabled
  · refine and_congr_left fun _ => exists_congr fun r => and_congr_right fun hr =>
      and_congr_right fun hrouter => ?_
    rw [target_of_set (hset r hr hrouter)]
  · refine and_congr_left fun _ => iff_of_true ?_ hexplicit
    obtain ⟨r, hr, hrouter, htarget⟩ := hexplicit
    refine ⟨r, hr, hrouter, ?_⟩
    rw [target_of_set (by rw [htarget]; decide)]
    exact htarget
  · have hnot : ¬ ∃ q ∈ self.procinfos, q.name = .BoardReader ∧ sends_nothing q = true ∧
        q.label = p.label := by
      rintro ⟨q, hq, -, hnothing, hlabel⟩
      obtain rfl := List.inj_on_of_nodup_map hlabels hq hp hlabel
      exact hsilent q hq hname hsubsystem hnothing document hdocument hstates
    exact iff_of_false (fun h => hnot h.2) fun h => hnot h.2

/-! ## The loop over the subsystems -/

/-- A process behind a change of one document is an old one, or the one with the label. -/
theorem mem_change_document {label : String} {change : List Char → List Char}
    {procs : List Procinfo} {p : Procinfo} (h : p ∈ change_document label change procs) :
    p ∈ procs ∨ ∃ q ∈ procs, q.label = label ∧ p.without_document = q.without_document := by
  unfold change_document at h
  split at h
  · exact Or.inl h
  · rename_i i hi
    obtain ⟨hlt, htest, -⟩ := List.findIdx?_eq_some_iff_getElem.mp hi
    rw [List.length_reverse] at hlt
    rw [List.getElem_reverse] at htest
    obtain ⟨j, hj⟩ := List.mem_iff_getElem?.mp h
    rw [List.getElem?_modify] at hj
    obtain ⟨q, hq, rfl⟩ := Option.map_eq_some_iff.mp hj
    split_ifs with hij
    · subst hij
      obtain ⟨hlt', rfl⟩ := List.getElem?_eq_some_iff.mp hq
      exact Or.inr ⟨_, List.getElem_mem hlt', eq_of_beq htest, rfl⟩
    · exact Or.inl (List.mem_of_getElem? hq)

/-- The processes that are involved in requests are in the subsystem. -/
theorem mem_involved {nonsending : List String} {procs : List Procinfo} {ss label : String}
    (h : label ∈ processes_involved_in_requests nonsending procs ss) :
    ∃ q ∈ procs, q.subsystem = ss ∧ q.label = label := by
  unfold processes_involved_in_requests at h
  obtain ⟨q, hq, rfl⟩ := List.mem_map.mp h
  have hsubsystem : q ∈ procs.filter fun p => p.subsystem == ss := by
    rcases List.mem_append.mp hq with hq | hq <;> exact (List.mem_filter.mp hq).1
  obtain ⟨hmem, htest⟩ := List.mem_filter.mp hsubsystem
  exact ⟨q, hmem, eq_of_beq htest, rfl⟩

/-- The address for the requests of a subsystem changes documents in this subsystem only. -/
theorem bookkeep_multicast_frame {nonsending : List String} {seen : List (String × List String)}
    {procs procs' : List Procinfo} {ss : String} (hlabels : (procs.map Procinfo.label).Nodup)
    (h : self.bookkeep_multicast nonsending seen procs ss = .ok procs') :
    ∀ p ∈ procs', p ∈ procs ∨ p.subsystem = ss := by
  unfold bookkeep_multicast at h
  split_ifs at h
  · rw [← Except.ok.inj h]
    exact fun p hp => Or.inl hp
  · split at h
    · rw [← Except.ok.inj h]
      exact fun p hp => Or.inl hp
    · rename_i first labels hinvolved
      obtain ⟨common, -, rfl⟩ := Loop.map_eq_ok.mp h
      split_ifs
      · have hin : ∀ label ∈ first :: labels, ∃ q ∈ procs, q.subsystem = ss ∧ q.label = label := by
          rw [← hinvolved]
          exact fun label hlabel => mem_involved hlabel
        generalize first :: labels = all at hin
        have hloop : ∀ procs₁ : List Procinfo,
            procs₁.map Procinfo.without_document = procs.map Procinfo.without_document →
            (∀ p ∈ procs₁, p ∈ procs ∨ p.subsystem = ss) →
            ∀ p ∈ all.foldl (fun procinfos label => change_document label
              (substitute re_multicast_ip ("multicast_interface_ip: \"" ++
                self.first_network common ++ "\"")) procinfos) procs₁,
              p ∈ procs ∨ p.subsystem = ss := by
          clear hinvolved h
          induction all with
          | nil => exact fun _ _ hprocs => hprocs
          | cons label all ih =>
            intro procs₁ hbare hprocs
            refine ih (fun label' hlabel' => hin label' (List.mem_cons_of_mem label hlabel')) _ ?_ ?_
            · rw [map_without_document_change_document, hbare]
            · intro p hp
              rcases mem_change_document hp with hold | ⟨q, hq, hlabel, hsame⟩
              · exact hprocs p hold
              · obtain ⟨q₀, hq₀, hsubsystem, hlabel₀⟩ := hin label List.mem_cons_self
                have hmem := List.mem_map_of_mem (f := Procinfo.without_document) hq
                rw [hbare] at hmem
                obtain ⟨q₁, hq₁, hsame₁⟩ := List.mem_map.mp hmem
                have hlabel₁ := congrArg Procinfo.label hsame₁
                have hsubsystem₁ := congrArg Procinfo.subsystem (hsame₁.trans hsame.symm)
                obtain rfl := List.inj_on_of_nodup_map hlabels hq₁ hq₀
                  (hlabel₁.trans (hlabel.trans hlabel₀.symm))
                exact Or.inr (hsubsystem₁.symm.trans hsubsystem)
        exact hloop procs rfl fun p hp => Or.inl hp
      · exact fun p hp => Or.inl hp

/-- The processes of a subsystem that the loop has not come to are as they were. -/
structure Untouched (before : List Procinfo) (done : List (String × Subsystem))
    (procs : List Procinfo) : Prop where
  labels : procs.map Procinfo.label = before.map Procinfo.label
  same : ∀ p ∈ procs, p.subsystem ∉ done.map Prod.fst → ∃ q ∈ before,
    p.static = q.static ∧ p.document = q.document

theorem Untouched.step {nonsending : List String} {seen : List (String × List String)}
    {before : List Procinfo} (hlabels : (before.map Procinfo.label).Nodup)
    {done : List (String × Subsystem)} {entry : String × Subsystem}
    {s s' : Routes × List Procinfo} (h : Untouched before done s.2)
    (hstep : self.route_subsystem nonsending seen s entry = .ok s') :
    Untouched before (done ++ [entry]) s'.2 := by
  obtain ⟨routes, -, hstep⟩ := Loop.bind_eq_ok.mp hstep
  obtain ⟨procs', hmulticast, hstep⟩ := Loop.bind_eq_ok.mp hstep
  obtain rfl := Except.ok.inj hstep
  have hset : (s.2.map Procinfo.with_target).map Procinfo.label = before.map Procinfo.label := by
    rw [List.map_map, ← h.labels]
    exact List.map_congr_left fun p _ => with_target_label p
  have hbare := congrArg (List.map Procinfo.label) (bookkeep_multicast_ok hmulticast)
  simp only [List.map_map] at hbare
  refine ⟨?_, ?_⟩
  · rw [← hset, List.map_map]
    exact hbare
  · intro p hp hnot
    rw [List.map_append, List.mem_append, not_or] at hnot
    rcases bookkeep_multicast_frame (hset ▸ hlabels) hmulticast p hp with hold | hsubsystem
    · obtain ⟨q, hq, rfl⟩ := List.mem_map.mp hold
      rw [with_target_subsystem] at hnot
      obtain ⟨q₀, hq₀, hstatic, hdocument⟩ := h.same q hq hnot.1
      exact ⟨q₀, hq₀, (static_with_target q).trans hstatic, by rw [with_target_document, hdocument]⟩
    · exact absurd (List.mem_singleton.mpr hsubsystem) hnot.2

/-- The same processes are involved in the requests of a subsystem when the BoardReaders that state
a mode of requests are left out alike. -/
theorem involved_congr {nonsending nonsending' : List String} {procs : List Procinfo} {ss : String}
    (h : ∀ p ∈ procs, p.subsystem = ss → p.name = .BoardReader → StatesRequests p.document →
      (p.label ∈ nonsending' ↔ p.label ∈ nonsending)) :
    processes_involved_in_requests nonsending' procs ss =
      processes_involved_in_requests nonsending procs ss := by
  unfold processes_involved_in_requests
  dsimp only
  congr 2
  refine List.filter_congr fun p hp => ?_
  obtain ⟨hmem, hsubsystem⟩ := List.mem_filter.mp hp
  by_cases hname : p.name = .BoardReader
  · cases hstates : request_modes.any fun re => found re p.document with
    | false => rw [Bool.and_false, Bool.and_false]
    | true => rw [decide_eq_decide.mpr (not_congr (h p hmem (eq_of_beq hsubsystem) hname hstates))]
  · rw [beq_false_of_ne hname, Bool.false_and, Bool.false_and, Bool.false_and, Bool.false_and]

/-- The loop over the subsystems does the same with the targets written out. -/
theorem route_subsystems_retargeted {nonsending nonsending' : List String}
    {seen : List (String × List String)} (hlabels : (self.procinfos.map Procinfo.label).Nodup)
    (hnames : self.names.Nodup) (hnone : self.subsystems ≠ [])
    (h : self.disable_private_network_bookkeeping = false → ∀ p ∈ self.procinfos,
      p.name = .BoardReader → p.subsystem ∈ self.names → StatesRequests p.document →
      (p.label ∈ nonsending' ↔ p.label ∈ nonsending)) :
    self.retargeted.route_subsystems nonsending' seen = self.route_subsystems nonsending seen := by
  have hsetset : ∀ procs : List Procinfo, (procs.map Procinfo.with_target).map
      Procinfo.with_target = procs.map Procinfo.with_target := by
    intro procs
    rw [List.map_map]
    exact List.map_congr_left fun p _ => with_target_with_target p
  have hfirst : self.retargeted.route_subsystems nonsending' seen =
      self.route_subsystems nonsending' seen := by
    show self.subsystems.foldlM (self.route_subsystem nonsending' seen)
        (⟨[], [], 0⟩, self.procinfos.map Procinfo.with_target) =
      self.subsystems.foldlM (self.route_subsystem nonsending' seen) (⟨[], [], 0⟩, self.procinfos)
    cases hsubsystems : self.subsystems with
    | nil => exact absurd hsubsystems hnone
    | cons entry rest =>
      rw [List.foldlM_cons, List.foldlM_cons]
      congr 1
      unfold route_subsystem
      rw [hsetset]
  rw [hfirst]
  refine Loop.foldlM_congr
    (P := fun done s => Untouched self.procinfos done s.2) ?_ ⟨rfl, fun p hp _ => ⟨p, hp, rfl, rfl⟩⟩
  intro done entry rest s hl hdone
  have hnew : entry.1 ∉ done.map Prod.fst := by
    unfold Bookkeeping.names at hnames
    rw [hl, List.map_append, List.nodup_append] at hnames
    intro hmem
    exact hnames.2.2 entry.1 hmem entry.1 List.mem_cons_self rfl
  have hdeclared : entry.1 ∈ self.names := by
    unfold Bookkeeping.names
    rw [hl]
    exact List.mem_map_of_mem (List.mem_append_right done List.mem_cons_self)
  refine ⟨?_, fun s' hstep => hdone.step hlabels hstep⟩
  have hmulticast : self.bookkeep_multicast nonsending' seen (s.2.map Procinfo.with_target) entry.1 =
      self.bookkeep_multicast nonsending seen (s.2.map Procinfo.with_target) entry.1 := by
    unfold bookkeep_multicast
    by_cases hdisabled : self.disable_private_network_bookkeeping = true
    · rw [if_pos hdisabled, if_pos hdisabled]
    · rw [if_neg hdisabled, if_neg hdisabled, involved_congr]
      intro p hp hsubsystem hname hstates
      obtain ⟨q, hq, rfl⟩ := List.mem_map.mp hp
      rw [with_target_subsystem] at hsubsystem
      obtain ⟨q₀, hq₀, hstatic, hdocument⟩ := hdone.same q hq (hsubsystem ▸ hnew)
      have hname₀ : q₀.name = .BoardReader := by
        rw [← static_name, ← hstatic, static_name, ← with_target_name, hname]
      have hsubsystem₀ : q₀.subsystem = entry.1 := by
        rw [← static_subsystem, ← hstatic, static_subsystem, hsubsystem]
      have hlabel₀ : q₀.label = q.with_target.label := by
        rw [← static_label, ← hstatic, static_label, with_target_label]
      rw [with_target_document, hdocument] at hstates
      rw [← hlabel₀]
      exact h (Bool.eq_false_iff.mpr hdisabled) q₀ hq₀ hname₀ (hsubsystem₀ ▸ hdeclared) hstates
  unfold route_subsystem
  dsimp only
  rw [hmulticast]

theorem parents_retargeted : self.retargeted.parents_of_subsystems_with_routing_managers =
    self.parents_of_subsystems_with_routing_managers := by
  have hfilter : self.retargeted.procinfos.filter (fun p => p.name == .RoutingManager) =
      (self.procinfos.filter fun p => p.name == .RoutingManager).map Procinfo.with_target :=
    Bookkeeping.filter_map_with_target (fun p => by rw [with_target_name]) self.procinfos
  unfold parents_of_subsystems_with_routing_managers
  rw [hfilter]
  refine Loop.foldlM_map_eq (fun p _ parents => ?_) []
  rw [with_target_subsystem]
  rfl

/-- The tables of a process change nothing but its document. -/
theorem bookkeep_router_tables_without_document {routes : Routes} {parents : List String}
    {p p' : Procinfo} (h : self.bookkeep_router_tables routes parents p = .ok p') :
    p'.without_document = p.without_document := by
  refine Loop.foldlM_induct (P := fun (_ : List RouterTable) (p' : Procinfo) =>
    p'.without_document = p.without_document) ?_ rfl h
  intro _ table q q' hq hstep
  obtain ⟨-, document, rfl⟩ := bookkeep_table_ok hstep
  exact hq

/-- Without subsystems the part on router processes goes through no table of a router process. -/
theorem bookkeep_router_tables_no_subsystems (hnone : self.subsystems = []) {routes : Routes}
    {parents : List String} {p : Procinfo}
    (hp : get_router_process_identifier p ≠ some .RoutingManager) :
    self.bookkeep_router_tables routes parents p.with_target =
      (self.bookkeep_router_tables routes parents p).map Procinfo.with_target := by
  cases hidentifier : get_router_process_identifier p with
  | none =>
    have hself : ∀ q : Procinfo, get_router_process_identifier q = none → q.with_target = q := by
      intro q hq
      refine if_neg fun hunset => ?_
      rw [hq] at hunset
      simp at hunset
    rw [hself p hidentifier]
    cases hresult : self.bookkeep_router_tables routes parents p with
    | error e => rfl
    | ok p' =>
      have hbare := congrArg get_router_process_identifier
        (bookkeep_router_tables_without_document hresult)
      show Except.ok p' = Except.ok p'.with_target
      rw [hself p' (hbare.trans hidentifier)]
  | some router =>
    cases router with
    | RoutingManager => exact absurd hidentifier hp
    | DFO =>
      have haddress : ∀ (q : Procinfo) (target : String), q.subsystem = p.subsystem →
          self.router_address routes q ⟨.destination, "art", target⟩ =
            .error ("KeyError: '" ++ p.subsystem ++ "'") := by
        intro q target hq
        unfold router_address routed_subsystem getitem
        rw [hnone, hq]
        rfl
      have htables : ∀ q : Procinfo, get_router_process_identifier q = some .DFO →
          self.bookkeep_router_tables routes parents q =
            self.bookkeep_table_for_router_process routes q ⟨.destination, "art", q.target⟩ := by
        intro q hq
        unfold bookkeep_router_tables router_tables
        rw [hq]
        exact bind_pure _
      rw [htables p hidentifier, htables p.with_target
        ((get_router_process_identifier_with_target p).trans hidentifier)]
      unfold bookkeep_table_for_router_process
      rw [haddress p p.target rfl, haddress p.with_target p.with_target.target
        (with_target_subsystem p), with_target_document, with_target_label]
      refine Loop.bind_same_eq rfl fun range _ => ?_
      refine Loop.bind_same_eq rfl fun again _ => ?_
      split_ifs <;> rfl

/-- The part on router processes does the same with the targets written out. -/
theorem bookkeep_routers_retargeted {nonsending nonsending' : List String}
    {seen : List (String × List String)} (hlabels : (self.procinfos.map Procinfo.label).Nodup)
    (hnames : self.names.Nodup)
    (h : self.disable_private_network_bookkeeping = false → ∀ p ∈ self.procinfos,
      p.name = .BoardReader → p.subsystem ∈ self.names → StatesRequests p.document →
      (p.label ∈ nonsending' ↔ p.label ∈ nonsending)) :
    self.retargeted.bookkeep_routers nonsending' seen =
      (self.bookkeep_routers nonsending seen).map (List.map Procinfo.with_target) := by
  unfold bookkeep_routers
  by_cases hnone : self.subsystems = []
  · have hroute : ∀ (bookkeeper : Bookkeeper) (labels : List String), bookkeeper.subsystems = [] →
        bookkeeper.route_subsystems labels seen = .ok (⟨[], [], 0⟩, bookkeeper.procinfos) := by
      intro bookkeeper labels hsubsystems
      unfold route_subsystems
      rw [hsubsystems]
      rfl
    rw [hroute self.retargeted _ hnone, hroute self _ hnone]
    show (self.retargeted.parents_of_subsystems_with_routing_managers >>= fun parents =>
        (self.procinfos.map Procinfo.with_target).mapM
          (self.bookkeep_router_tables ⟨[], [], 0⟩ parents)) =
      Except.map _ (self.parents_of_subsystems_with_routing_managers >>= fun parents =>
        self.procinfos.mapM (self.bookkeep_router_tables ⟨[], [], 0⟩ parents))
    refine Loop.bind_same_eq parents_retargeted fun parents hparents => ?_
    refine Loop.mapM_map_eq fun p hp => bookkeep_router_tables_no_subsystems hnone fun hmanager => ?_
    obtain ⟨info, hentry⟩ := (parents_ok hparents).2 p hp (routing_manager_iff.mp hmanager)
    rw [hnone] at hentry
    exact List.not_mem_nil hentry
  · refine Loop.bind_same_eq (route_subsystems_retargeted hlabels hnames hnone h) ?_
    rintro ⟨routes, procinfos⟩ hrouted
    refine Loop.bind_same_eq parents_retargeted fun parents _ => ?_
    have htargets := (route_subsystems_ok hrouted).2.2 hnone
    show procinfos.mapM (self.bookkeep_router_tables routes parents) = _
    cases hresult : procinfos.mapM (self.bookkeep_router_tables routes parents) with
    | error e => rfl
    | ok result =>
      have hset : result.map Procinfo.with_target = result.map id := by
        refine List.map_congr_left fun p' hp' => ?_
        obtain ⟨p, hp, hwritten⟩ := Recursion.exists_of_forall₂ (Loop.mapM_eq_ok.mp hresult) hp'
        have hbare := bookkeep_router_tables_without_document hwritten
        rw [← htargets p hp] at hbare
        exact with_target_eq_self hbare
      show Except.ok result = Except.ok (result.map Procinfo.with_target)
      rw [hset, List.map_id]

theorem rewrite_ok {change : Procinfo → Except String (List Char)} {self₁ : Bookkeeper}
    (h : self.rewrite change = .ok self₁) :
    ∃ procs, self₁ = self.with_procinfos procs ∧ List.Forall₂ (fun p p₁ => ∃ document,
      change p = .ok document ∧ p₁ = p.with_document (String.ofList document))
      self.procinfos procs := by
  obtain ⟨procs, hprocs, rfl⟩ := Loop.map_eq_ok.mp h
  refine ⟨procs, rfl, (Loop.mapM_eq_ok.mp hprocs).imp fun p p₁ hp => ?_⟩
  obtain ⟨document, hdocument, rfl⟩ := Loop.map_eq_ok.mp hp
  exact ⟨document, hdocument, rfl⟩

/-- A pass changes neither the labels nor what is not a process. -/
theorem rewrite_keeps {change : Procinfo → Except String (List Char)} {self₁ : Bookkeeper}
    (h : self.rewrite change = .ok self₁) :
    self₁.procinfos.map Procinfo.label = self.procinfos.map Procinfo.label ∧
      self₁.with_procinfos [] = self.with_procinfos [] := by
  obtain ⟨procs, rfl, hprocs⟩ := rewrite_ok h
  refine ⟨?_, rfl⟩
  rw [← List.forall₂_eq_eq_eq, List.forall₂_map_left_iff, List.forall₂_map_right_iff]
  refine hprocs.flip.imp fun p₁ p hp => ?_
  obtain ⟨document, -, rfl⟩ := hp
  rfl

theorem write_rest_retargeted :
    self.retargeted.write_rest = self.write_rest.map (List.map Procinfo.with_target) := by
  unfold write_rest
  refine Loop.bind_map_eq retargeted
    (rewrite_retargeted fun p _ => set_first_logger_rank_retargeted p) fun self₁ _ => ?_
  refine Loop.bind_map_eq retargeted
    (rewrite_retargeted fun p _ => set_data_directory_retargeted p) fun self₂ _ => ?_
  refine Loop.bind_map_eq retargeted
    (rewrite_retargeted fun p _ => set_overwrites_retargeted p) fun self₃ _ => ?_
  exact write_init_fragment_counts_with_target self₃.subsystems self₃.procinfos

/-- The second part of the bookkeeping writes the same documents with the targets written out,
where the targets are settled. -/
theorem write_parameters_retargeted (hlabels : (self.procinfos.map Procinfo.label).Nodup)
    (hnames : self.names.Nodup) (hsettled : self.TargetsSettled c) :
    self.retargeted.write_parameters c =
      (self.write_parameters c).map (List.map Procinfo.with_target) := by
  unfold write_parameters
  refine Loop.bind_map_eq retargeted
    (rewrite_retargeted fun p _ => set_parameters_retargeted p) fun self₁ hself₁ => ?_
  refine Loop.bind_same_eq private_networks_seen_retargeted fun seen _ => ?_
  have hlabels₁ := (rewrite_keeps hself₁).1
  obtain ⟨procs, rfl, hprocs⟩ := rewrite_ok hself₁
  have hroutes := @bookkeep_routers_retargeted (self.with_procinfos procs)
    self.nonsending_boardreaders self.retargeted.nonsending_boardreaders seen
    (hlabels₁ ▸ hlabels) hnames ?_
  · refine Loop.bind_map_eq (List.map Procinfo.with_target) hroutes fun procs₂ _ => ?_
    exact @write_rest_retargeted ((self.with_procinfos procs).with_procinfos procs₂)
  · intro hnetworks p₁ hp₁ hname hsubsystem hstates
    obtain ⟨p, hp, document, hdocument, rfl⟩ := Recursion.exists_of_forall₂ hprocs hp₁
    exact @nonsending_iff self c hsettled hnetworks hlabels p hp hname hsubsystem document
      hdocument hstates

theorem write_tables_ok {scale : ℤ → Except String ℤ} {turns : ℕ} {written : Bookkeeper}
    (h : self.write_tables scale turns = .ok (c, written)) :
    written.procinfos.map Procinfo.label = self.procinfos.map Procinfo.label ∧
      written.with_procinfos [] = self.with_procinfos [] := by
  obtain ⟨c', -, h⟩ := Loop.bind_eq_ok.mp h
  obtain ⟨self₁, hself₁, h⟩ := Loop.bind_eq_ok.mp h
  obtain ⟨self₂, hself₂, h⟩ := Loop.bind_eq_ok.mp h
  obtain ⟨-, -, h⟩ := Loop.bind_eq_ok.mp h
  obtain ⟨-, -, h⟩ := Loop.bind_eq_ok.mp h
  obtain ⟨self₃, hself₃, h⟩ := Loop.bind_eq_ok.mp h
  obtain ⟨-, rfl⟩ := Prod.mk.inj (Except.ok.inj h)
  have h₁ := rewrite_keeps hself₁
  have h₂ := rewrite_keeps hself₂
  have h₃ := rewrite_keeps hself₃
  exact ⟨h₃.1.trans (h₂.1.trans h₁.1), h₃.2.trans (h₂.2.trans h₁.2)⟩

/-- Where the targets are settled once the tables are written, the bookkeeping writes the same
documents with the target of each router process written out. -/
theorem targets_default {scale : ℤ → Except String ℤ} {turns : ℕ}
    (hlabels : (self.procinfos.map Procinfo.label).Nodup) (hnames : self.names.Nodup)
    (hsettled : ∀ c written, self.write_tables scale turns = .ok (c, written) →
      written.TargetsSettled c) :
    (self.retargeted.bookkeeping_for_fhicl_documents scale turns).map
        (List.map Procinfo.fhicl_used) =
      (self.bookkeeping_for_fhicl_documents scale turns).map (List.map Procinfo.fhicl_used) := by
  have hboth : self.retargeted.bookkeeping_for_fhicl_documents scale turns =
      (self.bookkeeping_for_fhicl_documents scale turns).map (List.map Procinfo.with_target) := by
    unfold bookkeeping_for_fhicl_documents
    refine Loop.bind_map_eq _ (write_tables_retargeted scale turns) ?_
    rintro ⟨c, written⟩ hwritten
    obtain ⟨hkept, hothers⟩ := write_tables_ok hwritten
    have hdeclared : (written.with_procinfos []).names = (self.with_procinfos []).names := by
      rw [hothers]
    exact write_parameters_retargeted (hkept ▸ hlabels) (hdeclared ▸ hnames)
      (hsettled c written hwritten)
  rw [hboth]
  cases self.bookkeeping_for_fhicl_documents scale turns with
  | error e => rfl
  | ok procs =>
    show Except.ok _ = Except.ok _
    rw [List.map_map]
    congr 1
    exact List.map_congr_left fun p _ => with_target_fhicl_used p

/-! ### Documents that the first parts leave as they are -/

theorem eq_of_procinfos {b b' : Bookkeeper} (h : b.procinfos = b'.procinfos)
    (hkept : b.with_procinfos [] = b'.with_procinfos []) : b = b' :=
  calc b = (b.with_procinfos []).with_procinfos b.procinfos := rfl
    _ = (b'.with_procinfos []).with_procinfos b'.procinfos := by rw [hkept, h]

theorem tables_kept {scale : ℤ → Except String ℤ} {turns : ℕ} {counts : List (String × ℕ)}
    (h : (self.write_tables scale turns).toOption.any (fun r =>
      r.2.procinfos == self.procinfos && r.1.expected_fragments_per_event == counts) = true) :
    ∃ c, self.write_tables scale turns = .ok (c, self) ∧
      c.expected_fragments_per_event = counts := by
  obtain ⟨⟨c, written⟩, hwritten, hr⟩ := Loop.exists_of_any h
  obtain ⟨hprocinfos, hcounts⟩ := Bool.and_eq_true_iff.mp hr
  have hsame : written = self :=
    eq_of_procinfos (eq_of_beq hprocinfos) (write_tables_ok hwritten).2
  rw [hsame] at hwritten
  exact ⟨c, hwritten, eq_of_beq hcounts⟩

theorem parameters_kept (h : (self.rewrite (self.set_parameters c)).toOption.any
      (fun r => r.procinfos == self.procinfos) = true) :
    self.rewrite (self.set_parameters c) = .ok self := by
  obtain ⟨written, hwritten, hr⟩ := Loop.exists_of_any h
  rw [hwritten, eq_of_procinfos (eq_of_beq hr) (rewrite_keeps hwritten).2]

/-- The parameters depend on the numbers of fragments only. -/
theorem set_parameters_congr {c c' : Bookkeeping.Computed}
    (h : c.expected_fragments_per_event = c'.expected_fragments_per_event) :
    self.set_parameters c = self.set_parameters c' := by
  funext p
  unfold set_parameters
  rw [h]

/-- The processes after the bookkeeping of the router processes. -/
def routers_written (self : Bookkeeper) : Except String (List Procinfo) := do
  let seen ← self.private_networks_seen
  self.bookkeep_routers self.nonsending_boardreaders seen

theorem write_parameters_of_kept {procs : List Procinfo} {kept : Bookkeeper}
    (hkept : self.rewrite (self.set_parameters c) = .ok kept)
    (hnonsending : kept.nonsending_boardreaders = self.nonsending_boardreaders)
    (h : kept.routers_written = .ok procs) :
    self.write_parameters c = (kept.with_procinfos procs).write_rest := by
  obtain ⟨seen, hseen, hrouters⟩ := Loop.bind_eq_ok.mp h
  rw [hnonsending] at hrouters
  have hrest : (do
      let seen ← kept.private_networks_seen
      let procinfos ← kept.bookkeep_routers self.nonsending_boardreaders seen
      (kept.with_procinfos procinfos).write_rest) = (kept.with_procinfos procs).write_rest := by
    rw [hseen]
    show (kept.bookkeep_routers self.nonsending_boardreaders seen >>= _) = _
    rw [hrouters]
    rfl
  unfold write_parameters
  rw [hkept]
  exact hrest

theorem bookkeeping_of_kept {scale : ℤ → Except String ℤ} {turns : ℕ} {c' : Bookkeeping.Computed}
    {procs procs' : List Procinfo}
    (htables : ∃ c, self.write_tables scale turns = .ok (c, self) ∧
      c.expected_fragments_per_event = c'.expected_fragments_per_event)
    (hparameters : self.rewrite (self.set_parameters c') = .ok self)
    (h : self.routers_written = .ok procs) (h' : self.retargeted.routers_written = .ok procs') :
    self.bookkeeping_for_fhicl_documents scale turns = (self.with_procinfos procs).write_rest ∧
      self.retargeted.bookkeeping_for_fhicl_documents scale turns =
        (self.retargeted.with_procinfos procs').write_rest := by
  obtain ⟨c, hwritten, hcounts⟩ := htables
  have hkept : self.rewrite (self.set_parameters c) = .ok self := by
    rw [set_parameters_congr hcounts, hparameters]
  have hretargeted : self.retargeted.rewrite (self.retargeted.set_parameters c) =
      .ok self.retargeted := by
    rw [rewrite_retargeted fun p _ => set_parameters_retargeted p, hkept]
    rfl
  constructor
  · unfold bookkeeping_for_fhicl_documents
    rw [hwritten]
    exact write_parameters_of_kept hkept rfl h
  · unfold bookkeeping_for_fhicl_documents
    rw [write_tables_retargeted, hwritten]
    exact write_parameters_of_kept hretargeted rfl h'

theorem rewrite_self {change : Procinfo → Except String (List Char)}
    (h : ∀ p ∈ self.procinfos, change p = .ok p.document.toList ∧ p.fhicl_used.isSome = true) :
    self.rewrite change = .ok self := by
  have hall : (self.procinfos.mapM fun p => (change p).map fun document =>
      p.with_document (String.ofList document)) = .ok self.procinfos := by
    refine Loop.mapM_eq_ok.mpr (List.forall₂_same.mpr fun p hp => ?_)
    obtain ⟨hchange, hsome⟩ := h p hp
    obtain ⟨document, hdocument⟩ := Option.isSome_iff_exists.mp hsome
    have hsame : p.with_document p.document = p := by
      unfold Procinfo.with_document Procinfo.document
      rw [hdocument]
      cases p
      cases hdocument
      rfl
    rw [hchange]
    show Except.ok (p.with_document (String.ofList p.document.toList)) = Except.ok p
    rw [String.ofList_toList, hsame]
  unfold rewrite
  rw [hall]
  rfl

/-- Without root files and without values from the boot file only the counts of initial fragments
are left to be written. -/
theorem write_rest_of_kept (hroot : ∀ p ∈ self.procinfos,
      fhicl_writes_root_file p.document = false ∧ p.fhicl_used.isSome = true)
    (hdirectory : self.data_directory_override = none)
    (hoverwrites : self.bootfile_fhicl_overwrites = []) :
    self.write_rest = write_init_fragment_counts self.subsystems self.procinfos := by
  have hrank : self.rewrite self.set_first_logger_rank = .ok self := by
    refine rewrite_self fun p hp => ⟨?_, (hroot p hp).2⟩
    unfold set_first_logger_rank
    rw [(hroot p hp).1]
    rfl
  have hdata : self.rewrite self.set_data_directory = .ok self := by
    refine rewrite_self fun p hp => ⟨?_, (hroot p hp).2⟩
    unfold set_data_directory
    rw [hdirectory]
  have hvalues : self.rewrite self.set_overwrites = .ok self := by
    refine rewrite_self fun p hp => ⟨?_, (hroot p hp).2⟩
    unfold set_overwrites
    rw [hoverwrites]
    rfl
  unfold write_rest
  rw [hrank]
  show (self.rewrite self.set_data_directory >>= _) = _
  rw [hdata]
  show (self.rewrite self.set_overwrites >>= _) = _
  rw [hvalues]
  rfl

/-! ### A process that is left out -/

/-- A BoardReader that sends nothing on and states a mode of requests, and a RoutingManager without
a target. -/
def silent_reader : Bookkeeper :=
  { two_subsystems
      [labelled .BoardReader "BoardReader1" "1" "not set" ("\nsends_no_fragments:true\n" ++
        "request_mode:window\nmulticast_interface_ip:x\nmessage:\x7bdestinations:\x7b\x7d\x7d\n"),
      labelled .RoutingManager "RoutingManager1" "1" "not set" "daq:\x7b\x7d\n"] with
    disable_private_network_bookkeeping := false
    get_private_networks := fun _ => .ok ["192.168.1.5"]
    first_network := fun _ => "192.168.1.0" }

/-- Without private networks the targets may be written out. -/
theorem target_without_networks :
    ((two_subsystems silent_reader.procinfos).retargeted.bookkeeping_for_fhicl_documents .ok 5).map
        (List.map Procinfo.fhicl_used) =
      ((two_subsystems silent_reader.procinfos).bookkeeping_for_fhicl_documents .ok 5).map
        (List.map Procinfo.fhicl_used) := by
  refine targets_default (by decide) (by decide) fun c written hwritten => .inl ?_
  exact congrArg disable_private_network_bookkeeping (write_tables_ok hwritten).2

/-- What is computed where no fragments are expected. -/
def no_fragments : Bookkeeping.Computed :=
  ⟨[], ⟨fun _ => 0, fun _ => [], []⟩, [("1", 0), ("2", 0)], [], []⟩

/-- The processes behind the bookkeeping of the router process, which is given its target then. -/
def silent_procs (parameters : String) : List Procinfo :=
  (silent_reader.procinfos.map Procinfo.with_target).zipWith Procinfo.with_document
    ["\nsends_no_fragments:true\nrequest_mode:window\n" ++ parameters ++
      "\nmessage:\x7bdestinations:\x7b\x7d\x7d\n", "\ndaq:\x7b\x7d\n\n"]

theorem silent_reader_routers : silent_reader.routers_written =
    .ok (silent_procs "multicast_interface_ip: \"192.168.1.0\"") := by
  decide +kernel

theorem silent_reader_retargeted_routers : silent_reader.retargeted.routers_written =
    .ok (silent_procs "multicast_interface_ip:x") := by
  decide +kernel

theorem silent_procs_kept (parameters : String) (b : Bookkeeper)
    (hroot : ∀ p ∈ silent_procs parameters,
      fhicl_writes_root_file p.document = false ∧ p.fhicl_used.isSome = true)
    (hcounts : write_init_fragment_counts b.subsystems (silent_procs parameters) =
      .ok (silent_procs parameters)) (hdirectory : b.data_directory_override = none)
    (hoverwrites : b.bootfile_fhicl_overwrites = []) :
    (b.with_procinfos (silent_procs parameters)).write_rest = .ok (silent_procs parameters) := by
  have hrest : (b.with_procinfos (silent_procs parameters)).write_rest =
      write_init_fragment_counts b.subsystems (silent_procs parameters) :=
    write_rest_of_kept hroot hdirectory hoverwrites
  exact hrest.trans hcounts

/-- The address for requests is written into the document of the BoardReader, but not where the
target is written out: the BoardReader is then left out. -/
theorem silent_reader_addressed :
    (silent_reader.retargeted.bookkeeping_for_fhicl_documents .ok 5).map
        (List.map Procinfo.fhicl_used) ≠
      (silent_reader.bookkeeping_for_fhicl_documents .ok 5).map (List.map Procinfo.fhicl_used) := by
  have htables : ∃ c, silent_reader.write_tables .ok 5 = .ok (c, silent_reader) ∧
      c.expected_fragments_per_event = no_fragments.expected_fragments_per_event :=
    tables_kept (by decide +kernel)
  have hparameters : silent_reader.rewrite (silent_reader.set_parameters no_fragments) =
      .ok silent_reader := parameters_kept (by decide +kernel)
  obtain ⟨hplain, htargeted⟩ := bookkeeping_of_kept htables hparameters silent_reader_routers
    silent_reader_retargeted_routers
  rw [hplain, htargeted,
    silent_procs_kept _ silent_reader (by decide +kernel) (by decide +kernel) rfl rfl,
    silent_procs_kept _ silent_reader.retargeted (by decide +kernel) (by decide +kernel) rfl rfl]
  intro heq
  have hdocuments : (silent_procs "multicast_interface_ip:x").map Procinfo.fhicl_used ≠
      (silent_procs "multicast_interface_ip: \"192.168.1.0\"").map Procinfo.fhicl_used := by
    decide +kernel
  exact hdocuments (Except.ok.inj heq)

end Bookkeeper

end DaqInterface
