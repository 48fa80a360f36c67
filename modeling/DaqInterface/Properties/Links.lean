import DaqInterface.Model.Transfers
import DaqInterface.Properties.Fragments

/-!
# Links between processes

Who sends data to whom is said in two tables: the destinations of the sender and the sources
of the receiver.  `Linked` is the relation that both of them write down
(`linked_iff_destination`, `linked_iff_source`), so the tables agree
(`destinations_agree_with_sources`).
-/

namespace DaqInterface

namespace Bookkeeping

variable {self : Bookkeeping} {c : Computed}

/-! ## Who sends to whom -/

/-- The process `p` sends data to the process `q`. -/
def Linked (self : Bookkeeping) (p q : Procinfo) : Prop :=
  match p.name, q.name with
  | .BoardReader, .EventBuilder => p.subsystem = q.subsystem
  | .EventBuilder, .EventBuilder => self.destination_of p.subsystem = some q.subsystem
  | .EventBuilder, .DataLogger => p.subsystem = q.subsystem
  | .EventBuilder, .Dispatcher =>
    p.subsystem = q.subsystem ∧ self.subsystem_has_dataloggers p.subsystem = false
  | .DataLogger, .Dispatcher => p.subsystem = q.subsystem
  | _, _ => False

@[simp] theorem mem_sort_by_rank {procs : List Procinfo} {p : Procinfo} :
    p ∈ sort_by_rank procs ↔ p ∈ procs := List.mem_insertionSort _

theorem mem_procinfos_by_ss_type {ss : String} {name : ProcType} {p : Procinfo} :
    p ∈ self.procinfos_by_ss_type ss name ↔
      p ∈ self.procinfos ∧ p.subsystem = ss ∧ p.name = name := by
  simp [procinfos_by_ss_type, procinfos_sorted_by_rank]

theorem mem_inter_ss_eb_destinations {ss : String} {q : Procinfo} :
    q ∈ self.inter_ss_eb_destinations ss ↔
      self.destination_of ss = some q.subsystem ∧ q.subsystem ≠ "" ∧
        q ∈ self.procinfos ∧ q.name = .EventBuilder := by
  unfold inter_ss_eb_destinations
  split
  · rename_i dest_ss hdest
    rw [hdest, Option.some.injEq]
    by_cases hempty : dest_ss = ""
    · subst hempty
      rw [if_neg (by simp)]
      constructor
      · exact fun h => absurd h List.not_mem_nil
      · rintro ⟨hss, hne, -⟩
        exact absurd hss.symm hne
    · rw [if_pos hempty, mem_procinfos_by_ss_type]
      constructor
      · rintro ⟨hmem, rfl, hname⟩
        exact ⟨rfl, hempty, hmem, hname⟩
      · rintro ⟨rfl, -, hmem, hname⟩
        exact ⟨hmem, rfl, hname⟩
  · rename_i hdest
    simp [hdest]

/-- Only declared subsystems have a destination. -/
theorem mem_names_of_destination {ss dest_ss : String}
    (h : self.destination_of ss = some dest_ss) : ss ∈ self.names := by
  obtain ⟨info, hinfo, -⟩ := Option.bind_eq_some_iff.mp h
  exact List.mem_map.mpr ⟨_, Dict.mem_of_lookup hinfo, rfl⟩

theorem mem_inter_ss_eb_sources {ss : String} {p : Procinfo} :
    p ∈ self.inter_ss_eb_sources ss ↔
      ss ∈ self.names ∧ p ∈ self.procinfos ∧ p.name = .EventBuilder ∧
        self.destination_of p.subsystem = some ss := by
  unfold inter_ss_eb_sources
  split_ifs with hss
  · rw [mem_sort_by_rank, List.mem_flatMap]
    constructor
    · rintro ⟨other_ss, -, hp⟩
      split_ifs at hp with hdest
      · obtain ⟨hmem, rfl, hname⟩ := mem_procinfos_by_ss_type.mp hp
        exact ⟨hss, hmem, hname, hdest⟩
      · exact absurd hp List.not_mem_nil
    · rintro ⟨-, hmem, hname, hdest⟩
      refine ⟨p.subsystem, mem_names_of_destination hdest, ?_⟩
      rw [if_pos hdest]
      exact mem_procinfos_by_ss_type.mpr ⟨hmem, rfl, hname⟩
  · simp [hss]

/-- The destinations inside the subsystem of a process. -/
theorem mem_inside_destinations {p q : Procinfo} :
    q ∈ self.procinfos_inside p .destinations ↔
      q ∈ self.procinfos ∧ self.Linked p q ∧ ¬ (p.name = .EventBuilder ∧ q.name = .EventBuilder) := by
  unfold procinfos_inside Linked
  cases hp : p.name <;> cases hq : q.name <;>
    cases hlog : self.subsystem_has_dataloggers p.subsystem <;>
    simp [mem_procinfos_by_ss_type, hq, eq_comm]

/-- The sources inside the subsystem of a process. -/
theorem mem_inside_sources {p q : Procinfo} :
    p ∈ self.procinfos_inside q .sources ↔
      p ∈ self.procinfos ∧ self.Linked p q ∧ ¬ (p.name = .EventBuilder ∧ q.name = .EventBuilder) := by
  unfold procinfos_inside Linked
  cases hp : p.name <;> cases hq : q.name <;>
    simp only [mem_procinfos_by_ss_type, mem_sort_by_rank, List.mem_append, hp]
  all_goals
    by_cases hss : p.subsystem = q.subsystem
    · cases hlog : self.subsystem_has_dataloggers q.subsystem <;>
        simp [mem_procinfos_by_ss_type, hp, hss, hlog]
    · cases hlog : self.subsystem_has_dataloggers q.subsystem <;>
        simp [mem_procinfos_by_ss_type, hp, hss]

theorem linked_builders {p q : Procinfo} (hp : p.name = .EventBuilder)
    (hq : q.name = .EventBuilder) :
    self.Linked p q ↔ self.destination_of p.subsystem = some q.subsystem := by
  simp [Linked, hp, hq]

/-- What stands in the destinations of a process in an output to another subsystem. -/
theorem mem_outer_destinations {p q : Procinfo} :
    q ∈ self.procinfos_for_string p .destinations true ↔
      p.name = .EventBuilder ∧ q ∈ self.inter_ss_eb_destinations p.subsystem := by
  unfold procinfos_for_string
  by_cases hp : p.name = .EventBuilder <;> simp [hp]

/-- The destinations of a process are processes that it sends to. -/
theorem linked_of_destination {p q : Procinfo} {inter : Bool}
    (h : q ∈ self.procinfos_for_string p .destinations inter) :
    q ∈ self.procinfos ∧ self.Linked p q := by
  cases inter with
  | false =>
    have hinside : q ∈ self.procinfos_inside p .destinations := by
      simpa [procinfos_for_string] using h
    obtain ⟨hmem, hlink, -⟩ := mem_inside_destinations.mp hinside
    exact ⟨hmem, hlink⟩
  | true =>
    obtain ⟨hp, houter⟩ := mem_outer_destinations.mp h
    obtain ⟨hdest, -, hmem, hq⟩ := mem_inter_ss_eb_destinations.mp houter
    exact ⟨hmem, (linked_builders hp hq).mpr hdest⟩

/-- Where no subsystem has an empty name as its destination, the destinations of a process are
those it sends to. -/
theorem linked_iff_destination
    (hnamed : ∀ ss dest_ss, self.destination_of ss = some dest_ss → dest_ss ≠ "") {p q : Procinfo} :
    (∃ inter, q ∈ self.procinfos_for_string p .destinations inter) ↔
      q ∈ self.procinfos ∧ self.Linked p q := by
  constructor
  · rintro ⟨inter, h⟩
    exact linked_of_destination h
  · rintro ⟨hmem, hlink⟩
    by_cases hboth : p.name = .EventBuilder ∧ q.name = .EventBuilder
    · have hdest := (linked_builders hboth.1 hboth.2).mp hlink
      exact ⟨true, mem_outer_destinations.mpr ⟨hboth.1,
        mem_inter_ss_eb_destinations.mpr ⟨hdest, hnamed _ _ hdest, hmem, hboth.2⟩⟩⟩
    · have hinside := mem_inside_destinations.mpr ⟨hmem, hlink, hboth⟩
      exact ⟨false, by simpa [procinfos_for_string] using hinside⟩

/-- The sources of a process in a declared subsystem are those that send to it. -/
theorem linked_iff_source {p q : Procinfo} (hq : q.subsystem ∈ self.names) :
    p ∈ self.procinfos_for_string q .sources false ↔ p ∈ self.procinfos ∧ self.Linked p q := by
  have hsources : p ∈ self.procinfos_for_string q .sources false ↔
      p ∈ self.procinfos_inside q .sources ∨
        (q.name = .EventBuilder ∧ p ∈ self.inter_ss_eb_sources q.subsystem) := by
    unfold procinfos_for_string
    by_cases hname : q.name = .EventBuilder <;> simp [hname]
  rw [hsources, mem_inside_sources, mem_inter_ss_eb_sources]
  constructor
  · rintro (⟨hmem, hlink, -⟩ | ⟨hname, -, hmem, hp, hdest⟩)
    · exact ⟨hmem, hlink⟩
    · exact ⟨hmem, (linked_builders hp hname).mpr hdest⟩
  · rintro ⟨hmem, hlink⟩
    by_cases hboth : p.name = .EventBuilder ∧ q.name = .EventBuilder
    · exact Or.inr ⟨hboth.2, hq, hmem, hboth.1, (linked_builders hboth.1 hboth.2).mp hlink⟩
    · exact Or.inl ⟨hmem, hlink, hboth⟩

/-! ## The tables -/

/-- The nodes of a table, one for each of its processes. -/
theorem create_nodes_ok {p : Procinfo} {nodetype : NodeType} {max_event_size : ℤ} {inter : Bool}
    {nodes : List Node} (h : self.create_nodes c p nodetype max_event_size inter = .ok nodes) :
    p.subsystem ∈ self.names ∧ ∃ common,
      self.buffer_size_words c p nodetype max_event_size = .ok common ∧
      List.Forall₂ (fun q node => ∃ i, self.create_node c p nodetype common q i = .ok node)
        (self.procinfos_for_string p nodetype inter) nodes := by
  obtain ⟨common, hcommon, h⟩ := Loop.bind_eq_ok.mp h
  obtain ⟨info, hinfo, h⟩ := Loop.bind_eq_ok.mp h
  refine ⟨List.mem_map.mpr ⟨_, Dict.mem_of_lookup (getitem_eq_ok.mp hinfo), rfl⟩, common,
    hcommon, ?_⟩
  have hnodes := Loop.mapM_eq_ok.mp h
  have hprocs : (self.procinfos_for_string p nodetype inter).zipIdx.map Prod.fst =
      self.procinfos_for_string p nodetype inter := List.zipIdx_map_fst _ _
  rw [← hprocs, List.forall₂_map_left_iff]
  exact hnodes.imp fun qi node hnode => ⟨qi.2, hnode⟩

/-- A node bears the rank of its process. -/
theorem create_node_rank {p q : Procinfo} {nodetype : NodeType} {common : ℚ} {i : ℕ} {node : Node}
    (h : self.create_node c p nodetype common q i = .ok node) : node.rank = q.rank := by
  obtain ⟨words, -, h⟩ := Loop.bind_eq_ok.mp h
  split at h
  · cases h
  · rw [← Except.ok.inj h]

theorem ranks_of_nodes {p : Procinfo} {nodetype : NodeType} {max_event_size : ℤ} {inter : Bool}
    {nodes : List Node} (h : self.create_nodes c p nodetype max_event_size inter = .ok nodes) :
    nodes.map Node.rank = (self.procinfos_for_string p nodetype inter).map Procinfo.rank := by
  obtain ⟨-, common, -, hnodes⟩ := create_nodes_ok h
  rw [← List.forall₂_eq_eq_eq, List.forall₂_map_left_iff, List.forall₂_map_right_iff]
  refine (hnodes.imp fun q node hnode => ?_).flip
  obtain ⟨i, hnode⟩ := hnode
  exact create_node_rank hnode

/-- For processes with distinct ranks, subsystems whose destinations have names, and two of the
processes: the second is among the destinations of the first, ordinary or between subsystems,
exactly where the first is among the ordinary sources of the second. -/
theorem destinations_agree_with_sources
    (hnamed : ∀ ss dest_ss, self.destination_of ss = some dest_ss → dest_ss ≠ "")
    (hranks : (self.procinfos.map Procinfo.rank).Nodup) {p q : Procinfo}
    (hp : p ∈ self.procinfos) (hq : q ∈ self.procinfos) {size size' : ℤ}
    {destinations : Bool → List Node} {sources : List Node}
    (hdestinations : ∀ inter,
      self.create_nodes c p .destinations size inter = .ok (destinations inter))
    (hsources : self.create_nodes c q .sources size' false = .ok sources) :
    (∃ inter, q.rank ∈ (destinations inter).map Node.rank) ↔ p.rank ∈ sources.map Node.rank := by
  -- a rank belongs to one process
  have hrank : ∀ a ∈ self.procinfos, ∀ procs : List Procinfo, procs ⊆ self.procinfos →
      (a.rank ∈ procs.map Procinfo.rank ↔ a ∈ procs) := by
    intro a ha procs hprocs
    rw [List.mem_map]
    constructor
    · rintro ⟨b, hb, heq⟩
      rwa [List.inj_on_of_nodup_map hranks ha (hprocs hb) heq.symm]
    · exact fun hmem => ⟨a, hmem, rfl⟩
  have hsub : ∀ inter, self.procinfos_for_string p .destinations inter ⊆ self.procinfos :=
    fun inter b hb => ((linked_iff_destination hnamed).mp ⟨inter, hb⟩).1
  have hss : q.subsystem ∈ self.names := (create_nodes_ok hsources).1
  have hsub' : self.procinfos_for_string q .sources false ⊆ self.procinfos :=
    fun b hb => ((linked_iff_source hss).mp hb).1
  have hleft : (∃ inter, q.rank ∈ (destinations inter).map Node.rank) ↔
      ∃ inter, q ∈ self.procinfos_for_string p .destinations inter := by
    refine exists_congr fun inter => ?_
    rw [ranks_of_nodes (hdestinations inter), hrank q hq _ (hsub inter)]
  rw [hleft, linked_iff_destination hnamed, ranks_of_nodes hsources, hrank p hp _ hsub',
    linked_iff_source hss]
  exact ⟨fun h => ⟨hp, h.2⟩, fun h => ⟨hq, h.2⟩⟩

/-- A process with a rank and a document. -/
def ranked (name : ProcType) (rank : ℕ) (document : String) : Procinfo :=
  { Procinfo.new name ("proc" ++ toString rank) "1" with
    rank := rank, fhicl_used := some document }

/-- A BoardReader, an EventBuilder and a DataLogger in the one subsystem. -/
def reader_to_logger (advanced : Bool) (reader builder logger : String) : Bookkeeping :=
  { two_readers advanced reader with
    procinfos := [ranked .BoardReader 0 reader, ranked .EventBuilder 1 builder,
      ranked .DataLogger 2 logger]
    subsystems := [("1", ⟨[], none, true⟩)] }

/-- The EventBuilder is a destination of the BoardReader, which is one of its sources. -/
theorem reader_and_builder_agree :
    let self := reader_to_logger false "" "" ""
    let reader := ranked .BoardReader 0 ""
    let builder := ranked .EventBuilder 1 ""
    let c : Computed := ⟨[], ⟨fun _ => 0, fun _ => [], []⟩, [], [], []⟩
    ∃ (destinations : Bool → List Node) (sources : List Node),
      (∀ inter, self.create_nodes c reader .destinations 10240 inter = .ok (destinations inter)) ∧
      self.create_nodes c builder .sources 10240 false = .ok sources ∧
      ((∃ inter, builder.rank ∈ (destinations inter).map Node.rank) ↔
        reader.rank ∈ sources.map Node.rank) ∧ reader.rank ∈ sources.map Node.rank := by
  intro self reader builder c
  have hdestinations : ∀ inter, ∃ nodes,
      self.create_nodes c reader .destinations 10240 inter = .ok nodes := by
    intro inter
    cases inter <;> exact Loop.exists_of_isOk (by decide +kernel)
  choose destinations hdestinations using hdestinations
  obtain ⟨sources, hsources⟩ : ∃ nodes,
      self.create_nodes c builder .sources 10240 false = .ok nodes :=
    Loop.exists_of_isOk (by decide +kernel)
  have hnamed : ∀ ss dest_ss, self.destination_of ss = some dest_ss → dest_ss ≠ "" := by
    intro ss dest_ss h
    obtain ⟨info, hinfo, hdest⟩ := Option.bind_eq_some_iff.mp h
    have hentry : (ss, info) ∈ [("1", (⟨[], none, true⟩ : Subsystem))] := Dict.mem_of_lookup hinfo
    obtain rfl := (Prod.mk.inj (List.mem_singleton.mp hentry)).2
    cases hdest
  have hreader : reader ∈ self.procinfos := by decide
  have hbuilder : builder ∈ self.procinfos := by decide
  have hiff := destinations_agree_with_sources hnamed (by decide) hreader hbuilder hdestinations
    hsources
  refine ⟨destinations, sources, hdestinations, hsources, hiff, ?_⟩
  rw [ranks_of_nodes hsources]
  decide +kernel

end Bookkeeping

end DaqInterface
