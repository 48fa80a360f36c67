import DaqInterface.Model.Command

/-!
# The order of the groups

`do_command` walks through the groups of processes in the order of `groups_in_order`.  Where
the loop that orders the subsystems ends, this order has every group once, and it never puts
a group before one that precedes it: one of a subsystem that is upstream of its own, of an
earlier type in the same subsystem, or of a lower rank among processes of the same type
(`groups_pairwise`).
-/

namespace DaqInterface

/-! ## Subsystems behind their sources -/

/-- The subsystem `a` is a source of the subsystem `b`. -/
def Feeds (subsystems : List (String × Subsystem)) (a b : String) : Prop :=
  ∃ info, (b, info) ∈ subsystems ∧ a ∈ info.sources

/-- A list in which every subsystem is declared, new and behind its sources. -/
inductive SourcesFirst (subsystems : List (String × Subsystem)) : List String → Prop
  /-- The empty list. -/
  | nil : SourcesFirst subsystems []
  /-- One more subsystem. -/
  | snoc {ordered : List String} {subsystem : String} {info : Subsystem}
      (h : SourcesFirst subsystems ordered) (hmem : (subsystem, info) ∈ subsystems)
      (hnew : subsystem ∉ ordered) (hsources : ∀ a ∈ info.sources, a ∈ ordered) :
      SourcesFirst subsystems (ordered ++ [subsystem])

section SourcesFirst

variable {subsystems : List (String × Subsystem)} {ordered : List String}

theorem SourcesFirst.nodup (h : SourcesFirst subsystems ordered) : ordered.Nodup := by
  induction h with
  | nil => exact List.nodup_nil
  | snoc _ _ hnew _ ih =>
    refine List.nodup_append.mpr ⟨ih, List.nodup_singleton _, fun a ha b hb => ?_⟩
    rw [List.mem_singleton.mp hb]
    exact fun heq => hnew (heq ▸ ha)

theorem SourcesFirst.declared (h : SourcesFirst subsystems ordered) :
    ordered ⊆ subsystems.map Prod.fst := by
  induction h with
  | nil => exact List.nil_subset _
  | snoc _ hmem _ _ ih =>
    refine List.append_subset.mpr ⟨ih, fun a ha => ?_⟩
    rw [List.mem_singleton.mp ha]
    exact List.mem_map.mpr ⟨_, hmem, rfl⟩

/-- Where no name is declared twice, the sources of a listed subsystem are listed. -/
theorem SourcesFirst.closed (h : SourcesFirst subsystems ordered)
    (hkeys : (subsystems.map Prod.fst).Nodup) {a b : String} (hb : b ∈ ordered)
    (hfeeds : Feeds subsystems a b) : a ∈ ordered := by
  induction h with
  | nil => exact absurd hb List.not_mem_nil
  | @snoc ordered subsystem info _ hmem _ hsources ih =>
    rcases List.mem_append.mp hb with hb | hb
    · exact List.mem_append_left _ (ih hb)
    · obtain ⟨info', hmem', ha⟩ := hfeeds
      obtain rfl : b = subsystem := List.mem_singleton.mp hb
      obtain rfl : info' = info :=
        (Prod.mk.inj (List.inj_on_of_nodup_map hkeys hmem' hmem rfl)).2
      exact List.mem_append_left _ (hsources a ha)

/-- No subsystem is listed before one of its sources, or is its own source. -/
theorem SourcesFirst.pairwise (h : SourcesFirst subsystems ordered)
    (hkeys : (subsystems.map Prod.fst).Nodup) :
    ordered.Pairwise (fun a b => ¬ Feeds subsystems b a) ∧
      ∀ a ∈ ordered, ¬ Feeds subsystems a a := by
  induction h with
  | nil => exact ⟨List.Pairwise.nil, fun a ha => absurd ha List.not_mem_nil⟩
  | @snoc ordered subsystem info hord hmem hnew hsources ih =>
    refine ⟨List.pairwise_append.mpr ⟨ih.1, List.pairwise_singleton _ _, fun a ha b hb => ?_⟩,
      fun a ha => ?_⟩
    · rw [List.mem_singleton.mp hb]
      exact fun hfeeds => hnew (hord.closed hkeys ha hfeeds)
    · rcases List.mem_append.mp ha with ha | ha
      · exact ih.2 a ha
      · rintro ⟨info', hmem', hself⟩
        obtain rfl : a = subsystem := List.mem_singleton.mp ha
        obtain rfl : info' = info :=
          (Prod.mk.inj (List.inj_on_of_nodup_map hkeys hmem' hmem rfl)).2
        exact hnew (hsources a hself)

/-- What is taken out of the list of sources, entry by entry, was in it. -/
theorem sources_mem_of_isEmpty {sources : List String}
    (h : (ordered.foldl (fun sources_copy ordered_ss => sources_copy.erase ordered_ss)
      sources).isEmpty = true) : ∀ a ∈ sources, a ∈ ordered := by
  intro a ha
  by_contra hnot
  have hdiff : a ∈ sources.diff ordered := List.mem_diff_of_mem ha hnot
  rw [List.diff_eq_foldl, List.isEmpty_iff.mp h] at hdiff
  exact absurd hdiff List.not_mem_nil

/-- A turn of the loop adds a declared, new subsystem behind its sources. -/
theorem next_subsystem_spec {subsystem : String}
    (h : next_subsystem subsystems ordered = some subsystem) :
    ∃ info, (subsystem, info) ∈ subsystems ∧ subsystem ∉ ordered ∧
      ∀ a ∈ info.sources, a ∈ ordered := by
  obtain ⟨⟨name, info⟩, hfind, rfl⟩ := Option.map_eq_some_iff.mp h
  have htest := List.find?_some hfind
  rw [Bool.and_eq_true] at htest
  refine ⟨info, List.mem_of_find?_eq_some hfind, ?_, sources_mem_of_isEmpty htest.1⟩
  simpa using htest.2

/-- What the loop adds in some turns. -/
theorem order_subsystems_spec {n : ℕ} {result : List String} (hord : SourcesFirst subsystems ordered)
    (h : order_subsystems subsystems n ordered = some result) :
    SourcesFirst subsystems result ∧ result.length = ordered.length + n := by
  induction n generalizing ordered with
  | zero =>
    obtain rfl : ordered = result := Option.some.inj h
    exact ⟨hord, rfl⟩
  | succ n ih =>
    rw [order_subsystems] at h
    split at h
    · rename_i subsystem hnext
      obtain ⟨info, hmem, hnew, hsources⟩ := next_subsystem_spec hnext
      obtain ⟨hresult, hlength⟩ := ih (hord.snoc hmem hnew hsources) h
      refine ⟨hresult, hlength.trans ?_⟩
      rw [List.length_append, List.length_singleton]
      omega
    · cases h

/-- When the loop ends, it has listed every subsystem once, behind its sources. -/
theorem ordered_of_loop_ends
    (h : order_subsystems subsystems subsystems.length [] = some ordered) :
    ordered.Perm (subsystems.map Prod.fst) ∧
      ordered.Pairwise (fun a b => ¬ Feeds subsystems b a) ∧
        ∀ a ∈ ordered, ¬ Feeds subsystems a a := by
  obtain ⟨hord, hlength⟩ := order_subsystems_spec .nil h
  have hsub := List.subperm_of_subset hord.nodup hord.declared
  have hperm : ordered.Perm (subsystems.map Prod.fst) := hsub.perm_of_length_le (by simp [hlength])
  exact ⟨hperm, hord.pairwise (hperm.nodup_iff.mp hord.nodup)⟩

end SourcesFirst

/-! ## Which group precedes which -/

/-- Data flow from the processes of a type to those of the types behind it. -/
def ProcType.stage : ProcType → ℕ
  | .BoardReader => 0
  | .EventBuilder => 1
  | .DataLogger => 2
  | .Dispatcher => 3
  | .RoutingManager => 4

/-- A command that starts at the sources reaches `a` before `b`. -/
def Command.upstream {α : Type} (command : Command) (before : α → α → Prop) (a b : α) : Prop :=
  if command.upstream_first then before a b else before b a

/-- The processes of `g` must have got the command when those of `g'` are sent it. -/
def Precedes (command : Command) (subsystems : List (String × Subsystem)) (g g' : Group) : Prop :=
  command.upstream (Feeds subsystems) g.subsystem g'.subsystem ∨
    g.subsystem = g'.subsystem ∧
      (command.upstream (fun t t' : ProcType => t.stage < t'.stage) g.proctype g'.proctype ∨
        g.proctype = g'.proctype ∧ g.priority < g'.priority)

section Groups

variable {command : Command} {subsystems : List (String × Subsystem)} {procs : List Procinfo}
  {ordered : List String}

/-- Types in the order of the data flow, or the other way round. -/
theorem proctypes_pairwise (command : Command) :
    (proctypes_in_order command).Pairwise
      (command.upstream fun t t' : ProcType => t.stage < t'.stage) := by
  cases command <;> simp [proctypes_in_order, Command.upstream, Command.upstream_first,
    ProcType.stage]

theorem mem_proctypes (command : Command) (t : ProcType) : t ∈ proctypes_in_order command := by
  cases command <;> cases t <;> decide

theorem upstream_stage_irrefl (t : ProcType) :
    ¬ command.upstream (fun t t' : ProcType => t.stage < t'.stage) t t := by
  unfold Command.upstream
  split <;> exact lt_irrefl _

theorem upstream_stage_asymm {t t' : ProcType}
    (h : command.upstream (fun t t' : ProcType => t.stage < t'.stage) t t') :
    ¬ command.upstream (fun t t' : ProcType => t.stage < t'.stage) t' t := by
  unfold Command.upstream at h ⊢
  split
  · rename_i hfirst
    rw [if_pos hfirst] at h
    exact lt_asymm h
  · rename_i hfirst
    rw [if_neg hfirst] at h
    exact lt_asymm h

/-- The subsystems of a command: all of them, once, and none before one that is upstream. -/
theorem subsystems_in_order_spec (h : subsystems_in_order command subsystems = some ordered) :
    (∀ s ∈ subsystems.map Prod.fst, s ∈ ordered) ∧
      ordered.Pairwise (fun a b => a ≠ b ∧ ¬ command.upstream (Feeds subsystems) b a) ∧
        ∀ a ∈ ordered, ¬ command.upstream (Feeds subsystems) a a := by
  obtain ⟨l, hloop, rfl⟩ := Option.map_eq_some_iff.mp h
  obtain ⟨hperm, hpair, hirrefl⟩ := ordered_of_loop_ends hloop
  have hkeys : l.Nodup := (order_subsystems_spec .nil hloop).1.nodup
  have hboth := List.pairwise_and_iff.mpr ⟨hkeys, hpair⟩
  unfold Command.upstream
  split
  · exact ⟨fun s hs => hperm.mem_iff.mpr hs, hboth, hirrefl⟩
  · refine ⟨fun s hs => List.mem_reverse.mpr (hperm.mem_iff.mpr hs), ?_,
      fun a ha => hirrefl a (List.mem_reverse.mp ha)⟩
    exact List.pairwise_reverse.mpr (hboth.imp fun hab => ⟨hab.1.symm, hab.2⟩)

/-- The ranks in use, lowest first. -/
theorem priorities_used_pairwise (procs : List Procinfo) (test : Procinfo → Bool) :
    (priorities_used procs test).Pairwise (· < ·) := by
  have hle : (priorities_used procs test).Pairwise (· ≤ ·) := List.pairwise_insertionSort _ _
  have hne : (priorities_used procs test).Nodup :=
    (List.perm_insertionSort _ _).nodup_iff.mpr (List.nodup_dedup _)
  exact (List.pairwise_and_iff.mpr ⟨hle, hne⟩).imp fun h => lt_of_le_of_ne h.1 h.2

theorem mem_priorities_used {p : Procinfo} {test : Procinfo → Bool} (hp : p ∈ procs)
    (ht : test p = true) : p.priority ∈ priorities_used procs test := by
  refine (List.perm_insertionSort _ _).mem_iff.mpr (List.mem_dedup.mpr ?_)
  exact List.mem_map.mpr ⟨p, List.mem_filter.mpr ⟨hp, ht⟩, rfl⟩

/-- The groups of a command: none comes twice, and none before one that precedes it. -/
theorem groups_pairwise (h : subsystems_in_order command subsystems = some ordered) :
    (groups_in_order command procs ordered).Pairwise
      fun g g' => g ≠ g' ∧ ¬ Precedes command subsystems g' g := by
  obtain ⟨-, hpair, hirrefl⟩ := subsystems_in_order_spec h
  refine List.pairwise_flatMap.mpr ⟨fun s hs => List.pairwise_flatMap.mpr ⟨fun t _ => ?_, ?_⟩, ?_⟩
  · -- one type of one subsystem: the ranks decide
    refine List.pairwise_map.mpr ((priorities_used_pairwise _ _).imp fun hlt => ⟨?_, ?_⟩)
    · exact fun heq => absurd (Group.mk.inj heq).2.2 (Nat.ne_of_lt hlt)
    · rintro (hup | ⟨-, hup | ⟨-, hgt⟩⟩)
      · exact hirrefl s hs hup
      · exact upstream_stage_irrefl t hup
      · exact Nat.lt_asymm hlt hgt
  · -- two types of one subsystem
    refine (proctypes_pairwise command).imp fun {t t'} htt g hg g' hg' => ?_
    obtain ⟨n, -, rfl⟩ := List.mem_map.mp hg
    obtain ⟨n', -, rfl⟩ := List.mem_map.mp hg'
    have hne : t ≠ t' := fun heq => upstream_stage_irrefl t' (heq ▸ htt)
    refine ⟨fun heq => hne (Group.mk.inj heq).2.1, ?_⟩
    rintro (hup | ⟨-, hup | ⟨heq, -⟩⟩)
    · exact hirrefl s hs hup
    · exact upstream_stage_asymm htt hup
    · exact hne heq.symm
  · -- two subsystems
    refine hpair.imp fun {s s'} hss g hg g' hg' => ?_
    obtain ⟨t, -, hg⟩ := List.mem_flatMap.mp hg
    obtain ⟨t', -, hg'⟩ := List.mem_flatMap.mp hg'
    obtain ⟨n, -, rfl⟩ := List.mem_map.mp hg
    obtain ⟨n', -, rfl⟩ := List.mem_map.mp hg'
    refine ⟨fun heq => hss.1 (Group.mk.inj heq).1, ?_⟩
    rintro (hup | ⟨heq, -⟩)
    · exact hss.2 hup
    · exact hss.1 heq.symm

/-- Every process of a declared subsystem is in a group. -/
theorem mem_groups (h : subsystems_in_order command subsystems = some ordered) {p : Procinfo}
    (hp : p ∈ procs) (hdecl : p.subsystem ∈ subsystems.map Prod.fst) :
    p.group ∈ groups_in_order command procs ordered := by
  have hs := (subsystems_in_order_spec h).1 _ hdecl
  refine List.mem_flatMap.mpr ⟨_, hs, List.mem_flatMap.mpr ⟨_, mem_proctypes command p.name, ?_⟩⟩
  exact List.mem_map.mpr ⟨_, mem_priorities_used hp (by simp), rfl⟩

/-- A group that precedes another one is somewhere before it. -/
theorem mem_of_precedes {gs done rest : List Group} {g g' : Group}
    (hgs : gs.Pairwise fun g g' => g ≠ g' ∧ ¬ Precedes command subsystems g' g)
    (hsplit : gs = done ++ g' :: rest) (hg : g ∈ gs) (hprec : Precedes command subsystems g g')
    (hself : ¬ Precedes command subsystems g' g') : g ∈ done := by
  rw [hsplit] at hg hgs
  rcases List.mem_append.mp hg with hdone | hcons
  · exact hdone
  · rcases List.mem_cons.mp hcons with rfl | hrest
    · exact absurd hprec hself
    · have hpair := (List.pairwise_cons.mp (List.pairwise_append.mp hgs).2.1).1 g hrest
      exact absurd hprec hpair.2

/-- No group of a listed subsystem precedes itself. -/
theorem not_precedes_self (h : subsystems_in_order command subsystems = some ordered) {g : Group}
    (hg : g.subsystem ∈ ordered) : ¬ Precedes command subsystems g g := by
  rintro (hup | ⟨-, hup | ⟨-, hlt⟩⟩)
  · exact (subsystems_in_order_spec h).2.2 _ hg hup
  · exact upstream_stage_irrefl _ hup
  · exact Nat.lt_irrefl _ hlt

end Groups

end DaqInterface
