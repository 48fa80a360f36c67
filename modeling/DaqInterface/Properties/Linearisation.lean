import DaqInterface.Properties.BootFile
import DaqInterface.Properties.Fragments
import DaqInterface.Properties.Order

/-!
# The loop that orders the subsystems

`do_command` takes the sources of a subsystem out of a copy of the list, once for each
subsystem that it has ordered, and goes on until all subsystems are ordered.  Without cycles the
loop ends exactly where every source is declared and no list of sources has one twice; it
then lists every subsystem once, behind its sources (`ordering_ends_iff`).
-/

namespace DaqInterface

variable {subsystems : List (String × Subsystem)} {ordered : List String}

/-! ## The loop, pass by pass -/

/-- One pass through the subsystems: it breaks off behind the first one that it adds. -/
def ordering_pass (subsystems : List (String × Subsystem)) (ordered : List String) :
    List String :=
  match next_subsystem subsystems ordered with
  | some subsystem => ordered ++ [subsystem]
  | none => ordered

/-- `subsystems_in_order` behind the given number of passes. -/
def after_passes (subsystems : List (String × Subsystem)) (passes : ℕ) : List String :=
  (ordering_pass subsystems)^[passes] []

/-- The loop ends with a list. -/
def OrderingEnds (subsystems : List (String × Subsystem)) (ordered : List String) : Prop :=
  ∃ passes, after_passes subsystems passes = ordered ∧ subsystems.length ≤ ordered.length ∧
    ∀ earlier < passes, (after_passes subsystems earlier).length < subsystems.length

theorem after_passes_succ (subsystems : List (String × Subsystem)) (passes : ℕ) :
    after_passes subsystems (passes + 1) =
      ordering_pass subsystems (after_passes subsystems passes) :=
  Function.iterate_succ_apply' _ _ _

/-- A list of sources from which each ordered subsystem is taken out once. -/
theorem isEmpty_sources_iff {sources : List String} (hordered : ordered.Nodup) :
    (ordered.foldl (fun sources_copy ordered_ss => sources_copy.erase ordered_ss)
      sources).isEmpty = true ↔ sources.Nodup ∧ sources ⊆ ordered := by
  rw [List.isEmpty_iff, ← List.diff_eq_foldl]
  constructor
  · intro hnil
    have hcount : ∀ a, sources.count a ≤ ordered.count a := by
      intro a
      have hdiff := List.count_diff a sources ordered
      rw [hnil, List.count_nil] at hdiff
      omega
    refine ⟨List.nodup_iff_count_le_one.mpr fun a => ?_, fun a ha => ?_⟩
    · exact (hcount a).trans (List.nodup_iff_count_le_one.mp hordered a)
    · have hpos : 0 < sources.count a := List.count_pos_iff.mpr ha
      exact List.count_pos_iff.mp (hpos.trans_le (hcount a))
  · rintro ⟨hnodup, hsub⟩
    refine List.eq_nil_iff_forall_not_mem.mpr fun a ha => ?_
    obtain ⟨hmem, hnot⟩ := (List.Nodup.mem_sdiff_iff hnodup).mp ha
    exact hnot (hsub hmem)

/-- What a pass adds. -/
theorem next_subsystem_nodup {subsystem : String} (hordered : ordered.Nodup)
    (h : next_subsystem subsystems ordered = some subsystem) :
    ∃ info, (subsystem, info) ∈ subsystems ∧ subsystem ∉ ordered ∧ info.sources.Nodup ∧
      info.sources ⊆ ordered := by
  obtain ⟨⟨name, info⟩, hfind, rfl⟩ := Option.map_eq_some_iff.mp h
  have htest := List.find?_some hfind
  rw [Bool.and_eq_true] at htest
  obtain ⟨hnodup, hsub⟩ := (isEmpty_sources_iff hordered).mp htest.1
  exact ⟨info, List.mem_of_find?_eq_some hfind, by simpa using htest.2, hnodup, hsub⟩

/-- Behind any number of passes, the list has declared subsystems behind their sources, and the
sources of each of them are listed without repetition. -/
theorem after_passes_spec (subsystems : List (String × Subsystem)) (passes : ℕ) :
    SourcesFirst subsystems (after_passes subsystems passes) ∧
      ∀ subsystem ∈ after_passes subsystems passes,
        ∃ info, (subsystem, info) ∈ subsystems ∧ info.sources.Nodup := by
  induction passes with
  | zero => exact ⟨.nil, fun subsystem h => absurd h List.not_mem_nil⟩
  | succ passes ih =>
    obtain ⟨hord, hsources⟩ := ih
    rw [after_passes_succ, ordering_pass]
    cases hnext : next_subsystem subsystems (after_passes subsystems passes) with
    | none => exact ⟨hord, hsources⟩
    | some subsystem =>
      obtain ⟨info, hmem, hnew, hnodup, hsub⟩ := next_subsystem_nodup hord.nodup hnext
      refine ⟨hord.snoc hmem hnew fun a ha => hsub ha, fun other hother => ?_⟩
      rcases List.mem_append.mp hother with hother | hother
      · exact hsources other hother
      · rw [List.mem_singleton.mp hother]
        exact ⟨info, hmem, hnodup⟩

/-- A pass that adds nothing is followed by such passes only: the loop does not end. -/
theorem not_ends_of_stuck {passes : ℕ}
    (hstuck : next_subsystem subsystems (after_passes subsystems passes) = none)
    (hless : (after_passes subsystems passes).length < subsystems.length) :
    ¬ OrderingEnds subsystems ordered := by
  have hsame : ∀ more, after_passes subsystems (passes + more) = after_passes subsystems passes := by
    intro more
    induction more with
    | zero => rfl
    | succ more ih => rw [← Nat.add_assoc, after_passes_succ, ih, ordering_pass, hstuck]
  rintro ⟨last, rfl, hlength, hearlier⟩
  rcases Nat.lt_or_ge passes last with hlt | hge
  · obtain ⟨more, rfl⟩ := Nat.exists_eq_add_of_le hlt.le
    rw [hsame more] at hlength
    omega
  · rcases hge.eq_or_lt with rfl | hlt
    · omega
    · -- the list grows by at most one entry in a pass
      have hgrows : ∀ n m, n ≤ m →
          (after_passes subsystems n).length ≤ (after_passes subsystems m).length := by
        intro n m hle
        induction hle with
        | refl => exact le_refl _
        | @step m _ ih =>
          refine ih.trans ?_
          rw [after_passes_succ, ordering_pass]
          cases next_subsystem subsystems (after_passes subsystems m) with
          | none => exact le_refl _
          | some subsystem => simp
      have hle := hgrows last passes hlt.le
      omega

/-! ## Progress -/

/-- No pass adds more than one entry. -/
theorem after_passes_length_le (subsystems : List (String × Subsystem)) (passes : ℕ) :
    (after_passes subsystems passes).length ≤ passes := by
  induction passes with
  | zero => exact le_refl _
  | succ passes ih =>
    rw [after_passes_succ, ordering_pass]
    split
    · rw [List.length_append, List.length_singleton]
      omega
    · omega

/-- While passes add something, they add one entry each. -/
theorem after_passes_length {passes : ℕ}
    (hadds : ∀ earlier < passes, next_subsystem subsystems (after_passes subsystems earlier) ≠ none) :
    (after_passes subsystems passes).length = passes := by
  induction passes with
  | zero => rfl
  | succ passes ih =>
    have hlength := ih fun earlier hlt => hadds earlier (by omega)
    rw [after_passes_succ, ordering_pass]
    cases hnext : next_subsystem subsystems (after_passes subsystems passes) with
    | none => exact absurd hnext (hadds passes (by omega))
    | some subsystem => rw [List.length_append, hlength, List.length_singleton]

/-- A subsystem that waits for nothing is found. -/
theorem next_subsystem_ne_none {entry : String × Subsystem} (hordered : ordered.Nodup)
    (hentry : entry ∈ subsystems) (hnew : entry.1 ∉ ordered) (hnodup : entry.2.sources.Nodup)
    (hsub : entry.2.sources ⊆ ordered) : next_subsystem subsystems ordered ≠ none := by
  intro hnone
  have hfind := Option.map_eq_none_iff.mp hnone
  have htest := List.find?_eq_none.mp hfind entry hentry
  refine htest ?_
  rw [Bool.and_eq_true]
  exact ⟨(isEmpty_sources_iff hordered).mpr ⟨hnodup, hsub⟩, by simpa using hnew⟩

/-- Where sources have smaller ranks, are declared and listed once, there is always a subsystem
that waits for nothing. -/
theorem next_subsystem_exists {rank : String → ℕ} (hordered : ordered.Nodup)
    (hkeys : (subsystems.map Prod.fst).Nodup)
    (hrank : ∀ entry ∈ subsystems, ∀ a ∈ entry.2.sources, rank a < rank entry.1)
    (hlists : ∀ entry ∈ subsystems, entry.2.sources.Nodup ∧
      entry.2.sources ⊆ subsystems.map Prod.fst)
    (hless : ordered.length < subsystems.length) : next_subsystem subsystems ordered ≠ none := by
  -- some declared subsystem is not ordered yet
  obtain ⟨name, hname, hnew⟩ : ∃ name ∈ subsystems.map Prod.fst, name ∉ ordered := by
    by_contra hall
    push Not at hall
    have hle := (List.subperm_of_subset hkeys hall).length_le
    rw [List.length_map] at hle
    omega
  -- by induction on its rank, one of those waits for nothing
  induction hn : rank name using Nat.strong_induction_on generalizing name with
  | _ n ih =>
    obtain ⟨entry, hentry, rfl⟩ := List.mem_map.mp hname
    obtain ⟨hnodup, hdeclared⟩ := hlists entry hentry
    by_cases hsub : entry.2.sources ⊆ ordered
    · exact next_subsystem_ne_none hordered hentry hnew hnodup hsub
    · obtain ⟨a, ha, hwaits⟩ : ∃ a ∈ entry.2.sources, a ∉ ordered := by
        simpa [List.subset_def] using hsub
      have hlt := hrank entry hentry a ha
      exact ih (rank a) (hn ▸ hlt) a (hdeclared ha) hwaits rfl

/-! ## Where the loop ends -/

/-- The loop ends where sources have smaller ranks, are declared and listed once. -/
theorem ordering_ends {rank : String → ℕ} (hkeys : (subsystems.map Prod.fst).Nodup)
    (hrank : ∀ entry ∈ subsystems, ∀ a ∈ entry.2.sources, rank a < rank entry.1)
    (hlists : ∀ entry ∈ subsystems, entry.2.sources.Nodup ∧
      entry.2.sources ⊆ subsystems.map Prod.fst) :
    OrderingEnds subsystems (after_passes subsystems subsystems.length) := by
  have hadds : ∀ earlier < subsystems.length,
      next_subsystem subsystems (after_passes subsystems earlier) ≠ none := by
    intro earlier hearlier
    have hle := after_passes_length_le subsystems earlier
    exact next_subsystem_exists (after_passes_spec subsystems earlier).1.nodup hkeys hrank hlists (by omega)
  refine ⟨subsystems.length, rfl, (after_passes_length hadds).ge, fun earlier hearlier => ?_⟩
  have hle := after_passes_length_le subsystems earlier
  omega

/-- A listed subsystem is behind its sources. -/
theorem SourcesFirst.idxOf_lt (h : SourcesFirst subsystems ordered)
    (hkeys : (subsystems.map Prod.fst).Nodup) {a b : String} (hb : b ∈ ordered)
    (hfeeds : Feeds subsystems a b) : ordered.idxOf a < ordered.idxOf b := by
  induction h with
  | nil => exact absurd hb List.not_mem_nil
  | @snoc ordered subsystem info hord hmem hnew hsources ih =>
    by_cases hbl : b ∈ ordered
    · have ha := hord.closed hkeys hbl hfeeds
      rw [List.idxOf_append_of_mem hbl, List.idxOf_append_of_mem ha]
      exact ih hbl
    · obtain rfl : b = subsystem := by simpa [hbl] using hb
      obtain ⟨info', hmem', ha⟩ := hfeeds
      obtain rfl : info' = info :=
        (Prod.mk.inj (List.inj_on_of_nodup_map hkeys hmem' hmem rfl)).2
      have hlt := List.idxOf_lt_length_iff.mpr (hsources a ha)
      rw [List.idxOf_append_of_mem (hsources a ha), List.idxOf_append_of_notMem hbl]
      omega

/-- With the list complete, every subsystem is on it once, behind its sources, and the sources
are declared and listed once. -/
theorem OrderingEnds.spec (h : OrderingEnds subsystems ordered)
    (hkeys : (subsystems.map Prod.fst).Nodup) :
    ordered.Perm (subsystems.map Prod.fst) ∧
      (∀ a b, Feeds subsystems a b → ordered.idxOf a < ordered.idxOf b) ∧
        ∀ entry ∈ subsystems, entry.2.sources.Nodup ∧
          entry.2.sources ⊆ subsystems.map Prod.fst := by
  obtain ⟨passes, rfl, hlength, -⟩ := h
  obtain ⟨hord, hsources⟩ := after_passes_spec subsystems passes
  have hsub := List.subperm_of_subset hord.nodup hord.declared
  have hperm := hsub.perm_of_length_le (by simpa using hlength)
  have hlisted : ∀ entry ∈ subsystems, entry.1 ∈ after_passes subsystems passes :=
    fun entry hentry => hperm.mem_iff.mpr (List.mem_map_of_mem hentry)
  refine ⟨hperm, fun a b hfeeds => ?_, fun entry hentry => ⟨?_, fun a ha => ?_⟩⟩
  · obtain ⟨info, hmem, -⟩ := id hfeeds
    exact hord.idxOf_lt hkeys (hlisted _ hmem) hfeeds
  · obtain ⟨info, hmem, hnodup⟩ := hsources entry.1 (hlisted entry hentry)
    obtain rfl : info = entry.2 :=
      (Prod.mk.inj (List.inj_on_of_nodup_map hkeys hmem hentry rfl)).2
    exact hnodup
  · exact hord.declared (hord.closed hkeys (hlisted entry hentry) ⟨entry.2, hentry, ha⟩)

/-! ## Accepted boots -/

/-- The subsystems of an accepted boot have different names. -/
theorem booted_keys_nodup {components : Components} {settings : BootSettings} {content : String}
    {booted : Booted} (h : boot_processes settings components content = .ok booted) :
    (booted.subsystems.map Prod.fst).Nodup := by
  obtain ⟨info, hinfo, -, -, heq⟩ := boot_processes_ok h
  rw [heq]
  exact (get_boot_info_sound hinfo).1.keys

/-- Without cycles, declared sources have smaller ranks. -/
theorem exists_rank {self : Bookkeeping} (hself : self.subsystems = subsystems)
    (hkeys : (subsystems.map Prod.fst).Nodup) (hcycles : self.check_cycles = .ok ())
    (hdeclared : ∀ entry ∈ subsystems, entry.2.sources ⊆ subsystems.map Prod.fst) :
    ∃ rank : String → ℕ, ∀ entry ∈ subsystems, ∀ a ∈ entry.2.sources, rank a < rank entry.1 := by
  obtain ⟨rank, -, hedge⟩ := Bookkeeping.check_cycles_ok hcycles
  have hnames : self.names = subsystems.map Prod.fst := by rw [Bookkeeping.names, hself]
  refine ⟨rank, fun entry hentry a ha => hedge entry.1 a ⟨?_, ?_, ?_⟩⟩
  · rw [hnames]
    exact List.mem_map_of_mem hentry
  · have hlookup : self.subsystems.lookup entry.1 = some entry.2 := by
      rw [hself]
      exact Dict.lookup_of_mem hkeys hentry
    rw [Bookkeeping.sources_of, hlookup]
    exact ha
  · rw [hnames]
    exact hdeclared entry hentry ha

/-- For an accepted boot without cycles, the loop ends with every subsystem once and behind its
sources exactly where all sources are declared and no list of sources has one twice. -/
theorem ordering_ends_iff {components : Components} {settings : BootSettings} {content : String}
    {booted : Booted} (hboot : boot_processes settings components content = .ok booted)
    {self : Bookkeeping} (hself : self.subsystems = booted.subsystems)
    (hcycles : self.check_cycles = .ok ()) :
    (∃ ordered, OrderingEnds booted.subsystems ordered ∧
      ordered.Perm (booted.subsystems.map Prod.fst) ∧
      ∀ a b, Feeds booted.subsystems a b → ordered.idxOf a < ordered.idxOf b) ↔
    ∀ entry ∈ booted.subsystems, entry.2.sources.Nodup ∧
      entry.2.sources ⊆ booted.subsystems.map Prod.fst := by
  have hkeys := booted_keys_nodup hboot
  constructor
  · rintro ⟨ordered, hends, -⟩
    exact (hends.spec hkeys).2.2
  · intro hlists
    obtain ⟨rank, hrank⟩ := exists_rank hself hkeys hcycles fun entry hentry =>
      (hlists entry hentry).2
    have hends := ordering_ends hkeys hrank hlists
    obtain ⟨hperm, hbehind, -⟩ := hends.spec hkeys
    exact ⟨_, hends, hperm, hbehind⟩

/-- The bookkeeping of a boot, before any document is read. -/
def Booted.bookkeeping (booted : Booted) : Bookkeeping :=
  { Bookkeeping.two_readers true "" with procinfos := [], subsystems := booted.subsystems }

/-- Two subsystems, one of them the source of the other. -/
theorem two_subsystems_ordered :
    ∃ booted, boot_with_component "1" two_subsystems = .ok booted ∧
      ∃ ordered, OrderingEnds booted.subsystems ordered ∧ ordered.Perm ["1", "2"] ∧
        ordered.idxOf "1" < ordered.idxOf "2" := by
  have htest : (boot_with_component "1" two_subsystems).toOption.any (fun booted =>
      decide (booted.subsystems = [("1", ⟨[], some "2", true⟩), ("2", ⟨["1"], none, true⟩)])) =
        true := by
    decide +kernel
  obtain ⟨booted, hbooted, hsubs⟩ := Loop.exists_of_any htest
  replace hsubs := of_decide_eq_true hsubs
  have hcycles : booted.bookkeeping.check_cycles = .ok () := by
    rw [Booted.bookkeeping, hsubs]
    decide +kernel
  have hself : booted.bookkeeping.subsystems = booted.subsystems := rfl
  have hiff := ordering_ends_iff hbooted hself hcycles
  rw [hsubs] at hiff
  have hlists := hiff.mpr (by decide)
  obtain ⟨ordered, hends, hperm, hbehind⟩ := hlists
  refine ⟨booted, hbooted, ordered, hsubs ▸ hends, hperm, hbehind "1" "2" ?_⟩
  exact ⟨⟨["1"], none, true⟩, by simp, by simp⟩

/-- The source of a subsystem is stated twice. -/
def source_stated_twice : List String := two_subsystems ++ ["Subsystem source: 1"]

/-- The boot is accepted, there is no cycle, and the loop does not end. -/
theorem stated_twice_never_ordered :
    ∃ booted, boot_with_component "1" source_stated_twice = .ok booted ∧
      booted.bookkeeping.check_cycles = .ok () ∧
      ∀ ordered, ¬ OrderingEnds booted.subsystems ordered := by
  have htest : (boot_with_component "1" source_stated_twice).toOption.any (fun booted =>
      decide (booted.subsystems =
        [("1", ⟨[], some "2", true⟩), ("2", ⟨["1", "1"], none, true⟩)])) = true := by
    decide +kernel
  obtain ⟨booted, hbooted, hsubs⟩ := Loop.exists_of_any htest
  replace hsubs := of_decide_eq_true hsubs
  refine ⟨booted, hbooted, ?_, fun ordered => ?_⟩
  · rw [Booted.bookkeeping, hsubs]
    decide +kernel
  · rw [hsubs]
    have hstuck : next_subsystem [("1", ⟨[], some "2", true⟩), ("2", ⟨["1", "1"], none, true⟩)]
        (after_passes [("1", ⟨[], some "2", true⟩), ("2", ⟨["1", "1"], none, true⟩)] 1) = none := by
      decide +kernel
    exact not_ends_of_stuck hstuck (by decide +kernel)

end DaqInterface
