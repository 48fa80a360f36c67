import DaqInterface.Library.Fold
import DaqInterface.Model.Bookkeeping

/-!
# Fragments of the subsystems

What the bookkeeping counts for the BoardReaders of a subsystem (`reserved_for`,
`fragment_space_eq`, `fragment_ids_eq`), and what is known of its results: they are the values of
the recursions, on subsystems without cycles (`compute_ok`, `values_yields`,
`check_cycles_ok`).
-/

namespace DaqInterface

namespace Bookkeeping

variable {self : Bookkeeping} {sizes : List (String × ℤ)}

/-! ## The BoardReaders -/

/-- The fragments of a BoardReader. -/
abbrev fragments (p : Procinfo) : Fragments := read_fragments p.document

/-- What counting one BoardReader does. -/
theorem count_reader_ok {totals totals' : Totals} {p : Procinfo}
    (h : self.count_reader sizes totals p = .ok totals') :
    ∃ (space : ℤ) (count : ℕ) (ids : List ℕ), self.fragment_space sizes p = .ok space ∧
      totals' = totals.reserve p.subsystem (count * space) ids ∧
      (self.strict_fragment_id_mode = false →
        count = (fragments p).generated_fragments_per_event ∧ ids = (fragments p).reader_ids) := by
  obtain ⟨space, hspace, h⟩ := Loop.bind_eq_ok.mp h
  split_ifs at h with hoff hids
  · obtain ⟨-, -, h⟩ := Loop.bind_eq_ok.mp h
    obtain rfl := Except.ok.inj h
    exact ⟨space, _, _, hspace, rfl, fun _ => ⟨rfl, rfl⟩⟩
  · obtain rfl := Except.ok.inj h
    refine ⟨space, 0, [], hspace, by simp, fun hstrict => absurd hstrict ?_⟩
    simpa using hoff
  · obtain ⟨-, -, h⟩ := Loop.bind_eq_ok.mp h
    obtain rfl := Except.ok.inj h
    refine ⟨space, _, _, hspace, rfl, fun hstrict => absurd hstrict ?_⟩
    simpa using hoff

/-- Reserving space in a subsystem adds to that subsystem. -/
theorem Totals.reserve_fragment_space (totals : Totals) (ss ss' : String) (space : ℤ)
    (ids : List ℕ) : (totals.reserve ss space ids).fragment_space ss' =
      totals.fragment_space ss' + if ss = ss' then space else 0 := by
  by_cases h : ss = ss'
  · subst h
    simp [Totals.reserve]
  · simp [Totals.reserve, h, Function.update_of_ne (Ne.symm h)]

theorem Totals.reserve_fragment_ids (totals : Totals) (ss ss' : String) (space : ℤ)
    (ids : List ℕ) : (totals.reserve ss space ids).fragment_ids ss' =
      totals.fragment_ids ss' ++ if ss = ss' then ids else [] := by
  by_cases h : ss = ss'
  · subst h
    simp [Totals.reserve]
  · simp [Totals.reserve, h, Function.update_of_ne (Ne.symm h)]

/-- The space of a subsystem is what was reserved for its BoardReaders. -/
theorem fragment_space_eq {totals : Totals} (h : self.count_fragments sizes = .ok totals)
    (ss : String) : totals.fragment_space ss = Graph.weight totals.reserved {ss} := by
  have hstep : ∀ (done : List Procinfo) (p : Procinfo) (s s' : Totals),
      (∀ ss, s.fragment_space ss = Graph.weight s.reserved {ss}) →
      self.count_reader sizes s p = .ok s' →
      ∀ ss, s'.fragment_space ss = Graph.weight s'.reserved {ss} := by
    intro done p s s' hs hcount ss
    obtain ⟨space, count, ids, -, rfl, -⟩ := count_reader_ok hcount
    have hnew : Graph.weight [(p.subsystem, count * space)] {ss} =
        if p.subsystem = ss then count * space else 0 := by
      rw [Graph.weight_cons]
      simp [Graph.weight]
    rw [Totals.reserve_fragment_space, hs ss, Totals.reserve, Graph.weight_append, hnew]
  have hinit : ∀ ss, (⟨fun _ => 0, fun _ => [], []⟩ : Totals).fragment_space ss =
      Graph.weight [] {ss} := fun ss => by simp [Graph.weight]
  exact Loop.foldlM_induct hstep hinit h ss

/-- What is reserved for a BoardReader: a multiple of the size of its fragments, in its
subsystem. -/
structure ReservedFor (b : Bookkeeping) (sizes : List (String × ℤ)) (p : Procinfo)
    (share : String × ℤ) : Prop where
  /-- Where it is reserved. -/
  subsystem : share.1 = p.subsystem
  /-- How much is reserved. -/
  amount : ∃ (space : ℤ) (count : ℕ), b.fragment_space sizes p = .ok space ∧
    share.2 = count * space ∧ (b.strict_fragment_id_mode = false →
      count = (fragments p).generated_fragments_per_event)

/-- Space is reserved once for each BoardReader. -/
theorem reserved_for {totals : Totals} (h : self.count_fragments sizes = .ok totals) :
    List.Forall₂ (self.ReservedFor sizes) self.boardreaders totals.reserved := by
  have hstep : ∀ (done : List Procinfo) (p : Procinfo) (s s' : Totals),
      List.Forall₂ (self.ReservedFor sizes) done s.reserved →
      self.count_reader sizes s p = .ok s' →
      List.Forall₂ (self.ReservedFor sizes) (done ++ [p]) s'.reserved := by
    intro done p s s' hs hcount
    obtain ⟨space, count, ids, hspace, rfl, hoff⟩ := count_reader_ok hcount
    have hshare : self.ReservedFor sizes p (p.subsystem, count * space) :=
      ⟨rfl, space, count, hspace, rfl, fun hstrict => (hoff hstrict).1⟩
    exact List.rel_append hs (List.Forall₂.cons hshare List.Forall₂.nil)
  exact Loop.foldlM_induct hstep List.Forall₂.nil h

/-- Without the strict mode, the ids of a subsystem are those of its BoardReaders. -/
theorem fragment_ids_eq {totals : Totals} (hoff : self.strict_fragment_id_mode = false)
    (h : self.count_fragments sizes = .ok totals) (ss : String) :
    totals.fragment_ids ss =
      (self.boardreaders.filter fun p => p.subsystem = ss).flatMap fun p =>
        (fragments p).reader_ids := by
  have hstep : ∀ (done : List Procinfo) (p : Procinfo) (s s' : Totals),
      (∀ ss, s.fragment_ids ss = (done.filter fun p => p.subsystem = ss).flatMap fun p =>
        (fragments p).reader_ids) →
      self.count_reader sizes s p = .ok s' →
      ∀ ss, s'.fragment_ids ss = ((done ++ [p]).filter fun p => p.subsystem = ss).flatMap fun p =>
        (fragments p).reader_ids := by
    intro done p s s' hs hcount ss
    obtain ⟨space, count, ids, -, rfl, hids⟩ := count_reader_ok hcount
    obtain ⟨-, rfl⟩ := hids hoff
    rw [Totals.reserve_fragment_ids, hs ss, List.filter_append, List.flatMap_append]
    by_cases hss : p.subsystem = ss <;> simp [hss]
  exact Loop.foldlM_induct hstep (fun ss => rfl) h ss

/-! ## Sizes are not negative -/

theorem decimal_value_nonneg {text : List Char} {value : ℚ} (h : decimal_value text = some value) :
    0 ≤ value := by
  unfold decimal_value at h
  dsimp only at h
  split at h
  · split at h
    · rw [← Option.some.inj h]
      positivity
    · split at h
      · rw [← Option.some.inj h]
        positivity
      · cases h
  · cases h

theorem int_of_float_text_nonneg {text : List Char} {n : ℤ} (h : int_of_float_text text = .ok n) :
    0 ≤ n := by
  unfold int_of_float_text at h
  split at h
  · cases h
  · rename_i value hvalue
    split at h
    · rename_i x hx
      obtain rfl := Except.ok.inj h
      rw [Double.of_rat_eq_some hx]
      exact Double.trunc_nonneg (Double.round_nonneg (decimal_value_nonneg hvalue))
    · cases h

theorem fragment_size_of_token_nonneg {token : List Char} {n : ℤ}
    (h : fragment_size_of_token token = .ok n) : 0 ≤ n := by
  unfold fragment_size_of_token at h
  split at h
  · exact int_of_float_text_nonneg h
  · obtain ⟨m, -, rfl⟩ := Loop.map_eq_ok.mp h
    exact Int.natCast_nonneg m

/-- What one process adds to the stated sizes. -/
theorem stated_fragment_size_ok {p : Procinfo} {s s' : List (String × ℤ)}
    (h : stated_fragment_size p s = .ok s') :
    s' = s ∨ ∃ token size, fragment_size_of_token token = .ok size ∧
      s' = Dict.assign p.label size s := by
  obtain ⟨t, ht, h⟩ := Loop.bind_eq_ok.mp h
  obtain rfl : t = s' := by
    split_ifs at h
    exact Except.ok.inj h
  unfold record_fragment_size at ht
  dsimp only at ht
  split_ifs at ht
  · split at ht
    · rename_i token _
      obtain ⟨size, hsize, heq⟩ := Loop.map_eq_ok.mp ht
      exact Or.inr ⟨token, size, hsize, heq.symm⟩
    · cases ht
  · exact Or.inl (Except.ok.inj ht).symm

/-- The sizes that BoardReaders state are not negative. -/
theorem stated_sizes_nonneg (h : self.max_fragment_size_by_label = .ok sizes) :
    ∀ entry ∈ sizes, 0 ≤ entry.2 := by
  unfold max_fragment_size_by_label at h
  split at h
  · have hstep : ∀ (done : List Procinfo) (p : Procinfo) (s s' : List (String × ℤ)),
        (∀ entry ∈ s, 0 ≤ entry.2) → stated_fragment_size p s = .ok s' →
        ∀ entry ∈ s', 0 ≤ entry.2 := by
      intro done p s s' hs hstated entry hentry
      rcases stated_fragment_size_ok hstated with rfl | ⟨token, size, hsize, rfl⟩
      · exact hs entry hentry
      · rcases Dict.mem_assign hentry with rfl | hentry
        · exact fragment_size_of_token_nonneg hsize
        · exact hs entry hentry
    exact Loop.foldlM_induct hstep (fun entry h => absurd h List.not_mem_nil) h
  · obtain rfl := Except.ok.inj h
    exact fun entry h => absurd h List.not_mem_nil

/-! ## The results of the recursions -/

section Results

variable {scale : ℤ → Except String ℤ}

/-- The steps whose results make up a `Computed`. -/
structure Computes (b : Bookkeeping) (scale : ℤ → Except String ℤ) (c : Computed) : Prop where
  sizes : b.max_fragment_size_by_label = .ok c.max_fragment_size_by_label
  totals : b.count_fragments c.max_fragment_size_by_label = .ok c.totals
  acyclic : b.check_cycles = .ok ()
  expected : b.values (b.expected_fragments_recursion c.totals) =
    .ok c.expected_fragments_per_event
  event_sizes : b.values (b.max_event_size_recursion scale c.totals) = .ok c.max_event_sizes
  fragment_ids : b.values (b.fragment_ids_recursion c.totals) = .ok c.fragment_ids

theorem compute_ok {c : Computed} : self.compute scale = .ok c ↔ self.Computes scale c := by
  unfold compute
  constructor
  · intro h
    obtain ⟨sizes, hsizes, h⟩ := Loop.bind_eq_ok.mp h
    obtain ⟨totals, htotals, h⟩ := Loop.bind_eq_ok.mp h
    obtain ⟨⟨⟩, hcycles, h⟩ := Loop.bind_eq_ok.mp h
    obtain ⟨expected, hexpected, h⟩ := Loop.bind_eq_ok.mp h
    obtain ⟨event_sizes, hevents, h⟩ := Loop.bind_eq_ok.mp h
    obtain ⟨fragment_ids, hids, h⟩ := Loop.bind_eq_ok.mp h
    obtain rfl := Except.ok.inj h
    exact ⟨hsizes, htotals, hcycles, hexpected, hevents, hids⟩
  · rintro ⟨hsizes, htotals, hcycles, hexpected, hevents, hids⟩
    simp only [bind, Except.bind, hsizes, htotals, hcycles, hexpected, hevents, hids]
    rfl

/-- What is looked up in a table is the value of the recursion, and every subsystem is there. -/
theorem values_yields {α : Type} {r : Recursion String α String} {t : List (String × α)}
    (h : self.values r = .ok t) :
    (∀ ss v, t.lookup ss = some v → r.Yields ss v) ∧
      ∀ ss ∈ self.names, ∃ v, t.lookup ss = some v := by
  obtain ⟨hkeys, hyields⟩ := Recursion.table_yields Recursion.SoundCache.nil h
  refine ⟨fun ss v hlookup => hyields _ (Dict.mem_of_lookup hlookup), fun ss hss => ?_⟩
  exact Dict.lookup_of_mem_keys (hkeys ▸ hss)

/-- Without cycles among the subsystems, sources have smaller ranks. -/
theorem check_cycles_ok (h : self.check_cycles = .ok ()) :
    ∃ rank : String → ℕ, (∀ ss ∈ self.names, rank ss < self.names.length) ∧
      ∀ a b, Graph.Edge self.names self.sources_of a b → rank b < rank a := by
  unfold check_cycles at h
  split at h
  · cases h
  · cases h
  · rename_i hnone
    exact Graph.find_cycle_none hnone

/-- `find_cycle_in_subsystem_graph` answers where as many nested calls are allowed as there are
subsystems.  It finds nothing exactly where no subsystem is reached from itself along the sources,
and what it finds is a walk along the sources whose end lies on it before. -/
theorem find_cycle_exact (self : Bookkeeping) (limit : ℕ) :
    (self.names.length ≤ limit →
      (Graph.find_cycle self.names self.sources_of limit).isSome) ∧
    ∀ answer, Graph.find_cycle self.names self.sources_of limit = some answer →
      (answer = none ↔ Graph.Acyclic self.names self.sources_of) ∧
      ∀ path, answer = some path →
        path.IsChain (Graph.Edge self.names self.sources_of) ∧
          ∃ front w, path = front ++ [w] ∧ w ∈ front := by
  refine ⟨fun hlimit => Graph.find_cycle_isSome hlimit, fun answer hanswer => ?_⟩
  cases answer with
  | none =>
    obtain ⟨rank, -, hrank⟩ := Graph.find_cycle_none hanswer
    have hacyclic : Graph.Acyclic self.names self.sources_of := Graph.acyclic_of_rank hrank
    exact ⟨iff_of_true rfl hacyclic, fun path hpath => nomatch hpath⟩
  | some path =>
    obtain ⟨hchain, front, w, rfl, hw⟩ := Graph.find_cycle_some hanswer
    have hcycle : ¬ Graph.Acyclic self.names self.sources_of := Graph.not_acyclic_of_walk hchain hw
    refine ⟨iff_of_false (fun hnone => nomatch hnone) hcycle, ?_⟩
    intro path hpath
    obtain rfl := Option.some.inj hpath
    exact ⟨hchain, front, w, rfl, hw⟩

theorem source_list_ok {ss : String} {sources : List String}
    (h : self.source_list ss = .ok sources) : ss ∈ self.names ∧ self.sources_of ss = sources := by
  obtain ⟨info, hinfo, rfl⟩ := Loop.map_eq_ok.mp h
  have hlookup := getitem_eq_ok.mp hinfo
  refine ⟨List.mem_map.mpr ⟨_, Dict.mem_of_lookup hlookup, rfl⟩, ?_⟩
  rw [sources_of, hlookup]
  rfl

end Results

/-! ## An example -/

/-- A BoardReader with a document. -/
def reader (label subsystem document : String) : Procinfo :=
  { Procinfo.new .BoardReader label subsystem with fhicl_used := some document }

/-- Two BoardReaders, one of them in a subsystem that feeds the other's. -/
def two_readers (advanced : Bool) (document : String) : Bookkeeping where
  procinfos := [reader "component01" "1" document, reader "component02" "2" document]
  subsystems := [("1", ⟨[], some "2", true⟩), ("2", ⟨["1"], none, true⟩)]
  advanced_memory_usage := advanced
  strict_fragment_id_mode := false
  max_fragment_size_bytes := 1048576
  default_transfer := "Autodetect"
  br_transfer := "Autodetect"
  eb_transfer := "Autodetect"
  dl_transfer := "Autodetect"
  HOSTNAME := "localhost"
  recursion_limit := 1000

/-- A BoardReader sends one fragment of at most 1001 bytes. -/
def small_fragments : String := "\nfragment_id: 1\nmax_fragment_size_bytes: 1001\n"

/-- A BoardReader says nothing about its fragments. -/
def no_ids : String := "\ndestinations: \x7b\n\x7d\n"

end Bookkeeping

end DaqInterface
