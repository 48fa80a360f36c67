import DaqInterface.Properties.Fragments

/-!
# The size of the events

The sizes of the events satisfy the equation of their recursion.  So the size for a subsystem
is enough for all fragments that reach it (`event_size_bound`).
-/

namespace DaqInterface

namespace Bookkeeping

variable {self : Bookkeeping} {scale : ℤ → Except String ℤ}

/-! ## The equation of the event sizes -/

section EventSizes

variable {totals : Totals}

/-- The size of the events of a subsystem is what its own fragments and the events of its
sources need, and at least 10240. -/
theorem event_size_equation {val : String → ℤ → Prop} {ss : String} {size : ℤ}
    (h : (self.max_event_size_recursion scale totals).Equation val ss size) :
    ss ∈ self.names ∧ ∃ own ws, self.own_event_size scale totals ss = .ok own ∧
      List.Forall₂ val (self.sources_of ss) ws ∧ size = max (own + ws.sum) 10240 := by
  obtain ⟨own, sources, ws, hown, hsources, hws, rfl⟩ := h
  obtain ⟨hss, hsources⟩ := source_list_ok hsources
  have hcalls : List.Forall₂ val sources ws := by
    refine hws.imp fun c w hadds => ?_
    rcases hadds with heq | ⟨-, hval⟩
    · cases heq
    · exact hval
  have hsum : ws.foldl (fun size n => size + n) own = own + ws.sum := by
    clear hws hcalls hown
    induction ws generalizing own with
    | nil => simp
    | cons w ws ih => rw [List.foldl_cons, ih, List.sum_cons, add_assoc]
  refine ⟨hss, own, ws, hown, hsources ▸ hcalls, ?_⟩
  have hfold : (self.max_event_size_recursion scale totals).finish
      (ws.foldl (fun size n => size + n) own) = max (own + ws.sum) 10240 := by
    rw [hsum, max_def]
    unfold max_event_size_recursion
    dsimp only
    split_ifs <;> omega
  exact hfold

/-- The factor 1.1 in rational arithmetic. -/
def scale_exactly (size : ℤ) : Except String ℤ := .ok (Double.trunc (size * (11 / 10)))

theorem le_trunc_of_nonneg {size : ℤ} (h : 0 ≤ size) : size ≤ Double.trunc (size * (11 / 10)) := by
  have hsize : (0 : ℚ) ≤ size := by exact_mod_cast h
  have hprod : (0 : ℚ) ≤ size * (11 / 10) := by positivity
  rw [Double.trunc, if_pos hprod, Int.le_floor]
  linarith

/-- What a subsystem needs for its own fragments is a multiple of 8 and enough for them. -/
theorem own_event_size_bound {ss : String} {own : ℤ}
    (hscale : ∀ size size', 0 ≤ size → scale size = .ok size' → size ≤ size')
    (hspace : 0 ≤ totals.fragment_space ss)
    (hplain : self.advanced_memory_usage = false → 8 ∣ totals.fragment_space ss)
    (h : self.own_event_size scale totals ss = .ok own) :
    8 ∣ own ∧ totals.fragment_space ss ≤ own := by
  obtain ⟨-, -, h⟩ := Loop.bind_eq_ok.mp h
  dsimp only at h
  split at h
  · obtain ⟨size, hsize, h⟩ := Loop.bind_eq_ok.mp h
    obtain rfl := Except.ok.inj h
    have hle := hscale _ _ hspace hsize
    have hmod : 0 ≤ size % 8 ∧ size % 8 < 8 := by omega
    split_ifs <;> omega
  · rename_i hadv
    obtain rfl := Except.ok.inj h
    exact ⟨hplain (by simpa using hadv), le_refl _⟩

/-- Every size of a subsystem is a multiple of 8 and at least 10240. -/
theorem event_size_padded
    (hown : ∀ ss own, self.own_event_size scale totals ss = .ok own → 8 ∣ own) {ss : String}
    {size : ℤ} (h : (self.max_event_size_recursion scale totals).Yields ss size) :
    8 ∣ size ∧ 10240 ≤ size := by
  have hstep : ∀ ss size, (self.max_event_size_recursion scale totals).Equation
      (fun c w => (self.max_event_size_recursion scale totals).Yields c w ∧ 8 ∣ w ∧ 10240 ≤ w)
      ss size → 8 ∣ size ∧ 10240 ≤ size := by
    intro ss size heq
    obtain ⟨-, own, ws, hstart, hws, rfl⟩ := event_size_equation heq
    have hsum : 8 ∣ ws.sum := by
      refine List.dvd_sum fun w hw => ?_
      obtain ⟨c, -, -, hdvd, -⟩ := Recursion.exists_of_forall₂ hws hw
      exact hdvd
    have hstart8 := hown ss own hstart
    omega
  exact h.rec_on hstep

/-- The table of the event sizes as a function. -/
def size_in (max_event_sizes : List (String × ℤ)) (ss : String) : ℤ :=
  (max_event_sizes.lookup ss).getD 0

/-- The equation in terms of the table. -/
theorem size_in_equation {max_event_sizes : List (String × ℤ)}
    (hvalues : self.values (self.max_event_size_recursion scale totals) = .ok max_event_sizes)
    {ss : String} (hss : ss ∈ self.names) :
    (∀ c ∈ self.sources_of ss, c ∈ self.names) ∧
      ∃ own, self.own_event_size scale totals ss = .ok own ∧ size_in max_event_sizes ss =
        max (own + ((self.sources_of ss).map (size_in max_event_sizes)).sum) 10240 := by
  obtain ⟨hyields, hall⟩ := values_yields hvalues
  obtain ⟨size, hsize⟩ := hall ss hss
  obtain ⟨-, own, ws, hstart, hws, heq⟩ :=
    event_size_equation (Recursion.yields_iff.mp (hyields ss size hsize))
  have hvals : List.Forall₂ (fun c w => c ∈ self.names ∧ size_in max_event_sizes c = w)
      (self.sources_of ss) ws := by
    refine hws.imp fun c w hw => ?_
    obtain ⟨hc, -⟩ := event_size_equation (Recursion.yields_iff.mp hw)
    obtain ⟨w', hw'⟩ := hall c hc
    have huniq : w' = w := (hyields c w' hw').unique hw
    exact ⟨hc, by rw [size_in, hw', Option.getD_some, huniq]⟩
  obtain ⟨hdecl, hvals⟩ := (List.forall₂_and_left _ _).mp hvals
  have hws' : (self.sources_of ss).map (size_in max_event_sizes) = ws := by
    rw [← List.forall₂_eq_eq_eq]
    exact List.forall₂_map_left_iff.mpr hvals
  refine ⟨hdecl, own, hstart, ?_⟩
  rw [hws', ← heq, size_in, hsize, Option.getD_some]

/-- The bound for a subsystem in one computation. -/
structure EventSizeBound (b : Bookkeeping) (totals : Totals) (max_event_sizes : List (String × ℤ))
    (ss : String) (size : ℤ) : Prop where
  /-- Padded. -/
  multiple : 8 ∣ size
  /-- No smaller than the floor. -/
  floor : 10240 ≤ size
  /-- No smaller than what a source sends. -/
  sources : ∀ source ∈ b.sources_of ss, ∃ source_size,
    max_event_sizes.lookup source = some source_size ∧ source_size ≤ size
  /-- Enough for the BoardReaders of the subsystem and of everything upstream. -/
  reserved : Graph.weight totals.reserved (Graph.reachable b.sources_of ss) ≤ size

/-- Where a subsystem gets at least what is reserved for its own BoardReaders, the sizes are
large enough. -/
theorem event_size_bound_of_own {max_event_sizes : List (String × ℤ)}
    (hcycles : self.check_cycles = .ok ())
    (hvalues : self.values (self.max_event_size_recursion scale totals) = .ok max_event_sizes)
    (hreserved : ∀ share ∈ totals.reserved, 0 ≤ share.2)
    (hown : ∀ ss own, self.own_event_size scale totals ss = .ok own →
      8 ∣ own ∧ Graph.weight totals.reserved {ss} ≤ own)
    {ss : String} (hss : ss ∈ self.names) :
    ∃ size, max_event_sizes.lookup ss = some size ∧
      self.EventSizeBound totals max_event_sizes ss size := by
  obtain ⟨hyields, hall⟩ := values_yields hvalues
  obtain ⟨rank, -, hrank⟩ := check_cycles_ok hcycles
  have hsize : ∀ ss ∈ self.names, ∃ size, max_event_sizes.lookup ss = some size ∧
      size_in max_event_sizes ss = size ∧ 8 ∣ size ∧ 10240 ≤ size := by
    intro ss hss
    obtain ⟨size, hlookup⟩ := hall ss hss
    exact ⟨size, hlookup, by rw [size_in, hlookup, Option.getD_some],
      event_size_padded (fun ss own h => (hown ss own h).1) (hyields ss size hlookup)⟩
  have hweight : Graph.weight totals.reserved (Graph.reachable self.sources_of ss) ≤
      size_in max_event_sizes ss := by
    have hnext : ∀ v ∈ self.names, ∀ c ∈ self.sources_of v, c ∈ self.names ∧ rank c < rank v := by
      intro v hv c hc
      obtain ⟨hdecl, -⟩ := size_in_equation hvalues hv
      exact ⟨hdecl c hc, hrank v c ⟨hv, hc, hdecl c hc⟩⟩
    refine Graph.weight_reachable_le hreserved hnext (fun v hv => ?_) hss
    obtain ⟨-, own, hstart, heq⟩ := size_in_equation hvalues hv
    have hle := (hown v own hstart).2
    omega
  obtain ⟨size, hlookup, hval, hdvd, hfloor⟩ := hsize ss hss
  refine ⟨size, hlookup, hdvd, hfloor, fun source hsource => ?_, hval ▸ hweight⟩
  obtain ⟨hdecl, own, hstart, heq⟩ := size_in_equation hvalues hss
  obtain ⟨source_size, hlookup', hval', -, -⟩ := hsize source (hdecl source hsource)
  refine ⟨source_size, hlookup', ?_⟩
  -- the other sources add something, too
  have hnonneg : ∀ x ∈ (self.sources_of ss).map (size_in max_event_sizes), (0 : ℤ) ≤ x := by
    intro x hx
    obtain ⟨c, hc, rfl⟩ := List.mem_map.mp hx
    obtain ⟨size', -, hval'', -, hfloor'⟩ := hsize c (hdecl c hc)
    omega
  have hsingle : size_in max_event_sizes source ≤
      ((self.sources_of ss).map (size_in max_event_sizes)).sum :=
    List.single_le_sum hnonneg _ (List.mem_map.mpr ⟨source, hsource, rfl⟩)
  have hown0 : 0 ≤ own := (Graph.weight_nonneg hreserved {ss}).trans (hown ss own hstart).2
  omega

/-! ## The bound -/

/-- The settings allow only sizes that are multiples of 8; they are meant to be positive. -/
def PlainSize (self : Bookkeeping) : Prop :=
  self.advanced_memory_usage = false →
    0 < self.max_fragment_size_bytes ∧ 8 ∣ self.max_fragment_size_bytes

theorem fragment_space_nonneg {sizes : List (String × ℤ)} {p : Procinfo} {space : ℤ}
    (hplain : self.PlainSize) (hsizes : self.max_fragment_size_by_label = .ok sizes)
    (h : self.fragment_space sizes p = .ok space) : 0 ≤ space := by
  unfold fragment_space at h
  split at h
  · exact stated_sizes_nonneg hsizes _ (Dict.mem_of_lookup (getitem_eq_ok.mp h))
  · rename_i hadv
    obtain rfl := Except.ok.inj h
    exact (hplain (by simpa using hadv)).1.le

/-- Nothing negative is reserved. -/
theorem reserved_nonneg {sizes : List (String × ℤ)} (hplain : self.PlainSize)
    (hsizes : self.max_fragment_size_by_label = .ok sizes)
    (htotals : self.count_fragments sizes = .ok totals) :
    ∀ share ∈ totals.reserved, 0 ≤ share.2 := by
  intro share hshare
  obtain ⟨p, -, hp⟩ := Recursion.exists_of_forall₂ (reserved_for htotals) hshare
  obtain ⟨space, count, hspace, heq, -⟩ := hp.amount
  have hnonneg := fragment_space_nonneg hplain hsizes hspace
  rw [heq]
  positivity

/-- In plain mode, multiples of 8 are reserved. -/
theorem reserved_dvd {sizes : List (String × ℤ)} (hplain : self.PlainSize)
    (hadv : self.advanced_memory_usage = false)
    (htotals : self.count_fragments sizes = .ok totals) :
    ∀ share ∈ totals.reserved, 8 ∣ share.2 := by
  intro share hshare
  obtain ⟨p, -, hp⟩ := Recursion.exists_of_forall₂ (reserved_for htotals) hshare
  obtain ⟨space, count, hspace, heq, -⟩ := hp.amount
  rw [fragment_space, if_neg (by simp [hadv])] at hspace
  obtain rfl := Except.ok.inj hspace
  rw [heq]
  exact Dvd.dvd.mul_left (hplain hadv).2 _

end EventSizes

/-! ## The computations succeed -/

theorem getitem_of_mem {ss : String} (h : ss ∈ self.names) :
    ∃ info, getitem self.subsystems ss = .ok info := by
  obtain ⟨info, hinfo⟩ := Dict.lookup_of_mem_keys h
  exact ⟨info, getitem_eq_ok.mpr hinfo⟩

theorem source_list_of_mem {ss : String} (h : ss ∈ self.names) :
    self.source_list ss = .ok (self.sources_of ss) := by
  obtain ⟨info, hinfo⟩ := getitem_of_mem h
  rw [source_list, hinfo, sources_of, getitem_eq_ok.mp hinfo]
  rfl

/-- The sources of the subsystems are declared, and there are no cycles. -/
structure WellFounded (b : Bookkeeping) : Prop where
  declared : ∀ ss ∈ b.names, ∀ source ∈ b.sources_of ss, source ∈ b.names
  acyclic : Graph.Acyclic b.names b.sources_of

/-- A recursion over the sources succeeds for all subsystems. -/
theorem values_isOk {α : Type} {r : Recursion String α String} (hwf : self.WellFounded)
    (hlimit : self.names.length ≤ self.recursion_limit) (hkeys : r.keys = self.source_list)
    (hstart : ∀ ss ∈ self.names, ∃ sum, r.start ss = .ok sum)
    (hknown : ∀ ss ∈ self.names, ∀ c ∈ self.names, ∃ x, r.known ss c = .ok x) :
    ∃ t, self.values r = .ok t := by
  have hnone := (Graph.find_cycle_none_iff hlimit).mpr hwf.acyclic
  obtain ⟨rank, hlt, hrank⟩ := Graph.find_cycle_none hnone
  have hranked : r.Ranked self.names rank := by
    refine ⟨hstart, fun ss hss => ⟨self.sources_of ss, ?_, fun c hc => ?_⟩⟩
    · rw [hkeys, source_list_of_mem hss]
    · have hdecl := hwf.declared ss hss c hc
      obtain ⟨x, hx⟩ := hknown ss hss c hdecl
      exact ⟨x, hx, fun _ => ⟨hdecl, hrank ss c ⟨hss, hc, hdecl⟩⟩⟩
  exact Recursion.table_isOk hranked (fun ss hss => (hlt ss hss).trans_le hlimit)
    (List.Subset.refl _) []

/-- Where the BoardReaders could be counted and the subsystems have no cycles, everything can
be computed. -/
theorem compute_isOk {sizes : List (String × ℤ)} {totals : Totals} (hwf : self.WellFounded)
    (hlimit : self.names.length ≤ self.recursion_limit)
    (hscale : ∀ size, ∃ size', scale size = .ok size')
    (hsizes : self.max_fragment_size_by_label = .ok sizes)
    (htotals : self.count_fragments sizes = .ok totals) : ∃ c, self.compute scale = .ok c := by
  have hcycles : self.check_cycles = .ok () := by
    rw [check_cycles, (Graph.find_cycle_none_iff hlimit).mpr hwf.acyclic]
  have hexpected : ∃ t, self.values (self.expected_fragments_recursion totals) = .ok t := by
    refine values_isOk hwf hlimit rfl (fun ss hss => ?_) fun ss hss c hc => ?_
    · obtain ⟨info, hinfo⟩ := getitem_of_mem hss
      exact ⟨_, Loop.map_eq_ok.mpr ⟨info, hinfo, rfl⟩⟩
    · obtain ⟨info, hinfo⟩ := getitem_of_mem hc
      by_cases hself : c = ss
      · exact ⟨some 0, if_pos hself⟩
      · exact ⟨_, (if_neg hself).trans (Loop.map_eq_ok.mpr ⟨info, hinfo, rfl⟩)⟩
  have hevents : ∃ t, self.values (self.max_event_size_recursion scale totals) = .ok t := by
    refine values_isOk hwf hlimit rfl (fun ss hss => ?_) fun ss hss c hc => ⟨none, rfl⟩
    obtain ⟨info, hinfo⟩ := getitem_of_mem hss
    obtain ⟨size, hsize⟩ := hscale (totals.fragment_space ss)
    have hown : ∃ own, self.own_event_size scale totals ss = .ok own := by
      unfold own_event_size
      split_ifs
      · exact ⟨_, Loop.bind_eq_ok.mpr ⟨info, hinfo, Loop.bind_eq_ok.mpr ⟨size, hsize, rfl⟩⟩⟩
      · exact ⟨_, Loop.bind_eq_ok.mpr ⟨info, hinfo, rfl⟩⟩
    exact hown
  have hids : ∃ t, self.values (self.fragment_ids_recursion totals) = .ok t := by
    refine values_isOk hwf hlimit rfl (fun ss hss => ?_) fun ss hss c hc => ?_
    · obtain ⟨info, hinfo⟩ := getitem_of_mem hss
      exact ⟨_, Loop.map_eq_ok.mpr ⟨info, hinfo, rfl⟩⟩
    · obtain ⟨info, hinfo⟩ := getitem_of_mem hc
      exact ⟨_, Loop.map_eq_ok.mpr ⟨info, hinfo, rfl⟩⟩
  obtain ⟨expected, hexpected⟩ := hexpected
  obtain ⟨event_sizes, hevents⟩ := hevents
  obtain ⟨fragment_ids, hids⟩ := hids
  exact ⟨⟨sizes, totals, expected, event_sizes, fragment_ids⟩,
    compute_ok.mpr ⟨hsizes, htotals, hcycles, hexpected, hevents, hids⟩⟩

/-- Where the scaling does not make a size smaller, the sizes of a computation are enough. -/
theorem event_size_bound_of_scale {c : Computed} (hplain : self.PlainSize)
    (hscale : ∀ size size', 0 ≤ size → scale size = .ok size' → size ≤ size')
    (hc : self.compute scale = .ok c) {ss : String} (hss : ss ∈ self.names) :
    ∃ size, c.max_event_sizes.lookup ss = some size ∧
      self.EventSizeBound c.totals c.max_event_sizes ss size := by
  obtain ⟨hsizes, htotals, hcycles, -, hevents, -⟩ := compute_ok.mp hc
  have hreserved := reserved_nonneg hplain hsizes htotals
  refine event_size_bound_of_own hcycles hevents hreserved (fun ss own hown => ?_) hss
  have hspace : c.totals.fragment_space ss = Graph.weight c.totals.reserved {ss} :=
    fragment_space_eq htotals ss
  have hnonneg : 0 ≤ c.totals.fragment_space ss := by
    rw [hspace]
    exact Graph.weight_nonneg hreserved {ss}
  have hdvd : self.advanced_memory_usage = false → 8 ∣ c.totals.fragment_space ss := by
    intro hadv
    rw [hspace]
    exact Graph.dvd_weight (reserved_dvd hplain hadv htotals) {ss}
  rw [← hspace]
  exact own_event_size_bound hscale hnonneg hdvd hown

/-- With declared sources and no cycles: the event sizes can be computed, space is reserved
once for each BoardReader, and the size of a subsystem is a multiple of 8, no smaller than
10240 and the sizes of its sources, and enough for what is reserved for all BoardReaders in
it and upstream of it. -/
theorem event_size_bound {sizes : List (String × ℤ)} {totals : Totals} (hwf : self.WellFounded)
    (hplain : self.PlainSize) (hsizes : self.max_fragment_size_by_label = .ok sizes)
    (htotals : self.count_fragments sizes = .ok totals) :
    (self.names.length ≤ self.recursion_limit → ∃ c, self.compute scale_exactly = .ok c) ∧
      ∀ c, self.compute scale_exactly = .ok c →
        List.Forall₂ (self.ReservedFor sizes) self.boardreaders c.totals.reserved ∧
        ∀ ss ∈ self.names, ∃ size, c.max_event_sizes.lookup ss = some size ∧
          self.EventSizeBound c.totals c.max_event_sizes ss size := by
  constructor
  · intro hlimit
    exact compute_isOk hwf hlimit (fun size => ⟨_, rfl⟩) hsizes htotals
  · intro c hc
    obtain ⟨hsizes', htotals', -, -, -, -⟩ := compute_ok.mp hc
    obtain rfl : sizes = c.max_fragment_size_by_label := Except.ok.inj (hsizes.symm.trans hsizes')
    have hscale : ∀ size size', 0 ≤ size → scale_exactly size = .ok size' → size ≤ size' := by
      intro size size' hsize heq
      obtain rfl := Except.ok.inj heq
      exact le_trunc_of_nonneg hsize
    exact ⟨reserved_for htotals', fun ss hss => event_size_bound_of_scale hplain hscale hc hss⟩

theorem two_readers_wellFounded (advanced : Bool) (document : String) :
    (two_readers advanced document).WellFounded := by
  constructor
  · have hall : ∀ ss ∈ ["1", "2"], ∀ source ∈
        ((((two_readers false "").subsystems.lookup ss).map Subsystem.sources).getD []),
        source ∈ ["1", "2"] := by decide
    exact hall
  · have hlimit : (two_readers advanced document).names.length ≤ 1000 := by
      show 2 ≤ 1000
      omega
    exact (Graph.find_cycle_none_iff hlimit).mp (by rfl)

/-- The bound for two BoardReaders that state the size of their fragments. -/
theorem two_readers_event_size :
    ∃ c, (two_readers true small_fragments).compute scale_exactly = .ok c ∧
      ∀ ss ∈ ["1", "2"], ∃ size, c.max_event_sizes.lookup ss = some size ∧
        (two_readers true small_fragments).EventSizeBound c.totals c.max_event_sizes ss size := by
  have hplain : (two_readers true small_fragments).PlainSize := fun h => by cases h
  obtain ⟨sizes, hsizes⟩ : ∃ sizes,
      (two_readers true small_fragments).max_fragment_size_by_label = .ok sizes :=
    Loop.exists_of_isOk (by decide +kernel)
  obtain ⟨totals, htotals⟩ : ∃ totals,
      (two_readers true small_fragments).count_fragments sizes = .ok totals := by
    obtain rfl : [("component01", 1001), ("component02", 1001)] = sizes :=
      Except.ok.inj (Eq.trans (by decide +kernel) hsizes)
    exact Loop.exists_of_isOk (by decide +kernel)
  obtain ⟨hcomputed, hbound⟩ :=
    event_size_bound (two_readers_wellFounded true small_fragments) hplain hsizes htotals
  obtain ⟨c, hc⟩ := hcomputed (by decide)
  exact ⟨c, hc, (hbound c hc).2⟩

end Bookkeeping

end DaqInterface
