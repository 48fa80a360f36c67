import DaqInterface.Properties.Fragments

/-!
# The count of the fragments

The number of fragments that is written into the documents of a subsystem is the length of
the list of fragment ids that is written there (`expected_eq_length`).  It belongs to the
space that is reserved for the BoardReaders exactly where as many of them state no id as
state both a single one and a list (`fragments_counted_iff`).
-/

namespace DaqInterface

namespace Bookkeeping

variable {self : Bookkeeping} {scale : ℤ → Except String ℤ}

/-! ## The BoardReaders of a subsystem -/

/-- The BoardReaders of a subsystem. -/
def readers_in (self : Bookkeeping) (ss : String) : List Procinfo :=
  self.boardreaders.filter fun p => p.subsystem = ss

/-- A BoardReader that sends fragments. -/
def sends (p : Procinfo) : Bool := !found re_sends_no_frags p.document

/-- A BoardReader that sends fragments and states no id. -/
def states_no_id (p : Procinfo) : Bool :=
  sends p && (stated_id p.document).isNone && (stated_ids p.document).isNone

/-- A BoardReader that sends fragments and states a single id and a list of ids. -/
def states_both (p : Procinfo) : Bool :=
  sends p && (stated_id p.document).isSome && (stated_ids p.document).isSome

/-- The ids of a BoardReader are as many as its fragments, but for a reader that states no id
and for one that states both. -/
theorem ids_of_reader (p : Procinfo) :
    (fragments p).reader_ids.length + (if states_no_id p then 1 else 0) =
      (fragments p).generated_fragments_per_event + (if states_both p then 1 else 0) := by
  unfold fragments read_fragments states_no_id states_both sends
  cases hsends : found re_sends_no_frags p.document with
  | true => simp
  | false =>
    cases hid : stated_id p.document <;> cases hids : stated_ids p.document <;> simp [add_comm]

theorem ids_of_readers (readers : List Procinfo) :
    (readers.flatMap fun p => (fragments p).reader_ids).length + readers.countP states_no_id =
      (readers.map fun p => (fragments p).generated_fragments_per_event).sum +
        readers.countP states_both := by
  induction readers with
  | nil => rfl
  | cons p readers ih =>
    have hp := ids_of_reader p
    rw [List.flatMap_cons, List.length_append, List.map_cons, List.sum_cons, List.countP_cons,
      List.countP_cons]
    omega

/-! ## The recursions over the sources -/

/-- The two recursions add the same number for a source. -/
theorem adds_same_length {totals : Totals} {ss c : String} {n : ℕ} {ids : List FragmentId}
    (hne : c ≠ ss)
    (hn : (self.expected_fragments_recursion totals).Adds
      (fun c n => ∀ ids, (self.fragment_ids_recursion totals).Yields c ids → n = ids.length) ss c n)
    (hids : (self.fragment_ids_recursion totals).Adds
      (self.fragment_ids_recursion totals).Yields ss c ids) : n = ids.length := by
  have hcount : ∀ x, (self.expected_fragments_recursion totals).known ss c = .ok x →
      ∃ info, getitem self.subsystems c = .ok info ∧
        (if info.fragmentMode then none else some 1) = x := fun x hx =>
    Loop.map_eq_ok.mp ((if_neg hne).symm.trans hx)
  have hlist : ∀ x, (self.fragment_ids_recursion totals).known ss c = .ok x →
      ∃ info, getitem self.subsystems c = .ok info ∧
        (if info.fragmentMode then none else some [.subsystem c]) = x := fun x hx =>
    Loop.map_eq_ok.mp hx
  rcases hn with hn | ⟨hn, hcall⟩ <;> rcases hids with hids | ⟨hids, hyields⟩ <;>
    obtain ⟨info, hinfo, hmode⟩ := hcount _ hn <;>
    obtain ⟨info', hinfo', hmode'⟩ := hlist _ hids <;>
    obtain rfl := Except.ok.inj (hinfo.symm.trans hinfo')
  · cases hfragment : info.fragmentMode <;> simp [hfragment] at hmode hmode'
    rw [← hmode, ← hmode']
    rfl
  · cases hfragment : info.fragmentMode <;> simp [hfragment] at hmode hmode'
  · cases hfragment : info.fragmentMode <;> simp [hfragment] at hmode hmode'
  · exact hcall ids hyields

/-- The number of fragments of a subsystem is the number of its fragment ids. -/
theorem expected_eq_length {totals : Totals} (hcycles : self.check_cycles = .ok ()) {ss : String}
    {count : ℕ} (hcount : (self.expected_fragments_recursion totals).Yields ss count) :
    ∀ ids, (self.fragment_ids_recursion totals).Yields ss ids → count = ids.length := by
  obtain ⟨rank, -, hrank⟩ := check_cycles_ok hcycles
  have hstep : ∀ ss count, (self.expected_fragments_recursion totals).Equation
      (fun c n => (self.expected_fragments_recursion totals).Yields c n ∧
        ∀ ids, (self.fragment_ids_recursion totals).Yields c ids → n = ids.length) ss count →
      ∀ ids, (self.fragment_ids_recursion totals).Yields ss ids → count = ids.length := by
    rintro ss count ⟨start, sources, ws, hstart, hsources, hws, rfl⟩ ids hids
    obtain ⟨start', sources', ws', hstart', hsources', hws', rfl⟩ := Recursion.yields_iff.mp hids
    obtain rfl : sources = sources' := Except.ok.inj (hsources.symm.trans hsources')
    obtain ⟨hss, hlist⟩ := source_list_ok hsources
    -- a subsystem is not its own source
    have hne : ∀ c ∈ sources, c ≠ ss := by
      rintro c hc rfl
      exact lt_irrefl _ (hrank c c ⟨hss, hlist ▸ hc, hss⟩)
    have hlengths : List.Forall₂ (fun n ids => n = List.length ids) ws ws' :=
      Recursion.forall₂_of_common (fun c hc n ids hn hids =>
        adds_same_length (hne c hc) (hn.mono fun c n hcall => hcall.2) hids) hws hws'
    have hbegin : start = start'.length := by
      obtain ⟨-, -, rfl⟩ := Loop.map_eq_ok.mp hstart
      obtain ⟨-, -, rfl⟩ := Loop.map_eq_ok.mp hstart'
      exact (List.length_map _).symm
    clear hws hws' hstart hstart' hids
    show ws.foldl (fun count n => count + n) start =
      (ws'.foldl (fun ids more => ids ++ more) start').length
    induction hlengths generalizing start start' with
    | nil => exact hbegin
    | cons hlen _ ih =>
      rw [List.foldl_cons, List.foldl_cons]
      exact ih _ _ (by rw [List.length_append, hbegin, hlen])
  exact hcount.rec_on hstep

/-! ## Count and space -/

/-- What is counted for a subsystem belongs together. -/
structure CountsAgree (b : Bookkeeping) (c : Computed) (ss : String) : Prop where
  /-- The fragments counted for its BoardReaders are those for which space is reserved. -/
  counted : (c.totals.fragment_ids ss).length =
    ((b.readers_in ss).map fun p => (fragments p).generated_fragments_per_event).sum
  /-- The number written into its documents is the length of the list written there. -/
  filled : ∃ count ids, c.expected_fragments_per_event.lookup ss = some count ∧
    c.fragment_ids.lookup ss = some ids ∧ count = ids.length

/-- Without the strict mode: count, space and ids belong together in all subsystems exactly
where in each one as many sending BoardReaders state no id as state both kinds. -/
theorem fragments_counted_iff {c : Computed} (hoff : self.strict_fragment_id_mode = false)
    (hc : self.compute scale = .ok c) :
    (∀ ss ∈ self.names, self.CountsAgree c ss) ↔
      ∀ ss ∈ self.names,
        (self.readers_in ss).countP states_no_id = (self.readers_in ss).countP states_both := by
  obtain ⟨-, htotals, hcycles, hexpected, -, hids⟩ := compute_ok.mp hc
  have hcounted : ∀ ss, (c.totals.fragment_ids ss).length + (self.readers_in ss).countP states_no_id =
      ((self.readers_in ss).map fun p => (fragments p).generated_fragments_per_event).sum +
        (self.readers_in ss).countP states_both := by
    intro ss
    rw [fragment_ids_eq hoff htotals ss]
    exact ids_of_readers (self.readers_in ss)
  have hfilled : ∀ ss ∈ self.names, ∃ count ids,
      c.expected_fragments_per_event.lookup ss = some count ∧
      c.fragment_ids.lookup ss = some ids ∧ count = ids.length := by
    intro ss hss
    obtain ⟨hyields, hall⟩ := values_yields hexpected
    obtain ⟨hyields', hall'⟩ := values_yields hids
    obtain ⟨count, hcount⟩ := hall ss hss
    obtain ⟨ids, hlist⟩ := hall' ss hss
    exact ⟨count, ids, hcount, hlist,
      expected_eq_length hcycles (hyields ss count hcount) ids (hyields' ss ids hlist)⟩
  refine forall₂_congr fun ss hss => ⟨fun h => ?_, fun h => ⟨?_, hfilled ss hss⟩⟩
  · have heq := hcounted ss
    rw [h.counted] at heq
    omega
  · have heq := hcounted ss
    omega

/-- BoardReaders that state a single id. -/
theorem single_ids_counted :
    ∃ c, (two_readers true small_fragments).compute memory_scale = .ok c ∧
      ∀ ss ∈ ["1", "2"], (two_readers true small_fragments).CountsAgree c ss := by
  obtain ⟨c, hc⟩ : ∃ c, (two_readers true small_fragments).compute memory_scale = .ok c :=
    Loop.exists_of_isOk (by decide +kernel)
  exact ⟨c, hc, (fragments_counted_iff rfl hc).mpr (by decide +kernel)⟩

/-- BoardReaders that state no id: space is reserved for one fragment of each, none is counted. -/
theorem no_ids_not_counted :
    ∃ c, (two_readers false no_ids).compute memory_scale = .ok c ∧
      (c.totals.fragment_ids "1").length = 0 ∧
      (((two_readers false no_ids).readers_in "1").map fun p =>
        (fragments p).generated_fragments_per_event).sum = 1 ∧
      ¬ (two_readers false no_ids).CountsAgree c "1" := by
  obtain ⟨c, hc⟩ : ∃ c, (two_readers false no_ids).compute memory_scale = .ok c :=
    Loop.exists_of_isOk (by decide +kernel)
  have hsum : (((two_readers false no_ids).readers_in "1").map fun p =>
      (fragments p).generated_fragments_per_event).sum = 1 := by decide +kernel
  have hcount : (c.totals.fragment_ids "1").length = 0 := by
    have hcheck : ((two_readers false no_ids).compute memory_scale).toOption.map (fun c =>
        (c.totals.fragment_ids "1").length) = some 0 := by decide +kernel
    rw [hc] at hcheck
    exact Option.some.inj hcheck
  refine ⟨c, hc, hcount, hsum, fun h => ?_⟩
  have heq := h.counted
  rw [hcount, hsum] at heq
  cases heq

end Bookkeeping

end DaqInterface
