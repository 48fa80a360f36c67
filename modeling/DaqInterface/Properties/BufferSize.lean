import DaqInterface.Properties.Links

/-!
# The sizes of the buffers

The size that a node names is computed from the BoardReader at its beginning, from the
events of a subsystem or from a document (`table_nodes_ok`).  So the nodes at the two ends
of a link name the same size exactly where the documents at both ends do
(`link_words_agree_iff`), and the buffer is large enough exactly where the division by 8
loses nothing (`buffer_suffices_iff`).
-/

namespace DaqInterface

namespace Bookkeeping

variable {self : Bookkeeping} {scale : ℤ → Except String ℤ} {c : Computed}

/-! ## What a node names -/

/-- The words of a size: a division of integers that gives a double, cut off. -/
def word_count (size : ℤ) : ℤ := Double.trunc (Double.round (size / 8))

/-- The size of the largest thing that a process sends: a fragment of a BoardReader, an event
of the others. -/
def sent_size (self : Bookkeeping) (c : Computed) (p : Procinfo) : Except String ℤ :=
  if p.name = .BoardReader then self.fragment_space c.max_fragment_size_by_label p
  else getitem c.max_event_sizes p.subsystem >>= self.event_size_for p

/-- The size for which the node for `p` in the sources of `q` is written. -/
def received_size (self : Bookkeeping) (c : Computed) (p q : Procinfo) : Except String ℤ :=
  if q.name = .EventBuilder then
    if p.name = .BoardReader then self.fragment_space c.max_fragment_size_by_label p
    else getitem c.max_event_sizes p.subsystem
  else self.sent_size c q

/-- The size for which the node for `q` in a table of `p` is written. -/
def written_size (self : Bookkeeping) (c : Computed) (p : Procinfo) (nodetype : NodeType)
    (q : Procinfo) : Except String ℤ :=
  match nodetype with
  | .destinations => self.sent_size c p
  | .sources => self.received_size c q p

theorem in_words_ok {size : ℤ} {words : ℚ} (h : in_words size = .ok words) :
    Double.trunc words = word_count size := by
  unfold in_words at h
  split at h
  · rename_i x hx
    obtain rfl := Except.ok.inj h
    rw [Double.of_rat_eq_some hx, word_count]
  · cases h

theorem bind_in_words_ok {size : Except String ℤ} {words : ℚ} (h : size >>= in_words = .ok words) :
    ∃ n, size = .ok n ∧ Double.trunc words = word_count n := by
  obtain ⟨n, hn, hwords⟩ := Loop.bind_eq_ok.mp h
  exact ⟨n, hn, in_words_ok hwords⟩

/-- The common size of the nodes of a table. -/
theorem buffer_size_words_ok {p : Procinfo} {nodetype : NodeType} {size : ℤ} {words : ℚ}
    (hsize : getitem c.max_event_sizes p.subsystem = .ok size)
    (hne : ¬ (nodetype = .sources ∧ p.name = .EventBuilder))
    (h : self.buffer_size_words c p nodetype size = .ok words) :
    ∃ n, self.sent_size c p = .ok n ∧ Double.trunc words = word_count n := by
  unfold buffer_size_words at h
  unfold sent_size
  split_ifs at h ⊢ with hbr hcond
  · exact bind_in_words_ok h
  · obtain ⟨n, hn, hwords⟩ := bind_in_words_ok h
    exact ⟨n, Loop.bind_eq_ok.mpr ⟨size, hsize, hn⟩, hwords⟩
  · exact absurd ⟨by tauto, by tauto⟩ hne

/-- The size of one source of an EventBuilder. -/
theorem source_size_words_ok {p q : Procinfo} {words : ℚ} (hq : q.name = .EventBuilder)
    (h : self.source_size_words c p = .ok words) :
    ∃ n, self.received_size c p q = .ok n ∧ Double.trunc words = word_count n := by
  unfold source_size_words at h
  unfold received_size
  rw [if_pos hq]
  split_ifs at h ⊢
  · exact bind_in_words_ok h
  · exact bind_in_words_ok h

/-- The words of the nodes that are written into a document. -/
theorem table_nodes_ok {p : Procinfo} {nodetype : NodeType} {inter : Bool} {nodes : List Node}
    (h : self.table_nodes c p nodetype inter = .ok nodes) :
    p.subsystem ∈ self.names ∧
      List.Forall₂ (fun q node => node.rank = q.rank ∧
        ∃ size, self.written_size c p nodetype q = .ok size ∧ node.words = word_count size)
        (self.procinfos_for_string p nodetype inter) nodes := by
  obtain ⟨size, hsize, h⟩ := Loop.bind_eq_ok.mp h
  obtain ⟨hss, common, hcommon, hnodes⟩ := create_nodes_ok h
  refine ⟨hss, hnodes.imp fun q node ⟨i, hnode⟩ => ⟨create_node_rank hnode, ?_⟩⟩
  obtain ⟨words, hwords, hnode⟩ := Loop.bind_eq_ok.mp hnode
  have hnodewords : node.words = Double.trunc words := by
    split at hnode
    · cases hnode
    · rw [← Except.ok.inj hnode]
  rw [hnodewords]
  by_cases heb : nodetype = .sources ∧ p.name = .EventBuilder
  · rw [if_pos heb] at hwords
    obtain ⟨rfl, hname⟩ := heb
    exact source_size_words_ok hname hwords
  · rw [if_neg heb] at hwords
    obtain rfl := Except.ok.inj hwords
    obtain ⟨n, hn, heq⟩ := buffer_size_words_ok hsize heb hcommon
    refine ⟨n, ?_, heq⟩
    cases nodetype with
    | destinations => exact hn
    | sources =>
      have hname : p.name ≠ .EventBuilder := fun hname => heb ⟨rfl, hname⟩
      rw [written_size, received_size, if_neg hname]
      exact hn

/-- An entry of a table is the node of one of its processes. -/
theorem node_in_table {p : Procinfo} {nodetype : NodeType} {inter : Bool} {nodes : List Node}
    (h : self.table_nodes c p nodetype inter = .ok nodes) {node : Node} (hnode : node ∈ nodes) :
    ∃ q ∈ self.procinfos_for_string p nodetype inter, node.rank = q.rank ∧
      ∃ size, self.written_size c p nodetype q = .ok size ∧ node.words = word_count size :=
  Recursion.exists_of_forall₂ (table_nodes_ok h).2 hnode

/-! ## The two ends of a link -/

/-- The documents at the two ends of a link ask for the same number of words: in advanced mode
and for a BoardReader there is nothing to ask for; else an event takes what a document states,
and what was computed for the subsystem where it states nothing, but an EventBuilder always
takes what was computed. -/
def EndsAgree (self : Bookkeeping) (c : Computed) (p q : Procinfo) : Prop :=
  self.advanced_memory_usage = true ∨ p.name = .BoardReader ∨
    ∃ size sent received, getitem c.max_event_sizes p.subsystem = .ok size ∧
      self.event_size_for p size = .ok sent ∧
      (if q.name = .EventBuilder then .ok size else self.event_size_for q size) = .ok received ∧
      word_count sent = word_count received

/-- Below an EventBuilder, a process gets data from its own subsystem. -/
theorem Linked.subsystem {p q : Procinfo} (h : self.Linked p q) (hq : q.name ≠ .EventBuilder) :
    p.subsystem = q.subsystem ∧ p.name ≠ .BoardReader ∧ q.name ≠ .BoardReader := by
  unfold Linked at h
  split at h <;> simp_all

/-- The sizes for which the two ends of a link are written. -/
theorem sizes_of_link {p q : Procinfo} (hlink : self.Linked p q) {sent received : ℤ}
    (hsent : self.sent_size c p = .ok sent) (hreceived : self.received_size c p q = .ok received) :
    word_count sent = word_count received ↔ self.EndsAgree c p q := by
  by_cases hreader : p.name = .BoardReader
  · have hq : q.name = .EventBuilder := by
      by_contra hq
      exact (hlink.subsystem hq).2.1 hreader
    rw [sent_size, if_pos hreader] at hsent
    rw [received_size, if_pos hq, if_pos hreader, hsent] at hreceived
    obtain rfl := Except.ok.inj hreceived
    exact ⟨fun _ => Or.inr (Or.inl hreader), fun _ => rfl⟩
  · rw [sent_size, if_neg hreader] at hsent
    obtain ⟨size, hsize, hsent⟩ := Loop.bind_eq_ok.mp hsent
    have hreceived' :
        (if q.name = .EventBuilder then .ok size else self.event_size_for q size) =
          .ok received := by
      rw [received_size] at hreceived
      split_ifs at hreceived ⊢ with hq
      · rw [← hsize, ← hreceived]
      · obtain ⟨hss, -, hqreader⟩ := hlink.subsystem hq
        rw [sent_size, if_neg hqreader, ← hss, hsize] at hreceived
        exact hreceived
    constructor
    · intro heq
      exact Or.inr (Or.inr ⟨size, sent, received, hsize, hsent, hreceived', heq⟩)
    · rintro (hadvanced | hreader' | ⟨size', sent', received', hsize', hsent', hrec, heq⟩)
      · have hfor : ∀ r : Procinfo, self.event_size_for r size = .ok size := fun r => by
          rw [event_size_for, if_pos hadvanced]
        rw [hfor] at hsent hreceived'
        rw [ite_self] at hreceived'
        rw [← Except.ok.inj hsent, ← Except.ok.inj hreceived']
      · exact absurd hreader' hreader
      · obtain rfl := Except.ok.inj (hsize.symm.trans hsize')
        obtain rfl := Except.ok.inj (hsent.symm.trans hsent')
        obtain rfl := Except.ok.inj (hreceived'.symm.trans hrec)
        exact heq

/-- For a link from `p` to `q`, whatever stands in their documents when the tables are written:
a node in a destinations table of `p`, such as the one for `q`, and the node for `p` in a
sources table of `q` name the same size exactly where the documents at both ends agree. -/
theorem link_words_agree_iff (hranks : (self.procinfos.map Procinfo.rank).Nodup)
    {p q : Procinfo} (hp : p ∈ self.procinfos) {dp dq : String} {inter : Bool}
    {destinations sources : List Node}
    (hdestinations : self.table_nodes c (p.with_document dp) .destinations inter =
      .ok destinations)
    (hsources : self.table_nodes c (q.with_document dq) .sources false = .ok sources)
    {n m : Node} (hn : n ∈ destinations) (hm : m ∈ sources) (hmrank : m.rank = p.rank) :
    n.words = m.words ↔ self.EndsAgree c (p.with_document dp) (q.with_document dq) := by
  obtain ⟨q', -, -, sent, hsent, hnwords⟩ := node_in_table hdestinations hn
  obtain ⟨p', hp', hprank, received, hreceived, hmwords⟩ := node_in_table hsources hm
  have hss : (q.with_document dq).subsystem ∈ self.names := (table_nodes_ok hsources).1
  obtain ⟨hmem, hlink⟩ := (linked_iff_source hss).mp hp'
  obtain rfl : p' = p := List.inj_on_of_nodup_map hranks hmem hp (hprank.symm.trans hmrank)
  have hlink' : self.Linked (p'.with_document dp) (q.with_document dq) := hlink
  have hreceived' : self.received_size c (p'.with_document dp) (q.with_document dq) =
      .ok received := hreceived
  rw [hnwords, hmwords]
  exact sizes_of_link hlink' hsent hreceived'

/-- The ranks and words of the nodes of a table, in a configuration that is accepted. -/
def table_words (self : Bookkeeping) (p : Procinfo) (nodetype : NodeType) :
    Except String (List (ℕ × ℤ)) := do
  let c ← self.compute memory_scale
  let nodes ← self.table_nodes c p nodetype false
  pure (nodes.map fun node => (node.rank, node.words))

theorem table_words_ok {p : Procinfo} {nodetype : NodeType} {words : List (ℕ × ℤ)}
    (h : self.table_words p nodetype = .ok words) :
    ∃ c nodes, self.compute memory_scale = .ok c ∧
      self.table_nodes c p nodetype false = .ok nodes ∧
      ∀ entry ∈ words, ∃ node ∈ nodes, node.rank = entry.1 ∧ node.words = entry.2 := by
  obtain ⟨c, hc, h⟩ := Loop.bind_eq_ok.mp h
  obtain ⟨nodes, hnodes, h⟩ := Loop.bind_eq_ok.mp h
  obtain rfl := Except.ok.inj h
  refine ⟨c, nodes, hc, hnodes, fun entry hentry => ?_⟩
  obtain ⟨node, hnode, rfl⟩ := List.mem_map.mp hentry
  exact ⟨node, hnode, rfl, rfl⟩

/-- A document with both tables, and perhaps the size of an event. -/
def tables_with (parameters : String) : String :=
  "\n" ++ parameters ++ "\nexpected_fragments_per_event: 0\nsources: \x7b\x7d\ndestinations: \x7b\x7d\n"

/-- Only the document of the EventBuilder states the size of an event. -/
def stated_by_builder : Bookkeeping :=
  reader_to_logger false "\nfragment_id: 1\ndestinations: \x7b\x7d\n"
    (tables_with "max_event_size_bytes: 2097152") (tables_with "")

/-- The EventBuilder has buffers for what its document states, the DataLogger for what was
computed. -/
theorem builder_and_logger_disagree :
    let builder := ranked .EventBuilder 1 (tables_with "max_event_size_bytes: 2097152")
    let logger := ranked .DataLogger 2 (tables_with "")
    builder ∈ stated_by_builder.procinfos ∧ logger ∈ stated_by_builder.procinfos ∧
    ∃ c destinations sources, stated_by_builder.compute memory_scale = .ok c ∧
      stated_by_builder.table_nodes c builder .destinations false = .ok destinations ∧
      stated_by_builder.table_nodes c logger .sources false = .ok sources ∧
      ∃ n ∈ destinations, ∃ m ∈ sources, n.rank = logger.rank ∧ m.rank = builder.rank ∧
        n.words = 262144 ∧ m.words = 131072 := by
  intro builder logger
  have hbuilder : stated_by_builder.table_words builder .destinations = .ok [(2, 262144)] := by
    decide +kernel
  have hlogger : stated_by_builder.table_words logger .sources = .ok [(1, 131072)] := by
    decide +kernel
  obtain ⟨c, destinations, hc, hdestinations, hn⟩ := table_words_ok hbuilder
  obtain ⟨c', sources, hc', hsources, hm⟩ := table_words_ok hlogger
  obtain rfl := Except.ok.inj (hc.symm.trans hc')
  obtain ⟨n, hnmem, hnrank, hnwords⟩ := hn _ List.mem_cons_self
  obtain ⟨m, hmmem, hmrank, hmwords⟩ := hm _ List.mem_cons_self
  exact ⟨by decide, by decide, c, destinations, sources, hc, hdestinations, hsources,
    n, hnmem, m, hmmem, hnrank, hmrank, hnwords, hmwords⟩

/-- The BoardReader and the EventBuilder name the same size. -/
theorem reader_and_builder_words :
    let reader := ranked .BoardReader 0 "\nfragment_id: 1\ndestinations: \x7b\x7d\n"
    let builder := ranked .EventBuilder 1 (tables_with "max_event_size_bytes: 2097152")
    ∃ c destinations sources, ∃ n ∈ destinations, ∃ m ∈ sources,
      stated_by_builder.table_nodes c reader .destinations false = .ok destinations ∧
      stated_by_builder.table_nodes c builder .sources false = .ok sources ∧
      n.words = m.words := by
  intro reader builder
  have hreader : stated_by_builder.table_words reader .destinations = .ok [(1, 131072)] := by
    decide +kernel
  have hbuilder : stated_by_builder.table_words builder .sources = .ok [(0, 131072)] := by
    decide +kernel
  obtain ⟨c, destinations, hc, hdestinations, hn⟩ := table_words_ok hreader
  obtain ⟨c', sources, hc', hsources, hm⟩ := table_words_ok hbuilder
  obtain rfl := Except.ok.inj (hc.symm.trans hc')
  obtain ⟨n, hnmem, hnrank, -⟩ := hn _ List.mem_cons_self
  obtain ⟨m, hmmem, hmrank, -⟩ := hm _ List.mem_cons_self
  have hmem : reader ∈ stated_by_builder.procinfos := by decide
  have hreaderdoc : stated_by_builder.table_nodes c (reader.with_document reader.document)
      .destinations false = .ok destinations := hdestinations
  have hbuilderdoc : stated_by_builder.table_nodes c (builder.with_document builder.document)
      .sources false = .ok sources := hsources
  refine ⟨c, destinations, sources, n, hnmem, m, hmmem, hdestinations, hsources, ?_⟩
  exact (link_words_agree_iff (by decide) hmem hreaderdoc hbuilderdoc hnmem hmmem hmrank).mpr
    (Or.inr (Or.inl rfl))

/-! ## What fits into a buffer -/

/-- The process at the sending end of a node for `q` in a table of `p`. -/
def sender (nodetype : NodeType) (p q : Procinfo) : Procinfo :=
  match nodetype with
  | .destinations => p
  | .sources => q

/-- In the words for `written` bytes there is room for `size` bytes: `written`, as a double,
reaches the next multiple of 8. -/
def Reaches (written size : ℤ) : Prop :=
  if 0 < size then (8 * ((size + 7) / 8) : ℤ) ≤ Double.round written
  else (8 * ((size + 7) / 8 - 1) : ℤ) < Double.round written

theorem le_words_iff (written size : ℤ) :
    size ≤ 8 * word_count written ↔ Reaches written size := by
  have hwords : size ≤ 8 * word_count written ↔ (size + 7) / 8 ≤ word_count written := by omega
  rw [hwords, word_count, Double.round_div_eight, Reaches]
  split_ifs with hpos
  · rw [Double.le_trunc_of_pos (by omega), le_div_iff₀ (by norm_num), mul_comm]
    push_cast
    exact Iff.rfl
  · rw [Double.le_trunc_of_nonpos (by omega), lt_div_iff₀ (by norm_num), mul_comm]
    push_cast
    exact Iff.rfl

/-- A size of at most 53 bits fits into its own buffer where it is a multiple of 8. -/
theorem reaches_self_iff {size : ℤ} (hpos : 0 < size) (hsize : size < 2 ^ 53) :
    Reaches size size ↔ 8 ∣ size := by
  have habs : |size| < 2 ^ 53 := by
    rw [abs_of_pos hpos]
    exact hsize
  rw [Reaches, if_pos hpos, Double.round_intCast habs, Int.cast_le]
  omega

/-- For every node that is written: the bytes for which it was computed, and also the bytes that
the process at the sending end sends, whatever its document is then, are at most 8 times its
words exactly where they fit; up to 53 bits the first means that they are a multiple of 8. -/
theorem buffer_suffices_iff {p : Procinfo} {nodetype : NodeType} {inter : Bool}
    {nodes : List Node} (h : self.table_nodes c p nodetype inter = .ok nodes) {node : Node}
    (hnode : node ∈ nodes) :
    ∃ q ∈ self.procinfos_for_string p nodetype inter, node.rank = q.rank ∧
      ∃ written, self.written_size c p nodetype q = .ok written ∧
        (written ≤ 8 * node.words ↔ Reaches written written) ∧
        (0 < written → written < 2 ^ 53 → (written ≤ 8 * node.words ↔ 8 ∣ written)) ∧
        ∀ document sent,
          self.sent_size c (sender nodetype p (q.with_document document)) = .ok sent →
          (sent ≤ 8 * node.words ↔ Reaches written sent) := by
  obtain ⟨q, hq, hrank, written, hwritten, hwords⟩ := node_in_table h hnode
  have hfits : ∀ size, size ≤ 8 * node.words ↔ Reaches written size := by
    intro size
    rw [hwords]
    exact le_words_iff written size
  refine ⟨q, hq, hrank, written, hwritten, hfits written, ?_, fun _ sent _ => hfits sent⟩
  intro hpos hsize
  rw [hfits written]
  exact reaches_self_iff hpos hsize

/-- A BoardReader whose document states the size of its fragments. -/
def stating_reader (size : String) : Procinfo :=
  ranked .BoardReader 0
    ("\nfragment_id: 1\nmax_fragment_size_bytes: " ++ size ++ "\ndestinations: \x7b\x7d\n")

/-- Its fragments go to an EventBuilder and a DataLogger, in advanced mode. -/
def stated_by_reader (size : String) : Bookkeeping :=
  reader_to_logger true (stating_reader size).document
    (tables_with "buffer_count: 2") (tables_with "buffer_count: 2")

/-- A fragment of 1000 bytes fits into the buffer. -/
theorem even_fragment_fits :
    let self := stated_by_reader "1000"
    ∃ c nodes, self.compute memory_scale = .ok c ∧
      self.table_nodes c (stating_reader "1000") .destinations false = .ok nodes ∧
      self.sent_size c (stating_reader "1000") = .ok 1000 ∧
      ∃ node ∈ nodes, 1000 ≤ 8 * node.words := by
  intro self
  have hwords : self.table_words (stating_reader "1000") .destinations = .ok [(1, 125)] := by
    decide +kernel
  have hsize : (self.compute memory_scale >>= fun c => self.sent_size c (stating_reader "1000")) =
      .ok 1000 := by decide +kernel
  obtain ⟨c, nodes, hc, hnodes, hall⟩ := table_words_ok hwords
  obtain ⟨c', hc', hsent⟩ := Loop.bind_eq_ok.mp hsize
  obtain rfl := Except.ok.inj (hc.symm.trans hc')
  obtain ⟨node, hnode, -, -⟩ := hall _ List.mem_cons_self
  obtain ⟨q, -, -, written, hwritten, -, hdvd, -⟩ := buffer_suffices_iff hnodes hnode
  obtain rfl : 1000 = written := Except.ok.inj (hsent.symm.trans hwritten)
  exact ⟨c, nodes, hc, hnodes, hsent, node, hnode,
    (hdvd (by norm_num) (by norm_num)).mpr (by norm_num)⟩

/-- A fragment of 1001 bytes does not: the buffer has 125 words. -/
theorem odd_fragment_does_not_fit :
    let self := stated_by_reader "1001"
    ∃ c nodes, self.compute memory_scale = .ok c ∧
      self.table_nodes c (stating_reader "1001") .destinations false = .ok nodes ∧
      self.sent_size c (stating_reader "1001") = .ok 1001 ∧
      ∃ node ∈ nodes, node.words = 125 ∧ ¬ 1001 ≤ 8 * node.words := by
  intro self
  have hwords : self.table_words (stating_reader "1001") .destinations = .ok [(1, 125)] := by
    decide +kernel
  have hsize : (self.compute memory_scale >>= fun c => self.sent_size c (stating_reader "1001")) =
      .ok 1001 := by decide +kernel
  obtain ⟨c, nodes, hc, hnodes, hall⟩ := table_words_ok hwords
  obtain ⟨c', hc', hsent⟩ := Loop.bind_eq_ok.mp hsize
  obtain rfl := Except.ok.inj (hc.symm.trans hc')
  obtain ⟨node, hnode, -, hwords⟩ := hall _ List.mem_cons_self
  refine ⟨c, nodes, hc, hnodes, hsent, node, hnode, hwords, ?_⟩
  rw [hwords]
  norm_num

end Bookkeeping

end DaqInterface
