import DaqInterface.Model.Documents
import DaqInterface.Properties.EventSize
import DaqInterface.Properties.ParameterText
import DaqInterface.Properties.RouterPorts

/-!
# The line behind a `buffer_count`

In advanced memory mode `max_event_size_bytes` is put behind each `buffer_count` of a document
that does not state it.  The text that is put in is made of the first match of an expression
and replaces every match, so the document is the original with the new lines exactly where
the matches end where the parameters do and all have the text of the first
(`sizes_inserted_iff`).
-/

namespace DaqInterface

open Pattern Parts Scan

/-! ## Matches -/

/-- The text of a match: a new line, the name, a colon and digits. -/
def CountText (m : List Char) : Prop :=
  ∃ indent blanks blanks' digits,
    m = '\n' :: (indent ++ ("buffer_count".toList ++ (blanks ++ ':' :: (blanks' ++ digits)))) ∧
      (∀ c ∈ indent, isSpace c = true) ∧ (∀ c ∈ blanks, isSpace c = true) ∧
      (∀ c ∈ blanks', isSpace c = true) ∧ digits ≠ [] ∧ ∀ c ∈ digits, c.isDigit = true

/-- What is matched behind a new line. -/
theorem at_start_buffer_count (t : List Char) :
    re_buffer_count.at_start ('\n' :: t) =
      (behind_colon "buffer_count".toList (t.dropWhile isSpace)).bind fun v =>
        if v.head?.any Char.isDigit then
          some ([t.take (t.length - (v.dropWhile Char.isDigit).length)], v.dropWhile Char.isDigit)
        else none := by
  have hdigits : (seq (some_of Char.isDigit) empty).Avoids isSpace := by
    refine Avoids.seq (Avoids.seq (avoids_char fun c hc => ?_) _) _
    by_contra hdigit
    rw [not_isSpace_of_isDigit (by simpa using hdigit)] at hc
    cases hc
  have hword : "buffer_count".toList = 'b' :: "uffer_count".toList := by decide +kernel
  have hname : (text "buffer_count").Avoids isSpace := by
    refine avoids_text ?_ ?_
    · rw [hword]
      exact List.cons_ne_nil _ _
    · rw [hword]
      rintro c ⟨⟩
      decide
  have hparameter : (seq (parameter "buffer_count") (seq (some_of Char.isDigit) empty)).Avoids
      isSpace := (hname.seq _).seq _
  have hinner : (row [spaces, parameter "buffer_count", some_of Char.isDigit]).at_start t =
      (behind_colon "buffer_count".toList (t.dropWhile isSpace)).bind fun v =>
        if v.head?.any Char.isDigit then some ([], v.dropWhile Char.isDigit) else none := by
    show (seq spaces (seq (parameter "buffer_count") (seq (some_of Char.isDigit) empty))).at_start
      t = _
    rw [spaces, at_start_many_seq hparameter, at_start_parameter hdigits]
    congr 1
    funext v
    rw [at_start_seq_empty, at_start_some_of]
  have hnewline : "\n".toList = ['\n'] := by decide
  have hprefix : ['\n'] <+: '\n' :: t := List.prefix_append ['\n'] t
  show (seq (text "\n") (seq (group _) empty)).at_start _ = _
  rw [at_start_text_seq, hnewline, if_pos hprefix, at_start_seq_empty, at_start_group]
  show ((row [spaces, parameter "buffer_count", some_of Char.isDigit]).at_start t).map _ = _
  rw [hinner]
  cases behind_colon "buffer_count".toList (t.dropWhile isSpace) with
  | none => rfl
  | some v =>
    rw [Option.bind_some, Option.bind_some]
    split_ifs <;> rfl

theorem newline_of_match {t : List Char} {m : Match} (h : re_buffer_count.at_start t = some m) :
    ∃ t', t = '\n' :: t' := by
  have hnewline : "\n".toList = ['\n'] := by decide
  have hstart : (seq (text "\n") (seq (group _) empty)).at_start t = some m := h
  rw [at_start_text_seq, hnewline] at hstart
  split_ifs at hstart with hprefix
  obtain ⟨t', rfl⟩ := hprefix
  exact ⟨t', rfl⟩

theorem name_head? (rest : List Char) : ∀ c, ("buffer_count".toList ++ rest).head? = some c →
    isSpace c = false := by
  have hword : "buffer_count".toList = 'b' :: "uffer_count".toList := by decide +kernel
  rw [hword]
  rintro c ⟨⟩
  decide

theorem take_tail (m rest : List Char) :
    (m ++ rest).take ((m ++ rest).length - rest.length) = m := by
  rw [List.length_append, Nat.add_sub_cancel, List.take_left]

/-- A text of this form is matched where no further digit follows. -/
theorem match_of_countText {m rest : List Char} (hm : CountText m)
    (hrest : rest.head?.any Char.isDigit = false) :
    re_buffer_count.at_start (m ++ rest) = some ([m.tail], rest) := by
  obtain ⟨indent, blanks, blanks', digits, rfl, hindent, hblanks, hblanks', hne, hdigits⟩ := hm
  have hstop : ∀ c, rest.head? = some c → c.isDigit = false := by
    intro c hc
    rw [hc] at hrest
    exact hrest
  obtain ⟨d, ds, rfl⟩ := List.exists_cons_of_ne_nil hne
  have hd : d.isDigit = true := hdigits d List.mem_cons_self
  have hvalue : ∀ c, ((d :: ds) ++ rest).head? = some c → isSpace c = false := by
    rintro c ⟨⟩
    exact not_isSpace_of_isDigit hd
  have hbehind := behind_colon_of "buffer_count".toList hblanks hblanks' hvalue
  have hdrop : (indent ++ ("buffer_count".toList ++ (blanks ++ ':' :: (blanks' ++
      ((d :: ds) ++ rest))))).dropWhile isSpace = "buffer_count".toList ++ (blanks ++ ':' ::
        (blanks' ++ ((d :: ds) ++ rest))) := dropWhile_word hindent (name_head? _)
  have htext : indent ++ ("buffer_count".toList ++ (blanks ++ ':' :: (blanks' ++ d :: ds))) ++
      rest = indent ++ ("buffer_count".toList ++ (blanks ++ ':' ::
        (blanks' ++ ((d :: ds) ++ rest)))) := by simp
  have hdigit : ((d :: ds) ++ rest).dropWhile Char.isDigit = rest := dropWhile_word hdigits hstop
  rw [List.cons_append, at_start_buffer_count, htext, hdrop, hbehind, Option.bind_some,
    if_pos (by simpa using hd), hdigit, ← htext, take_tail]
  rfl

/-- Every match has this form, and no further digit follows. -/
theorem countText_of_match {t : List Char} {m : Match} (h : re_buffer_count.at_start t = some m) :
    ∃ text, t = text ++ m.2 ∧ m.1 = [text.tail] ∧ CountText text ∧
      m.2.head?.any Char.isDigit = false := by
  obtain ⟨t', rfl⟩ := newline_of_match h
  rw [at_start_buffer_count] at h
  obtain ⟨v, hv, h⟩ := Option.bind_eq_some_iff.mp h
  split_ifs at h with hdigit
  obtain rfl := Option.some.inj h
  obtain ⟨blanks, blanks', heq, hblanks, hblanks'⟩ := behind_colon_eq hv
  have hsplit : t' = (t'.takeWhile isSpace ++ ("buffer_count".toList ++ (blanks ++ ':' ::
      (blanks' ++ v.takeWhile Char.isDigit)))) ++ v.dropWhile Char.isDigit := by
    conv_lhs => rw [← List.takeWhile_append_dropWhile (p := isSpace) (l := t'), heq,
      ← List.takeWhile_append_dropWhile (p := Char.isDigit) (l := v)]
    simp only [List.append_assoc, List.cons_append]
  refine ⟨'\n' :: (t'.takeWhile isSpace ++ ("buffer_count".toList ++ (blanks ++ ':' ::
      (blanks' ++ v.takeWhile Char.isDigit)))), ?_, ?_, ⟨_, _, _, _, rfl, ?_, hblanks, hblanks',
      ?_, ?_⟩, ?_⟩
  · rw [List.cons_append, ← hsplit]
  · show [t'.take _] = [_]
    conv_lhs => rw [hsplit]
    rw [take_tail]
    rfl
  · exact List.all_eq_true.mp List.all_takeWhile
  · cases v with
    | nil => cases hdigit
    | cons c v =>
      rw [List.takeWhile_cons_of_pos (by simpa using hdigit)]
      exact List.cons_ne_nil _ _
  · exact List.all_eq_true.mp List.all_takeWhile
  · cases hhead : (v.dropWhile Char.isDigit).head? with
    | none => rfl
    | some c =>
      have hnot := List.head?_dropWhile_not Char.isDigit v
      rw [hhead] at hnot
      simpa using hnot

/-! ## The documents -/

/-- The line with the size. -/
def event_size_line (size : ℤ) : List Char :=
  ("\nmax_event_size_bytes: " ++ toString size).toList

/-- The parts between the matches. -/
def count_matches (document : List Char) : List (Segment (List (List Char))) :=
  parts (matches_of re_buffer_count) 0 [] document

/-- The parts between the parameters. -/
def counts (document : List Char) : List (Segment Parameter) :=
  parameter_parts (fun key => decide (key = "buffer_count".toList)) document

/-- The document with a line behind each `buffer_count`. -/
def with_event_sizes (size : ℤ) (document : List Char) : List Char :=
  render (fun text _ => text ++ event_size_line size) (counts document)

/-- The text up to its items, which is the same for the matches and for the parameters, and the
items of the matches are all alike. -/
structure CountsAlike (document : List Char) : Prop where
  /-- The expression for `max_event_size_bytes` is not found. -/
  not_stated : re_max_evt_size_search.search document = none
  /-- The matches end where the parameters end. -/
  ends : pieces (fun text _ => text) (count_matches document) =
    pieces (fun text _ => text) (counts document)
  /-- The matches are the same text. -/
  alike : ∀ a ∈ items (count_matches document), ∀ b ∈ items (count_matches document), a.1 = b.1

variable {document before rest : List Char}

theorem consumes_buffer_count : Consumes re_buffer_count := by
  have hnewline : "\n".toList ≠ [] := by decide
  exact consumes_of_text hnewline

/-- The items of the matches have the form of a match, and their group is all but the new line. -/
theorem countText_of_mem_items {item : List Char × List (List Char)}
    (h : item ∈ items (parts (matches_of re_buffer_count) 0 before rest)) :
    CountText item.1 ∧ item.2 = [item.1.tail] := by
  obtain ⟨before', more, n, hfind, htake⟩ := found_of_mem_items h
  obtain ⟨m, hm, heq⟩ := Option.map_eq_some_iff.mp hfind
  obtain ⟨hn, ha⟩ := Prod.mk.inj heq
  obtain ⟨text, hsplit, hgroup, htext, -⟩ := countText_of_match hm
  have hsame : item.1 = text := by
    rw [htake, ← hn, hsplit, take_tail]
  rw [hsame]
  exact ⟨htext, ha ▸ hgroup⟩

theorem CountText.cons {m : List Char} (h : CountText m) : m = '\n' :: m.tail := by
  obtain ⟨indent, blanks, blanks', digits, rfl, -⟩ := h
  rfl

theorem CountText.getLast? {m : List Char} (h : CountText m) :
    ∃ d, m.getLast? = some d ∧ d.isDigit = true := by
  obtain ⟨indent, blanks, blanks', digits, rfl, -, -, -, hne, hdigits⟩ := h
  refine ⟨digits.getLast hne, ?_, hdigits _ (List.getLast_mem hne)⟩
  have hsplit : '\n' :: (indent ++ ("buffer_count".toList ++ (blanks ++ ':' ::
      (blanks' ++ digits)))) = ('\n' :: (indent ++ ("buffer_count".toList ++ (blanks ++ ':' ::
        blanks')))) ++ digits := by simp
  rw [hsplit, List.getLast?_append_of_ne_nil _ hne, List.getLast?_eq_some_getLast hne]

/-! ## The mark -/

theorem event_size_line_cons (size : ℤ) : ∃ tail, event_size_line size = '\n' :: tail ∧
    '\n' ∉ tail := by
  have hword : "\nmax_event_size_bytes: ".toList = '\n' :: "max_event_size_bytes: ".toList := by
    decide +kernel
  refine ⟨"max_event_size_bytes: ".toList ++ (toString size).toList, ?_, ?_⟩
  · unfold event_size_line
    rw [String.toList_append, hword]
    rfl
  · intro hmem
    rcases List.mem_append.mp hmem with hmem | hmem
    · revert hmem
      decide +kernel
    · exact not_mem_toString_int (by decide) (by decide) size hmem

/-- A document with such a line is one in which the expression for it is found. -/
theorem line_not_infix {size : ℤ} (hsize : 0 ≤ size)
    (h : re_max_evt_size_search.search document = none) :
    ¬ event_size_line size <:+: document := by
  rintro ⟨front, back, rfl⟩
  obtain ⟨n, rfl⟩ := Int.eq_ofNat_of_zero_le hsize
  obtain ⟨d, ds, htext, hdigits⟩ := digits_of n
  have hd : isDecimal d = true := by
    unfold isDecimal
    rw [hdigits d List.mem_cons_self]
    rfl
  have hword : "\nmax_event_size_bytes: ".toList =
      "\n".toList ++ ("max_event_size_bytes".toList ++ (":".toList ++ [' '])) := by decide +kernel
  have hline : event_size_line (n : ℤ) ++ back = "\n".toList ++ ("max_event_size_bytes".toList ++
      (":".toList ++ ' ' :: d :: (ds ++ back))) := by
    have hnumber : (toString (n : ℤ)).toList = d :: ds := htext
    unfold event_size_line
    rw [String.toList_append, hword, hnumber]
    simp
  have hself : ∀ (ok : Char → Bool) (rest : List Char), ([], rest) ∈ (many ok).ways rest :=
    fun ok rest => List.mem_map.mpr ⟨rest, self_mem_runs ok rest, rfl⟩
  have hblank : ([], d :: (ds ++ back)) ∈ spaces.ways (' ' :: d :: (ds ++ back)) := by
    refine List.mem_map.mpr ⟨d :: (ds ++ back), ?_, rfl⟩
    rw [runs, if_pos (by decide)]
    exact List.mem_append_left _ (self_mem_runs _ _)
  have hdigit : ([], ds ++ back) ∈ (char isDecimal).ways (d :: (ds ++ back)) := by
    rw [ways, if_pos hd]
    exact List.mem_singleton_self _
  have hnothing : ∀ rest, ([], rest) ∈ Pattern.empty.ways rest :=
    fun rest => List.mem_singleton_self _
  have hparameter : ([], d :: (ds ++ back)) ∈ (parameter "max_event_size_bytes").ways
      ("max_event_size_bytes".toList ++ (":".toList ++ ' ' :: d :: (ds ++ back))) :=
    mem_ways_seq_of (mem_ways_text _ _) (mem_ways_seq_of (hself _ _)
      (mem_ways_seq_of (mem_ways_text _ _) (mem_ways_seq_of hblank (hnothing _))))
  have hmem : ([], ds ++ back) ∈ re_max_evt_size_search.ways (event_size_line n ++ back) := by
    rw [hline]
    exact mem_ways_seq_of (mem_ways_text _ _) (mem_ways_seq_of (hself _ _)
      (mem_ways_seq_of hparameter (mem_ways_seq_of (mem_ways_seq_of hdigit (hself _ _))
        (hnothing _))))
  have hsome := search_isSome_of_mem front hmem
  rw [← List.append_assoc, h] at hsome
  cases hsome

/-! ## The lines that are put in -/

/-- The pieces between the lines, where every match has been replaced by one text. -/
theorem piece_cases {text piece : List Char}
    (h : piece ∈ pieces (fun _ _ => text) (parts (matches_of re_buffer_count) 0 before rest)) :
    ∃ gap, gap <:+: rest ∧ (piece = gap ∨ piece = gap ++ text) := by
  induction before, rest using first_induction (matches_of re_buffer_count) with
  | none before rest hitems hpieces =>
    rw [hpieces] at h
    exact ⟨rest, List.infix_refl rest, Or.inl (List.mem_singleton.mp h)⟩
  | some before gap found more a hne hfind hitems hpieces ih =>
    rw [hpieces] at h
    rcases List.mem_cons.mp h with rfl | h
    · exact ⟨gap, ⟨[], found ++ more, by simp⟩, Or.inr rfl⟩
    · obtain ⟨gap', hgap, hpiece⟩ := ih h
      refine ⟨gap', hgap.trans ⟨gap ++ found, [], ?_⟩, hpiece⟩
      rw [List.append_nil, List.append_assoc]

/-- Where the pieces are the same with one text for all matches, all matches are this text: the
pieces of the parameters end where no further digit follows. -/
theorem items_eq_of_pieces {first : List Char} (hfirst : CountText first) {chosen : List Char → Bool}
    (h : pieces (fun _ _ => first) (parts (matches_of re_buffer_count) 0 before rest) =
      pieces (fun text _ => text) (parts (parameters chosen) 0 before rest)) :
    ∀ item ∈ items (parts (matches_of re_buffer_count) 0 before rest), item.1 = first := by
  induction before, rest using first_induction (matches_of re_buffer_count) with
  | none before rest hitems hpieces =>
    intro item hitem
    rw [hitems] at hitem
    exact absurd hitem List.not_mem_nil
  | some before gap found more a hne hfind hitems hpieces ih =>
    obtain ⟨n, hn, htake⟩ := hfind
    cases Parts.first (parameters chosen) before (gap ++ (found ++ more)) with
    | none hnone hpieces' =>
      rw [hpieces, hpieces'] at h
      exact absurd (List.cons.inj h).2 (pieces_ne_nil _ _)
    | some gap' found' more' p hrest hne' hfind' hitems' hpieces' =>
      obtain ⟨n', hn', htake'⟩ := hfind'
      rw [hpieces, hpieces'] at h
      obtain ⟨hpiece, hmore⟩ := List.cons.inj h
      obtain ⟨d, hd, hdigit⟩ := hfirst.getLast?
      have hne_first : first ≠ [] := by
        intro hnil
        rw [hnil] at hd
        cases hd
      have hlast : found'.getLast? = some d := by
        have heq := congrArg List.getLast? hpiece
        rwa [List.getLast?_append_of_ne_nil _ hne_first, List.getLast?_append_of_ne_nil _ hne', hd,
          eq_comm] at heq
      have hstop : more'.head?.any Char.isDigit = false := parameters_end hn' htake' hlast hdigit
      have hrest' : found ++ more = first ++ more' := by
        have heq : gap' ++ (found' ++ more') = gap ++ (first ++ more') := by
          rw [← List.append_assoc, ← hpiece, List.append_assoc]
        exact List.append_cancel_left (hrest.trans heq)
      have hmatch := match_of_countText hfirst hstop
      have hlength : n = first.length := by
        rw [hrest', matches_of, hmatch, Option.map_some, List.length_append,
          Nat.add_sub_cancel] at hn
        exact (Prod.mk.inj (Option.some.inj hn)).1.symm
      have hfound : found = first := by
        rw [htake, hrest', hlength, List.take_left]
      have hmore' : more = more' := by
        rw [hfound] at hrest'
        exact List.append_cancel_left hrest'
      have hbefore : found'.reverse ++ (gap'.reverse ++ before) =
          found.reverse ++ (gap.reverse ++ before) := by
        rw [← List.append_assoc, ← List.append_assoc, ← List.reverse_append, ← List.reverse_append,
          hfound, hpiece]
      rw [hbefore, ← hmore'] at hmore
      intro item hitem
      rw [hitems] at hitem
      rcases List.mem_cons.mp hitem with rfl | hitem
      · exact hfound
      · exact ih hmore item hitem

/-- What is put in the place of all matches, made of the first. -/
theorem substitute_counts {first : List Char × List (List Char)}
    (hfirst : (items (count_matches document)).head? = some first) (size : ℤ) :
    substitute re_buffer_count ("\n" ++ String.ofList first.1.tail ++ "\nmax_event_size_bytes: " ++
      toString size) document =
      (event_size_line size).intercalate (pieces (fun _ _ => first.1) (count_matches document)) := by
  obtain ⟨htext, -⟩ := countText_of_mem_items (List.mem_of_head? hfirst)
  have hnewline : "\n".toList = ['\n'] := by decide
  have hreplacement : ("\n" ++ String.ofList first.1.tail ++ "\nmax_event_size_bytes: " ++
      toString size).toList = first.1 ++ event_size_line size := by
    unfold event_size_line
    conv_rhs => rw [htext.cons]
    simp only [String.toList_append, String.toList_ofList, hnewline, List.append_assoc,
      List.cons_append, List.nil_append]
  unfold substitute
  rw [sub_eq_render consumes_buffer_count _ [] document, hreplacement]
  exact render_mark (fun _ _ => first.1) (event_size_line size) _

theorem first_group_counts (p : Procinfo) : first_group re_buffer_count p.document =
    ((items (count_matches p.document.toList)).head?).map fun item => item.1.tail := by
  unfold first_group
  rw [search_eq_head consumes_buffer_count []]
  cases hhead : (items (parts (matches_of re_buffer_count) 0 [] p.document.toList)).head? with
  | none =>
    unfold count_matches
    rw [hhead]
    rfl
  | some item =>
    obtain ⟨-, hgroup⟩ := countText_of_mem_items (List.mem_of_head? hhead)
    unfold count_matches
    rw [hhead]
    simp [hgroup]

/-- The text with one text for all matches and the lines between the pieces is the document with
the lines exactly where the matches are all alike and end where the parameters end. -/
theorem intercalate_counts_iff {first : List Char × List (List Char)} {size : ℤ} (hsize : 0 ≤ size)
    (hstated : re_max_evt_size_search.search document = none)
    (hfirst : (items (count_matches document)).head? = some first) :
    (event_size_line size).intercalate (pieces (fun _ _ => first.1) (count_matches document)) =
      with_event_sizes size document ↔ CountsAlike document := by
  have hnot := line_not_infix hsize hstated
  obtain ⟨tail, hline, htail⟩ := event_size_line_cons size
  obtain ⟨htext, -⟩ := countText_of_mem_items (List.mem_of_head? hfirst)
  have hspec : with_event_sizes size document =
      (event_size_line size).intercalate (pieces (fun text _ => text) (counts document)) :=
    render_mark (fun text _ => text) (event_size_line size) _
  have hcongr : (∀ item ∈ items (count_matches document), item.1 = first.1) →
      pieces (fun text _ => text) (count_matches document) =
        pieces (fun _ _ => first.1) (count_matches document) :=
    fun h => pieces_congr h
  rw [hspec]
  constructor
  · intro h
    have hfirst_infix : first.1 <:+: document := infix_of_mem_items (List.mem_of_head? hfirst)
    have hpieces : pieces (fun _ _ => first.1) (count_matches document) =
        pieces (fun text _ => text) (counts document) := by
      refine intercalate_inj hline htail (pieces_ne_nil _ _) (pieces_ne_nil _ _) ?_ ?_ h
      · intro piece hpiece hpart
        obtain ⟨gap, hgap, rfl | rfl⟩ := piece_cases hpiece
        · exact hnot (hpart.trans hgap)
        · rw [htext.cons] at hpart
          rcases infix_append_of_head hline htail hpart with hin | hin
          · exact hnot (hin.trans hgap)
          · rw [← htext.cons] at hin
            exact hnot (hin.trans hfirst_infix)
      · intro piece hpiece hpart
        have hflatten : (pieces (fun text _ => text) (counts document)).flatten = document :=
          flatten_pieces _ _ _
        exact hnot (hpart.trans (hflatten ▸ List.infix_of_mem_flatten hpiece))
    have hitems := items_eq_of_pieces htext hpieces
    refine ⟨hstated, ?_, fun a ha b hb => ?_⟩
    · rw [hcongr hitems, hpieces]
    · rw [hitems a ha, hitems b hb]
  · intro h
    rw [← hcongr fun item hitem => h.alike item hitem first (List.mem_of_head? hfirst), h.ends]

/-! ## The change of a document -/

theorem consumes_max_evt_size : Consumes re_max_evt_size_sub := by
  have hname : "max_event_size_bytes".toList ≠ [] := by decide +kernel
  exact consumes_parameter hname

/-- Where the document states the size already, or seems to, no line is put in. -/
theorem substitute_stated_ne {size : ℤ} (hcounts : items (counts document) ≠ []) :
    substitute re_max_evt_size_sub ("max_event_size_bytes: " ++ toString size) document ≠
      with_event_sizes size document := by
  intro h
  obtain ⟨tail, hline, htail⟩ := event_size_line_cons size
  have hnew : '\n' ∉ ("max_event_size_bytes: " ++ toString size).toList := by
    rw [String.toList_append]
    intro hmem
    rcases List.mem_append.mp hmem with hmem | hmem
    · revert hmem
      decide +kernel
    · exact not_mem_toString_int (by decide) (by decide) size hmem
  have hle : (substitute re_max_evt_size_sub ("max_event_size_bytes: " ++ toString size)
      document).count '\n' ≤ document.count '\n' := by
    have hcount := count_render_le (α := List (List Char)) (fun _ _ => hnew)
      (parts (matches_of re_max_evt_size_sub) 0 [] document)
    rw [render_text, ← sub_eq_render consumes_max_evt_size _ [] document] at hcount
    exact hcount
  have hspec : (with_event_sizes size document).count '\n' =
      document.count '\n' + (items (counts document)).length * (event_size_line size).count '\n' := by
    have hcount := count_render_mark '\n' (event_size_line size) (counts document)
    have htext : render (fun text _ => text) (counts document) = document := render_text _ _ _
    rwa [htext] at hcount
  have hpos := List.length_pos_iff.mpr hcounts
  have hmark : (event_size_line size).count '\n' = 1 := by
    rw [hline, List.count_cons_self, List.count_eq_zero_of_not_mem htail]
  rw [h, hspec, hmark] at hle
  omega

namespace Bookkeeper

open Bookkeeping (Computed)

variable {self : Bookkeeper} {c : Computed} {p : Procinfo} {size : ℤ}

/-- For a size that is not negative, the document gets its lines exactly where the matches are all
alike and end where the parameters end. -/
theorem set_max_event_size_iff (hadvanced : self.advanced_memory_usage = true)
    (hreceives : receives_events p = true) (hcounts : items (counts p.document.toList) ≠ [])
    (hsize : getitem c.max_event_sizes p.subsystem = .ok size) (hle : 0 ≤ size) :
    self.set_max_event_size c p = .ok (with_event_sizes size p.document.toList) ↔
      CountsAlike p.document.toList := by
  unfold set_max_event_size
  rw [if_pos ⟨hadvanced, hreceives⟩, hsize]
  by_cases hfound : found re_max_evt_size_search p.document = true
  · rw [if_pos hfound]
    constructor
    · intro h
      exact absurd (Except.ok.inj h) (substitute_stated_ne hcounts)
    · intro h
      unfold found at hfound
      rw [h.not_stated] at hfound
      cases hfound
  · have hstated : re_max_evt_size_search.search p.document.toList = none := by
      unfold found at hfound
      simpa using hfound
    rw [if_neg hfound, first_group_counts]
    cases hfirst : (items (count_matches p.document.toList)).head? with
    | none =>
      have hnone : items (count_matches p.document.toList) = [] := List.head?_eq_none_iff.mp hfirst
      constructor
      · intro h
        cases h
      · intro h
        exfalso
        have hends := h.ends
        cases Parts.first (matches_of re_buffer_count) [] p.document.toList with
        | some gap text more a hrest hne hfind hitems hpieces =>
          rw [count_matches, hitems] at hnone
          cases hnone
        | none _ hpieces =>
          rw [count_matches, hpieces] at hends
          cases Parts.first (parameters fun key => decide (key = "buffer_count".toList)) []
              p.document.toList with
          | none hitems _ => exact hcounts hitems
          | some gap text more a hrest hne hfind hitems hpieces' =>
            rw [counts, parameter_parts, hpieces'] at hends
            exact pieces_ne_nil _ _ (List.cons.inj hends).2.symm
    | some first =>
      rw [Option.map_some]
      show Except.ok (substitute _ _ _) = _ ↔ _
      rw [substitute_counts hfirst, Except.ok.injEq]
      exact intercalate_counts_iff hle hstated hfirst

/-- A size that is computed is not below the floor. -/
theorem event_size_floor {scale : ℤ → Except String ℤ} (hc : self.compute scale = .ok c)
    (hsize : getitem c.max_event_sizes p.subsystem = .ok size) : 10240 ≤ size := by
  obtain ⟨hyields, -⟩ := Bookkeeping.values_yields (Bookkeeping.compute_ok.mp hc).event_sizes
  have hvalue := hyields p.subsystem size (getitem_eq_ok.mp hsize)
  obtain ⟨-, own, ws, -, -, heq⟩ :=
    Bookkeeping.event_size_equation (Recursion.yields_iff.mp hvalue)
  rw [heq]
  exact le_max_right _ _

/-- In advanced memory mode the document of a process that receives events, with a `buffer_count`,
gets a line with the computed size behind each `buffer_count` and nothing else, exactly where the
size does not seem to be stated, the matches end where the parameters end, and they are the same
text. -/
theorem sizes_inserted_iff {scale : ℤ → Except String ℤ}
    (hadvanced : self.advanced_memory_usage = true) (hreceives : receives_events p = true)
    (hcounts : items (counts p.document.toList) ≠ []) (hc : self.compute scale = .ok c)
    (hsize : getitem c.max_event_sizes p.subsystem = .ok size) :
    self.set_max_event_size c p = .ok (with_event_sizes size p.document.toList) ↔
      CountsAlike p.document.toList :=
  set_max_event_size_iff hadvanced hreceives hcounts hsize
    (le_trans (by norm_num) (event_size_floor hc hsize))

/-- An EventBuilder with a document. -/
def builder (document : String) : Procinfo :=
  labelled .EventBuilder "EventBuilder1" "1" "not set" document

/-- The EventBuilder alone, in advanced memory mode. -/
def one_builder (document : String) : Bookkeeper :=
  { two_subsystems [builder document] with advanced_memory_usage := true }

theorem one_builder_size (document : String) (h : ((one_builder document).compute .ok).toOption.any
    (fun c => (c.max_event_sizes.lookup "1").isSome) = true) : ∃ c size,
    (one_builder document).compute .ok = .ok c ∧ getitem c.max_event_sizes "1" = .ok size := by
  obtain ⟨c, hc, hsome⟩ := Loop.exists_of_any h
  obtain ⟨size, hsize⟩ := Option.isSome_iff_exists.mp hsome
  exact ⟨c, size, hc, getitem_eq_ok.mpr hsize⟩

theorem counts_ne_nil (text : List Char)
    (h : text ∈ (items (counts document)).map Prod.fst) : items (counts document) ≠ [] := by
  intro hnil
  rw [hnil] at h
  exact absurd h List.not_mem_nil

/-- The same count in two tables. -/
def same_counts : String := "\nbuffer_count: 1\na: \x7b\nbuffer_count: 1\x7d"

theorem same_counts_inserted : ∃ c size, getitem c.max_event_sizes "1" = .ok size ∧
    (one_builder same_counts).set_max_event_size c (builder same_counts) =
      .ok (with_event_sizes size same_counts.toList) := by
  obtain ⟨c, size, hc, hsize⟩ := one_builder_size same_counts (by decide +kernel)
  have hcounts : items (counts same_counts.toList) ≠ [] :=
    counts_ne_nil "buffer_count: 1".toList (by decide +kernel)
  have hall : ∀ text ∈ (items (count_matches same_counts.toList)).map Prod.fst,
      text = "\nbuffer_count: 1".toList := forall_of_all (by decide +kernel)
  refine ⟨c, size, hsize, (sizes_inserted_iff (p := builder same_counts) rfl rfl hcounts hc hsize).mpr
    ⟨by decide +kernel, by decide +kernel, fun a ha b hb => ?_⟩⟩
  rw [hall a.1 (List.mem_map_of_mem ha), hall b.1 (List.mem_map_of_mem hb)]

/-- Two different counts. -/
def two_counts : String := "\nbuffer_count: 1\nbuffer_count: 2"

/-- The second of two different counts is replaced by the first. -/
theorem second_count_lost : ∃ c size, (one_builder two_counts).compute .ok = .ok c ∧
    getitem c.max_event_sizes "1" = .ok size ∧
    (one_builder two_counts).set_max_event_size c (builder two_counts) ≠
      .ok (with_event_sizes size two_counts.toList) := by
  obtain ⟨c, size, hc, hsize⟩ := one_builder_size two_counts (by decide +kernel)
  have hcounts : items (counts two_counts.toList) ≠ [] :=
    counts_ne_nil "buffer_count: 1".toList (by decide +kernel)
  have hle : 0 ≤ size :=
    le_trans (by norm_num) (event_size_floor (p := builder two_counts) hc hsize)
  refine ⟨c, size, hc, hsize, fun h => ?_⟩
  have halike := ((set_max_event_size_iff (p := builder two_counts) rfl rfl hcounts hsize hle).mp
    h).alike
  have hall : ∀ a ∈ (items (count_matches two_counts.toList)).map Prod.fst,
      ∀ b ∈ (items (count_matches two_counts.toList)).map Prod.fst, a = b := by
    intro a ha b hb
    obtain ⟨item, hitem, rfl⟩ := List.mem_map.mp ha
    obtain ⟨item', hitem', rfl⟩ := List.mem_map.mp hb
    exact halike item hitem item' hitem'
  revert hall
  decide +kernel

end Bookkeeper

end DaqInterface
