import Mathlib
import DaqInterface.Library.Scan
import DaqInterface.Model.Metadata

/-!
# The archived metadata

The awk program prints the array of a section at the blank line that ends it, and only the
section of the dispatchers is also printed at the end.  The section of the RoutingManagers is
written last, so their logfiles are lost (`metadata_archived_iff`).
-/

namespace DaqInterface

open Pattern

variable {line : List Char} {s s' : Fhiclizer} {kind : LogKind}

/-! ## The lines of the file -/

/-- Lines with a newline behind each. -/
theorem splitOn_lines {α : Type} {f : α → List Char} {items : List α} (rest : List Char)
    (h : ∀ a ∈ items, '\n' ∉ f a) :
    splitOn '\n' ((items.flatMap fun a => f a ++ "\n".toList) ++ rest) =
      items.map f ++ splitOn '\n' rest := by
  induction items with
  | nil => rfl
  | cons a items ih =>
    have hline := splitOn_eq_self (h a List.mem_cons_self)
    have hrest := ih fun b hb => h b (List.mem_cons_of_mem _ hb)
    have htext : ((a :: items).flatMap fun a => f a ++ "\n".toList) ++ rest =
        f a ++ '\n' :: ((items.flatMap fun a => f a ++ "\n".toList) ++ rest) := by
      simp
    rw [htext, splitOn_append, hline, hrest]
    rfl

/-- Lines with a newline before each. -/
theorem splitOn_names (start : List Char) {names : List String} (hstart : '\n' ∉ start)
    (h : ∀ name ∈ names, '\n' ∉ name.toList) :
    splitOn '\n' (start ++ names.flatMap fun name => '\n' :: name.toList) =
      start :: names.map String.toList := by
  induction names generalizing start with
  | nil => rw [List.flatMap_nil, List.append_nil, splitOn_eq_self hstart, List.map_nil]
  | cons name names ih =>
    have hrest := ih name.toList (h name List.mem_cons_self)
      fun b hb => h b (List.mem_cons_of_mem _ hb)
    rw [List.flatMap_cons, List.cons_append, splitOn_append, splitOn_eq_self hstart, hrest]
    rfl

/-! ## The line of a component -/

/-- A component and the digits of its number. -/
theorem names_component_start {d : Char} (hd : d.isDigit = true) (rest : List Char) :
    names_component ("Component #".toList ++ d :: rest) = true := by
  have hstart : (row [text "Component #", char Char.isDigit]).at_start
      ("Component #".toList ++ d :: rest) = some ([], rest) := by
    unfold Pattern.at_start row
    rw [List.foldr_cons, ways, ways_text]
    simp [ways, hd]
  have hcons : "Component #".toList ++ d :: rest = 'C' :: ("omponent #".toList ++ d :: rest) := by
    have htext : "Component #".toList = 'C' :: "omponent #".toList := by decide +kernel
    rw [htext]
    rfl
  unfold names_component
  rw [hcons] at hstart ⊢
  rw [search, hstart]
  rfl

theorem component_line_eq (component : String × ℕ) : ∃ d ds,
    (∀ c ∈ d :: ds, c.isDigit = true) ∧ RunRecord.component_line component =
      "Component #".toList ++ d :: (ds ++ ':' :: ' ' :: component.1.toList) := by
  obtain ⟨d, ds, htext, hdigits⟩ := digits_of component.2
  refine ⟨d, ds, hdigits, ?_⟩
  have hcolon : ": ".toList = [':', ' '] := by decide +kernel
  unfold RunRecord.component_line
  rw [htext, hcolon]
  simp only [List.append_assoc, List.cons_append, List.nil_append]

theorem component_line_newline {component : String × ℕ} (h : '\n' ∉ component.1.toList) :
    '\n' ∉ RunRecord.component_line component := by
  obtain ⟨d, ds, hdigits, hline⟩ := component_line_eq component
  have hword : '\n' ∉ "Component #".toList := by decide +kernel
  have hnumber : '\n' ∉ d :: ds := fun hmem => absurd (hdigits _ hmem) (by decide)
  rw [hline]
  simp only [List.mem_append, List.mem_cons] at hword hnumber ⊢
  push Not at hnumber ⊢
  exact ⟨hword, hnumber.1, hnumber.2, by decide, by decide, h⟩

/-- The line of a component is read as one. -/
theorem component_line_parts (component : String × ℕ) :
    is_awk_comment (RunRecord.component_line component) = false ∧
      names_component (RunRecord.component_line component) = true ∧
      ':' ∈ RunRecord.component_line component ∧
      Fhiclizer.entry_of (Fhiclizer.first_part (RunRecord.component_line component)) =
        .component ∧
      Fhiclizer.second_part (RunRecord.component_line component) = component.1.toList := by
  obtain ⟨d, ds, hdigits, hline⟩ := component_line_eq component
  have hcons : "Component #".toList = 'C' :: "omponent #".toList := by decide +kernel
  have hword : ∀ c ∈ "Component #".toList, decide (c ≠ ':') = true :=
    Scan.forall_of_all (by decide +kernel)
  have hnumber : ∀ c ∈ d :: ds, decide (c ≠ ':') = true := by
    intro c hc
    refine decide_eq_true fun heq => ?_
    have hdigit := hdigits c hc
    rw [heq] at hdigit
    exact absurd hdigit (by decide)
  -- the text before the colon
  have hfront : ∀ c ∈ "Component #".toList ++ d :: ds, decide (c ≠ ':') = true := by
    intro c hc
    rcases List.mem_append.mp hc with hc | hc
    · exact hword c hc
    · exact hnumber c hc
  have hparts : RunRecord.component_line component =
      ("Component #".toList ++ d :: ds) ++ ':' :: ' ' :: component.1.toList := by
    rw [hline]
    simp
  have hfirst : Fhiclizer.first_part (RunRecord.component_line component) =
      "Component #".toList ++ d :: (ds ++ [':']) := by
    rw [Fhiclizer.first_part, hparts, List.takeWhile_append_of_pos hfront]
    simp
  refine ⟨?_, ?_, ?_, ?_, ?_⟩
  · rw [hline, hcons]
    rfl
  · rw [hline]
    exact names_component_start (hdigits d List.mem_cons_self) _
  · rw [hparts]
    simp
  · -- none of the words that are looked for first has only letters of the text
    have hmissing : ∀ word : String, (∃ c ∈ word.toList, c ∉ "Component #:".toList ∧
        c.isDigit = false) → word_found word ("Component #".toList ++ d :: (ds ++ [':'])) = false := by
      rintro word ⟨c, hc, hnot, hdigit⟩
      refine decide_eq_false fun hinside => ?_
      have hmem : c ∈ "Component #".toList ++ d :: (ds ++ [':']) := hinside.subset hc
      have hsplit : c ∈ "Component #".toList ∨ c ∈ d :: ds ∨ c = ':' := by
        rcases List.mem_append.mp hmem with hmem | hmem
        · exact Or.inl hmem
        · rw [← List.cons_append] at hmem
          rcases List.mem_append.mp hmem with hmem | hmem
          · exact Or.inr (Or.inl hmem)
          · exact Or.inr (Or.inr (List.mem_singleton.mp hmem))
      rcases hsplit with hmem | hmem | rfl
      · exact hnot (by
          have htext : "Component #:".toList = "Component #".toList ++ [':'] := by decide +kernel
          rw [htext]
          exact List.mem_append_left _ hmem)
      · rw [hdigits c hmem] at hdigit
        cases hdigit
      · exact absurd (by decide +kernel) hnot
    rw [hfirst, Fhiclizer.entry_of, hmissing "Config name" ⟨'g', by decide +kernel⟩,
      hmissing "DAQInterface start time" ⟨'D', by decide +kernel⟩,
      hmissing "DAQInterface stop time" ⟨'D', by decide +kernel⟩,
      hmissing "Total events" ⟨'T', by decide +kernel⟩,
      names_component_start (hdigits d List.mem_cons_self)]
    rfl
  · rw [Fhiclizer.second_part, hparts, List.dropWhile_append_of_pos hfront]
    rfl

/-- A header is one line. -/
theorem header_newline (kind : LogKind) : '\n' ∉ RunRecord.header kind := by
  cases kind <;> decide +kernel

/-- The sections that are written, line by line. -/
theorem splitOn_sections (r : RunRecord) (kinds : List LogKind)
    (h : ∀ kind, ∀ name ∈ r.log_filenames kind, '\n' ∉ name.toList) :
    splitOn '\n' (kinds.flatMap r.log_section ++ "\n".toList) =
      [] :: (kinds.flatMap fun kind =>
        [] :: RunRecord.header kind :: (r.log_filenames kind).map String.toList) ++ [[]] := by
  induction kinds with
  | nil => rfl
  | cons kind kinds ih =>
    -- what follows starts with a newline
    obtain ⟨rest, hrest⟩ : ∃ rest, kinds.flatMap r.log_section ++ "\n".toList = '\n' :: rest := by
      cases kinds with
      | nil => exact ⟨[], rfl⟩
      | cons kind' kinds => exact ⟨_, rfl⟩
    rw [hrest, splitOn_sep] at ih
    have htail := (List.cons.inj ih).2
    have htext : (kind :: kinds).flatMap r.log_section ++ "\n".toList =
        '\n' :: '\n' :: ((RunRecord.header kind ++
          (r.log_filenames kind).flatMap fun filename => '\n' :: filename.toList) ++
            '\n' :: rest) := by
      rw [List.flatMap_cons, List.append_assoc, hrest, RunRecord.log_section]
      simp
    rw [htext, splitOn_sep, splitOn_sep, splitOn_append,
      splitOn_names _ (header_newline kind) (h kind), htail]
    simp

/-- The lines of the metadata. -/
theorem records_metadata (r : RunRecord) (hcomponents : ∀ name ∈ r.components, '\n' ∉ name.toList)
    (hnames : ∀ kind, ∀ name ∈ r.log_filenames kind, '\n' ∉ name.toList) :
    records r.metadata =
      splitOn '\n' r.config_line ++ r.components.zipIdx.map RunRecord.component_line ++
        (splitOn '\n' r.code_info ++ [[]]) ++
        r.logtuples.flatMap fun kind =>
          [] :: RunRecord.header kind :: (r.log_filenames kind).map String.toList := by
  have hlines : ∀ component ∈ r.components.zipIdx,
      '\n' ∉ RunRecord.component_line component := by
    intro component hcomponent
    exact component_line_newline (hcomponents _ (List.fst_mem_of_mem_zipIdx hcomponent))
  have htext : r.metadata = r.config_line ++ '\n' ::
      ((r.components.zipIdx.flatMap fun component =>
        RunRecord.component_line component ++ "\n".toList) ++
        (r.code_info ++ '\n' :: (r.logtuples.flatMap r.log_section ++ "\n".toList))) := by
    simp [RunRecord.metadata]
  have hsplit : splitOn '\n' r.metadata =
      (splitOn '\n' r.config_line ++ r.components.zipIdx.map RunRecord.component_line ++
        (splitOn '\n' r.code_info ++ [[]]) ++
        r.logtuples.flatMap fun kind =>
          [] :: RunRecord.header kind :: (r.log_filenames kind).map String.toList) ++ [[]] := by
    rw [htext, splitOn_append, splitOn_lines _ hlines, splitOn_append, splitOn_sections r _ hnames]
    simp
  unfold records
  simp only [hsplit, List.getLast?_concat, if_true, List.dropLast_concat]

/-! ## What a line changes -/

/-- The arrays that were printed for a kind of logfiles. -/
def printed_arrays (kind : LogKind) (printed : List Printed) : List (List (List Char)) :=
  printed.filterMap fun p =>
    match p with
    | .logfiles kind' names => if kind' = kind then some names else none
    | _ => none

/-- The arrays that were printed for the components. -/
def printed_components (printed : List Printed) : List (List (List Char)) :=
  printed.filterMap fun p =>
    match p with
    | .components names => some names
    | _ => none

/-- Where the program is, the lines that it printed aside. -/
@[ext]
structure AwkProgress where
  components : List (List Char)
  /-- The components were not printed yet. -/
  pending : Bool
  active : LogKind → Bool
  logfiles : LogKind → List (List Char)
  arrays : LogKind → List (List (List Char))
  component_arrays : List (List (List Char))

/-- Where the program is. -/
def Fhiclizer.progress (s : Fhiclizer) : AwkProgress where
  components := s.components
  pending := s.components_section_active
  active := s.section_active
  logfiles := s.logfiles
  arrays := fun kind => printed_arrays kind s.printed
  component_arrays := printed_components s.printed

/-- The components are printed. -/
def AwkProgress.closed (p : AwkProgress) : AwkProgress :=
  { p with pending := false, component_arrays := p.component_arrays ++ [p.components] }

/-- The section of a kind begins. -/
def AwkProgress.enter (p : AwkProgress) (kind : LogKind) : AwkProgress :=
  { p with active := Function.update p.active kind true }

/-- Names are read in the section of a kind. -/
def AwkProgress.add (p : AwkProgress) (kind : LogKind) (names : List (List Char)) : AwkProgress :=
  { p with logfiles := Function.update p.logfiles kind (p.logfiles kind ++ names) }

/-- The section of a kind ends. -/
def AwkProgress.leave (p : AwkProgress) (kind : LogKind) : AwkProgress :=
  { p with
    active := Function.update p.active kind false
    arrays := Function.update p.arrays kind (p.arrays kind ++ [p.logfiles kind]) }

@[simp]
theorem progress_print_line (s : Fhiclizer) (t : List Char) :
    (s.print (.line t)).progress = s.progress := by
  simp [Fhiclizer.progress, Fhiclizer.print, printed_arrays, printed_components]

/-- The line starts no section and names no component. -/
def Plain (line : List Char) : Prop :=
  is_awk_comment line = true ∨ ':' ∉ line ∨
    Fhiclizer.entry_of (Fhiclizer.first_part line) ≠ .component ∧
      ∀ kind, Fhiclizer.entry_of (Fhiclizer.first_part line) ≠ .section_header kind

theorem plain_blank : Plain [] := Or.inr (Or.inl List.not_mem_nil)

/-- No section is active. -/
def Fhiclizer.Idle (s : Fhiclizer) : Prop := ∀ kind, s.section_active kind = false

theorem read_sections_idle (hidle : s.Idle) (kinds : List LogKind) :
    Fhiclizer.read_sections line kinds s = (false, s) := by
  induction kinds with
  | nil => rfl
  | cons kind kinds ih => rw [Fhiclizer.read_sections, hidle kind, if_neg Bool.false_ne_true, ih]

theorem read_record_comment (h : is_awk_comment line = true) (s : Fhiclizer) :
    s.read_record line = s.print (.line line) := if_pos h

theorem read_record_idle (hline : is_awk_comment line = false)
    (hidle : (s.close_components line).Idle) :
    s.read_record line = (s.close_components line).read_pair line := by
  unfold Fhiclizer.read_record
  rw [hline, if_neg Bool.false_ne_true, read_sections_idle hidle]

theorem print_pair_progress (firstpart secondpart : List Char) (s : Fhiclizer) :
    (s.print_pair firstpart secondpart).progress = s.progress := by
  unfold Fhiclizer.print_pair
  split_ifs
  · exact progress_print_line s _
  · exact progress_print_line s _

/-- A plain line is at most printed. -/
theorem read_pair_plain (hline : Plain line) (hcomment : is_awk_comment line = false)
    (s : Fhiclizer) : (s.read_pair line).progress = s.progress := by
  rcases hline with hline | hline | ⟨hcomponent, hsection⟩
  · rw [hcomment] at hline
    cases hline
  · rw [Fhiclizer.read_pair, if_neg hline]
  · unfold Fhiclizer.read_pair
    split_ifs
    · dsimp only
      cases hentry : Fhiclizer.entry_of (Fhiclizer.first_part line) with
      | renamed => exact print_pair_progress _ _ s
      | component => exact absurd hentry hcomponent
      | commit => exact print_pair_progress _ _ s
      | pmt_logfile => exact progress_print_line s _
      | process_management_method => exact progress_print_line s _
      | section_header kind => exact absurd hentry (hsection kind)
      | other => exact print_pair_progress _ _ s
    · rfl

/-- Behind the last component, the components are printed. -/
theorem close_components_progress (line : List Char) (s : Fhiclizer) :
    (s.close_components line).progress =
      if s.components_section_active && !names_component line then s.progress.closed
      else s.progress := by
  unfold Fhiclizer.close_components
  split_ifs
  · simp [Fhiclizer.progress, Fhiclizer.print, printed_arrays, printed_components,
      AwkProgress.closed]
  · rfl

theorem close_components_idle (hidle : s.Idle) (line : List Char) :
    (s.close_components line).Idle := by
  unfold Fhiclizer.close_components
  split_ifs
  · exact hidle
  · exact hidle

/-- A plain line outside the sections prints the components or changes nothing. -/
theorem plain_step (hidle : s.Idle) (hline : Plain line) :
    (s.read_record line).progress = s.progress ∨
      s.components_section_active = true ∧ (s.read_record line).progress = s.progress.closed := by
  cases hcomment : is_awk_comment line with
  | true =>
    rw [read_record_comment hcomment]
    exact Or.inl (progress_print_line s _)
  | false =>
    rw [read_record_idle hcomment (close_components_idle hidle line),
      read_pair_plain hline hcomment, close_components_progress]
    split_ifs with hclose
    · exact Or.inr ⟨(Bool.and_eq_true_iff.mp hclose).1, rfl⟩
    · exact Or.inl rfl

/-- A blank line prints the components. -/
theorem blank_step (hidle : s.Idle) (hactive : s.components_section_active = true) :
    (s.read_record []).progress = s.progress.closed := by
  have hblank : names_component [] = false := by decide +kernel
  rw [read_record_idle rfl (close_components_idle hidle []), read_pair_plain plain_blank rfl,
    close_components_progress, hactive, hblank]
  rfl

theorem Fhiclizer.Idle.of_progress (h : s'.progress.active = s.progress.active) (hidle : s.Idle) :
    s'.Idle := by
  intro kind
  have hsame := congrFun h kind
  exact hsame.trans (hidle kind)

/-! ## Lines outside the sections -/

/-- Plain lines print the components or change nothing. -/
theorem plain_run {lines : List (List Char)} (hidle : s.Idle) (hlines : ∀ l ∈ lines, Plain l) :
    (lines.foldl Fhiclizer.read_record s).progress = s.progress ∨
      s.components_section_active = true ∧
        (lines.foldl Fhiclizer.read_record s).progress = s.progress.closed := by
  induction lines generalizing s with
  | nil => exact Or.inl rfl
  | cons l lines ih =>
    have hrest : ∀ l ∈ lines, Plain l := fun l' hl => hlines l' (List.mem_cons_of_mem _ hl)
    rw [List.foldl_cons]
    rcases plain_step hidle (hlines l List.mem_cons_self) with hstep | ⟨hactive, hstep⟩
    · have hidle' : (s.read_record l).Idle := hidle.of_progress (congrArg AwkProgress.active hstep)
      have hpending := congrArg AwkProgress.pending hstep
      rcases ih hidle' hrest with h | ⟨hactive, h⟩
      · exact Or.inl (h.trans hstep)
      · exact Or.inr ⟨hpending.symm.trans hactive, h.trans (congrArg AwkProgress.closed hstep)⟩
    · have hsame : (s.read_record l).progress.active = s.progress.active := by
        rw [hstep]
        rfl
      have hidle' := hidle.of_progress hsame
      have hpending := congrArg AwkProgress.pending hstep
      rcases ih hidle' hrest with h | ⟨hactive', -⟩
      · exact Or.inr ⟨hactive, h.trans hstep⟩
      · exact absurd (hpending.symm.trans hactive') Bool.false_ne_true

/-- With nothing to print, plain lines change nothing. -/
theorem plain_run_quiet {lines : List (List Char)} (hidle : s.Idle)
    (hlines : ∀ l ∈ lines, Plain l) (hpending : s.components_section_active = false) :
    (lines.foldl Fhiclizer.read_record s).progress = s.progress := by
  rcases plain_run hidle hlines with h | ⟨hactive, -⟩
  · exact h
  · rw [hpending] at hactive
    cases hactive

/-- A blank line is enough for the components to be printed, once. -/
theorem plain_run_pending {front : List (List Char)} (hidle : s.Idle)
    (hlines : ∀ l ∈ front, Plain l) (hactive : s.components_section_active = true) :
    ((front ++ [[]]).foldl Fhiclizer.read_record s).progress = s.progress.closed := by
  rw [List.foldl_append, List.foldl_cons, List.foldl_nil]
  rcases plain_run hidle hlines with h | ⟨-, h⟩
  · have hidle' := hidle.of_progress (congrArg AwkProgress.active h)
    have hpending := congrArg AwkProgress.pending h
    rw [blank_step hidle' (hpending.trans hactive), h]
  · have hsame : (front.foldl Fhiclizer.read_record s).progress.active = s.progress.active := by
      rw [h]
      rfl
    have hpending := congrArg AwkProgress.pending h
    rcases plain_step (hidle.of_progress hsame) plain_blank with hstep | ⟨hactive', -⟩
    · exact hstep.trans h
    · exact absurd (hpending.symm.trans hactive') Bool.false_ne_true

/-- The line of a component. -/
theorem component_step (hidle : s.Idle) (component : String × ℕ) :
    (s.read_record (RunRecord.component_line component)).progress =
      { s.progress with
        components := s.progress.components ++ [component.1.toList], pending := true } := by
  obtain ⟨hcomment, hnames, hcolon, hentry, hsecond⟩ := component_line_parts component
  have hclose : s.close_components (RunRecord.component_line component) = s := by
    rw [Fhiclizer.close_components, hnames, Bool.not_true, Bool.and_false,
      if_neg Bool.false_ne_true]
  have hidle' := close_components_idle hidle (RunRecord.component_line component)
  rw [read_record_idle hcomment hidle', hclose, Fhiclizer.read_pair, if_pos hcolon]
  simp only [hentry, hsecond]
  rfl

/-- The lines of the components. -/
theorem components_run (items : List (String × ℕ)) (hidle : s.Idle) :
    ((items.map RunRecord.component_line).foldl Fhiclizer.read_record s).progress =
      { s.progress with
        components := s.progress.components ++ items.map fun item => item.1.toList
        pending := s.progress.pending || !items.isEmpty } := by
  induction items generalizing s with
  | nil =>
    simp
  | cons item items ih =>
    have hstep := component_step hidle item
    have hsame : (s.read_record (RunRecord.component_line item)).progress.active =
        s.progress.active := by rw [hstep]
    rw [List.map_cons, List.foldl_cons, ih (hidle.of_progress hsame), hstep]
    simp

/-! ## The sections -/

/-- The section of a kind is active, and no other. -/
structure Fhiclizer.Inside (s : Fhiclizer) (kind : LogKind) : Prop where
  active : ∀ k, s.section_active k = decide (k = kind)
  pending : s.components_section_active = false

/-- A name without blanks. -/
def Word (name : List Char) : Prop := name ≠ [] ∧ ∀ c ∈ name, awk_space c = false

theorem Word.first_field {name : List Char} (h : Word name) : first_field name = name := by
  have hblank : ∀ c ∈ name, (c == ' ' || c == '\t' || c == '\n') = false := by
    intro c hc
    have hspace := h.2 c hc
    unfold awk_space at hspace
    simp only [Bool.or_eq_false_iff] at hspace ⊢
    exact hspace.1.1.1
  unfold DaqInterface.first_field
  have hdrop : name.dropWhile (fun c => c == ' ' || c == '\t' || c == '\n') = name := by
    cases name with
    | nil => rfl
    | cons c cs => rw [List.dropWhile_cons_of_neg (by rw [hblank c List.mem_cons_self]; decide)]
  simp only [hdrop]
  refine List.takeWhile_eq_self_iff.mpr fun c hc => ?_
  rw [hblank c hc]
  rfl

theorem Word.not_blank {name : List Char} (h : Word name) : is_awk_blank name = false := by
  obtain ⟨c, cs, rfl⟩ := List.exists_cons_of_ne_nil h.1
  rw [is_awk_blank, List.all_cons, h.2 c List.mem_cons_self]
  rfl

theorem mem_all (kind : LogKind) : kind ∈ LogKind.all := by
  cases kind <;> decide

/-- In a section, a line that is not blank gives a name. -/
theorem read_sections_name (hline : is_awk_blank line = false) {kinds : List LogKind}
    (hkind : kind ∈ kinds) (hinside : s.Inside kind) :
    Fhiclizer.read_sections line kinds s = (true, { s with
      logfiles := Function.update s.logfiles kind (s.logfiles kind ++ [first_field line]) }) := by
  induction kinds with
  | nil => exact absurd hkind List.not_mem_nil
  | cons k kinds ih =>
    rw [Fhiclizer.read_sections, hinside.active k]
    by_cases hk : k = kind
    · subst hk
      rw [if_pos (decide_eq_true rfl), hline, if_neg Bool.false_ne_true]
    · rw [if_neg (by simpa using hk)]
      exact ih ((List.mem_cons.mp hkind).resolve_left fun heq => hk heq.symm)

/-- In a section, a blank line prints the array. -/
theorem read_sections_blank (hline : is_awk_blank line = true) {kinds : List LogKind}
    (hkind : kind ∈ kinds) (hinside : s.Inside kind) :
    Fhiclizer.read_sections line kinds s = (false,
      { s.print (.logfiles kind (s.logfiles kind)) with
        section_active := Function.update s.section_active kind false }) := by
  induction kinds with
  | nil => exact absurd hkind List.not_mem_nil
  | cons k kinds ih =>
    rw [Fhiclizer.read_sections, hinside.active k]
    by_cases hk : k = kind
    · subst hk
      rw [if_pos (decide_eq_true rfl), if_pos hline]
      refine read_sections_idle (fun j => ?_) kinds
      by_cases hj : j = k
      · subst hj
        exact Function.update_self _ _ _
      · have hactive := hinside.active j
        rw [decide_eq_false hj] at hactive
        exact (Function.update_of_ne hj _ _).trans hactive
    · rw [if_neg (by simpa using hk)]
      exact ih ((List.mem_cons.mp hkind).resolve_left fun heq => hk heq.symm)

theorem close_components_quiet (hpending : s.components_section_active = false)
    (line : List Char) : s.close_components line = s := by
  rw [Fhiclizer.close_components, hpending, Bool.false_and, if_neg Bool.false_ne_true]

/-- An array is printed. -/
theorem printed_arrays_print (s : Fhiclizer) (names : List (List Char)) (k : LogKind) :
    printed_arrays k (s.print (.logfiles kind names)).printed =
      if k = kind then printed_arrays k s.printed ++ [names] else printed_arrays k s.printed := by
  unfold printed_arrays Fhiclizer.print
  rw [List.filterMap_append]
  split_ifs with hk
  · simp [hk]
  · have hne : ¬ kind = k := fun heq => hk heq.symm
    simp [hne]

/-- The end of a section. -/
theorem leave_step (hinside : s.Inside kind) :
    (s.read_record []).progress = s.progress.leave kind := by
  have hcomment : is_awk_comment [] = false := rfl
  have hcolon : ':' ∉ ([] : List Char) := List.not_mem_nil
  have hread := read_sections_blank (rfl : is_awk_blank [] = true) (mem_all kind) hinside
  unfold Fhiclizer.read_record
  rw [close_components_quiet hinside.pending, hcomment, if_neg Bool.false_ne_true, hread]
  dsimp only
  rw [Fhiclizer.read_pair, if_neg hcolon]
  refine AwkProgress.ext rfl rfl rfl rfl (funext fun k => ?_) ?_
  · refine (printed_arrays_print s _ k).trans ?_
    unfold AwkProgress.leave
    dsimp only
    rw [Function.update_apply]
    split_ifs with hk
    · subst hk
      rfl
    · rfl
  · simp [Fhiclizer.progress, AwkProgress.leave, Fhiclizer.print, printed_components]

/-- The header of a section. -/
theorem header_step (hidle : s.Idle) (hpending : s.components_section_active = false)
    (kind : LogKind) :
    (s.read_record (RunRecord.header kind)).progress = s.progress.enter kind := by
  have hcomment : is_awk_comment (RunRecord.header kind) = false := by
    cases kind <;> decide +kernel
  have hcolon : ':' ∈ RunRecord.header kind := by
    cases kind <;> decide +kernel
  have hentry : Fhiclizer.entry_of (Fhiclizer.first_part (RunRecord.header kind)) =
      .section_header kind := by
    cases kind <;> decide +kernel
  have hidle' := close_components_idle hidle (RunRecord.header kind)
  rw [read_record_idle hcomment hidle', close_components_quiet hpending, Fhiclizer.read_pair,
    if_pos hcolon]
  simp only [hentry]
  rfl

/-- The names that are no comments for the awk program. -/
def kept (names : List (List Char)) : List (List Char) :=
  names.filter fun name => !is_awk_comment name

/-- A name in a section. -/
theorem name_step {name : List Char} (hname : Word name) (hinside : s.Inside kind) :
    (s.read_record name).progress = s.progress.add kind (kept [name]) := by
  cases hcomment : is_awk_comment name with
  | true =>
    have hkept : kept [name] = [] := by simp [kept, hcomment]
    rw [read_record_comment hcomment, progress_print_line, hkept]
    simp [AwkProgress.add]
  | false =>
    have hkept : kept [name] = [name] := by simp [kept, hcomment]
    have hread := read_sections_name hname.not_blank (mem_all kind) hinside
    unfold Fhiclizer.read_record
    rw [hcomment, if_neg Bool.false_ne_true, close_components_quiet hinside.pending, hread,
      hname.first_field, hkept]
    rfl

theorem Fhiclizer.Inside.of_progress (hinside : s.Inside kind)
    (hactive : s'.progress.active = s.progress.active)
    (hpending : s'.progress.pending = s.progress.pending) : s'.Inside kind where
  active k := (congrFun hactive k).trans (hinside.active k)
  pending := Eq.trans hpending hinside.pending

/-- The names of a section. -/
theorem names_run {names : List (List Char)} (hnames : ∀ name ∈ names, Word name)
    (hinside : s.Inside kind) :
    (names.foldl Fhiclizer.read_record s).progress = s.progress.add kind (kept names) := by
  induction names generalizing s with
  | nil => simp [kept, AwkProgress.add]
  | cons name names ih =>
    have hstep := name_step (hnames name List.mem_cons_self) hinside
    have hactive : (s.read_record name).progress.active = s.progress.active := by
      rw [hstep]
      rfl
    have hpending : (s.read_record name).progress.pending = s.progress.pending := by
      rw [hstep]
      rfl
    have hkept : kept (name :: names) = kept [name] ++ kept names := by
      unfold kept
      rw [← List.filter_append]
      rfl
    rw [List.foldl_cons, ih (fun n hn => hnames n (List.mem_cons_of_mem _ hn))
      (hinside.of_progress hactive hpending), hstep, hkept]
    simp [AwkProgress.add]

/-- A section from its header on. -/
theorem section_run {names : List (List Char)} (hnames : ∀ name ∈ names, Word name)
    (hidle : s.Idle) (hpending : s.components_section_active = false) (kind : LogKind) :
    ((RunRecord.header kind :: names).foldl Fhiclizer.read_record s).progress =
        (s.progress.enter kind).add kind (kept names) ∧
      ((RunRecord.header kind :: names).foldl Fhiclizer.read_record s).Inside kind := by
  have hheader := header_step hidle hpending kind
  have hinside : (s.read_record (RunRecord.header kind)).Inside kind := by
    refine ⟨fun k => ?_, ?_⟩
    · have hactive := congrFun (congrArg AwkProgress.active hheader) k
      refine hactive.trans ?_
      unfold AwkProgress.enter
      dsimp only
      rw [Function.update_apply]
      split_ifs with hk
      · exact (decide_eq_true hk).symm
      · exact (hidle k).trans (decide_eq_false hk).symm
    · have hsame := congrArg AwkProgress.pending hheader
      exact Eq.trans hsame hpending
  have hrun := names_run hnames hinside
  rw [List.foldl_cons]
  refine ⟨by rw [hrun, hheader], hinside.of_progress ?_ ?_⟩
  · rw [hrun]
    rfl
  · rw [hrun]
    rfl

/-- The blank line behind a section, and the next section. -/
theorem next_section_run {names : List (List Char)} (hnames : ∀ name ∈ names, Word name)
    {before : LogKind} (hinside : s.Inside before) (kind : LogKind) :
    (([] :: RunRecord.header kind :: names).foldl Fhiclizer.read_record s).progress =
        ((s.progress.leave before).enter kind).add kind (kept names) ∧
      (([] :: RunRecord.header kind :: names).foldl Fhiclizer.read_record s).Inside kind := by
  have hleave := leave_step hinside
  have hidle : (s.read_record []).Idle := by
    intro k
    have hactive := congrFun (congrArg AwkProgress.active hleave) k
    refine hactive.trans ?_
    unfold AwkProgress.leave
    dsimp only
    rw [Function.update_apply]
    split_ifs with hk
    · rfl
    · exact (hinside.active k).trans (decide_eq_false hk)
  have hpending : (s.read_record []).components_section_active = false :=
    (congrArg AwkProgress.pending hleave).trans hinside.pending
  have hrun := section_run hnames hidle hpending kind
  rw [hleave] at hrun
  exact hrun

/-- The blank line before the first section, and the section. -/
theorem first_section_run {names : List (List Char)} (hnames : ∀ name ∈ names, Word name)
    (hidle : s.Idle) (hpending : s.components_section_active = false) (kind : LogKind) :
    (([] :: RunRecord.header kind :: names).foldl Fhiclizer.read_record s).progress =
        (s.progress.enter kind).add kind (kept names) ∧
      (([] :: RunRecord.header kind :: names).foldl Fhiclizer.read_record s).Inside kind := by
  have hblank : (s.read_record []).progress = s.progress := by
    rcases plain_step hidle plain_blank with hstep | ⟨hactive, -⟩
    · exact hstep
    · rw [hpending] at hactive
      cases hactive
  have hidle' := hidle.of_progress (congrArg AwkProgress.active hblank)
  have hpending' : (s.read_record []).components_section_active = false :=
    (congrArg AwkProgress.pending hblank).trans hpending
  have hrun := section_run hnames hidle' hpending' kind
  rw [hblank] at hrun
  exact hrun

/-! ## The whole file -/

/-- What is taken for granted about a record: names of logfiles have no blanks, those of
components no newlines, and nothing else in the text looks like a component or a header. -/
structure RunRecord.Ordinary (r : RunRecord) : Prop where
  names : ∀ kind, ∀ name ∈ r.log_filenames kind, Word name.toList
  components : ∀ name ∈ r.components, '\n' ∉ name.toList
  text : ∀ line ∈ splitOn '\n' r.config_line ++ splitOn '\n' r.code_info, Plain line

/-- The text before the sections. -/
def RunRecord.front (r : RunRecord) : List (List Char) :=
  splitOn '\n' r.config_line ++ r.components.zipIdx.map RunRecord.component_line ++
    (splitOn '\n' r.code_info ++ [[]])

/-- Before the sections, the components have been printed. -/
theorem front_run {r : RunRecord} (hr : r.Ordinary) :
    (r.front.foldl Fhiclizer.read_record Fhiclizer.start).progress =
      { components := r.components.map String.toList
        pending := false
        active := fun _ => false
        logfiles := fun _ => []
        arrays := fun _ => []
        component_arrays :=
          if r.components = [] then [] else [r.components.map String.toList] } := by
  have hconfig : ∀ l ∈ splitOn '\n' r.config_line, Plain l :=
    fun l hl => hr.text l (List.mem_append_left _ hl)
  have hcode : ∀ l ∈ splitOn '\n' r.code_info, Plain l :=
    fun l hl => hr.text l (List.mem_append_right _ hl)
  have hstart : Fhiclizer.start.Idle := fun _ => rfl
  have hparts : r.front.foldl Fhiclizer.read_record Fhiclizer.start =
      (splitOn '\n' r.code_info ++ [[]]).foldl Fhiclizer.read_record
        ((r.components.zipIdx.map RunRecord.component_line).foldl Fhiclizer.read_record
          ((splitOn '\n' r.config_line).foldl Fhiclizer.read_record Fhiclizer.start)) := by
    simp only [RunRecord.front, List.foldl_append]
  rw [hparts]
  -- the first line
  have hfirst := plain_run_quiet hstart hconfig rfl
  generalize (splitOn '\n' r.config_line).foldl Fhiclizer.read_record Fhiclizer.start = s₁
    at hfirst ⊢
  have hidle₁ : s₁.Idle := hstart.of_progress (congrArg AwkProgress.active hfirst)
  -- the components
  have hsecond := components_run r.components.zipIdx hidle₁
  have hitems : (r.components.zipIdx.map fun item => item.1.toList) =
      r.components.map String.toList := by
    rw [← List.zipIdx_map_fst 0 r.components, List.map_map, List.zipIdx_map_fst]
    rfl
  rw [hfirst, hitems] at hsecond
  generalize (r.components.zipIdx.map RunRecord.component_line).foldl Fhiclizer.read_record s₁ = s₂
    at hsecond ⊢
  have hactive₂ : s₂.progress.active = Fhiclizer.start.progress.active := by rw [hsecond]
  have hidle₂ : s₂.Idle := hstart.of_progress hactive₂
  have hpending₂ := congrArg AwkProgress.pending hsecond
  by_cases hempty : r.components = []
  · -- there is nothing to print
    have hquiet : s₂.components_section_active = false := by
      refine hpending₂.trans ?_
      simp [hempty, Fhiclizer.progress, Fhiclizer.start]
    have hlines : ∀ l ∈ splitOn '\n' r.code_info ++ [[]], Plain l := by
      intro l hl
      rcases List.mem_append.mp hl with hl | hl
      · exact hcode l hl
      · rw [List.mem_singleton.mp hl]
        exact plain_blank
    rw [plain_run_quiet hidle₂ hlines hquiet, hsecond]
    simp [hempty, Fhiclizer.progress, Fhiclizer.start, printed_arrays, printed_components]
  · have hactive : s₂.components_section_active = true := by
      refine hpending₂.trans ?_
      simp [hempty, Fhiclizer.progress, Fhiclizer.start]
    rw [plain_run_pending hidle₂ hcode hactive, hsecond]
    simp [hempty, Fhiclizer.progress, Fhiclizer.start, printed_arrays, printed_components,
      AwkProgress.closed]

/-- The names of a kind in the archive. -/
def RunRecord.names (r : RunRecord) (kind : LogKind) : List (List Char) :=
  (r.log_filenames kind).map String.toList

/-- What is archived of a run whose processes are managed. -/
theorem managed_archive {r : RunRecord} (hr : r.Ordinary) (hmanage : r.manage_processes = true) :
    (∀ kind, printed_arrays kind (fhiclize_metadata r.metadata) =
        if kind = .routingmanager then [] else [kept (r.names kind)]) ∧
      printed_components (fhiclize_metadata r.metadata) =
        if r.components = [] then [] else [r.components.map String.toList] := by
  have hwords : ∀ kind, ∀ name ∈ r.names kind, Word name := by
    intro kind name hname
    obtain ⟨filename, hfilename, rfl⟩ := List.mem_map.mp hname
    exact hr.names kind filename hfilename
  have hnewline : ∀ kind, ∀ name ∈ r.log_filenames kind, '\n' ∉ name.toList := by
    intro kind name hname hmem
    exact absurd ((hr.names kind name hname).2 _ hmem) (by decide)
  have hlines : records r.metadata = r.front ++
      ([] :: RunRecord.header .process_manager :: r.names .process_manager) ++
      ([] :: RunRecord.header .boardreader :: r.names .boardreader) ++
      ([] :: RunRecord.header .eventbuilder :: r.names .eventbuilder) ++
      ([] :: RunRecord.header .datalogger :: r.names .datalogger) ++
      ([] :: RunRecord.header .dispatcher :: r.names .dispatcher) ++
      ([] :: RunRecord.header .routingmanager :: r.names .routingmanager) := by
    rw [records_metadata r hr.components hnewline, RunRecord.logtuples, if_pos hmanage]
    simp [LogKind.logtuples, RunRecord.front, RunRecord.names]
  have hfront := front_run hr
  have hidle : (r.front.foldl Fhiclizer.read_record Fhiclizer.start).Idle := fun kind =>
    congrFun (congrArg AwkProgress.active hfront) kind
  have hpending := congrArg AwkProgress.pending hfront
  unfold fhiclize_metadata
  rw [hlines]
  simp only [List.foldl_append]
  obtain ⟨h₁, hin₁⟩ := first_section_run (hwords .process_manager) hidle hpending .process_manager
  obtain ⟨h₂, hin₂⟩ := next_section_run (hwords .boardreader) hin₁ .boardreader
  obtain ⟨h₃, hin₃⟩ := next_section_run (hwords .eventbuilder) hin₂ .eventbuilder
  obtain ⟨h₄, hin₄⟩ := next_section_run (hwords .datalogger) hin₃ .datalogger
  obtain ⟨h₅, hin₅⟩ := next_section_run (hwords .dispatcher) hin₄ .dispatcher
  obtain ⟨h₆, hin₆⟩ := next_section_run (hwords .routingmanager) hin₅ .routingmanager
  rw [h₅, h₄, h₃, h₂, h₁, hfront] at h₆
  -- the last section is not the one that is printed at the end
  rw [Fhiclizer.finish, hin₆.active .dispatcher, if_neg (by decide)]
  refine ⟨fun kind => ?_, ?_⟩
  · refine (congrFun (congrArg AwkProgress.arrays h₆) kind).trans ?_
    cases kind <;> simp [AwkProgress.add, AwkProgress.enter, AwkProgress.leave]
  · exact congrArg AwkProgress.component_arrays h₆

/-- What is archived of a run whose processes are not managed: no logfiles. -/
theorem unmanaged_archive {r : RunRecord} (hr : r.Ordinary) (hmanage : r.manage_processes = false) :
    (∀ kind, printed_arrays kind (fhiclize_metadata r.metadata) = []) ∧
      printed_components (fhiclize_metadata r.metadata) =
        if r.components = [] then [] else [r.components.map String.toList] := by
  have hnewline : ∀ kind, ∀ name ∈ r.log_filenames kind, '\n' ∉ name.toList := by
    intro kind name hname hmem
    exact absurd ((hr.names kind name hname).2 _ hmem) (by decide)
  have hlines : records r.metadata = r.front := by
    rw [records_metadata r hr.components hnewline, RunRecord.logtuples, hmanage,
      if_neg Bool.false_ne_true, List.flatMap_nil, List.append_nil, RunRecord.front]
  have hfront := front_run hr
  have hidle : (r.front.foldl Fhiclizer.read_record Fhiclizer.start).Idle := fun kind =>
    congrFun (congrArg AwkProgress.active hfront) kind
  unfold fhiclize_metadata
  rw [hlines, Fhiclizer.finish, hidle .dispatcher, if_neg Bool.false_ne_true]
  exact ⟨fun kind => congrFun (congrArg AwkProgress.arrays hfront) kind,
    congrArg AwkProgress.component_arrays hfront⟩

/-- Each kind with a logfile has one array with its names, and the components have one. -/
def RunRecord.Archived (r : RunRecord) : Prop :=
  (∀ kind, r.log_filenames kind ≠ [] →
    printed_arrays kind (fhiclize_metadata r.metadata) = [r.names kind]) ∧
  printed_components (fhiclize_metadata r.metadata) = [r.components.map String.toList]

theorem names_eq_nil_iff {r : RunRecord} : r.names kind = [] ↔ r.log_filenames kind = [] :=
  List.map_eq_nil_iff

theorem components_archived_iff {r : RunRecord} :
    (if r.components = [] then [] else [r.components.map String.toList]) =
      [r.components.map String.toList] ↔ r.components ≠ [] := by
  split_ifs with hempty
  · simp [hempty]
  · simp [hempty]

/-- All of a record is archived exactly where there are components, no logfiles of
RoutingManagers, no name of a logfile that looks like a comment, and no logfiles at all if the
processes are not managed. -/
theorem metadata_archived_iff {r : RunRecord} (hr : r.Ordinary) :
    r.Archived ↔
      r.components ≠ [] ∧ r.log_filenames .routingmanager = [] ∧
        (∀ kind, ∀ name ∈ r.names kind, is_awk_comment name = false) ∧
        (r.manage_processes = false → ∀ kind, r.log_filenames kind = []) := by
  unfold RunRecord.Archived
  cases hmanage : r.manage_processes with
  | true =>
    obtain ⟨harrays, hcomponents⟩ := managed_archive hr hmanage
    have hkept : ∀ kind, kept (r.names kind) = r.names kind ↔
        ∀ name ∈ r.names kind, is_awk_comment name = false := by
      intro kind
      unfold kept
      rw [List.filter_eq_self]
      simp
    rw [hcomponents, components_archived_iff]
    simp only [harrays]
    constructor
    · rintro ⟨hnames, hne⟩
      have hrouting : r.log_filenames .routingmanager = [] := by
        by_contra hsome
        have hlost := hnames .routingmanager hsome
        rw [if_pos rfl] at hlost
        cases hlost
      refine ⟨hne, hrouting, fun kind => ?_, fun hfalse => by cases hfalse⟩
      by_cases hempty : r.log_filenames kind = []
      · rw [names_eq_nil_iff.mpr hempty]
        exact fun name hname => absurd hname List.not_mem_nil
      · have hkind : kind ≠ .routingmanager := fun heq => hempty (heq ▸ hrouting)
        have hsame := hnames kind hempty
        rw [if_neg hkind] at hsame
        exact (hkept kind).mp (List.cons.inj hsame).1
    · rintro ⟨hne, hrouting, hcomments, -⟩
      refine ⟨fun kind hsome => ?_, hne⟩
      have hkind : kind ≠ .routingmanager := fun heq => hsome (heq ▸ hrouting)
      rw [if_neg hkind, (hkept kind).mpr (hcomments kind)]
  | false =>
    obtain ⟨harrays, hcomponents⟩ := unmanaged_archive hr hmanage
    rw [hcomponents, components_archived_iff]
    simp only [harrays]
    constructor
    · rintro ⟨hnames, hne⟩
      have hempty : ∀ kind, r.log_filenames kind = [] := by
        intro kind
        by_contra hsome
        cases hnames kind hsome
      refine ⟨hne, hempty _, fun kind => ?_, fun _ => hempty⟩
      rw [names_eq_nil_iff.mpr (hempty kind)]
      exact fun name hname => absurd hname List.not_mem_nil
    · rintro ⟨hne, -, -, hempty⟩
      exact ⟨fun kind hsome => absurd (hempty trivial kind) hsome, hne⟩

/-- A run with one component and some logfiles. -/
def small_run (routingmanagers : List String) : RunRecord where
  subconfigs_for_run := ["demo"]
  daq_comp_list := ["component01"]
  hostname := "localhost"
  cwd := "/home"
  logfile := "/tmp/daqinterface.log"
  own_commit_info := "DAQInterface commit/version: v3"
  package_buildinfo_dict := none
  package_commit_dict := []
  process_management_method := "direct"
  manage_processes := true
  log_filenames := fun kind =>
    match kind with
    | .boardreader => ["localhost:/tmp/component01.log"]
    | .eventbuilder => ["localhost:/tmp/EventBuilder1.log", "localhost:/tmp/EventBuilder2.log"]
    | .routingmanager => routingmanagers
    | _ => []

/-- A test for plain lines. -/
def plain_test (line : List Char) : Bool :=
  is_awk_comment line || !line.contains ':' ||
    match Fhiclizer.entry_of (Fhiclizer.first_part line) with
    | .component => false
    | .section_header _ => false
    | _ => true

theorem plain_of_test (h : plain_test line = true) : Plain line := by
  unfold plain_test at h
  rw [Bool.or_eq_true, Bool.or_eq_true] at h
  rcases h with (h | h) | h
  · exact Or.inl h
  · exact Or.inr (Or.inl (by simpa using h))
  · refine Or.inr (Or.inr ⟨fun hentry => ?_, fun kind hentry => ?_⟩)
    · rw [hentry] at h
      cases h
    · rw [hentry] at h
      cases h

theorem word_of_all {name : List Char}
    (h : (!name.isEmpty && name.all fun c => !awk_space c) = true) : Word name := by
  obtain ⟨hne, hall⟩ := Bool.and_eq_true_iff.mp h
  refine ⟨fun hnil => ?_, fun c hc => ?_⟩
  · rw [hnil] at hne
    cases hne
  · simpa using List.all_eq_true.mp hall c hc

theorem small_run_ordinary {routingmanagers : List String}
    (h : ∀ name ∈ routingmanagers, Word name.toList) : (small_run routingmanagers).Ordinary where
  names := by
    intro kind name hname
    cases kind with
    | routingmanager => exact h name hname
    | boardreader =>
      rw [List.mem_singleton.mp hname]
      exact word_of_all (by decide +kernel)
    | eventbuilder =>
      rcases List.mem_pair.mp hname with rfl | rfl
      · exact word_of_all (by decide +kernel)
      · exact word_of_all (by decide +kernel)
    | process_manager => exact absurd hname List.not_mem_nil
    | datalogger => exact absurd hname List.not_mem_nil
    | dispatcher => exact absurd hname List.not_mem_nil
  components := by
    intro name hname
    rw [List.mem_singleton.mp hname]
    decide +kernel
  text := by
    have hlines : (splitOn '\n' (small_run []).config_line ++
        splitOn '\n' (small_run []).code_info).all plain_test = true := by decide +kernel
    exact fun line hline => plain_of_test (List.all_eq_true.mp hlines line hline)

/-- Without RoutingManagers, everything is archived. -/
theorem small_run_archived : (small_run []).Archived := by
  have hr : (small_run []).Ordinary :=
    small_run_ordinary fun name hname => absurd hname List.not_mem_nil
  refine (metadata_archived_iff hr).mpr ⟨by decide +kernel, rfl, fun kind => ?_, fun h => ?_⟩
  · cases kind <;> decide +kernel
  · cases h

/-- The logfile of a RoutingManager is lost. -/
theorem routingmanager_lost :
    (small_run ["localhost:/tmp/RoutingManager1.log"]).Ordinary ∧
      ¬ (small_run ["localhost:/tmp/RoutingManager1.log"]).Archived := by
  have hr : (small_run ["localhost:/tmp/RoutingManager1.log"]).Ordinary := by
    refine small_run_ordinary fun name hname => ?_
    rw [List.mem_singleton.mp hname]
    exact word_of_all (by decide +kernel)
  refine ⟨hr, fun harchived => ?_⟩
  have hlost := (managed_archive hr rfl).1 .routingmanager
  have hkept := harchived.1 .routingmanager (List.cons_ne_nil _ _)
  rw [hlost, if_pos rfl] at hkept
  cases hkept

end DaqInterface
