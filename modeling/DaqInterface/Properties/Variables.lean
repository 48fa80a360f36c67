import DaqInterface.Library.Parts
import DaqInterface.Library.Scan
import DaqInterface.Model.BootFile
import Mathlib.Data.List.TakeWhile

/-!
# References to environment variables

A line may refer to variables by `$NAME` and by their names in braces.  The code replaces one run
of characters only: that behind the last dollar sign with a letter or a brace behind it, up to
where neither letters nor digits nor closing braces follow.  So a line with references is expanded
when that run is its only reference (`expand_iff`).
-/

namespace DaqInterface

open Pattern Parts

/-! ## References -/

/-- An identifier begins with such a character. -/
def isNameStart (c : Char) : Bool := c.isAlpha || c == '_'

/-- An identifier consists of such characters. -/
def isVarChar (c : Char) : Bool := c.isAlphanum || c == '_'

/-- A row of the characters of an identifier is one. -/
def begins_name (name : List Char) : Bool := name.head?.any isNameStart

/-- The length of a reference, and its name, by what stands behind the dollar sign. -/
def behind_dollar : List Char → Option (ℕ × List Char)
  | [] => none
  | c :: more =>
    if c = '\x7b' then
      let name := more.takeWhile isVarChar
      if begins_name name = true ∧ (more.drop name.length).head? = some '\x7d' then
        some (name.length + 3, name)
      else none
    else
      let name := (c :: more).takeWhile isVarChar
      if begins_name name = true then some (name.length + 1, name) else none

/-- A reference to a variable. -/
def reference : Finder (List Char) := fun _ rest =>
  match rest with
  | [] => none
  | c :: more => if c = '$' then behind_dollar more else none

/-- The names of the variables that a text refers to. -/
def references (text : List Char) : List (List Char) :=
  (items (parts reference 0 [] text)).map Prod.snd

/-- The value of a variable. -/
def variable_value (environ : List (String × String)) (name : List Char) : List Char :=
  ((environ.lookup (String.ofList name)).getD "").toList

/-- The text with the values of the variables. -/
def expanded (environ : List (String × String)) (text : List Char) : List Char :=
  render (fun _ name => variable_value environ name) (parts reference 0 [] text)

/-- Every variable that a text refers to is defined, by a value without a dollar sign. -/
def Defined (environ : List (String × String)) (text : List Char) : Prop :=
  ∀ name ∈ references text, ∃ value, environ.lookup (String.ofList name) = some value ∧
    '$' ∉ value.toList

/-- The last run that looks like a variable is all that the line refers to, and the name that is
left of it has the value that the run should become.  A line without such a run has no reference
either. -/
def Expandable (environ : List (String × String)) (line : List Char) : Prop :=
  match re_environ_var.at_start line with
  | some ([before, var, after], _) => references before = [] ∧ references after = [] ∧
      (environ.lookup (String.ofList (strip_dollar var))).map String.toList =
        some (expanded environ var)
  | _ => references line = []

/-! ### The text of a reference -/

/-- How a reference is written. -/
def IsReference (text name : List Char) : Prop :=
  begins_name name = true ∧ (∀ c ∈ name, isVarChar c = true) ∧
    (text = '$' :: name ∨ text = '$' :: '\x7b' :: (name ++ ['\x7d']))

theorem reference_spec {before rest name : List Char} {n : ℕ}
    (h : reference before rest = some (n, name)) : ∃ text more, rest = text ++ more ∧
      text.length = n ∧ IsReference text name := by
  cases rest with
  | nil => cases h
  | cons c more =>
    unfold reference at h
    dsimp only at h
    split_ifs at h with hc
    subst hc
    cases more with
    | nil => cases h
    | cons d more =>
      unfold behind_dollar at h
      dsimp only at h
      split_ifs at h with hbrace hname hname
      · obtain ⟨rfl, rfl⟩ := Prod.mk.inj (Option.some.inj h)
        subst hbrace
        obtain ⟨hbegins, hclose⟩ := hname
        obtain ⟨tail, htail⟩ := List.head?_eq_some_iff.mp hclose
        refine ⟨'$' :: '\x7b' :: (more.takeWhile isVarChar ++ ['\x7d']), tail, ?_, ?_, hbegins,
          fun e he => List.mem_takeWhile_imp he, Or.inr rfl⟩
        · have hsplit : more.takeWhile isVarChar ++ '\x7d' :: tail = more := by
            rw [← htail]
            conv_rhs => rw [← List.take_append_drop (more.takeWhile isVarChar).length more]
            rw [← List.prefix_iff_eq_take.mp (List.takeWhile_prefix isVarChar)]
          simp only [List.cons_append, List.append_assoc, List.nil_append, hsplit]
        · simp
      · obtain ⟨rfl, rfl⟩ := Prod.mk.inj (Option.some.inj h)
        refine ⟨'$' :: (d :: more).takeWhile isVarChar, (d :: more).dropWhile isVarChar, ?_, rfl,
          hname, fun e he => List.mem_takeWhile_imp he, Or.inl rfl⟩
        rw [List.cons_append, List.takeWhile_append_dropWhile]

theorem reference_le (before rest : List Char) (n : ℕ) (name : List Char)
    (h : reference before rest = some (n, name)) : n ≤ rest.length := by
  obtain ⟨text, more, rfl, rfl, -⟩ := reference_spec h
  rw [List.length_append]
  exact Nat.le_add_right _ _

theorem isVarChar_dollar : isVarChar '$' = false := by decide

theorem isVarChar_brace : isVarChar '\x7d' = false := by decide

/-- A reference is one whatever stands behind it. -/
theorem IsReference.found {text name : List Char} (h : IsReference text name)
    (before more : List Char) : reference before (text ++ more) ≠ none := by
  obtain ⟨hbegins, hname, htext⟩ := h
  obtain ⟨d, ds, rfl⟩ : ∃ d ds, name = d :: ds := by
    cases name with
    | nil => cases hbegins
    | cons d ds => exact ⟨d, ds, rfl⟩
  have hd : isVarChar d = true := hname d List.mem_cons_self
  rcases htext with rfl | rfl
  · have hbrace : d ≠ '\x7b' := by
      rintro rfl
      revert hd
      decide
    have hfirst : begins_name ((d :: (ds ++ more)).takeWhile isVarChar) = true := by
      rw [List.takeWhile_cons_of_pos hd]
      exact hbegins
    unfold reference behind_dollar
    simp only [List.cons_append, if_true]
    rw [if_neg hbrace, if_pos hfirst]
    exact Option.some_ne_none _
  · have hsplit : (d :: ds ++ ['\x7d']) ++ more = (d :: ds) ++ ('\x7d' :: more) := by simp
    have htake : ((d :: ds) ++ ('\x7d' :: more)).takeWhile isVarChar = d :: ds := by
      rw [Scan.takeWhile_word hname (by simp [isVarChar_brace])]
    unfold reference behind_dollar
    simp only [List.cons_append, if_true]
    rw [show ds ++ ['\x7d'] ++ more = ds ++ '\x7d' :: more by simp,
      ← List.cons_append, htake, if_pos ⟨hbegins, by rw [List.drop_left]; rfl⟩]
    exact Option.some_ne_none _

theorem IsReference.count {text name : List Char} (h : IsReference text name) :
    text.count '$' = 1 := by
  obtain ⟨-, hname, htext⟩ := h
  have hnone : '$' ∉ name := by
    intro hmem
    have := hname '$' hmem
    rw [isVarChar_dollar] at this
    cases this
  rcases htext with rfl | rfl
  · rw [List.count_cons_self, List.count_eq_zero_of_not_mem hnone]
  · rw [List.count_cons_self, List.count_cons_of_ne (by decide), List.count_append,
      List.count_eq_zero_of_not_mem hnone]
    rfl

theorem IsReference.head {text name : List Char} (h : IsReference text name) :
    ∃ more, text = '$' :: more := by
  rcases h.2.2 with rfl | rfl
  · exact ⟨_, rfl⟩
  · exact ⟨_, rfl⟩

/-! ### Texts one behind the other -/

theorem takeWhile_append_of_head {p : Char → Bool} (text : List Char) {more : List Char}
    (h : ∀ c, more.head? = some c → p c = false) :
    (text ++ more).takeWhile p = text.takeWhile p := by
  induction text with
  | nil =>
    cases more with
    | nil => rfl
    | cons c cs => exact List.takeWhile_cons_of_neg (by rw [h c rfl]; exact Bool.false_ne_true)
  | cons c cs ih =>
    by_cases hc : p c = true
    · rw [List.cons_append, List.takeWhile_cons_of_pos hc, List.takeWhile_cons_of_pos hc, ih]
    · rw [List.cons_append, List.takeWhile_cons_of_neg hc, List.takeWhile_cons_of_neg hc]

/-- What a reference ends in front of. -/
def EndsName (more : List Char) : Prop :=
  ∀ c, more.head? = some c → isVarChar c = false ∧ c ≠ '\x7d'

theorem endsName_dollar (more : List Char) : EndsName ('$' :: more) := by
  rintro c ⟨⟩
  exact ⟨isVarChar_dollar, by decide⟩

theorem reference_append {before rest more : List Char} (hne : rest ≠ []) (hends : EndsName more)
    (hdollar : rest = ['$'] → more.head? ≠ some '\x7b') :
    reference before (rest ++ more) = reference before rest := by
  obtain ⟨c, cs, rfl⟩ := List.exists_cons_of_ne_nil hne
  have htake : ∀ text : List Char, (text ++ more).takeWhile isVarChar = text.takeWhile isVarChar :=
    fun text => takeWhile_append_of_head text fun d hd => (hends d hd).1
  by_cases hc : c = '$'
  · subst hc
    show behind_dollar (cs ++ more) = behind_dollar cs
    cases cs with
    | nil =>
      cases more with
      | nil => rfl
      | cons d ds =>
        have hd : d ≠ '\x7b' := fun heq => hdollar rfl (congrArg some heq)
        have hname : isVarChar d = false := (hends d rfl).1
        show behind_dollar (d :: ds) = none
        unfold behind_dollar
        dsimp only
        rw [if_neg hd, List.takeWhile_cons_of_neg (by rw [hname]; exact Bool.false_ne_true)]
        rfl
    | cons d ds =>
      rw [List.cons_append]
      unfold behind_dollar
      dsimp only
      rw [← List.cons_append, htake, htake]
      have hclose : ((ds ++ more).drop (ds.takeWhile isVarChar).length).head? = some '\x7d' ↔
          (ds.drop (ds.takeWhile isVarChar).length).head? = some '\x7d' := by
        rw [List.drop_append_of_le_length (List.takeWhile_prefix isVarChar).length_le]
        cases ds.drop (ds.takeWhile isVarChar).length with
        | cons e es => exact Iff.rfl
        | nil =>
          refine iff_of_false (fun hhead => ?_) (fun hhead => by cases hhead)
          exact (hends _ hhead).2 rfl
      simp only [hclose]
  · show (if c = '$' then _ else none) = if c = '$' then _ else none
    rw [if_neg hc, if_neg hc]

theorem apart_dollar (text more : List Char) : Apart reference [] text ('$' :: more) := by
  intro front rest hne _
  refine reference_append hne (endsName_dollar more) fun _ hhead => ?_
  exact absurd (Option.some.inj hhead) (by decide)

/-- A run is apart from what ends it. -/
theorem apart_run {run more : List Char} (hne : run ≠ []) (hrun : '$' ∉ run) (hends : EndsName more) :
    Apart reference [] ('$' :: run) more := by
  intro front rest hrest hsplit
  refine reference_append hrest hends fun hdollar => ?_
  subst hdollar
  exfalso
  cases front with
  | nil => exact hne (List.cons.inj hsplit).2
  | cons d ds =>
    rw [(List.cons.inj hsplit).2] at hrun
    exact hrun (List.mem_append_right ds List.mem_cons_self)

theorem parts_reference_append {text more : List Char} (h : Apart reference [] text more) :
    parts reference 0 [] (text ++ more) = parts reference 0 [] text ++ parts reference 0 [] more := by
  rw [parts_append reference_le (Nat.zero_le _) h]
  exact congrArg _ (parts_before (fun _ _ _ => rfl) 0 _ _ more)

theorem references_append {text more : List Char} (h : Apart reference [] text more) :
    references (text ++ more) = references text ++ references more := by
  unfold references
  rw [parts_reference_append h, items_append, List.map_append]

theorem expanded_append (environ : List (String × String)) {text more : List Char}
    (h : Apart reference [] text more) :
    expanded environ (text ++ more) = expanded environ text ++ expanded environ more := by
  unfold expanded
  rw [parts_reference_append h, render_append]

/-! ### Texts without references -/

theorem expanded_of_no_references (environ : List (String × String)) {text : List Char}
    (h : references text = []) : expanded environ text = text := by
  have hitems : items (parts reference 0 [] text) = [] := List.map_eq_nil_iff.mp h
  have hpieces : pieces (fun _ name => variable_value environ name) (parts reference 0 [] text) =
      pieces (fun text _ => text) (parts reference 0 [] text) :=
    pieces_congr fun item hi => absurd (hitems ▸ hi) List.not_mem_nil
  unfold expanded
  rw [← flatten_pieces_eq_render, hpieces, flatten_pieces]

theorem reference_none {before text : List Char} (h : references text = []) :
    reference before text = none := by
  have hitems : items (parts reference 0 [] text) = [] := List.map_eq_nil_iff.mp h
  cases text with
  | nil => rfl
  | cons c cs =>
    cases hfind : reference before (c :: cs) with
    | none => rfl
    | some found =>
      obtain ⟨n, name⟩ := found
      obtain ⟨text, more, htext, rfl, href⟩ := reference_spec hfind
      obtain ⟨tail, rfl⟩ := href.head
      have hfirst : reference [] (c :: cs) = some (tail.length + 1, name) := hfind
      rw [parts, hfirst] at hitems
      cases hitems

theorem no_references_of_no_dollar {text : List Char} (h : '$' ∉ text) : references text = [] := by
  cases first reference [] text with
  | none hitems _ => exact List.map_eq_nil_iff.mpr hitems
  | some gap found more name hrest _ hfind _ _ =>
    obtain ⟨n, hn, htake⟩ := hfind
    obtain ⟨text', more', hsplit, rfl, href⟩ := reference_spec hn
    obtain ⟨tail, rfl⟩ := href.head
    rw [hrest, hsplit] at h
    exact absurd (List.mem_append_right gap List.mem_cons_self) h

/-- A text with a reference has a first one. -/
theorem first_reference {environ : List (String × String)} {text : List Char}
    (h : references text ≠ []) : ∃ gap found name more, text = gap ++ (found ++ more) ∧
      IsReference found name ∧ references text = name :: references more ∧
      expanded environ text = gap ++ (variable_value environ name ++ expanded environ more) := by
  cases first reference [] text with
  | none hitems _ => exact absurd (List.map_eq_nil_iff.mpr hitems) h
  | some gap found more name hrest _ hfind hitems hpieces =>
    obtain ⟨n, hn, htake⟩ := hfind
    obtain ⟨text', more', hsplit, rfl, href⟩ := reference_spec hn
    have hfound : found = text' := by rw [htake, hsplit, List.take_left]
    subst hfound
    have hbefore := parts_before (fun _ _ _ => rfl : ∀ b b' r, reference b r = reference b' r) 0
      (found.reverse ++ (gap.reverse ++ [])) [] more
    refine ⟨gap, found, name, more, hrest, href, ?_, ?_⟩
    · unfold references
      rw [hitems, hbefore]
      rfl
    · unfold expanded
      rw [← flatten_pieces_eq_render, hpieces, hbefore, List.flatten_cons, flatten_pieces_eq_render,
        List.append_assoc]

/-- Each reference takes a dollar sign with it. -/
theorem count_expanded {environ : List (String × String)} {text : List Char}
    (h : Defined environ text) :
    (expanded environ text).count '$' + (references text).length = text.count '$' := by
  have honce : ∀ item ∈ items (parts reference 0 [] text), item.1.count '$' = 1 := by
    intro item hi
    obtain ⟨before, more, n, hfind, htake⟩ := found_of_mem_items hi
    obtain ⟨found, more', hsplit, rfl, href⟩ := reference_spec hfind
    have hfound : item.1 = found := by rw [htake, hsplit, List.take_left]
    rw [hfound, href.count]
  have hvalues : ∀ item ∈ items (parts reference 0 [] text),
      '$' ∉ variable_value environ item.2 := by
    intro item hi
    obtain ⟨value, hvalue, hdollar⟩ := h item.2 (List.mem_map.mpr ⟨item, hi, rfl⟩)
    unfold variable_value
    rwa [hvalue]
  have hcount := @count_render_add _ '$' (fun _ name => variable_value environ name) _ honce hvalues
  rw [render_text] at hcount
  unfold expanded references
  rw [List.length_map, hcount]

/-! ## The run that is replaced -/

/-- `[\x7bA-Za-z]` -/
def isRunStart (c : Char) : Bool := c == '\x7b' || c.isAlpha

/-- `[A-Za-z\x7d_0-9]` -/
def isRunChar (c : Char) : Bool := c.isAlphanum || c == '\x7d' || c == '_'

/-- A run at the start of a text, and what stands behind it. -/
def run_at : List Char → Option (List Char × List Char)
  | c :: d :: more =>
    if c = '$' ∧ isRunStart d = true then
      some (c :: d :: more.takeWhile isRunChar, more.dropWhile isRunChar)
    else none
  | _ => none

/-- The expression for a run. -/
def re_run : Pattern := row [text "$", char isRunStart, many isRunChar]

theorem run_at_split {rest run behind : List Char} (h : run_at rest = some (run, behind)) :
    rest = run ++ behind ∧ ∃ d more, run = '$' :: d :: more ∧ isRunStart d = true ∧
      (∀ c ∈ more, isRunChar c = true) ∧ ∀ c, behind.head? = some c → isRunChar c = false := by
  match rest with
  | [] => cases h
  | [c] => cases h
  | c :: d :: more =>
    unfold run_at at h
    dsimp only at h
    split_ifs at h with hstart
    obtain ⟨rfl, rfl⟩ := Prod.mk.inj (Option.some.inj h)
    obtain ⟨rfl, hd⟩ := hstart
    refine ⟨?_, d, _, rfl, hd, fun c hc => List.mem_takeWhile_imp hc, fun c hc => ?_⟩
    · rw [List.cons_append, List.cons_append, List.takeWhile_append_dropWhile]
    · have hhead := List.head?_dropWhile_not isRunChar more
      rw [hc] at hhead
      simpa using hhead

theorem newline_not_mem_run {rest run behind : List Char} (h : run_at rest = some (run, behind)) :
    '\n' ∉ run := by
  obtain ⟨-, d, more, rfl, hd, hmore, -⟩ := run_at_split h
  intro hmem
  rcases List.mem_cons.mp hmem with heq | hmem
  · exact absurd heq (by decide)
  · rcases List.mem_cons.mp hmem with rfl | hmem
    · exact absurd hd (by decide)
    · exact absurd (hmore '\n' hmem) (by decide)

theorem take_sub_dropWhile (p : Char → Bool) (text : List Char) :
    text.take (text.length - (text.dropWhile p).length) = text.takeWhile p := by
  conv_lhs => rw [← List.takeWhile_append_dropWhile (p := p) (l := text)]
  rw [List.length_append, List.takeWhile_append_dropWhile, Nat.add_sub_cancel]
  exact (List.prefix_iff_eq_take.mp (List.takeWhile_prefix p)).symm

theorem re_run_at_start (rest : List Char) :
    re_run.at_start rest = (run_at rest).map fun r => ([], r.2) := by
  have hrow : re_run = seq (text "$") (seq (char isRunStart) (seq (many isRunChar) Pattern.empty)) :=
    rfl
  have hdollar : "$".toList = ['$'] := by decide
  rw [hrow, at_start_text_seq, hdollar]
  match rest with
  | [] => rfl
  | [c] =>
    split_ifs
    · rfl
    · rfl
  | c :: d :: more =>
    unfold run_at
    dsimp only
    by_cases hc : c = '$'
    · subst hc
      have hprefix : ['$'] <+: '$' :: d :: more := ⟨d :: more, rfl⟩
      rw [if_pos hprefix]
      show (seq (char isRunStart) (seq (many isRunChar) Pattern.empty)).at_start (d :: more) = _
      rw [at_start_char_seq, at_start_seq_empty, at_start_many]
      by_cases hd : isRunStart d = true
      · simp [hd]
      · simp [hd]
    · have hnot : ¬ ['$'] <+: c :: d :: more :=
        fun hstarts => hc (List.cons_prefix_cons.mp hstarts).1.symm
      rw [if_neg hnot, if_neg fun h => hc h.1]
      rfl

theorem at_start_run (rest : List Char) :
    (seq (group re_run) (seq part_of_line Pattern.empty)).at_start rest =
      (run_at rest).map fun r =>
        ([r.1, r.2.takeWhile fun c => c ≠ '\n'], r.2.dropWhile fun c => c ≠ '\n') := by
  have hgroup : (group re_run).at_start rest = (run_at rest).map fun r => ([r.1], r.2) := by
    rw [at_start_group, re_run_at_start]
    cases hrun : run_at rest with
    | none => rfl
    | some r =>
      obtain ⟨hsplit, -⟩ := run_at_split hrun
      have htake : rest.take (rest.length - r.2.length) = r.1 := by
        rw [hsplit, List.length_append, Nat.add_sub_cancel, List.take_left]
      show some (rest.take (rest.length - r.2.length) :: [], r.2) = _
      rw [htake]
      rfl
  have hline : ∀ behind : List Char, (seq part_of_line Pattern.empty).at_start behind =
      some ([behind.takeWhile fun c => c ≠ '\n'], behind.dropWhile fun c => c ≠ '\n') := by
    intro behind
    rw [at_start_seq_empty, part_of_line, at_start_group, at_start_many]
    exact congrArg (fun text => some ([text], _)) (take_sub_dropWhile _ behind)
  cases hrun : run_at rest with
  | none =>
    rw [hrun] at hgroup
    exact at_start_seq_of_none hgroup
  | some r =>
    rw [hrun] at hgroup
    exact at_start_seq_of_at_start hgroup (hline r.2)

/-- There is no run in a line. -/
def NoRun (line : List Char) : Prop :=
  ∀ front rest, line = front ++ rest → '\n' ∉ front → run_at rest = none

/-- What the expression finds: the last run of the line. -/
theorem environ_var_at_start (line : List Char) :
    (re_environ_var.at_start line = none ∧ NoRun line) ∨
      ∃ before run behind, line = before ++ (run ++ behind) ∧ '\n' ∉ before ∧
        run_at (run ++ behind) = some (run, behind) ∧ NoRun behind ∧
          re_environ_var.at_start line = some ([before, run, behind.takeWhile fun c => c ≠ '\n'],
            behind.dropWhile fun c => c ≠ '\n') := by
  have hfind : re_environ_var.at_start line = (runs (fun c => c ≠ '\n') line).findSome? fun rest =>
      ((seq (group re_run) (seq part_of_line Pattern.empty)).at_start rest).map fun m =>
        (line.take (line.length - rest.length) :: m.1, m.2) := at_start_group_runs _ _ line
  cases hm : re_environ_var.at_start line with
  | none =>
    refine Or.inl ⟨rfl, fun front rest hline hfront => ?_⟩
    rw [hfind] at hm
    have hmem : rest ∈ runs (fun c => decide (c ≠ '\n')) line :=
      mem_runs.mpr ⟨front, hline, fun c hc => decide_eq_true fun heq => hfront (heq ▸ hc)⟩
    have hnone := List.findSome?_eq_none_iff.mp hm rest hmem
    rw [at_start_run, Option.map_map, Option.map_eq_none_iff] at hnone
    exact hnone
  | some m =>
    rw [hfind] at hm
    obtain ⟨before, rest, hline, hbefore, hrest, hlast⟩ := findSome?_runs hm
    rw [at_start_run, Option.map_map] at hrest
    obtain ⟨⟨run, behind⟩, hrun, hm'⟩ := Option.map_eq_some_iff.mp hrest
    obtain ⟨rfl, -⟩ := run_at_split hrun
    refine Or.inr ⟨before, run, behind, hline, ?_, hrun, ?_, ?_⟩
    · exact fun hmem => absurd (hbefore '\n' hmem) (by decide)
    · -- a run further behind would have been found instead
      intro front rest hsplit hfront
      have hne : run ++ front ≠ [] := by
        obtain ⟨-, d, more, rfl, -⟩ := run_at_split hrun
        exact List.cons_ne_nil _ _
      have hskipped : ∀ c ∈ run ++ front, decide (c ≠ '\n') = true := by
        intro c hc
        refine decide_eq_true fun heq => ?_
        subst heq
        rcases List.mem_append.mp hc with hmem | hmem
        · exact newline_not_mem_run hrun hmem
        · exact hfront hmem
      have hnone := hlast (run ++ front) rest (by rw [hsplit, List.append_assoc]) hne hskipped
      rw [at_start_run, Option.map_map, Option.map_eq_none_iff] at hnone
      exact hnone
    · have htake : line.take (line.length - (run ++ behind).length) = before := by
        rw [hline, List.length_append, Nat.add_sub_cancel, List.take_left]
      rw [← hm', ← htake]
      rfl

/-! ## Lines that are expanded -/

/-- The end of a line. -/
theorem newline_behind {line before run behind : List Char} (hline : '\n' ∉ line.dropLast)
    (hsplit : line = before ++ (run ++ behind)) (hne : run ≠ []) (hrun : '\n' ∉ run) :
    (behind.dropWhile fun c => c ≠ '\n') =
      if line.getLast? = some '\n' then ['\n'] else [] := by
  rcases List.eq_nil_or_concat behind with rfl | ⟨body, c, rfl⟩
  · have hlast : line.getLast? ≠ some '\n' := by
      rw [hsplit, List.append_nil, List.getLast?_append_of_ne_nil _ hne]
      exact fun h => hrun (List.mem_of_getLast? h)
    rw [if_neg hlast]
    rfl
  · have hwhole : line = (before ++ (run ++ body)) ++ [c] := by
      rw [hsplit]
      simp
    have hbody : ∀ d ∈ body, decide (d ≠ '\n') = true := by
      intro d hd
      refine decide_eq_true fun heq => hline ?_
      subst heq
      rw [hwhole, List.dropLast_concat]
      exact List.mem_append_right _ (List.mem_append_right _ hd)
    have hlast : line.getLast? = some c := by rw [hwhole, List.getLast?_concat]
    rw [List.concat_eq_append, List.dropWhile_append_of_pos hbody, hlast]
    by_cases hc : c = '\n'
    · subst hc
      rfl
    · rw [List.dropWhile_cons_of_pos (p := fun c => decide (c ≠ '\n')) (decide_eq_true hc),
        if_neg fun h => hc (Option.some.inj h)]
      rfl

/-- A line cut at its last run: what it refers to and what becomes of it. -/
theorem line_parts (environ : List (String × String)) {before run behind : List Char}
    (hrun : run_at (run ++ behind) = some (run, behind)) :
    references (before ++ (run ++ behind)) = references before ++ (references run ++
        references behind) ∧
      expanded environ (before ++ (run ++ behind)) =
        expanded environ before ++ (expanded environ run ++ expanded environ behind) := by
  obtain ⟨-, d, more, rfl, hd, hmore, hbehind⟩ := run_at_split hrun
  have hends : EndsName behind := by
    intro c hc
    have hnot := hbehind c hc
    simp only [isRunChar, Bool.or_eq_false_iff, beq_eq_false_iff_ne] at hnot
    obtain ⟨⟨halpha, hbrace⟩, hscore⟩ := hnot
    refine ⟨?_, hbrace⟩
    unfold isVarChar
    rw [halpha, beq_false_of_ne hscore]
    rfl
  have hdollar : '$' ∉ d :: more := by
    intro hmem
    rcases List.mem_cons.mp hmem with rfl | hmem
    · exact absurd hd (by decide)
    · exact absurd (hmore '$' hmem) (by decide)
  have hapart : Apart reference [] ('$' :: d :: more) behind :=
    apart_run (List.cons_ne_nil d more) hdollar hends
  have hfront : Apart reference [] before ('$' :: d :: more ++ behind) := apart_dollar _ _
  rw [references_append hfront, references_append hapart, expanded_append environ hfront,
    expanded_append environ hapart]
  exact ⟨rfl, rfl⟩

/-- A value without dollar signs in front of a text that begins with one. -/
theorem eq_nil_of_append {value more rest : List Char} (hvalue : '$' ∉ value)
    (h : value ++ more = '$' :: rest) : value = [] := by
  cases value with
  | nil => rfl
  | cons c cs =>
    obtain ⟨rfl, -⟩ := List.cons.inj h
    exact absurd List.mem_cons_self hvalue

/-- The text in front of the run has no reference, where its expansion makes up for the run. -/
theorem no_reference_before {environ : List (String × String)} {before run value : List Char}
    (hdefined : Defined environ before) (hone : (references before).length ≤ 1)
    (hrun : references run = []) (hhead : ∃ more, run = '$' :: more)
    (h : before ++ value = expanded environ before ++ run) : references before = [] := by
  by_contra hsome
  obtain ⟨gap, found, name, more, rfl, href, hnames, hexpanded⟩ :=
    @first_reference environ _ hsome
  obtain ⟨text, hvalue, hdollar⟩ := hdefined name (hnames ▸ List.mem_cons_self)
  have hmore : references more = [] := by
    rw [hnames, List.length_cons] at hone
    exact List.length_eq_zero_iff.mp (by omega)
  have htext : variable_value environ name = text.toList := by
    unfold variable_value
    rw [hvalue]
    rfl
  rw [hexpanded, expanded_of_no_references environ hmore, htext] at h
  simp only [List.append_assoc, List.append_cancel_left_eq] at h
  obtain ⟨tail, rfl⟩ := href.head
  have hempty : text.toList = [] := eq_nil_of_append hdollar h.symm
  rw [hempty, List.nil_append] at h
  obtain ⟨rest, rfl⟩ := hhead
  -- what is left would begin with the reference
  have hnone : references (more ++ '$' :: rest) = [] := by
    rw [references_append (apart_dollar more rest), hmore, hrun]
    rfl
  have hfound := href.found [] (more ++ value)
  rw [h] at hfound
  exact hfound (reference_none hnone)

/-- The text behind the run has no reference, where the run is its own expansion. -/
theorem no_reference_behind {environ : List (String × String)} {run behind value : List Char}
    (hlast : NoRun behind) (hvalue : '$' ∉ value)
    (hrun : run_at (run ++ behind) = some (run, behind))
    (h : value ++ behind = run ++ expanded environ behind) : references behind = [] := by
  by_contra hsome
  obtain ⟨-, d, more, rfl, hd, -⟩ := run_at_split hrun
  have hempty : value = [] := eq_nil_of_append hvalue h
  rw [hempty, List.nil_append] at h
  have hnone := hlast [] behind rfl List.not_mem_nil
  rw [h] at hnone
  simp [run_at, hd] at hnone

/-- The values of a part of a line. -/
theorem Defined.of_subset {environ : List (String × String)} {text line : List Char}
    (h : Defined environ line) (hsub : references text ⊆ references line) :
    Defined environ text := fun name hname => h name (hsub hname)

/-- Where the run is replaced by a value and the line is expanded by that, the run is all that the
line refers to. -/
theorem only_reference {environ : List (String × String)} {before run behind value : List Char}
    (hdefined : Defined environ (before ++ (run ++ behind)))
    (hrun : run_at (run ++ behind) = some (run, behind)) (hlast : NoRun behind)
    (h : before ++ (value ++ behind) = expanded environ (before ++ (run ++ behind))) :
    references before = [] ∧ references behind = [] ∧ value = expanded environ run := by
  obtain ⟨hnames, hexpanded⟩ := @line_parts environ before _ _ hrun
  obtain ⟨-, d, more, hshape, hd, hmore, -⟩ := run_at_split hrun
  have hbefore : Defined environ before :=
    hdefined.of_subset (hnames ▸ List.subset_append_left _ _)
  have hrest : references run ++ references behind ⊆ references (before ++ (run ++ behind)) :=
    hnames ▸ List.subset_append_right _ _
  have hinner : Defined environ run :=
    hdefined.of_subset fun name hname => hrest (List.mem_append_left _ hname)
  have hbehind : Defined environ behind :=
    hdefined.of_subset fun name hname => hrest (List.mem_append_right _ hname)
  have hone : run.count '$' = 1 := by
    have hdollar : '$' ∉ d :: more := by
      intro hmem
      rcases List.mem_cons.mp hmem with rfl | hmem
      · exact absurd hd (by decide)
      · exact absurd (hmore '$' hmem) (by decide)
    rw [hshape, List.count_cons_self, List.count_eq_zero_of_not_mem hdollar]
  -- the dollar signs on both sides
  have hcount := congrArg (List.count '$') h
  rw [hexpanded] at hcount
  simp only [List.count_append] at hcount
  have hcbefore := count_expanded hbefore
  have hcrun := count_expanded hinner
  have hcbehind := count_expanded hbehind
  have hnone : references before = [] ∧ references behind = [] := by
    by_cases hself : references run = []
    · have hkept : expanded environ run = run := expanded_of_no_references environ hself
      rw [hexpanded, hkept] at h
      rw [hkept] at hcount
      by_cases hb : references behind = []
      · rw [expanded_of_no_references environ hb, ← List.append_assoc, ← List.append_assoc,
          List.append_cancel_right_eq] at h
        refine ⟨no_reference_before hbefore ?_ hself ⟨d :: more, hshape⟩ h, hb⟩
        omega
      · have hpos := List.length_pos_of_ne_nil hb
        have ha : references before = [] := List.length_eq_zero_iff.mp (by omega)
        rw [expanded_of_no_references environ ha, List.append_cancel_left_eq] at h
        have hvalue : '$' ∉ value := List.count_eq_zero.mp (by omega)
        exact absurd (no_reference_behind hlast hvalue hrun h) hb
    · have hpos := List.length_pos_of_ne_nil hself
      exact ⟨List.length_eq_zero_iff.mp (by omega), List.length_eq_zero_iff.mp (by omega)⟩
  refine ⟨hnone.1, hnone.2, ?_⟩
  rw [hexpanded, expanded_of_no_references environ hnone.1,
    expanded_of_no_references environ hnone.2, List.append_cancel_left_eq,
    List.append_cancel_right_eq] at h
  exact h

/-- The end of the line refers to nothing. -/
theorem references_without_newline (behind : List Char) :
    references (behind.takeWhile fun c => c ≠ '\n') = references behind ∨
      '\n' ∈ behind.dropLast := by
  by_cases hline : '\n' ∈ behind.dropLast
  · exact Or.inr hline
  · refine Or.inl ?_
    rcases List.eq_nil_or_concat behind with rfl | ⟨body, c, rfl⟩
    · rfl
    · rw [List.concat_eq_append, List.dropLast_concat] at hline
      have hbody : ∀ d ∈ body, decide (d ≠ '\n') = true :=
        fun d hd => decide_eq_true fun heq => hline (heq ▸ hd)
      rw [List.concat_eq_append, List.takeWhile_append_of_pos hbody]
      by_cases hc : c = '\n'
      · subst hc
        have hapart : Apart reference [] body ['\n'] := by
          intro front rest hne _
          refine reference_append hne ?_ fun _ => by decide
          rintro e ⟨⟩
          exact ⟨by decide, by decide⟩
        have hend : references ['\n'] = [] := no_references_of_no_dollar (by decide)
        have htake : (['\n'].takeWhile fun c => decide (c ≠ '\n')) = [] := by decide
        rw [references_append hapart, hend, htake, List.append_nil, List.append_nil]
      · rw [List.takeWhile_cons_of_pos (p := fun c => decide (c ≠ '\n')) (decide_eq_true hc)]
        rfl

/-- A line is expanded, with all other text as it is, when the last run is all that it refers to
and is replaced by what it should become. -/
theorem expand_iff {environ : List (String × String)} {line : List Char}
    (hline : '\n' ∉ line.dropLast) (hdefined : Defined environ line) :
    expand_environment_variable_in_string environ line = .ok (expanded environ line) ↔
      Expandable environ line := by
  unfold expand_environment_variable_in_string Expandable
  rcases environ_var_at_start line with ⟨hnone, -⟩ |
    ⟨before, run, behind, rfl, -, hrun, hlast, hsome⟩
  · rw [hnone]
    dsimp only
    constructor
    · intro h
      have hcount := count_expanded hdefined
      rw [← Except.ok.inj h] at hcount
      exact List.length_eq_zero_iff.mp (by omega)
    · intro h
      rw [expanded_of_no_references environ h]
  · obtain ⟨-, d, more, hshape, -⟩ := run_at_split hrun
    have hne : run ≠ [] := hshape ▸ List.cons_ne_nil _ _
    have hend := newline_behind hline rfl hne (newline_not_mem_run hrun)
    have hlinebehind : '\n' ∉ behind.dropLast := by
      intro hmem
      refine hline ?_
      rw [← List.append_assoc, List.dropLast_append_of_ne_nil
        (List.ne_nil_of_mem (List.dropLast_subset behind hmem))]
      exact List.mem_append_right _ hmem
    have hnames := (references_without_newline behind).resolve_right hlinebehind
    rw [hsome]
    dsimp only
    rw [hnames]
    have hresult : ∀ value : List Char,
        before ++ value ++ (behind.takeWhile fun c => c ≠ '\n') ++
          (if (before ++ (run ++ behind)).getLast? = some '\n' then ['\n'] else []) =
            before ++ (value ++ behind) := by
      intro value
      rw [← hend, List.append_assoc, List.append_assoc, List.takeWhile_append_dropWhile]
    cases hlookup : environ.lookup (String.ofList (strip_dollar run)) with
    | none =>
      constructor
      · intro h
        cases h
      · rintro ⟨-, -, h⟩
        cases h
    | some value =>
      dsimp only
      rw [hresult]
      constructor
      · intro h
        obtain ⟨hbefore, hbehind, hvalue⟩ :=
          only_reference hdefined hrun hlast (Except.ok.inj h)
        exact ⟨hbefore, hbehind, congrArg some hvalue⟩
      · rintro ⟨hbefore, hbehind, hvalue⟩
        have hvalue' : value.toList = expanded environ run := Option.some.inj hvalue
        rw [(line_parts environ hrun).2, expanded_of_no_references environ hbefore,
          expanded_of_no_references environ hbehind, hvalue']

/-- A line with one reference. -/
theorem home_expanded :
    '\n' ∉ "cd $\x7bHOME\x7d/run\n".toList.dropLast ∧
      Defined [("HOME", "/home/daq")] "cd $\x7bHOME\x7d/run\n".toList ∧
        expand_environment_variable_in_string [("HOME", "/home/daq")]
          "cd $\x7bHOME\x7d/run\n".toList =
            .ok (expanded [("HOME", "/home/daq")] "cd $\x7bHOME\x7d/run\n".toList) := by
  have hline : '\n' ∉ "cd $\x7bHOME\x7d/run\n".toList.dropLast := by decide
  have hdefined : Defined [("HOME", "/home/daq")] "cd $\x7bHOME\x7d/run\n".toList := by
    intro name hname
    have hnames : references "cd $\x7bHOME\x7d/run\n".toList = ["HOME".toList] := by decide
    rw [hnames] at hname
    obtain rfl := List.mem_singleton.mp hname
    exact ⟨"/home/daq", by decide, by decide⟩
  have hexpandable : references "cd ".toList = [] ∧ references "/run".toList = [] ∧
      (List.lookup "HOME" [("HOME", "/home/daq")]).map String.toList =
        some (expanded [("HOME", "/home/daq")] "$\x7bHOME\x7d".toList) := by decide
  exact ⟨hline, hdefined, (expand_iff hline hdefined).mpr hexpandable⟩

/-- Of two references the first one stays. -/
theorem first_reference_left :
    '\n' ∉ "$A/$B".toList.dropLast ∧ Defined [("A", "a"), ("B", "b")] "$A/$B".toList ∧
      expand_environment_variable_in_string [("A", "a"), ("B", "b")] "$A/$B".toList ≠
        .ok (expanded [("A", "a"), ("B", "b")] "$A/$B".toList) := by
  refine ⟨by decide, ?_, by decide⟩
  intro name hname
  have hnames : references "$A/$B".toList = ["A".toList, "B".toList] := by decide
  rw [hnames] at hname
  rcases List.mem_cons.mp hname with rfl | hname
  · exact ⟨"a", by decide, by decide⟩
  · obtain rfl := List.mem_singleton.mp hname
    exact ⟨"b", by decide, by decide⟩

end DaqInterface
