import DaqInterface.Model.Packages
import Mathlib.Data.List.TakeWhile

/-!
# Which output to stderr is an error

The loop that removes the expected lines leaves out the line behind each one that it removes.  So
of two lines or more something is always left, and the exception is raised although every line is
expected (`stderr_raises_iff`).
-/

namespace DaqInterface

open Pattern

variable {line text : List Char} {c : Char}

/-! ## White space around a text -/

theorem strip_eq_nil_iff : strip text = [] ↔ ∀ c ∈ text, isSpace c = true := by
  unfold strip
  rw [List.reverse_eq_nil_iff, List.dropWhile_eq_nil_iff]
  constructor
  · intro h c hc
    rw [← List.takeWhile_append_dropWhile (p := isSpace) (l := text)] at hc
    rcases List.mem_append.mp hc with hfront | hrest
    · exact List.mem_takeWhile_imp hfront
    · exact h c (List.mem_reverse.mpr hrest)
  · intro h c hc
    exact h c ((List.dropWhile_suffix isSpace).subset (List.mem_reverse.mp hc))

/-- What `strip` removes. -/
theorem strip_split (text : List Char) : ∃ front back, text = front ++ (strip text ++ back) ∧
    (∀ c ∈ front, isSpace c = true) ∧ ∀ c ∈ back, isSpace c = true := by
  refine ⟨text.takeWhile isSpace, ((text.dropWhile isSpace).reverse.takeWhile isSpace).reverse,
    ?_, fun c hc => List.mem_takeWhile_imp hc,
    fun c hc => List.mem_takeWhile_imp (List.mem_reverse.mp hc)⟩
  unfold strip
  rw [← List.reverse_append, List.takeWhile_append_dropWhile, List.reverse_reverse,
    List.takeWhile_append_dropWhile]

theorem infix_cons_iff_of_head {word : List Char} (hne : word ≠ []) (h : word.head? ≠ some c) :
    word <:+: c :: line ↔ word <:+: line := by
  rw [List.infix_cons_iff]
  refine or_iff_right fun hstart => ?_
  obtain ⟨d, ds, rfl⟩ := List.exists_cons_of_ne_nil hne
  obtain ⟨rfl, -⟩ := List.cons_prefix_cons.mp hstart
  exact h rfl

theorem infix_concat_iff_of_last {word : List Char} (hne : word ≠ [])
    (h : word.getLast? ≠ some c) : word <:+: line ++ [c] ↔ word <:+: line := by
  rw [List.infix_concat_iff]
  refine or_iff_right fun hend => ?_
  rcases List.suffix_concat_iff.mp hend with hnil | ⟨rest, rfl, -⟩
  · exact hne hnil
  · exact h List.getLast?_concat

/-! ## Expected lines -/

theorem mrb_info_avoids : re_mrb_info.Avoids isSpace :=
  Avoids.seq (avoids_text (by decide) (by simp; decide)) _

theorem mrb_info_stops (hc : isSpace c = true) : re_mrb_info.Stops c := by
  have hlast : " OK".toList.getLast? ≠ some c := by
    intro h
    have hK : 'K' = c := Option.some.inj h
    rw [← hK] at hc
    cases hc
  exact stops_row [text "INFO: mrb ", re_mrb_version, text " requires cetmodules >= ", re_digit,
    text ".", re_digit, re_digit, text ".", re_digit, re_digit,
    text " to run: attempting to configure...", re_mrb_version] (stops_text (by decide) hlast)

/-- White space in front of a line makes no difference. -/
theorem expected_line_cons (hc : isSpace c = true) :
    expected_line (c :: line) = expected_line line := by
  have hblank : strip (c :: line) = [] ↔ strip line = [] := by
    rw [strip_eq_nil_iff, strip_eq_nil_iff, List.forall_mem_cons]
    exact and_iff_right hc
  have hunsetup : "type: unsetup: not found".toList <:+: c :: line ↔
      "type: unsetup: not found".toList <:+: line := by
    refine infix_cons_iff_of_head (by decide) fun h => ?_
    have ht : 't' = c := Option.some.inj h
    rw [← ht] at hc
    cases hc
  unfold expected_line
  rw [mrb_info_avoids.search hc, decide_eq_decide.mpr hblank, decide_eq_decide.mpr hunsetup]

/-- White space behind a line makes no difference. -/
theorem expected_line_concat (hc : isSpace c = true) :
    expected_line (line ++ [c]) = expected_line line := by
  have hblank : strip (line ++ [c]) = [] ↔ strip line = [] := by
    rw [strip_eq_nil_iff, strip_eq_nil_iff, List.forall_mem_append, List.forall_mem_singleton]
    exact and_iff_left hc
  have hunsetup : "type: unsetup: not found".toList <:+: line ++ [c] ↔
      "type: unsetup: not found".toList <:+: line := by
    refine infix_concat_iff_of_last (by decide) fun h => ?_
    have hd : 'd' = c := Option.some.inj h
    rw [← hd] at hc
    cases hc
  unfold expected_line
  rw [(mrb_info_stops hc).search, decide_eq_decide.mpr hblank, decide_eq_decide.mpr hunsetup]

/-! ## Unexpected lines of a text -/

/-- The text has a line that is an error. -/
def HasUnexpected (text : List Char) : Prop :=
  ∃ line ∈ splitOn '\n' text, expected_line line = false

theorem hasUnexpected_cons (hc : isSpace c = true) :
    HasUnexpected (c :: text) ↔ HasUnexpected text := by
  unfold HasUnexpected
  by_cases hline : c = '\n'
  · subst hline
    have hnil : expected_line [] = true := by decide
    rw [splitOn_sep]
    simp [hnil]
  · obtain ⟨first, parts, htext, hcons⟩ := splitOn_first '\n' text
    rw [hcons c hline, htext]
    simp only [List.mem_cons, exists_eq_or_imp, expected_line_cons hc]

theorem hasUnexpected_concat (hc : isSpace c = true) :
    HasUnexpected (text ++ [c]) ↔ HasUnexpected text := by
  unfold HasUnexpected
  by_cases hline : c = '\n'
  · subst hline
    have hnil : expected_line [] = true := by decide
    have hsplit : splitOn '\n' [] = [[]] := rfl
    rw [splitOn_append, hsplit]
    simp [or_and_right, exists_or, hnil]
  · obtain ⟨parts, last, htext, hmore⟩ := splitOn_last '\n' text
    rw [hmore c hline, htext]
    simp only [List.mem_append, List.mem_singleton, or_and_right, exists_or, exists_eq_left,
      expected_line_concat hc]

theorem hasUnexpected_append_left {front : List Char} (h : ∀ c ∈ front, isSpace c = true) :
    HasUnexpected (front ++ text) ↔ HasUnexpected text := by
  induction front with
  | nil => exact Iff.rfl
  | cons c cs ih =>
    rw [List.cons_append, hasUnexpected_cons (h c List.mem_cons_self)]
    exact ih fun d hd => h d (List.mem_cons_of_mem c hd)

theorem hasUnexpected_append_right {back : List Char} (h : ∀ c ∈ back, isSpace c = true) :
    HasUnexpected (text ++ back) ↔ HasUnexpected text := by
  induction back generalizing text with
  | nil => rw [List.append_nil]
  | cons c cs ih =>
    rw [List.append_cons, ih fun d hd => h d (List.mem_cons_of_mem c hd)]
    exact hasUnexpected_concat (h c List.mem_cons_self)

/-- The white space that `strip` removes is on no unexpected line. -/
theorem hasUnexpected_strip (text : List Char) : HasUnexpected (strip text) ↔ HasUnexpected text := by
  obtain ⟨front, back, htext, hfront, hback⟩ := strip_split text
  conv_rhs => rw [htext]
  rw [hasUnexpected_append_left hfront, hasUnexpected_append_right hback]

/-! ## The loop -/

/-- Behind the first turn a line is left for each that is looked at. -/
theorem remove_expected_ne_nil {turns place : ℕ} {lines : List (List Char)} (hplace : 0 < place)
    (h : lines ≠ []) : remove_expected turns place lines ≠ [] := by
  induction turns generalizing place lines with
  | zero => exact h
  | succ turns ih =>
    rw [remove_expected]
    cases hline : lines[place]? with
    | none => exact h
    | some line =>
      have hlength : place < lines.length := (List.getElem?_eq_some_iff.mp hline).1
      refine ih (Nat.succ_pos place) ?_
      split_ifs with hexpected
      · have hmem : line ∈ lines := List.mem_of_getElem? hline
        have herase := List.length_erase_of_mem hmem
        intro hnil
        rw [hnil, List.length_nil] at herase
        omega
      · exact h

/-- Nothing is left of a single expected line only. -/
theorem remove_expected_eq_nil_iff {lines : List (List Char)} (h : lines ≠ []) :
    remove_expected lines.length 0 lines = [] ↔
      ∃ line, lines = [line] ∧ expected_line line = true := by
  obtain ⟨first, rest, rfl⟩ := List.exists_cons_of_ne_nil h
  rw [List.length_cons, remove_expected]
  dsimp only [List.getElem?_cons_zero]
  by_cases hfirst : expected_line first = true
  · rw [if_pos hfirst, List.erase_cons_head]
    cases rest with
    | nil => exact ⟨fun _ => ⟨first, rfl, hfirst⟩, fun _ => rfl⟩
    | cons second rest =>
      constructor
      · exact fun hnil => absurd hnil
          (remove_expected_ne_nil Nat.one_pos (List.cons_ne_nil second rest))
      · rintro ⟨line, hline, -⟩
        cases hline
  · rw [if_neg hfirst]
    constructor
    · exact fun hnil => absurd hnil (remove_expected_ne_nil Nat.one_pos (List.cons_ne_nil first rest))
    · rintro ⟨line, hline, hexpected⟩
      obtain ⟨rfl, -⟩ := List.cons.inj hline
      exact absurd hexpected hfirst

/-! ## The exception -/

namespace Packages

/-- The exception for output to stderr is raised. -/
def RaisesStderr (result : Except PackageError (List (String × String))) : Prop :=
  ∃ text, result = .error (.stderr text)

theorem read_version_error {needed : List String} {versions : List (String × String)}
    {line : List Char} {text : String} : read_version needed versions line ≠ .error (.stderr text) := by
  unfold read_version
  intro h
  split_ifs at h
  split at h
  · split_ifs at h
    cases h
  · cases h

/-- What is written to stdout raises other exceptions. -/
theorem read_versions_error {needed : List String} (lines : List (List Char))
    (versions : List (String × String)) :
    ¬ RaisesStderr (lines.foldlM (read_version needed) versions) := by
  rintro ⟨text, h⟩
  induction lines generalizing versions with
  | nil => cases h
  | cons line lines ih =>
    rw [List.foldlM_cons] at h
    cases hread : read_version needed versions line with
    | ok versions' =>
      rw [hread] at h
      exact ih versions' h
    | error e =>
      rw [hread] at h
      obtain rfl : e = .stderr text := Except.error.inj h
      exact read_version_error hread

/-- The exception says that a line is left. -/
theorem read_output_raises_iff (self : Packages) (packages : List String) (cmd : String)
    (out err : List Char) : RaisesStderr (self.read_output packages cmd out err) ↔
      remove_expected (splitOn '\n' (strip err)).length 0 (splitOn '\n' (strip err)) ≠ [] := by
  unfold read_output
  dsimp only
  split_ifs with hleft hout
  · exact ⟨fun _ => List.ne_nil_of_length_pos hleft, fun _ => ⟨_, rfl⟩⟩
  · have hnil := List.length_eq_zero_iff.mp (Nat.eq_zero_of_not_pos hleft)
    exact ⟨fun ⟨text, h⟩ => (by cases h), fun h => absurd hnil h⟩
  · have hnil := List.length_eq_zero_iff.mp (Nat.eq_zero_of_not_pos hleft)
    exact ⟨fun h => absurd h (read_versions_error _ _), fun h => absurd hnil h⟩

/-- Which texts raise the exception. -/
theorem remove_expected_strip_iff (err : List Char) :
    remove_expected (splitOn '\n' (strip err)).length 0 (splitOn '\n' (strip err)) ≠ [] ↔
      HasUnexpected err ∨ '\n' ∈ strip err := by
  rw [Ne, remove_expected_eq_nil_iff (splitOn_ne_nil '\n' _), ← hasUnexpected_strip err]
  by_cases hline : '\n' ∈ strip err
  · refine iff_of_true ?_ (Or.inr hline)
    rintro ⟨line, hsingle, -⟩
    obtain ⟨before, after, hsplit⟩ := List.append_of_mem hline
    have hlength := congrArg List.length hsingle
    rw [hsplit, splitOn_append, List.length_append, List.length_singleton] at hlength
    have hbefore := List.length_pos_of_ne_nil (splitOn_ne_nil '\n' before)
    have hafter := List.length_pos_of_ne_nil (splitOn_ne_nil '\n' after)
    omega
  · unfold HasUnexpected
    rw [splitOn_eq_self hline]
    simp [hline]

/-- When the command for the versions is run, its lines on stderr decide. -/
theorem fill_raises_iff {self : Packages} {packages : List String}
    (hneeded : self.needed_packages packages ≠ []) (hspack : self.spackdir.isSome = true)
    (communicate : String → String × String) :
    RaisesStderr (self.fill_package_versions communicate packages) ↔
      HasUnexpected (communicate (self.command packages)).2.toList ∨
        '\n' ∈ strip (communicate (self.command packages)).2.toList := by
  obtain ⟨spackdir, hdir⟩ := Option.isSome_iff_exists.mp hspack
  have hcmd : self.command packages ≠ "" := by
    intro h
    have hlength := congrArg String.length h
    unfold command at hlength
    rw [hdir] at hlength
    simp at hlength
  unfold fill_package_versions
  dsimp only
  rw [if_neg hneeded, if_pos hcmd, read_output_raises_iff, remove_expected_strip_iff]

/-- The exception for output to stderr is raised exactly for texts with an unexpected line, if and
only if there is such a line or all of the text, without the white space around it, is on one
line. -/
theorem stderr_raises_iff {self : Packages} {packages : List String}
    (hneeded : self.needed_packages packages ≠ []) (hspack : self.spackdir.isSome = true)
    (communicate : String → String × String) :
    (RaisesStderr (self.fill_package_versions communicate packages) ↔
        HasUnexpected (communicate (self.command packages)).2.toList) ↔
      (HasUnexpected (communicate (self.command packages)).2.toList ∨
        '\n' ∉ strip (communicate (self.command packages)).2.toList) := by
  have hraises := fill_raises_iff hneeded hspack communicate
  constructor
  · intro h
    by_contra hnot
    rw [not_or, not_not] at hnot
    exact hnot.1 (h.mp (hraises.mpr (Or.inr hnot.2)))
  · rintro (hunexpected | hline)
    · exact ⟨fun _ => hunexpected, fun _ => hraises.mpr (Or.inl hunexpected)⟩
    · exact hraises.trans (or_iff_left hline)

/-- A set-up with `spack`. -/
def with_spack : Packages := ⟨[], some "/opt/spack", "setup_daq.sh"⟩

/-- A package that cannot be set down is no error. -/
theorem unsetup_accepted : with_spack.needed_packages ["artdaq"] ≠ [] ∧
    (RaisesStderr (with_spack.fill_package_versions
        (fun _ => ("", "type: unsetup: not found\n")) ["artdaq"]) ↔
      HasUnexpected "type: unsetup: not found\n".toList) :=
  ⟨by decide, (stderr_raises_iff (by decide) rfl fun _ => ("", "type: unsetup: not found\n")).mpr
    (Or.inr (by decide))⟩

/-- Two of them are one. -/
theorem second_unsetup_rejected : ¬ (RaisesStderr (with_spack.fill_package_versions
      (fun _ => ("", "type: unsetup: not found\ntype: unsetup: not found\n")) ["artdaq"]) ↔
    HasUnexpected "type: unsetup: not found\ntype: unsetup: not found\n".toList) := by
  intro h
  have hneeded : with_spack.needed_packages ["artdaq"] ≠ [] := by decide
  obtain ⟨line, hline, hunexpected⟩ :=
    h.mp ((fill_raises_iff hneeded rfl _).mpr (Or.inr (by decide +kernel)))
  have hall : ∀ line ∈ splitOn '\n' "type: unsetup: not found\ntype: unsetup: not found\n".toList,
      expected_line line = true := by decide +kernel
  rw [hall line hline] at hunexpected
  cases hunexpected

end Packages

end DaqInterface
