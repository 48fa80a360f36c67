import DaqInterface.Library.Fold
import DaqInterface.Library.Graph
import DaqInterface.Library.Scan
import DaqInterface.Model.ConfigFiles
import Mathlib.Data.List.TakeWhile

/-!
# Included files

`recursive_include` puts the text of an included file in the place of the line that includes it.
`Splices` says what this should give, line by line.  The texts are put together without looking at
their ends, so the last line of a file that does not end with a newline and the line behind it
become one; and a line with a second `#include` counts as a comment.  The lines are right exactly
if neither happens and no other line has `#include` (`recursive_include_splices_iff`).
-/

open Loop

namespace DaqInterface

variable {src : ConfigTree} {ffp : List String} {main : String}

/-! ## What an include means -/

/-- The path of an included file: the name itself if it is absolute, and otherwise the first one
on the search path. -/
def include_path (src : ConfigTree) (ffp : List String) (file : String) : Option String :=
  if file.toList.head? = some '/' then
    if (src.file_at file).isSome then some file else none
  else
    (ffp.find? fun dirname => (src.file_at (dirname ++ "/" ++ file)).isSome).map fun dirname =>
      dirname ++ "/" ++ file

/-- The text of a file that can be read. -/
def text_at (src : ConfigTree) (path : String) : Option (List Char) :=
  match src.file_at path with
  | some (.text contents) => some contents
  | _ => none

/-- A line of one file includes another file. -/
def Includes (src : ConfigTree) (ffp : List String) (path path' : String) : Prop :=
  ∃ contents, text_at src path = some contents ∧ ∃ line ∈ readlines contents,
    ∃ file, included_file line = some file ∧ include_path src ffp file = some path'

/-- A file is the main file or is included by way of others. -/
def Reached (src : ConfigTree) (ffp : List String) (main path : String) : Prop :=
  Relation.ReflTransGen (Includes src ffp) main path

/-- Finitely many files are reached, none of them from itself. -/
structure AcyclicIncludes (src : ConfigTree) (ffp : List String) (main : String) : Prop where
  finite : {path | Reached src ffp main path}.Finite
  acyclic : ∀ path, Reached src ffp main path →
    ¬ Relation.TransGen (Includes src ffp) path path

/-- Every file that is reached can be read and finds the files that it includes. -/
def IncludesFound (src : ConfigTree) (ffp : List String) (main : String) : Prop :=
  ∀ path, Reached src ffp main path → ∃ contents, text_at src path = some contents ∧
    ∀ line ∈ readlines contents, ∀ file, included_file line = some file →
      ∃ path', include_path src ffp file = some path'

/-- The lines with each include replaced by the lines of its file. -/
inductive Splices (src : ConfigTree) (ffp : List String) :
    List (List Char) → List (List Char) → Prop
  | nil : Splices src ffp [] []
  | kept {line : List Char} {rest lines : List (List Char)} (hline : included_file line = none)
      (hrest : Splices src ffp rest lines) : Splices src ffp (line :: rest) (line :: lines)
  | replaced {line : List Char} {rest inner lines : List (List Char)} {file path : String}
      {contents : List Char} (hline : included_file line = some file)
      (hpath : include_path src ffp file = some path) (htext : text_at src path = some contents)
      (hinner : Splices src ffp (readlines contents) inner) (hrest : Splices src ffp rest lines) :
      Splices src ffp (line :: rest) (inner ++ lines)

/-- The lines of a text, without their newlines. -/
def text_lines (text : List Char) : List (List Char) := (readlines text).map chomp

/-- `#include` stands in a line only where the line names a file or is commented out, and not
both. -/
def ProperInclude (line : List Char) : Prop :=
  "#include".toList <:+: line →
    ((included_file line).isSome ↔ is_commented_include line = false)

/-- Every line that is read is a proper one. -/
def ProperIncludes (src : ConfigTree) (ffp : List String) (main : String) : Prop :=
  ∀ path, Reached src ffp main path → ∀ contents, text_at src path = some contents →
    ∀ line ∈ readlines contents, ProperInclude line

/-- There is one way to replace the includes. -/
theorem Splices.unique {rest lines lines' : List (List Char)} (h : Splices src ffp rest lines)
    (h' : Splices src ffp rest lines') : lines = lines' := by
  induction h generalizing lines' with
  | nil =>
    cases h'
    rfl
  | kept hline _ ih =>
    cases h' with
    | kept _ hrest' => rw [ih hrest']
    | replaced hline' _ _ _ _ => rw [hline] at hline'; exact nomatch hline'
  | replaced hline hpath htext _ _ ihinner ihrest =>
    cases h' with
    | kept hline' _ => rw [hline] at hline'; exact nomatch hline'
    | replaced hline' hpath' htext' hinner' hrest' =>
      rw [hline] at hline'
      obtain rfl := Option.some.inj hline'
      rw [hpath] at hpath'
      obtain rfl := Option.some.inj hpath'
      rw [htext] at htext'
      obtain rfl := Option.some.inj htext'
      rw [ihinner hinner', ihrest hrest']

/-! ## Lines that include a file -/

/-- The part before the last quote of a text that has one. -/
theorem before_last_quote_append (a b : List Char) :
    ∃ more, before_last_quote (a ++ '"' :: b) = some (a ++ more) := by
  induction a with
  | nil =>
    rw [List.nil_append, before_last_quote]
    cases before_last_quote b with
    | none => exact ⟨[], rfl⟩
    | some part => exact ⟨'"' :: part, rfl⟩
  | cons c cs ih =>
    obtain ⟨more, hmore⟩ := ih
    refine ⟨more, ?_⟩
    rw [List.cons_append, before_last_quote, hmore]
    rfl

/-- What is found before the last quote stands there, a quote behind it. -/
theorem of_before_last_quote {text part : List Char} (h : before_last_quote text = some part) :
    ∃ behind, text = part ++ '"' :: behind := by
  induction text generalizing part with
  | nil => exact nomatch h
  | cons c cs ih =>
    rw [before_last_quote] at h
    cases hcs : before_last_quote cs with
    | none =>
      rw [hcs] at h
      by_cases hc : c = '"'
      · rw [if_pos hc] at h
        obtain rfl := Option.some.inj h
        exact ⟨cs, by rw [hc]; rfl⟩
      · rw [if_neg hc] at h
        exact nomatch h
    | some part' =>
      rw [hcs] at h
      obtain rfl := Option.some.inj h
      obtain ⟨behind, rfl⟩ := ih hcs
      exact ⟨behind, rfl⟩

/-- A line that includes a file: `#include` and a quoted text without white space. -/
structure IncludeShape (line blank gap name behind : List Char) : Prop where
  shape : line = blank ++ ("#include".toList ++ (gap ++ '"' :: (name ++ '"' :: behind)))
  blank_space : ∀ c ∈ blank, isSpace c = true
  gap_space : ∀ c ∈ gap, isSpace c = true
  gap_ne_nil : gap ≠ []
  name_space : ∀ c ∈ name, isSpace c = false
  name_ne_nil : name ≠ []

theorem IncludeShape.append {line blank gap name behind : List Char}
    (h : IncludeShape line blank gap name behind) (more : List Char) :
    IncludeShape (line ++ more) blank gap name (behind ++ more) := by
  refine { h with shape := ?_ }
  rw [h.shape]
  simp only [List.append_assoc, List.cons_append]

theorem drop_include (rest : List Char) :
    ("#include".toList ++ rest).drop "#include".length = rest := List.drop_left' rfl

/-- Lines of this shape are the lines for which a file is found. -/
theorem isSome_included_file_iff {line : List Char} :
    (included_file line).isSome ↔
      ∃ blank gap name behind, IncludeShape line blank gap name behind := by
  constructor
  · intro h
    unfold included_file at h
    dsimp only at h
    split_ifs at h with hprefix
    · obtain ⟨rest, hrest⟩ := hprefix
      rw [← hrest] at h
      rw [drop_include] at h
      have hsplit := List.takeWhile_append_dropWhile (p := isSpace) (l := rest)
      have hgap : ∀ c ∈ rest.takeWhile isSpace, isSpace c = true := fun c hc =>
        List.mem_takeWhile_imp hc
      revert hsplit hgap h
      generalize rest.takeWhile isSpace = gap
      generalize rest.dropWhile isSpace = word
      intro h hsplit hgap
      split at h
      · rename_i g gs quoted
        split at h
        · rename_i c cs hname
          obtain ⟨behind, hbehind⟩ := of_before_last_quote hname
          have hquoted := List.takeWhile_append_dropWhile (p := fun c => !isSpace c) (l := quoted)
          refine ⟨line.takeWhile isSpace, g :: gs, c :: cs,
            behind ++ quoted.dropWhile fun c => !isSpace c, ?_, fun c hc =>
            List.mem_takeWhile_imp hc, hgap, List.cons_ne_nil _ _, ?_, List.cons_ne_nil _ _⟩
          · have hword : c :: cs ++ '"' :: (behind ++ quoted.dropWhile fun c => !isSpace c) =
                quoted := by
              conv_rhs => rw [← hquoted, hbehind]
              simp
            rw [hword, hsplit, hrest, List.takeWhile_append_dropWhile]
          · intro d hd
            have hmem : d ∈ quoted.takeWhile fun c => !isSpace c := by
              rw [hbehind]
              exact List.mem_append_left _ hd
            simpa using List.mem_takeWhile_imp hmem
        · exact absurd h Bool.false_ne_true
      · exact absurd h Bool.false_ne_true
    · exact absurd h Bool.false_ne_true
  · rintro ⟨blank, gap, name, behind, h⟩
    obtain ⟨g, gs, rfl⟩ := List.exists_cons_of_ne_nil h.gap_ne_nil
    obtain ⟨n, ns, rfl⟩ := List.exists_cons_of_ne_nil h.name_ne_nil
    have hrest : line.dropWhile isSpace =
        "#include".toList ++ (g :: gs ++ '"' :: (n :: ns ++ '"' :: behind)) := by
      rw [h.shape]
      exact Scan.dropWhile_word h.blank_space (by simp; decide)
    have hquote : ∀ c, ('"' :: (n :: ns ++ '"' :: behind)).head? = some c → isSpace c = false := by
      simp
      decide
    have hword : ∃ more, (n :: ns ++ '"' :: behind).takeWhile (fun c => !isSpace c) =
        n :: ns ++ '"' :: more := by
      refine ⟨behind.takeWhile fun c => !isSpace c, ?_⟩
      rw [List.takeWhile_append_of_pos fun c hc => by rw [h.name_space c hc]; rfl]
      rfl
    obtain ⟨more, hmore⟩ := hword
    obtain ⟨tail, htail⟩ := before_last_quote_append (n :: ns) more
    unfold included_file
    dsimp only
    rw [hrest, if_pos (List.prefix_append _ _), drop_include,
      Scan.takeWhile_word h.gap_space hquote, Scan.dropWhile_word h.gap_space hquote]
    split
    · rename_i quoted _ hquoted
      obtain rfl := (List.cons.inj hquoted).2
      rw [hmore, htail]
      rfl
    · rename_i hno
      exact absurd rfl (hno g gs _ rfl)

/-- More text behind a line that includes a file changes nothing about that. -/
theorem isSome_included_file_append {line : List Char} (h : (included_file line).isSome)
    (more : List Char) : (included_file (line ++ more)).isSome := by
  obtain ⟨blank, gap, name, behind, hshape⟩ := isSome_included_file_iff.mp h
  exact isSome_included_file_iff.mpr ⟨blank, gap, name, behind ++ more, hshape.append more⟩

theorem isSome_included_file_chomp {line : List Char} :
    (included_file (chomp line)).isSome ↔ (included_file line).isSome := by
  rcases eq_chomp line with hline | hline
  · constructor
    · intro h
      rw [hline]
      exact isSome_included_file_append h ['\n']
    · intro h
      obtain ⟨blank, gap, name, behind, hshape⟩ := isSome_included_file_iff.mp h
      have hquote : line = blank ++ ("#include".toList ++ (gap ++ '"' :: name)) ++ '"' :: behind := by
        rw [hshape.shape]
        simp only [List.append_assoc, List.cons_append]
      rcases List.eq_nil_or_concat behind with rfl | ⟨front, last, rfl⟩
      · have hlast := congrArg List.getLast? (hline.symm.trans hquote)
        rw [List.getLast?_concat, List.getLast?_concat] at hlast
        exact absurd hlast (by decide)
      · refine isSome_included_file_iff.mpr ⟨blank, gap, name, front, { hshape with shape := ?_ }⟩
        have hchomp := hline.symm.trans hshape.shape
        have hfront : blank ++ ("#include".toList ++ (gap ++ '"' :: (name ++ '"' :: (front ++ [last]))))
            = blank ++ ("#include".toList ++ (gap ++ '"' :: (name ++ '"' :: front))) ++ [last] := by
          simp only [List.append_assoc, List.cons_append]
        rw [List.concat_eq_append, hfront] at hchomp
        exact (List.append_inj' hchomp rfl).1
  · rw [← hline]

/-! ## The lines of a text -/

/-- A line as it is read: not empty, with its newline at its end. -/
def IsLine (line : List Char) : Prop := line ≠ [] ∧ '\n' ∉ chomp line

theorem isLine_of_mem_readlines {text line : List Char} (h : line ∈ readlines text) :
    IsLine line := newline_of_mem_readlines h

/-- A line that ends with a newline is a line of its own. -/
theorem text_lines_of_ended {line : List Char} (hline : IsLine line)
    (hend : line.getLast? = some '\n') (text : List Char) :
    text_lines (line ++ text) = chomp line :: text_lines text := by
  have hsplit : line = chomp line ++ ['\n'] := by
    unfold chomp
    rw [if_pos hend]
    exact (List.dropLast_append_getLast? '\n' hend).symm
  have hread := readlines_append_newline hline.2 text
  unfold text_lines
  rw [List.append_cons, ← hsplit] at hread
  rw [hread, List.map_cons]

theorem chomp_of_not_ended {line : List Char} (hend : line.getLast? ≠ some '\n') :
    chomp line = line := if_neg hend

/-- A text without newline belongs to the first line of the text behind it. -/
theorem text_lines_append {line text first : List Char} {rest : List (List Char)}
    (hline : '\n' ∉ line) (htext : text_lines text = first :: rest) :
    text_lines (line ++ text) = (line ++ first) :: rest := by
  unfold text_lines at htext ⊢
  obtain ⟨read, others, hread, rfl, rfl⟩ := List.map_eq_cons_iff.mp htext
  have hne : read ≠ [] := (isLine_of_mem_readlines (hread ▸ List.mem_cons_self)).1
  rw [readlines_append hline hread, List.map_cons]
  congr 1
  unfold chomp
  rw [List.getLast?_append_of_ne_nil line hne, List.dropLast_append_of_ne_nil hne]
  split_ifs <;> rfl

theorem text_lines_of_not_mem {line : List Char} (hne : line ≠ []) (h : '\n' ∉ line) :
    text_lines line = [line] := by
  unfold text_lines
  rw [readlines_of_not_mem hne h, List.map_singleton, chomp_of_not_mem h]

theorem text_lines_ne_nil {text : List Char} (h : text ≠ []) : text_lines text ≠ [] := by
  intro hnil
  have hread : readlines text = [] := List.map_eq_nil_iff.mp hnil
  have hflat := flatten_readlines text
  rw [hread] at hflat
  exact h hflat.symm

/-- A line in front of a text: it is a line of its own, the last line, or joined with the first
line of the text. -/
theorem text_lines_line {line : List Char} (hline : IsLine line) (text : List Char) :
    line.getLast? = some '\n' ∧ text_lines (line ++ text) = chomp line :: text_lines text ∨
      line.getLast? ≠ some '\n' ∧ chomp line = line ∧
        (text = [] ∧ text_lines (line ++ text) = [line] ∨
          ∃ first rest, text_lines text = first :: rest ∧
            text_lines (line ++ text) = (line ++ first) :: rest) := by
  by_cases hend : line.getLast? = some '\n'
  · exact Or.inl ⟨hend, text_lines_of_ended hline hend text⟩
  · have hchomp := chomp_of_not_ended hend
    have hnot : '\n' ∉ line := hchomp ▸ hline.2
    refine Or.inr ⟨hend, hchomp, ?_⟩
    by_cases hnil : text = []
    · subst hnil
      exact Or.inl ⟨rfl, by rw [List.append_nil, text_lines_of_not_mem hline.1 hnot]⟩
    · obtain ⟨first, rest, htext⟩ := List.exists_cons_of_ne_nil (text_lines_ne_nil hnil)
      exact Or.inr ⟨first, rest, htext, text_lines_append hnot htext⟩

/-- Lines put together give no more lines. -/
theorem length_text_lines_le {lines : List (List Char)} (hlines : ∀ line ∈ lines, IsLine line) :
    (text_lines lines.flatten).length ≤ lines.length := by
  induction lines with
  | nil => exact Nat.le_refl 0
  | cons line lines ih =>
    have hrest := ih fun other h => hlines other (List.mem_cons_of_mem line h)
    rw [List.flatten_cons]
    rcases text_lines_line (hlines line List.mem_cons_self) lines.flatten with
      ⟨-, htext⟩ | ⟨-, -, ⟨-, htext⟩ | ⟨first, rest, hflat, htext⟩⟩
    · rw [htext, List.length_cons, List.length_cons]
      omega
    · rw [htext, List.length_singleton, List.length_cons]
      omega
    · rw [hflat, List.length_cons] at hrest
      rw [htext, List.length_cons, List.length_cons]
      omega

/-- Lines put together stay lines of their own if all but the last end with a newline. -/
theorem text_lines_flatten_iff {lines : List (List Char)} (hlines : ∀ line ∈ lines, IsLine line) :
    text_lines lines.flatten = lines.map chomp ↔
      ∀ line ∈ lines.dropLast, line.getLast? = some '\n' := by
  induction lines with
  | nil => simp [text_lines, readlines]
  | cons line lines ih =>
    have hothers : ∀ other ∈ lines, IsLine other := fun other h =>
      hlines other (List.mem_cons_of_mem line h)
    have hrest := ih hothers
    by_cases hnil : lines = []
    · subst hnil
      rw [List.flatten_singleton, List.map_singleton]
      refine iff_of_true ?_ fun other h => absurd h List.not_mem_nil
      have hone := text_lines_line (hlines line List.mem_cons_self) []
      rw [List.append_nil] at hone
      rcases hone with ⟨-, htext⟩ | ⟨-, hchomp, ⟨-, htext⟩ | ⟨first, rest, hempty, -⟩⟩
      · exact htext
      · rw [htext, hchomp]
      · cases hempty
    · rw [List.flatten_cons, List.map_cons, List.dropLast_cons_of_ne_nil hnil,
        List.forall_mem_cons]
      have hflat : lines.flatten ≠ [] := by
        obtain ⟨other, others, rfl⟩ := List.exists_cons_of_ne_nil hnil
        intro h
        exact (hothers other List.mem_cons_self).1 (List.append_eq_nil_iff.mp h).1
      rcases text_lines_line (hlines line List.mem_cons_self) lines.flatten with
        ⟨hend, htext⟩ | ⟨hend, hchomp, ⟨hempty, -⟩ | ⟨first, rest, hfirst, htext⟩⟩
      · rw [htext, List.cons.injEq, hrest]
        exact ⟨fun h => ⟨hend, h.2⟩, fun h => ⟨rfl, h.2⟩⟩
      · exact absurd hempty hflat
      · -- The joined line leaves too few lines.
        refine iff_of_false (fun heq => ?_) fun h => hend h.1
        have hlength := congrArg List.length heq
        have hle := length_text_lines_le hothers
        rw [hfirst] at hle
        rw [htext] at hlength
        simp only [List.length_cons, List.length_map] at hlength hle
        omega

/-! ## A line that is left -/

/-- A text begins with the first of the lines and goes on with a line that includes a file. -/
def Strays (text : List Char) (lines : List (List Char)) : Prop :=
  ∃ front rest left tail, lines = front ++ rest ∧ text = front.flatten ++ (left ++ tail) ∧
    IsLine left ∧ (included_file left).isSome

theorem Strays.append_left {text : List Char} {lines : List (List Char)} (h : Strays text lines)
    (before : List (List Char)) : Strays (before.flatten ++ text) (before ++ lines) := by
  obtain ⟨front, rest, left, tail, rfl, rfl, hleft⟩ := h
  refine ⟨before ++ front, rest, left, tail, (List.append_assoc _ _ _).symm, ?_, hleft⟩
  rw [List.flatten_append, List.append_assoc]

theorem Strays.append_right {text : List Char} {lines : List (List Char)} (h : Strays text lines)
    (behind : List Char) (others : List (List Char)) :
    Strays (text ++ behind) (lines ++ others) := by
  obtain ⟨front, rest, left, tail, rfl, rfl, hleft⟩ := h
  refine ⟨front, rest ++ others, left, tail ++ behind, List.append_assoc _ _ _, ?_, hleft⟩
  simp only [List.append_assoc]

/-- No blank line makes up for a newline that is missing. -/
theorem text_lines_ne_blank {front others : List (List Char)} {left tail : List Char}
    (hfront : ∀ line ∈ front, IsLine line) (hleft : IsLine left) (hne : chomp left ≠ []) :
    text_lines (front.flatten ++ (left ++ tail)) ≠ [] :: (front ++ others).map chomp := by
  induction front with
  | nil =>
    intro heq
    rcases text_lines_line hleft tail with
      ⟨-, htext⟩ | ⟨-, hchomp, ⟨-, htext⟩ | ⟨first, rest, -, htext⟩⟩
    · exact hne (List.cons.inj (htext.symm.trans heq)).1
    · exact hne (hchomp.trans (List.cons.inj (htext.symm.trans heq)).1)
    · have hnil := (List.cons.inj (htext.symm.trans heq)).1
      exact hleft.1 (List.append_eq_nil_iff.mp hnil).1
  | cons line front ih =>
    intro heq
    have hline := hfront line List.mem_cons_self
    rw [List.flatten_cons, List.append_assoc] at heq
    rcases text_lines_line hline (front.flatten ++ (left ++ tail)) with
      ⟨-, htext⟩ | ⟨-, -, ⟨-, htext⟩ | ⟨first, rest, -, htext⟩⟩
    · obtain ⟨hblank, hrest⟩ := List.cons.inj (htext.symm.trans heq)
      refine ih (fun other h => hfront other (List.mem_cons_of_mem line h)) ?_
      rw [hrest, List.cons_append, List.map_cons, hblank]
    · exact hline.1 (List.cons.inj (htext.symm.trans heq)).1
    · have hnil := (List.cons.inj (htext.symm.trans heq)).1
      exact hline.1 (List.append_eq_nil_iff.mp hnil).1

/-- A text with a line that includes a file does not have the lines that include none. -/
theorem text_lines_ne_of_strays {text : List Char} {lines : List (List Char)}
    (hlines : ∀ line ∈ lines, IsLine line ∧ included_file line = none) (h : Strays text lines) :
    text_lines text ≠ lines.map chomp := by
  obtain ⟨front, rest, left, tail, rfl, rfl, hleft, hfile⟩ := h
  have hchomp : (included_file (chomp left)).isSome := isSome_included_file_chomp.mpr hfile
  have hne : chomp left ≠ [] := by
    intro hnil
    rw [hnil] at hchomp
    exact absurd hchomp (by decide)
  induction front with
  | nil =>
    intro heq
    have hfirst : ∃ more others, text_lines (left ++ tail) = (chomp left ++ more) :: others := by
      rcases text_lines_line hleft tail with
        ⟨-, htext⟩ | ⟨-, heq', ⟨-, htext⟩ | ⟨first, others, -, htext⟩⟩
      · exact ⟨[], _, by rw [htext, List.append_nil]⟩
      · exact ⟨[], [], by rw [htext, heq', List.append_nil]⟩
      · exact ⟨first, others, by rw [htext, heq']⟩
    obtain ⟨more, others, hfirst⟩ := hfirst
    rw [List.flatten_nil, List.nil_append, hfirst, List.nil_append] at heq
    obtain ⟨line, rest', hrest, hline, -⟩ := List.map_eq_cons_iff.mp heq.symm
    have hnone := (hlines line (by rw [hrest]; exact List.mem_cons_self)).2
    have hsome := isSome_included_file_append hchomp more
    rw [← hline, isSome_included_file_chomp, hnone] at hsome
    exact nomatch hsome
  | cons line front ih =>
    intro heq
    have hline := (hlines line List.mem_cons_self).1
    have hothers : ∀ other ∈ front ++ rest, IsLine other ∧ included_file other = none :=
      fun other h => hlines other (List.mem_cons_of_mem line h)
    rw [List.flatten_cons, List.append_assoc, List.cons_append, List.map_cons] at heq
    rcases text_lines_line hline (front.flatten ++ (left ++ tail)) with
      ⟨-, htext⟩ | ⟨-, heq', ⟨hempty, -⟩ | ⟨first, others, hfirst, htext⟩⟩
    · exact ih hothers (List.cons.inj (htext.symm.trans heq)).2
    · have hnil := (List.append_eq_nil_iff.mp hempty).2
      exact hleft.1 (List.append_eq_nil_iff.mp hnil).1
    · obtain ⟨hjoined, hrest⟩ := List.cons.inj (htext.symm.trans heq)
      rw [heq'] at hjoined
      obtain rfl : first = [] := by simpa using hjoined
      have hblank := @text_lines_ne_blank front rest left tail
        (fun other h => (hothers other (List.mem_append_left rest h)).1) hleft hne
      exact hblank (by rw [hfirst, hrest])

/-! ## What the program puts together -/

theorem read_file_eq_ok {path : String} {contents : List Char} :
    read_file src path = .ok contents ↔ text_at src path = some contents := by
  unfold read_file text_at
  cases src.file_at path with
  | none => simp
  | some entry => cases entry <;> simp

theorem recursive_include_eq_ok {n : ℕ} {path : String} {contents text : List Char}
    (htext : text_at src path = some contents) :
    recursive_include src ffp (n + 1) path = .ok text ↔
      ∃ parts, (readlines contents).mapM
        (include_line src ffp path (recursive_include src ffp n)) = .ok parts ∧
          parts.flatten = text := by
  rw [recursive_include, bind_eq_ok]
  constructor
  · rintro ⟨contents', hread, h⟩
    rw [read_file_eq_ok, htext] at hread
    obtain rfl := Option.some.inj hread
    obtain ⟨parts, hparts, h⟩ := bind_eq_ok.mp h
    exact ⟨parts, hparts, Except.ok.inj h⟩
  · rintro ⟨parts, hparts, rfl⟩
    exact ⟨contents, read_file_eq_ok.mpr htext, bind_eq_ok.mpr ⟨parts, hparts, rfl⟩⟩

theorem infix_of_included_file {line : List Char} {file : String}
    (h : included_file line = some file) : "#include".toList <:+: line := by
  obtain ⟨blank, gap, name, behind, hshape⟩ :=
    isSome_included_file_iff.mp (Option.isSome_iff_exists.mpr ⟨file, h⟩)
  rw [hshape.shape]
  exact ⟨blank, _, by rw [List.append_assoc]⟩

section Line

variable {filename : String} {call : String → Except String (List Char)} {line : List Char}

theorem include_line_kept (h : "#include".toList <:+: line → is_commented_include line = true) :
    include_line src ffp filename call line = .ok line := by
  unfold include_line
  by_cases hinfix : "#include".toList <:+: line
  · rw [if_neg (not_not.mpr hinfix), if_pos (h hinfix)]
  · rw [if_pos hinfix]

theorem include_line_replaced {file path : String} (hcomment : is_commented_include line = false)
    (hline : included_file line = some file) (hpath : include_path src ffp file = some path) :
    include_line src ffp filename call line = call path := by
  unfold include_line
  rw [if_neg (not_not.mpr (infix_of_included_file hline)), if_neg (by rw [hcomment]; decide), hline]
  dsimp only
  unfold include_path at hpath
  by_cases habsolute : file.toList.head? = some '/'
  · rw [if_pos habsolute] at hpath ⊢
    cases hentry : src.file_at file with
    | none =>
      rw [hentry] at hpath
      exact nomatch hpath
    | some entry =>
      rw [hentry] at hpath
      obtain rfl := Option.some.inj hpath
      rfl
  · rw [if_neg habsolute] at hpath ⊢
    obtain ⟨dirname, hdirname, rfl⟩ := Option.map_eq_some_iff.mp hpath
    rw [hdirname]

/-- A line that names no file is a proper one if it is kept. -/
theorem proper_of_include_line {part : List Char} (hline : included_file line = none)
    (h : include_line src ffp filename call line = .ok part) : part = line ∧ ProperInclude line := by
  by_cases hinfix : "#include".toList <:+: line
  · by_cases hcomment : is_commented_include line = true
    · rw [include_line_kept fun _ => hcomment] at h
      refine ⟨(Except.ok.inj h).symm, fun _ => ?_⟩
      rw [hline, hcomment]
      exact iff_of_false Bool.false_ne_true (by decide)
    · unfold include_line at h
      rw [if_neg (not_not.mpr hinfix), if_neg hcomment, hline] at h
      exact nomatch h
  · rw [include_line_kept fun hin => absurd hin hinfix] at h
    exact ⟨(Except.ok.inj h).symm, fun hin => absurd hin hinfix⟩

end Line

/-- The lines are proper and so are those of the files that they include. -/
def ProperLines (src : ConfigTree) (ffp : List String) (lines : List (List Char)) : Prop :=
  ∀ line ∈ lines, ProperInclude line ∧ ∀ file path, included_file line = some file →
    include_path src ffp file = some path → ProperIncludes src ffp path

theorem properIncludes_iff {contents : List Char} (htext : text_at src main = some contents) :
    ProperIncludes src ffp main ↔ ProperLines src ffp (readlines contents) := by
  constructor
  · intro h line hline
    refine ⟨h main Relation.ReflTransGen.refl contents htext line hline, ?_⟩
    intro file path hfile hpath path' hreach
    exact h path' (Relation.ReflTransGen.head ⟨contents, htext, line, hline, file, hfile, hpath⟩
      hreach)
  · intro h path hreach contents' htext' line hline
    rcases Relation.ReflTransGen.cases_head hreach with rfl | ⟨first, hfirst, hreach⟩
    · rw [htext] at htext'
      obtain rfl := Option.some.inj htext'
      exact (h line hline).1
    · obtain ⟨contents'', htext'', line', hline', file, hfile, hpath⟩ := hfirst
      rw [htext] at htext''
      obtain rfl := Option.some.inj htext''
      exact (h line' hline').2 file first hfile hpath path hreach contents' htext' line hline

/-- Proper lines are put together as they should be. -/
theorem parts_of_proper {rest lines : List (List Char)} (h : Splices src ffp rest lines)
    (hproper : ProperLines src ffp rest) :
    ∃ depth, ∀ n ≥ depth, ∀ filename, ∃ parts,
      rest.mapM (include_line src ffp filename (recursive_include src ffp n)) = .ok parts ∧
        parts.flatten = lines.flatten := by
  induction h with
  | nil => exact ⟨0, fun n _ filename => ⟨[], rfl, rfl⟩⟩
  | @kept line rest lines hline _ ih =>
    obtain ⟨depth, hdepth⟩ := ih fun other h => hproper other (List.mem_cons_of_mem line h)
    refine ⟨depth, fun n hn filename => ?_⟩
    obtain ⟨parts, hparts, hflat⟩ := hdepth n hn filename
    have hkept : "#include".toList <:+: line → is_commented_include line = true := by
      intro hinfix
      have hiff := (hproper line List.mem_cons_self).1 hinfix
      rw [hline] at hiff
      exact Bool.of_not_eq_false fun hcomment => nomatch hiff.mpr hcomment
    refine ⟨line :: parts, mapM_eq_ok.mpr ?_, by rw [List.flatten_cons, List.flatten_cons, hflat]⟩
    exact List.Forall₂.cons (include_line_kept hkept) (mapM_eq_ok.mp hparts)
  | @replaced line rest inner lines file path contents hline hpath htext _ _ ihinner ihrest =>
    have hfirst := hproper line List.mem_cons_self
    obtain ⟨depth, hdepth⟩ := ihinner
      ((properIncludes_iff htext).mp (hfirst.2 file path hline hpath))
    obtain ⟨depth', hdepth'⟩ := ihrest fun other h => hproper other (List.mem_cons_of_mem line h)
    refine ⟨max (depth + 1) depth', fun n hn filename => ?_⟩
    obtain ⟨m, rfl⟩ : ∃ m, n = m + 1 := ⟨n - 1, by omega⟩
    obtain ⟨within, hwithin, hinner⟩ := hdepth m (by omega) path
    obtain ⟨parts, hparts, hflat⟩ := hdepth' (m + 1) (by omega) filename
    have hcomment : is_commented_include line = false :=
      (hfirst.1 (infix_of_included_file hline)).mp (by rw [hline]; rfl)
    have hcall : recursive_include src ffp (m + 1) path = .ok inner.flatten :=
      (recursive_include_eq_ok htext).mpr ⟨within, hwithin, hinner⟩
    refine ⟨inner.flatten :: parts, mapM_eq_ok.mpr ?_, ?_⟩
    · exact List.Forall₂.cons ((include_line_replaced hcomment hline hpath).trans hcall)
        (mapM_eq_ok.mp hparts)
    · rw [List.flatten_cons, List.flatten_append, hflat]

/-- What is put together from lines that are not all proper leaves a line that includes a file. -/
theorem proper_or_strays {rest lines : List (List Char)} (h : Splices src ffp rest lines)
    (hrest : ∀ line ∈ rest, IsLine line) {n : ℕ} {filename : String} {parts : List (List Char)}
    (hparts : rest.mapM (include_line src ffp filename (recursive_include src ffp n)) =
      .ok parts) :
    parts.flatten = lines.flatten ∧ ProperLines src ffp rest ∨ Strays parts.flatten lines := by
  induction h generalizing n filename parts with
  | nil =>
    obtain rfl := Except.ok.inj hparts
    exact Or.inl ⟨rfl, fun line h => absurd h List.not_mem_nil⟩
  | @kept line rest lines hline _ ih =>
    have hall := mapM_eq_ok.mp hparts
    cases hall with
    | @cons _ part _ parts hpart hothers =>
      obtain ⟨rfl, hproper⟩ := proper_of_include_line hline hpart
      rcases ih (fun other h => hrest other (List.mem_cons_of_mem _ h)) (mapM_eq_ok.mpr hothers) with
        ⟨hflat, hproper'⟩ | hstrays
      · refine Or.inl ⟨by rw [List.flatten_cons, List.flatten_cons, hflat], ?_⟩
        intro other hother
        rcases List.mem_cons.mp hother with rfl | hother
        · exact ⟨hproper, fun file path hfile _ => nomatch hline.symm.trans hfile⟩
        · exact hproper' other hother
      · have hleft := hstrays.append_left [part]
        rw [List.flatten_singleton] at hleft
        exact Or.inr hleft
  | @replaced line rest inner lines file path contents hline hpath htext _ _ ihinner ihrest =>
    have hall := mapM_eq_ok.mp hparts
    cases hall with
    | @cons _ part _ parts hpart hothers =>
      by_cases hcomment : is_commented_include line = true
      · -- The line counts as a comment and is left.
        rw [include_line_kept fun _ => hcomment] at hpart
        obtain rfl := Except.ok.inj hpart
        exact Or.inr ⟨[], inner ++ lines, line, parts.flatten, rfl, rfl,
          hrest line List.mem_cons_self, by rw [hline]; rfl⟩
      · have hcomment' := Bool.eq_false_iff.mpr hcomment
        rw [include_line_replaced hcomment' hline hpath] at hpart
        cases n with
        | zero => exact nomatch hpart
        | succ m =>
          obtain ⟨within, hwithin, rfl⟩ := (recursive_include_eq_ok htext).mp hpart
          rw [List.flatten_cons]
          rcases ihinner (fun other h => isLine_of_mem_readlines h) hwithin with
            ⟨hinner, hproper⟩ | hstrays
          · rcases ihrest (fun other h => hrest other (List.mem_cons_of_mem line h))
              (mapM_eq_ok.mpr hothers) with ⟨hflat, hproper'⟩ | hstrays
            · refine Or.inl ⟨by rw [hinner, hflat, List.flatten_append], ?_⟩
              intro other hother
              rcases List.mem_cons.mp hother with rfl | hother
              · refine ⟨fun _ => iff_of_true (by rw [hline]; rfl) hcomment', ?_⟩
                intro file' path' hfile' hpath'
                rw [hline] at hfile'
                obtain rfl := Option.some.inj hfile'
                rw [hpath] at hpath'
                obtain rfl := Option.some.inj hpath'
                exact (properIncludes_iff htext).mpr hproper
              · exact hproper' other hother
            · rw [hinner]
              exact Or.inr (hstrays.append_left inner)
          · exact Or.inr (hstrays.append_right parts.flatten lines)

/-- The lines that are put together include no file. -/
theorem Splices.lines {rest lines : List (List Char)} (h : Splices src ffp rest lines)
    (hrest : ∀ line ∈ rest, IsLine line) :
    ∀ line ∈ lines, IsLine line ∧ included_file line = none := by
  induction h with
  | nil => exact fun line h => absurd h List.not_mem_nil
  | @kept line rest lines hline _ ih =>
    intro other hother
    rcases List.mem_cons.mp hother with rfl | hother
    · exact ⟨hrest other List.mem_cons_self, hline⟩
    · exact ih (fun other h => hrest other (List.mem_cons_of_mem line h)) other hother
  | @replaced line rest inner lines file path contents hline _ _ _ _ ihinner ihrest =>
    intro other hother
    rcases List.mem_append.mp hother with hother | hother
    · exact ihinner (fun other h => isLine_of_mem_readlines h) other hother
    · exact ihrest (fun other h => hrest other (List.mem_cons_of_mem line h)) other hother

/-- Lines whose files can be put together can be. -/
theorem splices_of_files {rest : List (List Char)}
    (h : ∀ line ∈ rest, ∀ file, included_file line = some file → ∃ path contents inner,
      include_path src ffp file = some path ∧ text_at src path = some contents ∧
        Splices src ffp (readlines contents) inner) : ∃ lines, Splices src ffp rest lines := by
  induction rest with
  | nil => exact ⟨[], Splices.nil⟩
  | cons line rest ih =>
    obtain ⟨lines, hlines⟩ := ih fun other hother => h other (List.mem_cons_of_mem line hother)
    cases hline : included_file line with
    | none => exact ⟨line :: lines, Splices.kept hline hlines⟩
    | some file =>
      obtain ⟨path, contents, inner, hpath, htext, hinner⟩ := h line List.mem_cons_self file hline
      exact ⟨inner ++ lines, Splices.replaced hline hpath htext hinner hlines⟩

/-- Files without cycles can be put together. -/
theorem splices_of_acyclic (hacyclic : AcyclicIncludes src ffp main)
    (hfound : IncludesFound src ffp main) : ∃ contents lines, text_at src main = some contents ∧
      Splices src ffp (readlines contents) lines := by
  refine Graph.reachable_induction (motive := fun path => ∃ contents lines,
    text_at src path = some contents ∧ Splices src ffp (readlines contents) lines)
    hacyclic.finite hacyclic.acyclic fun path hreach ih => ?_
  obtain ⟨contents, htext, hfiles⟩ := hfound path hreach
  have hlines : ∃ lines, Splices src ffp (readlines contents) lines := by
    refine splices_of_files fun line hline file hfile => ?_
    obtain ⟨path', hpath⟩ := hfiles line hline file hfile
    obtain ⟨contents', inner, htext', hinner⟩ :=
      ih path' ⟨contents, htext, line, hline, file, hfile, hpath⟩
    exact ⟨path', contents', inner, hpath, htext', hinner⟩
  obtain ⟨lines, hlines⟩ := hlines
  exact ⟨contents, lines, htext, hlines⟩

/-- The text has the right lines exactly if every line but the last ends with a newline, and
`#include` stands only in lines that include a file and have it once, or are commented out. -/
theorem recursive_include_splices_iff (hacyclic : AcyclicIncludes src ffp main)
    (hfound : IncludesFound src ffp main) :
    ∃ contents lines, text_at src main = some contents ∧
      Splices src ffp (readlines contents) lines ∧
        ((∃ used, (∃ depth, ∀ n ≥ depth, recursive_include src ffp n main = .ok used) ∧
            text_lines used = lines.map chomp) ↔
          (∀ line ∈ lines.dropLast, line.getLast? = some '\n') ∧
            ProperIncludes src ffp main) := by
  obtain ⟨contents, lines, htext, hsplices⟩ := splices_of_acyclic hacyclic hfound
  have hraw : ∀ line ∈ readlines contents, IsLine line := fun line h => isLine_of_mem_readlines h
  have hlines := hsplices.lines hraw
  refine ⟨contents, lines, htext, hsplices, ?_⟩
  rw [← text_lines_flatten_iff fun line h => (hlines line h).1, properIncludes_iff htext]
  constructor
  · rintro ⟨used, ⟨depth, hdepth⟩, hused⟩
    obtain ⟨parts, hparts, rfl⟩ :=
      (recursive_include_eq_ok htext).mp (hdepth (depth + 1) (Nat.le_succ depth))
    rcases proper_or_strays hsplices hraw hparts with ⟨hflat, hproper⟩ | hstrays
    · rw [hflat] at hused
      exact ⟨hused, hproper⟩
    · exact absurd hused (text_lines_ne_of_strays hlines hstrays)
  · rintro ⟨hflat, hproper⟩
    obtain ⟨depth, hdepth⟩ := parts_of_proper hsplices hproper
    refine ⟨lines.flatten, ⟨depth + 1, fun n hn => ?_⟩, hflat⟩
    obtain ⟨m, rfl⟩ : ∃ m, n = m + 1 := ⟨n - 1, by omega⟩
    exact (recursive_include_eq_ok htext).mpr (hdepth m (by omega) main)

/-! ## Two files -/

/-- A file `/m` with a line behind its include of the file `/a`. -/
def two_files (contents : List Char) : ConfigTree where
  common_code := false
  copytree _ _ := .ok []
  walk _ := []
  file_at path :=
    if path = "/m" then some (.text "#include \"/a\"\nx\n".toList)
    else if path = "/a" then some (.text contents)
    else none
  recursion_limit := 1000

theorem two_files_main (contents : List Char) :
    text_at (two_files contents) "/m" = some "#include \"/a\"\nx\n".toList := rfl

theorem readlines_main : readlines "#include \"/a\"\nx\n".toList =
    ["#include \"/a\"\n".toList, "x\n".toList] := by decide

theorem include_main : included_file "#include \"/a\"\n".toList = some "/a" := by decide

theorem last_line_main : included_file "x\n".toList = none := by decide

theorem include_path_main (contents : List Char) :
    include_path (two_files contents) [] "/a" = some "/a" := rfl

section TwoFiles

variable {contents : List Char} (hcontents : ∀ line ∈ readlines contents, included_file line = none)
include hcontents

theorem two_files_includes {path path' : String} (h : Includes (two_files contents) [] path path') :
    path = "/m" ∧ path' = "/a" := by
  obtain ⟨text, htext, line, hline, file, hfile, hpath⟩ := h
  by_cases hmain : path = "/m"
  · subst hmain
    rw [two_files_main] at htext
    obtain rfl := Option.some.inj htext
    rw [readlines_main] at hline
    rcases List.mem_cons.mp hline with rfl | hline
    · rw [include_main] at hfile
      obtain rfl := Option.some.inj hfile
      rw [include_path_main] at hpath
      exact ⟨rfl, (Option.some.inj hpath).symm⟩
    · rw [List.mem_singleton.mp hline, last_line_main] at hfile
      exact nomatch hfile
  · by_cases hother : path = "/a"
    · subst hother
      obtain rfl : contents = text := Option.some.inj htext
      rw [hcontents line hline] at hfile
      exact nomatch hfile
    · unfold text_at two_files at htext
      dsimp only at htext
      rw [if_neg hmain, if_neg hother] at htext
      exact nomatch htext

theorem two_files_reached {path : String} (h : Reached (two_files contents) [] "/m" path) :
    path = "/m" ∨ path = "/a" := by
  rcases Relation.ReflTransGen.cases_tail h with rfl | ⟨before, -, hlast⟩
  · exact Or.inl rfl
  · exact Or.inr (two_files_includes hcontents hlast).2

theorem two_files_acyclic : AcyclicIncludes (two_files contents) [] "/m" := by
  refine ⟨?_, fun path _ hcycle => ?_⟩
  · refine Set.Finite.subset (Set.toFinite {"/m", "/a"}) fun path hpath => ?_
    exact two_files_reached hcontents hpath
  · obtain ⟨next, hfirst, -⟩ := Relation.TransGen.head'_iff.mp hcycle
    obtain ⟨before, -, hlast⟩ := Relation.TransGen.tail'_iff.mp hcycle
    have hmain := (two_files_includes hcontents hfirst).1
    rw [(two_files_includes hcontents hlast).2] at hmain
    exact absurd hmain (by decide)

theorem two_files_found : IncludesFound (two_files contents) [] "/m" := by
  intro path hreach
  rcases two_files_reached hcontents hreach with rfl | rfl
  · refine ⟨_, two_files_main contents, fun line hline file hfile => ?_⟩
    rw [readlines_main] at hline
    rcases List.mem_cons.mp hline with rfl | hline
    · rw [include_main] at hfile
      obtain rfl := Option.some.inj hfile
      exact ⟨"/a", rfl⟩
    · rw [List.mem_singleton.mp hline, last_line_main] at hfile
      exact nomatch hfile
  · refine ⟨contents, rfl, fun line hline file hfile => ?_⟩
    rw [hcontents line hline] at hfile
    exact nomatch hfile

end TwoFiles

/-- A file that ends with a newline. -/
theorem ended_file_spliced :
    ∃ contents lines, text_at (two_files "y\n".toList) "/m" = some contents ∧
      Splices (two_files "y\n".toList) [] (readlines contents) lines ∧
        ((∃ used, (∃ depth, ∀ n ≥ depth,
              recursive_include (two_files "y\n".toList) [] n "/m" = .ok used) ∧
            text_lines used = lines.map chomp) ↔
          (∀ line ∈ lines.dropLast, line.getLast? = some '\n') ∧
            ProperIncludes (two_files "y\n".toList) [] "/m") := by
  have hcontents : ∀ line ∈ readlines "y\n".toList, included_file line = none := by decide
  exact recursive_include_splices_iff (two_files_acyclic hcontents) (two_files_found hcontents)

/-- The line of a file that does not end with a newline is joined with the next one. -/
theorem unended_file_joined :
    AcyclicIncludes (two_files "y".toList) [] "/m" ∧ IncludesFound (two_files "y".toList) [] "/m" ∧
      ¬ ∃ contents lines, text_at (two_files "y".toList) "/m" = some contents ∧
        Splices (two_files "y".toList) [] (readlines contents) lines ∧
          ∃ used, (∃ depth, ∀ n ≥ depth,
              recursive_include (two_files "y".toList) [] n "/m" = .ok used) ∧
            text_lines used = lines.map chomp := by
  have hcontents : ∀ line ∈ readlines "y".toList, included_file line = none := by decide
  refine ⟨two_files_acyclic hcontents, two_files_found hcontents, ?_⟩
  rintro ⟨contents, lines, htext, hsplices, used, ⟨depth, hdepth⟩, hused⟩
  rw [two_files_main] at htext
  obtain rfl := Option.some.inj htext
  have hlines : lines = ["y".toList, "x\n".toList] := by
    refine hsplices.unique ?_
    rw [readlines_main]
    have hinner : Splices (two_files "y".toList) [] (readlines "y".toList) ["y".toList] :=
      Splices.kept (by decide) Splices.nil
    exact Splices.replaced include_main (include_path_main _) rfl hinner
      (Splices.kept last_line_main Splices.nil)
  have hrun : recursive_include (two_files "y".toList) [] (depth + 2) "/m" = .ok "yx\n".toList :=
    rfl
  rw [hdepth (depth + 2) (by omega)] at hrun
  obtain rfl := Except.ok.inj hrun
  rw [hlines] at hused
  exact absurd hused (by decide)

end DaqInterface
