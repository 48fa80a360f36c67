import Mathlib.Tactic

/-!
# Text

The string operations of the control program, on lists of characters: the substring
test `in`, the lines of `readlines`, and the white space of regular expressions.
File contents are taken after the newline translation of `open`.
-/

namespace DaqInterface

/-- `needle in haystack` for strings. -/
def contains (needle haystack : String) : Bool := decide (needle.toList <:+: haystack.toList)

/-- The characters that `\s` matches in a regular expression on text. -/
def isSpace (c : Char) : Bool :=
  c.val ∈ [0x09, 0x0a, 0x0b, 0x0c, 0x0d, 0x1c, 0x1d, 0x1e, 0x1f, 0x20, 0x85, 0xa0, 0x1680,
    0x2000, 0x2001, 0x2002, 0x2003, 0x2004, 0x2005, 0x2006, 0x2007, 0x2008, 0x2009, 0x200a,
    0x2028, 0x2029, 0x202f, 0x205f, 0x3000]

/-- `readlines()`: the lines of a text, each with its newline. -/
def readlines : List Char → List (List Char)
  | [] => []
  | c :: cs =>
    if c = '\n' then [c] :: readlines cs
    else
      match readlines cs with
      | [] => [[c]]
      | line :: rest => (c :: line) :: rest

/-- The lines of a text put together again are the text. -/
theorem flatten_readlines (text : List Char) : (readlines text).flatten = text := by
  induction text with
  | nil => rfl
  | cons c cs ih =>
    unfold readlines
    split
    · rw [List.flatten_cons, ih]
      rfl
    · split
      · rename_i h
        rw [h] at ih
        rw [← ih]
        rfl
      · rename_i line rest h
        rw [h] at ih
        rw [← ih]
        rfl

/-- A line without its newline. -/
def chomp (line : List Char) : List Char :=
  if line.getLast? = some '\n' then line.dropLast else line

theorem eq_chomp (line : List Char) : line = chomp line ++ ['\n'] ∨ line = chomp line := by
  unfold chomp
  split_ifs with hlast
  · exact Or.inl (List.dropLast_append_getLast? '\n' hlast).symm
  · exact Or.inr rfl

theorem chomp_cons {c : Char} {line : List Char} (hline : line ≠ []) :
    chomp (c :: line) = c :: chomp line := by
  unfold chomp
  rw [List.getLast?_cons_of_ne_nil hline, List.dropLast_cons_of_ne_nil hline]
  split_ifs <;> rfl

/-- The newline of a line is at its end. -/
theorem newline_of_mem_readlines {text line : List Char} (h : line ∈ readlines text) :
    line ≠ [] ∧ '\n' ∉ chomp line := by
  induction text generalizing line with
  | nil => exact absurd h List.not_mem_nil
  | cons c cs ih =>
    unfold readlines at h
    split at h
    · rename_i hc
      rcases List.mem_cons.mp h with rfl | h
      · exact ⟨List.cons_ne_nil _ _, by rw [hc]; decide⟩
      · exact ih h
    · rename_i hc
      split at h
      · rw [List.mem_singleton.mp h]
        have hlast : chomp [c] = [c] := if_neg fun heq => hc (Option.some.inj heq)
        refine ⟨List.cons_ne_nil _ _, ?_⟩
        rw [hlast]
        exact fun hmem => hc (List.mem_singleton.mp hmem).symm
      · rename_i first rest hrest
        rcases List.mem_cons.mp h with rfl | h
        · obtain ⟨hne, hnot⟩ := ih (hrest ▸ List.mem_cons_self)
          refine ⟨List.cons_ne_nil _ _, ?_⟩
          rw [chomp_cons hne]
          intro hmem
          rcases List.mem_cons.mp hmem with heq | hmem
          · exact hc heq.symm
          · exact hnot hmem
        · exact ih (hrest ▸ List.mem_cons_of_mem _ h)

theorem chomp_getLast {text line : List Char} (h : line ∈ readlines text) :
    line ≠ [] ∧ (chomp line).getLast? ≠ some '\n' := by
  obtain ⟨hne, hnot⟩ := newline_of_mem_readlines h
  exact ⟨hne, fun hlast => hnot (List.mem_of_getLast? hlast)⟩

theorem chomp_of_not_mem {line : List Char} (h : '\n' ∉ line) : chomp line = line :=
  if_neg fun hlast => h (List.mem_of_getLast? hlast)

theorem chomp_append_newline (line : List Char) : chomp (line ++ ['\n']) = line := by
  unfold chomp
  rw [if_pos List.getLast?_concat, List.dropLast_concat]

/-- A newline ends the first line of a text. -/
theorem readlines_append_newline {line : List Char} (h : '\n' ∉ line) (text : List Char) :
    readlines (line ++ '\n' :: text) = (line ++ ['\n']) :: readlines text := by
  induction line with
  | nil => exact if_pos rfl
  | cons c cs ih =>
    obtain ⟨hc, hcs⟩ := List.ne_and_not_mem_of_not_mem_cons h
    rw [List.cons_append, readlines, if_neg hc.symm, ih hcs]
    rfl

/-- A text without newline is put before the first line of what follows. -/
theorem readlines_append {line : List Char} (h : '\n' ∉ line) {text first : List Char}
    {rest : List (List Char)} (htext : readlines text = first :: rest) :
    readlines (line ++ text) = (line ++ first) :: rest := by
  induction line with
  | nil => exact htext
  | cons c cs ih =>
    obtain ⟨hc, hcs⟩ := List.ne_and_not_mem_of_not_mem_cons h
    rw [List.cons_append, readlines, if_neg hc.symm, ih hcs]
    rfl

theorem readlines_of_not_mem {line : List Char} (hne : line ≠ []) (h : '\n' ∉ line) :
    readlines line = [line] := by
  obtain ⟨c, cs, rfl⟩ := List.exists_cons_of_ne_nil hne
  obtain ⟨hc, hcs⟩ := List.ne_and_not_mem_of_not_mem_cons h
  by_cases hnil : cs = []
  · subst hnil
    exact if_neg hc.symm
  · have hlast : readlines [cs.getLast hnil] = [[cs.getLast hnil]] :=
      if_neg fun heq : cs.getLast hnil = '\n' => hcs (heq ▸ List.getLast_mem hnil)
    have hfront : '\n' ∉ c :: cs.dropLast := by
      intro hmem
      rcases List.mem_cons.mp hmem with heq | hmem
      · exact hc heq
      · exact hcs (List.dropLast_subset cs hmem)
    have hall := readlines_append hfront hlast
    rwa [List.cons_append, List.dropLast_append_getLast hnil] at hall

/-- `value.split(sep)` for a separator of one character. -/
def splitOn (sep : Char) : List Char → List (List Char)
  | [] => [[]]
  | c :: cs =>
    if c = sep then [] :: splitOn sep cs
    else
      match splitOn sep cs with
      | [] => [[c]]
      | part :: rest => (c :: part) :: rest

theorem splitOn_ne_nil (sep : Char) (text : List Char) : splitOn sep text ≠ [] := by
  cases text with
  | nil => exact List.cons_ne_nil _ _
  | cons c cs =>
    unfold splitOn
    split
    · exact List.cons_ne_nil _ _
    · split
      · exact List.cons_ne_nil _ _
      · exact List.cons_ne_nil _ _

theorem splitOn_sep (sep : Char) (text : List Char) :
    splitOn sep (sep :: text) = [] :: splitOn sep text := if_pos rfl

/-- A separator splits a text in two. -/
theorem splitOn_append (sep : Char) (a b : List Char) :
    splitOn sep (a ++ sep :: b) = splitOn sep a ++ splitOn sep b := by
  induction a with
  | nil => exact splitOn_sep sep b
  | cons c cs ih =>
    rw [List.cons_append]
    by_cases hc : c = sep
    · subst hc
      rw [splitOn_sep, splitOn_sep, ih]
      rfl
    · rw [splitOn, splitOn, if_neg hc, if_neg hc, ih]
      cases hcs : splitOn sep cs with
      | nil => exact absurd hcs (splitOn_ne_nil sep cs)
      | cons part rest => rfl

/-- A text without the separator is its only part. -/
theorem splitOn_eq_self {sep : Char} {text : List Char} (h : sep ∉ text) :
    splitOn sep text = [text] := by
  induction text with
  | nil => rfl
  | cons c cs ih =>
    obtain ⟨hc, hcs⟩ := List.ne_and_not_mem_of_not_mem_cons h
    rw [splitOn, if_neg hc.symm, ih hcs]

/-- A character in front of a text belongs to its first part. -/
theorem splitOn_first (sep : Char) (text : List Char) : ∃ first parts,
    splitOn sep text = first :: parts ∧
      ∀ c ≠ sep, splitOn sep (c :: text) = (c :: first) :: parts := by
  obtain ⟨first, parts, h⟩ := List.exists_cons_of_ne_nil (splitOn_ne_nil sep text)
  refine ⟨first, parts, h, fun c hc => ?_⟩
  rw [splitOn, if_neg hc, h]

/-- A character behind a text belongs to its last part. -/
theorem splitOn_last (sep : Char) (text : List Char) : ∃ parts last,
    splitOn sep text = parts ++ [last] ∧
      ∀ c ≠ sep, splitOn sep (text ++ [c]) = parts ++ [last ++ [c]] := by
  induction text with
  | nil => exact ⟨[], [], rfl, fun c hc => if_neg hc⟩
  | cons d ds ih =>
    obtain ⟨parts, last, hds, hmore⟩ := ih
    by_cases hd : d = sep
    · subst hd
      refine ⟨[] :: parts, last, by rw [splitOn_sep, hds]; rfl, fun c hc => ?_⟩
      rw [List.cons_append, splitOn_sep, hmore c hc]
      rfl
    · cases parts with
      | nil =>
        refine ⟨[], d :: last, by rw [splitOn, if_neg hd, hds]; rfl, fun c hc => ?_⟩
        rw [List.cons_append, splitOn, if_neg hd, hmore c hc]
        rfl
      | cons part parts =>
        refine ⟨(d :: part) :: parts, last, by rw [splitOn, if_neg hd, hds]; rfl, fun c hc => ?_⟩
        rw [List.cons_append, splitOn, if_neg hd, hmore c hc]
        rfl

/-- `text.endswith(suffix)`. -/
def endswith (suffix text : String) : Bool := decide (suffix.toList <:+ text.toList)

/-- `text.replace(old, new)`: every occurrence of `old`, from left to right, becomes `new`.
The first argument bounds the number of characters still to be read. -/
def replaceChars (old new : List Char) : ℕ → List Char → List Char
  | 0, text => text
  | _ + 1, [] => []
  | n + 1, c :: cs =>
    if old <+: c :: cs ∧ old ≠ [] then
      new ++ replaceChars old new n ((c :: cs).drop old.length)
    else c :: replaceChars old new n cs

/-- `text.replace(old, new)` for a non-empty `old`. -/
def replace (old new text : String) : String :=
  String.ofList (replaceChars old.toList new.toList text.length text.toList)

example : replace "_hw_cfg.fcl" ".fcl" "component01_hw_cfg.fcl" = "component01.fcl" := by decide

/-- The digits of a number. -/
theorem digits_of (n : ℕ) : ∃ d ds, (toString n).toList = d :: ds ∧
    ∀ c ∈ d :: ds, c.isDigit = true := by
  have htext : (toString n).toList = Nat.toDigits 10 n := Nat.toList_repr
  obtain ⟨d, ds, hdigits⟩ := List.exists_cons_of_ne_nil (Nat.toDigits_ne_nil (n := n) (b := 10))
  refine ⟨d, ds, htext.trans hdigits, fun c hc => ?_⟩
  exact Nat.isDigit_of_mem_toDigits (by decide) (le_refl _) (hdigits ▸ hc)

theorem not_mem_toString_nat {c : Char} (hc : c.isDigit = false) (n : ℕ) :
    c ∉ (toString n).toList := by
  obtain ⟨d, ds, htext, hdigits⟩ := digits_of n
  intro h
  have hdigit := hdigits c (htext ▸ h)
  rw [hc] at hdigit
  cases hdigit

theorem not_mem_toString_int {c : Char} (hc : c.isDigit = false) (hminus : c ≠ '-') (n : ℤ) :
    c ∉ (toString n).toList := by
  cases n with
  | ofNat n => exact not_mem_toString_nat hc n
  | negSucc n =>
    intro h
    have hdigits : c ∈ (toString (n + 1)).toList := by simpa [toString, Int.repr, hminus] using h
    exact not_mem_toString_nat hc _ hdigits

end DaqInterface
