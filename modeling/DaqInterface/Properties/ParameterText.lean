import DaqInterface.Library.Parts
import DaqInterface.Properties.TableContext

/-!
# Where parameters stand

What a parameter of a document is, whatever the bookkeeping takes for one: a full name in the
code, a colon, and a value, which is a quoted text, a list or a table with all its brackets, or
a word.  Comments may stand before and behind the colon.
-/

namespace DaqInterface

open Scan Parts

/-! ## Names and values -/

/-- The characters of a full name. -/
def isNameChar (c : Char) : Bool := isKeyChar c || c == '.'

/-- The characters of a value that is a word. -/
def isValueChar (c : Char) : Bool := !isSpace c && c ∉ [',', ']', '\x7d', '#']

/-- A text behind white space and comments; the flag says whether a comment has begun. -/
def skip_blank : Bool → List Char → List Char
  | _, [] => []
  | true, c :: rest => skip_blank (c ≠ '\n') rest
  | false, c :: rest =>
    if isSpace c then skip_blank false rest
    else if c = '#' ∨ (c = '/' ∧ rest.head? = some '/') then skip_blank true rest
    else c :: rest

/-- The number of characters up to the end of a quoted text. -/
def quoted_length : Mode → List Char → ℕ
  | _, [] => 0
  | mode, c :: rest => if mode.next c = .code then 1 else quoted_length (mode.next c) rest + 1

/-- The number of characters of a word. -/
def word_length : List Char → ℕ
  | [] => 0
  | c :: rest =>
    if isValueChar c = false ∨ (c = '/' ∧ rest.head? = some '/') then 0 else word_length rest + 1

/-- Brackets of lists. -/
def squares : Brackets Char := ⟨'[', ']', by decide⟩

/-- The number of characters up to the bracket that closes the first one. -/
def bracketed_length (b : Brackets Char) (rest : List Char) : ℕ :=
  match b.close_at 0 (bare .code rest) with
  | some i => i + 1
  | none => rest.length

/-- The number of characters of the value that begins here. -/
def value_length (rest : List Char) : ℕ :=
  match rest with
  | [] => 0
  | c :: _ =>
    if c = '"' ∨ c.toNat = 39 then quoted_length .code rest
    else if c = squares.opening then bracketed_length squares rest
    else if c = braces.opening then bracketed_length braces rest
    else word_length rest

/-! ## Parameters -/

/-- The parts of a parameter. -/
structure Parameter where
  key : List Char
  /-- The colon, and what stands before and behind it. -/
  gap : List Char
  value : List Char
  deriving DecidableEq

/-- The text of a parameter. -/
def Parameter.text (p : Parameter) : List Char := p.key ++ (p.gap ++ p.value)

/-- A parameter with another value. -/
def Parameter.with_value (p : Parameter) (value : List Char) : List Char := p.key ++ (p.gap ++ value)

/-- The value behind a name, with the text before it. -/
def value_behind (rest : List Char) : Option (List Char × List Char) :=
  match skip_blank false rest with
  | ':' :: more =>
    let tail := skip_blank false more
    if more.head? = some ':' ∨ value_length tail = 0 then none
    else some (rest.take (rest.length - tail.length), tail.take (value_length tail))
  | _ => none

/-- A parameter that begins at a place of the code. -/
def parameter_here (before rest : List Char) : Option Parameter :=
  if mode_behind before = .code ∧ before.head?.any isNameChar = false ∧
      rest.takeWhile isNameChar ≠ [] then
    (value_behind (rest.dropWhile isNameChar)).map fun (gap, value) =>
      ⟨rest.takeWhile isNameChar, gap, value⟩
  else none

/-- The parameters with a key among certain ones. -/
def parameters (chosen : List Char → Bool) : Finder Parameter := fun before rest =>
  (parameter_here before rest).bind fun p =>
    if chosen p.key then some (p.text.length, p) else none

/-- The parts of a document between parameters with certain keys. -/
def parameter_parts (chosen : List Char → Bool) (document : List Char) : List (Segment Parameter) :=
  parts (parameters chosen) 0 [] document

example : (items (parameter_parts (fun _ => true) "a.b: 5 # c: 6 \n d: [ 1, 2 ] e: \"x y\"".toList)).map
    (fun item => (item.2.key, item.2.value)) =
      [("a.b".toList, "5".toList), ("d".toList, "[ 1, 2 ]".toList),
        ("e".toList, "\"x y\"".toList)] := by decide +kernel

/-! ## The end of a value -/

theorem not_isSpace_of_isDigit {c : Char} (h : c.isDigit = true) : isSpace c = false := by
  by_contra hspace
  have hkey := not_isKeyChar_of_space (by simpa using hspace)
  unfold isKeyChar Char.isAlphanum at hkey
  rw [h, Bool.or_true, Bool.true_or] at hkey
  cases hkey

/-- A quoted text ends with its quotation mark or with the document. -/
theorem quoted_length_end {mode : Mode} (hmode : mode ∈ [Mode.quoted, .escaped, .single])
    (rest : List Char) : rest.drop (quoted_length mode rest) = [] ∨
      ∃ d, (rest.take (quoted_length mode rest)).getLast? = some d ∧ d.isDigit = false := by
  induction rest generalizing mode with
  | nil => exact Or.inl rfl
  | cons c rest ih =>
    unfold quoted_length
    split_ifs with hcode
    · -- only a quotation mark ends the text
      have hmark : c = '"' ∨ c.toNat = 39 := by
        simp only [List.mem_cons, List.not_mem_nil, or_false] at hmode
        rcases hmode with rfl | rfl | rfl
        · simp only [Mode.next] at hcode
          split_ifs at hcode with hquote
          exact Or.inl hquote
        · cases hcode
        · simp only [Mode.next] at hcode
          split_ifs at hcode with hquote
          exact Or.inr hquote
      refine Or.inr ⟨c, rfl, ?_⟩
      rcases hmark with rfl | hmark
      · decide
      · have hc : c = Char.ofNat 39 := by rw [← hmark, Char.ofNat_toNat]
        rw [hc]
        decide
    · have hnext : mode.next c ∈ [Mode.quoted, .escaped, .single] := by
        simp only [List.mem_cons, List.not_mem_nil, or_false] at hmode ⊢
        rcases hmode with rfl | rfl | rfl
        · simp only [Mode.next] at hcode ⊢
          split_ifs at hcode ⊢ <;> simp at hcode ⊢
        · exact Or.inl rfl
        · simp only [Mode.next] at hcode ⊢
          split_ifs at hcode ⊢ <;> simp at hcode ⊢
      rcases ih hnext with hend | ⟨d, hlast, hd⟩
      · exact Or.inl hend
      · refine Or.inr ⟨d, ?_, hd⟩
        rw [List.take_succ_cons, List.getLast?_cons, hlast]
        rfl

/-- What is not blank in a bare text stands in the text. -/
theorem getElem?_of_bare {mode : Mode} {rest : List Char} {i : ℕ} {c : Char}
    (h : (bare mode rest)[i]? = some c) (hc : c ≠ ' ') : rest[i]? = some c := by
  induction rest generalizing mode i with
  | nil => exact h
  | cons d rest ih =>
    cases i with
    | zero =>
      unfold bare at h
      rw [List.getElem?_cons_zero, Option.some.injEq] at h ⊢
      split_ifs at h with hcode
      · exact h
      · exact absurd h.symm hc
    | succ i =>
      unfold bare at h
      exact ih h

/-- A list or a table ends with its bracket or with the document. -/
theorem bracketed_length_end {b : Brackets Char} {tail : List Char}
    (hopen : Mode.next .code b.opening = .code) (hblank : b.closing ≠ ' ')
    (hdigit : b.closing.isDigit = false) :
    (b.opening :: tail).drop (bracketed_length b (b.opening :: tail)) = [] ∨
      ∃ d, ((b.opening :: tail).take (bracketed_length b (b.opening :: tail))).getLast? = some d ∧
        d.isDigit = false := by
  unfold bracketed_length
  have hbare : bare .code (b.opening :: tail) = b.opening :: bare .code tail := by
    rw [bare, if_pos hopen, hopen]
  have hclose : b.close_at 0 (b.opening :: bare .code tail) =
      (b.close_at 1 (bare .code tail)).map (· + 1) := by
    rw [Brackets.close_at, if_pos rfl, if_neg (Nat.succ_ne_zero _)]
  rw [hbare, hclose]
  cases hfound : b.close_at 1 (bare .code tail) with
  | none => exact Or.inl (List.drop_length)
  | some i =>
    have hchar := getElem?_of_bare (Brackets.close_at_spec hfound) hblank
    refine Or.inr ⟨b.closing, ?_, hdigit⟩
    show ((b.opening :: tail).take (i + 1 + 1)).getLast? = _
    rw [List.take_succ_cons, List.getLast?_cons, List.take_add_one, hchar]
    simp

/-- A word ends before a character that is no digit. -/
theorem word_length_end (rest : List Char) :
    (rest.drop (word_length rest)).head?.any Char.isDigit = false := by
  induction rest with
  | nil => rfl
  | cons c rest ih =>
    unfold word_length
    split_ifs with hend
    · rcases hend with hvalue | ⟨rfl, -⟩
      · by_contra hdigit
        have hc : c.isDigit = true := by simpa using hdigit
        unfold isValueChar at hvalue
        rw [not_isSpace_of_isDigit hc] at hvalue
        have hmem : c ∈ [',', ']', '\x7d', '#'] := by
          by_contra hnot
          rw [decide_eq_true hnot] at hvalue
          cases hvalue
        have hnone : ∀ d ∈ [',', ']', '\x7d', '#'], d.isDigit = false := by simp
        rw [hnone c hmem] at hc
        cases hc
      · rfl
    · exact ih

/-- Behind a value that ends with a digit there is no further digit. -/
theorem value_length_end {tail : List Char} {d : Char}
    (hlast : (tail.take (value_length tail)).getLast? = some d) (hd : d.isDigit = true) :
    (tail.drop (value_length tail)).head?.any Char.isDigit = false := by
  cases tail with
  | nil => rfl
  | cons c tail =>
    have hclosed : ∀ n, ((c :: tail).drop n = [] ∨
        ∃ d, ((c :: tail).take n).getLast? = some d ∧ d.isDigit = false) →
        ((c :: tail).take n).getLast? = some d →
        ((c :: tail).drop n).head?.any Char.isDigit = false := by
      rintro n (hend | ⟨d', hd', hno⟩) hlast
      · rw [hend]
        rfl
      · obtain rfl := Option.some.inj (hd'.symm.trans hlast)
        rw [hno] at hd
        cases hd
    simp only [value_length] at hlast ⊢
    split_ifs at hlast ⊢ with hquote hsquare hbrace
    · refine hclosed _ ?_ hlast
      have hmode : Mode.next .code c ∈ [Mode.quoted, .escaped, .single] := by
        rcases hquote with rfl | hquote
        · decide
        · have hc : c = Char.ofNat 39 := by rw [← hquote, Char.ofNat_toNat]
          rw [hc]
          decide
      have hne : Mode.next .code c ≠ .code := by
        intro heq
        rw [heq] at hmode
        revert hmode
        decide
      have hlength : quoted_length .code (c :: tail) = quoted_length (Mode.next .code c) tail + 1 := by
        rw [quoted_length, if_neg hne]
      rw [hlength]
      rcases quoted_length_end hmode tail with hend | ⟨d', hd', hno⟩
      · exact Or.inl hend
      · refine Or.inr ⟨d', ?_, hno⟩
        rw [List.take_succ_cons, List.getLast?_cons, hd']
        rfl
    · subst hsquare
      exact hclosed _ (bracketed_length_end (by decide) (by decide) (by decide)) hlast
    · subst hbrace
      exact hclosed _ (bracketed_length_end (by decide) (by decide) (by decide)) hlast
    · exact word_length_end _

/-- What is left behind white space and comments is the end of the text. -/
theorem skip_blank_suffix (comment : Bool) (rest : List Char) : skip_blank comment rest <:+ rest := by
  induction rest generalizing comment with
  | nil => cases comment <;> exact List.suffix_refl _
  | cons c rest ih =>
    cases comment with
    | true => exact (ih _).trans (List.suffix_cons c rest)
    | false =>
      unfold skip_blank
      split_ifs
      · exact (ih _).trans (List.suffix_cons c rest)
      · exact (ih _).trans (List.suffix_cons c rest)
      · exact List.suffix_refl _

/-- A parameter is the start of the text, and its value ends where a value ends. -/
theorem parameter_here_split {before rest : List Char} {p : Parameter}
    (h : parameter_here before rest = some p) :
    ∃ tail, rest = p.key ++ (p.gap ++ tail) ∧ p.value = tail.take (value_length tail) ∧
      p.value ≠ [] := by
  unfold parameter_here at h
  split_ifs at h with hplace
  obtain ⟨⟨gap, value⟩, hbehind, rfl⟩ := Option.map_eq_some_iff.mp h
  unfold value_behind at hbehind
  split at hbehind
  · rename_i more hcolon
    dsimp only at hbehind
    split_ifs at hbehind with hnone
    obtain ⟨rfl, rfl⟩ := Prod.mk.inj (Option.some.inj hbehind)
    have hsuffix : skip_blank false more <:+ rest.dropWhile isNameChar := by
      refine ((skip_blank_suffix false more).trans (List.suffix_cons ':' more)).trans ?_
      rw [← hcolon]
      exact skip_blank_suffix false _
    obtain ⟨gap, hgap⟩ := hsuffix
    refine ⟨skip_blank false more, ?_, rfl, ?_⟩
    · have htake : (rest.dropWhile isNameChar).take ((rest.dropWhile isNameChar).length -
          (skip_blank false more).length) = gap := by
        rw [← hgap, List.length_append, Nat.add_sub_cancel, List.take_left]
      show rest = rest.takeWhile isNameChar ++ (_ ++ _)
      rw [htake, hgap, List.takeWhile_append_dropWhile]
    · rw [not_or] at hnone
      intro hnil
      rcases List.take_eq_nil_iff.mp hnil with hzero | htail
      · exact hnone.2 hzero
      · exact hnone.2 (by rw [htail]; rfl)
  · cases hbehind

/-- Behind a parameter whose last character is a digit there is no further digit. -/
theorem parameters_end {chosen : List Char → Bool} {before text more : List Char} {n : ℕ}
    {p : Parameter} (h : parameters chosen before (text ++ more) = some (n, p))
    (htext : text = (text ++ more).take n) {d : Char} (hlast : text.getLast? = some d)
    (hd : d.isDigit = true) : more.head?.any Char.isDigit = false := by
  unfold parameters at h
  obtain ⟨p', hp, h⟩ := Option.bind_eq_some_iff.mp h
  split_ifs at h with hchosen
  obtain ⟨rfl, rfl⟩ := Prod.mk.inj (Option.some.inj h)
  obtain ⟨tail, hrest, hvalue, hne⟩ := parameter_here_split hp
  have hsplit : text ++ more = p'.text ++ tail.drop (value_length tail) := by
    unfold Parameter.text
    rw [hrest, hvalue, List.append_assoc, List.append_assoc, List.take_append_drop]
  have hsame : text = p'.text := by
    rw [htext, hsplit, List.take_left]
  have hmore : more = tail.drop (value_length tail) := by
    rw [hsame] at hsplit
    exact List.append_cancel_left hsplit
  rw [hmore]
  refine value_length_end (d := d) ?_ hd
  rw [← hvalue, ← hlast, hsame]
  unfold Parameter.text
  rw [List.getLast?_append_of_ne_nil _ (List.append_ne_nil_of_right_ne_nil _ hne),
    List.getLast?_append_of_ne_nil _ hne]

/-! ## Expressions for parameters -/

section Expressions

open Pattern

/-- The part of an expression behind the name of a parameter is tried at one place only. -/
theorem ways_parameter {name : String} {q : Pattern} (hq : q.Avoids isSpace) (rest : List Char) :
    (Pattern.seq (parameter name) q).ways rest =
      match behind_colon name.toList rest with
      | some more => q.ways more
      | none => [] := by
  have hempty : ∀ t, (Pattern.seq Pattern.empty q).ways t = q.ways t := by
    intro t
    simp [ways]
  have hlast : (Pattern.seq Pattern.empty q).Avoids isSpace :=
    fun c rest hc => (hempty (c :: rest)).trans (hq c rest hc)
  have hcolon : (text ":").Avoids isSpace := avoids_text (by decide) (by simp; decide)
  unfold parameter behind_colon
  rw [row, List.foldr_cons, ways_seq_assoc, ways_text_seq]
  split_ifs with hname
  · rw [List.foldr_cons, ways_seq_assoc, spaces, List.foldr_cons,
      ways_many_seq ((hcolon.seq _).seq _), ways_seq_assoc, ways_text_seq]
    cases hrest : (rest.drop name.toList.length).dropWhile isSpace with
    | nil => rfl
    | cons c more =>
      by_cases hc : c = ':'
      · subst hc
        have hprefix : ":".toList <+: ':' :: more := List.prefix_append [':'] more
        rw [if_pos hprefix, List.foldr_cons, List.foldr_nil, ways_seq_assoc, ways_many_seq hlast,
          hempty]
        rfl
      · have hprefix : ¬ ":".toList <+: c :: more := fun h =>
          hc (List.cons_prefix_cons.mp h).1.symm
        rw [if_neg hprefix]
        split
        · rename_i heq
          split at heq
          · rename_i heq'
            exact absurd (List.cons.inj heq').1 hc
          · cases heq
        · rfl
  · rfl

/-- The value of a parameter is matched behind the colon. -/
theorem at_start_parameter {name : String} {q : Pattern} (hq : q.Avoids isSpace)
    (rest : List Char) :
    (Pattern.seq (parameter name) q).at_start rest =
      (behind_colon name.toList rest).bind q.at_start := by
  unfold Pattern.at_start
  rw [ways_parameter hq]
  cases behind_colon name.toList rest <;> rfl

theorem consumes_parameter {name : String} {q : Pattern} (hname : name.toList ≠ []) :
    Consumes (Pattern.seq (parameter name) q) := by
  intro rest m hm
  unfold Pattern.at_start parameter at hm
  rw [row, List.foldr_cons, ways_seq_assoc] at hm
  exact consumes_of_text hname rest m hm

/-- What stands behind a name, a colon and white space. -/
theorem behind_colon_of (key : List Char) {blanks blanks' more : List Char}
    (hblanks : ∀ c ∈ blanks, isSpace c = true) (hblanks' : ∀ c ∈ blanks', isSpace c = true)
    (hmore : ∀ c, more.head? = some c → isSpace c = false) :
    behind_colon key (key ++ (blanks ++ ':' :: (blanks' ++ more))) = some more := by
  unfold behind_colon
  rw [if_pos (List.prefix_append _ _), List.drop_left,
    dropWhile_word hblanks (by rintro c ⟨⟩; decide)]
  show some ((blanks' ++ more).dropWhile isSpace) = some more
  rw [dropWhile_word hblanks' hmore]

end Expressions

end DaqInterface
