import DaqInterface.Library.Pattern

/-!
# Replacement texts

The text that `re.sub` puts in the place of a match.  A backslash begins a reference to a group,
the number of a character or the name of one; a text without backslashes stands for itself.  What
is wrong with the text is found before anything is replaced.
-/

namespace Template

/-- What a replacement text consists of. -/
inductive Part
  | literal (c : Char)
  | group (n : ℕ)
  deriving DecidableEq, Repr

def isOctal (c : Char) : Bool := '0' ≤ c && c ≤ '7'

/-- A number that is written in a base. -/
def number (base : ℕ) (digits : List Char) : ℕ :=
  digits.foldl (fun n c => base * n + (c.toNat - '0'.toNat)) 0

/-- A reference to a group, of which there are so many. -/
def reference (groups n : ℕ) : Except String Part :=
  if groups < n then .error ("invalid group reference " ++ toString n) else .ok (.group n)

/-- The characters that have names. -/
def escapes : List (Char × Char) :=
  [('a', '\x07'), ('b', '\x08'), ('f', '\x0c'), ('n', '\n'), ('r', '\r'), ('t', '\t'),
    ('v', '\x0b'), ('\\', '\\')]

/-- The reference to a group by its number in angle brackets. -/
def named (groups : ℕ) : List Char → Except String (ℕ × List Part)
  | '<' :: rest =>
    let name := rest.takeWhile (· ≠ '>')
    if name = [] then .error "missing group name"
    else if name.length = rest.length then .error "missing >, unterminated name"
    else if name.all Char.isDigit then
      (reference groups (number 10 name)).map fun part => (name.length + 3, [part])
    else .error ("unknown group name '" ++ String.ofList name ++ "'")
  | _ => .error "missing <"

/-- What a backslash stands for, and how many of the characters behind it belong to it. -/
def escape (groups : ℕ) : List Char → Except String (ℕ × List Part)
  | [] => .error "bad escape (end of pattern)"
  | c :: rest =>
    if c = 'g' then named groups rest
    else if c = '0' then
      let digits := c :: (rest.take 2).takeWhile isOctal
      .ok (digits.length, [.literal (Char.ofNat (number 8 digits % 256))])
    else if c.isDigit then
      let octal := (c :: rest).take 3
      if octal.length = 3 ∧ octal.all isOctal then
        if 255 < number 8 octal then
          .error ("octal escape value \\" ++ String.ofList octal ++ " outside of range 0-0o377")
        else .ok (3, [.literal (Char.ofNat (number 8 octal))])
      else
        let digits := c :: (rest.take 1).takeWhile Char.isDigit
        (reference groups (number 10 digits)).map fun part => (digits.length, [part])
    else
      match escapes.lookup c with
      | some d => .ok (1, [.literal d])
      | none =>
        if c.isAlpha then .error ("bad escape \\" ++ String.ofList [c])
        else .ok (1, [.literal '\\', .literal c])

/-- The parts of a replacement text, behind the first characters, which belong to a backslash. -/
def parse_from (groups : ℕ) : ℕ → List Char → Except String (List Part)
  | _, [] => .ok []
  | skip + 1, _ :: rest => parse_from groups skip rest
  | 0, c :: rest =>
    if c = '\\' then do
      let (n, parts) ← escape groups rest
      let more ← parse_from groups n rest
      pure (parts ++ more)
    else (parse_from groups 0 rest).map (.literal c :: ·)

/-- `parse_template`, for an expression with so many groups. -/
def parse (groups : ℕ) (template : List Char) : Except String (List Part) :=
  parse_from groups 0 template

/-- A part of the replacement for a match, where the whole text of the match is the first group. -/
def Part.text (groups : List (List Char)) : Part → List Char
  | .literal c => [c]
  | .group n => groups.getD n []

/-- The replacement for a match. -/
def expand (groups : List (List Char)) (parts : List Part) : List Char :=
  parts.flatMap (Part.text groups)

/-- `re.sub`, for an expression with so many groups. -/
def sub (p : Pattern) (groups : ℕ) (template text : List Char) : Except String (List Char) :=
  (parse groups template).map fun parts => (Pattern.group p).sub (fun texts => expand texts parts) text

/-- The text stands for itself. -/
def Literal (template : List Char) : Prop := parse 0 template = .ok (template.map .literal)

instance (template : List Char) : Decidable (Literal template) :=
  inferInstanceAs (Decidable (_ = _))

variable {groups : ℕ} {template : List Char}

theorem expand_literal (texts : List (List Char)) (template : List Char) :
    expand texts (template.map .literal) = template := by
  induction template with
  | nil => rfl
  | cons c template ih =>
    rw [List.map_cons, expand, List.flatMap_cons, ← expand, ih]
    rfl

theorem isDigit_of_isOctal {c : Char} (h : isOctal c = true) : c.isDigit = true := by
  simp only [isOctal, Char.isDigit, Bool.and_eq_true, decide_eq_true_eq, ge_iff_le, Char.le_def,
    UInt32.le_iff_toNat_le] at h ⊢
  have hseven : ('7' : Char).val.toNat = 55 := rfl
  have hnine : ('9' : Char).val.toNat = 57 := rfl
  have hzero : ('0' : Char).val.toNat = (48 : UInt32).toNat := rfl
  omega

/-- A text without backslashes stands for itself. -/
theorem parse_of_no_backslash (groups : ℕ) (h : '\\' ∉ template) :
    parse groups template = .ok (template.map .literal) := by
  unfold parse
  induction template with
  | nil => rfl
  | cons c template ih =>
    have hc : c ≠ '\\' := fun heq => h (heq ▸ List.mem_cons_self)
    have hrest : '\\' ∉ template := fun hmem => h (List.mem_cons_of_mem _ hmem)
    rw [parse_from, if_neg hc, ih hrest]
    rfl

theorem literal_of_no_backslash (h : '\\' ∉ template) : Literal template :=
  parse_of_no_backslash 0 h

/-- The first group, and a text behind it that does not begin with a digit. -/
theorem parse_first_group (h : '\\' ∉ template)
    (hdigit : template.head?.any Char.isDigit = false) :
    parse 1 ('\\' :: '1' :: template) = .ok (.group 1 :: template.map .literal) := by
  have hescape : escape 1 ('1' :: template) = .ok (1, [.group 1]) := by
    have hone : ('1' : Char) ≠ 'g' ∧ ('1' : Char) ≠ '0' ∧ ('1' : Char).isDigit = true := by decide
    rw [escape, if_neg hone.1, if_neg hone.2.1, if_pos hone.2.2]
    have hoctal : ¬ ((('1' :: template).take 3).length = 3 ∧
        (('1' :: template).take 3).all isOctal = true) := by
      rintro ⟨hlength, hall⟩
      cases template with
      | nil => cases hlength
      | cons c template =>
        have hc : isOctal c = true := by
          simp only [List.take_succ_cons, List.all_cons, Bool.and_eq_true] at hall
          exact hall.2.1
        have hno : c.isDigit = false := hdigit
        rw [isDigit_of_isOctal hc] at hno
        cases hno
    have hdigits : (template.take 1).takeWhile Char.isDigit = [] := by
      cases template with
      | nil => rfl
      | cons c template =>
        have hno : c.isDigit = false := hdigit
        rw [List.take_succ_cons, List.takeWhile_cons_of_neg (by simp [hno])]
    dsimp only
    rw [if_neg hoctal, hdigits]
    rfl
  have hrest : parse_from 1 1 ('1' :: template) = .ok (template.map .literal) :=
    parse_of_no_backslash 1 h
  unfold parse
  rw [parse_from, if_pos rfl, hescape]
  show (parse_from 1 1 ('1' :: template)).bind _ = _
  rw [hrest]
  rfl

/-- The whole text of a match is its first group. -/
theorem sub_group (p : Pattern) (f : List (List Char) → List Char) (skip : ℕ) (text : List Char) :
    (Pattern.group p).sub_from (fun groups => f groups.tail) skip text = p.sub_from f skip text := by
  induction text generalizing skip with
  | nil => cases skip <;> rfl
  | cons c text ih =>
    cases skip with
    | succ skip => exact ih skip
    | zero =>
      rw [Pattern.sub_from, Pattern.sub_from, Pattern.at_start_group]
      cases p.at_start (c :: text) with
      | none =>
        show c :: _ = c :: _
        rw [ih 0]
      | some m =>
        show f m.1 ++ _ = f m.1 ++ _
        rw [ih]

theorem sub_literal (p : Pattern) (h : Literal template) (text : List Char) :
    sub p 0 template text = .ok (p.sub (fun _ => template) text) := by
  unfold sub
  rw [h]
  simp only [Except.map, expand_literal]
  exact congrArg Except.ok (sub_group p (fun _ => template) 0 text)

end Template
