import DaqInterface.Model.Text

/-!
# The wrapping of messages

`make_paragraph` breaks a message into lines.  It looks back from the end of a line for white
space; where it has come back to a break that it made before, it looks ahead instead, and does so
from then on.
-/

namespace DaqInterface

/-- `userstring.replace("\n", " ")` -/
def spaced (userstring : List Char) : List Char :=
  userstring.map fun c => if c = '\n' then ' ' else c

/-- The last white space up to a place. -/
def back_to_space (userstring : List Char) : ℕ → Option ℕ
  | 0 => if userstring[0]?.any isSpace then some 0 else none
  | i + 1 => if userstring[i + 1]?.any isSpace then some (i + 1) else back_to_space userstring i

/-- The first white space of a text that begins at a place. -/
def on_to_space : List Char → ℕ → Option ℕ
  | [], _ => none
  | c :: cs, i => if isSpace c then some i else on_to_space cs (i + 1)

/-- The variables of the loop; `previous_string_index` is -1 at first. -/
structure Paragraph where
  userstring : List Char
  string_index : ℕ
  previous_string_index : Option ℕ
  ignore_algorithm : Bool

/-- The end of a turn: a line ends at a place. -/
def Paragraph.break_at (p : Paragraph) (chars_per_line i : ℕ) : Paragraph where
  userstring := p.userstring.take i ++ '\n' :: p.userstring.drop (i + 1)
  string_index := i + chars_per_line
  previous_string_index := some (i + chars_per_line)
  ignore_algorithm :=
    p.ignore_algorithm || p.previous_string_index == some (i + chars_per_line)

/-- The loop, for a number of turns: what it returns, or that it raises. -/
def Paragraph.wrap (chars_per_line : ℕ) : ℕ → Paragraph → Option (Except String (List Char))
  | 0, _ => none
  | turns + 1, p =>
    if p.userstring.length ≤ p.string_index then some (.ok p.userstring)
    else if p.ignore_algorithm then
      match on_to_space (p.userstring.drop p.string_index) p.string_index with
      -- the rest is one word
      | none => some (.ok p.userstring)
      | some i => wrap chars_per_line turns (p.break_at chars_per_line i)
    else
      match back_to_space p.userstring p.string_index with
      | none => some (.error "AssertionError")
      | some i => wrap chars_per_line turns (p.break_at chars_per_line i)

/-- `make_paragraph`; there is no result where the loop goes on for more turns than the message
has characters, and three. -/
def make_paragraph (userstring : List Char) (chars_per_line : ℕ) :
    Option (Except String (List Char)) :=
  (Paragraph.wrap chars_per_line (userstring.length + 3)
    ⟨spaced userstring, chars_per_line, none, false⟩).map (Except.map ('\n' :: ·))

end DaqInterface
