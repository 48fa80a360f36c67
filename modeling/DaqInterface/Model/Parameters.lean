import DaqInterface.Library.Double
import DaqInterface.Library.Pattern
import DaqInterface.Model.Text

/-!
# Parameters in FHiCL documents

The regular expressions with which the bookkeeping finds parameters in the documents of
the processes, and the conversions of what it finds to numbers.
-/

namespace DaqInterface

open Pattern

/-! ## Numbers -/

/-- The value of a digit, hexadecimal digits included. -/
def digit_value (c : Char) : ℕ :=
  if c.isDigit then c.toNat - '0'.toNat
  else if c.isLower then c.toNat - 'a'.toNat + 10
  else c.toNat - 'A'.toNat + 10

/-- The value of a row of digits. -/
def digits_value (base : ℕ) (digits : List Char) : ℕ :=
  digits.foldl (fun n c => base * n + digit_value c) 0

/-- `text.strip()`. -/
def strip (text : List Char) : List Char :=
  ((text.dropWhile isSpace).reverse.dropWhile isSpace).reverse

/-- `int(text)`, for a text without sign. -/
def int_of_text (text : List Char) : Except String ℕ :=
  let digits := strip text
  if digits ≠ [] ∧ digits.all Char.isDigit then .ok (digits_value 10 digits)
  else .error "ValueError: invalid literal for int() with base 10"

/-- A hexadecimal digit. -/
def isHexDigit (c : Char) : Bool := c.isDigit || ('a' ≤ c && c ≤ 'f') || ('A' ≤ c && c ≤ 'F')

/-- `int(text, 16)`, which allows `0x` before the digits. -/
def int_of_hex (text : List Char) : Except String ℕ :=
  let digits := if "0x".toList <+: text then text.drop 2 else text
  if digits ≠ [] ∧ digits.all isHexDigit then .ok (digits_value 16 digits)
  else .error "ValueError: invalid literal for int() with base 16"

/-- The number that a decimal text without sign stands for: digits, one of them at least,
with a point between them or at their ends, and an exponent. -/
def decimal_value (text : List Char) : Option ℚ :=
  let isExponent := fun c : Char => c == 'e' || c == 'E'
  let mantissa := text.takeWhile fun c => !isExponent c
  let exponent := text.dropWhile fun c => !isExponent c
  let whole := mantissa.takeWhile fun c => c ≠ '.'
  let fraction := (mantissa.dropWhile fun c => c ≠ '.').drop 1
  let digits := whole ++ fraction
  let scale := fun e : ℕ => (digits_value 10 digits : ℚ) * 10 ^ e / 10 ^ fraction.length
  if digits ≠ [] ∧ digits.all Char.isDigit then
    match exponent with
    | [] => some (scale 0)
    | _ :: power =>
      if power ≠ [] ∧ power.all Char.isDigit then some (scale (digits_value 10 power)) else none
  else none

/-- `int(float(text))`, for a text without sign. -/
def int_of_float_text (text : List Char) : Except String ℤ :=
  match decimal_value text with
  | none => .error "ValueError: could not convert string to float"
  | some value =>
    match Double.of_rat value with
    | some x => .ok (Double.trunc x)
    | none => .error "OverflowError: cannot convert float infinity to integer"

example : int_of_float_text "1.5e3".toList = .ok 1500 := by decide +kernel

/-! ## Regular expressions -/

/-- White space, as much as there is. -/
def spaces : Pattern := many isSpace

/-- The rest of a line up to a comment. -/
def before_comment : Pattern := many fun c => c ≠ '\n' && c ≠ '#'

/-- `\s*:\s*` behind the name of a parameter. -/
def parameter (name : String) : Pattern := row [text name, spaces, text ":", spaces]

/-- The characters of a decimal number. -/
def isDecimal (c : Char) : Bool := c.isDigit || c == '.' || c == 'e'

def re_max_frag_size : Pattern :=
  row [text "\n", before_comment, parameter "max_fragment_size_bytes",
    group (some_of fun c => isHexDigit c || c == '.' || c == 'x')]

def re_max_evt_size_search : Pattern :=
  row [text "\n", before_comment, parameter "max_event_size_bytes", some_of isDecimal]

def re_max_evt_size_value : Pattern :=
  row [text "\n", spaces, parameter "max_event_size_bytes", group (some_of isDecimal)]

def re_max_evt_size_sub : Pattern := row [parameter "max_event_size_bytes", some_of isDecimal]

def re_buffer_count : Pattern :=
  row [text "\n", group (row [spaces, parameter "buffer_count", some_of Char.isDigit])]

def re_fragment_id : Pattern :=
  row [text "\n", spaces, parameter "fragment_id", group (some_of Char.isDigit)]

def re_fragment_ids : Pattern :=
  row [text "\n", spaces, parameter "fragment_ids", text "[", spaces,
    group (some_of fun c => c.isDigit || c == ',' || c == '\n' || c == ' '), spaces, text "]"]

/-- The list of a `fragment_ids` parameter that the bookkeeping fills in. -/
def id_list : Pattern :=
  row [parameter "fragment_ids", text "[", many fun c => c.isDigit || c == ',' || c == ' ',
    text "]"]

def re_fragment_ids_search : Pattern := row [text "\n", before_comment, id_list]

def re_fragment_ids_sub : Pattern := id_list

def re_sends_no_frags : Pattern :=
  row [text "\n", spaces, parameter "sends_no_fragments", char fun c => c == 'T' || c == 't',
    text "rue"]

/-! ## What a document says -/

/-- `re.search`: the first group of the first match. -/
def first_group (p : Pattern) (document : String) : Option (List Char) :=
  (p.search document.toList).bind List.head?

/-- `re.search` as a test. -/
def found (p : Pattern) (document : String) : Bool := (p.search document.toList).isSome

/-- The size that a `max_fragment_size_bytes` token stands for. -/
def fragment_size_of_token (token : List Char) : Except String ℤ :=
  if token.take 2 ≠ "0x".toList then int_of_float_text token
  else (int_of_hex (token.drop 2)).map fun n : ℕ => (n : ℤ)

/-- The fragments of a BoardReader. -/
structure Fragments where
  /-- The number of fragments for which space is reserved. -/
  generated_fragments_per_event : ℕ
  /-- The ids of the fragments. -/
  reader_ids : List ℕ
  deriving DecidableEq

/-- The id of a `fragment_id` parameter. -/
def stated_id (document : String) : Option ℕ :=
  (first_group re_fragment_id document).map (digits_value 10)

/-- The ids of a `fragment_ids` parameter; parts that are no numbers are left out. -/
def stated_ids (document : String) : Option (List ℕ) :=
  (first_group re_fragment_ids document).map fun ids =>
    (splitOn ',' ids).filterMap fun id => (int_of_text id).toOption

/-- What the document of a BoardReader says about its fragments. -/
def read_fragments (document : String) : Fragments :=
  let single := (stated_id document).toList
  let fragments : Fragments :=
    match stated_ids document with
    | none => ⟨1, single⟩
    | some ids => ⟨ids.length, single ++ ids⟩
  if found re_sends_no_frags document then ⟨0, []⟩ else fragments

example : read_fragments "\nfragment_ids: [ 3, 4 ]\n" = ⟨2, [3, 4]⟩ := by decide +kernel

/-- The largest event that a document states, in plain mode. -/
def stated_event_size (document : String) : Except String (Option ℤ) :=
  match first_group re_max_evt_size_value document with
  | none => .ok none
  | some value => (int_of_float_text value).map some

end DaqInterface
