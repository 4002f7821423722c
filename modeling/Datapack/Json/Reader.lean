/-
Reading JSON. The grammar is the standard's and nothing more: blanks are
the four that it names, and there are no comments, trailing commas or
leading zeros. How deep values nest, and whether texts and numbers stand
for something, is left to those who look at the value.
-/
import Datapack.Json

namespace Datapack.Json

-- =============================================================== blanks

/-- A blank between the parts of a value. -/
def isSpace (c : Char) : Bool :=
  c == ' ' || c == '\t' || c == '\n' || c == '\r'

/-- The input after its leading blanks. -/
def skipSpaces (input : List Char) : List Char :=
  input.dropWhile isSpace

-- ================================================================ texts

/-- A part of a text: a character, or an escaped unit of UTF-16. -/
inductive Piece where
  | char (c : Char)
  | unit (n : Nat)

/-- The value of a hexadecimal digit. -/
def hexValue? (c : Char) : Option Nat :=
  if '0' ≤ c && c ≤ '9' then some (c.toNat - '0'.toNat)
  else if 'a' ≤ c && c ≤ 'f' then some (c.toNat - 'a'.toNat + 10)
  else if 'A' ≤ c && c ≤ 'F' then some (c.toNat - 'A'.toNat + 10)
  else none

/-- The unit of four hexadecimal digits. -/
def unit? (a b c d : Char) : Option Nat := do
  return (((← hexValue? a) * 16 + (← hexValue? b)) * 16 + (← hexValue? c)) * 16
    + (← hexValue? d)

/-- The character of an escape by a single letter. -/
def shortEscape? (c : Char) : Option Char :=
  if c = '"' then some '"'
  else if c = '\\' then some '\\'
  else if c = '/' then some '/'
  else if c = 'b' then some '\x08'
  else if c = 'f' then some '\x0c'
  else if c = 'n' then some '\n'
  else if c = 'r' then some '\r'
  else if c = 't' then some '\t'
  else none

/-- The pieces of a text up to its closing quote, and the input after it. -/
def readPieces : List Char → Option (List Piece × List Char)
  | [] => none
  | '"' :: rest => some ([], rest)
  | '\\' :: 'u' :: a :: b :: c :: d :: rest => do
    let n ← unit? a b c d
    let (pieces, rest) ← readPieces rest
    return (.unit n :: pieces, rest)
  | '\\' :: c :: rest => do
    let c ← shortEscape? c
    let (pieces, rest) ← readPieces rest
    return (.char c :: pieces, rest)
  | c :: rest =>
    if c = '\\' || c.toNat < 0x20 then none
    else do
      let (pieces, rest) ← readPieces rest
      return (.char c :: pieces, rest)

/-- The first unit of a surrogate pair. -/
def isLeading (n : Nat) : Bool := 0xD800 ≤ n && n < 0xDC00

/-- The second unit of a surrogate pair. -/
def isTrailing (n : Nat) : Bool := 0xDC00 ≤ n && n < 0xE000

/-- The character of a surrogate pair. -/
def pairChar (leading trailing : Nat) : Char :=
  Char.ofNat (0x10000 + (leading - 0xD800) * 0x400 + (trailing - 0xDC00))

/-- The characters of the pieces, if every surrogate has its partner. -/
def joinPieces : List Piece → Option (List Char)
  | [] => some []
  | .char c :: rest => (joinPieces rest).map (c :: ·)
  | .unit n :: rest =>
    if isLeading n then
      match rest with
      | .unit m :: rest =>
        if isTrailing m then (joinPieces rest).map (pairChar n m :: ·) else none
      | _ => none
    else if isTrailing n then none
    else (joinPieces rest).map (Char.ofNat n :: ·)

/-- The text up to its closing quote, and the input after it. -/
def readText (input : List Char) : Option (Json.Text × List Char) := do
  let (pieces, rest) ← readPieces input
  return ((joinPieces pieces).map String.ofList, rest)

-- ============================================================== numbers

/-- A decimal digit. -/
def isDigit (c : Char) : Bool := '0' ≤ c && c ≤ '9'

/-- A non-empty run of digits. -/
def readDigits (input : List Char) : Option (List Char × List Char) :=
  let digits := input.takeWhile isDigit
  if digits.isEmpty then none else some (digits, input.dropWhile isDigit)

/-- The digits before the point: a zero stands alone. -/
def readWhole : List Char → Option (List Char × List Char)
  | '0' :: rest => some (['0'], rest)
  | input => readDigits input

/-- The digits after the point, if there is a point. -/
def readFraction : List Char → Option (List Char × List Char)
  | '.' :: rest => readDigits rest
  | input => some ([], input)

/-- The exponent, if there is one. -/
def readExponent : List Char → Option (Option (Bool × List Char) × List Char)
  | c :: rest =>
    if c = 'e' || c = 'E' then
      match rest with
      | '-' :: rest =>
        (readDigits rest).map
          fun (digits, rest) => (some (true, digits), rest)
      | '+' :: rest =>
        (readDigits rest).map
          fun (digits, rest) => (some (false, digits), rest)
      | _ => (readDigits rest).map
          fun (digits, rest) => (some (false, digits), rest)
    else some (none, c :: rest)
  | [] => some (none, [])

/-- A number without its sign. -/
def readUnsigned (negative : Bool) (input : List Char) :
    Option (Number × List Char) := do
  let (whole, input) ← readWhole input
  let (fraction, input) ← readFraction input
  let (exponent, input) ← readExponent input
  return (⟨negative, whole, fraction, exponent⟩, input)

/-- A number. -/
def readNumber : List Char → Option (Number × List Char)
  | '-' :: rest => readUnsigned true rest
  | input => readUnsigned false input

-- =============================================================== values

mutual

/-- A value and the input after it. Every call spends one unit of `fuel`;
`read` gives two for each character, of which an item and its value take
no more. -/
def readValue : Nat → List Char → Option (Json × List Char)
  | 0, _ => none
  | fuel + 1, input =>
    match skipSpaces input with
    | 'n' :: 'u' :: 'l' :: 'l' :: rest => some (.null, rest)
    | 't' :: 'r' :: 'u' :: 'e' :: rest => some (.bool true, rest)
    | 'f' :: 'a' :: 'l' :: 's' :: 'e' :: rest => some (.bool false, rest)
    | '"' :: rest =>
      (readText rest).map fun (text, rest) => (.string text, rest)
    | '[' :: rest =>
      match skipSpaces rest with
      | ']' :: rest => some (.array [], rest)
      | rest => (readItems fuel rest).map
          fun (items, rest) => (.array items, rest)
    | '\x7b' :: rest =>
      match skipSpaces rest with
      | '\x7d' :: rest => some (.object [], rest)
      | rest => (readMembers fuel rest).map
          fun (members, rest) => (.object members, rest)
    | rest => (readNumber rest).map fun (n, rest) => (.number n, rest)

/-- One item or more, up to the closing bracket. -/
def readItems : Nat → List Char → Option (List Json × List Char)
  | 0, _ => none
  | fuel + 1, input => do
    let (item, rest) ← readValue fuel input
    match skipSpaces rest with
    | ',' :: rest =>
      let (items, rest) ← readItems fuel rest
      return (item :: items, rest)
    | ']' :: rest => return ([item], rest)
    | _ => none

/-- One member or more, up to the closing brace. -/
def readMembers : Nat → List Char → Option (List (Json.Text × Json) × List Char)
  | 0, _ => none
  | fuel + 1, input => do
    let '"' :: rest := skipSpaces input | none
    let (name, rest) ← readText rest
    let ':' :: rest := skipSpaces rest | none
    let (value, rest) ← readValue fuel rest
    match skipSpaces rest with
    | ',' :: rest =>
      let (members, rest) ← readMembers fuel rest
      return ((name, value) :: members, rest)
    | '\x7d' :: rest => return ([(name, value)], rest)
    | _ => none

end

/-- The value that a text consists of, with nothing but blanks around it. -/
def read (text : List Char) : Option Json := do
  let (json, rest) ← readValue (2 * text.length + 2) text
  if (skipSpaces rest).isEmpty then some json else none

end Datapack.Json
