/-
Streams of generated names: a template and the number of the next name.
The number is written in hexadecimal, in at least eight digits, wherever
the template has the placeholder.
-/
import Datapack.Location
import Datapack.Text.Replace

namespace Datapack

/-- The names of a template that are still to be given out. The position is
not bounded: a counter of 64 bits gives out the same names up to the number
2⁶⁴, which no build comes to. -/
structure NameStream where
  template : String
  position : Nat
  deriving DecidableEq, Repr

namespace NameStream

/-- All names of a template. -/
def ofTemplate (template : String) : NameStream := ⟨template, 0⟩

/-- A number in hexadecimal, filled up with zeros to eight digits. -/
def digits (n : Nat) : List Char :=
  let hex := Nat.toDigits 16 n
  List.replicate (8 - hex.length) '0' ++ hex

/-- The name of the template with the number. -/
def nameAt (template : String) (n : Nat) : String :=
  String.ofList
    (Text.replaceAll Location.placeholder.toList (digits n) template.toList)

/-- The next name. -/
def head (names : NameStream) : String :=
  nameAt names.template names.position

/-- The names after the next `n`. -/
def drop (names : NameStream) (n : Nat) : NameStream :=
  { names with position := names.position + n }

/-- The names after the next one. -/
def tail (names : NameStream) : NameStream :=
  names.drop 1

/-- The next `n` names. -/
def take (names : NameStream) (n : Nat) : List String :=
  (List.range n).map fun i => nameAt names.template (names.position + i)

end NameStream

end Datapack
