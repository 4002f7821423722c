/-
Names of components, methods and namespaces. A declared name such as
`HelloWorld2` is registered in snake case, `hello_world_2`, and what is
registered must be a name that a resource location can hold.
-/
namespace Datapack.Name

-- ============================================================== words

/-- A small Latin letter. -/
def isSmall (c : Char) : Bool := 'a' ≤ c && c ≤ 'z'

/-- A capital Latin letter. -/
def isCapital (c : Char) : Bool := 'A' ≤ c && c ≤ 'Z'

/-- A decimal digit. -/
def isDigit (c : Char) : Bool := '0' ≤ c && c ≤ '9'

/-- A piece of a word: one character of a class or, if `many`, one and all of
the class that follow. -/
structure Piece where
  holds : Char → Bool
  many : Bool

/-- The numbers of characters that a piece takes from the start of a text, in
the order in which they are tried. -/
def Piece.lengths (piece : Piece) : List Char → List Nat
  | [] => []
  | c :: rest =>
    if piece.holds c then
      (if piece.many then (piece.lengths rest).map (· + 1) else []) ++ [1]
    else []

/-- The number of characters that pieces take one after the other. A piece
takes less if that is the only way for those behind it. -/
def lengthOf? : List Piece → List Char → Option Nat
  | [], _ => some 0
  | piece :: pieces, text =>
    (piece.lengths text).findSome? fun n =>
      (lengthOf? pieces (text.drop n)).map (n + ·)

/-- The kinds of words, in the order in which they are tried: small letters, a
capital before small letters, capitals, and digits. -/
def wordKinds : List (List Piece) :=
  [[⟨isSmall, true⟩],
   [⟨isCapital, false⟩, ⟨isSmall, true⟩],
   [⟨isCapital, true⟩],
   [⟨isDigit, true⟩]]

/-- The length of the word at the start of a text. -/
def wordLength? (text : List Char) : Option Nat :=
  wordKinds.findSome? fun kind => lengthOf? kind text

/-- The words of a text whose first `n` characters belong to one that was
found before. -/
def wordsAfter : Nat → List Char → List (List Char)
  | _, [] => []
  | n + 1, _ :: rest => wordsAfter n rest
  | 0, c :: rest =>
    match wordLength? (c :: rest) with
    | none => wordsAfter 0 rest
    | some n => (c :: rest).take n :: wordsAfter (n - 1) rest

/-- The words of a text; every other character only divides them. -/
def words (text : List Char) : List (List Char) :=
  wordsAfter 0 text

-- ========================================================== snake case

/-- The words in small letters, joined by underscores, and one underscore
in front of a digit that would otherwise lead. -/
def snakeChars (text : List Char) : List Char :=
  let joined :=
    ['_'].intercalate ((words text).map fun word => word.map Char.toLower)
  match joined with
  | [] => []
  | c :: rest => if isDigit c then '_' :: c :: rest else c :: rest

/-- A declared name in snake case: `HelloWorld2` is `hello_world_2`. -/
def snakeCase (name : String) : String :=
  String.ofList (snakeChars name.toList)

-- ============================================================ validity

/-- A character that may open a name. -/
def opensName (c : Char) : Bool := isSmall c || isDigit c || c == '_'

/-- A character that may stand in a name or a namespace. -/
def isNameChar (c : Char) : Bool := opensName c || c == '.' || c == '-'

/-- A name of a component or a method. -/
def isValid (name : String) : Bool :=
  match name.toList with
  | [] => false
  | c :: rest => opensName c && rest.all isNameChar

/-- A namespace. -/
def isValidNamespace (space : String) : Bool :=
  match space.toList with
  | [] => false
  | text => text.all isNameChar

end Datapack.Name
