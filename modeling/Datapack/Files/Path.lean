/-
Paths of files. A path is a string of bytes, which need not be UTF-8; it
keeps its spelling, since messages show paths as they were put together.
-/
import Datapack.Text.Utf8

namespace Datapack

/-- A path as it is spelled. -/
structure Path where
  bytes : List UInt8
  deriving DecidableEq, Repr

/-- The name of an entry of a directory. -/
abbrev FileName := List UInt8

namespace Path

/-- The byte that divides the segments of a path. -/
def slash : UInt8 := 0x2F

/-- The segment for the directory itself. -/
def dot : FileName := [0x2E]

/-- The segment for the directory above. -/
def dotDot : FileName := [0x2E, 0x2E]

/-- The path that a text spells. -/
def ofString (text : String) : Path := ⟨Text.encode text⟩

/-- The text that shows a path. -/
def display (path : Path) : String := Text.display path.bytes

-- ============================================================== segments

/-- Pieces between slashes; a text without a slash is one piece. -/
def splitSlashes : List UInt8 → List FileName
  | [] => [[]]
  | b :: rest =>
    if b = slash then [] :: splitSlashes rest
    else
      match splitSlashes rest with
      | [] => [[b]]
      | segment :: segments => (b :: segment) :: segments

/-- Pieces joined by slashes. -/
def joinSlashes : List FileName → List UInt8
  | [] => []
  | [segment] => segment
  | segment :: segments => segment ++ slash :: joinSlashes segments

/-- The segments of a path, empty ones included. -/
def segments (path : Path) : List FileName :=
  splitSlashes path.bytes

/-- The path starts from the top, not from the working directory. -/
def isAbsolute (path : Path) : Bool :=
  path.bytes.head? == some slash

/-- The path nothing is spelled in. -/
def isEmpty (path : Path) : Bool :=
  path.bytes.isEmpty

-- =============================================================== joining

/-- `inner` seen from `path`. An absolute path stays as it is, and an empty
one ends the result in a slash. -/
def join (path inner : Path) : Path :=
  if inner.isAbsolute || path.isEmpty then inner
  else if path.bytes.getLast? == some slash then ⟨path.bytes ++ inner.bytes⟩
  else ⟨path.bytes ++ slash :: inner.bytes⟩

/-- The entry of a name in the directory of a path. -/
def entry (path : Path) (name : FileName) : Path :=
  path.join ⟨name⟩

-- =============================================================== parents

/-- The bytes that a path opens with besides its segments: the slash of an
absolute one, or a dot that stands for the working directory. -/
def opening (path : Path) : List UInt8 :=
  if path.isAbsolute then [slash]
  else if path.segments.head? == some dot then dot
  else []

/-- A segment that leads nowhere. -/
def isIdle (segment : FileName) : Bool :=
  segment.isEmpty || segment == dot

/-- The segments without idle ones at the end. -/
def trimSegments (segments : List FileName) : List FileName :=
  (segments.reverse.dropWhile isIdle).reverse

/-- The path without its last segment. The spelling of what remains is
kept, up to idle segments at its end. -/
def parent? (path : Path) : Option Path :=
  let opening := path.opening
  match trimSegments (splitSlashes (path.bytes.drop opening.length)) with
  | [] => if opening == dot then some ⟨[]⟩ else none
  | body => some ⟨opening ++ joinSlashes (trimSegments body.dropLast)⟩

/-- The path, its parent, the parent's parent and so on, `fuel` of them at
most. -/
def ancestorsWithin : Nat → Path → List Path
  | 0, _ => []
  | fuel + 1, path =>
    path :: match path.parent? with
      | none => []
      | some parent => ancestorsWithin fuel parent

/-- The path, its parent, the parent's parent and so on. Each is shorter
than the one before. -/
def ancestors (path : Path) : List Path :=
  ancestorsWithin (path.bytes.length + 1) path

end Path

-- ================================================================== names

namespace FileName

/-- The byte that divides a name from its extension. -/
def point : UInt8 := 0x2E

/-- The name before its last point and what follows the point. A point at
the start divides nothing. -/
def divide (name : FileName) : FileName × Option FileName :=
  let reversed := name.reverse
  match reversed.dropWhile (· != point) with
  | [] => (name, none)
  | [_] => (name, none)
  | _ :: stem => (stem.reverse, some (reversed.takeWhile (· != point)).reverse)

/-- The name without its extension. -/
def stem (name : FileName) : FileName := (divide name).1

/-- The extension of a name. -/
def extension? (name : FileName) : Option FileName := (divide name).2

end FileName

end Datapack
