/-
A tree of files, directories and symbolic links. Its top is both the root
and the working directory, and the way up from it leads to itself. An
entry is stored under its place, the names on the way down to it, so that
what an operation leaves alone is what it does not store or remove.
Operations resolve paths as the system does, links included.
-/
import Datapack.Files.Fault
import Datapack.Files.Path

namespace Datapack

/-- The names on the way from the top down to an entry. -/
abbrev Place := List FileName

/-- What is found at a place. -/
inductive Entry where
  | file (content : List UInt8)
  | directory
  | link (target : Path)
  deriving DecidableEq, Repr

/-- The entry is a file. -/
def Entry.isFile : Entry → Bool
  | .file _ => true
  | _ => false

/-- The entry is a directory. -/
def Entry.isDirectory : Entry → Bool
  | .directory => true
  | _ => false

/-- The entries below the top, each at its place. -/
structure FileTree where
  entries : List (Place × Entry)
  deriving DecidableEq, Repr

namespace FileTree

/-- The tree with nothing below its top. -/
def empty : FileTree := ⟨[]⟩

-- ================================================================= places

/-- The entry at a place; the top is a directory. -/
def get? (tree : FileTree) (place : Place) : Option Entry :=
  if place.isEmpty then some .directory
  else (tree.entries.find? fun entry => entry.1 == place).map Prod.snd

/-- There is a directory at the place. -/
def isDirectoryAt (tree : FileTree) (place : Place) : Bool :=
  tree.get? place == some .directory

/-- The place lies strictly below another. -/
def isBelow (place above : Place) : Bool :=
  above.isPrefixOf place && place != above

/-- The tree with an entry at a place, instead of one that was there. -/
def set (tree : FileTree) (place : Place) (entry : Entry) : FileTree :=
  ⟨tree.entries.filter (fun old => old.1 != place) ++ [(place, entry)]⟩

/-- The tree without the entry at a place. -/
def erase (tree : FileTree) (place : Place) : FileTree :=
  ⟨tree.entries.filter fun old => old.1 != place⟩

/-- The tree without the entries strictly below a place. -/
def eraseBelow (tree : FileTree) (place : Place) : FileTree :=
  ⟨tree.entries.filter fun old => !isBelow old.1 place⟩

/-- The number of bytes that a name may have. -/
def maxName : Nat := 255

/-- What is found under a name in a directory. -/
def look (tree : FileTree) (directory : Place) (name : FileName) :
    Except FileFault (Option Entry) :=
  if maxName < name.length then .error .nameTooLong
    else .ok (tree.get? (directory ++ [name]))

-- ============================================================== resolving

/-- A step on the way along a path. -/
inductive Move where
  | stay
  | up
  | down (name : FileName)
  deriving DecidableEq, Repr

/-- The step of a segment. An empty one, between or after slashes, stays. -/
def Move.ofSegment (segment : FileName) : Move :=
  if Path.isIdle segment then .stay
  else if segment == Path.dotDot then .up
  else .down segment

/-- The steps of a path. -/
def moves (path : Path) : List Move :=
  path.segments.map Move.ofSegment

/-- Where a way along a path comes to its first link or to its end. -/
inductive Way where
  | arrived (place : Place)
  /-- A link met in a directory, and the moves that remain after it. -/
  | link (directory : Place) (target : Path) (rest : List Move)
  | blocked (fault : FileFault)

/-- Follows moves up to the first link or the end. Only a directory can be
left again. A link at the very end is one to follow only if `follow`. -/
def advance (tree : FileTree) (follow : Bool) : Place → List Move → Way
  | place, [] => .arrived place
  | place, move :: rest =>
    if tree.isDirectoryAt place then
      match move with
      | .stay => tree.advance follow place rest
      | .up => tree.advance follow place.dropLast rest
      | .down name =>
        match tree.look place name with
        | .error fault => .blocked fault
        | .ok none => .blocked .noEntry
        | .ok (some (.link target)) =>
          if follow || !rest.isEmpty then .link place target rest
          else .arrived (place ++ [name])
        | .ok (some _) => tree.advance follow (place ++ [name]) rest
    else .blocked .notDirectory

/-- Where a path starts that is seen from a directory. -/
def startOf (directory : Place) (path : Path) : Place :=
  if path.isAbsolute then [] else directory

/-- Follows moves to their end, through `links` links at most. -/
def follow (tree : FileTree) (final : Bool) :
    Nat → Place → List Move → Except FileFault Place
  | links, place, rest =>
    match tree.advance final place rest with
    | .arrived place => .ok place
    | .blocked fault => .error fault
    | .link directory target rest =>
      match links with
      | 0 => .error .linkLoop
      | links + 1 =>
        if target.isEmpty then .error .noEntry
        else tree.follow final links (startOf directory target)
          (moves target ++ rest)

/-- The number of links that a path may lead through. -/
def maxLinks : Nat := 40

/-- The number of bytes that a path may have. -/
def maxPath : Nat := 4095

/-- Refuses a path that the system does not even look at. -/
def checkPath (path : Path) : Except FileFault Unit :=
  if path.bytes.contains 0 then .error .zeroByte
  else if path.isEmpty then .error .noEntry
  else if maxPath < path.bytes.length then .error .nameTooLong
  else .ok ()

/-- The place of a path; a link at its end is resolved if `final`. -/
def resolve (tree : FileTree) (final : Bool) (path : Path) :
    Except FileFault Place := do
  checkPath path
  tree.follow final maxLinks [] (moves path)

/-- What is found where a path leads, through links. -/
def find? (tree : FileTree) (path : Path) : Option Entry :=
  match tree.resolve true path with
  | .ok place => tree.get? place
  | .error _ => none

/-- The path leads to something. -/
def contains (tree : FileTree) (path : Path) : Bool :=
  (tree.find? path).isSome

/-- The path leads to a directory. -/
def isDirectory (tree : FileTree) (path : Path) : Bool :=
  tree.find? path == some .directory

-- ============================================================= last names

/-- The last step of a path, for operations on an entry of a directory: none
for a path of slashes alone. -/
structure Final where
  above : List Move
  last : Option Move
  /-- The path ends in a slash. -/
  slashed : Bool

/-- Divides a path before its last segment. -/
def finalOf (path : Path) : Final :=
  let body := (path.segments.reverse.dropWhile List.isEmpty).reverse
  { above := body.dropLast.map Move.ofSegment
    last := body.getLast?.map Move.ofSegment
    slashed := path.bytes.getLast? == some Path.slash }

/-- The directory that the last step of a path is taken in, seen from a
place and through `links` links at most. -/
def directoryOf (tree : FileTree) (links : Nat) (start : Place) (path : Path) :
    Except FileFault Place := do
  checkPath path
  let place ← tree.follow true links (startOf start path) (finalOf path).above
  if tree.isDirectoryAt place then return place else throw .notDirectory

-- ================================================================ reading

/-- The content of the file that a path leads to. -/
def read (tree : FileTree) (path : Path) : Except FileFault (List UInt8) := do
  match tree.get? (← tree.resolve true path) with
  | some (.file content) => return content
  | some .directory => throw .isDirectory
  | _ => throw .noEntry

/-- Puts an item in a list before the first that it is less than. -/
def insertSorted {α : Type} (less : α → α → Bool) (item : α) : List α → List α
  | [] => [item]
  | head :: rest =>
    if less item head then item :: head :: rest
      else head :: insertSorted less item rest

/-- The entries of a kind strictly below a place, by the names down to them,
in the order of a walk that takes the entries of a directory by their names. -/
def placesBelow (tree : FileTree) (kind : Entry → Bool) (place : Place) :
    List Place :=
  let places := tree.entries.filterMap fun entry =>
    if kind entry.2 && isBelow entry.1 place then
      some (entry.1.drop place.length)
    else none
  places.foldr (insertSorted fun a b => decide (a < b)) []

/-- The files below the directory that a path leads to, in the order of a
walk. A link is followed if it is the path itself, but not below it. The walk
fails at the first directory whose path has become too long to open it. -/
def walk (tree : FileTree) (path : Path) :
    Except (Path × FileFault) (List (Path × FileName)) :=
  match tree.resolve true path with
  | .error _ => .ok []
  | .ok place =>
    if tree.isDirectoryAt place then
      let pathTo := fun names : Place => names.foldl Path.entry path
      let directories := (tree.placesBelow Entry.isDirectory place).map pathTo
      match directories.find?
        fun directory => maxPath < directory.bytes.length with
      | some directory => .error (directory, .nameTooLong)
      | none => .ok ((tree.placesBelow Entry.isFile place).map fun names =>
          (pathTo names, names.getLast?.getD []))
    else .ok []

-- =============================================================== changing

/-- The outcome of an operation, and the tree after it. -/
abbrev Changed := Except FileFault Unit × FileTree

/-- Makes an entry where there is none. -/
def create (tree : FileTree) (path : Path) (entry : Entry) : Changed :=
  match tree.directoryOf maxLinks [] path with
  | .error fault => (.error fault, tree)
  | .ok directory =>
    match (finalOf path).last with
    | some (.down name) =>
      match tree.look directory name with
      | .error fault => (.error fault, tree)
      | .ok (some _) => (.error .exists, tree)
      | .ok none => (.ok (), tree.set (directory ++ [name]) entry)
    | _ => (.error .exists, tree)

/-- Makes a directory. -/
def makeDirectory (tree : FileTree) (path : Path) : Changed :=
  tree.create path .directory

/-- Makes the first of the paths a directory, each being the parent of the
one before it, and those that it lies in where they are missing. -/
def makeDirectoriesAlong (tree : FileTree) : List Path → Changed
  | [] => (.error (.other "failed to create whole tree"), tree)
  | path :: parents =>
    if path.isEmpty then (.ok (), tree)
    else
      match tree.makeDirectory path with
      | (.ok (), made) => (.ok (), made)
      | (.error .noEntry, _) =>
        match tree.makeDirectoriesAlong parents with
        | (.error fault, made) => (.error fault, made)
        | (.ok (), made) =>
          match made.makeDirectory path with
          | (.ok (), made) => (.ok (), made)
          | (.error fault, _) =>
            if made.isDirectory path then (.ok (), made)
              else (.error fault, made)
      | (.error fault, _) =>
        if tree.isDirectory path then (.ok (), tree) else (.error fault, tree)

/-- Makes a directory and those that it lies in where they are missing. -/
def makeDirectories (tree : FileTree) (path : Path) : Changed :=
  tree.makeDirectoriesAlong path.ancestors

/-- The place of the file that is written for a path seen from a place.
Through a link at the end of the path its target is written. -/
def writePlace (tree : FileTree) : Nat → Place → Path → Except FileFault Place
  | links, start, path => do
    let directory ← tree.directoryOf links start path
    if (finalOf path).slashed then throw .isDirectory
    match (finalOf path).last with
    | some (.down name) =>
      match ← tree.look directory name with
      | some .directory => throw .isDirectory
      | some (.link target) =>
        match links with
        | 0 => throw .linkLoop
        | links + 1 => tree.writePlace links directory target
      | _ => return directory ++ [name]
    | _ => throw .isDirectory

/-- Writes a file, new or in place of its old content. -/
def write (tree : FileTree) (path : Path) (content : List UInt8) : Changed :=
  match tree.writePlace maxLinks [] path with
  | .error fault => (.error fault, tree)
  | .ok place => (.ok (), tree.set place (.file content))

/-- Removes a file or a link. -/
def removeFile (tree : FileTree) (path : Path) : Changed :=
  match tree.directoryOf maxLinks [] path with
  | .error fault => (.error fault, tree)
  | .ok directory =>
    match (finalOf path).last with
    | some (.down name) =>
      match tree.look directory name with
      | .error fault => (.error fault, tree)
      | .ok none => (.error .noEntry, tree)
      | .ok (some .directory) => (.error .isDirectory, tree)
      | .ok (some _) => (.ok (), tree.erase (directory ++ [name]))
    | _ => (.error .isDirectory, tree)

/-- Removes an empty directory. -/
def removeDirectory (tree : FileTree) (path : Path) : Changed :=
  match tree.directoryOf maxLinks [] path with
  | .error fault => (.error fault, tree)
  | .ok directory =>
    match (finalOf path).last with
    | none => (.error .busy, tree)
    | some .stay => (.error .invalid, tree)
    | some .up => (.error .notEmpty, tree)
    | some (.down name) =>
      let place := directory ++ [name]
      match tree.look directory name with
      | .error fault => (.error fault, tree)
      | .ok none => (.error .noEntry, tree)
      | .ok (some .directory) =>
        if tree.entries.any
          fun entry => isBelow entry.1 place then (.error .notEmpty, tree)
        else (.ok (), tree.erase place)
      | .ok (some _) => (.error .notDirectory, tree)

/-- Removes a directory with everything below it. A path to a link to a
directory removes the link. A path that led through what is removed, by
names and back up, no longer leads anywhere afterwards, and the directory
it led to stays without its entries. -/
def removeAll (tree : FileTree) (path : Path) : Changed :=
  match tree.resolve false path with
  | .error fault => (.error fault, tree)
  | .ok place =>
    match tree.get? place with
    | some (.link _) => tree.removeFile path
    | some .directory =>
      match (tree.eraseBelow place).removeDirectory path with
      | (.error .noEntry, emptied) => (.ok (), emptied)
      | changed => changed
    | _ => (.error .notDirectory, tree)

end FileTree

end Datapack
