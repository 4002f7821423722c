/-
Packs: the functions and function tags of a built project, and the files
they are stored in.
-/
import Datapack.Location
import Datapack.Json.Printer

namespace Datapack

-- =========================================================== artifacts

/-- A function: its location and the lines of its commands. -/
structure PackFunction where
  location : String
  commands : List String
  deriving DecidableEq, Repr

namespace PackFunction

/-- The function's file, relative to the pack. -/
def file (function : PackFunction) : String :=
  Location.functionFile function.location

/-- The content of the file: each command on a line, and a final line feed
even when there are none. -/
def content (function : PackFunction) : String :=
  "\n".intercalate function.commands ++ "\n"

end PackFunction

/-- A function tag: its location and the functions it lists. -/
structure PackTag where
  location : String
  members : List String
  deriving DecidableEq, Repr

namespace PackTag

/-- The tag's file, relative to the pack. -/
def file (tag : PackTag) : String :=
  Location.tagFile tag.location

/-- The content of a tag's file. -/
def render (members : List String) : String :=
  (Json.ofMembers [("values", .ofStrings members)]).pretty

/-- The content of the file. -/
def content (tag : PackTag) : String :=
  render tag.members

end PackTag

/-- A part of a pack. -/
inductive Artifact where
  | function (f : PackFunction)
  | tag (t : PackTag)
  deriving DecidableEq, Repr

namespace Artifact

/-- Where the artifact is. -/
def location : Artifact → String
  | .function f => f.location
  | .tag t => t.location

/-- The artifact's file, relative to the pack. -/
def file : Artifact → String
  | .function f => f.file
  | .tag t => t.file

/-- The content of the artifact's file. -/
def content : Artifact → String
  | .function f => f.content
  | .tag t => t.content

end Artifact

-- =============================================================== packs

/-- A built project. -/
structure Pack where
  name : String
  space : String
  description : String
  functions : List PackFunction
  tags : List PackTag
  deriving DecidableEq, Repr

namespace Pack

/-- The function at a location. -/
def function? (pack : Pack) (location : String) : Option PackFunction :=
  pack.functions.find? fun function => function.location == location

/-- The tag at a location. -/
def tag? (pack : Pack) (location : String) : Option PackTag :=
  pack.tags.find? fun tag => tag.location == location

/-- The functions and then the tags. -/
def artifacts (pack : Pack) : List Artifact :=
  pack.functions.map .function ++ pack.tags.map .tag

/-- The format of packs that the game is told. -/
def format : Nat := 5

/-- The file that describes a pack. -/
def metadataFile : String := "pack.mcmeta"

/-- The content of the file that describes a pack. -/
def renderMetadata (description : String) : String :=
  (Json.ofMembers [("pack", .ofMembers
    [("pack_format", .ofNat format),
      ("description", .ofString description)])]).pretty

/-- The files of a pack and their contents, in the order in which they are
written. -/
def files (pack : Pack) : List (String × String) :=
  pack.artifacts.map (fun artifact => (artifact.file, artifact.content))
    ++ [(metadataFile, renderMetadata pack.description)]

end Pack

end Datapack
