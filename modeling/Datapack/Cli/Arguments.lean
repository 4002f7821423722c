/-
The arguments of the command line. There are two commands, `build` and
`check`; everything else asks for help or cannot be used. Arguments are
read from left to right, so help that is asked for before the first
argument that cannot be used is given. An argument is a string, so that a
directory is named by a text; those whose names are no texts are found on
the way through the files, but not named here.
-/
namespace Datapack.Cli

/-- What to do. -/
inductive Mode where
  | build (projectDir outputDir : String) (overwrite : Bool)
  | check (projectDir : String)
  deriving DecidableEq, Repr

/-- What the arguments ask for. -/
inductive Request where
  | run (mode : Mode)
  /-- Help, or the version. -/
  | information
  | unusable
  deriving DecidableEq, Repr

-- ============================================================= one argument

/-- The form of an argument. -/
inductive Argument where
  /-- Two dashes alone: no options follow. -/
  | escape
  /-- A name behind two dashes, and a value behind an equals sign. -/
  | long (name : String) (value : Option String)
  /-- Letters behind one dash. -/
  | short (letters : List Char)
  /-- Anything else, a lone dash included. -/
  | plain (text : String)
  deriving DecidableEq, Repr

/-- The form of an argument. -/
def Argument.of (text : String) : Argument :=
  match text.toList with
  | ['-', '-'] => .escape
  | '-' :: '-' :: rest =>
    match rest.dropWhile (· != '=') with
    | [] => .long (String.ofList rest) none
    | _ :: value => .long (String.ofList (rest.takeWhile (· != '=')))
        (some (String.ofList value))
  | '-' :: c :: rest => .short (c :: rest)
  | _ => .plain text

-- ================================================================ options

/-- The options of a command as far as they are read. -/
structure Options where
  projectDir : Option String := none
  outputDir : Option String := none
  overwrite : Bool := false
  deriving DecidableEq, Repr

/-- Why the options of a command are not read to their end. -/
inductive Stop where
  | information
  | unusable
  deriving DecidableEq, Repr

/-- An option that takes a value. -/
inductive Target where
  | projectDir
  | outputDir
  deriving DecidableEq, Repr

/-- Sets an option, once and to something. -/
def Options.set (options : Options) (target : Target) (value : String) :
    Except Stop Options :=
  if value.isEmpty then .error .unusable
  else
    match target with
    | .projectDir =>
      if options.projectDir.isSome then .error .unusable
      else .ok { options with projectDir := some value }
    | .outputDir =>
      if options.outputDir.isSome then .error .unusable
      else .ok { options with outputDir := some value }

/-- The options of a command, of which only `build` writes anything. -/
def readOptions (writes : Bool) : Options → List String → Except Stop Options
  | options, [] => .ok options
  | options, argument :: rest =>
    match Argument.of argument with
    | .escape => if rest.isEmpty then .ok options else .error .unusable
    | .short ('h' :: _) => .error .information
    | .long "help" none => .error .information
    | .long "overwrite" none =>
      if writes && !options.overwrite then
        readOptions writes { options with overwrite := true } rest
      else .error .unusable
    | .long name value =>
      let target : Option Target :=
        if name == "project-dir" then some .projectDir
        else if name == "output-dir" && writes then some .outputDir
        else none
      match target, value with
      | some target, some value => do
        readOptions writes (← options.set target value) rest
      | some target, none =>
        match rest with
        | [] => .error .unusable
        | value :: rest =>
          match Argument.of value with
          | .plain value => do
            readOptions writes (← options.set target value) rest
          | _ => .error .unusable
      | none, _ => .error .unusable
    | .short _ | .plain _ => .error .unusable

/-- The project is in the working directory unless the arguments say
otherwise. -/
def defaultProjectDir : String := "."

/-- The request of a command with its options. -/
def ofOptions (writes : Bool) : Except Stop Options → Request
  | .error .information => .information
  | .error .unusable => .unusable
  | .ok options =>
    let projectDir := options.projectDir.getD defaultProjectDir
    if writes then
      match options.outputDir with
      | some outputDir => .run (.build projectDir outputDir options.overwrite)
      | none => .unusable
    else .run (.check projectDir)

-- =============================================================== requests

/-- The request for help on a command, of which there is a name at most. -/
def ofHelp : List String → Request
  | [] => .information
  | [command] =>
    if ["build", "check", "help"].contains command then .information
      else .unusable
  | _ => .unusable

/-- The request of all arguments. -/
def Request.ofArguments : List String → Request
  | [] => .unusable
  | argument :: rest =>
    match Argument.of argument with
    | .plain "build" => ofOptions true (readOptions true {} rest)
    | .plain "check" => ofOptions false (readOptions false {} rest)
    | .plain "help" => ofHelp rest
    | .long "help" none | .long "version" none => .information
    | .short (c :: _) =>
      if c == 'h' || c == 'V' then .information else .unusable
    | _ => .unusable

end Datapack.Cli
