/-
Why an operation on files fails.
-/
namespace Datapack

/-- A cause for which an operation on files fails. -/
inductive FileFault where
  | noEntry
  | busy
  | exists
  | notDirectory
  | isDirectory
  | invalid
  | nameTooLong
  | notEmpty
  | linkLoop
  /-- A path holds a zero byte, which ends paths for the system. -/
  | zeroByte
  /-- A text was to be read, and the bytes are not UTF-8. -/
  | notText
  /-- A cause with a text of its own. -/
  | other (text : String)
  deriving DecidableEq, Repr

/-- The text of a fault, with the system's number for it. -/
def FileFault.message : FileFault → String
  | .noEntry => "No such file or directory (os error 2)"
  | .busy => "Device or resource busy (os error 16)"
  | .exists => "File exists (os error 17)"
  | .notDirectory => "Not a directory (os error 20)"
  | .isDirectory => "Is a directory (os error 21)"
  | .invalid => "Invalid argument (os error 22)"
  | .nameTooLong => "File name too long (os error 36)"
  | .notEmpty => "Directory not empty (os error 39)"
  | .linkLoop => "Too many levels of symbolic links (os error 40)"
  | .zeroByte => "file name contained an unexpected NUL byte"
  | .notText => "stream did not contain valid UTF-8"
  | .other text => text

end Datapack
