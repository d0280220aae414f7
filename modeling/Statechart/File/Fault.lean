set_option autoImplicit false

/-!
# File faults

Why a file cannot be opened or read as a text.
-/

namespace Statechart

/-- Why a file cannot be used. -/
inductive FileFault where
  /-- nothing is there -/
  | missing
  /-- something that is not a directory is used as one -/
  | notDirectory
  /-- a directory is there -/
  | directory
  /-- a part of the path is longer than a name may be -/
  | nameTooLong
  /-- the path holds a NUL character -/
  | nulInPath
  /-- the content is not encoded in UTF-8 -/
  | notText
  /-- the system gives a reason of its own -/
  | other (reason : String)
  deriving DecidableEq, Repr, Inhabited

/-- The wording of a file fault. -/
def FileFault.message : FileFault → String
  | .missing => "No such file or directory (os error 2)"
  | .notDirectory => "Not a directory (os error 20)"
  | .directory => "Is a directory (os error 21)"
  | .nameTooLong => "File name too long (os error 36)"
  | .nulInPath => "file name contained an unexpected NUL byte"
  | .notText => "stream did not contain valid UTF-8"
  | .other reason => reason

/-- The text that the bytes of a file hold. -/
def textOfBytes (bytes : ByteArray) : Except FileFault String :=
  match String.fromUTF8? bytes with
  | some text => .ok text
  | none => .error .notText

end Statechart
