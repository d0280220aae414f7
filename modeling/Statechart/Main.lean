import Statechart.Program.Run
set_option autoImplicit false

/-!
# The command line

Runs the program on the files, the environment and the words that the system gives it.
-/

namespace Statechart

/-- A fault that the system describes and numbers. -/
def numberedFault (code : UInt32) (details : String) : FileFault :=
  .other (details ++ " (os error " ++ toString code.toNat ++ ")")

/-- The fault behind a failed operation on a file. -/
def fileFault : IO.Error → FileFault
  | .noFileOrDirectory .. => .missing
  | .inappropriateType _ code details =>
    if code = 20 then .notDirectory
    else if code = 21 then .directory
    else numberedFault code details
  | .permissionDenied _ code details => numberedFault code details
  | .invalidArgument _ code details => numberedFault code details
  | .resourceExhausted _ code details => numberedFault code details
  | .unsupportedOperation code details => numberedFault code details
  | .otherError code details => numberedFault code details
  | failure => .other (toString failure)

/-- The files of the system. -/
def systemFiles : FileAccess IO where
  read path := do
    try
      pure (textOfBytes (← (← IO.FS.Handle.mk path .read).readBinToEnd))
    catch failure => pure (.error (fileFault failure))
  contains path := do
    try
      let _ ← IO.FS.Handle.mk path .read
      pure true
    catch failure =>
      let fault := fileFault failure
      pure (fault ≠ .missing && fault ≠ .notDirectory)
  openAtEnd path := do
    try
      let _ ← IO.FS.Handle.mk path .append
      pure (.ok ())
    catch failure => pure (.error (fileFault failure))

end Statechart

open Statechart

/-- Runs the program. -/
def main (words : List String) : IO UInt32 := do
  let surroundings : Surroundings :=
    { settingsPath? := ← IO.getEnv "SCXML_FSM_CONFIG", home? := ← IO.getEnv "HOME" }
  let result ← Program.run systemFiles surroundings words
  IO.print result.output
  IO.eprint result.diagnostics
  pure (UInt32.ofNat result.exitCode)
