import Statechart.File.Workspace
set_option autoImplicit false

/-!
# Access to files

What a program needs of a file system, for any way to provide it, and how a workspace provides it.
-/

namespace Statechart

/-- Operations on files, in a monad that carries the file system. -/
structure FileAccess (m : Type → Type) where
  /-- reads a file as a text -/
  read : String → m (Except FileFault String)
  /-- tells whether a path leads to anything -/
  contains : String → m Bool
  /-- opens a file for writing at its end, or makes it -/
  openAtEnd : String → m (Except FileFault Unit)

/-- The files of a workspace. -/
def FileAccess.workspace : FileAccess (StateM Workspace) where
  read path := do pure ((← get).read path)
  contains path := do pure ((← get).contains path)
  openAtEnd path := do
    match (← get).openAtEnd path with
    | .ok w =>
      set w
      pure (.ok ())
    | .error fault => pure (.error fault)

end Statechart
