import TriggerLatency.FileTree.Basic

/-!
# Reading and writing files

Opening, reading and writing a file and making directories, along written paths. Each
fails in the way, and with the words, that the operating system has for it.

Every step of a route but the last must lead to a directory. A name has at most 255
bytes, a whole route at most 4095, and no route holds a NUL character.
-/

namespace TriggerLatency

/-- Why an operation on files failed. -/
inductive FileFault
  | notFound
  | alreadyExists
  | notADirectory
  | isADirectory
  | nameTooLong
  | nulInRoute
  /-- The bytes of a file that should hold text are not UTF-8. -/
  | notText
  deriving DecidableEq

/-- A fault in the operating system's words. -/
def FileFault.message : FileFault → String
  | .notFound => "No such file or directory (os error 2)"
  | .alreadyExists => "File exists (os error 17)"
  | .notADirectory => "Not a directory (os error 20)"
  | .isADirectory => "Is a directory (os error 21)"
  | .nameTooLong => "File name too long (os error 36)"
  | .nulInRoute => "file name contained an unexpected NUL byte"
  | .notText => "stream did not contain valid UTF-8"

/-- The bytes that a name may have. -/
def nameLimit : Nat := 255

/-- The bytes that a whole route may have. -/
def routeLimit : Nat := 4095

/-- The route that a text writes. -/
def Route.ofString? (text : String) : Except FileFault Route :=
  if text.toList.contains '\x00' then .error .nulInRoute
  else if text = "" then .error .notFound
  else if routeLimit < text.utf8ByteSize then .error .nameTooLong
  else .ok (Route.ofString text)

namespace FileTree

/-- What a directory holds under a name. -/
def find (t : FileTree) (p : Path) (name : String) : Except FileFault (Option Node) :=
  if nameLimit < name.utf8ByteSize then .error .nameTooLong
  else .ok (t.lookup (p ++ [name]))

/-- Takes a step that must lead to a directory. -/
def enter (t : FileTree) (p : Path) : Step → Except FileFault Path
  | .name n => do
    match ← t.find p n with
    | none => .error .notFound
    | some (.file _) => .error .notADirectory
    | some .directory => .ok (p ++ [n])
  | s => .ok (s.move p)

/-- Takes steps that must all lead to directories. -/
def walk (t : FileTree) : Path → List Step → Except FileFault Path
  | p, [] => .ok p
  | p, s :: steps => do t.walk (← t.enter p s) steps

/-- Walks a route up to its last step: the place before it, the step, and whether a slash stands
behind it. -/
def approach (t : FileTree) (text : String) : Except FileFault (Path × Option Step × Bool) := do
  let r ← Route.ofString? text
  let p ← t.walk r.origin r.steps.dropLast
  .ok (p, r.steps.getLast?, r.closed)

/-- Opens what a route leads to. -/
def openPath (t : FileTree) (text : String) : Except FileFault Node := do
  match ← t.approach text with
  | (p, some (.name n), closed) =>
    match ← t.find p n with
    | none => .error .notFound
    | some .directory => .ok .directory
    | some (.file bytes) => if closed then .error .notADirectory else .ok (.file bytes)
  | _ => .ok .directory

/-- Reads the bytes of a file. -/
def read (t : FileTree) (text : String) : Except FileFault (List UInt8) := do
  match ← t.openPath text with
  | .directory => .error .isADirectory
  | .file bytes => .ok bytes

/-- Writes a file, new or in place of the old one. A slash behind its name is refused before
anything is looked up under the name. -/
def write (t : FileTree) (text : String) (bytes : List UInt8) : Except FileFault FileTree := do
  match ← t.approach text with
  | (p, some (.name n), false) =>
    match ← t.find p n with
    | some .directory => .error .isADirectory
    | _ => .ok (t.put (p ++ [n]) (.file bytes))
  | _ => .error .isADirectory

/-- Takes steps and makes the directories that are missed on the way. What has been made stays,
also if a fault comes later.

A file at the last step stands where a directory should be. A file before it is in the way of the
first directory that is missed; but behind that one (`made`) each step is one to a directory that
should be made. -/
def makeSteps (t : FileTree) (p : Path) (made : Bool) : List Step → FileTree × Option FileFault
  | [] => (t, none)
  | .name n :: steps =>
    match t.find p n with
    | .error f => (t, some f)
    | .ok none => (t.put (p ++ [n]) .directory).makeSteps (p ++ [n]) true steps
    | .ok (some .directory) => t.makeSteps (p ++ [n]) made steps
    | .ok (some (.file _)) =>
      (t, some (if made ∨ steps = [] then .alreadyExists else .notADirectory))
  | s :: steps => t.makeSteps (s.move p) made steps

/-- Makes a directory and whatever directories it needs above it. -/
def makeDirectories (t : FileTree) (text : String) : FileTree × Option FileFault :=
  match Route.ofString? text with
  | .error f => (t, some f)
  | .ok r => t.makeSteps r.origin false (r.steps.filter (· ≠ .here))

/-- Makes the directories above a file, if its written path has any. -/
def makeParents (t : FileTree) (text : String) : FileTree × Option FileFault :=
  if Route.parentText text = "" then (t, none)
  else t.makeDirectories (Route.parentText text)

end FileTree

end TriggerLatency
