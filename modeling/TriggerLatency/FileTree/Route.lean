import TriggerLatency.Text.Split

/-!
# Written paths

A written path is a *route*: steps that begin in the working directory, or at the
root if a slash stands in front. A step stays where it is (`.`), goes up (`..`), or
goes to a name. Where a route leads depends on the tree it is walked in; this module
takes the text apart and follows the steps through names alone.

The place that a route leads to is a `Path`. A path that leads above the working
directory begins with `..`, and one that begins at the root with `/`; no name of a
step is one of these.
-/

namespace TriggerLatency

/-- A place: the names from the working directory down. -/
abbrev Path := List String

namespace Path

/-- The root of the file system. -/
def root : Path := ["/"]

/-- Whether a place is the working directory, a directory above it, or the root. These exist
whatever the tree holds. -/
def isOutside (p : Path) : Bool := p.all (· = "..") || p = root

/-- The directory above a place. -/
def above (p : Path) : Path :=
  if p = root then root
  else if p.all (· = "..") then p ++ [".."]
  else p.dropLast

end Path

/-- One step of a route. -/
inductive Step
  | here
  | up
  | name (name : String)
  deriving DecidableEq

namespace Step

/-- The step that a piece between slashes writes. An empty piece is no step. -/
def ofPiece? (piece : List Char) : Option Step :=
  if piece = [] then none
  else if piece = ['.'] then some .here
  else if piece = ['.', '.'] then some .up
  else some (.name (String.ofList piece))

/-- The place that a step leads to. -/
def move (p : Path) : Step → Path
  | .here => p
  | .up => Path.above p
  | .name n => p ++ [n]

end Step

/-- A written path, taken apart. -/
structure Route where
  /-- Where the steps begin. -/
  origin : Path
  steps : List Step
  /-- Whether a slash stands behind the last step. -/
  closed : Bool
  deriving DecidableEq

namespace Route

/-- The pieces of a written path between its slashes. -/
def pieces (text : String) : List (List Char) := Text.splitOn '/' text.toList

/-- Takes a written path apart. -/
def ofString (text : String) : Route where
  origin := if text.toList.head? = some '/' then Path.root else []
  steps := (pieces text).filterMap Step.ofPiece?
  closed := (pieces text).getLast? = some []

/-- The places that the steps of a route lead to, one after the other. -/
def places (r : Route) : List Path :=
  (r.steps.foldl (fun (acc : List Path × Path) s => (acc.1 ++ [s.move acc.2], s.move acc.2))
    ([], r.origin)).1

/-- Whether a piece of a written path leads nowhere else. -/
def isIdle (piece : List Char) : Bool := piece = [] || piece = ['.']

/-- The written path up to the last step down or up, without it; empty if no step is left. -/
def parentText (text : String) : String :=
  let before := (((pieces text).reverse.dropWhile isIdle).tail.dropWhile isIdle).reverse
  String.ofList (['/'].intercalate before)

end Route

end TriggerLatency
