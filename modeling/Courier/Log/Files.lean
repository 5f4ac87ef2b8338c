import Courier.Log.Path
import Courier.Text.Bytes
import Std.Data.ExtTreeMap

/-!
A tree of files and directories, as far as a log needs one. A path is followed step by step, and
every step but the last has to come to a directory; different paths can lead to one place.
-/

namespace Courier

inductive Node
  | directory
  | file (content : Bytes)
  deriving DecidableEq, Repr

/-- A place in the tree: the names on the straight way to it from the directory where paths begin.
For a place outside of that directory the way first leads up. -/
abbrev Location := List String

namespace Location

def upward : String := ".."

def isAtop (l : Location) : Bool := l.all (· == upward)

def parent (l : Location) : Location := if l.isAtop then l ++ [upward] else l.dropLast

def isBelow (directory l : Location) : Bool :=
  directory.isPrefixOf l && (l.drop directory.length).head?.any (· != upward)

end Location

abbrev Files := Std.ExtTreeMap Location Node

namespace Files

inductive Obstacle
  | missing
  | isDirectory
  | notDirectory
  | notEmpty
  | nameTooLong
  deriving DecidableEq, Repr

def Obstacle.message : Obstacle → String
  | .missing => "No such file or directory"
  | .isDirectory => "Is a directory"
  | .notDirectory => "Not a directory"
  | .notEmpty => "Directory not empty"
  | .nameTooLong => "File name too long"

def node? (fs : Files) (l : Location) : Option Node :=
  if l.isAtop then some .directory else fs[l]?

def size? (fs : Files) (l : Location) : Option Nat :=
  match fs.node? l with
  | some (.file content) => some content.length
  | _ => none

def take (fs : Files) (l : Location) (s : Path.Step) : Except Obstacle Location :=
  match fs.node? l with
  | none => .error .missing
  | some (.file _) => .error .notDirectory
  | some .directory =>
    match s with
    | .stay => .ok l
    | .up => .ok l.parent
    | .into name =>
      if Path.longestName < name.utf8ByteSize then .error .nameTooLong else .ok (l ++ [name])

def follow (fs : Files) (l : Location) : List Path.Step → Except Obstacle Location
  | [] => .ok l
  | s :: ss => (fs.take l s).bind fun l => follow fs l ss

theorem follow_append (fs : Files) (l : Location) (ss ts : List Path.Step) :
    fs.follow l (ss ++ ts) = (fs.follow l ss).bind fun l => fs.follow l ts := by
  induction ss generalizing l with
  | nil => rfl
  | cons s ss ih => cases h : fs.take l s <;> simp [follow, h, Except.bind, ih]

def locate (fs : Files) (path : String) : Except Obstacle Location :=
  if Path.isTooLong path then .error .nameTooLong else fs.follow [] (Path.ofText path).steps

/-- Makes sure that there is a file at the path, with what it makes of the old content; a new file
is empty before that. Answers where the file is. -/
def open? (fs : Files) (path : String) (f : Bytes → Bytes) :
    Except Obstacle (Location × Files) := do
  let l ← fs.locate path
  match fs.node? l with
  | some .directory => .error .isDirectory
  | some (.file content) =>
    if (Path.ofText path).slashed then .error .notDirectory
    else .ok (l, fs.insert l (.file (f content)))
  | none =>
    if (Path.ofText path).slashed then .error .isDirectory
    else .ok (l, fs.insert l (.file (f [])))

def isEmptyDirectory (fs : Files) (l : Location) : Bool := fs.keys.all fun k => !l.isBelow k

def move (fs : Files) (source target : Location) : Files :=
  (fs.toList.filter fun e => e.1 = source || source.isBelow e.1).foldl
    (fun fs e => (fs.erase e.1).insert (target ++ e.1.drop source.length) e.2) (fs.erase target)

def rename (fs : Files) (source target : String) : Except Obstacle Files := do
  let a ← fs.locate source
  if Path.isTooLong target then .error .nameTooLong
  else
    match fs.node? a with
    | none => .error .missing
    | some node =>
      let b ← fs.locate target
      if a = b then .ok fs
      else
        match node, fs.node? b with
        | .file _, some .directory => .error .isDirectory
        | .file _, _ => .ok ((fs.erase a).insert b node)
        | .directory, some (.file _) => .error .notDirectory
        | .directory, some .directory =>
          if fs.isEmptyDirectory b then .ok (fs.move a b) else .error .notEmpty
        | .directory, none => .ok (fs.move a b)

/-- Removes what is at a path with all that lies below it. A directory that the path does not name
is only emptied. -/
def remove (fs : Files) (path : String) : Files :=
  match fs.locate path with
  | .error _ => fs
  | .ok l =>
    match fs.node? l with
    | none => fs
    | some (.file _) => if (Path.ofText path).slashed then fs else fs.erase l
    | some .directory =>
      let fs := fs.filter fun k _ => !l.isBelow k
      if (Path.ofText path).endsInName then fs.erase l else fs

def makeDirectories (fs : Files) (l : Location) : List Path.Step → Files
  | [] => fs
  | s :: ss =>
    match fs.take l s with
    | .error _ => fs
    | .ok l =>
      makeDirectories (if (fs.node? l).isSome then fs else fs.insert l .directory) l ss

def makeDirectory (fs : Files) (path : String) : Files :=
  if Path.isTooLong path then fs else fs.makeDirectories [] (Path.ofText path).steps

end Files

end Courier
