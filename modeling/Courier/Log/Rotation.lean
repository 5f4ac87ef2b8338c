import Courier.Configuration
import Courier.Log
import Courier.Log.Files

/-!
The log in files. Records go to a live file until its counted size reaches a threshold; the live
file then becomes the first generation, older generations move up by one, and the oldest is lost.
Without an open file records go to the console.
-/

namespace Courier

structure Handle where
  location : Location
  gone : Bool
  /-- Where the next record goes; without a position records go to the end. -/
  position : Option Nat
  deriving DecidableEq, Repr

structure Logger where
  level : Severity
  path : String
  handle : Option Handle
  /-- The size the threshold is compared with; every record counts thirty more than its text. -/
  size : Nat
  maxBytes : Nat
  maxFiles : Int
  deriving DecidableEq, Repr

namespace Logger

def defaultMaxBytes : Nat := 100 * 1024 * 1024

def fresh (level : Severity) : Logger := ⟨level, "", none, 0, defaultMaxBytes, 6⟩

structure Report where
  console : List Record
  complaints : List String

def generation (path : String) (n : Nat) : String := path ++ "." ++ toString n

def setFile (g : Logger) (path : String) (fs : Files) : Logger × Files :=
  match fs.open? path id with
  | .ok (l, fs) =>
    ({ g with path, handle := some ⟨l, false, none⟩, size := (fs.size? l).getD 0 }, fs)
  | .error _ => ({ g with path, handle := none, size := 0 }, fs)

def setRotation (g : Logger) (maxBytes : Nat) (maxFiles : Int) : Logger :=
  { g with maxBytes, maxFiles := max maxFiles 1 }

/-- Moves the generations from `n` down to the first up by one; what cannot be moved stays. -/
def shift (path : String) : Nat → Files → Files
  | 0, fs => fs
  | n + 1, fs =>
    shift path n (match fs.rename (generation path (n + 1)) (generation path (n + 2)) with
      | .ok fs => fs
      | .error _ => fs)

def complaint (path : String) (obstacle : Files.Obstacle) : String :=
  "Logger: rotation of " ++ path ++ " failed: " ++ obstacle.message

def rotate (g : Logger) (fs : Files) : Logger × Files × List String :=
  let fs := shift g.path (g.maxFiles - 1).toNat fs
  let (fs, complaints) := match fs.rename g.path (generation g.path 1) with
    | .ok fs => (fs, [])
    | .error obstacle => (fs, [complaint g.path obstacle])
  match fs.open? g.path fun _ => [] with
  | .ok (l, fs) => ({ g with handle := some ⟨l, false, some 0⟩, size := 0 }, fs, complaints)
  | .error _ => ({ g with handle := none, size := 0 }, fs, complaints)

def placed (content bytes : Bytes) (position : Nat) : Bytes :=
  content.take position ++ List.replicate (position - content.length) 0 ++ bytes ++
    content.drop (position + bytes.length)

theorem placed_length (content bytes : Bytes) :
    placed content bytes content.length = content ++ bytes := by
  simp [placed]

def written (content bytes : Bytes) : Option Nat → Bytes
  | none => content ++ bytes
  | some position => placed content bytes position

abbrev Entry := String × Record

def stamped (stamp : String) (r : Record) : String := stamp ++ " " ++ r.line ++ "\n"

def write (g : Logger) (stamp : String) (r : Record) (fs : Files) :
    Logger × Files × List Record :=
  match g.handle with
  | none => (g, fs, [r])
  | some handle =>
    let bytes := Bytes.ofText (stamped stamp r)
    let handle' := { handle with position := handle.position.map (· + bytes.length) }
    let g := { g with handle := some handle', size := g.size + r.text.utf8ByteSize + 30 }
    match handle.gone, fs.node? handle.location with
    | false, some (.file content) =>
      (g, fs.insert handle.location (.file (written content bytes handle.position)), [])
    | _, _ => (g, fs, [])

def due (g : Logger) : Bool := g.handle.isSome && g.maxBytes ≤ g.size

def log (g : Logger) (stamp : String) (r : Record) (fs : Files) : Logger × Files × Report :=
  if r.visible g.level then
    let (g, fs, complaints) := if g.due then g.rotate fs else (g, fs, [])
    let (g, fs, console) := g.write stamp r fs
    (g, fs, ⟨console, complaints⟩)
  else (g, fs, ⟨[], []⟩)

def logEach (g : Logger) : List Entry → Files → Logger × Files × Report
  | [], fs => (g, fs, ⟨[], []⟩)
  | e :: es, fs =>
    let (g, fs, report) := g.log e.1 e.2 fs
    let (g, fs, later) := logEach g es fs
    (g, fs, ⟨report.console ++ later.console, report.complaints ++ later.complaints⟩)

def logAll (g : Logger) (stamp : String) (rs : List Record) (fs : Files) :
    Logger × Files × Report :=
  g.logEach (rs.map fun r => (stamp, r)) fs

def noticed (g : Logger) (fs : Files) : Logger :=
  { g with handle := g.handle.map fun h =>
      { h with gone := h.gone || (fs.node? h.location).isNone } }

end Logger

namespace Configuration

def wordModulus : Int := 18446744073709551616

def rotationBytes (c : Configuration) : Nat := (c.logMaxSizeMb * 1048576 % wordModulus).toNat

def applyLogging (c : Configuration) (g : Logger) (fs : Files) : Logger × Files :=
  let g := { g with level := Severity.ofName c.logLevel }.setRotation c.rotationBytes c.logMaxFiles
  if c.logFile = "" then (g, fs) else g.setFile c.logFile fs

end Configuration

end Courier
