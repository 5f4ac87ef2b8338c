import Courier.Text

/-!
Paths: what a text says about the way to a file. A path is a sequence of steps, one for each part
between its slashes; empty parts say nothing, and the text ends at its first NUL.
-/

namespace Courier

namespace Path

inductive Step
  | stay
  | up
  | into (name : String)
  deriving DecidableEq, Repr

def step? : List Char → Option Step
  | [] => none
  | ['.'] => some .stay
  | ['.', '.'] => some .up
  | name => some (.into (String.ofList name))

end Path

structure Path where
  steps : List Path.Step
  slashed : Bool
  deriving DecidableEq, Repr

namespace Path

def ofText (s : String) : Path :=
  let parts := Text.pieces '/' (Text.beforeNul s).toList
  ⟨parts.filterMap step?, parts.getLast? == some []⟩

def longestName : Nat := 255

def longest : Nat := 4071

def isTooLong (s : String) : Bool := longest < (Text.beforeNul s).utf8ByteSize

def endsInName (p : Path) : Bool := p.steps.getLast? matches some (.into _)

end Path

end Courier
