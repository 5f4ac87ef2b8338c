import Courier.Fault
import Std.Data.ExtTreeMap

namespace Courier.Sequence

inductive Kind
  | reply
  | fault
  | deactivate
  deriving DecidableEq, Repr

def Kind.name : Kind → String
  | .reply => "reply"
  | .fault => "fault"
  | .deactivate => "deactivate"

def missing (processorName : String) (kind : Kind) (name : String) : String :=
  "[" ++ processorName ++ "] Failed to send the message through the " ++ kind.name ++
    " sequence. Sequence " ++ (if name = "" then "name" else "[" ++ name ++ "]") ++
    " does not exist."

abbrev Registry (β : Type) := Std.ExtTreeMap String β

namespace Registry

variable {β : Type}

def add (r : Registry β) (name : String) : Option β → Except Fault (Registry β)
  | some body => .ok (r.insert name body)
  | none => .error (.invalidArgument "SequenceRegistry: null sequence")

def remove (r : Registry β) (name : String) : Registry β := r.erase name

def find (r : Registry β) (name : String) : Option β := r[name]?

theorem find_add {r r' : Registry β} {name : String} {body : β}
    (h : r.add name (some body) = .ok r') (other : String) :
    r'.find other = if name = other then some body else r.find other := by
  cases h
  simp [find, Std.ExtTreeMap.getElem?_insert]

theorem find_remove (r : Registry β) (name other : String) :
    (r.remove name).find other = if name = other then none else r.find other := by
  simp [find, remove, Std.ExtTreeMap.getElem?_erase]

end Registry

end Courier.Sequence
