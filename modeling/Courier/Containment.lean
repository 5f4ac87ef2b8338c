import Courier.Worker.Act

namespace Courier.Containment

variable {σ α : Type}

def report (context : String) (fault : Fault) : Record :=
  ⟨.fatal, match fault.describe? with
    | some what => "CrashContainment: Exception in " ++ context ++ ": " ++ what
    | none => "CrashContainment: Unknown exception in " ++ context⟩

def contain (context : String) (x : Act σ α) : Act σ Bool := do
  match ← Act.catching x with
  | .ok _ => return true
  | .error fault =>
    Act.note (.log (report context fault))
    return false

end Courier.Containment
