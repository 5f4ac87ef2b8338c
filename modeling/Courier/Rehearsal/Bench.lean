import Courier.Rehearsal
import Courier.Worker.Run

namespace Courier.Rehearsal

inductive Step
  | run
  | terminate
  | act (action : Action)

namespace Bench

def worker (s : Settings) (script : Script) : Worker Stand := ⟨s, script.outside (alone true)⟩

def fuel : Nat := 1000

def perform (w : Worker Stand) : Step → Act Stand Unit
  | .run => w.run fuel
  | .terminate => w.terminate
  | .act a => do
    let (outcome, _) ← act (alone true) w a none
    Act.ofExcept outcome

end Bench

end Courier.Rehearsal
