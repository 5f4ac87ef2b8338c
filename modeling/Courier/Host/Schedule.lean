import Courier.Containment
import Courier.Host
import Courier.Worker.Run

/-!
The scheduler thread of a host together with the worker it runs. The host stands in the worker's
world, where the collaborators can reach it too.
-/

namespace Courier

structure Hosted (σ : Type) where
  host : Host
  rest : σ

namespace Host

variable {σ : Type}

def owned (name : String) (o : Outside (Hosted σ)) : Outside (Hosted σ) :=
  { o with
    ownerName := fun _ => name
    isDeactivated := fun w => w.host.deactivated
    deactivate := fun w =>
      ⟨.ok (), { w with host := (w.host.deactivate name).1 },
        (w.host.deactivate name).2.map aside⟩ }

def runner (s : Settings) (o : Outside (Hosted σ)) : Worker (Hosted σ) :=
  ⟨s, owned s.processorName o⟩

/-- The time between two passes, in milliseconds; shorter intervals are the worker's own matter. -/
def tickMs (s : Settings) : Int := max s.pollIntervalMs 1000

def take (name : String) (m : Move) : Act (Hosted σ) Unit := do
  let h ← Act.look Hosted.host
  match h.step name m with
  | none => return
  | some (h, effects) =>
    Act.change fun s => { s with world := { s.world with host := h } }
    effects.forM fun e => Act.note (.log (record name e))

def pass (w : Worker (Hosted σ)) (fuel : Nat) : Act (Hosted σ) Unit := do
  let h ← Act.look Hosted.host
  Act.setStatus fun _ => h.worker
  let contained ← Containment.contain ("processor [" ++ w.settings.processorName ++ "]") (w.run fuel)
  take w.settings.processorName (.finished contained (← Act.status))

def schedule (w : Worker (Hosted σ)) (wait : Act (Hosted σ) Unit) : Nat → Act (Hosted σ) Unit
  | 0 => Act.stall
  | fuel + 1 => do
    let h ← Act.look Hosted.host
    match h.scheduling with
    | .absent => return
    | .ended => return
    | .working =>
      pass w fuel
      schedule w wait fuel
    | .waiting =>
      wait
      take w.settings.processorName .advance
      schedule w wait fuel
    | _ =>
      take w.settings.processorName .advance
      schedule w wait fuel

end Host

end Courier
