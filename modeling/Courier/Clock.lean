namespace Courier.Clock

def sleep {σ : Type} (wait : Int → σ → Bool × σ) (ms : Int) (cancelled : Bool) (w : σ) : Bool × σ :=
  if cancelled then (false, w) else if ms ≤ 0 then (true, w) else wait ms w

def measured (disturbedAfter : Option Int) (ms elapsed : Int) : Bool × Int :=
  match disturbedAfter with
  | some t => if t < ms then (false, elapsed + t) else (true, elapsed + ms)
  | none => (true, elapsed + ms)

end Courier.Clock
