import Courier.Proofs.Act
import Courier.Worker.Run

namespace Courier

variable {σ α β : Type}

namespace Act

def Extends (x y : Act σ α) : Prop := ∀ s, (x s).1 ≠ .unfinished → y s = x s

section Extends

variable {x y : Act σ α} {f g : α → Act σ β}

theorem Extends.refl (x : Act σ α) : Extends x x := fun _ _ => rfl

theorem Extends.stall (y : Act σ α) : Extends stall y := fun _ h => absurd rfl h

theorem Extends.bind (hx : Extends x y) (hf : ∀ a, Extends (f a) (g a)) :
    Extends (x >>= f) (y >>= g) := by
  intro s h
  match hs : x s with
  | (.done a, t) =>
    rw [bind_done hs] at h ⊢
    rw [bind_done ((hx s (by simp [hs])).trans hs)]
    exact hf a t h
  | (.raised fault, t) => rw [bind_raised hs, bind_raised ((hx s (by simp [hs])).trans hs)]
  | (.unfinished, t) => exact absurd (by rw [bind_unfinished hs]) h

theorem Extends.later (hf : ∀ a, Extends (f a) (g a)) : Extends (x >>= f) (x >>= g) :=
  (Extends.refl x).bind hf

theorem Extends.catching (hx : Extends x y) : Extends (catching x) (catching y) := by
  intro s h
  match hs : x s with
  | (.done a, t) => rw [catching_done hs, catching_done ((hx s (by simp [hs])).trans hs)]
  | (.raised fault, t) => rw [catching_raised hs, catching_raised ((hx s (by simp [hs])).trans hs)]
  | (.unfinished, t) => exact absurd (by rw [catching_unfinished hs]) h

theorem Extends.onlyIf (c : Prop) [Decidable c] {x y : Act σ Unit} (hx : Extends x y) :
    Extends (onlyIf c x) (onlyIf c y) := by
  rw [Act.onlyIf, Act.onlyIf]
  split
  · exact hx
  · exact .refl _

end Extends

end Act

namespace Worker

open Act (Extends)

variable (w : Worker σ) {fuel more : Nat}

theorem deliver_extends (e : Endpoint) (stored : Message) (h : fuel ≤ more) :
    Extends (w.deliver e stored fuel) (w.deliver e stored more) := by
  induction fuel generalizing more with
  | zero => exact .stall _
  | succ fuel ih =>
    obtain ⟨more, rfl⟩ : ∃ n, more = n + 1 := ⟨more - 1, by omega⟩
    exact .later fun _ => .onlyIf _ (.later fun _ => ih (by omega))

theorem forward_extends (stored : Message) (h : fuel ≤ more) :
    Extends (w.forward stored fuel) (w.forward stored more) := by
  refine .later fun _ => .later fun target => ?_
  cases target with
  | some e => exact w.deliver_extends e stored h
  | none => exact .refl _

theorem cycle_extends (m : Message) (h : fuel ≤ more) :
    Extends (w.cycle m fuel) (w.cycle m more) :=
  .later fun _ => (w.forward_extends _ h).catching.bind fun _ => .refl _

theorem turn_extends (begun : Int) (h : fuel ≤ more) :
    Extends (w.turn begun fuel) (w.turn begun more) := by
  refine .later fun _ => .later fun deactivated => ?_
  split
  · exact .refl _
  · refine .later fun r => ?_
    match r with
    | .ok (some m) => exact (w.cycle_extends m h).bind fun _ => .refl _
    | .ok none => exact .refl _
    | .error fault => exact .refl _

end Worker

end Courier
