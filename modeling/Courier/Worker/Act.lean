import Courier.Counters
import Courier.Retry
import Courier.Sequence
import Courier.Worker.Outside

/-!
The actions a worker is made of. An action changes the worker's site: the world around it, its
status, the counters, and the journal of all that has happened. It ends with a result, with a
failure, or unfinished where the steps it was granted do not suffice; whatever the ending, the
site shows all that was done.
-/

namespace Courier

structure Status where
  progress : Progress
  terminated : Bool
  holdsConsumer : Bool
  /-- The delay that a worker which starts inactive waits through once. -/
  delayDue : Bool
  deriving DecidableEq, Repr

def Status.fresh (delayDue : Bool) : Status := ⟨.fresh, false, false, delayDue⟩

inductive Errand
  | consumer
  | storeName
  | fetch
  | exchange
  | sequence (kind : Sequence.Kind)
  | sleep
  | deactivation
  deriving DecidableEq, Repr

inductive Event
  | log (record : Record)
  | runBegun
  | interrupted
  | requestingConsumer
  | consumer (given : Bool)
  | namingStore
  | storeNamed (name : String)
  | ownerAsked (deactivated : Bool)
  | receiving
  | received (message : Option Message)
  | consumerAsked (alive : Bool)
  | sending (endpoint : Endpoint) (message : Message)
  | sent (response : Option Message)
  | dispatching (kind : Sequence.Kind) (message : Message)
  | mediating (kind : Sequence.Kind) (name : String) (message : Message)
  | mediated (kind : Sequence.Kind) (message : Message)
  | acknowledged (accepted : Bool)
  | sleeping (ms : Int)
  | slept (completed : Bool)
  | deactivating
  | deactivated
  | failed (errand : Errand) (fault : Fault)
  | givingUp (fault : Fault)

structure Moment (σ : Type) where
  event : Event
  status : Status
  world : σ

structure Site (σ : Type) where
  world : σ
  status : Status
  counters : Counters
  /-- The latest moment comes first. -/
  journal : List (Moment σ)

namespace Site

variable {σ : Type}

def fresh (world : σ) (delayDue : Bool) : Site σ := ⟨world, .fresh delayDue, ∅, []⟩

def note (event : Event) (s : Site σ) : Site σ :=
  { s with journal := ⟨event, s.status, s.world⟩ :: s.journal }

def events (s : Site σ) : List Event := (s.journal.map Moment.event).reverse

end Site

inductive Ending (α : Type)
  | done (result : α)
  | raised (fault : Fault)
  | unfinished
  deriving Repr

def Act (σ α : Type) := Site σ → Ending α × Site σ

namespace Act

variable {σ α β : Type}

def pure (a : α) : Act σ α := fun s => (.done a, s)

def bind (x : Act σ α) (f : α → Act σ β) : Act σ β := fun s =>
  match x s with
  | (.done a, s) => f a s
  | (.raised fault, s) => (.raised fault, s)
  | (.unfinished, s) => (.unfinished, s)

instance : Monad (Act σ) where
  pure := Act.pure
  bind := Act.bind

theorem pure_apply (a : α) (s : Site σ) : (Pure.pure a : Act σ α) s = (.done a, s) := rfl

theorem bind_apply (x : Act σ α) (f : α → Act σ β) (s : Site σ) :
    (x >>= f) s = match x s with
      | (.done a, s) => f a s
      | (.raised fault, s) => (.raised fault, s)
      | (.unfinished, s) => (.unfinished, s) := rfl

instance : LawfulMonad (Act σ) := LawfulMonad.mk' _
  (fun x => funext fun s => by
    change Act.bind x _ s = x s
    rw [Act.bind]
    match x s with
    | (.done _, _) => rfl
    | (.raised _, _) => rfl
    | (.unfinished, _) => rfl)
  (fun _ _ => rfl)
  (fun x f g => funext fun s => by
    rw [bind_apply, bind_apply, bind_apply]
    match x s with
    | (.done _, _) => rfl
    | (.raised _, _) => rfl
    | (.unfinished, _) => rfl)

def raise (fault : Fault) : Act σ α := fun s => (.raised fault, s)

def stall : Act σ α := fun s => (.unfinished, s)

def catching (x : Act σ α) : Act σ (Except Fault α) := fun s =>
  match x s with
  | (.done a, s) => (.done (.ok a), s)
  | (.raised fault, s) => (.done (.error fault), s)
  | (.unfinished, s) => (.unfinished, s)

def ofExcept : Except Fault α → Act σ α
  | .ok a => pure a
  | .error fault => raise fault

def onlyIf (c : Prop) [Decidable c] (x : Act σ Unit) : Act σ Unit := if c then x else pure ()

def status : Act σ Status := fun s => (.done s.status, s)

def change (f : Site σ → Site σ) : Act σ Unit := fun s => (.done (), f s)

def note (event : Event) : Act σ Unit := change (Site.note event)

def setStatus (f : Status → Status) : Act σ Unit :=
  change fun s => { s with status := f s.status }

def setProgress (p : Progress) : Act σ Unit := setStatus fun t => { t with progress := p }

def count (counter : String) : Act σ Unit :=
  change fun s => { s with counters := s.counters.count counter }

def record (severity : Severity) (text : String) : Act σ Unit := note (.log ⟨severity, text⟩)

def look (f : σ → α) : Act σ α := fun s => (.done (f s.world), s)

def query (q : σ → α × σ) : Act σ α := fun s =>
  (.done (q s.world).1, { s with world := (q s.world).2 })

end Act

end Courier
