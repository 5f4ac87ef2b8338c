import Courier.Clock
import Courier.Host.Schedule
import Courier.Rehearsal

/-!
A host with its two threads among scripted collaborators. The controlling thread follows a list of
cues; it takes its turn whenever the scheduler thread sleeps, waits or finds the store empty, and
the time that passes meanwhile is counted, not waited for.
-/

namespace Courier.Rehearsal

inductive Condition
  | acknowledged (n : Int)
  | sent (n : Int)
  | opened (n : Int)
  | exited

inductive Cue
  | order (o : Order)
  | await (c : Condition)
  | flags
  | store
  | name
  | act (a : Action)

inductive Answer
  | done
  | held (value : Bool)
  | flags (running deactivated : Bool)
  | store (stand : Stand)
  | name (text : String)
  | failed (fault : Fault)

structure Controller where
  cues : List Cue
  answers : List Answer
  deadline : Option Int
  records : List Record

structure Stage where
  stand : Stand
  controller : Controller

namespace Stage

abbrev World := Hosted Stage

def standOf (w : World) : Stand := w.rest.stand

def setStand (s : Stand) (w : World) : World := { w with rest := { w.rest with stand := s } }

def setController (c : Controller) (w : World) : World :=
  { w with rest := { w.rest with controller := c } }

def patienceMs : Int := 5000

def holds (w : World) : Condition → Bool
  | .acknowledged n => n ≤ (standOf w).acknowledged.length
  | .sent n => n ≤ (standOf w).exchanges
  | .opened n => n ≤ (standOf w).openings
  | .exited => !w.host.running

def answer (a : Answer) (w : World) : World :=
  let c := w.rest.controller
  setController { c with cues := c.cues.tail, answers := a :: c.answers, deadline := none } w

def ordered (name : String) (w : World) (r : Host × List Effect) : World :=
  let c := w.rest.controller
  let w := { w with host := r.1 }
  let w := setController { c with records := (r.2.map (Host.record name)).reverse ++ c.records } w
  if r.1.controlling = .idle then answer .done w else w

def setting (name : String) : Setting World where
  get := standOf
  set := setStand
  movesClock := false
  terminate := []
  order o w :=
    let (outcome, host, effects) := w.host.obeyInner name o
    (outcome, { w with host }, effects.map Host.aside)

def follow (name : String) (w : World) : Option World :=
  if w.host.controlling ≠ .idle then (w.host.step name .proceed).map (ordered name w)
  else
    match w.rest.controller.cues with
    | [] => none
    | .order o :: _ => (w.host.step name (.order o)).map (ordered name w)
    | .flags :: _ => some (answer (.flags w.host.running w.host.deactivated) w)
    | .store :: _ => some (answer (.store (standOf w)) w)
    | .name :: _ => some (answer (.name name) w)
    | .act a :: _ =>
      let (outcome, c) := (setting name).perform ⟨w, none, []⟩ a
      match outcome with
      | .ok _ => some (answer .done c.world)
      | .error fault => some (answer (.failed fault) c.world)
    | .await c :: _ =>
      if holds w c then some (answer (.held true) w)
      else if !w.host.scheduling.alive then some (answer (.held false) w)
      else
        match w.rest.controller.deadline with
        | none =>
          some (setController { w.rest.controller with
            deadline := some ((standOf w).now + patienceMs) } w)
        | some t => if t ≤ (standOf w).now then some (answer (.held false) w) else none

def followAll (name : String) : Nat → World → World
  | 0, w => w
  | fuel + 1, w =>
    match follow name w with
    | some w => followAll name fuel w
    | none => w

def turn (name : String) (w : World) : World :=
  followAll name (5 * (w.rest.controller.cues.length + 1)) w

def pass (name : String) (woken : World → Bool) (target : Int) : Nat → World → Bool × World
  | 0, w => (true, w)
  | fuel + 1, w =>
    let w := turn name w
    if woken w then (false, w)
    else
      match w.rest.controller.deadline with
      | some t =>
        if t < target then pass name woken target fuel (setStand { standOf w with now := t } w)
        else (true, setStand { standOf w with now := target } w)
      | none => (true, setStand { standOf w with now := target } w)

def wait (name : String) (woken : World → Bool) (ms : Int) (w : World) : Bool × World :=
  pass name woken ((standOf w).now + ms) (w.rest.controller.cues.length + 2) w

def raised (before after : World) : List Aside :=
  if after.host.worker.terminated && !before.host.worker.terminated then [.raise] else []

def receive (name : String) (script : Script) : Call World (Option Message) := fun before =>
  let w := if (standOf before).pending.isEmpty then turn name before else before
  let reply := script.receive (setting name) w
  { reply with asides := raised before w ++ reply.asides }

def sleep (name : String) (ms : Int) (cancelled : Bool) : Call World Bool := fun w =>
  let (completed, after) := Clock.sleep (wait name (·.host.worker.terminated)) ms cancelled w
  ⟨.ok completed, after, raised w after⟩

def staged (script : Script) : Script := { script with receiptMs := 1, receiptLimit := none }

def runner (s : Settings) (script : Script) : Worker World :=
  let name := s.processorName
  Host.runner s { (staged script).outside (setting name) with
    receive := receive name (staged script)
    sleep := sleep name }

def tick (s : Settings) : Act World Unit :=
  Act.change fun site =>
    let (_, w) := wait s.processorName (fun w => !w.host.running || w.host.deactivated)
      (Host.tickMs s) site.world
    { site with world := w }

structure Performance where
  world : World
  counters : Counters
  threads : List (List Event)

def play (s : Settings) (script : Script) : Nat → Performance → Performance
  | 0, p => p
  | fuel + 1, p =>
    let w := turn s.processorName p.world
    if w.host.scheduling.alive then
      let site := (Host.schedule (runner s script) (tick s) 1000000
        ⟨w, w.host.worker, p.counters, []⟩).2
      play s script fuel ⟨site.world, site.counters, p.threads ++ [site.events]⟩
    else { p with world := w }

def perform (s : Settings) (script : Script) (stand : Stand) (cues : List Cue) : Performance :=
  let host := Host.fresh s.deactivatedAtStartup
  let controller : Controller := ⟨cues ++ [.order .stop], [], none, []⟩
  play s script (cues.length + 2) ⟨⟨host, stand, controller⟩, ∅, []⟩

end Stage

end Courier.Rehearsal
