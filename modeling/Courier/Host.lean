import Courier.Worker.Act

/-!
The life of a worker's host. A controlling thread gives orders; a scheduler thread runs the worker
again and again. The two threads take turns in any order, so their progress is a machine: a `Move`
is what one thread does next, and `Host.step` says what comes of it, or that it is not possible.
-/

namespace Courier

inductive Order
  | start
  | stop
  | activate
  | deactivate
  deriving DecidableEq, Repr

inductive Controlling
  | idle
  | starting
  | joiningToStart
  | joiningToStop
  | joiningToActivate
  deriving DecidableEq, Repr

inductive Scheduling
  | absent
  | entering
  | deciding
  | working
  | failing
  | checking
  | waiting
  | leaving
  | ended
  deriving DecidableEq, Repr

def Scheduling.alive : Scheduling → Bool
  | .absent => false
  | .ended => false
  | _ => true

structure Host where
  running : Bool
  deactivated : Bool
  worker : Status
  controlling : Controlling
  scheduling : Scheduling
  deriving DecidableEq, Repr

inductive Effect
  | terminates
  | logs (record : Record)
  deriving DecidableEq, Repr

inductive Move
  | order (o : Order)
  | proceed
  | advance
  | finished (contained : Bool) (worker : Status)
  /-- An order is given by the scheduler thread, from inside the worker's run. -/
  | inner (o : Order)
  deriving DecidableEq, Repr

namespace Host

def fresh (deactivatedAtStartup : Bool) : Host :=
  ⟨false, deactivatedAtStartup, .fresh deactivatedAtStartup, .idle, .absent⟩

def notice (severity : Severity) (name text : String) : Effect :=
  .logs ⟨severity, "Processor [" ++ name ++ "] " ++ text⟩

def refusal (name : String) : Effect := notice .info name "is deactivated, not starting"

def replaceTerminated (h : Host) : Host :=
  if h.worker.terminated then { h with worker := .fresh false } else h

theorem terminated_replaceTerminated (h : Host) : h.replaceTerminated.worker.terminated = false := by
  grind [replaceTerminated, Status.fresh]

def terminateWorker (h : Host) : Host := { h with worker := { h.worker with terminated := true } }

def requestStop (h : Host) : Host := { h with running := false }.terminateWorker

def deactivate (name : String) (h : Host) : Host × List Effect :=
  if h.deactivated then (h, [])
  else ({ h with deactivated := true }.terminateWorker,
    [.terminates, notice .warn name "deactivated"])

def beginStart (h : Host) : Host :=
  { h with controlling := if h.running then .idle else .starting }

def launch (name : String) (h : Host) : Host × List Effect :=
  ({ h.replaceTerminated with running := true, controlling := .idle, scheduling := .entering },
    [notice .info name "starting"])

def revive (name : String) (h : Host) : Host × List Effect :=
  ({ h.replaceTerminated with deactivated := false, scheduling := .absent }.beginStart,
    [notice .info name "activated"])

def obey (name : String) (h : Host) : Order → Host × List Effect
  | .start => (h.beginStart, [])
  | .stop => ({ h.requestStop with controlling := .joiningToStop }, [.terminates])
  | .deactivate => h.deactivate name
  | .activate =>
    if !h.deactivated && h.running then (h, [])
    else ({ h with controlling := .joiningToActivate }, [])

def proceed (name : String) (h : Host) : Option (Host × List Effect) :=
  match h.controlling with
  | .idle => none
  | .starting =>
    if h.deactivated then some ({ h with controlling := .idle }, [refusal name])
    else some ({ h with controlling := .joiningToStart }, [])
  | .joiningToStart => if h.scheduling.alive then none else some (h.launch name)
  | .joiningToStop =>
    match h.scheduling with
    | .absent => some ({ h with controlling := .idle }, [])
    | .ended =>
      some ({ h with controlling := .idle, scheduling := .absent }, [notice .info name "stopped"])
    | _ => none
  | .joiningToActivate => if h.scheduling.alive then none else some (h.revive name)

def advance (name : String) (h : Host) : Option (Host × List Effect) :=
  match h.scheduling with
  | .entering => some ({ h with scheduling := .deciding }, [notice .info name "scheduler started"])
  | .deciding =>
    some ({ h with scheduling := if h.running && !h.deactivated then .working else .leaving }, [])
  | .failing =>
    let (h, effects) := h.deactivate name
    some ({ h with scheduling := .leaving }, effects)
  | .checking =>
    some ({ h with scheduling := if h.worker.terminated then .leaving else .waiting }, [])
  | .waiting => some ({ h with scheduling := .deciding }, [])
  | .leaving =>
    some ({ h with running := false, scheduling := .ended }, [notice .info name "scheduler exited"])
  | _ => none

/-- An order from inside a run. It is carried out as far as that is possible without waiting for
the very thread that gives it; a thread that would have to wait for itself fails instead. -/
def obeyInner (name : String) (h : Host) : Order → Except Fault Unit × Host × List Effect
  | .start =>
    if h.running then (.ok (), h, [])
    else if h.deactivated then (.ok (), h, [refusal name])
    else (.error (.runtime "Resource deadlock avoided"), h, [])
  | .stop => (.ok (), h.requestStop, [.terminates])
  | .deactivate =>
    let (h, effects) := h.deactivate name
    (.ok (), h, effects)
  | .activate =>
    if !h.deactivated && h.running then (.ok (), h, [])
    else (.error (.runtime "Resource deadlock avoided"), h, [])

def step (name : String) (h : Host) : Move → Option (Host × List Effect)
  | .order o => if h.controlling = .idle then some (h.obey name o) else none
  | .proceed => h.proceed name
  | .advance => h.advance name
  | .finished contained worker =>
    if h.scheduling = .working then
      some ({ h with
        worker := { worker with terminated := h.worker.terminated || worker.terminated }
        scheduling := if contained then .checking else .failing }, [])
    else none
  | .inner o => if h.scheduling = .working then some (h.obeyInner name o).2 else none

def record (name : String) : Effect → Record
  | .terminates => ⟨.debug, "[" ++ name ++ "] Successfully terminated worker"⟩
  | .logs record => record

def aside : Effect → Aside
  | .terminates => .terminate
  | .logs record => .log record

end Host

end Courier
