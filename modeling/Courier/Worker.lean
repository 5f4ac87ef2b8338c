import Courier.Configuration
import Courier.Outcome
import Courier.Worker.Act

namespace Courier

structure Worker (σ : Type) where
  settings : Settings
  outside : Outside σ

namespace Settings

def classifier (s : Settings) : Classifier :=
  .ofTokens s.nonRetryTokens Outcome.usualErrorStatuses

def retryPolicy (s : Settings) : RetryPolicy :=
  .of s.maxAttempts s.retryIntervalMs s.dropOnMaxAttempts

def sequence (s : Settings) : Sequence.Kind → String
  | .reply => s.replySequence
  | .fault => s.faultSequence
  | .deactivate => s.deactivateSequence

end Settings

namespace Worker

variable {σ α : Type} (w : Worker σ)

def log (severity : Severity) (text : String) : Act σ Unit := do
  let owner ← Act.look w.outside.ownerName
  Act.record severity ("[" ++ owner ++ "] " ++ text)

def terminate : Act σ Unit := do
  Act.setStatus fun t => { t with terminated := true }
  Act.change fun s => { s with world := w.outside.interrupt s.world }
  Act.note .interrupted
  w.log .debug "Successfully terminated worker"

def destroy : Act σ Unit := w.terminate

def hear : Aside → Act σ Unit
  | .terminate => w.terminate
  | .raise => Act.setStatus fun t => { t with terminated := true }
  | .log r => Act.note (.log r)

def hearAll : List Aside → Act σ Unit
  | [] => pure ()
  | a :: as => do
    w.hear a
    hearAll as

def take (r : Reply σ α) : Act σ (Except Fault α) := do
  Act.change fun s => { s with world := r.world }
  w.hearAll r.asides
  return r.outcome

def call (c : Call σ α) : Act σ α := do
  Act.ofExcept (← w.take (← Act.look c))

def ask (errand : Errand) (c : Call σ α) : Act σ α := do
  match ← Act.catching (w.call c) with
  | .ok a => return a
  | .error fault =>
    Act.note (.failed errand fault)
    Act.raise fault

def createConsumer : Act σ Bool := do
  Act.note .requestingConsumer
  let given ← w.ask .consumer w.outside.createConsumer
  Act.note (.consumer given)
  return given

def storeName : Act σ String := do
  Act.note .namingStore
  let name ← w.ask .storeName w.outside.storeName
  Act.note (.storeNamed name)
  return name

def isDeactivated : Act σ Bool := do
  let deactivated ← Act.look w.outside.isDeactivated
  Act.note (.ownerAsked deactivated)
  return deactivated

def receive : Act σ (Option Message) := do
  Act.note .receiving
  let m ← w.ask .fetch w.outside.receive
  Act.note (.received m)
  return m

def isAlive : Act σ Bool := do
  let alive ← Act.look w.outside.isAlive
  Act.note (.consumerAsked alive)
  return alive

/-- Hands a working copy to the sender. The copy comes back as the sender left it. -/
def send (e : Endpoint) (working : Message) : Act σ (Except Fault (Option Message) × Message) := do
  Act.note (.sending e working)
  let handled ← Act.look (w.outside.send e working)
  match ← Act.catching (w.ask .exchange fun _ => handled.toReply) with
  | .ok response =>
    Act.note (.sent response)
    return (.ok response, handled.message)
  | .error fault => return (.error fault, handled.message)

def acknowledge (id : String) : Act σ Unit := do
  let accepted ← Act.query w.outside.acknowledge
  Act.note (.acknowledged accepted)
  Act.onlyIf (accepted = false)
    (w.log .error ("Failed to acknowledge message " ++ id ++ " at the store"))

def clockSleep (ms : Int) : Act σ Bool := do
  Act.note (.sleeping ms)
  let t ← Act.status
  let completed ← w.ask .sleep (w.outside.sleep ms t.terminated)
  Act.note (.slept completed)
  return completed

def sleep (ms : Int) : Act σ Unit :=
  Act.onlyIf (0 < ms) do
    let completed ← w.clockSleep ms
    Act.onlyIf (completed = false) (w.log .debug "Worker was interrupted while sleeping")

def deactivateOwner : Act σ Unit := do
  Act.note .deactivating
  w.ask .deactivation w.outside.deactivate
  Act.note .deactivated

/-- Runs the sequence configured for the occasion, as it is registered now. Answers whether there
was one, or how it failed, and the message as the sequence left it. -/
def dispatch (kind : Sequence.Kind) (m : Message) : Act σ (Except Fault Bool × Message) := do
  let name := w.settings.sequence kind
  Act.note (.dispatching kind m)
  let found ← Act.look (w.outside.sequence? name)
  match if name = "" then none else found with
  | none =>
    Act.record .warn (Sequence.missing w.settings.processorName kind name)
    return (.ok false, m)
  | some mediate =>
    Act.note (.mediating kind name m)
    let handled ← Act.look (mediate m)
    match ← Act.catching (w.ask (.sequence kind) fun _ => handled.toReply) with
    | .ok _ =>
      Act.note (.mediated kind handled.message)
      return (.ok true, handled.message)
    | .error fault => return (.error fault, handled.message)

def mediate (kind : Sequence.Kind) (m : Message) : Act σ Message := do
  let (outcome, m) ← w.dispatch kind m
  let _ ← Act.ofExcept outcome
  return m

end Worker

end Courier
