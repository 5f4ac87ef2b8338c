import Courier.Worker

namespace Courier.Worker

variable {σ : Type} (w : Worker σ)

namespace Counter

def fetched : String := "forwarder_messages_fetched_total"

def delivered : String := "forwarder_delivered_total"

def failures : String := "forwarder_delivery_failures_total"

def nonRetry : String := "forwarder_non_retry_total"

def dropped : String := "forwarder_dropped_total"

def undeliverable : String := "forwarder_undeliverable_total"

def deactivations : String := "forwarder_deactivations_total"

end Counter

def targetName (m : Message) : String :=
  if m.property Property.targetEndpoint = "" then w.settings.targetEndpoint
  else m.property Property.targetEndpoint

def resolveTarget (m : Message) : Act σ (Option Endpoint) := do
  let name := w.targetName m
  if name = "" then return none
  let registry ← Act.look w.outside.endpoints
  match registry.resolve name with
  | some e => return some e
  | none =>
    w.log .warn ("Target endpoint [" ++ name ++ "] is not defined")
    return none

inductive Attempt
  | skipped
  | completed
  | answered (response working : Message)
  | refused (fault : Fault) (working : Message)

/-- The copy of a stored message that goes to the sender: it tells which statuses are no errors. -/
def workingCopy (stored : Message) : Message :=
  stored.setProperty Property.nonErrorHttpStatusCodes w.settings.classifier.nonErrorStatusText

def attempt (e : Endpoint) (stored : Message) : Act σ Attempt := do
  if ← w.isAlive then
    let (outcome, working) ← w.send e (w.workingCopy stored)
    match outcome with
    | .ok (some response) => return .answered response working
    | .ok none => return .completed
    | .error fault => return .refused fault working
  else
    w.log .warn ("Store consumer is not alive, message " ++ stored.id ++ " was not sent")
    return .skipped

def settle (id : String) : Act σ Unit := do
  w.acknowledge id
  Act.setProgress ⟨0, true⟩

def completeDelivery (e : Endpoint) (id : String) : Act σ Unit := do
  w.settle id
  Act.count Counter.delivered
  w.log .debug ("Successfully sent message " ++ id ++ " to endpoint [" ++ e.name ++ "]")

def settleUndelivered (id reason : String) : Act σ Unit := do
  w.settle id
  Act.count Counter.nonRetry
  w.log .info ("Message " ++ id ++ " will not be retried: " ++ reason)

/-- Dispatches the deactivate sequence. One that fails is only reported, unless nothing is known
about the failure. -/
def sendOff (m : Message) : Act σ Unit := do
  match ← Act.catching (w.mediate .deactivate m) with
  | .ok _ => return
  | .error fault =>
    match fault.describe? with
    | some what => w.log .error ("Deactivate sequence failed: " ++ what)
    | none => Act.raise fault

def retire (inHand : Option Message) : Act σ Unit := do
  inHand.forM w.sendOff
  Act.setStatus fun t => { t with terminated := true }
  w.deactivateOwner
  Act.count Counter.deactivations

def prepareToRetry (working : Message) : Act σ Unit := do
  let t ← Act.status
  let (decision, progress) := w.settings.retryPolicy.onFailure t.terminated t.progress
  let limit := toString w.settings.retryPolicy.maxAttempts
  Act.setProgress progress
  match decision.verdict with
  | .skipped => return
  | .dropped =>
    w.acknowledge working.id
    Act.count Counter.dropped
    w.log .info ("Removed failed message " ++ working.id ++ " after " ++ limit ++
      " attempts and continuing")
  | .deactivated =>
    w.terminate
    w.retire (some working)
    w.log .error ("Message processor stopped after reaching " ++ limit ++ " delivery attempts")
  | .willRetry =>
    w.log .debug ("Retrying after " ++ toString decision.delayMs ++ " ms with attempt count " ++
      toString progress.attempts)
    w.sleep decision.delayMs

/-- What a failure that can be tried again leads to. The message at fault is the working copy
where the sender failed, and the response where the endpoint rejected the message. -/
def reportFailure (text : String) (atFault : Message) : Act σ Message := do
  w.log .error text
  Act.count Counter.failures
  w.mediate .fault atFault

def judge (e : Endpoint) (stored response working : Message) : Act σ Unit := do
  let verdict := w.settings.classifier.classifyResponse response
  match verdict.outcome with
  | .success =>
    let _ ← w.mediate .reply response
    w.completeDelivery e stored.id
  | .nonRetryable =>
    let _ ← w.mediate .reply response
    w.settleUndelivered stored.id verdict.reason
  | .retryable =>
    Act.setStatus fun t => { t with progress := { t.progress with succeeded := false } }
    let _ ← w.reportFailure ("Endpoint [" ++ e.name ++ "] rejected message " ++ stored.id ++ ": " ++
      verdict.reason) response
    w.prepareToRetry working

def recover (e : Endpoint) (stored : Message) (fault : Fault) (working : Message) : Act σ Unit := do
  match fault.describe? with
  | none => Act.raise fault
  | some what =>
    let failure := "Failed to send message " ++ stored.id ++ " to endpoint [" ++ e.name ++ "]: " ++
      what
    match fault with
    | .delivery _ cause =>
      if w.settings.classifier.isNonRetryable cause then w.settleUndelivered stored.id cause
      else w.prepareToRetry (← w.reportFailure failure working)
    | _ => w.prepareToRetry (← w.reportFailure failure working)

def succeed : Act σ Unit :=
  Act.setStatus fun t => { t with progress := { t.progress with succeeded := true } }

def deliverOnce (e : Endpoint) (stored : Message) : Act σ Unit := do
  match ← w.attempt e stored with
  | .skipped =>
    succeed
    w.completeDelivery e stored.id
  | .completed =>
    succeed
    w.completeDelivery e stored.id
  | .answered response working =>
    succeed
    w.judge e stored response working
  | .refused fault working => w.recover e stored fault working

def deliver (e : Endpoint) (stored : Message) : Nat → Act σ Unit
  | 0 => Act.stall
  | fuel + 1 => do
    let t ← Act.status
    Act.onlyIf (t.progress.succeeded = false ∧ t.terminated = false) do
      w.deliverOnce e stored
      deliver e stored fuel

def forward (stored : Message) (fuel : Nat) : Act σ Unit := do
  w.log .debug ("Sending message " ++ stored.id ++ " to the endpoint")
  match ← w.resolveTarget stored with
  | some e => w.deliver e stored fuel
  | none =>
    w.log .warn ("Property " ++ Property.targetEndpoint ++ " not found for message " ++
      stored.id ++ ", hence removing the message")
    Act.count Counter.undeliverable
    w.acknowledge stored.id

end Courier.Worker
