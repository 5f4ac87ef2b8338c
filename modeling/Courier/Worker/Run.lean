import Courier.Configuration.Validation
import Courier.Worker.Delivery

namespace Courier.Worker

variable {σ : Type} (w : Worker σ)

/-- Poll intervals below this are waited through by the worker itself, in milliseconds. -/
def pacingLimitMs : Int := 1000

/-- How long a run may hold the thread before it hands it back, in milliseconds. -/
def sliceMs : Int := 1000

def startupDelay : Act σ Unit := do
  let completed ← w.clockSleep w.settings.startupDelayMs
  Act.onlyIf (completed = false)
    (w.log .warn "Initial delay interrupted when worker started as inactive")
  Act.setStatus fun t => { t with delayDue := false }

def acquire : Act σ Unit := do
  match w.settings.complaints with
  | complaint :: _ => Act.raise (.runtime ("invalid worker configuration: " ++ complaint))
  | [] =>
    if ← w.createConsumer then
      Act.setStatus fun t => { t with holdsConsumer := true }
      let store ← w.storeName
      w.log .info ("Worker initialized on store [" ++ store ++ "]")
    else
      let store ← w.storeName
      Act.raise (.runtime ("message store [" ++ store ++ "] did not provide a consumer"))

def giveUp (known : String → String) (unknown : String) (fault : Fault) (inHand : Option Message) :
    Act σ Unit := do
  Act.note (.givingUp fault)
  w.log .fatal (match fault.describe? with
    | some what => known what
    | none => unknown)
  w.retire inHand

def giveUpAcquiring (fault : Fault) : Act σ Unit :=
  w.giveUp ("Initialization failed, deactivating the message processor: " ++ ·)
    "Initialization failed with an unknown error, deactivating the message processor" fault none

def giveUpForwarding (fault : Fault) (inHand : Option Message) : Act σ Unit :=
  w.giveUp ("Deactivating the message processor: " ++ ·)
    "Deactivating the message processor after an unknown error" fault inHand

def pace (begun : Int) : Act σ Bool := do
  let t ← Act.status
  if t.terminated then return false
  Act.onlyIf w.settings.cronMode (w.sleep w.settings.throttleIntervalMs)
  Act.onlyIf (w.settings.pollIntervalMs < pacingLimitMs) (w.sleep w.settings.pollIntervalMs)
  if w.settings.throttle then
    let now ← Act.look w.outside.now
    return now - begun ≤ sliceMs
  else return w.settings.cronMode

/-- The message as it was stored by whoever sent it, without the mark of an earlier run. -/
def unmarked (m : Message) : Message := m.removeProperty Property.blockingSenderError

def cycle (received : Message) (fuel : Nat) : Act σ Unit := do
  let stored := unmarked received
  Act.count Counter.fetched
  match ← Act.catching (w.forward stored fuel) with
  | .ok _ => return
  | .error fault => w.giveUpForwarding fault (some stored)

def turn (begun : Int) (fuel : Nat) : Act σ Bool := do
  Act.setProgress .fresh
  if ← w.isDeactivated then
    Act.setStatus fun t => { t with terminated := true }
    w.log .debug "Exiting worker since the message processor is deactivated"
    return false
  match ← Act.catching w.receive with
  | .ok (some m) =>
    w.cycle m fuel
    w.pace begun
  | .ok none =>
    w.log .debug "No messages were received"
    if w.settings.cronMode then return false
    w.pace begun
  | .error fault =>
    w.giveUpForwarding fault none
    w.pace begun

def turns (begun : Int) : Nat → Act σ Unit
  | 0 => Act.stall
  | fuel + 1 => do
    let t ← Act.status
    Act.onlyIf (t.terminated = false) do
      let more ← w.turn begun fuel
      Act.onlyIf more (turns begun fuel)

def forwardAll (begun : Int) (fuel : Nat) : Act σ Unit := do
  w.turns begun fuel
  w.log .debug "Exiting worker iteration"

/-- A run that is granted `fuel` turns, and as many attempts for each message. -/
def run (fuel : Nat) : Act σ Unit := do
  Act.note .runBegun
  let begun ← Act.look w.outside.now
  let t ← Act.status
  Act.onlyIf t.delayDue w.startupDelay
  if t.holdsConsumer then w.forwardAll begun fuel
  else
    match ← Act.catching w.acquire with
    | .ok _ => w.forwardAll begun fuel
    | .error fault => w.giveUpAcquiring fault

end Courier.Worker
