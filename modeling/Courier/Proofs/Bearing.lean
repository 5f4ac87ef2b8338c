import Courier.Proofs.History

namespace Courier

variable {σ α : Type}

/-- Settings that come to the same for a worker, but for whether it throttles itself. -/
structure Settings.Alike (s s' : Settings) : Prop where
  processorName : s.processorName = s'.processorName
  targetEndpoint : s.targetEndpoint = s'.targetEndpoint
  sequence : s.sequence = s'.sequence
  retryPolicy : s.retryPolicy = s'.retryPolicy
  isNonRetryable : s.classifier.isNonRetryable = s'.classifier.isNonRetryable
  classifyResponse : s.classifier.classifyResponse = s'.classifier.classifyResponse
  nonErrorStatusText : s.classifier.nonErrorStatusText = s'.classifier.nonErrorStatusText
  complaints : s.complaints = s'.complaints
  startupDelayMs : s.startupDelayMs = s'.startupDelayMs
  cronMode : s.cronMode = s'.cronMode
  throttleIntervalMs : s.throttleIntervalMs = s'.throttleIntervalMs
  pollIntervalMs : s.pollIntervalMs = s'.pollIntervalMs

namespace Worker

variable (w : Worker σ)

def under (s : Settings) : Worker σ := { w with settings := s }

section Steps

variable (s : Settings)

theorem under_settings : (w.under s).settings = s := rfl

theorem under_outside : (w.under s).outside = w.outside := rfl

theorem under_log (severity : Severity) (text : String) :
    (w.under s).log severity text = w.log severity text := rfl

theorem under_terminate : (w.under s).terminate = w.terminate := rfl

theorem under_hearAll (as : List Aside) : (w.under s).hearAll as = w.hearAll as := by
  induction as with
  | nil => rfl
  | cons a as ih =>
    rw [hearAll, hearAll, ih]
    rfl

theorem under_ask (errand : Errand) (c : Call σ α) :
    (w.under s).ask errand c = w.ask errand c := by
  simp only [ask, call, take, under_hearAll]

theorem under_createConsumer : (w.under s).createConsumer = w.createConsumer := by
  simp only [createConsumer, under_outside, under_ask]

theorem under_storeName : (w.under s).storeName = w.storeName := by
  simp only [storeName, under_outside, under_ask]

theorem under_receive : (w.under s).receive = w.receive := by
  simp only [receive, under_outside, under_ask]

theorem under_acknowledge (id : String) : (w.under s).acknowledge id = w.acknowledge id := rfl

theorem under_clockSleep (ms : Int) : (w.under s).clockSleep ms = w.clockSleep ms := by
  simp only [clockSleep, under_outside, under_ask]

theorem under_sleep (ms : Int) : (w.under s).sleep ms = w.sleep ms := by
  simp only [sleep, under_clockSleep, under_log]

theorem under_deactivateOwner : (w.under s).deactivateOwner = w.deactivateOwner := by
  simp only [deactivateOwner, under_outside, under_ask]

end Steps

section Alike

variable {w} {s : Settings} (h : s.Alike w.settings)

include h

theorem under_mediate (kind : Sequence.Kind) (m : Message) :
    (w.under s).mediate kind m = w.mediate kind m := by
  simp only [mediate, dispatch, under_settings, under_outside, under_ask, h.sequence,
    h.processorName]

theorem under_retire (inHand : Option Message) : (w.under s).retire inHand = w.retire inHand := by
  have sendOff : (w.under s).sendOff = w.sendOff := by
    funext m
    simp only [Worker.sendOff, under_mediate h, under_log]
  simp only [retire, sendOff, under_deactivateOwner]

theorem under_prepareToRetry (working : Message) :
    (w.under s).prepareToRetry working = w.prepareToRetry working := by
  simp only [prepareToRetry, under_settings, under_acknowledge, under_log, under_terminate,
    under_sleep, under_retire h, h.retryPolicy]

theorem under_deliverOnce (e : Endpoint) (stored : Message) :
    (w.under s).deliverOnce e stored = w.deliverOnce e stored := by
  simp only [deliverOnce, attempt, isAlive, send, workingCopy, judge, recover, reportFailure,
    completeDelivery, settleUndelivered, settle, under_settings, under_outside, under_ask,
    under_acknowledge, under_log, under_mediate h, under_prepareToRetry h, h.isNonRetryable,
    h.classifyResponse, h.nonErrorStatusText]

theorem under_deliver (e : Endpoint) (stored : Message) (fuel : Nat) :
    (w.under s).deliver e stored fuel = w.deliver e stored fuel := by
  induction fuel with
  | zero => rfl
  | succ fuel ih => rw [deliver, deliver, ih, under_deliverOnce h]

theorem under_resolveTarget (m : Message) :
    (w.under s).resolveTarget m = w.resolveTarget m := by
  have name : (w.under s).targetName m = w.targetName m := by
    simp only [targetName, under_settings, h.targetEndpoint]
  rw [resolveTarget, resolveTarget, name]
  rfl

theorem under_cycle (m : Message) (fuel : Nat) :
    (w.under s).cycle m fuel = w.cycle m fuel := by
  simp only [cycle, forward, giveUpForwarding, giveUp, under_acknowledge, under_log,
    under_resolveTarget h, under_deliver h, under_retire h]

theorem under_giveUp (known : String → String) (unknown : String) (fault : Fault)
    (inHand : Option Message) :
    (w.under s).giveUp known unknown fault inHand = w.giveUp known unknown fault inHand := by
  simp only [giveUp, under_log, under_retire h]

theorem under_startupDelay : (w.under s).startupDelay = w.startupDelay := by
  simp only [startupDelay, under_settings, under_clockSleep, under_log, h.startupDelayMs]

theorem under_acquire : (w.under s).acquire = w.acquire := by
  simp only [acquire, under_settings, under_createConsumer, under_storeName, under_log,
    h.complaints]

variable (throttle : s.throttle = w.settings.throttle)

include throttle

theorem under_pace (begun : Int) : (w.under s).pace begun = w.pace begun := by
  have sleep : (w.under s).sleep = w.sleep := funext (w.under_sleep s)
  rw [pace, pace, sleep, under_settings, under_outside, h.cronMode, h.throttleIntervalMs,
    h.pollIntervalMs, throttle]

theorem under_turn (begun : Int) (fuel : Nat) :
    (w.under s).turn begun fuel = w.turn begun fuel := by
  simp only [turn, isDeactivated, giveUpForwarding, under_settings, under_outside, under_receive,
    under_log, under_cycle h, under_giveUp h, under_pace h throttle, h.cronMode]

theorem under_turns (begun : Int) (fuel : Nat) :
    (w.under s).turns begun fuel = w.turns begun fuel := by
  induction fuel with
  | zero => rfl
  | succ fuel ih => rw [turns, turns, ih, under_turn h throttle]

theorem under_run (fuel : Nat) : (w.under s).run fuel = w.run fuel := by
  simp only [run, forwardAll, giveUpAcquiring, under_outside, under_log, under_startupDelay h,
    under_acquire h, under_giveUp h, under_turns h throttle]

theorem under_live (visits : List (Visit σ)) : (w.under s).live visits = w.live visits := by
  induction visits with
  | nil => rfl
  | cons v vs ih =>
    have visit : (w.under s).receiveVisit v = w.receiveVisit v := by
      cases v with
      | run fuel => exact under_run h throttle fuel
      | terminate => rfl
      | destroy => rfl
      | meanwhile f => rfl
    rw [live, live, visit, ih]

end Alike

end Worker

end Courier
