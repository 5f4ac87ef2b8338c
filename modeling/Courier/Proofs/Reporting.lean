import Courier.Proofs.Deeds

namespace Courier

variable {σ α β : Type}

/-- Two replies of a sender that may differ in how they report a failure of the transport, and in
what has become of the copy that was sent. -/
structure Handled.Restates (R : σ → σ → Prop) (r r' : Handled σ (Option Message)) : Prop where
  outcome : SameReport r.outcome r'.outcome
  asides : r.asides = r'.asides
  world : R r.world r'.world

def Outside.rest (o : Outside σ) : Outside σ :=
  { o with send := fun _ m v => ⟨⟨.ok none, v, []⟩, m⟩, sequence? := fun _ _ => none }

namespace Worker

open Act (Agree Agrees Silent)
open Site (Akin Near Still)

/-- The sequences that the worker calls do not fail, and do nothing that anybody else takes notice
of: they leave the worker alone, and a world that is related to the one they were called in. -/
def Unobtrusive (w : Worker σ) (R : σ → σ → Prop) : Prop :=
  ∀ kind v mediate, R v v → w.registered kind v = some mediate → ∀ m,
    (mediate m v).outcome = .ok () ∧ (∀ a ∈ (mediate m v).asides, ∃ r, a = .log r) ∧
      R v (mediate m v).world

def among (w : Worker σ) (send : Endpoint → Message → σ → Handled σ (Option Message))
    (sequence? : String → σ → Option (Message → σ → Handled σ Unit)) : Worker σ :=
  { w with outside := { w.outside with send, sequence? } }

def sending (w : Worker σ) (send : Endpoint → Message → σ → Handled σ (Option Message)) :
    Worker σ :=
  w.among send w.outside.sequence?

def bare (w : Worker σ) : Worker σ := w.among w.outside.rest.send w.outside.rest.sequence?

section Among

variable (w : Worker σ) (send : Endpoint → Message → σ → Handled σ (Option Message))
  (sequence? : String → σ → Option (Message → σ → Handled σ Unit))

theorem among_hearAll (as : List Aside) : (w.among send sequence?).hearAll as = w.hearAll as := by
  induction as with
  | nil => rfl
  | cons a as ih =>
    rw [hearAll, hearAll, ih]
    rfl

theorem among_heard (r : Reply σ α) (s : Site σ) :
    (w.among send sequence?).heard r s = w.heard r s := by
  rw [heard, heard, among_hearAll]

theorem among_ask (errand : Errand) (c : Call σ α) :
    (w.among send sequence?).ask errand c = w.ask errand c := by
  simp only [ask, call, take, among_hearAll]

theorem among_receive : (w.among send sequence?).receive = w.receive := by
  simp only [receive, among_ask]
  rfl

theorem among_clockSleep (ms : Int) :
    (w.among send sequence?).clockSleep ms = w.clockSleep ms := by
  simp only [clockSleep, among_ask]
  rfl

theorem among_sleep (ms : Int) : (w.among send sequence?).sleep ms = w.sleep ms := by
  simp only [sleep, among_clockSleep]
  rfl

theorem among_pace (begun : Int) : (w.among send sequence?).pace begun = w.pace begun := by
  simp only [pace, among_sleep]
  rfl

theorem among_startupDelay : (w.among send sequence?).startupDelay = w.startupDelay := by
  simp only [startupDelay, among_clockSleep]
  rfl

theorem among_acquire : (w.among send sequence?).acquire = w.acquire := by
  simp only [acquire, createConsumer, storeName, among_ask]
  rfl

theorem among_deactivateOwner : (w.among send sequence?).deactivateOwner = w.deactivateOwner := by
  simp only [deactivateOwner, among_ask]
  rfl

end Among

section Sending

variable (w : Worker σ) (send : Endpoint → Message → σ → Handled σ (Option Message))

theorem sending_mediate (kind : Sequence.Kind) (m : Message) :
    (w.sending send).mediate kind m = w.mediate kind m := by
  simp only [sending, mediate, dispatch, among_ask]
  rfl

theorem sending_retire (inHand : Option Message) :
    (w.sending send).retire inHand = w.retire inHand := by
  have sendOff : (w.sending send).sendOff = w.sendOff := by
    funext m
    simp only [Worker.sendOff, sending_mediate]
    rfl
  simp only [retire, sendOff, show (w.sending send).deactivateOwner = w.deactivateOwner from
    w.among_deactivateOwner ..]

theorem sending_prepareToRetry (working : Message) :
    (w.sending send).prepareToRetry working = w.prepareToRetry working := by
  simp only [prepareToRetry, sending_retire, show (w.sending send).sleep = w.sleep from
    funext (w.among_sleep _ _)]
  rfl

theorem sending_reportFailure (text : String) (atFault : Message) :
    (w.sending send).reportFailure text atFault = w.reportFailure text atFault := by
  simp only [reportFailure, sending_mediate]
  rfl

theorem sending_giveUp (known : String → String) (unknown : String) (fault : Fault)
    (inHand : Option Message) :
    (w.sending send).giveUp known unknown fault inHand = w.giveUp known unknown fault inHand := by
  simp only [giveUp, sending_retire]
  rfl

end Sending

def takeUp (w : Worker σ) (e : Endpoint) (stored working : Message) :
    Except Fault (Option Message) → Act σ Unit
  | .ok (some response) => do
    succeed
    w.judge e stored response working
  | .ok none => do
    succeed
    w.completeDelivery e stored.id
  | .error fault => w.recover e stored fault working

theorem deliverOnce_eq (w : Worker σ) (e : Endpoint) (stored : Message) :
    w.deliverOnce e stored = (do
      if ← w.isAlive then
        let r ← w.send e (w.workingCopy stored)
        w.takeUp e stored r.2 r.1
      else
        w.log .warn ("Store consumer is not alive, message " ++ stored.id ++ " was not sent")
        succeed
        w.completeDelivery e stored.id) := by
  rw [deliverOnce, attempt, bind_assoc]
  refine congrArg (w.isAlive >>= ·) (funext fun alive => ?_)
  cases alive with
  | false => rfl
  | true =>
    simp only [if_true, bind_assoc]
    refine congrArg (w.send e (w.workingCopy stored) >>= ·) (funext fun r => ?_)
    obtain ⟨outcome, working⟩ := r
    rcases outcome with fault | _ | response
    · rfl
    · rfl
    · rfl

theorem sending_takeUp (w : Worker σ)
    (send : Endpoint → Message → σ → Handled σ (Option Message)) (e : Endpoint)
    (stored working : Message) (r : Except Fault (Option Message)) :
    (w.sending send).takeUp e stored working r = w.takeUp e stored working r := by
  match r with
  | .ok (some response) =>
    simp only [takeUp, judge, sending_reportFailure, sending_mediate, sending_prepareToRetry]
    rfl
  | .ok none => rfl
  | .error fault =>
    simp only [takeUp, recover, sending_reportFailure, sending_prepareToRetry]
    rfl

theorem succeed_undone {s : Site σ} (unsettled : s.status.progress.succeeded = false)
    (x : Act σ α) :
    (do
      succeed
      Act.setStatus fun t => { t with progress := { t.progress with succeeded := false } }
      x) s = x s := by
  change x (s.withStatus { s.status with
    progress := { s.status.progress with succeeded := false } }) = x s
  rw [← unsettled]
  rfl

section Unobtrusive

variable {R : σ → σ → Prop} {w : Worker σ}

theorem still_logged {s : Site σ} (h : R s.world s.world) (severity : Severity) (text : String) :
    s.Still R (w.logged severity text s) :=
  (Still.refl h).note rfl

theorem silent_log (severity : Severity) (text : String) : Silent R (w.log severity text) :=
  fun s h => ⟨_, _, w.log_apply severity text s, still_logged h severity text⟩

theorem still_hearAll {as : List Aside} (h : ∀ a ∈ as, ∃ r, a = .log r) {s t : Site σ}
    (hs : s.Still R t) : ∃ u, w.hearAll as t = (.done (), u) ∧ s.Still R u := by
  induction as generalizing t with
  | nil => exact ⟨t, rfl, hs⟩
  | cons a as ih =>
    obtain ⟨r, rfl⟩ := h a (by simp)
    obtain ⟨u, hear, still⟩ := ih (fun a ha => h a (by simp [ha])) (hs.note (e := .log r) rfl)
    exact ⟨u, hear, still⟩

variable (unobtrusive : w.Unobtrusive R)

include unobtrusive

theorem silent_mediate (kind : Sequence.Kind) (m : Message) : Silent R (w.mediate kind m) := by
  intro s h
  cases found : w.registered kind s.world with
  | none =>
    rw [mediate, Act.bind_done (w.dispatch_missing found m)]
    exact ⟨m, _, rfl, ((Still.refl h).note rfl).note rfl⟩
  | some mediate =>
    obtain ⟨outcome, asides, world⟩ := unobtrusive kind s.world mediate h found m
    let begun := (s.note (.dispatching kind m)).note
      (.mediating kind (w.settings.sequence kind) m)
    have entered : s.Still R (begun.withWorld (mediate m s.world).world) :=
      ⟨world, rfl, rfl, (((Still.refl h).note rfl).note rfl).deeds⟩
    obtain ⟨u, hear, still⟩ := still_hearAll (w := w) asides entered
    have dispatch := w.dispatch_found found m
    rw [outcome] at dispatch
    rw [Worker.mediate, Act.bind_done dispatch, answered, outcome, heard, hear]
    exact ⟨_, _, rfl, still.note rfl⟩

theorem silent_sendOff (m : Message) : Silent R (w.sendOff m) := by
  intro s h
  obtain ⟨m', t, mediate, still⟩ := silent_mediate unobtrusive .deactivate m s h
  exact ⟨(), t, by rw [sendOff, Act.bind_done (Act.catching_done mediate)]; rfl, still⟩

theorem still_reportFailure [IsTrans σ R] (text : String) (atFault : Message) {s : Site σ}
    (h : R s.world s.world) :
    ∃ m t, w.reportFailure text atFault s = (.done m, t) ∧
      (s.counted Counter.failures).Still R t := by
  obtain ⟨m, t, mediate, still⟩ := silent_mediate unobtrusive .fault atFault
    ((w.logged .error text s).counted Counter.failures) h
  rw [reportFailure, Act.bind_done (w.log_apply _ _ s), Act.bind_done (Act.count_apply _ _),
    mediate]
  exact ⟨m, t, rfl, ((still_logged h .error text).counted _).trans still⟩

theorem takeUp_final (e : Endpoint) (stored working : Message) {r : Except Fault (Option Message)}
    {cause : String} (failure : transportFailure? r = some cause)
    (final : w.settings.classifier.isNonRetryable cause = true) {s : Site σ}
    (h : R s.world s.world) :
    ∃ q t, w.takeUp e stored working r s = w.settleUndelivered stored.id cause t ∧
      q.asSuccess = s.status.asSuccess ∧ (s.withStatus q).Still R t := by
  match r with
  | .error (.delivery what cause') =>
    obtain rfl : cause' = cause := Option.some.inj failure
    refine ⟨s.status, s, ?_, rfl, .refl h⟩
    simp only [takeUp, recover, Fault.describe?, final, if_true]
  | .ok (some response) =>
    obtain ⟨marked, rfl⟩ := Option.ite_some_none_eq_some.1 failure
    obtain ⟨m, t, mediate, still⟩ := silent_mediate unobtrusive .reply response
      (s.withStatus s.status.asSuccess) h
    refine ⟨s.status.asSuccess, t, ?_, rfl, still⟩
    rw [takeUp, succeed, Act.bind_done (Act.setStatus_apply _ s)]
    simp only [judge, Classifier.classifyResponse, marked, Classifier.classifyError, final, if_true]
    exact Act.bind_done mediate _

theorem takeUp_again [IsTrans σ R] (e : Endpoint) (stored working : Message)
    {r : Except Fault (Option Message)} {cause : String}
    (failure : transportFailure? r = some cause)
    (again : w.settings.classifier.isNonRetryable cause = false) {s : Site σ}
    (unsettled : s.status.progress.succeeded = false) (h : R s.world s.world) :
    ∃ m t, w.takeUp e stored working r s = w.prepareToRetry m t ∧
      (s.counted Counter.failures).Still R t := by
  match r with
  | .error (.delivery what cause') =>
    obtain rfl : cause' = cause := Option.some.inj failure
    obtain ⟨m, t, report, still⟩ := still_reportFailure unobtrusive _ working h
    refine ⟨m, t, ?_, still⟩
    simp only [takeUp, recover, Fault.describe?, again, Bool.false_eq_true, if_false]
    exact Act.bind_done report _
  | .ok (some response) =>
    obtain ⟨marked, rfl⟩ := Option.ite_some_none_eq_some.1 failure
    obtain ⟨m, t, report, still⟩ := still_reportFailure unobtrusive _ response h
    refine ⟨working, t, ?_, still⟩
    simp only [takeUp, judge, Classifier.classifyResponse, marked, Classifier.classifyError, again,
      Bool.false_eq_true, if_false, if_true]
    exact (succeed_undone unsettled _).trans (Act.bind_done report _)

end Unobtrusive

section Consequences

variable {R : σ → σ → Prop} {w : Worker σ} (blind : w.outside.rest.Blind R)

include blind

theorem agree_of_composed {x : Act σ α} (h : w.bare.Composed x) : Agree R x x :=
  .of_respects h.built (respects_of_composed blind h)

theorem agree_sleep (ms : Int) : Agree R (w.sleep ms) (w.sleep ms) := by
  rw [← w.among_sleep w.outside.rest.send w.outside.rest.sequence?]
  exact agree_of_composed blind (w.bare.composed_sleep ms)

theorem agree_deactivateOwner : Agree R w.deactivateOwner w.deactivateOwner := by
  rw [← w.among_deactivateOwner w.outside.rest.send w.outside.rest.sequence?]
  exact agree_of_composed blind .deactivateOwner

theorem akin_heard {r r' : Reply σ α} (asides : r.asides = r'.asides) (world : R r.world r'.world)
    {s s' : Site σ} (h : s.Akin R s') : (w.heard r s).Akin R (w.heard r' s') := by
  have hears : Agree R (w.bare.hearAll r'.asides) (w.bare.hearAll r'.asides) :=
    .of_respects (w.bare.built_hearAll _) (respects_hearAll blind _)
  rw [bare, among_hearAll] at hears
  rw [heard, heard, asides]
  exact (hears _ _ (h.withWorld world)).site

theorem still_acknowledge (id : String) {s : Site σ} (h : R s.world s.world) :
    ∃ t, w.acknowledge id s = (.done (), t) ∧
      ((s.withWorld (w.outside.acknowledge s.world).2).note
        (.acknowledged (w.outside.acknowledge s.world).1)).Still R t := by
  have entered := (blind.acknowledge h).2
  rw [acknowledge, Act.bind_done (Act.query_apply _ s), Act.bind_done (Act.note_apply _ _),
    Act.onlyIf_apply]
  split
  · exact ⟨_, rfl, still_logged entered _ _⟩
  · exact ⟨_, rfl, .refl entered⟩

variable [Std.Symm R] [IsTrans σ R]

theorem agree_acknowledge (id id' : String) : Agree R (w.acknowledge id) (w.acknowledge id') := by
  intro s s' h
  obtain ⟨t, ack, still⟩ := still_acknowledge blind id h.near.refl_left
  obtain ⟨t', ack', still'⟩ := still_acknowledge blind id' h.near.refl_right
  obtain ⟨accepted, world⟩ := blind.acknowledge h.world
  change (w.outside.acknowledge s.world).1 = (w.outside.acknowledge s'.world).1 at accepted
  rw [ack, ack']
  rw [← accepted] at still'
  exact ⟨rfl, ((h.withWorld world).note rfl rfl (.inl rfl)).still still still'⟩

/-- A message is settled in the same way whether or not its success has been noted before. -/
theorem agrees_settle (id : String) {s s' : Site σ} (h : s.Near R s') :
    Agrees R (w.settle id s) (w.settle id s') := by
  obtain ⟨t, ack, still⟩ := still_acknowledge blind id h.refl_left
  obtain ⟨t', ack', still'⟩ := still_acknowledge blind id h.refl_right
  obtain ⟨accepted, world⟩ := blind.acknowledge h.world
  change (w.outside.acknowledge s.world).1 = (w.outside.acknowledge s'.world).1 at accepted
  rw [settle, Act.bind_done ack, Act.bind_done ack']
  rw [← accepted] at still'
  exact ⟨rfl, (((h.withWorld world).acknowledged _).still still still').settled _⟩

theorem agrees_settleUndelivered (id reason : String) {s s' : Site σ} (h : s.Near R s') :
    Agrees R (w.settleUndelivered id reason s) (w.settleUndelivered id reason s') :=
  (agrees_settle blind id h).bind fun _ =>
    agree_of_composed blind (.bind (.count _) fun _ => .log _ _)

variable (unobtrusive : w.Unobtrusive R)

include unobtrusive

omit blind in
theorem agree_mediate (kind : Sequence.Kind) (m m' : Message) {f f' : Message → Act σ β}
    (hf : ∀ m m', Agree R (f m) (f' m')) :
    Agree R (w.mediate kind m >>= f) (w.mediate kind m' >>= f') :=
  .silent_bind (silent_mediate unobtrusive kind m) (silent_mediate unobtrusive kind m') hf

omit blind in
theorem agree_reportFailure (text text' : String) (m m' : Message)
    {f f' : Message → Act σ Unit} (hf : ∀ m m', Agree R (f m) (f' m')) :
    Agree R (w.reportFailure text m >>= f) (w.reportFailure text' m' >>= f') := by
  intro s s' h
  obtain ⟨n, t, report, still⟩ := still_reportFailure unobtrusive text m h.near.refl_left
  obtain ⟨n', t', report', still'⟩ := still_reportFailure unobtrusive text' m' h.near.refl_right
  rw [Act.bind_done report, Act.bind_done report']
  exact hf n n' t t' ((h.counted _).still still still')

theorem agree_retire (inHand inHand' : Option Message) :
    Agree R (w.retire inHand) (w.retire inHand') := by
  have silent (inHand : Option Message) : Silent R (inHand.forM w.sendOff) := by
    cases inHand with
    | none => exact fun s h => ⟨(), s, rfl, .refl h⟩
    | some m => exact silent_sendOff unobtrusive m
  refine .bind (.of_silent (silent inHand) (silent inHand')) fun _ => ?_
  exact .bind (agree_of_composed blind .stop) fun _ =>
    .bind (agree_deactivateOwner blind) fun _ => agree_of_composed blind (.count _)

theorem agree_prepareToRetry (m m' : Message) :
    Agree R (w.prepareToRetry m) (w.prepareToRetry m') := by
  have log (severity : Severity) (text text' : String) :
      Agree R (w.log severity text) (w.log severity text') :=
    .of_silent (silent_log severity text) (silent_log severity text')
  refine .status_bind fun t => .bind (agree_of_composed blind (.setProgress _)) fun _ => ?_
  split
  · exact .pure ()
  · exact (agree_acknowledge blind _ _).bind fun _ =>
      (agree_of_composed blind (.count _)).bind fun _ => log _ _ _
  · exact (agree_of_composed blind .terminate).bind fun _ =>
      (agree_retire blind unobtrusive _ _).bind fun _ => log _ _ _
  · exact (log _ _ _).bind fun _ => agree_sleep blind _

theorem agree_takeUp (e : Endpoint) (stored working working' : Message)
    (r : Except Fault (Option Message)) :
    Agree R (w.takeUp e stored working r) (w.takeUp e stored working' r) := by
  have retry (m m' : Message) := agree_prepareToRetry blind unobtrusive m m'
  have completed : Agree R (w.completeDelivery e stored.id) (w.completeDelivery e stored.id) :=
    agree_of_composed blind (w.bare.composed_completeDelivery _ _)
  have turnedDown (reason : String) :
      Agree R (w.settleUndelivered stored.id reason) (w.settleUndelivered stored.id reason) :=
    agree_of_composed blind (w.bare.composed_settleUndelivered _ _)
  match r with
  | .ok none => exact (agree_of_composed blind .succeed).bind fun _ => completed
  | .ok (some response) =>
    refine .bind (agree_of_composed blind .succeed) fun _ => ?_
    rw [judge, judge]
    dsimp only
    split
    · exact agree_mediate unobtrusive .reply _ _ fun _ _ => completed
    · exact agree_mediate unobtrusive .reply _ _ fun _ _ => turnedDown _
    · exact .bind (agree_of_composed blind (.setStatus _ fun _ => .of_eq rfl rfl rfl)) fun _ =>
        agree_reportFailure unobtrusive _ _ _ _ fun _ _ => retry _ _
  | .error fault =>
    have again (text : String) := agree_reportFailure unobtrusive text text working working' retry
    rw [takeUp, takeUp, recover, recover]
    split
    · exact agree_of_composed blind (.raise _)
    · dsimp only
      split
      · split
        · exact turnedDown _
        · exact again _
      · exact again _

theorem agrees_takeUp (e : Endpoint) (stored working working' : Message)
    {r r' : Except Fault (Option Message)} (same : SameReport r r') {s s' : Site σ}
    (h : s.Akin R s') (unsettled : s.status.progress.succeeded = false) :
    Agrees R (w.takeUp e stored working r s) (w.takeUp e stored working' r' s') := by
  rcases same with rfl | ⟨cause, failure, failure'⟩
  · exact agree_takeUp blind unobtrusive e stored working working' r s s' h
  have refl := h.near.refl_left
  have refl' := h.near.refl_right
  cases final : w.settings.classifier.isNonRetryable cause with
  | true =>
    obtain ⟨q, t, settle, hq, still⟩ :=
      takeUp_final unobtrusive e stored working failure final refl
    obtain ⟨q', t', settle', hq', still'⟩ :=
      takeUp_final unobtrusive e stored working' failure' final refl'
    rw [settle, settle']
    have near : t.Near R t' := (h.near.withStatus hq hq').still still still'
    exact agrees_settleUndelivered blind stored.id cause near
  | false =>
    have unsettled' : s'.status.progress.succeeded = false := by rw [← h.status, unsettled]
    obtain ⟨m, t, retry, still⟩ :=
      takeUp_again unobtrusive e stored working failure final unsettled refl
    obtain ⟨m', t', retry', still'⟩ :=
      takeUp_again unobtrusive e stored working' failure' final unsettled' refl'
    rw [retry, retry']
    exact agree_prepareToRetry blind unobtrusive m m' t t' ((h.counted _).still still still')

end Consequences

section Course

variable {R : σ → σ → Prop} {w : Worker σ} (blind : w.outside.rest.Blind R)
  {send' : Endpoint → Message → σ → Handled σ (Option Message)}
  (restates : ∀ e m v v', R v v' → (w.outside.send e m v).Restates R (send' e m v'))

include blind restates

theorem akin_send (e : Endpoint) (m : Message) {s s' : Site σ} (h : s.Akin R s') :
    ∃ r r' t t', w.send e m s = (.done r, t) ∧ (w.sending send').send e m s' = (.done r', t') ∧
      SameReport r.1 r'.1 ∧ t.Akin R t' ∧ t.status.progress = s.status.progress := by
  obtain ⟨same, asides, world⟩ := restates e m _ _ h.world
  refine ⟨_, _, _, _, w.send_apply e m s, (w.sending send').send_apply e m s', same, ?_, ?_⟩
  · have begun : (s.note (.sending e m)).Akin R (s'.note (.sending e m)) :=
      h.note rfl rfl (.inl rfl)
    rw [answered, answered, sending, among_heard]
    exact (akin_heard blind asides world begun).note (Event.silent_exchange _)
      (Event.silent_exchange _)
      (.inr ⟨_, _, Event.exchange?_closing _, Event.exchange?_closing _, same⟩)
  · obtain ⟨ms, spell, -⟩ := w.spell_heard (w.outside.send e m s.world).toReply
      (s.note (.sending e m))
    exact spell.progress

variable [Std.Symm R] [IsTrans σ R] (unobtrusive : w.Unobtrusive R)

include unobtrusive

theorem agrees_deliverOnce (e : Endpoint) (stored : Message) {s s' : Site σ} (h : s.Akin R s')
    (unsettled : s.status.progress.succeeded = false) :
    Agrees R (w.deliverOnce e stored s) ((w.sending send').deliverOnce e stored s') := by
  rw [deliverOnce_eq, deliverOnce_eq]
  have asked : w.isAlive s = (.done (w.outside.isAlive s.world),
    s.note (.consumerAsked (w.outside.isAlive s.world))) := rfl
  have asked' : (w.sending send').isAlive s' = (.done (w.outside.isAlive s'.world),
    s'.note (.consumerAsked (w.outside.isAlive s'.world))) := rfl
  have alive : w.outside.isAlive s.world = w.outside.isAlive s'.world := blind.isAlive h.world
  rw [Act.bind_done asked, Act.bind_done asked', ← alive]
  have begun : (s.note (.consumerAsked (w.outside.isAlive s.world))).Akin R
      (s'.note (.consumerAsked (w.outside.isAlive s.world))) := h.note rfl rfl (.inl rfl)
  split
  · obtain ⟨r, r', t, t', sent, sent', same, site, progress⟩ :=
      akin_send blind restates e (w.workingCopy stored) begun
    have copy : (w.sending send').workingCopy stored = w.workingCopy stored := rfl
    rw [Act.bind_done sent, copy, Act.bind_done sent', sending_takeUp]
    exact agrees_takeUp blind unobtrusive e stored _ _ same site (by rw [progress]; exact unsettled)
  · have passed : w.bare.Composed (do
        w.bare.log .warn ("Store consumer is not alive, message " ++ stored.id ++ " was not sent")
        succeed
        w.bare.completeDelivery e stored.id) :=
      .bind (.log _ _) fun _ => .bind .succeed fun _ => w.bare.composed_completeDelivery _ _
    exact agree_of_composed blind passed _ _ begun

theorem agree_deliver (e : Endpoint) (stored : Message) (fuel : Nat) :
    Agree R (w.deliver e stored fuel) ((w.sending send').deliver e stored fuel) := by
  induction fuel with
  | zero => exact .stall
  | succ fuel ih =>
    intro s s' h
    rw [deliver, deliver, Act.bind_done (Act.status_apply s), Act.bind_done (Act.status_apply s'),
      Act.onlyIf_apply, Act.onlyIf_apply, ← h.status]
    split
    next due =>
      exact (agrees_deliverOnce blind restates unobtrusive e stored h due.1).bind fun _ => ih
    next => exact ⟨rfl, h⟩

theorem agree_forward (stored : Message) (fuel : Nat) :
    Agree R (w.forward stored fuel) ((w.sending send').forward stored fuel) := by
  refine .bind (agree_of_composed blind (.log _ _)) fun _ =>
    .bind (agree_of_composed blind (w.bare.composed_resolveTarget stored)) fun target => ?_
  cases target with
  | some e => exact agree_deliver blind restates unobtrusive e stored fuel
  | none =>
    exact agree_of_composed blind
      (.bind (.log _ _) fun _ => .bind (.count _) fun _ => .acknowledge _)

omit restates in
theorem agree_giveUp (known : String → String) (unknown : String) (fault : Fault)
    (inHand : Option Message) :
    Agree R (w.giveUp known unknown fault inHand)
      ((w.sending send').giveUp known unknown fault inHand) := by
  rw [sending_giveUp]
  exact .bind (agree_of_composed blind (.givingUp fault)) fun _ =>
    .bind (agree_of_composed blind (.log _ _)) fun _ => agree_retire blind unobtrusive _ _

theorem agree_attend (fuel : Nat) (r : Except Fault (Option Message)) :
    Agree R (w.attend fuel r) ((w.sending send').attend fuel r) := by
  match r with
  | .ok (some m) =>
    refine .bind (agree_of_composed blind (.count _)) fun _ =>
      .bind (agree_forward blind restates unobtrusive _ fuel).catching fun r => ?_
    cases r with
    | ok _ => exact .pure _
    | error fault => exact agree_giveUp blind unobtrusive _ _ fault _
  | .ok none => exact agree_of_composed blind (.log _ _)
  | .error fault => exact agree_giveUp blind unobtrusive _ _ fault none

theorem agree_work (fuel : Nat) : Agree R (w.work fuel) ((w.sending send').work fuel) := by
  refine .bind (agree_of_composed blind (.setProgress _)) fun _ =>
    .bind (agree_of_composed blind .isDeactivated) fun deactivated => ?_
  split
  · exact agree_of_composed blind (.bind .stop fun _ => .bind (.log _ _) fun _ => .pure _)
  · intro s s' h
    have reply := blind.receive h.world
    have outcome : cleared (w.outside.receive s.world).outcome =
      cleared (w.outside.receive s'.world).outcome := reply.outcome
    have received : (w.sending send').receive = w.receive := w.among_receive _ _
    rw [received, Act.bind_done (Act.catching_ofExcept (w.receive_apply s)),
      Act.bind_done (Act.catching_ofExcept (w.receive_apply s')),
      (w.sending send').attend_congr outcome.symm, w.drained_congr outcome]
    refine ((agree_attend blind restates unobtrusive fuel _).bind fun _ => .pure _) _ _ ?_
    have called : (s.note .receiving).Akin R (s'.note .receiving) := h.note rfl rfl (.inl rfl)
    exact (akin_heard blind reply.asides reply.world called).note (Event.silent_fetch _)
      (Event.silent_fetch _) (.inl (received_unmarked outcome))

theorem agree_turn (begun : Int) (fuel : Nat) :
    Agree R (w.turn begun fuel) ((w.sending send').turn begun fuel) := by
  rw [turn_eq, turn_eq]
  refine (agree_work blind restates unobtrusive fuel).bind fun goesOn => ?_
  split
  · rw [sending, among_pace, ← w.among_pace w.outside.rest.send w.outside.rest.sequence?]
    exact agree_of_composed blind (w.bare.composed_pace begun)
  · exact .pure _

theorem agree_forwardAll (begun : Int) (fuel : Nat) :
    Agree R (w.forwardAll begun fuel) ((w.sending send').forwardAll begun fuel) := by
  have turns (n : Nat) : Agree R (w.turns begun n) ((w.sending send').turns begun n) := by
    induction n with
    | zero => exact .stall
    | succ n ih =>
      exact .status_bind fun t => .onlyIf _
        ((agree_turn blind restates unobtrusive begun n).bind fun _ => .onlyIf _ ih)
  exact (turns fuel).bind fun _ => agree_of_composed blind (.log _ _)

theorem agree_run (fuel : Nat) : Agree R (w.run fuel) ((w.sending send').run fuel) := by
  have all (begun : Int) := agree_forwardAll blind restates unobtrusive begun fuel
  refine .bind (agree_of_composed blind .runBegun) fun _ =>
    .bind (agree_of_composed blind .now) fun begun => .status_bind fun t => .bind ?_ fun _ => ?_
  · rw [sending, among_startupDelay,
      ← w.among_startupDelay w.outside.rest.send w.outside.rest.sequence?]
    exact .onlyIf _ (agree_of_composed blind w.bare.composed_startupDelay)
  · split
    · exact all begun
    · have acquire : Agree R w.acquire (w.sending send').acquire := by
        rw [sending, among_acquire, ← w.among_acquire w.outside.rest.send w.outside.rest.sequence?]
        exact agree_of_composed blind w.bare.composed_acquire
      refine .bind acquire.catching fun r => ?_
      cases r with
      | ok _ => exact all begun
      | error fault => exact agree_giveUp blind unobtrusive _ _ fault none

theorem agree_live (visits : List (Visit σ))
    (moves : ∀ f, .meanwhile f ∈ visits → ∀ v v', R v v' → R (f v) (f v')) :
    Agree R (w.live visits) ((w.sending send').live visits) := by
  induction visits with
  | nil => exact .pure _
  | cons v vs ih =>
    have later := ih fun f hv => moves f (List.mem_cons_of_mem _ hv)
    refine (Agree.catching ?_).bind fun _ => later
    cases v with
    | run fuel => exact agree_run blind restates unobtrusive fuel
    | terminate => exact agree_of_composed blind .terminate
    | destroy => exact agree_of_composed blind .terminate
    | meanwhile f => exact fun _ _ h => ⟨rfl, h.withWorld (moves f (by simp) _ _ h.world)⟩

end Course

/-- A failure of the transport has the same consequences whichever way it is reported. Let two
senders do the same, except that where one of them raises a failure of the transport the other may
return a response that is marked with its cause, or the reverse. Then whatever the worker is put
through, it fetches, sends, acknowledges, sleeps and deactivates its owner alike with both, and it
leaves the same status, the same counters and worlds that are related. -/
theorem reports_alike (w : Worker σ) (R : σ → σ → Prop) [Std.Symm R] [IsTrans σ R]
    (send' : Endpoint → Message → σ → Handled σ (Option Message))
    (blind : w.outside.rest.Blind R) (unobtrusive : w.Unobtrusive R)
    (restates : ∀ e m v v', R v v' → (w.outside.send e m v).Restates R (send' e m v'))
    (world world' : σ) (related : R world world') (visits : List (Visit σ))
    (moves : ∀ f, .meanwhile f ∈ visits → ∀ v v', R v v' → R (f v) (f v')) :
    Agrees R (w.live visits (w.fresh world))
      ((w.sending send').live visits ((w.sending send').fresh world')) :=
  agree_live blind restates unobtrusive visits moves _ _ (.fresh related _)

theorem reports_alike_refused :
    let settings : Settings := {
      processorName := "refused", targetEndpoint := "backend", maxAttempts := 2
      retryIntervalMs := 10, throttle := false, nonRetryTokens := ["404"]
      dropOnMaxAttempts := true, replySequence := "sign", faultSequence := "sign" }
    let cause (m : Message) : String := if m.id = "1" then "404" else "503"
    let outside : Outside (List Message) := { Outside.plain (.ok none) [] with
      send := fun _ m v => ⟨⟨.error (.delivery "no exchange" (cause m)), v, []⟩, m⟩
      sequence? := fun name _ => some fun m v =>
        ⟨⟨.ok (), v, [.log ⟨.info, "signed"⟩]⟩, m.setProperty "SIGNED" name⟩ }
    let response (m : Message) : Message :=
      ((m.setProperty Property.httpStatus "200").setProperty Property.errorMessage
        (cause m)).setProperty Property.blockingSenderError "true"
    let marks (_ : Endpoint) (m : Message) (v : List Message) :
        Handled (List Message) (Option Message) := ⟨⟨.ok (some (response m)), v, []⟩, m⟩
    let w : Worker (List Message) := ⟨settings, outside⟩
    let stored : List Message := [⟨"1", ∅, .null⟩, ⟨"2", ∅, .null⟩]
    let visits : List (Visit (List Message)) := [.run 3, .run 3]
    w.outside.rest.Blind Eq ∧ w.Unobtrusive Eq ∧
      (∀ e m v v', v = v' → (w.outside.send e m v).Restates Eq (marks e m v')) ∧
      (w.history stored visits).world = [] ∧
      tally Event.sends (w.history stored visits).moments = 3 ∧
      Agrees Eq (w.live visits (w.fresh stored))
        ((w.sending marks).live visits ((w.sending marks).fresh stored)) := by
  intro settings cause outside response marks w stored visits
  have blind : w.outside.rest.Blind Eq := .eq _
  have unobtrusive : w.Unobtrusive Eq := by
    intro kind v mediate _ found m
    obtain rfl : _ = mediate := (Option.ite_none_left_eq_some.1 found).2 |> Option.some.inj
    exact ⟨rfl, by simp, rfl⟩
  have restates : ∀ e m v v', v = v' → (w.outside.send e m v).Restates Eq (marks e m v') := by
    rintro e m v _ rfl
    refine ⟨.inr ⟨cause m, rfl, ?_⟩, rfl, rfl⟩
    have marked : (response m).property Property.blockingSenderError = "true" := by
      simp [response, Message.property, Message.property?_setProperty]
    have told : (response m).property Property.errorMessage = cause m := by
      simp [response, Message.property, Message.property?_setProperty,
        Property.blockingSenderError, Property.errorMessage]
    change (if _ then _ else _) = _
    rw [if_pos marked, told]
  refine ⟨blind, unobtrusive, restates, by decide +kernel, by decide +kernel, ?_⟩
  exact reports_alike w Eq marks blind unobtrusive restates stored stored rfl visits
    (by simp [visits])

end Worker

end Courier
