import Courier.Proofs.Act
import Courier.Worker.Run

/-!
A worker does nothing but take single steps, one after the other. What is said of every single step
is therefore said of a whole run, by one induction on how the run is put together. The steps in turn
are made of elementary actions, none of which takes back a change of status or looks at the journal.
-/

namespace Courier

variable {σ α β : Type}

structure Status.Onward (t t' : Status) : Prop where
  terminated : t.terminated ≤ t'.terminated
  holdsConsumer : t.holdsConsumer ≤ t'.holdsConsumer
  delayDue : t'.delayDue ≤ t.delayDue

theorem Status.Onward.of_eq {t t' : Status} (terminated : t'.terminated = t.terminated)
    (holdsConsumer : t'.holdsConsumer = t.holdsConsumer) (delayDue : t'.delayDue = t.delayDue) :
    t.Onward t' :=
  ⟨Bool.le_of_eq terminated.symm, Bool.le_of_eq holdsConsumer.symm, Bool.le_of_eq delayDue⟩

theorem Status.Onward.refl (t : Status) : t.Onward t := .of_eq rfl rfl rfl

theorem Status.Onward.trans {t t' t'' : Status} (h : t.Onward t') (k : t'.Onward t'') :
    t.Onward t'' :=
  ⟨Bool.le_trans h.terminated k.terminated, Bool.le_trans h.holdsConsumer k.holdsConsumer,
    Bool.le_trans k.delayDue h.delayDue⟩

theorem Status.Onward.held {t t' : Status} (h : t.Onward t') (held : t.holdsConsumer = true) :
    t'.holdsConsumer = true :=
  Bool.le_antisymm (Bool.le_true _) (held ▸ h.holdsConsumer)

theorem Status.Onward.bare {t t' : Status} (h : t.Onward t') (bare : t'.holdsConsumer = false) :
    t.holdsConsumer = false :=
  Bool.le_antisymm (bare ▸ h.holdsConsumer) (Bool.false_le _)

theorem Status.Onward.stopped {t t' : Status} (h : t.Onward t') (up : t.terminated = true) :
    t'.terminated = true :=
  Bool.le_antisymm (Bool.le_true _) (up ▸ h.terminated)

def Site.onto (past : List (Moment σ)) (s : Site σ) : Site σ :=
  { s with journal := s.journal ++ past }

namespace Act

/-- The actions that are put together from elementary ones. -/
inductive Built : {α : Type} → Act σ α → Prop
  | pure {α : Type} (a : α) : Built (Pure.pure a)
  | raise {α : Type} (fault : Fault) : Built (raise (α := α) fault)
  | stall {α : Type} : Built (stall (α := α))
  | bind {α β : Type} {x : Act σ α} {f : α → Act σ β} : Built x → (∀ a, Built (f a)) →
      Built (x >>= f)
  | catching {α : Type} {x : Act σ α} : Built x → Built (catching x)
  | status : Built status
  | setStatus (f : Status → Status) : (∀ t : Status, t.Onward (f t)) → Built (setStatus f)
  | count (counter : String) : Built (count counter)
  | note (e : Event) : Built (note e)
  | look {α : Type} (f : σ → α) : Built (look f)
  | query {α : Type} (q : σ → α × σ) : Built (query q)
  | move (f : σ → σ) : Built (change fun s => { s with world := f s.world })

namespace Built

variable {x : Act σ α}

theorem ofExcept (r : Except Fault α) : Built (ofExcept r : Act σ α) := by
  cases r with
  | ok a => exact .pure a
  | error fault => exact .raise fault

theorem onlyIf (c : Prop) [Decidable c] {x : Act σ Unit} (h : Built x) : Built (onlyIf c x) := by
  rw [Act.onlyIf]
  split
  · exact h
  · exact .pure ()

theorem onward (h : Built x) (s : Site σ) : s.status.Onward (x s).2.status := by
  induction h generalizing s with
  | @bind _ _ x f _ _ ihx ihf =>
    have first := ihx s
    match hs : x s with
    | (.done a, t) =>
      rw [hs] at first
      rw [bind_done hs]
      exact first.trans (ihf a t)
    | (.raised fault, t) =>
      rw [bind_raised hs]
      rwa [hs] at first
    | (.unfinished, t) =>
      rw [bind_unfinished hs]
      rwa [hs] at first
  | catching _ ih =>
    rw [catching_site]
    exact ih s
  | setStatus f hf => exact hf s.status
  | _ => exact .refl s.status

theorem onto (h : Built x) (past : List (Moment σ)) (s : Site σ) :
    x (s.onto past) = ((x s).1, (x s).2.onto past) := by
  induction h generalizing s with
  | @bind _ _ x f _ _ ihx ihf =>
    have first := ihx s
    match hs : x s with
    | (.done a, t) =>
      rw [hs] at first
      rw [bind_done hs, bind_done first]
      exact ihf a t
    | (.raised fault, t) =>
      rw [hs] at first
      rw [bind_raised hs, bind_raised first]
    | (.unfinished, t) =>
      rw [hs] at first
      rw [bind_unfinished hs, bind_unfinished first]
  | @catching _ x _ ih =>
    have first := ih s
    match hs : x s with
    | (.done a, t) =>
      rw [hs] at first
      rw [catching_done hs, catching_done first]
    | (.raised fault, t) =>
      rw [hs] at first
      rw [catching_raised hs, catching_raised first]
    | (.unfinished, t) =>
      rw [hs] at first
      rw [catching_unfinished hs, catching_unfinished first]
  | _ => rfl

theorem shown (h : Built x) (s : Site σ) : ∃ ms, (x s).2.moments = s.moments ++ ms := by
  let bare : Site σ := ⟨s.world, s.status, s.counters, []⟩
  have onto : x s = ((x bare).1, (x bare).2.onto s.journal) := h.onto s.journal bare
  refine ⟨(x bare).2.moments, ?_⟩
  rw [onto]
  exact List.reverse_append

end Built

end Act

namespace Worker

def cleared (r : Except Fault (Option Message)) : Except Fault (Option Message) :=
  r.map (Option.map unmarked)

/-- The actions that are put together from the single steps of a worker. What follows on a fetch
does not depend on the mark that an earlier run has left on the message. -/
inductive Composed (w : Worker σ) : {α : Type} → Act σ α → Prop
  | pure {α : Type} (a : α) : Composed w (Pure.pure a)
  | raise {α : Type} (fault : Fault) : Composed w (Act.raise (α := α) fault)
  | stall {α : Type} : Composed w (Act.stall (α := α))
  | bind {α β : Type} {x : Act σ α} {f : α → Act σ β} : Composed w x → (∀ a, Composed w (f a)) →
      Composed w (x >>= f)
  | catching {α : Type} {x : Act σ α} : Composed w x → Composed w (Act.catching x)
  | status : Composed w Act.status
  | setStatus (f : Status → Status) : (∀ t : Status, t.Onward (f t)) →
      Composed w (Act.setStatus f)
  | count (counter : String) : Composed w (Act.count counter)
  | runBegun : Composed w (Act.note .runBegun)
  | givingUp (fault : Fault) : Composed w (Act.note (.givingUp fault))
  | endpoints : Composed w (Act.look w.outside.endpoints)
  | now : Composed w (Act.look w.outside.now)
  | log (severity : Severity) (text : String) : Composed w (w.log severity text)
  | terminate : Composed w w.terminate
  | createConsumer : Composed w w.createConsumer
  | storeName : Composed w w.storeName
  | isDeactivated : Composed w w.isDeactivated
  | isAlive : Composed w w.isAlive
  | send (e : Endpoint) (working : Message) : Composed w (w.send e working)
  | acknowledge (id : String) : Composed w (w.acknowledge id)
  | clockSleep (ms : Int) : Composed w (w.clockSleep ms)
  | deactivateOwner : Composed w w.deactivateOwner
  | dispatch (kind : Sequence.Kind) (m : Message) : Composed w (w.dispatch kind m)
  | fetch {α : Type} {f : Except Fault (Option Message) → Act σ α} : (∀ r, Composed w (f r)) →
      (∀ r r', cleared r = cleared r' → f r = f r') →
      Composed w (Act.catching w.receive >>= f)

namespace Composed

variable {w : Worker σ}

theorem ofExcept (r : Except Fault α) : w.Composed (Act.ofExcept r : Act σ α) := by
  cases r with
  | ok a => exact .pure a
  | error fault => exact .raise fault

theorem onlyIf (c : Prop) [Decidable c] {x : Act σ Unit} (h : w.Composed x) :
    w.Composed (Act.onlyIf c x) := by
  rw [Act.onlyIf]
  split
  · exact h
  · exact .pure ()

theorem setProgress (p : Progress) : w.Composed (Act.setProgress p) :=
  .setStatus _ fun _ => .of_eq rfl rfl rfl

theorem succeed : w.Composed (Worker.succeed : Act σ Unit) :=
  .setStatus _ fun _ => .of_eq rfl rfl rfl

theorem stop : w.Composed (Act.setStatus fun t => { t with terminated := true }) :=
  .setStatus _ fun _ => ⟨Bool.le_true _, Bool.le_refl _, Bool.le_refl _⟩

end Composed

variable (w : Worker σ)

theorem composed_sleep (ms : Int) : w.Composed (w.sleep ms) :=
  .onlyIf _ (.bind (.clockSleep ms) fun _ => .onlyIf _ (.log _ _))

theorem composed_mediate (kind : Sequence.Kind) (m : Message) : w.Composed (w.mediate kind m) :=
  .bind (.dispatch kind m) fun _ => .bind (.ofExcept _) fun _ => .pure _

theorem composed_resolveTarget (m : Message) : w.Composed (w.resolveTarget m) := by
  rw [resolveTarget]
  split
  · exact .pure _
  · refine .bind .endpoints fun registry => ?_
    split
    · exact .pure _
    · exact .bind (.log _ _) fun _ => .pure _

theorem composed_attempt (e : Endpoint) (stored : Message) : w.Composed (w.attempt e stored) := by
  refine .bind .isAlive fun alive => ?_
  split
  · refine .bind (.send e _) fun (outcome, working) => ?_
    match outcome with
    | .ok (some _) => exact .pure _
    | .ok none => exact .pure _
    | .error _ => exact .pure _
  · exact .bind (.log _ _) fun _ => .pure _

theorem composed_settle (id : String) : w.Composed (w.settle id) :=
  .bind (.acknowledge id) fun _ => .setProgress _

theorem composed_completeDelivery (e : Endpoint) (id : String) :
    w.Composed (w.completeDelivery e id) :=
  .bind (w.composed_settle id) fun _ => .bind (.count _) fun _ => .log _ _

theorem composed_settleUndelivered (id reason : String) :
    w.Composed (w.settleUndelivered id reason) :=
  .bind (w.composed_settle id) fun _ => .bind (.count _) fun _ => .log _ _

theorem composed_sendOff (m : Message) : w.Composed (w.sendOff m) := by
  refine .bind (.catching (w.composed_mediate .deactivate m)) fun r => ?_
  cases r with
  | ok _ => exact .pure _
  | error fault =>
    dsimp only
    split
    · exact .log _ _
    · exact .raise _

theorem composed_retire (inHand : Option Message) : w.Composed (w.retire inHand) := by
  refine .bind ?_ fun _ => .bind .stop fun _ => .bind .deactivateOwner fun _ => .count _
  cases inHand with
  | none => exact .pure _
  | some m => exact w.composed_sendOff m

theorem composed_prepareToRetry (working : Message) : w.Composed (w.prepareToRetry working) := by
  refine .bind .status fun t => .bind (.setProgress _) fun _ => ?_
  split
  · exact .pure _
  · exact .bind (.acknowledge _) fun _ => .bind (.count _) fun _ => .log _ _
  · exact .bind .terminate fun _ => .bind (w.composed_retire _) fun _ => .log _ _
  · exact .bind (.log _ _) fun _ => w.composed_sleep _

theorem composed_reportFailure (text : String) (atFault : Message) :
    w.Composed (w.reportFailure text atFault) :=
  .bind (.log _ _) fun _ => .bind (.count _) fun _ => w.composed_mediate _ _

theorem composed_judge (e : Endpoint) (stored response working : Message) :
    w.Composed (w.judge e stored response working) := by
  rw [judge]
  dsimp only
  split
  · exact .bind (w.composed_mediate _ _) fun _ => w.composed_completeDelivery _ _
  · exact .bind (w.composed_mediate _ _) fun _ => w.composed_settleUndelivered _ _
  · exact .bind (.setStatus _ fun _ => .of_eq rfl rfl rfl) fun _ =>
      .bind (w.composed_reportFailure _ _) fun _ => w.composed_prepareToRetry _

theorem composed_recover (e : Endpoint) (stored : Message) (fault : Fault) (working : Message) :
    w.Composed (w.recover e stored fault working) := by
  have again (text : String) :
      w.Composed (do w.prepareToRetry (← w.reportFailure text working)) :=
    .bind (w.composed_reportFailure _ _) fun _ => w.composed_prepareToRetry _
  rw [recover]
  split
  · exact .raise _
  · dsimp only
    split
    · split
      · exact w.composed_settleUndelivered _ _
      · exact again _
    · exact again _

theorem composed_deliverOnce (e : Endpoint) (stored : Message) :
    w.Composed (w.deliverOnce e stored) := by
  refine .bind (w.composed_attempt e stored) fun found => ?_
  cases found with
  | skipped => exact .bind .succeed fun _ => w.composed_completeDelivery _ _
  | completed => exact .bind .succeed fun _ => w.composed_completeDelivery _ _
  | answered response working => exact .bind .succeed fun _ => w.composed_judge _ _ _ _
  | refused fault working => exact w.composed_recover _ _ _ _

theorem composed_deliver (e : Endpoint) (stored : Message) (fuel : Nat) :
    w.Composed (w.deliver e stored fuel) := by
  induction fuel with
  | zero => exact .stall
  | succ fuel ih =>
    exact .bind .status fun _ => .onlyIf _ (.bind (w.composed_deliverOnce e stored) fun _ => ih)

theorem composed_forward (stored : Message) (fuel : Nat) : w.Composed (w.forward stored fuel) := by
  refine .bind (.log _ _) fun _ => .bind (w.composed_resolveTarget stored) fun target => ?_
  cases target with
  | some e => exact w.composed_deliver e stored fuel
  | none => exact .bind (.log _ _) fun _ => .bind (.count _) fun _ => .acknowledge _

theorem composed_startupDelay : w.Composed w.startupDelay :=
  .bind (.clockSleep _) fun _ => .bind (.onlyIf _ (.log _ _)) fun _ =>
    .setStatus _ fun _ => ⟨Bool.le_refl _, Bool.le_refl _, Bool.false_le _⟩

theorem composed_acquire : w.Composed w.acquire := by
  rw [acquire]
  split
  · exact .raise _
  · refine .bind .createConsumer fun given => ?_
    split
    · exact .bind (.setStatus _ fun _ => ⟨Bool.le_refl _, Bool.le_true _, Bool.le_refl _⟩)
        fun _ => .bind .storeName fun _ => .log _ _
    · exact .bind .storeName fun _ => .raise _

theorem composed_giveUp (known : String → String) (unknown : String) (fault : Fault)
    (inHand : Option Message) : w.Composed (w.giveUp known unknown fault inHand) :=
  .bind (.givingUp fault) fun _ => .bind (.log _ _) fun _ => w.composed_retire _

theorem composed_pace (begun : Int) : w.Composed (w.pace begun) := by
  refine .bind .status fun t => ?_
  split
  · exact .pure _
  · refine .bind (.onlyIf _ (w.composed_sleep _)) fun _ =>
      .bind (.onlyIf _ (w.composed_sleep _)) fun _ => ?_
    split
    · exact .bind .now fun _ => .pure _
    · exact .pure _

theorem composed_cycle (received : Message) (fuel : Nat) : w.Composed (w.cycle received fuel) := by
  refine .bind (.count _) fun _ => .bind (.catching (w.composed_forward _ fuel)) fun r => ?_
  cases r with
  | ok _ => exact .pure _
  | error fault => exact w.composed_giveUp _ _ fault _

theorem cycle_congr {m m' : Message} (h : unmarked m = unmarked m') (fuel : Nat) :
    w.cycle m fuel = w.cycle m' fuel := by
  rw [cycle, cycle, h]

def attend (fuel : Nat) : Except Fault (Option Message) → Act σ Unit
  | .ok (some m) => w.cycle m fuel
  | .ok none => w.log .debug "No messages were received"
  | .error fault => w.giveUpForwarding fault none

def drained : Except Fault (Option Message) → Bool
  | .ok none => w.settings.cronMode
  | _ => false

def work (fuel : Nat) : Act σ Bool := do
  Act.setProgress .fresh
  if ← w.isDeactivated then
    Act.setStatus fun t => { t with terminated := true }
    w.log .debug "Exiting worker since the message processor is deactivated"
    return false
  let r ← Act.catching w.receive
  w.attend fuel r
  return !w.drained r

theorem turn_eq (begun : Int) (fuel : Nat) :
    w.turn begun fuel = (do if ← w.work fuel then w.pace begun else return false) := by
  rw [turn, work, bind_assoc]
  refine congrArg (_ >>= ·) (funext fun _ => ?_)
  rw [bind_assoc]
  refine congrArg (w.isDeactivated >>= ·) (funext fun deactivated => ?_)
  cases deactivated with
  | true => rfl
  | false =>
    simp only [Bool.false_eq_true, if_false, bind_assoc]
    refine congrArg (_ >>= ·) (funext fun r => ?_)
    match r with
    | .ok (some m) => rfl
    | .ok none =>
      refine congrArg (_ >>= ·) (funext fun _ => ?_)
      cases drained : w.settings.cronMode <;> simp [Worker.drained, drained]
    | .error fault => rfl

theorem attend_congr {r r' : Except Fault (Option Message)} (h : cleared r = cleared r')
    (fuel : Nat) : w.attend fuel r = w.attend fuel r' := by
  match r, r' with
  | .ok (some m), .ok (some m') => exact w.cycle_congr (Option.some.inj (Except.ok.inj h)) fuel
  | .ok none, .ok none => rfl
  | .error fault, .error fault' => rw [Except.error.inj h]
  | .ok none, .ok (some m) => cases Except.ok.inj h
  | .ok (some m), .ok none => cases Except.ok.inj h

theorem drained_congr {r r' : Except Fault (Option Message)} (h : cleared r = cleared r') :
    w.drained r = w.drained r' := by
  match r, r' with
  | .ok (some m), .ok (some m') => rfl
  | .ok none, .ok none => rfl
  | .error fault, .error fault' => rfl
  | .ok none, .ok (some m) => cases Except.ok.inj h
  | .ok (some m), .ok none => cases Except.ok.inj h

theorem composed_attend (fuel : Nat) (r : Except Fault (Option Message)) :
    w.Composed (w.attend fuel r) := by
  match r with
  | .ok (some m) => exact w.composed_cycle m fuel
  | .ok none => exact .log _ _
  | .error fault => exact w.composed_giveUp _ _ fault none

theorem composed_work (fuel : Nat) : w.Composed (w.work fuel) := by
  refine .bind (.setProgress _) fun _ => .bind .isDeactivated fun deactivated => ?_
  split
  · exact .bind .stop fun _ => .bind (.log _ _) fun _ => .pure _
  · refine .fetch (fun r => .bind (w.composed_attend fuel r) fun _ => .pure _) fun r r' h => ?_
    rw [w.attend_congr h, w.drained_congr h]

theorem composed_turn (begun : Int) (fuel : Nat) : w.Composed (w.turn begun fuel) := by
  rw [turn_eq]
  refine .bind (w.composed_work fuel) fun goesOn => ?_
  split
  · exact w.composed_pace begun
  · exact .pure _

theorem composed_turns (begun : Int) (fuel : Nat) : w.Composed (w.turns begun fuel) := by
  induction fuel with
  | zero => exact .stall
  | succ fuel ih =>
    exact .bind .status fun _ =>
      .onlyIf _ (.bind (w.composed_turn begun fuel) fun _ => .onlyIf _ ih)

theorem run_begins (fuel : Nat) :
    ∃ x : Act σ Unit, w.Composed x ∧ w.run fuel = Act.note .runBegun >>= fun _ => x := by
  have all (begun : Int) : w.Composed (w.forwardAll begun fuel) :=
    .bind (w.composed_turns begun fuel) fun _ => .log _ _
  refine ⟨_, .bind .now fun begun => .bind .status fun t =>
    .bind (.onlyIf _ w.composed_startupDelay) fun _ => ?_, rfl⟩
  split
  · exact all _
  · refine .bind (.catching w.composed_acquire) fun r => ?_
    cases r with
    | ok _ => exact all _
    | error fault => exact w.composed_giveUp _ _ fault none

theorem composed_run (fuel : Nat) : w.Composed (w.run fuel) := by
  obtain ⟨x, composed, begun⟩ := w.run_begins fuel
  rw [begun]
  exact .bind .runBegun fun _ => composed

section Built

open Act (Built)

theorem built_log (severity : Severity) (text : String) : Built (w.log severity text) :=
  .bind (.look _) fun _ => .note _

theorem built_terminate : Built w.terminate :=
  .bind (.setStatus _ fun _ => ⟨Bool.le_true _, Bool.le_refl _, Bool.le_refl _⟩) fun _ =>
    .bind (.move _) fun _ => .bind (.note _) fun _ => w.built_log _ _

theorem built_hearAll (as : List Aside) : Built (w.hearAll as) := by
  induction as with
  | nil => exact .pure _
  | cons a as ih =>
    refine .bind ?_ fun _ => ih
    cases a with
    | terminate => exact w.built_terminate
    | raise =>
      have onward (t : Status) : t.Onward { t with terminated := true } :=
        ⟨Bool.le_true _, Bool.le_refl _, Bool.le_refl _⟩
      exact .setStatus _ onward
    | log r => exact .note (.log r)

theorem built_call (c : Call σ α) : Built (w.call c) :=
  .bind (.look c) fun r => .bind
    (.bind (.move fun _ => r.world) fun _ => .bind (w.built_hearAll _) fun _ => .pure _)
    fun _ => .ofExcept _

theorem built_ask (errand : Errand) (c : Call σ α) : Built (w.ask errand c) := by
  refine .bind (.catching (w.built_call c)) fun r => ?_
  cases r with
  | ok _ => exact .pure _
  | error fault => exact .bind (.note _) fun _ => .raise _

theorem built_noted (begun : Event) (errand : Errand) (c : Call σ α) (ended : α → Event) :
    Built (do
      Act.note begun
      let a ← w.ask errand c
      Act.note (ended a)
      return a) :=
  .bind (.note _) fun _ => .bind (w.built_ask _ _) fun _ => .bind (.note _) fun _ => .pure _

theorem built_asked (f : σ → α) (e : α → Event) :
    Built (do
      let a ← Act.look f
      Act.note (e a)
      return a) :=
  .bind (.look _) fun _ => .bind (.note _) fun _ => .pure _

theorem built_send (e : Endpoint) (working : Message) : Built (w.send e working) := by
  refine .bind (.note _) fun _ => .bind (.look _) fun _ =>
    .bind (.catching (w.built_ask _ _)) fun r => ?_
  cases r with
  | ok _ => exact .bind (.note _) fun _ => .pure _
  | error _ => exact .pure _

theorem built_dispatch (kind : Sequence.Kind) (m : Message) : Built (w.dispatch kind m) := by
  refine .bind (.note _) fun _ => .bind (.look _) fun found => ?_
  split
  · exact .bind (.note _) fun _ => .pure _
  · refine .bind (.note _) fun _ => .bind (.look _) fun _ =>
      .bind (.catching (w.built_ask _ _)) fun r => ?_
    cases r with
    | ok _ => exact .bind (.note _) fun _ => .pure _
    | error _ => exact .pure _

variable {w} in
theorem Composed.built {x : Act σ α} (h : w.Composed x) : Built x := by
  induction h with
  | pure a => exact .pure a
  | raise fault => exact .raise fault
  | stall => exact .stall
  | bind _ _ ihx ihf => exact ihx.bind ihf
  | catching _ ih => exact ih.catching
  | status => exact .status
  | setStatus f hf => exact .setStatus f hf
  | count counter => exact .count counter
  | runBegun => exact .note _
  | givingUp fault => exact .note _
  | endpoints => exact .look _
  | now => exact .look _
  | log severity text => exact w.built_log severity text
  | terminate => exact w.built_terminate
  | createConsumer => exact w.built_noted _ _ _ _
  | storeName => exact w.built_noted _ _ _ _
  | isDeactivated => exact built_asked w.outside.isDeactivated _
  | isAlive => exact built_asked w.outside.isAlive _
  | send e working => exact w.built_send e working
  | acknowledge id =>
    exact .bind (.query _) fun _ => .bind (.note _) fun _ => .onlyIf _ (w.built_log _ _)
  | clockSleep ms =>
    exact .bind (.note _) fun _ => .bind .status fun _ => .bind (w.built_ask _ _) fun _ =>
      .bind (.note _) fun _ => .pure _
  | deactivateOwner => exact .bind (.note _) fun _ => .bind (w.built_ask _ _) fun _ => .note _
  | dispatch kind m => exact w.built_dispatch kind m
  | fetch _ _ ih => exact .bind (.catching (w.built_noted _ _ _ _)) ih

end Built

end Worker

end Courier
