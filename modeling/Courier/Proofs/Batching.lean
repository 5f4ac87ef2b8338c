import Courier.Proofs.Bearing
import Courier.Proofs.Composition
import Courier.Proofs.Fuel
import Courier.Proofs.History
import Courier.Rehearsal.Bench

namespace Courier

variable {σ α β : Type}

structure Status.Ready (t : Status) : Prop where
  holdsConsumer : t.holdsConsumer = true
  delayDue : t.delayDue = false

namespace Event

def beginsTurn : Event → Bool
  | .ownerAsked _ => true
  | _ => false

theorem within_beginsTurn : Within .opening beginsTurn := by
  intro e h
  cases e <;> first | rfl | cases h

theorem sober_beginsTurn : Sober beginsTurn := within_beginsTurn.sober (by decide)

end Event

def Act.Omits (p : Event → Bool) (x : Act σ α) : Prop :=
  ∀ n, Act.Keeps (fun s => tally p s.moments = n) x

namespace Act.Omits

variable {p : Event → Bool}

theorem bind {x : Act σ α} {f : α → Act σ β} (hx : Omits p x) (hf : ∀ a, Omits p (f a)) :
    Omits p (x >>= f) :=
  fun n => (hx n).bind fun a => hf a n

theorem onlyIf (c : Prop) [Decidable c] {x : Act σ Unit} (hx : Omits p x) :
    Omits p (Act.onlyIf c x) :=
  fun n => .onlyIf c (hx n)

theorem catching {x : Act σ α} (hx : Omits p x) : Omits p (Act.catching x) :=
  fun n => (hx n).catching

theorem pure (a : α) : Omits p (Pure.pure a : Act σ α) := fun _ => .pure a

theorem raise (fault : Fault) : Omits p (Act.raise fault : Act σ α) := fun _ => .raise fault

theorem setStatus (f : Status → Status) : Omits p (Act.setStatus f : Act σ Unit) :=
  fun _ _ hs => hs

end Act.Omits

namespace Worker

open Act (Omits)
open Site (Spell)

section Omits

variable (w : Worker σ)

theorem omits_log {p : Event → Bool} (hp : Event.Sober p) (severity : Severity) (text : String) :
    Omits p (w.log severity text) := by
  intro n s hs
  simpa [logged, hp (.log _) rfl] using hs

def restful : Stage → Bool
  | .incidental | .rest => true
  | _ => false

theorem not_restful_of_not_carefree {g : Stage} (h : carefree g = false) : restful g = false := by
  cases g <;> first | rfl | cases h

variable {g : Stage} {p : Event → Bool} (hp : Event.Within g p)

include hp

theorem omits_of_spell {x : Act σ α} (g' : Stage) (hg : g ≠ .incidental ∧ g ≠ g')
    (h : ∀ s, ∃ s' ms, (x s).2 = s' ∧ Spell s s' ms ∧ Staged g' ms) : Omits p x := by
  intro n s hs
  obtain ⟨s', ms, rfl, spell, staged⟩ := h s
  rw [spell.moments, tally_append, hs, staged.tally hp hg]
  rfl

theorem omits_createConsumer (hg : g ≠ .incidental ∧ g ≠ .acquisition) :
    Omits p w.createConsumer := by
  refine omits_of_spell hp .acquisition hg fun s => ?_
  obtain ⟨r, s', ns, create, spell, called, -⟩ := w.createConsumer_spec s
  exact ⟨s', ns, by rw [create], spell, called.staged rfl (by cases r <;> rfl)⟩

theorem omits_storeName (hg : g ≠ .incidental ∧ g ≠ .acquisition) : Omits p w.storeName := by
  refine omits_of_spell hp .acquisition hg fun s => ?_
  obtain ⟨r, s', ns, name, spell, called, -⟩ := w.storeName_spec s
  exact ⟨s', ns, by rw [name], spell, called.staged rfl (by cases r <;> rfl)⟩

theorem omits_acquire (hg : g ≠ .incidental ∧ g ≠ .acquisition) : Omits p w.acquire := by
  rw [acquire]
  split
  · exact .raise _
  · refine (w.omits_createConsumer hp hg).bind fun given => ?_
    split
    · exact .bind (.setStatus _) fun _ => (w.omits_storeName hp hg).bind fun _ =>
        w.omits_log (hp.sober hg.1) _ _
    · exact (w.omits_storeName hp hg).bind fun _ => .raise _

theorem omits_receive (hg : g ≠ .incidental ∧ g ≠ .opening) : Omits p w.receive := by
  refine omits_of_spell hp .opening hg fun s => ?_
  obtain ⟨r, s', ms, receive, spell, called, -⟩ := w.receive_spec s
  exact ⟨s', ms, by rw [receive], spell, called.staged rfl (by cases r <;> rfl)⟩

theorem omits_giveUp (hg : g ≠ .incidental ∧ g ≠ .retirement) (known : String → String)
    (unknown : String) (fault : Fault) (inHand : Option Message) :
    Omits p (w.giveUp known unknown fault inHand) := by
  intro n s hs
  obtain ⟨s', ms, r, giveUp, given⟩ := w.giveUp_spec known unknown fault inHand s
  rw [giveUp, given.moments, tally_append, hs, given.staged.tally hp hg]
  rfl

theorem omits_cycle (hg : precedes g = true) (m : Message) (fuel : Nat) :
    Omits p (w.cycle m fuel) := by
  intro n s hs
  obtain ⟨s', ms, r, cycle, cycled⟩ := w.cycle_spec m fuel s
  rw [cycle, cycled.grows.moments, tally_append, Site.moments_counted, hs,
    cycled.tally_of_precedes hp hg]
  rfl

section Rest

variable (hg : restful g = false)

include hg

theorem not_rest_of_not_restful : g ≠ .incidental ∧ g ≠ .rest := by
  cases g <;> simp [restful] at hg ⊢

theorem omits_sleep (ms : Int) : Omits p (w.sleep ms) := by
  refine omits_of_spell hp .rest (not_rest_of_not_restful hp hg) fun s => ?_
  obtain ⟨r, s', ns, sleep, spell, rested, -⟩ := w.sleep_spec ms s
  exact ⟨s', ns, by rw [sleep], spell, rested.staged⟩

theorem omits_clockSleep (ms : Int) : Omits p (w.clockSleep ms) := by
  refine omits_of_spell hp .rest (not_rest_of_not_restful hp hg) fun s => ?_
  obtain ⟨r, s', ns, sleep, spell, called, -⟩ := w.clockSleep_spec ms s
  exact ⟨s', ns, by rw [sleep], spell, called.staged rfl (by cases r <;> rfl)⟩

theorem omits_pace (begun : Int) : Omits p (w.pace begun) := by
  refine Omits.bind (fun _ => .status) fun t => ?_
  split
  · exact .pure _
  · refine .bind (.onlyIf _ (w.omits_sleep hp hg _)) fun _ =>
      .bind (.onlyIf _ (w.omits_sleep hp hg _)) fun _ => ?_
    split
    · exact .bind (fun _ => .look _) fun _ => .pure _
    · exact .pure _

theorem omits_startupDelay : Omits p w.startupDelay :=
  (w.omits_clockSleep hp hg _).bind fun _ =>
    .bind (.onlyIf _ (w.omits_log (hp.sober (not_rest_of_not_restful hp hg).1) _ _)) fun _ =>
      .setStatus _

end Rest

end Omits

section Turns

variable (w : Worker σ)

theorem tally_turn_of {g : Stage} {p : Event → Bool} (hp : Event.Within g p)
    (hg : precedes g = true) (receive : Omits p w.receive) (begun : Int) (fuel : Nat)
    (s : Site σ) :
    tally p (w.turn begun fuel s).2.moments =
      tally p s.moments + (p (.ownerAsked (w.outside.isDeactivated s.world))).toNat := by
  have other : g ≠ .incidental ∧ g ≠ .retirement ∧ restful g = false := by
    cases g <;> simp [precedes, restful] at hg ⊢
  have paced := w.omits_pace hp other.2.2 begun
  have logs := w.omits_log (hp.sober other.1)
  rw [turn, Act.bind_done (Act.setProgress_apply _ s), isDeactivated, bind_assoc,
    Act.bind_done (Act.look_apply _ _), bind_assoc, Act.bind_done (Act.note_apply _ _), pure_bind]
  have asked (t : Status) : tally p
      ((s.withStatus t).note (.ownerAsked (w.outside.isDeactivated s.world))).moments =
      tally p s.moments + (p (.ownerAsked (w.outside.isDeactivated s.world))).toNat := by
    simp
  split
  · exact Omits.bind (.setStatus _) (fun _ => .bind (logs _ _) fun _ => .pure _) _ _ (asked _)
  · refine Omits.bind receive.catching (fun r => ?_) _ _ (asked _)
    cases r with
    | error fault =>
      exact (w.omits_giveUp hp ⟨other.1, other.2.1⟩ _ _ fault none).bind fun _ => paced
    | ok received =>
      cases received with
      | some m => exact (w.omits_cycle hp hg m fuel).bind fun _ => paced
      | none =>
        refine .bind (logs _ _) fun _ => ?_
        split
        · exact .pure _
        · exact paced

theorem omits_beginsTurn_receive : Omits Event.beginsTurn w.receive := by
  intro n s hs
  obtain ⟨r, s', ms, receive, spell, called, -⟩ := w.receive_spec s
  rw [receive, spell.moments, tally_append, hs, called.tally_eq Event.sober_beginsTurn]
  cases r <;> rfl

theorem tally_turn (begun : Int) (fuel : Nat) (s : Site σ) :
    tally Event.beginsTurn (w.turn begun fuel s).2.moments =
      tally Event.beginsTurn s.moments + 1 :=
  w.tally_turn_of Event.within_beginsTurn rfl w.omits_beginsTurn_receive begun fuel s

theorem omits_turn {p : Event → Bool} (hp : Event.Within .acquisition p) (begun : Int)
    (fuel : Nat) : Omits p (w.turn begun fuel) := by
  rintro n s rfl
  have quiet : p (.ownerAsked (w.outside.isDeactivated s.world)) = false := by
    rw [← Bool.not_eq_true]
    exact fun h => nomatch hp _ h
  rw [w.tally_turn_of hp rfl (w.omits_receive hp (by decide)), quiet]
  rfl

theorem omits_turns {p : Event → Bool} (hp : Event.Within .acquisition p) (begun : Int)
    (fuel : Nat) : Omits p (w.turns begun fuel) := by
  induction fuel with
  | zero => exact fun _ => .stall
  | succ fuel ih =>
    exact .bind (fun _ => .status) fun _ =>
      .onlyIf _ (.bind (w.omits_turn hp begun fuel) fun _ => .onlyIf _ ih)

end Turns

section Throttled

variable (w : Worker σ) (b : Bool)

def throttled : Worker σ := { w with settings := { w.settings with throttle := b } }

theorem alike_throttled : Settings.Alike { w.settings with throttle := b } w.settings where
  processorName := rfl
  targetEndpoint := rfl
  sequence := by
    funext kind
    cases kind <;> rfl
  retryPolicy := rfl
  isNonRetryable := rfl
  classifyResponse := rfl
  nonErrorStatusText := rfl
  complaints := rfl
  startupDelayMs := rfl
  cronMode := rfl
  throttleIntervalMs := rfl
  pollIntervalMs := rfl

theorem throttled_cronMode : (w.throttled b).settings.cronMode = w.settings.cronMode := rfl

theorem throttled_throttle : (w.throttled b).settings.throttle = b := rfl

theorem throttled_log (severity : Severity) (text : String) :
    (w.throttled b).log severity text = w.log severity text := rfl

theorem throttled_sleep (ms : Int) : (w.throttled b).sleep ms = w.sleep ms := w.under_sleep _ ms

theorem throttled_receive : (w.throttled b).receive = w.receive := w.under_receive _

theorem throttled_cycle (m : Message) (fuel : Nat) :
    (w.throttled b).cycle m fuel = w.cycle m fuel := under_cycle (w.alike_throttled b) m fuel

theorem throttled_giveUp (known : String → String) (unknown : String) (fault : Fault)
    (inHand : Option Message) :
    (w.throttled b).giveUp known unknown fault inHand = w.giveUp known unknown fault inHand :=
  under_giveUp (w.alike_throttled b) known unknown fault inHand

theorem throttled_pace (timed : w.settings.cronMode = false) (begun begun' : Int) :
    (w.throttled false).pace begun' =
      (w.throttled true).pace begun >>= fun _ => pure false := by
  rw [pace, pace, bind_assoc]
  refine congrArg (Act.status >>= ·) (funext fun t => ?_)
  cases t.terminated with
  | true => rfl
  | false =>
    simp only [throttled_sleep, throttled_cronMode, throttled_throttle, timed, Bool.false_eq_true,
      if_false, if_true, bind_assoc]
    rfl

theorem throttled_turn (timed : w.settings.cronMode = false) (begun begun' : Int) (fuel : Nat) :
    (w.throttled false).turn begun' fuel =
      (w.throttled true).turn begun fuel >>= fun _ => pure false := by
  have paced := w.throttled_pace timed begun begun'
  rw [turn, turn, bind_assoc]
  refine congrArg (_ >>= ·) (funext fun _ => ?_)
  rw [bind_assoc]
  refine congrArg (w.isDeactivated >>= ·) (funext fun deactivated => ?_)
  cases deactivated with
  | true => rfl
  | false =>
    simp only [Bool.false_eq_true, if_false, bind_assoc, throttled_receive]
    refine congrArg (_ >>= ·) (funext fun r => ?_)
    cases r with
    | error fault => simp only [giveUpForwarding, throttled_giveUp, paced, bind_assoc]
    | ok received =>
      cases received with
      | some m =>
        dsimp only
        rw [throttled_cycle, throttled_cycle, paced, bind_assoc]
      | none =>
        simp only [throttled_log, throttled_cronMode, timed, Bool.false_eq_true, if_false, paced,
          bind_assoc]

end Throttled

section Ready

variable (w : Worker σ)

def ready : Act σ (Except Fault Unit) := do
  let t ← Act.status
  Act.onlyIf t.delayDue w.startupDelay
  if t.holdsConsumer then return .ok ()
  else Act.catching w.acquire

theorem run_eq (fuel : Nat) :
    w.run fuel = (do
      Act.note .runBegun
      let begun ← Act.look w.outside.now
      match ← w.ready with
      | .ok _ => w.forwardAll begun fuel
      | .error fault => w.giveUpAcquiring fault) := by
  rw [run, ready]
  refine congrArg (_ >>= ·) (funext fun _ => congrArg (_ >>= ·) (funext fun begun => ?_))
  rw [bind_assoc]
  refine congrArg (_ >>= ·) (funext fun t => ?_)
  rw [bind_assoc]
  refine congrArg (_ >>= ·) (funext fun _ => ?_)
  split
  · rw [pure_bind]
  · rfl

theorem throttled_ready (b : Bool) : (w.throttled b).ready = w.ready := by
  have startup : (w.throttled b).startupDelay = w.startupDelay :=
    under_startupDelay (w.alike_throttled b)
  have acquire : (w.throttled b).acquire = w.acquire := under_acquire (w.alike_throttled b)
  rw [ready, ready, startup, acquire]

theorem omits_ready {g : Stage} {p : Event → Bool} (hp : Event.Within g p)
    (hg : carefree g = false) : Omits p w.ready := by
  have other : g ≠ .incidental ∧ g ≠ .acquisition := by
    cases g <;> simp [carefree] at hg ⊢
  refine Omits.bind (fun _ => .status) fun t =>
    .bind (.onlyIf _ (w.omits_startupDelay hp (not_restful_of_not_carefree hg))) fun _ => ?_
  split
  · exact .pure _
  · exact (w.omits_acquire hp other).catching

theorem composed_ready : w.Composed w.ready := by
  refine .bind .status fun t => .bind (.onlyIf _ w.composed_startupDelay) fun _ => ?_
  split
  · exact .pure _
  · exact .catching w.composed_acquire

theorem ready_of_ready {s : Site σ} (h : s.status.Ready) : w.ready s = (.done (.ok ()), s) := by
  rw [ready, Act.bind_done (Act.status_apply s), Act.onlyIf, if_neg (by simp [h.delayDue]),
    if_pos h.holdsConsumer]
  rfl

theorem startupDelay_ready {s t : Site σ} (h : w.startupDelay s = (.done (), t)) :
    t.status.delayDue = false := by
  obtain ⟨completed, u, -, h⟩ := Act.of_bind_done h
  obtain ⟨_, v, -, h⟩ := Act.of_bind_done h
  obtain ⟨-, rfl⟩ := Prod.mk.inj h
  rfl

theorem acquire_ready {s t : Site σ} (h : w.acquire s = (.done (), t)) :
    t.status.holdsConsumer = true := by
  cases complaints : w.settings.complaints with
  | cons complaint _ => simp [acquire, complaints] at h
  | nil =>
    simp only [acquire, complaints] at h
    obtain ⟨given, u, -, h⟩ := Act.of_bind_done h
    cases given with
    | false =>
      obtain ⟨store, v, -, h⟩ := Act.of_bind_done h
      cases h
    | true =>
      obtain ⟨_, v, set, h⟩ := Act.of_bind_done h
      have held : v.status.holdsConsumer = true := by
        rw [← (Prod.mk.inj set).2]
      have onward := (Composed.bind (w := w) .storeName fun store =>
        .log .info ("Worker initialized on store [" ++ store ++ "]")).built.onward v
      rw [h] at onward
      exact onward.held held

theorem ready_spec {s t : Site σ} (h : w.ready s = (.done (.ok ()), t)) : t.status.Ready := by
  rw [ready, Act.bind_done (Act.status_apply s)] at h
  obtain ⟨_, u, delay, h⟩ := Act.of_bind_done h
  have waited : u.status.delayDue = false ∧ s.status.holdsConsumer ≤ u.status.holdsConsumer := by
    rw [Act.onlyIf_apply] at delay
    split at delay
    case isTrue =>
      have onward := w.composed_startupDelay.built.onward s
      rw [delay] at onward
      exact ⟨w.startupDelay_ready delay, onward.holdsConsumer⟩
    case isFalse undue =>
      obtain ⟨-, rfl⟩ := Prod.mk.inj delay
      exact ⟨by simpa using undue, Bool.le_refl _⟩
  split at h
  case isTrue held =>
    obtain ⟨-, rfl⟩ := Prod.mk.inj h
    exact ⟨Bool.le_antisymm (Bool.le_true _) (held ▸ waited.2), waited.1⟩
  case isFalse =>
    have acquired := Act.of_catching_ok h
    have onward := w.composed_acquire.built.onward u
    rw [acquired] at onward
    exact ⟨w.acquire_ready acquired,
      Bool.le_antisymm (waited.1 ▸ onward.delayDue) (Bool.false_le _)⟩

end Ready

section Seams

variable (w : Worker σ)

def runs (fuel : Nat) : Nat → Act σ Unit
  | 0 => pure ()
  | k + 1 => do
    w.run fuel
    runs fuel k

def seam (x : Moment σ) : Bool :=
  match x.event with
  | .runBegun => true
  | .log r =>
    r = ⟨.debug, "[" ++ w.outside.ownerName x.world ++ "] " ++ "Exiting worker iteration"⟩
  | _ => false

/-- Two sites that are the same except that the second one shows some more seams between runs. -/
structure Seamed (n : Nat) (s s' : Site σ) : Prop where
  world : s'.world = s.world
  status : s'.status = s.status
  counters : s'.counters = s.counters
  moments : s'.moments.filter (fun x => !w.seam x) = s.moments.filter fun x => !w.seam x
  seams : s'.moments.length = s.moments.length + n

variable {w} {n : Nat} {s s' : Site σ}

theorem Seamed.refl (s : Site σ) : w.Seamed 0 s s := ⟨rfl, rfl, rfl, rfl, rfl⟩

theorem Seamed.note (h : w.Seamed n s s') {e : Event} (he : w.seam (s'.moment e) = true) :
    w.Seamed (n + 1) s (s'.note e) :=
  ⟨h.world, h.status, h.counters, by simp [he, h.moments], by simp [h.seams]; omega⟩

theorem Seamed.act {x : Act σ α} (hx : x.Built) (h : w.Seamed n s s') :
    (x s').1 = (x s).1 ∧ w.Seamed n (x s).2 (x s').2 := by
  let bare : Site σ := ⟨s.world, s.status, s.counters, []⟩
  have first : x s = ((x bare).1, (x bare).2.onto s.journal) := hx.onto s.journal bare
  have second : x s' = ((x bare).1, (x bare).2.onto s'.journal) := by
    have same : s' = bare.onto s'.journal := by
      rw [Site.onto, ← h.world, ← h.status, ← h.counters]
      rfl
    exact (congrArg x same).trans (hx.onto s'.journal bare)
  rw [first, second]
  have moments (past : List (Moment σ)) :
      ((x bare).2.onto past).moments = past.reverse ++ (x bare).2.moments :=
    List.reverse_append
  refine ⟨rfl, rfl, rfl, rfl, ?_, ?_⟩
  · rw [moments, moments, List.filter_append, List.filter_append]
    exact congrArg (· ++ _) h.moments
  · have seams : s'.journal.reverse.length = s.journal.reverse.length + n := h.seams
    rw [moments, moments, List.length_append, List.length_append, seams]
    omega

end Seams

section Batches

variable {w : Worker σ} (timed : w.settings.cronMode = false)

include timed

theorem forwardAll_single {s : Site σ} (running : s.status.terminated = false)
    (begun begun' : Int) (fuel : Nat) :
    (w.throttled false).forwardAll begun' (fuel + 1) s =
      ((w.throttled true).turn begun fuel >>= fun _ =>
        w.log .debug "Exiting worker iteration") s := by
  have single : (w.throttled false).turns begun' (fuel + 1) s =
      ((w.throttled true).turn begun fuel >>= fun _ => pure ()) s := by
    rw [turns, Act.bind_done (Act.status_apply s), Act.onlyIf, if_pos running,
      w.throttled_turn timed begun, bind_assoc]
    rfl
  have log : ((w.throttled true).turn begun fuel >>= fun _ =>
      w.log .debug "Exiting worker iteration") =
      ((w.throttled true).turn begun fuel >>= fun _ => pure ()) >>= fun _ =>
        w.log .debug "Exiting worker iteration" := by
    rw [bind_assoc]
    rfl
  rw [log, forwardAll, Act.bind_apply, Act.bind_apply, single]
  rfl

omit timed in
theorem run_ready {s : Site σ} (ready : s.status.Ready) (fuel : Nat) :
    w.run fuel s = w.forwardAll (w.outside.now s.world) fuel (s.note .runBegun) := by
  rw [run_eq, Act.bind_done (Act.note_apply _ s), Act.bind_done (Act.look_apply _ _),
    Act.bind_done (w.ready_of_ready (s := s.note .runBegun) ready)]
  rfl

omit timed in
theorem turns_stop {begun : Int} {fuel : Nat} {next : Bool} {t : Site σ}
    (stop : ¬(next = true ∧ t.status.terminated = false))
    (finished : (Act.onlyIf next (w.turns begun fuel) t).1 ≠ .unfinished) :
    Act.onlyIf next (w.turns begun fuel) t = (.done (), t) := by
  rw [Act.onlyIf_apply] at finished ⊢
  split
  case isFalse => rfl
  case isTrue more =>
    cases fuel with
    | zero =>
      rw [if_pos more] at finished
      exact absurd rfl finished
    | succ fuel =>
      have up : t.status.terminated = true := by simpa [more] using stop
      rw [turns, Act.bind_done (Act.status_apply t), Act.onlyIf, if_neg (by simp [up])]
      rfl

/-- The turns of one run, and the runs that take them one by one. -/
theorem turns_seamed (begun begun' : Int) {fuel more n : Nat} {s s' : Site σ}
    (alike : w.Seamed n s s') (ready : s.status.Ready) (running : s.status.terminated = false)
    (enough : fuel ≤ more) (finished : ((w.throttled true).turns begun fuel s).1 ≠ .unfinished) :
    ∃ k, tally Event.beginsTurn ((w.throttled true).turns begun fuel s).2.moments =
        tally Event.beginsTurn s.moments + (k + 1) ∧
      (((w.throttled false).forwardAll begun' more >>= fun _ =>
        (w.throttled false).runs more k) s').1 =
        ((w.throttled true).forwardAll begun fuel s).1 ∧
      w.Seamed (n + 2 * k) ((w.throttled true).forwardAll begun fuel s).2
        (((w.throttled false).forwardAll begun' more >>= fun _ =>
          (w.throttled false).runs more k) s').2 := by
  induction fuel generalizing s s' n begun' with
  | zero => exact absurd rfl finished
  | succ fuel ih =>
    obtain ⟨more, rfl⟩ : ∃ m, more = m + 1 := ⟨more - 1, by omega⟩
    have single := forwardAll_single timed (by rw [alike.status, running]) begun begun' more
    have turns : (w.throttled true).turns begun (fuel + 1) s =
        ((w.throttled true).turn begun fuel >>= fun next =>
          Act.onlyIf next ((w.throttled true).turns begun fuel)) s := by
      rw [turns, Act.bind_done (Act.status_apply s), Act.onlyIf, if_pos running]
    have asks := (w.throttled true).tally_turn begun fuel s
    have onward := ((w.throttled true).composed_turn begun fuel).built.onward s
    have longer := (w.throttled true).turn_extends begun (show fuel ≤ more by omega) s
    obtain ⟨ending, left⟩ := alike.act ((w.throttled true).composed_turn begun more).built
    generalize turn : (w.throttled true).turn begun fuel s = ended
    obtain ⟨r, t⟩ := ended
    cases r with
    | unfinished =>
      rw [turns, Act.bind_unfinished turn] at finished
      exact absurd rfl finished
    | raised fault =>
      rw [turn] at asks longer
      rw [longer (by simp)] at ending left
      have turns := turns.trans (Act.bind_raised turn _)
      have other : (w.throttled true).turn begun more s' =
          (.raised fault, ((w.throttled true).turn begun more s').2) := Prod.ext ending rfl
      have whole : (w.throttled true).forwardAll begun (fuel + 1) s = (.raised fault, t) :=
        Act.bind_raised turns _
      refine ⟨0, ?_⟩
      rw [turns, whole, Act.bind_raised (single.trans (Act.bind_raised other _))]
      exact ⟨asks, rfl, left⟩
    | done next =>
      rw [turn] at asks longer onward
      rw [longer (by simp)] at ending left
      have turns := turns.trans (Act.bind_done turn _)
      have other : (w.throttled true).turn begun more s' =
          (.done next, ((w.throttled true).turn begun more s').2) := Prod.ext ending rfl
      generalize ((w.throttled true).turn begun more s').2 = t' at left other
      obtain ⟨-, exits⟩ := left.act (w.built_log .debug "Exiting worker iteration")
      have first := single.trans (Act.bind_done other _)
      rw [turns] at finished
      by_cases go : next = true ∧ t.status.terminated = false
      · -- what is one more turn of the run is another run
        have same : Act.onlyIf next ((w.throttled true).turns begun fuel) t =
            (w.throttled true).turns begun fuel t := by
          rw [Act.onlyIf, if_pos go.1]
        rw [same] at turns finished
        have whole : (w.throttled true).forwardAll begun (fuel + 1) s =
            (w.throttled true).forwardAll begun fuel t := by
          rw [forwardAll, forwardAll, Act.bind_apply, Act.bind_apply, turns]
        have readied : t.status.Ready :=
          ⟨onward.held ready.holdsConsumer,
            Bool.le_antisymm (ready.delayDue ▸ onward.delayDue) (Bool.false_le _)⟩
        let u := w.logged .debug "Exiting worker iteration" t'
        have parted : w.Seamed (n + 2) t (u.note .runBegun) :=
          (left.note (by simp [seam, Site.moment])).note rfl
        have next : (w.throttled false).run (more + 1) u = (w.throttled false).forwardAll
            (w.outside.now u.world) (more + 1) (u.note .runBegun) :=
          run_ready (s := u) (left.status.symm ▸ readied) _
        obtain ⟨k, asks', ending', seamed⟩ :=
          ih (w.outside.now u.world) parted readied go.2 (by omega) finished
        have others : ((w.throttled false).forwardAll begun' (more + 1) >>= fun _ =>
            (w.throttled false).runs (more + 1) (k + 1)) s' =
            ((w.throttled false).forwardAll (w.outside.now u.world) (more + 1) >>= fun _ =>
              (w.throttled false).runs (more + 1) k) (u.note .runBegun) := by
          rw [Act.bind_done (first.trans (w.log_apply _ _ t')), runs, Act.bind_apply,
            Act.bind_apply, next]
        refine ⟨k + 1, ?_⟩
        rw [turns, whole, others, asks', asks, show n + 2 * (k + 1) = n + 2 + 2 * k by omega]
        exact ⟨by omega, ending', seamed⟩
      · have stop := turns_stop go finished
        have whole : (w.throttled true).forwardAll begun (fuel + 1) s =
            w.log .debug "Exiting worker iteration" t := by
          rw [forwardAll, Act.bind_done (turns.trans stop)]
          rfl
        refine ⟨0, ?_⟩
        rw [turns, stop, whole, Act.bind_done first]
        exact ⟨asks, rfl, exits⟩

omit timed in
theorem run_begun {s t : Site σ} (ready : w.ready (s.note .runBegun) = (.done (.ok ()), t))
    (fuel : Nat) : w.run fuel s = w.forwardAll (w.outside.now s.world) fuel t := by
  rw [run_eq, Act.bind_done (Act.note_apply _ s), Act.bind_done (Act.look_apply _ _),
    Act.bind_done ready]
  rfl

omit timed in
theorem tally_forwardAll (begun : Int) (fuel : Nat) (s : Site σ) :
    tally Event.beginsTurn (w.forwardAll begun fuel s).2.moments =
      tally Event.beginsTurn (w.turns begun fuel s).2.moments := by
  let n := tally Event.beginsTurn (w.turns begun fuel s).2.moments
  exact Act.Keeps.after (I := fun u => tally Event.beginsTurn u.moments = n) rfl fun _ =>
    w.omits_log Event.sober_beginsTurn _ _ n

omit timed in
theorem ready_of_beginsTurn {s : Site σ} {fuel k : Nat} (finished : (w.run fuel s).1 ≠ .unfinished)
    (turns : tally Event.beginsTurn (w.run fuel s).2.moments =
      tally Event.beginsTurn s.moments + (k + 1)) :
    ∃ t, w.ready (s.note .runBegun) = (.done (.ok ()), t) ∧ t.status.terminated = false ∧
      tally Event.beginsTurn t.moments = tally Event.beginsTurn s.moments := by
  have omits := w.omits_ready Event.within_beginsTurn rfl (tally Event.beginsTurn s.moments)
    (s.note .runBegun) (by simp [Event.beginsTurn])
  have run : w.run fuel s = _ := congrFun (w.run_eq fuel) s
  rw [Act.bind_done (Act.note_apply _ s), Act.bind_done (Act.look_apply _ _)] at run
  match ready : w.ready (s.note .runBegun) with
  | (.unfinished, t) =>
    rw [run, Act.bind_unfinished ready] at finished
    exact absurd rfl finished
  | (.raised fault, t) =>
    rw [ready] at omits
    rw [run, Act.bind_raised ready] at turns
    omega
  | (.done (.error fault), t) =>
    rw [ready] at omits
    rw [Act.bind_done ready] at run
    have given : tally Event.beginsTurn (w.run fuel s).2.moments =
        tally Event.beginsTurn s.moments := by
      rw [run]
      exact w.omits_giveUp Event.within_beginsTurn (by decide) _ _ fault none _ t omits
    omega
  | (.done (.ok _), t) =>
    rw [ready] at omits
    refine ⟨t, rfl, ?_, omits⟩
    rw [run_begun ready] at finished turns
    rw [tally_forwardAll] at turns
    rw [← Bool.not_eq_true]
    intro up
    have stop : ¬(true = true ∧ t.status.terminated = false) := by simp [up]
    have none := turns_stop stop
      (show (Act.onlyIf _ (w.turns (w.outside.now s.world) fuel) t).1 ≠ .unfinished from
        Act.finished_of_bind finished)
    rw [Act.onlyIf, if_pos rfl] at none
    rw [none] at turns
    exact absurd (omits.symm.trans turns) (by omega)

/-- Throttling only batches. Where a run of a throttled worker takes some turns, as many runs of the
same worker without throttling end in the same way and leave the same world, status and counters,
and the journal shows the same but for the seams between the runs: where one of them ends and the
next one begins. -/
theorem throttling_batches {s : Site σ} {fuel more k : Nat}
    (finished : ((w.throttled true).run fuel s).1 ≠ .unfinished)
    (turns : tally Event.beginsTurn ((w.throttled true).run fuel s).2.moments =
      tally Event.beginsTurn s.moments + k) (positive : 1 ≤ k) (enough : fuel ≤ more) :
    ((w.throttled false).runs more k s).1 = ((w.throttled true).run fuel s).1 ∧
      w.Seamed (2 * (k - 1)) ((w.throttled true).run fuel s).2
        ((w.throttled false).runs more k s).2 := by
  obtain ⟨k, rfl⟩ : ∃ j, k = j + 1 := ⟨k - 1, by omega⟩
  obtain ⟨t, ready, running, asks⟩ := ready_of_beginsTurn finished turns
  have other : (w.throttled false).ready (s.note .runBegun) = (.done (.ok ()), t) := by
    rw [← ready, throttled_ready, throttled_ready]
  have others : (w.throttled false).runs more (k + 1) s =
      ((w.throttled false).forwardAll ((w.throttled false).outside.now s.world) more >>= fun _ =>
        (w.throttled false).runs more k) t := by
    rw [runs, Act.bind_apply, run_begun other, ← Act.bind_apply]
  rw [run_begun ready] at finished turns ⊢
  rw [tally_forwardAll] at turns
  obtain ⟨j, asks', ending, seamed⟩ := turns_seamed timed ((w.throttled true).outside.now s.world)
    ((w.throttled false).outside.now s.world) (.refl t) ((w.throttled true).ready_spec ready)
    running enough (Act.finished_of_bind finished)
  obtain rfl : j = k := by omega
  rw [others, show 2 * (j + 1 - 1) = 0 + 2 * j by omega]
  exact ⟨ending, seamed⟩

end Batches

open Rehearsal in
/-- A slice of a second takes three turns with a poll interval of 400 milliseconds, and a fourth run
would be needed for the rest. -/
theorem throttling_batches_rehearsed :
    let settings : Settings := {
      processorName := "rehearsal", targetEndpoint := "backend", pollIntervalMs := 400 }
    let script : Script := {
      ownerName := "owner", storeName := "store", openings := [], receipts := [], receiptMs := 0
      receiptLimit := none, acknowledgements := [], exchanges := [], rests := []
      onDeactivate := [] }
    let w := Bench.worker settings script
    let s := w.fresh (.fresh [⟨"1", ∅, .null⟩, ⟨"2", ∅, .null⟩] (.ofList [⟨"backend", "there"⟩]) ∅
      true false)
    w.settings.cronMode = false ∧ ((w.throttled true).run 5 s).1 ≠ .unfinished ∧
      tally Event.beginsTurn ((w.throttled true).run 5 s).2.moments =
        tally Event.beginsTurn s.moments + 3 ∧
      ((w.throttled false).runs 5 3 s).1 = ((w.throttled true).run 5 s).1 ∧
      w.Seamed 4 ((w.throttled true).run 5 s).2 ((w.throttled false).runs 5 3 s).2 := by
  intro settings script w s
  have timed : w.settings.cronMode = false := rfl
  have finished : ((w.throttled true).run 5 s).1 ≠ .unfinished :=
    Ending.ne_unfinished (by decide +kernel)
  have turns : tally Event.beginsTurn ((w.throttled true).run 5 s).2.moments =
      tally Event.beginsTurn s.moments + 3 := by decide +kernel
  exact ⟨timed, finished, turns,
    throttling_batches timed finished turns (by decide) (Nat.le_refl 5)⟩

end Worker

end Courier
