import Courier.Proofs.Batching
import Courier.Proofs.Calls
import Courier.Proofs.Frame
import Courier.Proofs.Retirement

namespace Courier

variable {σ : Type}

namespace Event

def ofFetch : Event → Bool
  | .receiving | .received _ | .failed .fetch _ => true
  | _ => false

def wakes : Event → Bool
  | .slept false | .failed .sleep _ => true
  | _ => false

theorem within_ofFetch : Within .opening ofFetch := by
  intro e h
  cases e with
  | failed errand _ => cases errand <;> first | rfl | cases h
  | _ => first | rfl | cases h

theorem ofFetch_of_fetches {e : Event} (h : e.fetches = true) : e.ofFetch = true := by
  cases e <;> first | rfl | cases h

theorem not_fetches_of_not_ofFetch {e : Event} (h : e.ofFetch = false) : e.fetches = false := by
  cases e <;> first | rfl | cases h

theorem fetches_of_opens {e : Event} (h : e.opens = false) : e.fetches = false := by
  cases e <;> first | rfl | cases h

end Event

theorem tally_fetches_of_ofFetch {ms : List (Moment σ)} (h : tally Event.ofFetch ms = 0) :
    tally Event.fetches ms = 0 := by
  rw [tally_eq_zero] at h ⊢
  exact fun x hx => Event.not_fetches_of_not_ofFetch (h x hx)

theorem tally_fetches_of_opens {ms : List (Moment σ)} (h : tally Event.opens ms = 0) :
    tally Event.fetches ms = 0 := by
  rw [tally_eq_zero] at h ⊢
  exact fun x hx => Event.fetches_of_opens (h x hx)

/-! ## The clock -/

/-- A clock that never goes back, and that has gone on by the length of a sleep when the sleep is
complete. -/
structure Outside.Timely (o : Outside σ) : Prop where
  moves : ∀ {v v'}, o.Moves v v' → o.now v ≤ o.now v'
  acknowledge : ∀ v, o.now v ≤ o.now (o.acknowledge v).2
  sleep : ∀ ms up v, (o.sleep ms up v).outcome = .ok true →
    o.now v + ms ≤ o.now (o.sleep ms up v).world

def Outside.Elapsed (o : Outside σ) (c : Int) (past : List (Moment σ)) (s : Site σ) : Prop :=
  c ≤ o.now s.world ∧ ∃ ms, s.moments = past ++ ms ∧
    ∀ x ∈ ms, c ≤ o.now x.world ∧ o.now x.world ≤ o.now s.world

namespace Worker

variable {w : Worker σ}

open Site (Spell)

theorem elapsed_begin (o : Outside σ) (s : Site σ) : o.Elapsed (o.now s.world) s.moments s :=
  ⟨Int.le_refl _, [], by simp, by simp⟩

theorem unmoved_elapsed (timely : w.outside.Timely) (c : Int) (past : List (Moment σ)) :
    w.Unmoved (w.outside.Elapsed c past) := by
  have later {s : Site σ} {v : σ} (hv : w.outside.now s.world ≤ w.outside.now v)
      (h : w.outside.Elapsed c past s) : w.outside.Elapsed c past (s.withWorld v) := by
    obtain ⟨since, ms, moments, between⟩ := h
    exact ⟨Int.le_trans since hv, ms, moments, fun x hx =>
      ⟨(between x hx).1, Int.le_trans (between x hx).2 hv⟩⟩
  refine .of_notes (fun {s} e h => ?_) (fun _ h => h) (fun _ h => h)
    (fun hv => later (timely.moves hv)) (later (timely.acknowledge _))
  obtain ⟨since, ms, moments, between⟩ := h
  refine ⟨since, ms ++ [s.moment e], by simp [moments], List.forall_mem_append.2 ⟨between, ?_⟩⟩
  exact List.forall_mem_singleton.2 ⟨since, Int.le_refl _⟩

theorem between_of_composed (timely : w.outside.Timely) {α : Type} {x : Act σ α}
    (hx : w.Composed x) {s : Site σ} {ms : List (Moment σ)}
    (moments : (x s).2.moments = s.moments ++ ms) :
    w.outside.now s.world ≤ w.outside.now (x s).2.world ∧
      ∀ y ∈ ms, w.outside.now s.world ≤ w.outside.now y.world ∧
        w.outside.now y.world ≤ w.outside.now (x s).2.world := by
  obtain ⟨since, ns, moments', between⟩ :=
    (unmoved_elapsed timely _ _).keeps hx s (elapsed_begin w.outside s)
  obtain rfl := List.append_cancel_left (moments.symm.trans moments')
  exact ⟨since, between⟩

/-! ## Sleeps -/

theorem sleep_complete {d : Int} (pos : 0 < d) {s t : Site σ} {ms : List (Moment σ)}
    (sleep : w.sleep d s = (.done (), t)) (moments : t.moments = s.moments ++ ms)
    (restful : tally Event.wakes ms = 0) :
    ∃ as, ms = s.moment (.sleeping d) :: (as ++ [t.moment (.slept true)]) ∧
      (∀ x ∈ as, x.event.incidental = true) ∧
      (w.outside.sleep d s.status.terminated s.world).outcome = .ok true ∧
      t = w.answered .sleep .slept (w.outside.sleep d s.status.terminated s.world)
        (s.note (.sleeping d)) := by
  have asleep := w.clockSleep_apply d s
  rw [Worker.sleep, Act.onlyIf, if_pos pos] at sleep
  generalize w.outside.sleep d s.status.terminated s.world = r at asleep ⊢
  obtain ⟨as, spell, incidental⟩ := w.spell_heard r (s.note (.sleeping d))
  cases outcome : r.outcome with
  | error fault =>
    rw [outcome] at asleep
    rw [Act.bind_raised asleep] at sleep
    cases sleep
  | ok completed =>
    have answered : w.answered .sleep .slept r (s.note (.sleeping d)) =
        (w.heard r (s.note (.sleeping d))).note (.slept completed) := by
      rw [Worker.answered, outcome]
      rfl
    rw [outcome, answered] at asleep
    rw [Act.bind_done asleep] at sleep
    rw [answered]
    generalize heard : w.heard r (s.note (.sleeping d)) = u at spell sleep
    cases completed with
    | true =>
      obtain ⟨-, rfl⟩ := Prod.mk.inj sleep
      refine ⟨as, List.append_cancel_left (moments.symm.trans ?_), incidental, rfl, rfl⟩
      rw [Site.moments_note, spell.moments]
      simp
      rfl
    | false =>
      obtain ⟨-, rfl⟩ := Prod.mk.inj sleep
      rw [Site.moments_note, Site.moments_note, spell.moments] at moments
      have woken := congrArg (tally Event.wakes) moments
      simp [Event.wakes, restful] at woken

theorem heard_later (timely : w.outside.Timely) {α : Type} (r : Reply σ α) (s : Site σ) :
    w.outside.now r.world ≤ w.outside.now (w.heard r s).world :=
  ((unmoved_elapsed timely _ _).patient.hearAll r.asides _
    (elapsed_begin w.outside (s.withWorld r.world))).1

theorem sleep_lasts (timely : w.outside.Timely) {d : Int} (pos : 0 < d) {s t : Site σ}
    {ms : List (Moment σ)} (sleep : w.sleep d s = (.done (), t))
    (moments : t.moments = s.moments ++ ms) (restful : tally Event.wakes ms = 0) :
    w.outside.now s.world + d ≤ w.outside.now t.world := by
  obtain ⟨-, -, -, complete, rfl⟩ := sleep_complete pos sleep moments restful
  exact Int.le_trans (timely.sleep d _ _ complete) (heard_later timely _ _)

theorem sleep_raised {d : Int} {s t : Site σ} {ms : List (Moment σ)} {fault : Fault}
    (sleep : w.sleep d s = (.raised fault, t)) (moments : t.moments = s.moments ++ ms) :
    tally Event.wakes ms ≠ 0 := by
  obtain ⟨r, t', ns, sleep', spell, -, failed⟩ := w.sleep_spec d s
  rw [sleep] at sleep'
  obtain ⟨hr, rfl⟩ := Prod.mk.inj sleep'
  obtain rfl := List.append_cancel_left (moments.symm.trans spell.moments)
  cases r with
  | ok _ => cases hr
  | error fault' =>
    obtain ⟨x, hx, woken⟩ := failed fault' rfl
    intro restful
    simpa [woken, Event.wakes] using tally_eq_zero.1 restful x hx

/-! ## The end of a turn -/

theorem pace_terminated (begun : Int) {s : Site σ} (up : s.status.terminated = true) :
    w.pace begun s = (.done false, s) := by
  rw [pace, Act.bind_done (Act.status_apply s), if_pos up]
  rfl

theorem pace_within (throttle : w.settings.throttle = true) {begun : Int} {s t : Site σ}
    (pace : w.pace begun s = (.done true, t)) :
    w.outside.now t.world ≤ begun + sliceMs ∧ s.status.terminated = false := by
  cases up : s.status.terminated with
  | true =>
    rw [pace_terminated begun up] at pace
    cases pace
  | false =>
    rw [Worker.pace, Act.bind_done (Act.status_apply s), if_neg (by simp [up])] at pace
    obtain ⟨_, u, -, pace⟩ := Act.of_bind_done pace
    obtain ⟨_, v, -, pace⟩ := Act.of_bind_done pace
    rw [if_pos throttle, Act.bind_done (Act.look_apply _ v)] at pace
    obtain ⟨more, rfl⟩ := Prod.mk.inj pace
    have within : w.outside.now v.world - begun ≤ sliceMs := by simpa using more
    exact ⟨by omega, rfl⟩

theorem pace_apply (throttle : w.settings.throttle = true) (timed : w.settings.cronMode = false)
    (short : w.settings.pollIntervalMs < pacingLimitMs) (begun : Int) {s : Site σ}
    (running : s.status.terminated = false) :
    w.pace begun s = (do
      w.sleep w.settings.pollIntervalMs
      let now ← Act.look w.outside.now
      return decide (now - begun ≤ sliceMs)) s := by
  rw [pace, Act.bind_done (Act.status_apply s), if_neg (by simp [running]), Act.onlyIf,
    if_neg (by simp [timed]), Act.onlyIf, if_pos short, if_pos throttle]
  rfl

theorem pace_unwaited (throttle : w.settings.throttle = true) (timed : w.settings.cronMode = false)
    (long : ¬w.settings.pollIntervalMs < pacingLimitMs) (begun : Int) {s : Site σ}
    (running : s.status.terminated = false) :
    w.pace begun s = (.done (decide (w.outside.now s.world - begun ≤ sliceMs)), s) := by
  rw [pace, Act.bind_done (Act.status_apply s), if_neg (by simp [running]), Act.onlyIf,
    if_neg (by simp [timed]), Act.onlyIf, if_neg long, if_pos throttle]
  rfl

theorem sleep_of_pace (throttle : w.settings.throttle = true)
    (timed : w.settings.cronMode = false) (short : w.settings.pollIntervalMs < pacingLimitMs)
    {begun : Int} {s t : Site σ} {more : Bool} (running : s.status.terminated = false)
    (pace : w.pace begun s = (.done more, t)) :
    w.sleep w.settings.pollIntervalMs s = (.done (), t) ∧
      more = decide (w.outside.now t.world - begun ≤ sliceMs) := by
  rw [pace_apply throttle timed short begun running] at pace
  obtain ⟨_, u, sleep, pace⟩ := Act.of_bind_done pace
  rw [Act.bind_done (Act.look_apply _ u)] at pace
  obtain ⟨more, rfl⟩ := Prod.mk.inj pace
  exact ⟨sleep, (Ending.done.inj more).symm⟩

theorem sleep_of_pace_raised (throttle : w.settings.throttle = true)
    (timed : w.settings.cronMode = false) (short : w.settings.pollIntervalMs < pacingLimitMs)
    {begun : Int} {s t : Site σ} {fault : Fault} (running : s.status.terminated = false)
    (pace : w.pace begun s = (.raised fault, t)) :
    w.sleep w.settings.pollIntervalMs s = (.raised fault, t) := by
  rw [pace_apply throttle timed short begun running] at pace
  match sleep : w.sleep w.settings.pollIntervalMs s with
  | (.done _, u) =>
    rw [Act.bind_done sleep] at pace
    cases pace
  | (.raised fault', u) =>
    rw [Act.bind_raised sleep] at pace
    cases pace
    rfl
  | (.unfinished, u) =>
    rw [Act.bind_unfinished sleep] at pace
    cases pace

/-! ## The work of a turn -/

/-- How the work of a turn shows. Either the owner has been found deactivated, or the work begins
with a fetch and fetches nothing more. -/
inductive Worked (w : Worker σ) (s t : Site σ) (ms : List (Moment σ)) : Ending Bool → Prop
  | barred : tally Event.ofFetch ms = 0 → t.status.terminated = true →
      Worked w s t ms (.done false)
  | fetched {asked start rest r} : ms = asked :: start :: rest → asked.event.ofFetch = false →
      start.event = .receiving → start.world = s.world → tally Event.fetches rest = 0 →
      (∀ fault, r = .raised fault → 0 < tally Event.givesUp rest) →
      (r = .done false → w.settings.cronMode = true) → Worked w s t ms r

theorem GivenUp.gives_up {fault : Fault} {inHand : Option Message} {s s' : Site σ}
    {ms : List (Moment σ)} {r : Except Fault Unit} (h : GivenUp fault inHand s s' ms r) :
    0 < tally Event.givesUp ms := by
  obtain ⟨x, y, ns, rfl, hx, -, -⟩ := h.retired
  rw [tally_cons, hx]
  exact Nat.add_pos_left Nat.one_pos _

theorem attend_spec (w : Worker σ) (fuel : Nat) (r : Except Fault (Option Message)) (s : Site σ) :
    ∃ q t ms, w.attend fuel r s = (q, t) ∧ t.moments = s.moments ++ ms ∧
      tally Event.opens ms = 0 ∧ ∀ fault, q = .raised fault → 0 < tally Event.givesUp ms := by
  match r with
  | .ok (some m) =>
    obtain ⟨t, ms, q, cycle, cycled⟩ := w.cycle_spec m fuel s
    refine ⟨q, t, ms, cycle, by simpa using cycled.grows.moments, cycled.opens, ?_⟩
    intro fault hq
    cases cycled with
    | forwarded _ contained => exact absurd hq (contained fault)
    | givenUp _ given =>
      rw [tally_append]
      exact Nat.add_pos_right _ given.gives_up
  | .ok none =>
    exact ⟨.done (), _, [s.moment _], w.log_apply _ _ s, Site.moments_note _ s, rfl, by simp⟩
  | .error fault =>
    obtain ⟨t, ms, q, giveUp, given⟩ := w.giveUp_spec _ _ fault none s
    exact ⟨_, t, ms, giveUp, given.moments, given.staged.tally Event.within_opens (by decide),
      fun _ _ => given.gives_up⟩

theorem cronMode_of_drained {r : Except Fault (Option Message)} (h : w.drained r = true) :
    w.settings.cronMode = true := by
  rw [drained.eq_def] at h
  split at h
  · exact h
  · cases h

theorem logged_shown (w : Worker σ) (severity : Severity) (text : String) (s : Site σ) :
    ∃ x, (w.logged severity text s).moments = s.moments ++ [x] ∧ ∃ r, x.event = .log r :=
  ⟨_, Site.moments_note _ s, _, rfl⟩

theorem receive_shown (w : Worker σ) (s : Site σ) :
    ∃ as, (w.answered .fetch .received (w.outside.receive s.world) (s.note .receiving)).moments =
      s.moments ++ s.moment .receiving :: as ∧ tally Event.fetches as = 0 := by
  generalize w.outside.receive s.world = r
  obtain ⟨as, spell, incidental⟩ := w.spell_heard r (s.note .receiving)
  have closing : (Event.closing .fetch .received r.outcome).fetches = false := by
    cases r.outcome <;> rfl
  rw [answered, Site.moments_note, spell.moments, Site.moments_note]
  simp only [List.append_assoc, List.cons_append, List.nil_append]
  refine ⟨_, rfl, ?_⟩
  rw [tally_append, tally_incidental Event.sober_fetches incidental, tally_cons,
    Site.event_moment, closing]
  rfl

theorem work_spec (w : Worker σ) (fuel : Nat) (s : Site σ) :
    ∃ r t ms, w.work fuel s = (r, t) ∧ t.moments = s.moments ++ ms ∧ w.Worked s t ms r := by
  rw [work, Act.bind_done (Act.setProgress_apply _ s), isDeactivated, bind_assoc,
    Act.bind_done (Act.look_apply _ _), bind_assoc, Act.bind_done (Act.note_apply _ _), pure_bind]
  generalize ht : s.withStatus { s.status with progress := .fresh } = t
  have moments : t.moments = s.moments := by rw [← ht, Site.moments_withStatus]
  have world : t.world = s.world := by rw [← ht, Site.world_withStatus]
  generalize w.outside.isDeactivated t.world = deactivated
  cases deactivated with
  | true =>
    rw [if_pos rfl, Act.bind_done (Act.setStatus_apply _ _), Act.bind_done (w.log_apply _ _ _)]
    generalize hv : (t.note (.ownerAsked true)).withStatus _ = v
    have before : v.moments = s.moments ++ [t.moment (.ownerAsked true)] := by
      rw [← hv, Site.moments_withStatus, Site.moments_note, moments]
    have up : v.status.terminated = true := by rw [← hv, Site.status_withStatus]
    obtain ⟨x, shown, _, hx⟩ := w.logged_shown .debug
      "Exiting worker since the message processor is deactivated" v
    refine ⟨_, _, [t.moment (.ownerAsked true), x], rfl, by simp [shown, before], .barred ?_ up⟩
    simp [hx, Event.ofFetch]
  | false =>
    have receive := w.receive_apply (t.note (.ownerAsked false))
    obtain ⟨as, fetched, fetchless⟩ := w.receive_shown (t.note (.ownerAsked false))
    rw [Site.world_note] at receive fetched
    generalize w.outside.receive t.world = r at receive fetched
    obtain ⟨q, v, ms, attend, shown, opens, gives⟩ := w.attend_spec fuel r.outcome
      (w.answered .fetch .received r ((t.note (.ownerAsked false)).note .receiving))
    have all : v.moments = s.moments ++ t.moment (.ownerAsked false) ::
        (t.note (.ownerAsked false)).moment .receiving :: (as ++ ms) := by
      rw [shown, fetched, Site.moments_note, moments]
      simp
    have fetches : tally Event.fetches (as ++ ms) = 0 := by
      rw [tally_append, fetchless, tally_fetches_of_opens opens]
    have gives' (fault : Fault) (hq : q = .raised fault) :
        0 < tally Event.givesUp (as ++ ms) := by
      rw [tally_append]
      exact Nat.add_pos_right _ (gives fault hq)
    rw [if_neg Bool.false_ne_true, Act.bind_done (Act.catching_ofExcept receive)]
    rcases q with _ | fault | _
    · rw [Act.bind_done attend]
      refine ⟨_, v, _, rfl, all, .fetched rfl rfl rfl world fetches (by simp) fun stops => ?_⟩
      exact cronMode_of_drained (by simpa using stops)
    · rw [Act.bind_raised attend]
      exact ⟨_, v, _, rfl, all,
        .fetched rfl rfl rfl world fetches (fun _ _ => gives' _ rfl) (by simp)⟩
    · rw [Act.bind_unfinished attend]
      exact ⟨_, v, _, rfl, all, .fetched rfl rfl rfl world fetches (by simp) (by simp)⟩

/-! ## Loops -/

theorem shown_of_omits {α : Type} {p : Event → Bool} {x : Act σ α} (hx : w.Composed x)
    (omits : Act.Omits p x) (s : Site σ) :
    ∃ ms, (x s).2.moments = s.moments ++ ms ∧ tally p ms = 0 := by
  obtain ⟨ms, shown⟩ := hx.built.shown s
  have same : tally p (s.moments ++ ms) = tally p s.moments := by
    rw [← shown]
    exact omits _ s rfl
  exact ⟨ms, shown, by rw [tally_append] at same; omega⟩

section Rules

variable {I : Site σ → Prop} {F : Ending Unit → Site σ → Prop} {begun : Int} {s : Site σ}

def Proceeds (I : Site σ → Prop) (F : Ending Unit → Site σ → Prop) : Ending Bool × Site σ → Prop
  | (.done true, t) => I t
  | (.done false, t) => F (.done ()) t
  | (.raised fault, t) => F (.raised fault) t
  | (.unfinished, t) => F .unfinished t

theorem Proceeds.of_always {J : Site σ → Prop} {p : Ending Bool × Site σ} (ends : J p.2)
    (more : p.1 = .done true → I p.2) : Proceeds I (fun _ => J) p := by
  match p with
  | (.done true, t) => exact more rfl
  | (.done false, t) => exact ends
  | (.raised fault, t) => exact ends
  | (.unfinished, t) => exact ends

theorem turn_rule {fuel : Nat}
    (paces : ∀ {t}, w.work fuel s = (.done true, t) → Proceeds I F (w.pace begun t))
    (ends : ∀ {r t}, w.work fuel s = (r, t) → r ≠ .done true → Proceeds I F (r, t)) :
    Proceeds I F (w.turn begun fuel s) := by
  rw [turn_eq]
  match work : w.work fuel s with
  | (.done true, t) =>
    rw [Act.bind_done work]
    exact paces work
  | (.done false, t) =>
    rw [Act.bind_done work]
    exact ends work (by simp)
  | (.raised fault, t) =>
    rw [Act.bind_raised work]
    exact ends work (by simp)
  | (.unfinished, t) =>
    rw [Act.bind_unfinished work]
    exact ends work (by simp)

theorem turns_succ {fuel : Nat} {t : Site σ} {more : Bool} (running : s.status.terminated = false)
    (turn : w.turn begun fuel s = (.done more, t)) :
    w.turns begun (fuel + 1) s = Act.onlyIf more (w.turns begun fuel) t := by
  rw [turns, Act.bind_done (Act.status_apply s), Act.onlyIf, if_pos running, Act.bind_done turn]

/-- The rule of the loop: `I` is its invariant, and `F` is what is left when it ends. -/
theorem turns_rule (out : ∀ {s}, I s → F .unfinished s)
    (stopped : ∀ {s}, I s → s.status.terminated = true → F (.done ()) s)
    (step : ∀ {s} (fuel : Nat), I s → s.status.terminated = false →
      Proceeds I F (w.turn begun fuel s)) (fuel : Nat) (hs : I s) :
    F (w.turns begun fuel s).1 (w.turns begun fuel s).2 := by
  induction fuel generalizing s with
  | zero => exact out hs
  | succ fuel ih =>
    cases up : s.status.terminated with
    | true =>
      rw [turns, Act.bind_done (Act.status_apply s), Act.onlyIf, if_neg (by simp [up])]
      exact stopped hs up
    | false =>
      have continues := step fuel hs up
      rcases turn : w.turn begun fuel s with ⟨more | fault | _, t⟩
      · rw [turn] at continues
        rw [turns_succ up turn]
        cases more with
        | true => exact ih continues
        | false => exact continues
      · rw [turn] at continues
        rw [turns, Act.bind_done (Act.status_apply s), Act.onlyIf, if_pos up,
          Act.bind_raised turn]
        exact continues
      · rw [turn] at continues
        rw [turns, Act.bind_done (Act.status_apply s), Act.onlyIf, if_pos up,
          Act.bind_unfinished turn]
        exact continues

theorem run_rule (fuel : Nat)
    (ready : ∀ {t}, w.ready (s.note .runBegun) = (.done (.ok ()), t) →
      F (w.turns (w.outside.now s.world) fuel t).1 (w.turns (w.outside.now s.world) fuel t).2)
    (giveUp : ∀ {t fault}, w.ready (s.note .runBegun) = (.done (.error fault), t) →
      F (w.giveUpAcquiring fault t).1 (w.giveUpAcquiring fault t).2)
    (raised : ∀ {t fault}, w.ready (s.note .runBegun) = (.raised fault, t) → F (.raised fault) t)
    (out : ∀ {t}, w.ready (s.note .runBegun) = (.unfinished, t) → F .unfinished t)
    (close : ∀ {t}, F (.done ()) t →
      F (.done ()) (w.logged .debug "Exiting worker iteration" t)) :
    F (w.run fuel s).1 (w.run fuel s).2 := by
  rw [run_eq, Act.bind_done (Act.note_apply _ s), Act.bind_done (Act.look_apply _ _)]
  rcases readied : w.ready (s.note .runBegun) with ⟨(fault | _) | fault | _, t⟩
  · rw [Act.bind_done readied]
    exact giveUp readied
  · have turns := ready readied
    rw [Act.bind_done readied]
    dsimp only
    rw [forwardAll, Site.world_note]
    rcases all : w.turns (w.outside.now s.world) fuel t with ⟨_ | fault | _, u⟩
    · rw [all] at turns
      rw [Act.bind_done all]
      exact close turns
    · rw [all] at turns
      rw [Act.bind_raised all]
      exact turns
    · rw [all] at turns
      rw [Act.bind_unfinished all]
      exact turns
  · rw [Act.bind_raised readied]
    exact raised readied
  · rw [Act.bind_unfinished readied]
    exact out readied

theorem run_rule_of_fetches {J : Site σ → Prop} (fuel : Nat)
    (start : ∀ {t ns}, t.moments = s.moments ++ ns → tally Event.ofFetch ns = 0 → I t)
    (turn : ∀ {t} (fuel : Nat), I t →
      Proceeds I (fun _ => J) (w.turn (w.outside.now s.world) fuel t))
    (weaken : ∀ {t}, I t → J t)
    (idle : ∀ {t u ns}, J t → u.moments = t.moments ++ ns → tally Event.ofFetch ns = 0 → J u) :
    J (w.run fuel s).2 := by
  obtain ⟨ns, shown, quiet⟩ := shown_of_omits w.composed_ready
    (w.omits_ready Event.within_ofFetch rfl) (s.note .runBegun)
  have begins {r : Ending (Except Fault Unit)} {t : Site σ}
      (ready : w.ready (s.note .runBegun) = (r, t)) : I t := by
    rw [ready, Site.moments_note, List.append_assoc] at shown
    exact start shown (by simpa [Event.ofFetch] using quiet)
  refine run_rule (F := fun _ => J) fuel (fun {t} ready => ?_) (fun {t fault} ready => ?_)
    (fun ready => weaken (begins ready)) (fun ready => weaken (begins ready)) fun {t} ended => ?_
  · exact turns_rule weaken (fun hs _ => weaken hs) (fun fuel hs _ => turn fuel hs) fuel
      (begins ready)
  · obtain ⟨u, ms, r, giveUp, given⟩ := w.giveUp_spec
      ("Initialization failed, deactivating the message processor: " ++ ·)
      "Initialization failed with an unknown error, deactivating the message processor" fault none t
    rw [giveUpAcquiring, giveUp]
    exact idle (weaken (begins ready)) given.moments
      (given.staged.tally Event.within_ofFetch (by decide))
  · exact idle ended (Site.moments_note _ t) rfl

end Rules

end Worker

end Courier
