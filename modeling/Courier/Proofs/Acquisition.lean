import Courier.Proofs.GivingUp
import Courier.Proofs.Pacing

namespace Courier

variable {σ α : Type}

namespace Event

def requests : Event → Bool
  | .requestingConsumer => true
  | _ => false

def grants : Event → Bool
  | .consumer given => given
  | _ => false

def works : Event → Bool
  | .receiving | .sending _ _ | .acknowledged _ => true
  | _ => false

theorem within_requests : Within .acquisition requests := by
  intro e h
  cases e <;> first | rfl | cases h

theorem within_grants : Within .acquisition grants := by
  intro e h
  cases e <;> first | rfl | cases h

theorem sober_requests : Sober requests := within_requests.sober (by decide)

theorem sober_grants : Sober grants := within_grants.sober (by decide)

end Event

def Stage.laborious : Stage → Bool
  | .opening | .attempt | .settlement => true
  | _ => false

theorem Event.not_works_of_stage {e : Event} (h : e.stage.laborious = false) :
    e.works = false := by
  cases e <;> first | rfl | cases h

theorem tally_works_of_staged {g : Stage} {ms : List (Moment σ)} (h : Staged g ms)
    (hg : g.laborious = false) : tally Event.works ms = 0 := by
  rw [tally_eq_zero]
  intro x hx
  apply Event.not_works_of_stage
  rcases h x hx with h | h
  · rw [h]
    rfl
  · rw [h, hg]

/-! ## What is done stays done -/

structure Site.Follows (s t : Site σ) (ms : List (Moment σ)) : Prop where
  moments : t.moments = s.moments ++ ms
  onward : s.status.Onward t.status
  since : ∀ x ∈ ms, s.status.Onward x.status
  upTo : ∀ x ∈ ms, x.status.Onward t.status
  ordered : ms.Pairwise fun x y => x.status.Onward y.status

namespace Site.Follows

variable {s t u : Site σ} {ms ns : List (Moment σ)}

theorem refl (s : Site σ) : Follows s s [] :=
  ⟨by simp, .refl _, by simp, by simp, .nil⟩

theorem trans (h : Follows s t ms) (k : Follows t u ns) : Follows s u (ms ++ ns) where
  moments := by rw [k.moments, h.moments, List.append_assoc]
  onward := h.onward.trans k.onward
  since := List.forall_mem_append.2 ⟨h.since, fun x hx => h.onward.trans (k.since x hx)⟩
  upTo := List.forall_mem_append.2 ⟨fun x hx => (h.upTo x hx).trans k.onward, k.upTo⟩
  ordered := List.pairwise_append.2 ⟨h.ordered, k.ordered, fun x hx y hy =>
    (h.upTo x hx).trans (k.since y hy)⟩

theorem note (h : Follows s t ms) (e : Event) : Follows s (t.note e) (ms ++ [t.moment e]) :=
  h.trans ⟨by simp, .refl _, by simp [Status.Onward.refl], by simp [Status.Onward.refl], by simp⟩

theorem withStatus (h : Follows s t ms) {r : Status} (onward : t.status.Onward r) :
    Follows s (t.withStatus r) ms := by
  have step : Follows t (t.withStatus r) [] := ⟨by simp, onward, by simp, by simp, .nil⟩
  simpa using h.trans step

theorem same (h : Follows s t ms) (moments : u.moments = t.moments)
    (status : u.status = t.status) : Follows s u ms :=
  ⟨moments.trans h.moments, status ▸ h.onward, h.since, status ▸ h.upTo, h.ordered⟩

end Site.Follows

theorem Act.Built.follows {x : Act σ α} (h : Act.Built x) (s : Site σ) :
    ∃ ms, s.Follows (x s).2 ms := by
  have keeps : Act.Keeps (fun t => ∃ ms, s.Follows t ms) x := by
    induction h with
    | bind _ _ ihx ihf => exact ihx.bind ihf
    | catching _ ih => exact ih.catching
    | setStatus f hf => exact fun t ⟨ms, h⟩ => ⟨ms, h.withStatus (hf t.status)⟩
    | note e => exact fun t ⟨ms, h⟩ => ⟨_, h.note e⟩
    | count counter => exact fun t ⟨ms, h⟩ => ⟨ms, h.same rfl rfl⟩
    | query q => exact fun t ⟨ms, h⟩ => ⟨ms, h.same rfl rfl⟩
    | move f => exact fun t ⟨ms, h⟩ => ⟨ms, h.same rfl rfl⟩
    | _ => exact fun _ h => h
  exact keeps s ⟨[], .refl s⟩

namespace Worker

open Site (Spell Follows)

/-! ## What becomes of the consumer -/

structure Custody (w : Worker σ) (s t : Site σ) (ms : List (Moment σ)) : Prop
    extends Follows s t ms where
  requested : ∀ x ∈ ms, x.event.requests = true →
    x.status.holdsConsumer = false ∧ w.settings.complaints = []
  granted : s.status.holdsConsumer.toNat + tally Event.grants ms = t.status.holdsConsumer.toNat
  used : ∀ x ∈ ms, x.event.works = true → x.status.holdsConsumer = true

namespace Custody

variable {w : Worker σ} {s t u : Site σ} {ms ns : List (Moment σ)}

theorem trans (h : Custody w s t ms) (k : Custody w t u ns) : Custody w s u (ms ++ ns) where
  toFollows := h.toFollows.trans k.toFollows
  requested := List.forall_mem_append.2 ⟨h.requested, k.requested⟩
  granted := by
    rw [tally_append, ← k.granted, ← h.granted]
    omega
  used := List.forall_mem_append.2 ⟨h.used, k.used⟩

theorem of_quiet (follows : Follows s t ms)
    (holds : t.status.holdsConsumer = s.status.holdsConsumer)
    (requests : tally Event.requests ms = 0) (grants : tally Event.grants ms = 0)
    (works : tally Event.works ms = 0) : Custody w s t ms where
  toFollows := follows
  requested x hx asked := by simp [tally_eq_zero.1 requests x hx] at asked
  granted := by rw [grants, holds, Nat.add_zero]
  used x hx worked := by simp [tally_eq_zero.1 works x hx] at worked

theorem of_held (follows : Follows s t ms) (held : s.status.holdsConsumer = true)
    (requests : tally Event.requests ms = 0) (grants : tally Event.grants ms = 0) :
    Custody w s t ms where
  toFollows := follows
  requested x hx asked := by simp [tally_eq_zero.1 requests x hx] at asked
  granted := by rw [grants, held, follows.onward.held held, Nat.add_zero]
  used x hx _ := (follows.since x hx).held held

theorem of_staged {g : Stage} (follows : Follows s t ms)
    (holds : t.status.holdsConsumer = s.status.holdsConsumer) (staged : Staged g ms)
    (hg : g.laborious = false ∧ g ≠ .acquisition) : Custody w s t ms := by
  have other : Stage.acquisition ≠ .incidental ∧ Stage.acquisition ≠ g := ⟨by decide, hg.2.symm⟩
  exact of_quiet follows holds (staged.tally Event.within_requests other)
    (staged.tally Event.within_grants other) (tally_works_of_staged staged hg.1)

end Custody

def AsksLate (ms : List (Moment σ)) : Prop :=
  ∃ x ∈ ms, x.event.requests = true ∧ x.status.terminated = true

theorem asksLate_append {ms ns : List (Moment σ)} :
    AsksLate (ms ++ ns) ↔ AsksLate ms ∨ AsksLate ns := by
  simp [AsksLate, or_and_right, exists_or]

theorem not_asksLate {ms : List (Moment σ)} (h : tally Event.requests ms = 0) : ¬AsksLate ms := by
  rintro ⟨x, hx, asked, -⟩
  simp [tally_eq_zero.1 h x hx] at asked

section Runs

variable (w : Worker σ)

/-! ## The way to the turns -/

theorem holds_startupDelay (c : Prop) [Decidable c] (s : Site σ) :
    (Act.onlyIf c w.startupDelay s).2.status.holdsConsumer = s.status.holdsConsumer := by
  have keeps : Act.Keeps (fun t => t.status.holdsConsumer = s.status.holdsConsumer)
      (Act.onlyIf c w.startupDelay) := by
    refine .onlyIf c (.bind (fun t ht => ?_) fun _ => .bind (.onlyIf _ fun _ ht => ht)
      fun _ _ ht => ht)
    obtain ⟨r, u, ms, sleep, spell, -⟩ := w.clockSleep_spec w.settings.startupDelayMs t
    rw [sleep, spell.status]
    exact ht
  exact keeps s rfl

theorem startup_custody (s : Site σ) :
    ∃ ms, Custody w s (Act.onlyIf s.status.delayDue w.startupDelay (s.note .runBegun)).2 ms ∧
      tally Event.requests ms = 0 ∧ Undisturbed ms := by
  have begun : Custody w s (s.note .runBegun) [s.moment .runBegun] :=
    .of_quiet ((Follows.refl s).note _) rfl rfl rfl rfl
  obtain ⟨ms, waits⟩ := (Act.Built.onlyIf s.status.delayDue w.composed_startupDelay.built).follows
    (s.note .runBegun)
  have rest : Staged .rest ms := by
    obtain ⟨r, t, ns, startup, grows, staged, -⟩ :=
      w.startup_spec s.status.delayDue (s.note .runBegun)
    rw [startup] at waits
    rwa [List.append_cancel_left (waits.moments.symm.trans grows.moments)]
  refine ⟨[s.moment .runBegun] ++ ms,
    begun.trans (.of_staged waits (w.holds_startupDelay _ _) rest (by decide)), ?_, ?_⟩
  · rw [tally_append, rest.tally Event.within_requests (by decide)]
    rfl
  · exact Undisturbed.append (by simp [Undisturbed, Event.stage]) (.of_staged rest (by decide))

structure Requested (s t : Site σ) (ms : List (Moment σ)) : Prop where
  moments : t.moments = s.moments ++ ms
  staged : Staged .acquisition ms
  asked : ∀ x ∈ ms, x.event.requests = true → x.status = s.status ∧ w.settings.complaints = []
  asks : w.settings.complaints = [] → ∃ x ∈ ms, x.event.requests = true ∧ x.status = s.status
  granted : tally Event.grants ms = t.status.holdsConsumer.toNat

variable {w} in
theorem Requested.after {s t u : Site σ} {ms ns : List (Moment σ)} (h : w.Requested s t ms)
    (spell : Spell t u ns) (staged : Staged .acquisition ns)
    (requests : tally Event.requests ns = 0) (grants : tally Event.grants ns = 0) :
    w.Requested s u (ms ++ ns) where
  moments := by rw [spell.moments, h.moments, List.append_assoc]
  staged := h.staged.append staged
  asked x hx requested := by
    rcases List.mem_append.1 hx with hx | hx
    · exact h.asked x hx requested
    · simp [tally_eq_zero.1 requests x hx] at requested
  asks inOrder := by
    obtain ⟨x, hx, asked⟩ := h.asks inOrder
    exact ⟨x, List.mem_append_left _ hx, asked⟩
  granted := by rw [tally_append, h.granted, grants, spell.status, Nat.add_zero]

variable {w} in
theorem Requested.asksLate_iff {s t : Site σ} {ms : List (Moment σ)} (h : w.Requested s t ms) :
    AsksLate ms ↔ w.settings.complaints = [] ∧ s.status.terminated = true := by
  constructor
  · rintro ⟨x, hx, requests, up⟩
    obtain ⟨status, inOrder⟩ := h.asked x hx requests
    exact ⟨inOrder, status ▸ up⟩
  · rintro ⟨inOrder, up⟩
    obtain ⟨x, hx, requests, status⟩ := h.asks inOrder
    exact ⟨x, hx, requests, status ▸ up⟩

variable {w} in
theorem Requested.custody {s t : Site σ} {ms ns : List (Moment σ)} (h : w.Requested s t ms)
    (bare : s.status.holdsConsumer = false) (follows : Follows s t ns) : Custody w s t ms where
  toFollows := by rwa [List.append_cancel_left (h.moments.symm.trans follows.moments)]
  requested x hx requests := by
    obtain ⟨status, inOrder⟩ := h.asked x hx requests
    exact ⟨status ▸ bare, inOrder⟩
  granted := by rw [bare, h.granted, Bool.toNat_false, Nat.zero_add]
  used x hx works := by
    simp [tally_eq_zero.1 (tally_works_of_staged h.staged rfl) x hx] at works

theorem acquire_spec {s : Site σ} (bare : s.status.holdsConsumer = false) :
    ∃ r t ms, w.acquire s = (.ofExcept r, t) ∧ w.Requested s t ms := by
  cases complaints : w.settings.complaints with
  | cons complaint _ =>
    simp only [acquire, complaints]
    exact ⟨.error _, s, [], rfl, by simp, .nil, by simp, by simp [complaints], by simp [bare]⟩
  | nil =>
    simp only [acquire, complaints]
    obtain ⟨r, u, ms, create, spell, called, begins⟩ := w.createConsumer_spec s
    have unheld : u.status.holdsConsumer = false := by rw [spell.status, bare]
    have closing : (Event.closing .consumer .consumer r).requests = false := by cases r <;> rfl
    have asks : ∃ x ∈ ms, x.event.requests = true ∧ x.status = s.status := by
      obtain ⟨x, as, y, rfl, hx, -, -⟩ := called
      exact ⟨x, by simp, by rw [hx]; rfl, begins x rfl⟩
    have staged : Staged .acquisition ms := called.staged rfl (by cases r <;> rfl)
    have asked {t : Site σ} (moments : t.moments = u.moments)
        (given : (Event.closing .consumer .consumer r).grants = t.status.holdsConsumer) :
        w.Requested s t ms := by
      refine ⟨moments.trans spell.moments, staged, fun x hx requests => ⟨?_, complaints⟩,
        fun _ => asks, ?_⟩
      · exact called.begun Event.sober_requests closing begins x hx requests
      · rw [called.tally_eq Event.sober_grants, given]
        simp [Event.grants]
    have naming {t : Site σ} (h : w.Requested s t ms) :
        ∃ q v ns, w.storeName t = (.ofExcept q, v) ∧ w.Requested s v (ms ++ ns) := by
      obtain ⟨q, v, ns, name, spell, called, -⟩ := w.storeName_spec t
      refine ⟨q, v, ns, name, h.after spell (called.staged rfl (by cases q <;> rfl)) ?_ ?_⟩
      · rw [called.tally_eq Event.sober_requests]
        cases q <;> rfl
      · rw [called.tally_eq Event.sober_grants]
        cases q <;> rfl
    cases r with
    | error fault =>
      exact ⟨.error fault, u, ms, Act.bind_raised create _, asked rfl unheld.symm⟩
    | ok given =>
      rw [Act.bind_done create]
      cases given with
      | false =>
        obtain ⟨q, v, ns, name, requested⟩ := naming (asked rfl unheld.symm)
        cases q with
        | error fault => exact ⟨.error fault, v, _, Act.bind_raised name _, requested⟩
        | ok store => exact ⟨.error _, v, _, Act.bind_done name _, requested⟩
      | true =>
        have held : w.Requested s (u.withStatus { u.status with holdsConsumer := true }) ms :=
          asked rfl rfl
        obtain ⟨q, v, ns, name, requested⟩ := naming held
        rw [if_pos rfl, Act.bind_done (Act.setStatus_apply _ u)]
        cases q with
        | error fault => exact ⟨.error fault, v, _, Act.bind_raised name _, requested⟩
        | ok store =>
          rw [Act.bind_done name]
          exact ⟨.ok (), _, _, rfl, requested.after ((Spell.refl v).note _) (.of_incidental (by
            simp [Event.incidental])) rfl rfl⟩

theorem acquire_custody {s t : Site σ} {r : Ending Unit} (bare : s.status.holdsConsumer = false)
    (acquire : w.acquire s = (r, t)) : ∃ ms, w.Requested s t ms ∧ Custody w s t ms := by
  obtain ⟨q, u, ms, acquire', requested⟩ := w.acquire_spec bare
  obtain ⟨ns, follows⟩ := w.composed_acquire.built.follows s
  rw [acquire] at acquire' follows
  obtain ⟨-, rfl⟩ := Prod.mk.inj acquire'
  exact ⟨ms, requested, requested.custody bare follows⟩

def late (s : Site σ) : Bool :=
  match Act.onlyIf s.status.delayDue w.startupDelay (s.note .runBegun) with
  | (.done _, t) => !s.status.holdsConsumer && t.status.terminated
  | _ => false

def fails (s : Site σ) : Bool :=
  match (w.ready (s.note .runBegun)).1 with
  | .done (.error _) => true
  | _ => false

inductive Starts (fuel : Nat) (s : Site σ) : Ending Unit × Site σ → Prop
  | broken {t fault} :
      Act.onlyIf s.status.delayDue w.startupDelay (s.note .runBegun) = (.raised fault, t) →
      w.late s = false → w.fails s = false → Starts fuel s (.raised fault, t)
  | held {t} : Act.onlyIf s.status.delayDue w.startupDelay (s.note .runBegun) = (.done (), t) →
      s.status.holdsConsumer = true → w.late s = false → w.fails s = false →
      Starts fuel s (w.forwardAll (w.outside.now s.world) fuel t)
  | acquired {t u} :
      Act.onlyIf s.status.delayDue w.startupDelay (s.note .runBegun) = (.done (), t) →
      t.status.holdsConsumer = false → w.acquire t = (.done (), u) →
      w.late s = t.status.terminated → w.fails s = false →
      Starts fuel s (w.forwardAll (w.outside.now s.world) fuel u)
  | failed {t u fault} :
      Act.onlyIf s.status.delayDue w.startupDelay (s.note .runBegun) = (.done (), t) →
      t.status.holdsConsumer = false → w.acquire t = (.raised fault, u) →
      w.late s = t.status.terminated → w.fails s = true →
      Starts fuel s (w.giveUpAcquiring fault u)

theorem run_unready {s t : Site σ} {fault : Fault}
    (unready : w.ready (s.note .runBegun) = (.done (.error fault), t)) (fuel : Nat) :
    w.run fuel s = w.giveUpAcquiring fault t := by
  rw [run_eq, Act.bind_done (Act.note_apply _ s), Act.bind_done (Act.look_apply _ _),
    Act.bind_done unready]

theorem run_broken {s t : Site σ} {fault : Fault}
    (broken : w.ready (s.note .runBegun) = (.raised fault, t)) (fuel : Nat) :
    w.run fuel s = (.raised fault, t) := by
  rw [run_eq, Act.bind_done (Act.note_apply _ s), Act.bind_done (Act.look_apply _ _),
    Act.bind_raised broken]

theorem starts_run (fuel : Nat) (s : Site σ) : w.Starts fuel s (w.run fuel s) := by
  obtain ⟨r, t, ms, startup, -⟩ := w.startup_spec s.status.delayDue (s.note .runBegun)
  have ready : w.ready (s.note .runBegun) = (Act.onlyIf s.status.delayDue w.startupDelay >>=
      fun _ => if s.status.holdsConsumer then pure (.ok ()) else Act.catching w.acquire)
      (s.note .runBegun) := rfl
  cases r with
  | error fault =>
    rw [Act.bind_raised startup] at ready
    rw [run_broken w ready]
    refine .broken startup ?_ ?_
    · rw [late, startup]
      rfl
    · rw [fails, ready]
  | ok _ =>
    rw [Act.bind_done startup] at ready
    have startup : Act.onlyIf s.status.delayDue w.startupDelay (s.note .runBegun) =
      (.done (), t) := startup
    cases holds : s.status.holdsConsumer with
    | true =>
      rw [holds, if_pos rfl] at ready
      have ready : w.ready (s.note .runBegun) = (.done (.ok ()), t) := ready
      rw [run_begun ready]
      refine .held startup holds ?_ ?_
      · simp [late, startup, holds]
      · rw [fails, ready]
    | false =>
      have bare : t.status.holdsConsumer = false := by
        have kept := w.holds_startupDelay s.status.delayDue (s.note .runBegun)
        rw [startup] at kept
        exact kept.trans holds
      have late : w.late s = t.status.terminated := by simp [Worker.late, startup, holds]
      obtain ⟨q, u, -, acquire, -⟩ := w.acquire_spec bare
      rw [holds, if_neg Bool.false_ne_true] at ready
      cases q with
      | ok _ =>
        rw [Act.catching_done acquire] at ready
        rw [run_begun ready]
        refine .acquired startup bare acquire late ?_
        rw [fails, ready]
      | error fault =>
        rw [Act.catching_raised acquire] at ready
        rw [run_unready w ready]
        refine .failed startup bare acquire late ?_
        rw [fails, ready]

/-! ## A run -/

theorem GivenUp.once {s t : Site σ} {ms : List (Moment σ)} {fault : Fault} {r : Except Fault Unit}
    (h : GivenUp fault none s t ms r) :
    t.status.terminated = true ∧ tally Event.givesUp ms = 1 ∧ tally Event.retires ms = 1 := by
  obtain ⟨x, y, ns, rfl, hx, hy, retired⟩ := h.retired
  have givesUp := retired.givesUp
  cases retired with
  | spoiled sent => cases sent
  | gone sent called terminated =>
    cases sent
    have retires := called.tally_eq (Event.within_retires.sober (by decide))
    refine ⟨terminated, ?_, ?_⟩
    · rw [tally_cons, tally_cons, givesUp, hx, Event.within_givesUp.sober (by decide) _ hy]
      rfl
    · rw [tally_cons, tally_cons, List.nil_append, retires, hx,
        Event.within_retires.sober (by decide) _ hy]
      cases r <;> rfl

theorem holds_giveUpAcquiring (fault : Fault) (s : Site σ) :
    (w.giveUpAcquiring fault s).2.status.holdsConsumer = s.status.holdsConsumer := by
  have keeps : Act.Keeps (fun t => t.status.holdsConsumer = s.status.holdsConsumer)
      (w.giveUpAcquiring fault) := by
    refine .bind (fun _ ht => ht) fun _ => .bind (fun _ ht => ht) fun _ => .bind (.pure _) fun _ =>
      .bind (fun _ ht => ht) fun _ => .bind (fun t ht => ?_) fun _ _ ht => ht
    obtain ⟨r, u, ms, deactivate, spell, -⟩ := w.deactivateOwner_spec t
    rw [deactivate, spell.status]
    exact ht
  exact keeps s rfl

theorem giveUpAcquiring_shown (fault : Fault) (s : Site σ) :
    ∃ ms, Custody w s (w.giveUpAcquiring fault s).2 ms ∧ tally Event.requests ms = 0 ∧
      (w.giveUpAcquiring fault s).2.status.terminated = true ∧
      tally Event.givesUp ms = 1 ∧ tally Event.retires ms = 1 := by
  obtain ⟨t, ms, r, giveUp, given⟩ := w.giveUp_spec
    ("Initialization failed, deactivating the message processor: " ++ ·)
    "Initialization failed with an unknown error, deactivating the message processor" fault none s
  change w.giveUpAcquiring fault s = _ at giveUp
  have composed : w.Composed (w.giveUpAcquiring fault) := w.composed_giveUp _ _ _ _
  obtain ⟨ns, follows⟩ := composed.built.follows s
  have same := w.holds_giveUpAcquiring fault s
  rw [giveUp] at follows same ⊢
  obtain rfl := List.append_cancel_left (follows.moments.symm.trans given.moments)
  exact ⟨ns, .of_staged follows same given.staged (by decide),
    given.staged.tally Event.within_requests (by decide), given.once⟩

theorem forwardAll_shown (begun : Int) (fuel : Nat) {s : Site σ}
    (held : s.status.holdsConsumer = true) :
    ∃ ms, Custody w s (w.forwardAll begun fuel s).2 ms ∧ tally Event.requests ms = 0 ∧
      (s.status.terminated = true → Undisturbed ms) := by
  have composed : w.Composed (w.forwardAll begun fuel) :=
    .bind (w.composed_turns begun fuel) fun _ => .log _ _
  have omits {p : Event → Bool} (hp : Event.Within .acquisition p) :
      Act.Omits p (w.forwardAll begun fuel) :=
    .bind (w.omits_turns hp begun fuel) fun _ => w.omits_log (hp.sober (by decide)) _ _
  obtain ⟨ms, follows⟩ := composed.built.follows s
  have none {p : Event → Bool} (hp : Event.Within .acquisition p) : tally p ms = 0 := by
    obtain ⟨ns, shown, quiet⟩ := shown_of_omits composed (omits hp) s
    rwa [List.append_cancel_left (shown.symm.trans follows.moments)] at quiet
  refine ⟨ms, .of_held follows held (none Event.within_requests) (none Event.within_grants),
    none Event.within_requests, fun up => ?_⟩
  obtain ⟨r, ended, -⟩ := turns_of_terminated (w := w) begun fuel up
  have shown : ∃ ns, (w.forwardAll begun fuel s).2.moments = s.moments ++ ns ∧ Undisturbed ns := by
    rw [forwardAll]
    rcases r with _ | _ | _
    · rw [Act.bind_done ended]
      exact ⟨[s.moment _], Site.moments_note _ s, by simp [Undisturbed, Event.stage]⟩
    · rw [Act.bind_raised ended]
      exact ⟨[], by simp, .nil⟩
    · rw [Act.bind_unfinished ended]
      exact ⟨[], by simp, .nil⟩
  obtain ⟨ns, shown, undisturbed⟩ := shown
  rwa [List.append_cancel_left (follows.moments.symm.trans shown)]

structure Dealt (s t : Site σ) (ms : List (Moment σ)) : Prop extends Custody w s t ms where
  late : AsksLate ms ↔ w.settings.complaints = [] ∧ w.late s = true
  failed : w.fails s = true → s.status.holdsConsumer = false ∧ t.status.terminated = true ∧
    tally Event.givesUp ms = 1 ∧ tally Event.retires ms = 1
  quiet : w.fails s = false → s.status.terminated = true ∨ t.status.holdsConsumer = false →
    Undisturbed ms

variable {w} in
theorem Custody.forwardAll {s t : Site σ} {ms : List (Moment σ)} (h : Custody w s t ms)
    (held : t.status.holdsConsumer = true)
    (late : AsksLate ms ↔ w.settings.complaints = [] ∧ w.late s = true)
    (fails : w.fails s = false) (undisturbed : Undisturbed ms) (begun : Int) (fuel : Nat) :
    ∃ ns, w.Dealt s (w.forwardAll begun fuel t).2 ns := by
  obtain ⟨ns, custody, requests, stopped⟩ := w.forwardAll_shown begun fuel held
  refine ⟨ms ++ ns, h.trans custody, ?_, by simp [fails], fun _ hs => ?_⟩
  · simp [asksLate_append, late, not_asksLate requests]
  · have up := hs.resolve_right (by simp [custody.onward.held held])
    exact undisturbed.append (stopped (h.onward.stopped up))

variable {w} in
theorem Custody.giveUp {s t : Site σ} {ms : List (Moment σ)} (h : Custody w s t ms)
    (bare : s.status.holdsConsumer = false)
    (late : AsksLate ms ↔ w.settings.complaints = [] ∧ w.late s = true)
    (fails : w.fails s = true) (undisturbed : Undisturbed ms) (fault : Fault) :
    ∃ ns, w.Dealt s (w.giveUpAcquiring fault t).2 ns := by
  obtain ⟨ns, custody, requests, stopped, givesUp, retires⟩ := w.giveUpAcquiring_shown fault t
  refine ⟨ms ++ ns, h.trans custody, ?_, fun _ => ⟨bare, stopped, ?_, ?_⟩, by simp [fails]⟩
  · simp [asksLate_append, late, not_asksLate requests]
  · rw [tally_append, undisturbed.tally Event.within_givesUp, givesUp]
  · rw [tally_append, undisturbed.tally Event.within_retires, retires]

theorem run_spec (fuel : Nat) (s : Site σ) : ∃ ms, w.Dealt s (w.run fuel s).2 ms := by
  obtain ⟨before, waits, requests, undisturbed⟩ := w.startup_custody s
  have unasked := not_asksLate requests
  have starts := w.starts_run fuel s
  generalize w.run fuel s = y at starts
  cases starts with
  | broken startup late fails =>
    rw [startup] at waits
    exact ⟨before, waits, by simp [unasked, late], by simp [fails], fun _ _ => undisturbed⟩
  | held startup holds late fails =>
    rw [startup] at waits
    exact waits.forwardAll (waits.onward.held holds) (by simp [unasked, late]) fails undisturbed _
      fuel
  | acquired startup bare acquire late fails =>
    rw [startup] at waits
    obtain ⟨ms, requested, custody⟩ := w.acquire_custody bare acquire
    refine (waits.trans custody).forwardAll (w.acquire_ready acquire) ?_ fails ?_ _ fuel
    · simp [asksLate_append, unasked, requested.asksLate_iff, late]
    · exact undisturbed.append (.of_staged requested.staged (by decide))
  | failed startup bare acquire late fails =>
    rw [startup] at waits
    obtain ⟨ms, requested, custody⟩ := w.acquire_custody bare acquire
    refine (waits.trans custody).giveUp (waits.onward.bare bare) ?_ fails ?_ _
    · simp [asksLate_append, unasked, requested.asksLate_iff, late]
    · exact undisturbed.append (.of_staged requested.staged (by decide))

/-! ## A life -/

def runSite (s : Site σ) : Visit σ → List (Site σ)
  | .run _ => [s]
  | _ => []

def runSites : List (Visit σ) → Site σ → List (Site σ)
  | [], _ => []
  | v :: vs, s => runSite s v ++ match Act.catching (w.receiveVisit v) s with
    | (.done _, t) => runSites vs t
    | _ => []

structure Tracked (k : Nat) (s : Site σ) : Prop where
  told : 0 < k ∨ s.status.holdsConsumer = false →
    tally Event.givesUp s.moments = k ∧ tally Event.retires s.moments = k
  stopped : 0 < k → s.status.terminated = true

structure Lived (as : List (Site σ)) (s t : Site σ) (ms : List (Moment σ)) : Prop
    extends Custody w s t ms where
  late : AsksLate ms ↔ w.settings.complaints = [] ∧ ∃ a ∈ as, w.late a = true
  tracked : ∀ k, Tracked k s → Tracked (k + as.countP w.fails) t
  once : (∀ a ∈ as, w.late a = false) → ∀ k ≤ 1, Tracked k s → k + as.countP w.fails ≤ 1

variable {w}

section Lived

variable {as bs : List (Site σ)} {s t u : Site σ} {ms ns : List (Moment σ)} {k : Nat}

theorem Lived.trans (h : w.Lived as s t ms) (l : w.Lived bs t u ns) :
    w.Lived (as ++ bs) s u (ms ++ ns) where
  toCustody := h.toCustody.trans l.toCustody
  late := by
    rw [asksLate_append, h.late, l.late, ← and_or_left]
    simp [or_and_right, exists_or]
  tracked k hk := by
    rw [List.countP_append, ← Nat.add_assoc]
    exact l.tracked _ (h.tracked k hk)
  once punctual k hk tracked := by
    obtain ⟨first, rest⟩ := List.forall_mem_append.1 punctual
    rw [List.countP_append, ← Nat.add_assoc]
    exact l.once rest _ (h.once first k hk tracked) (h.tracked k tracked)

theorem Tracked.later (h : Tracked k s) (follows : Follows s t ms)
    (quiet : 0 < k ∨ t.status.holdsConsumer = false → Undisturbed ms) : Tracked k t where
  told hk := by
    obtain ⟨givesUp, retires⟩ := h.told (hk.imp_right follows.onward.bare)
    rw [follows.moments, tally_append, tally_append, givesUp, retires,
      (quiet hk).tally Event.within_givesUp, (quiet hk).tally Event.within_retires]
    exact ⟨rfl, rfl⟩
  stopped hk := follows.onward.stopped (h.stopped hk)

theorem Lived.of_incidental (follows : Follows s t ms)
    (holds : t.status.holdsConsumer = s.status.holdsConsumer)
    (h : ∀ x ∈ ms, x.event.incidental = true) : w.Lived [] s t ms where
  toCustody := .of_staged follows holds (g := .incidental) (.of_incidental h) (by decide)
  late := by simp [not_asksLate (tally_incidental Event.sober_requests h)]
  tracked k hk := hk.later follows fun _ => .of_incidental h
  once _ k hk _ := by simpa using hk

theorem late_of_fails (fails : w.fails s = true) (up : s.status.terminated = true) :
    w.late s = true := by
  have waits := (Act.Built.onlyIf s.status.delayDue w.composed_startupDelay.built).onward
    (s.note .runBegun)
  have starts := w.starts_run 0 s
  generalize w.run 0 s = y at starts
  cases starts with
  | broken _ _ contained => simp [fails] at contained
  | held _ _ _ contained => simp [fails] at contained
  | acquired _ _ _ _ contained => simp [fails] at contained
  | failed startup _ _ late _ =>
    rw [startup] at waits
    rw [late]
    exact waits.stopped up

theorem Dealt.lived (h : w.Dealt s t ms) : w.Lived [s] s t ms where
  toCustody := h.toCustody
  late := by simpa using h.late
  tracked k hk := by
    cases fails : w.fails s with
    | false =>
      simp only [List.countP_singleton, fails, Bool.false_eq_true, if_false, Nat.add_zero]
      exact hk.later h.toFollows fun idle => h.quiet fails (idle.imp_left hk.stopped)
    | true =>
      obtain ⟨bare, stopped, givesUp, retires⟩ := h.failed fails
      obtain ⟨givesUp', retires'⟩ := hk.told (.inr bare)
      simp only [List.countP_singleton, fails, if_true]
      refine ⟨fun _ => ?_, fun _ => stopped⟩
      rw [h.moments, tally_append, tally_append, givesUp, retires, givesUp', retires']
      exact ⟨rfl, rfl⟩
  once punctual k hk tracked := by
    have intime : w.late s = false := punctual s (by simp)
    cases fails : w.fails s with
    | false => simpa [fails] using hk
    | true =>
      -- a worker that has failed before is terminated, and would be late
      have first : ¬0 < k := fun again => by
        simp [late_of_fails fails (tracked.stopped again)] at intime
      simp only [List.countP_singleton, fails, if_true]
      omega

end Lived

variable (w)

theorem lived_terminate (s : Site σ) : ∃ ms, w.Lived [] s (w.terminate s).2 ms := by
  obtain ⟨ms, follows⟩ := w.built_terminate.follows s
  obtain ⟨ns, spell, incidental⟩ := w.spell_halted s
  rw [terminate_apply] at follows
  obtain rfl := List.append_cancel_left (follows.moments.symm.trans spell.moments)
  exact ⟨ms, .of_incidental follows (by simp) fun x hx => (incidental x hx).1⟩

theorem live_spec (visits : List (Visit σ)) (s : Site σ) :
    ∃ ms, w.Lived (w.runSites visits s) s (w.live visits s).2 ms := by
  induction visits generalizing s with
  | nil => exact ⟨[], .of_incidental (.refl s) rfl (by simp)⟩
  | cons v vs ih =>
    have first : ∃ ms, w.Lived (runSite s v) s (Act.catching (w.receiveVisit v) s).2 ms := by
      rw [Act.catching_site]
      cases v with
      | run fuel =>
        obtain ⟨ms, ran⟩ := w.run_spec fuel s
        exact ⟨ms, ran.lived⟩
      | terminate => exact w.lived_terminate s
      | destroy => exact w.lived_terminate s
      | meanwhile f => exact ⟨[], .of_incidental ((Follows.refl s).same rfl rfl) rfl (by simp)⟩
    obtain ⟨ms, first⟩ := first
    rw [live, runSites]
    cases visit : Act.catching (w.receiveVisit v) s with
    | mk r t =>
      rw [visit] at first
      cases r with
      | done _ =>
        obtain ⟨ns, later⟩ := ih t
        rw [Act.bind_done visit]
        exact ⟨ms ++ ns, first.trans later⟩
      | raised _ =>
        rw [Act.bind_raised visit]
        exact ⟨ms, by simpa using first⟩
      | unfinished =>
        rw [Act.bind_unfinished visit]
        exact ⟨ms, by simpa using first⟩

def failures (world : σ) (visits : List (Visit σ)) : Nat :=
  (w.runSites visits (w.fresh world)).countP w.fails

structure AcquiredOnce (world : σ) (visits : List (Visit σ)) : Prop where
  requested : ∀ x ∈ (w.history world visits).moments, x.event.requests = true →
    x.status.holdsConsumer = false ∧ w.settings.complaints = []
  granted : tally Event.grants (w.history world visits).moments =
    (w.history world visits).status.holdsConsumer.toNat
  kept : (w.history world visits).moments.Pairwise fun x y =>
    x.status.holdsConsumer ≤ y.status.holdsConsumer
  keeps : ∀ more, (w.history world visits).status.holdsConsumer ≤
    (w.history world (visits ++ more)).status.holdsConsumer
  used : ∀ x ∈ (w.history world visits).moments, x.event.works = true →
    x.status.holdsConsumer = true
  failed : 0 < w.failures world visits → (w.history world visits).status.terminated = true ∧
    tally Event.givesUp (w.history world visits).moments = w.failures world visits ∧
    tally Event.retires (w.history world visits).moments = w.failures world visits
  late : AsksLate (w.history world visits).moments ↔
    w.settings.complaints = [] ∧ ∃ a ∈ w.runSites visits (w.fresh world), w.late a = true
  /-- Unless a run is late, there is no second failure. -/
  once : (∀ a ∈ w.runSites visits (w.fresh world), w.late a = false) →
    w.failures world visits ≤ 1

/-- A worker asks for its consumer until it has been given one. Whether it asks after it has been
terminated, or fails twice, depends on late runs alone. -/
theorem acquired_once (world : σ) (visits : List (Visit σ)) : w.AcquiredOnce world visits := by
  obtain ⟨ms, lived⟩ := w.live_spec visits (w.fresh world)
  have moments : (w.history world visits).moments = ms := by
    rw [history, lived.moments, moments_fresh, List.nil_append]
  have new : Tracked 0 (w.fresh world) := ⟨by simp, by simp⟩
  have tracked : Tracked (w.failures world visits) (w.history world visits) := by
    have tracked := lived.tracked 0 new
    rwa [Nat.zero_add] at tracked
  refine ⟨?_, ?_, ?_, fun more => ?_, ?_,
    fun hk => ⟨tracked.stopped hk, tracked.told (.inl hk)⟩, ?_, fun punctual => ?_⟩
  · rw [moments]
    exact lived.requested
  · rw [moments, history, ← lived.granted]
    exact (Nat.zero_add _).symm
  · rw [moments]
    exact lived.ordered.imp fun onward => onward.holdsConsumer
  · rw [history, history, live_append]
    refine Act.Keeps.after (I := fun t => _ ≤ t.status.holdsConsumer) (Bool.le_refl _)
      fun _ t ht => ?_
    obtain ⟨ns, later⟩ := w.live_spec more t
    exact Bool.le_trans ht later.onward.holdsConsumer
  · rw [moments]
    exact lived.used
  · rw [moments]
    exact lived.late
  · have once := lived.once punctual 0 (by decide) new
    rwa [Nat.zero_add] at once

end Runs

def barren : Worker (List Message) :=
  { plain {} (.ok none) with
    outside := { Outside.plain (.ok none) [] with createConsumer v := ⟨.ok false, v, []⟩ } }

/-- The first run stops the worker. The second one asks again, and all is reported again. -/
theorem asks_again :
    AsksLate (barren.history [] [.run 1, .run 1]).moments ∧
      barren.failures [] [.run 1, .run 1] = 2 ∧
      tally Event.givesUp (barren.history [] [.run 1, .run 1]).moments = 2 ∧
      tally Event.retires (barren.history [] [.run 1, .run 1]).moments = 2 := by
  unfold AsksLate
  decide

end Worker

end Courier
