import Courier.Proofs.Ledger
import Courier.Proofs.Mediation
import Mathlib.Data.Bool.Basic

namespace Courier

variable {σ α β : Type}

namespace Event

/-- Whether a failure leaves the cycle it comes up in. -/
def strays : Event → Bool
  | .failed .exchange .unknown | .failed (.sequence .reply) _ | .failed (.sequence .fault) _
  | .failed .sleep _ => true
  | _ => false

/-- Whether a retirement is cut short: the owner has failed, or the deactivate sequence in a way
nothing is known about. -/
def cutsShort : Event → Bool
  | .failed .deactivation _ | .failed (.sequence .deactivate) .unknown => true
  | _ => false

theorem stage_of_strays {e : Event} (h : e.strays = true) :
    e.stage = .attempt ∨ e.stage = .rest := by
  unfold strays at h
  split at h
  · exact .inl rfl
  · exact .inl rfl
  · exact .inl rfl
  · exact .inr rfl
  · cases h

theorem sober_strays : Sober strays := by
  intro e incidental
  cases e <;> first | rfl | cases incidental

theorem cutsShort_of_strikes {e : Event} (h : e.strikes = true)
    (stage : e.stage = .incidental ∨ e.stage = .retirement) : e.cutsShort = true := by
  unfold strikes at h
  split at h
  · rcases stage with stage | stage <;> cases stage
  · rfl
  · cases h

theorem cutsShort_of_spoils {e : Event} (h : e.spoils = true) : e.cutsShort = true := by
  unfold spoils at h
  split at h
  · rfl
  · cases h

end Event

theorem Staged.strays {g : Stage} {ms : List (Moment σ)} (h : Staged g ms) (attempt : g ≠ .attempt)
    (rest : g ≠ .rest) : Courier.tally Event.strays ms = 0 := by
  rw [tally_eq_zero]
  intro x hx
  rw [← Bool.not_eq_true]
  intro strays
  rcases Event.stage_of_strays strays with stage | stage <;> rcases h x hx with h | h <;>
    simp_all

inductive Surfaced : Ending α → List (Moment σ) → Prop
  | quiet {r ms} : tally Event.strays ms = 0 → Surfaced r ms
  | failed {ns x errand fault} : tally Event.strays ns = 0 → x.event = .failed errand fault →
      Surfaced (.raised fault) (ns ++ [x])

def Act.Surfaces (x : Act σ α) : Prop :=
  ∀ s, ∃ ms, (x s).2.moments = s.moments ++ ms ∧ Surfaced (x s).1 ms

section Surfaced

variable {ms ns : List (Moment σ)} {r : Ending α}

theorem Surfaced.before (h : Surfaced r ns) (quiet : tally Event.strays ms = 0) :
    Surfaced r (ms ++ ns) := by
  cases h with
  | quiet none => exact .quiet (by rw [tally_append, quiet, none])
  | failed none hx =>
    rw [← List.append_assoc]
    exact .failed (by rw [tally_append, quiet, none]) hx

theorem Surfaced.done {a : α} (h : Surfaced (.done a) ms) : tally Event.strays ms = 0 := by
  cases h with
  | quiet none => exact none

theorem Surfaced.raised {fault : Fault} (h : Surfaced (.raised fault : Ending α) ms) :
    Surfaced (.raised fault : Ending β) ms := by
  cases h with
  | quiet none => exact .quiet none
  | failed none hx => exact .failed none hx

theorem Called.surfaced {begun : Event} {errand : Errand} {ended : α → Event} {q : Except Fault α}
    (h : Called begun (.closing errand ended q) ms) (hb : begun.strays = false)
    (he : ∀ a, (ended a).strays = false) : Surfaced (.ofExcept q) ms := by
  cases q with
  | ok a =>
    refine .quiet ?_
    rw [h.tally_eq Event.sober_strays, hb, Event.closing, he]
    rfl
  | error fault =>
    obtain ⟨x, as, y, rfl, hx, has, hy⟩ := h
    rw [← List.cons_append]
    exact .failed (by rw [tally_cons, hx, hb, tally_incidental Event.sober_strays has]; rfl) hy

theorem Dispatched.surfaced {kind : Sequence.Kind} {m : Message} {q : Except Fault Message}
    (h : Dispatched kind m q ms) : Surfaced (.ofExcept q) ms := by
  have begun {x : Moment σ} (hx : x.event = .dispatching kind m) :
      tally Event.strays [x] = 0 := by
    rw [tally_cons, hx]
    rfl
  cases h with
  | missing hx hy => exact .before (.quiet (by rw [tally_cons, hy]; rfl)) (begun hx)
  | @mediated _ _ _ m' hx called =>
    have called : Called _ (.closing (.sequence kind) (fun _ => .mediated kind m') (.ok ())) _ :=
      called
    exact .before (.quiet (called.surfaced rfl fun _ => rfl).done) (begun hx)
  | @failed _ _ _ fault hx called =>
    have called : Called _ (.closing (.sequence kind) (fun _ : Message => .runBegun)
      (.error fault)) _ := called
    exact .before (called.surfaced rfl fun _ => rfl) (begun hx)

end Surfaced

namespace Act.Surfaces

theorem of_quiet {x : Act σ α}
    (h : ∀ s, ∃ ms, (x s).2.moments = s.moments ++ ms ∧ tally Event.strays ms = 0) :
    Surfaces x := by
  intro s
  obtain ⟨ms, moments, quiet⟩ := h s
  exact ⟨ms, moments, .quiet quiet⟩

theorem of_still {x : Act σ α} (h : ∀ s, (x s).2.moments = s.moments) : Surfaces x :=
  of_quiet fun s => ⟨[], by rw [h, List.append_nil], rfl⟩

theorem bind {x : Act σ α} {f : α → Act σ β} (hx : Surfaces x) (hf : ∀ a, Surfaces (f a)) :
    Surfaces (x >>= f) := by
  intro s
  obtain ⟨ms, moments, surfaced⟩ := hx s
  generalize first : x s = ended at moments surfaced
  obtain ⟨r, t⟩ := ended
  cases r with
  | done a =>
    obtain ⟨ns, moments', surfaced'⟩ := hf a t
    rw [bind_done first]
    exact ⟨ms ++ ns, by rw [moments', moments, List.append_assoc],
      surfaced'.before surfaced.done⟩
  | raised fault =>
    rw [bind_raised first]
    exact ⟨ms, moments, surfaced.raised⟩
  | unfinished =>
    rw [bind_unfinished first]
    cases surfaced with
    | quiet none => exact ⟨ms, moments, .quiet none⟩

theorem onlyIf (c : Prop) [Decidable c] {x : Act σ Unit} (hx : Surfaces x) :
    Surfaces (Act.onlyIf c x) := by
  rw [Act.onlyIf]
  split
  · exact hx
  · exact of_still fun _ => rfl

end Act.Surfaces

theorem Retired.uncut {inHand : Option Message} {s' : Site σ} {q : Except Fault Unit}
    {ms : List (Moment σ)} (h : Retired inHand s' q ms)
    (uncut : ∀ x ∈ ms, x.event.cutsShort = false) :
    q = .ok () ∧ tally Event.sendsOff ms = inHand.isSome.toNat := by
  have calm : Calm ms := by
    intro x hx
    rw [← Bool.not_eq_true]
    intro strikes
    have := Event.cutsShort_of_strikes strikes (h.staged x hx)
    simp [uncut x hx] at this
  cases h.concluded calm with
  | complete complete => exact ⟨rfl, complete.sendsOff⟩
  | spoiled spoiled =>
    have none : tally Event.spoils ms = 0 := tally_eq_zero.2 fun x hx => by
      rw [← Bool.not_eq_true]
      intro spoils
      have := Event.cutsShort_of_spoils spoils
      simp [uncut x hx] at this
    exact absurd none (Nat.ne_of_gt spoiled.spoils)

namespace Worker

open Act (Surfaces)

section Surfaces

variable (w : Worker σ)

theorem surfaces_log (severity : Severity) (text : String) : Surfaces (w.log severity text) :=
  .of_quiet fun _ => ⟨_, Site.moments_note .., rfl⟩

theorem surfaces_acknowledge (id : String) : Surfaces (w.acknowledge id) := by
  refine .of_quiet fun s => ?_
  obtain ⟨accepted, s', x, ms, acknowledge, spell, hx, incidental, -⟩ := w.acknowledge_spec id s
  refine ⟨x :: ms, by rw [acknowledge, spell.moments], ?_⟩
  rw [tally_cons, hx, tally_incidental Event.sober_strays incidental]
  rfl

theorem surfaces_sleep (d : Int) : Surfaces (w.sleep d) := by
  refine .onlyIf _ (.bind (fun s => ?_) fun _ => .onlyIf _ (w.surfaces_log _ _))
  obtain ⟨q, s', ms, sleep, spell, called, -⟩ := w.clockSleep_spec d s
  rw [sleep]
  exact ⟨ms, spell.moments, called.surfaced rfl fun _ => rfl⟩

theorem surfaces_terminate : Surfaces w.terminate := by
  refine .of_quiet fun s => ?_
  obtain ⟨ms, spell, incidental⟩ := w.spell_halted s
  exact ⟨ms, spell.moments, tally_incidental Event.sober_strays fun x hx => (incidental x hx).1⟩

theorem surfaces_retire (inHand : Option Message) : Surfaces (w.retire inHand) := by
  refine .of_quiet fun s => ?_
  obtain ⟨q, s', ms, retire, steady, retired, -⟩ := w.retire_spec inHand s
  rw [retire]
  exact ⟨ms, steady.moments, retired.staged.strays (by decide) (by decide)⟩

theorem surfaces_settle (id : String) : Surfaces (w.settle id) :=
  (w.surfaces_acknowledge id).bind fun _ => .of_still fun _ => rfl

theorem surfaces_prepareToRetry (working : Message) : Surfaces (w.prepareToRetry working) := by
  refine Surfaces.bind (.of_still fun _ => rfl) fun t => ?_
  generalize w.settings.retryPolicy.onFailure t.terminated t.progress = decided
  obtain ⟨⟨verdict, delayMs⟩, progress⟩ := decided
  refine Surfaces.bind (.of_still fun _ => rfl) fun _ => ?_
  cases verdict with
  | willRetry => exact (w.surfaces_log _ _).bind fun _ => w.surfaces_sleep _
  | dropped =>
    exact (w.surfaces_acknowledge _).bind fun _ =>
      Surfaces.bind (.of_still fun _ => rfl) fun _ => w.surfaces_log _ _
  | deactivated =>
    exact w.surfaces_terminate.bind fun _ => (w.surfaces_retire _).bind fun _ => w.surfaces_log _ _
  | skipped => exact .of_still fun _ => rfl

theorem surfaces_follow (e : Endpoint) (stored : Message) (finding : Finding) :
    Surfaces (w.follow e stored finding) := by
  cases finding with
  | delivered =>
    exact (w.surfaces_settle _).bind fun _ =>
      Surfaces.bind (.of_still fun _ => rfl) fun _ => w.surfaces_log _ _
  | turnedDown reason =>
    exact (w.surfaces_settle _).bind fun _ =>
      Surfaces.bind (.of_still fun _ => rfl) fun _ => w.surfaces_log _ _
  | failed working => exact w.surfaces_prepareToRetry working
  | broken fault => exact .of_still fun _ => rfl

variable {w} in
theorem Exchanged.unstrayed {e : Endpoint} {stored : Message}
    {outcome : Except Fault (Option Message)} {ms : List (Moment σ)}
    (h : w.Exchanged e stored outcome ms) (known : outcome ≠ .error .unknown) :
    tally Event.strays ms = 0 := by
  rw [h.tally_eq Event.sober_strays]
  match outcome with
  | .ok _ => rfl
  | .error .unknown => exact absurd rfl known
  | .error (.delivery _ _) => rfl
  | .error (.runtime _) => rfl
  | .error (.invalidArgument _) => rfl

variable {w} in
theorem Found.surfaced {e : Endpoint} {stored : Message} {finding : Finding} {ms : List (Moment σ)}
    (h : w.Found e stored finding ms) {r : Ending Unit}
    (hr : ∀ fault, finding = .broken fault → r = .raised fault) : Surfaced r ms := by
  have retried {outcome : Except Fault (Option Message)} {x : Moment σ} {record : Record}
      {as : List (Moment σ)} (exchanged : w.Exchanged e stored outcome as)
      (retries : w.settings.retries outcome = true) (hx : x.event = .log record) :
      tally Event.strays (as ++ [x]) = 0 := by
    have known : outcome ≠ .error .unknown := by
      rintro rfl
      cases retries
    rw [tally_append, exchanged.unstrayed known, tally_cons, hx]
    rfl
  cases h with
  | gone hx hy => exact .quiet (by rw [tally_cons, hx, tally_cons, hy]; rfl)
  | oneWay exchanged => exact .quiet (exchanged.unstrayed (by simp))
  | answered exchanged _ dispatched =>
    exact .before (.quiet dispatched.surfaced.done) (exchanged.unstrayed (by simp))
  | turnedDown exchanged _ dispatched =>
    exact .before (.quiet dispatched.surfaced.done) (exchanged.unstrayed (by simp))
  | refused exchanged _ => exact .quiet (exchanged.unstrayed (by simp))
  | failed exchanged retries hx dispatched =>
    rw [List.append_cons]
    exact .before (.quiet dispatched.surfaced.done) (retried exchanged retries hx)
  | replyBroken exchanged _ dispatched =>
    rw [hr _ rfl]
    exact .before dispatched.surfaced.raised (exchanged.unstrayed (by simp))
  | faultBroken exchanged retries hx dispatched =>
    rw [hr _ rfl, List.append_cons]
    exact .before dispatched.surfaced.raised (retried exchanged retries hx)
  | unknown exchanged =>
    obtain ⟨x, ns, rfl, hx, called⟩ := exchanged
    rw [hr _ rfl]
    have asked : tally Event.strays [x] = 0 := by
      rw [tally_cons, hx]
      rfl
    exact .before (called.surfaced rfl fun _ => rfl).raised asked

theorem surfaces_deliverOnce (e : Endpoint) (stored : Message) :
    Surfaces (w.deliverOnce e stored) := by
  intro s
  obtain ⟨finding, t, ms, once, assessed⟩ := w.deliverOnce_spec e stored s
  obtain ⟨ns, moments, surfaced⟩ := w.surfaces_follow e stored finding t
  rw [once]
  refine ⟨ms ++ ns, by rw [moments, assessed.steady.moments, List.append_assoc], ?_⟩
  by_cases broken : ∃ fault, finding = .broken fault
  · obtain ⟨fault, rfl⟩ := broken
    obtain rfl : ns = [] := by simpa [follow] using moments
    rw [List.append_nil]
    exact assessed.found.surfaced fun fault' h => by rw [← Finding.broken.inj h]; rfl
  · refine surfaced.before (Surfaced.done (a := ()) ?_)
    exact assessed.found.surfaced fun fault h => absurd ⟨fault, h⟩ broken

theorem surfaces_deliver (e : Endpoint) (stored : Message) (fuel : Nat) :
    Surfaces (w.deliver e stored fuel) := by
  induction fuel with
  | zero => exact .of_still fun _ => rfl
  | succ fuel ih =>
    exact Surfaces.bind (.of_still fun _ => rfl) fun t =>
      .onlyIf _ ((w.surfaces_deliverOnce e stored).bind fun _ => ih)

theorem surfaces_forward (stored : Message) (fuel : Nat) : Surfaces (w.forward stored fuel) := by
  have resolves : Surfaces (w.resolveTarget stored) := by
    refine .of_quiet fun s => ?_
    obtain ⟨s', ms, resolve, spell, -, incidental, -⟩ := w.resolveTarget_spec stored s
    exact ⟨ms, by rw [resolve, spell.moments], tally_incidental Event.sober_strays incidental⟩
  refine (w.surfaces_log _ _).bind fun _ => resolves.bind fun target => ?_
  cases target with
  | some e => exact w.surfaces_deliver e stored fuel
  | none =>
    exact (w.surfaces_log _ _).bind fun _ =>
      Surfaces.bind (.of_still fun _ => rfl) fun _ => w.surfaces_acknowledge stored.id

end Surfaces

/-- A failure that leaves the cycle of a stored message, and how the worker gives up: nothing comes
between the failure and the deactivate sequence, which gets the message as it was stored. -/
def SeenOff (stored : Message) (ns : List (Moment σ)) : Prop :=
  ∃ x errand fault y z q ds, ns = x :: y :: z :: ds ∧ x.event = .failed errand fault ∧
    y.event = .givingUp fault ∧ z.event.incidental = true ∧ Dispatched .deactivate stored q ds

theorem cycle_seenOff (w : Worker σ) (m : Message) (fuel : Nat) (s : Site σ) :
    ∃ ms, (w.cycle m fuel s).2.moments = s.moments ++ ms ∧
      Begins Event.strays (SeenOff (unmarked m)) ms := by
  obtain ⟨ms, moments, surfaced⟩ :=
    w.surfaces_forward (unmarked m) fuel (s.counted Counter.fetched)
  generalize forward : w.forward (unmarked m) fuel (s.counted Counter.fetched) = ended
    at moments surfaced
  obtain ⟨r, t⟩ := ended
  rw [Site.moments_counted] at moments
  obtain ⟨ns, whole, parts⟩ := w.cycle_parts m fuel forward moments
  refine ⟨_, whole, ?_⟩
  have later : tally Event.strays ns = 0 := by
    rcases parts with ⟨rfl, -⟩ | ⟨fault, t', q, -, given⟩
    · rfl
    · exact given.staged.strays (by decide) (by decide)
  dsimp only at surfaced
  cases surfaced with
  | quiet none => exact .of_none (by rw [tally_append, none, later])
  | @failed before x errand fault none hx =>
    obtain ⟨-, finished⟩ | ⟨fault', t', q, same, given⟩ := parts
    · exact absurd rfl (finished fault)
    · -- the failure is the last that the forwarding shows, so giving up comes right after it
      obtain rfl := Ending.raised.inj same
      obtain ⟨y, z, rs, rfl, hy, hz, retired⟩ := given.retired
      obtain ⟨q, ds, rest, rfl, dispatched, -⟩ := retired.sent
      have seenOff : SeenOff (unmarked m) (x :: y :: z :: ds) :=
        ⟨x, errand, fault, y, z, q, ds, rfl, hx, hy, hz, dispatched⟩
      have split : tally Event.strays (y :: z :: ds) + tally Event.strays rest = 0 := by
        rw [← tally_append]
        exact later
      have order : before ++ [x] ++ y :: z :: (ds ++ rest) =
          before ++ (x :: y :: z :: ds ++ rest) := by simp
      rw [order]
      exact Begins.append (.of_none none) ((Begins.single seenOff (by omega)).append
        (.of_none (by omega)))

section History

variable {w : Worker σ}

/-- Whether a moment may come after the ones before it: a message is sent or dispatched only after
one has been received, in the same cycle. -/
def Employed (before : List (Moment σ)) (x : Moment σ) : Prop :=
  x.event.sends = true ∨ x.event.dispatches = true → ∃ older start m c,
    before = older ++ start :: c ∧ start.event = .received (some m) ∧
    ∀ y ∈ c, y.event.opens = false

theorem employed_of_idle {c ms : List (Moment σ)} (idle : Idle ms) : Always Employed c ms := by
  refine .of_forall fun before x hx employs => ?_
  have := (idle x hx).1
  cases hx : x.event <;> simp_all [Event.sends, Event.dispatches, Event.idle]

theorem Reached.employed {a s : Site σ} (h : Reached w a s) (ha : Always Employed [] a.moments) :
    Always Employed [] s.moments := by
  refine h.always_of ha employed_of_idle (fun _ hx employs => ?_)
    @fun m _ _ _ xs start ms r taken _ past => ?_
  · simp [hx, Event.sends, Event.dispatches] at employs
  · rintro c x after rfl -
    have closed := tally_eq_zero.1 taken.cycled.opens
    exact ⟨past ++ xs, start, m, c, by simp, taken.received, fun y hy => closed y (by simp [hy])⟩

theorem Forwarded.sendsOff {stored : Message} {s s' : Site σ} {ms : List (Moment σ)}
    {r : Ending Unit} (h : w.Forwarded stored s s' ms r)
    (uncut : ∀ x ∈ ms, x.event.cutsShort = false) :
    tally Event.sendsOff ms ≤ s'.status.terminated.toNat ∧
      ∀ fault, r = .raised fault → tally Event.sendsOff ms = 0 := by
  cases h.disturbance with
  | none undisturbed =>
    have none := undisturbed.tally Event.within_sendsOff
    exact ⟨by omega, fun _ _ => none⟩
  | @exhausted m a q xs ys undisturbed exhausted raises =>
    obtain ⟨as, rs, bs, rfl, has, retired, hbs⟩ := exhausted.retired
    obtain ⟨rfl, one⟩ := retired.uncut fun x hx => uncut x (by simp [hx])
    have sober := Event.within_sendsOff.sober (by decide)
    refine ⟨?_, fun fault raised => absurd ((raises fault).1 raised) (by simp)⟩
    rw [tally_append, tally_append, tally_append, undisturbed.tally Event.within_sendsOff, one,
      tally_incidental sober has, tally_incidental sober hbs, exhausted.terminated.1]
    rfl

theorem Cycled.sendsOff {stored : Message} {s s' : Site σ} {ms : List (Moment σ)} {r : Ending Unit}
    (h : w.Cycled stored s s' ms r) (uncut : ∀ x ∈ ms, x.event.cutsShort = false) :
    tally Event.sendsOff ms ≤ s'.status.terminated.toNat := by
  cases h with
  | forwarded forwarded => exact (forwarded.sendsOff uncut).1
  | @givenUp _ _ ms ns fault q forwarded given =>
    obtain ⟨before, after⟩ := List.forall_mem_append.1 uncut
    obtain ⟨x, y, rs, rfl, hx, hy, retired⟩ := given.retired
    obtain ⟨rfl, one⟩ := retired.uncut fun x hx => after x (by simp [hx])
    have sober := Event.within_sendsOff.sober (by decide)
    rw [tally_append, (forwarded.sendsOff before).2 fault rfl, tally_cons, tally_cons, hx,
      sober _ hy, one, retired.terminated]
    rfl

theorem not_sendsOff_of_idle {e : Event} (h : e.idle = true) : e.sendsOff = false := by
  cases e <;> first | rfl | cases h

theorem Reached.sendsOff {world : σ} {s : Site σ} (h : Reached w (w.fresh world) s)
    (uncut : ∀ x ∈ s.moments, x.event.cutsShort = false) :
    tally Event.sendsOff s.moments ≤ s.status.terminated.toNat := by
  induction h with
  | begun => simp
  | @idle s s' ms _ steady idle ih =>
    rw [steady.moments] at uncut ⊢
    rw [tally_append, idle.tally_eq_zero fun _ => not_sendsOff_of_idle]
    exact (ih (List.forall_mem_append.1 uncut).1).trans (Bool.toNat_le_toNat steady.rises.whole)
  | reset _ _ ih => simpa using ih (by simpa using uncut)
  | @cycle s t m fuel _ _ running receive ih =>
    obtain ⟨s', xs, start, ms, r, cycle, taken⟩ := w.taken_spec fuel running receive
    rw [cycle] at uncut ⊢
    dsimp only at uncut ⊢
    rw [taken.grows.moments] at uncut ⊢
    obtain ⟨before, later⟩ := List.forall_mem_append.1 uncut
    -- only a worker that is still running takes another message
    have first : tally Event.sendsOff s.moments = 0 := by
      have := ih before
      rw [running] at this
      exact Nat.le_zero.1 this
    have quiet : start.event.sendsOff = false := by rw [taken.received]; rfl
    rw [tally_append, tally_append, tally_cons, first,
      taken.idle.tally_eq_zero fun _ => not_sendsOff_of_idle, quiet]
    simpa using taken.cycled.sendsOff fun x hx => later x (by simp [hx])

/-- Whatever the collaborators do: a dispatch runs the sequence that is registered at that moment.
Messages are sent and dispatched only in cycles. In a cycle, what an exchange owes to the reply or
to the fault sequence is dispatched right after it, and nothing else goes to them; the deactivate
sequence gets the working copy of the last attempt that fails where the attempts are used up, and
the stored message where a failure leaves the cycle. As long as no retirement is cut short, that
happens once at most. -/
theorem sequences_orderly (w : Worker σ) (world : σ) (visits : List (Visit σ)) :
    ∃ ms, (w.history world visits).moments = ms ∧ w.Runs ms ∧ Always Employed [] ms ∧
      EachCycle (fun m c => w.Orderly (unmarked m) c ∧ Begins Event.strays (SeenOff (unmarked m)) c)
        ms ∧
      ((∀ x ∈ ms, x.event.cutsShort = false) → tally Event.sendsOff ms ≤ 1) := by
  have reached := w.reached_history world visits
  refine ⟨_, rfl, w.runs_history world visits, reached.employed .nil,
    reached.eachCycle_of (eachCycle_of_idle .nil) fun {m fuel t ms} _ moments => ?_,
    fun uncut => (reached.sendsOff uncut).trans (Bool.toNat_le _)⟩
  obtain ⟨c, moments', orderly⟩ := w.cycle_orderly m fuel t
  obtain ⟨c', moments'', seenOff⟩ := w.cycle_seenOff m fuel t
  obtain rfl := List.append_cancel_left (moments.symm.trans moments')
  obtain rfl := List.append_cancel_left (moments.symm.trans moments'')
  exact ⟨orderly, seenOff⟩

/-- A worker with one attempt, which fails. Whoever gets the message signs it. -/
def signing : Worker (List Message) :=
  let settings : Settings :=
    { maxAttempts := 1, faultSequence := "fault", deactivateSequence := "farewell" }
  { plain settings (.ok none) with
    outside := { Outside.plain (.ok none) [] with
      send _ m v := ⟨⟨.error (.runtime "down"), v, []⟩, m.setProperty "by" "sender"⟩
      sequence? name _ := some fun m v => ⟨⟨.ok (), v, []⟩, m.setProperty "by" name⟩ } }

/-- The fault sequence gets the working copy as the sender left it, and the deactivate sequence gets
it as the fault sequence left it. -/
theorem sequences_orderly_exhausted :
    let signed (x : Moment (List Message)) : Option (Sequence.Kind × String × String) :=
      match x.event with
      | .mediating kind name m => some (kind, name, m.property "by")
      | _ => none
    ∃ ms, (signing.history [⟨"1", ∅, .null⟩] [.run 2]).moments = ms ∧
      ms.filterMap signed = [(.fault, "fault", "sender"), (.deactivate, "farewell", "fault")] ∧
      (∀ x ∈ ms, x.event.cutsShort = false) ∧ tally Event.faults ms = 1 ∧
      tally Event.sendsOff ms = 1 ∧ signing.Runs ms ∧ Always Employed [] ms ∧
      EachCycle (fun m c => signing.Orderly (unmarked m) c ∧
        Begins Event.strays (SeenOff (unmarked m)) c) ms ∧
      tally Event.sendsOff ms ≤ 1 := by
  intro signed
  obtain ⟨ms, rfl, runs, employed, cycles, once⟩ :=
    sequences_orderly signing [⟨"1", ∅, .null⟩] [.run 2]
  have uncut : ∀ x ∈ (signing.history [⟨"1", ∅, .null⟩] [.run 2]).moments,
      x.event.cutsShort = false := by decide +kernel
  exact ⟨_, rfl, by decide +kernel, uncut, by decide +kernel, by decide +kernel, runs, employed,
    cycles, once uncut⟩

end History

end Worker

end Courier
