import Courier.Proofs.Attempt

namespace Courier

variable {σ α β : Type}

namespace Site

structure Settled (s s' : Site σ) (ms : List (Moment σ)) : Prop extends Grows s s' ms where
  acknowledged : ∃ x ns accepted, ms = x :: ns ∧ x.event = .acknowledged accepted ∧
    ∀ y ∈ ns, y.event.incidental = true
  status : s'.status = { s.status with progress := ⟨0, true⟩ }
  constant : ∀ x ∈ ms, x.status = s.status ∨ x.status = s'.status

namespace Settled

variable {s t : Site σ} {ms : List (Moment σ)}

theorem note (h : Settled s t ms) (e : Event) (he : e.incidental = true) :
    Settled s (t.note e) (ms ++ [t.moment e]) where
  toGrows := h.toGrows.note e (Event.sober_deactivates e he)
  acknowledged := by
    obtain ⟨x, ns, accepted, rfl, hx, hi⟩ := h.acknowledged
    refine ⟨x, ns ++ [t.moment e], accepted, rfl, hx, ?_⟩
    intro y hy
    rcases List.mem_append.1 hy with hy | hy
    · exact hi y hy
    · rw [List.mem_singleton.1 hy, event_moment, he]
  status := h.status
  constant x hx := by
    rcases List.mem_append.1 hx with hx | hx
    · exact h.constant x hx
    · exact .inr (by rw [List.mem_singleton.1 hx, status_moment, status_note])

theorem counted (h : Settled s t ms) {c : String}
    (hc : c ≠ Worker.Counter.deactivations) : Settled s (t.counted c) ms :=
  ⟨h.toGrows.counted hc, h.acknowledged, h.status, h.constant⟩

theorem staged (h : Settled s t ms) : Staged .settlement ms := by
  obtain ⟨x, ns, accepted, rfl, hx, hi⟩ := h.acknowledged
  exact .cons (.inr (by rw [hx, Event.stage])) (.of_incidental hi)

theorem acknowledges (h : Settled s t ms) : tally Event.acknowledges ms = 1 := by
  obtain ⟨x, ns, accepted, rfl, hx, hi⟩ := h.acknowledged
  simp [hx, tally_incidental Event.sober_acknowledges hi, Event.acknowledges]

end Settled

end Site

inductive SentOff : Option Message → Except Fault Unit → List (Moment σ) → Prop
  | nothing : SentOff none (.ok ()) []
  | sent {m m' ms} : Dispatched .deactivate m (.ok m') ms → SentOff (some m) (.ok ()) ms
  | reported {m fault ms x r} : Dispatched .deactivate m (.error fault) ms → fault ≠ .unknown →
      x.event = .log r → SentOff (some m) (.ok ()) (ms ++ [x])
  | spoiled {m ms} : Dispatched .deactivate m (.error .unknown) ms →
      SentOff (some m) (.error .unknown) ms

inductive Retired (inHand : Option Message) (s' : Site σ) :
    Except Fault Unit → List (Moment σ) → Prop
  | gone {r ms ns} : SentOff inHand (.ok ()) ms →
      Called .deactivating (.closing .deactivation (fun _ => .deactivated) r) ns →
      s'.status.terminated = true → Retired inHand s' r (ms ++ ns)
  | spoiled {ms} : SentOff inHand (.error .unknown) ms → Retired inHand s' (.error .unknown) ms

theorem SentOff.staged {inHand : Option Message} {r : Except Fault Unit} {ms : List (Moment σ)}
    (h : SentOff inHand r ms) : Staged .retirement ms := by
  cases h with
  | nothing => exact .nil
  | sent h => exact h.staged
  | reported h _ hx => exact h.staged.append (.cons (.inl (by rw [hx, Event.stage])) .nil)
  | spoiled h => exact h.staged

theorem SentOff.tally_eq {inHand : Option Message} {r : Except Fault Unit} {ms : List (Moment σ)}
    {p : Event → Bool} (hp : Event.Sober p)
    (hm : ∀ name m, p (.mediating .deactivate name m) = false)
    (hm' : ∀ m, p (.mediated .deactivate m) = false)
    (hf : ∀ fault, fault ≠ .unknown → p (.failed (.sequence .deactivate) fault) = false)
    (h : SentOff inHand r ms) :
    tally p ms = (inHand.elim 0 fun m => (p (.dispatching .deactivate m)).toNat) +
      toll p (.sequence .deactivate) r := by
  cases h with
  | nothing => rfl
  | sent h => simp [h.tally_eq hp (hm · _) hm']
  | @reported m fault _ _ r h hn hx =>
    simp [h.tally_eq hp (hm · _) hm', hf fault hn, hx, hp (.log r) rfl]
  | spoiled h => simp [h.tally_eq hp (hm · _) hm']

theorem SentOff.deactivates {inHand : Option Message} {r : Except Fault Unit}
    {ms : List (Moment σ)} (h : SentOff inHand r ms) : tally Event.deactivates ms = 0 := by
  rw [h.tally_eq Event.sober_deactivates (fun _ _ => rfl) (fun _ => rfl) (fun _ _ => rfl)]
  cases inHand <;> cases r <;> rfl

theorem Retired.deactivating {inHand : Option Message} {s' : Site σ} {r : Except Fault Unit}
    {ms : List (Moment σ)} (h : Retired inHand s' r ms) :
    (∃ x ∈ ms, x.event = .deactivating) ∨
      ∃ x ∈ ms, x.event = .failed (.sequence .deactivate) .unknown := by
  cases h with
  | gone _ called =>
    obtain ⟨x, as, y, rfl, hx, -, -⟩ := called
    exact .inl ⟨x, by simp, hx⟩
  | spoiled h =>
    cases h with
    | spoiled h =>
      cases h with
      | failed _ called =>
        obtain ⟨x, as, y, rfl, -, -, hy⟩ := called
        exact .inr ⟨y, by simp, hy⟩

theorem Retired.staged {inHand : Option Message} {s' : Site σ} {r : Except Fault Unit}
    {ms : List (Moment σ)} (h : Retired inHand s' r ms) : Staged .retirement ms := by
  cases h with
  | gone h k =>
    refine h.staged.append (k.staged rfl ?_)
    cases r <;> rfl
  | spoiled h => exact h.staged

namespace Worker

variable (w : Worker σ)

open Site (Spell Grows Steady Settled Enters)

theorem settle_spec (id : String) (s : Site σ) :
    ∃ s' ms, w.settle id s = (.done (), s') ∧ Settled s s' ms ∧ Enters [] s s' := by
  obtain ⟨accepted, t, x, ms, acknowledge, hs, hx, hi, ht, hm⟩ := w.acknowledge_spec id s
  have grows := hs.grows (by
    simp [hx, Event.deactivates, tally_incidental Event.sober_deactivates hi])
  refine ⟨_, x :: ms, ?_,
    ⟨grows.withProgress ⟨0, true⟩, ⟨x, ms, accepted, rfl, hx, hi⟩, ?_, fun y hy => .inl (hm y hy)⟩,
    hs.enters⟩
  · rw [settle, Act.bind_done acknowledge]
    rfl
  · simp [ht]

theorem completeDelivery_spec (e : Endpoint) (id : String) (s : Site σ) :
    ∃ s' ms, w.completeDelivery e id s = (.done (), s') ∧ Settled s s' ms ∧
      Enters [Counter.delivered] s s' := by
  obtain ⟨t, ms, settle, h, entered⟩ := w.settle_spec id s
  refine ⟨w.logged .debug ("Successfully sent message " ++ id ++ " to endpoint [" ++ e.name ++ "]")
    (t.counted Counter.delivered), _, ?_, (h.counted (by decide)).note _ rfl, entered.counted _⟩
  rw [completeDelivery, Act.bind_done settle]
  rfl

theorem settleUndelivered_spec (id reason : String) (s : Site σ) :
    ∃ s' ms, w.settleUndelivered id reason s = (.done (), s') ∧ Settled s s' ms ∧
      Enters [Counter.nonRetry] s s' := by
  obtain ⟨t, ms, settle, h, entered⟩ := w.settle_spec id s
  refine ⟨w.logged .info ("Message " ++ id ++ " will not be retried: " ++ reason)
    (t.counted Counter.nonRetry), _, ?_, (h.counted (by decide)).note _ rfl, entered.counted _⟩
  rw [settleUndelivered, Act.bind_done settle]
  rfl

theorem sendOff_spec (m : Message) (s : Site σ) :
    ∃ r s' ms, w.sendOff m s = (.ofExcept r, s') ∧ Spell s s' ms ∧ SentOff (some m) r ms := by
  obtain ⟨r, s', ms, mediate, hs, hd, -⟩ := w.mediate_spec .deactivate m s
  rw [sendOff]
  cases r with
  | ok m' =>
    rw [Act.bind_done (Act.catching_done mediate)]
    exact ⟨.ok (), s', ms, rfl, hs, .sent hd⟩
  | error fault =>
    rw [Act.bind_done (Act.catching_raised mediate)]
    cases fault with
    | unknown => exact ⟨.error .unknown, s', ms, rfl, hs, .spoiled hd⟩
    | delivery what cause => exact ⟨.ok (), _, _, rfl, hs.note _, .reported hd (by simp) rfl⟩
    | runtime what => exact ⟨.ok (), _, _, rfl, hs.note _, .reported hd (by simp) rfl⟩
    | invalidArgument what => exact ⟨.ok (), _, _, rfl, hs.note _, .reported hd (by simp) rfl⟩

theorem forM_sendOff_spec (inHand : Option Message) (s : Site σ) :
    ∃ r s' ms, inHand.forM w.sendOff s = (.ofExcept r, s') ∧ Spell s s' ms ∧
      SentOff inHand r ms := by
  cases inHand with
  | none => exact ⟨.ok (), s, [], rfl, .refl s, .nothing⟩
  | some m => exact w.sendOff_spec m s

theorem retire_spec (inHand : Option Message) (s : Site σ) :
    ∃ r s' ms, w.retire inHand s = (.ofExcept r, s') ∧ Steady s s' ms ∧ Retired inHand s' r ms ∧
      s'.status.progress = s.status.progress ∧ Enters [] s s' := by
  obtain ⟨r, t, ms, sendOff, hs, sent⟩ := w.forM_sendOff_spec inHand s
  have sent' := sent.deactivates
  rw [retire]
  cases r with
  | error fault =>
    rw [Act.bind_raised sendOff]
    cases sent with
    | spoiled h =>
      exact ⟨_, t, ms, rfl, hs.steady sent', .spoiled (.spoiled h), hs.progress, hs.enters⟩
  | ok _ =>
    rw [Act.bind_done sendOff, Act.bind_done (Act.setStatus_apply _ t)]
    obtain ⟨r, u, ns, deactivate, hu, called, -⟩ := w.deactivateOwner_spec
      (t.withStatus { t.status with terminated := true })
    have spell := hs.raise.trans hu
    have terminated : u.status.terminated = true := (hu.rises.terminated).1
    have tally := called.tally_eq Event.sober_deactivates
    cases r with
    | error fault =>
      rw [Act.bind_raised deactivate]
      refine ⟨.error fault, u, ms ++ ns, rfl, spell.steady ?_, .gone sent called terminated,
        spell.progress, spell.enters⟩
      simp [sent', tally, Event.closing, Event.deactivates]
    | ok _ =>
      rw [Act.bind_done deactivate]
      refine ⟨.ok (), u.counted Counter.deactivations, ms ++ ns, rfl, ⟨⟨spell.moments, spell.rises,
        ?_⟩, ?_, ?_⟩, .gone sent called terminated, spell.progress, ?_⟩
      · simp [Counters.count, Counters.value_add, spell.counters, sent', tally,
          Event.closing, Event.deactivates]
      · rw [Site.status_counted, spell.progress]
      · intro x hx
        rw [spell.progress_mem hx]
      · intro c hc
        rw [Site.counters_counted, Counters.count, Counters.value_add, if_neg hc.symm,
          spell.enters c hc]
        simp

structure Retrying (s s' : Site σ) (ms : List (Moment σ)) : Prop extends Grows s s' ms where
  counted : w.settings.retryPolicy.bounded = true →
    s.status.progress.attempts + 1 < w.settings.retryPolicy.maxAttempts ∧
    s'.status.progress.attempts = s.status.progress.attempts + 1
  unsettled : s'.status.progress.succeeded = s.status.progress.succeeded
  constant : ∀ x ∈ ms, x.status.progress.attempts = s'.status.progress.attempts
  rested : ∃ x r ns, ms = x :: ns ∧ x.event = .log r ∧
    Rested w.settings.retryPolicy.intervalMs ns

structure Exhausted (working : Message) (s s' : Site σ) (r : Except Fault Unit)
    (ms : List (Moment σ)) : Prop extends Grows s s' ms where
  attempts : s'.status.progress.attempts = s.status.progress.attempts + 1
  constant : ∀ x ∈ ms, x.status.progress.attempts = s'.status.progress.attempts
  terminated : s'.status.terminated = true ∧ ∀ x ∈ ms, x.status.terminated = true
  retired : ∃ xs ns ys, ms = xs ++ ns ++ ys ∧ (∀ x ∈ xs, x.event.incidental = true) ∧
    Retired (some working) s' r ns ∧ ∀ y ∈ ys, y.event.incidental = true

/-- What follows from a finding, and how it ends. -/
inductive Followed : Finding → Site σ → Site σ → List (Moment σ) → Ending Unit → Prop
  | delivered {s s' ms} : Settled s s' ms → Followed .delivered s s' ms (.done ())
  | turnedDown {reason s s' ms} : Settled s s' ms →
      Followed (.turnedDown reason) s s' ms (.done ())
  | broken {fault s} : Followed (.broken fault) s s [] (.raised fault)
  | ended {working s} : s.status.terminated = true → Followed (.failed working) s s [] (.done ())
  | again {working s s' ms r} : s.status.terminated = false → w.Retrying s s' ms →
      Followed (.failed working) s s' ms (.ofExcept r)
  | dropped {working s s' ms} : s.status.terminated = false →
      w.settings.retryPolicy.bounded = true → w.settings.retryPolicy.drops = true →
      w.settings.retryPolicy.maxAttempts ≤ s.status.progress.attempts + 1 → Settled s s' ms →
      (∀ x ∈ ms, x.status = s'.status) → Followed (.failed working) s s' ms (.done ())
  | exhausted {working s s' ms r} : s.status.terminated = false →
      w.settings.retryPolicy.bounded = true → w.settings.retryPolicy.drops = false →
      w.settings.retryPolicy.maxAttempts ≤ s.status.progress.attempts + 1 →
      Exhausted working s s' r ms → Followed (.failed working) s s' ms (.ofExcept r)

theorem wait_spec (p : Progress) (text : String) (s : Site σ)
    (counted : w.settings.retryPolicy.bounded = true →
      s.status.progress.attempts + 1 < w.settings.retryPolicy.maxAttempts ∧
      p.attempts = s.status.progress.attempts + 1)
    (unsettled : p.succeeded = s.status.progress.succeeded) :
    ∃ r s' ms, (do
        Act.setProgress p
        w.log .debug text
        w.sleep w.settings.retryPolicy.intervalMs) s = (.ofExcept r, s') ∧ w.Retrying s s' ms ∧
      Enters [] s s' := by
  let t := w.logged .debug text (s.withStatus { s.status with progress := p })
  have grows : Grows s t [_] := ((Grows.refl s).withProgress p).note _ rfl
  obtain ⟨r, s', ns, sleep, hs, rested, -⟩ := w.sleep_spec w.settings.retryPolicy.intervalMs t
  have progress : s'.status.progress = p := hs.progress
  have steady := hs.steady_of_staged rested.staged (by decide)
  refine ⟨r, s', _, sleep, ⟨grows.trans steady.toGrows, ?_, ?_, ?_, _, _, ns, rfl, rfl, rested⟩,
    hs.enters⟩
  · rw [progress]
    exact counted
  · rw [progress, unsettled]
  · intro x hx
    rw [progress]
    rcases List.mem_cons.1 hx with rfl | hx
    · rfl
    · rw [hs.progress_mem hx]
      rfl

theorem drop_spec (id text : String) (s : Site σ) :
    ∃ s' ms, (do
        Act.setProgress ⟨0, true⟩
        w.acknowledge id
        Act.count Counter.dropped
        w.log .info text) s = (.done (), s') ∧ Settled s s' ms ∧
      (∀ x ∈ ms, x.status = s'.status) ∧ Enters [Counter.dropped] s s' := by
  obtain ⟨accepted, t, x, ms, acknowledge, hs, hx, hi, ht, hm⟩ :=
    w.acknowledge_spec id (s.withStatus { s.status with progress := ⟨0, true⟩ })
  have grows := ((Grows.refl s).withProgress ⟨0, true⟩).trans (hs.grows (by
    simp [hx, Event.deactivates, tally_incidental Event.sober_deactivates hi]))
  have settled : Settled s t (x :: ms) :=
    ⟨grows, ⟨x, ms, accepted, rfl, hx, hi⟩, ht, fun y hy => .inr (by rw [hm y hy, ht])⟩
  refine ⟨w.logged .info text (t.counted Counter.dropped), _, ?_,
    (settled.counted (by decide)).note _ rfl, ?_, hs.enters.counted _⟩
  · rw [Act.bind_done (Act.setProgress_apply _ s), Act.bind_done acknowledge]
    rfl
  · refine List.forall_mem_append.2 ⟨fun y hy => ?_, by simp⟩
    rw [hm y hy, status_logged, Site.status_counted, ht]

theorem exhaust_spec (working : Message) (text : String) (s : Site σ) :
    ∃ r s' ms, (do
        Act.setProgress { s.status.progress with attempts := s.status.progress.attempts + 1 }
        w.terminate
        w.retire (some working)
        w.log .error text) s = (.ofExcept r, s') ∧ Exhausted working s s' r ms ∧
      Enters [] s s' := by
  let t := s.withStatus { s.status with
    progress := { s.status.progress with attempts := s.status.progress.attempts + 1 } }
  obtain ⟨xs, halted, hx⟩ := w.spell_halted t
  obtain ⟨r, u, ns, retire, hu, retired, -, counted⟩ := w.retire_spec (some working) (w.halted t)
  have entered : Enters [] s u := halted.enters.trans counted
  have incidental : ∀ x ∈ xs, x.event.incidental = true := fun x h => (hx x h).1
  have steady := (halted.steady (tally_incidental Event.sober_deactivates incidental)).trans hu
  have grows : Grows s u (xs ++ ns) := ((Grows.refl s).withProgress _).trans steady.toGrows
  obtain ⟨u_up, ns_up⟩ := hu.rises.terminated
  have up : ∀ x ∈ xs ++ ns, x.status.terminated = true := by
    intro x h
    rcases List.mem_append.1 h with h | h
    · exact (hx x h).2
    · exact ns_up x h
  have constant : ∀ x ∈ xs ++ ns, x.status.progress.attempts = u.status.progress.attempts := by
    intro x h
    rw [steady.constant x h, steady.attempts]
  rw [Act.bind_done (Act.setProgress_apply _ s), Act.bind_done (w.terminate_apply _)]
  cases r with
  | error fault =>
    rw [Act.bind_raised retire]
    exact ⟨.error fault, u, xs ++ ns, rfl, ⟨grows, steady.attempts, constant, ⟨u_up, up⟩,
      xs, ns, [], by simp, incidental, retired, by simp⟩, entered⟩
  | ok _ =>
    rw [Act.bind_done retire]
    refine ⟨.ok (), w.logged .error text u, _, rfl, ⟨grows.note _ rfl, steady.attempts, ?_,
      ⟨u_up, ?_⟩, xs, ns, [_], rfl, incidental, ?_, by simp [Event.incidental]⟩, entered⟩
    · simpa [or_imp, forall_and] using constant
    · simpa [or_imp, forall_and, u_up] using up
    · cases retired with
      | gone sent called => exact .gone sent called u_up

section

variable {w} {s s' : Site σ} {ms : List (Moment σ)}

theorem Retrying.staged (h : w.Retrying s s' ms) :
    Staged .rest ms := by
  obtain ⟨x, r, ns, rfl, hx, hr⟩ := h.rested
  exact .cons (.inl (by rw [hx, Event.stage])) hr.staged

theorem Retrying.delays_eq (h : w.Retrying s s' ms) :
    delays ms = if 0 < w.settings.retryIntervalMs then [w.settings.retryIntervalMs] else [] := by
  obtain ⟨x, r, ns, rfl, hx, rested⟩ := h.rested
  have first : delays [x] = [] := by simp [delays, hx]
  have interval : w.settings.retryPolicy.intervalMs = max w.settings.retryIntervalMs 0 := rfl
  rw [delays_cons, first, List.nil_append, rested.delays_eq, interval]
  by_cases positive : 0 < w.settings.retryIntervalMs
  · rw [if_pos positive, if_pos (by omega), show max w.settings.retryIntervalMs 0 =
      w.settings.retryIntervalMs by omega]
  · rw [if_neg positive, if_neg (by omega)]

end

theorem Exhausted.staged {working : Message} {s s' : Site σ} {r : Except Fault Unit}
    {ms : List (Moment σ)} (h : Exhausted working s s' r ms) : Staged .retirement ms := by
  obtain ⟨xs, ns, ys, rfl, hx, hr, hy⟩ := h.retired
  exact ((Staged.of_incidental hx).append hr.staged).append (.of_incidental hy)

def Finding.entries : Finding → List (Moment σ) → List String
  | .delivered, _ => [Counter.delivered]
  | .turnedDown _, _ => [Counter.nonRetry]
  | .failed _, ms => List.replicate (tally Event.acknowledges ms) Counter.dropped
  | .broken _, _ => []

theorem Finding.entries_unsettled (working : Message) {g : Stage} {ms : List (Moment σ)}
    (h : Staged g ms) (hg : g ≠ .settlement) : (Finding.failed working).entries ms = [] := by
  rw [entries, h.tally Event.within_acknowledges ⟨by decide, hg.symm⟩, List.replicate_zero]

theorem prepareToRetry_spec (working : Message) (s : Site σ) :
    ∃ r s' ms, w.prepareToRetry working s = (r, s') ∧ w.Followed (.failed working) s s' ms r ∧
      Enters ((Finding.failed working).entries ms) s s' := by
  rw [prepareToRetry, Act.bind_done (Act.status_apply s)]
  cases terminated : s.status.terminated with
  | true =>
    rw [RetryPolicy.onFailure_terminated]
    exact ⟨.done (), s, [], rfl, .ended terminated, .refl s⟩
  | false =>
    cases bounded : w.settings.retryPolicy.bounded with
    | false =>
      rw [RetryPolicy.onFailure_unbounded bounded]
      obtain ⟨r, s', ms, wait, retrying, entered⟩ :=
        w.wait_spec s.status.progress _ s (by simp [bounded]) rfl
      rw [← Finding.entries_unsettled working retrying.staged (by decide)] at entered
      exact ⟨_, s', ms, wait, .again terminated retrying, entered⟩
    | true =>
      by_cases within : s.status.progress.attempts + 1 < w.settings.retryPolicy.maxAttempts
      · rw [RetryPolicy.onFailure_within bounded within]
        obtain ⟨r, s', ms, wait, retrying, entered⟩ := w.wait_spec
          { s.status.progress with attempts := s.status.progress.attempts + 1 } _ s
          (fun _ => ⟨within, rfl⟩) rfl
        rw [← Finding.entries_unsettled working retrying.staged (by decide)] at entered
        exact ⟨_, s', ms, wait, .again terminated retrying, entered⟩
      · cases drops : w.settings.retryPolicy.drops with
        | true =>
          rw [RetryPolicy.onFailure_dropped bounded (Int.not_lt.1 within) drops]
          obtain ⟨s', ms, drop, settled, constant, entered⟩ := w.drop_spec working.id _ s
          refine ⟨_, s', ms, drop,
            .dropped terminated bounded drops (Int.not_lt.1 within) settled constant, ?_⟩
          rw [Finding.entries, settled.acknowledges]
          exact entered
        | false =>
          rw [RetryPolicy.onFailure_deactivated bounded (Int.not_lt.1 within) drops]
          obtain ⟨r, s', ms, exhaust, exhausted, entered⟩ := w.exhaust_spec working _ s
          rw [← Finding.entries_unsettled working exhausted.staged (by decide)]
            at entered
          exact ⟨_, s', ms, exhaust,
            .exhausted terminated bounded drops (Int.not_lt.1 within) exhausted, entered⟩

theorem follow_spec (e : Endpoint) (stored : Message) (finding : Finding) (s : Site σ) :
    ∃ r s' ms, w.follow e stored finding s = (r, s') ∧ w.Followed finding s s' ms r ∧
      Enters (finding.entries ms) s s' := by
  cases finding with
  | delivered =>
    obtain ⟨s', ms, complete, settled, entered⟩ := w.completeDelivery_spec e stored.id s
    exact ⟨_, s', ms, complete, .delivered settled, entered⟩
  | turnedDown reason =>
    obtain ⟨s', ms, settle, settled, entered⟩ := w.settleUndelivered_spec stored.id reason s
    exact ⟨_, s', ms, settle, .turnedDown settled, entered⟩
  | failed working => exact w.prepareToRetry_spec working s
  | broken fault => exact ⟨_, s, [], rfl, .broken, .refl s⟩

end Worker

end Courier
