import Courier.Proofs.Ledger

namespace Courier

variable {σ : Type}

def since (p : Event → Bool) (ms : List (Moment σ)) : List (Moment σ) :=
  ms.rtakeWhile fun x => !p x.event

def Conclusive (ms : List (Moment σ)) : Prop :=
  ms.Pairwise fun x y => x.event.breaks = true → y.event.asks = false ∧ y.event.breaks = false

section

variable {p : Event → Bool} {ms ns : List (Moment σ)} {x : Moment σ}

theorem since_append (h : tally p ns = 0) : since p (ms ++ ns) = since p ms ++ ns := by
  have quiet : ∀ x ∈ ns.reverse, (!p x.event) = true := by
    simpa using tally_eq_zero.1 h
  rw [since, List.rtakeWhile, List.reverse_append, List.takeWhile_append_of_pos quiet,
    List.reverse_append, List.reverse_reverse, since, List.rtakeWhile]

theorem since_cons (hx : p x.event = true) (h : tally p ns = 0) :
    since p (ms ++ x :: ns) = ns := by
  have last : since p (ms ++ [x]) = [] := List.rtakeWhile_concat_neg _ _ _ (by simp [hx])
  rw [List.append_cons, since_append h, last, List.nil_append]

theorem Conclusive.of_quiet (h : tally Event.breaks ms = 0) : Conclusive ms := by
  refine List.pairwise_of_forall_mem_list fun x hx y _ breaks => ?_
  simp [tally_eq_zero.1 h x hx] at breaks

theorem Conclusive.after (h : tally Event.breaks ms = 0) (k : Conclusive ns) :
    Conclusive (ms ++ ns) := by
  refine List.pairwise_append.2 ⟨Conclusive.of_quiet h, k, fun x hx y _ breaks => ?_⟩
  simp [tally_eq_zero.1 h x hx] at breaks

theorem Conclusive.cons (h : x.event.breaks = false) (k : Conclusive ms) : Conclusive (x :: ms) :=
  List.pairwise_cons.2 ⟨fun _ _ breaks => by simp [h] at breaks, k⟩

theorem Conclusive.before (h : Conclusive ms) (asks : tally Event.asks ns = 0)
    (breaks : tally Event.breaks ns = 0) : Conclusive (ms ++ ns) :=
  List.pairwise_append.2 ⟨h, Conclusive.of_quiet breaks,
    fun _ _ y hy _ => ⟨tally_eq_zero.1 asks y hy, tally_eq_zero.1 breaks y hy⟩⟩

theorem not_asks_of_breaks {e : Event} (h : e.breaks = true) : e.asks = false := by
  unfold Event.breaks at h
  split at h <;> first | rfl | cases h

theorem Conclusive.breaks_eq (h : Conclusive ms) :
    tally Event.breaks ms = ((since Event.asks ms).any (·.event.breaks)).toNat := by
  by_cases quiet : tally Event.breaks ms = 0
  · have none : (since Event.asks ms).any (·.event.breaks) = false := by
      rw [List.any_eq_false]
      intro x hx
      simp [tally_eq_zero.1 quiet x (List.rtakeWhile_suffix _ _ |>.mem hx)]
    rw [quiet, none]
    rfl
  · obtain ⟨x, hx, breaks⟩ : ∃ x ∈ ms, x.event.breaks = true := by
      simpa [tally_eq_zero] using quiet
    obtain ⟨before, after, rfl⟩ := List.append_of_mem hx
    obtain ⟨-, last, first⟩ := List.pairwise_append.1 h
    have later := (List.pairwise_cons.1 last).1
    have none_before : tally Event.breaks before = 0 := by
      rw [tally_eq_zero]
      intro y hy
      rw [← Bool.not_eq_true]
      intro broken
      simp [(first y hy x (by simp) broken).2] at breaks
    have none_after : tally Event.breaks after = 0 :=
      tally_eq_zero.2 fun y hy => (later y hy breaks).2
    have unasked : tally Event.asks (x :: after) = 0 := by
      rw [tally_eq_zero]
      intro y hy
      rcases List.mem_cons.1 hy with rfl | hy
      · exact not_asks_of_breaks breaks
      · exact (later y hy breaks).1
    simp [since_append unasked, none_before, none_after, breaks]

theorem Called.conclusive {begun ended : Event} (hb : begun.breaks = false)
    (h : Called begun ended ms) : Conclusive ms := by
  obtain ⟨x, as, y, rfl, rfl, has, rfl⟩ := h
  have quiet : tally Event.breaks (x :: as) = 0 := by
    simp [hb, tally_incidental (Event.within_breaks.sober (by decide)) has]
  exact Conclusive.after quiet (List.pairwise_singleton _ y)

end

namespace Worker

section

variable {w : Worker σ} {e : Endpoint} {stored : Message} {s s' : Site σ} {ms ns : List (Moment σ)}

theorem Found.conclusive {finding : Worker.Finding} (h : w.Found e stored finding ms) :
    Conclusive ms := by
  obtain ⟨-, figures, -, -, quiet⟩ := h.figures
  cases h with
  | replyBroken h _ hd =>
    obtain ⟨-, -, -, -, breaks, -⟩ := h.figures
    apply Conclusive.after breaks
    cases hd with
    | failed hx called =>
      exact .cons (by simp [hx, Event.breaks]) (called.conclusive rfl)
  | unknown h =>
    obtain ⟨x, ns, rfl, hx, called⟩ := h
    exact .cons (by simp [hx, Event.breaks]) (called.conclusive rfl)
  | faultBroken h _ hx hd =>
    obtain ⟨-, faults, -⟩ := report_figures (w := w) hx hd
    rw [tally_append, faults] at figures
    exact .of_quiet (by omega)
  | _ => exact .of_quiet (quiet (by simp))

theorem Tried.conclusive {t : Try σ} {r : Ending Unit} (h : w.Tried e stored t s s' r) :
    Conclusive t.moments := by
  obtain ⟨mid, assessed, followed⟩ := h.course
  exact assessed.found.conclusive.before (followed.tally_eq_zero Event.within_asks (.inr rfl))
    (followed.tally_eq_zero Event.within_breaks (.inr rfl))

theorem Tried.quiet {t : Try σ} {r : Ending Unit} (h : w.Tried e stored t s s' r)
    (hr : ∀ fault, r ≠ .raised fault) : tally Event.breaks t.moments = 0 := by
  obtain ⟨finding, found, aftermath⟩ := t
  obtain ⟨mid, assessed, followed⟩ := h.course
  obtain ⟨-, -, -, -, quiet⟩ := assessed.found.figures
  rw [Try.moments, tally_append, followed.tally_eq_zero Event.within_breaks (.inr rfl),
    quiet fun fault broken => ?_]
  cases broken
  cases followed
  exact hr fault rfl

theorem Tried.settled {t : Try σ} {r : Ending Unit} (tried : w.Tried e stored t s s' r) :
    tally Event.acknowledges t.moments ≤ 1 ∧
      (tally Event.acknowledges t.moments = 1 → s'.status.progress.succeeded = true) ∧
      (r = .done () → s'.status.terminated = false → s'.status.progress.succeeded = true →
        tally Event.acknowledges t.moments = 1) := by
  obtain ⟨finding, found, aftermath⟩ := t
  obtain ⟨mid, assessed, followed⟩ := tried.course
  have first := assessed.found.staged.tally Event.within_acknowledges (by decide)
  rw [Try.moments, tally_append, first, Nat.zero_add]
  cases followed with
  | delivered h => simp [h.acknowledges, h.status]
  | turnedDown h => simp [h.acknowledges, h.status]
  | broken => simp
  | ended up => simp [up]
  | again _ h =>
    have pending := h.staged.tally Event.within_acknowledges (by decide)
    have unsettled := assessed.unsettled _ rfl tried.unsettled
    simp [pending, h.unsettled, unsettled]
  | dropped _ _ _ _ h _ => simp [h.acknowledges, h.status]
  | exhausted _ _ _ _ h =>
    have pending := h.staged.tally Event.within_acknowledges (by decide)
    simp [pending, h.terminated.1]

theorem Tries.quiet {ts : List (Try σ)} {r : Ending Unit} (h : w.Tries e stored ts s s' r)
    (hr : ∀ fault, r ≠ .raised fault) : tally Event.breaks (ts.flatMap Try.moments) = 0 := by
  induction h with
  | ended => rfl
  | stalled => rfl
  | broken => exact absurd rfl (hr _)
  | more tried _ ih =>
    rw [List.flatMap_cons, tally_append, tried.quiet (by simp), ih hr]

theorem Tries.conclusive {ts : List (Try σ)} {r : Ending Unit} (h : w.Tries e stored ts s s' r) :
    Conclusive (ts.flatMap Try.moments) := by
  induction h with
  | ended => exact .of_quiet rfl
  | stalled => exact .of_quiet rfl
  | broken tried => simpa using tried.conclusive
  | more tried _ ih =>
    rw [List.flatMap_cons]
    exact .after (tried.quiet (by simp)) ih

theorem Tries.settled {ts : List (Try σ)} {r : Ending Unit} (h : w.Tries e stored ts s s' r) :
    tally Event.acknowledges (ts.flatMap Try.moments) ≤ 1 ∧
      (s.status.progress.succeeded = false → r = .done () → s'.status.terminated = false →
        tally Event.acknowledges (ts.flatMap Try.moments) = 1) := by
  induction h with
  | @ended s stopped =>
    refine ⟨by simp, fun unsettled _ running => ?_⟩
    simp [unsettled, running] at stopped
  | stalled => simp
  | broken tried => simpa using tried.settled.1
  | @more t ts s u s' r tried tries ih =>
    obtain ⟨le, settles, acknowledged⟩ := tried.settled
    rw [List.flatMap_cons, tally_append]
    cases settled : u.status.progress.succeeded with
    | true =>
      -- there is no further pass once the message is settled
      obtain ⟨rfl, rfl, -⟩ := tries.stopped (by simp [settled])
      exact ⟨le, fun _ _ running => acknowledged rfl running settled⟩
    | false =>
      have pending : tally Event.acknowledges t.moments = 0 := by
        have : tally Event.acknowledges t.moments ≠ 1 := fun one => by simp [settles one] at settled
        omega
      rw [pending, Nat.zero_add]
      exact ⟨ih.1, fun _ => ih.2 settled⟩

theorem Forwarded.settled {r : Ending Unit} (h : w.Forwarded stored s s' ms r)
    (fresh : s.status.progress = .fresh) :
    tally Event.acknowledges ms ≤ 1 ∧ Conclusive ms ∧
      ((∀ fault, r ≠ .raised fault) → tally Event.breaks ms = 0) ∧
      (r = .done () → s'.status.terminated = false → tally Event.acknowledges ms = 1) := by
  cases h with
  | @untargeted _ _ x xs y ys _ hx _ hxs hy hys _ _ =>
    have one := tally_untargeted Event.sober_acknowledges hx hxs hy hys
    have breaks := tally_untargeted (Event.within_breaks.sober (by decide)) hx hxs hy hys
    exact ⟨one.le, .of_quiet breaks, fun _ => breaks, fun _ _ => one⟩
  | @targeted _ _ t _ x ts _ hx _ _ status _ tries =>
    have acknowledges := Event.sober_acknowledges _ hx
    have breaks := Event.within_breaks.sober (by decide) _ hx
    have unsettled : t.status.progress.succeeded = false := by
      rw [status, fresh]
      rfl
    refine ⟨?_, .cons breaks tries.conclusive, fun hr => ?_,
      fun hr running => ?_⟩
    · simpa [acknowledges] using tries.settled.1
    · simpa [breaks] using tries.quiet hr
    · simpa [acknowledges] using tries.settled.2 unsettled hr running

theorem GivenUp.terminated_of_unspoilt {fault : Fault} {inHand : Option Message}
    {q : Except Fault Unit} (h : GivenUp fault inHand s s' ms q)
    (unspoilt : tally Event.spoils ms = 0) : s'.status.terminated = true := by
  obtain ⟨x, y, rs, rfl, -, -, retired⟩ := h.retired
  cases retired with
  | gone _ _ up => exact up
  | spoiled sent =>
    rw [tally_cons, tally_cons, sent.spoils, toll, Event.spoils] at unspoilt
    simp at unspoilt

theorem Cycled.settled {r : Ending Unit} (h : w.Cycled stored s s' ms r)
    (fresh : s.status.progress = .fresh) (finished : r.finished = true)
    (unspoilt : tally Event.spoils ms = 0) :
    tally Event.acknowledges ms ≤ 1 ∧ Conclusive ms ∧
      (s'.status.terminated = false →
        tally Event.acknowledges ms = 1 ∧ tally Event.breaks ms = 0) := by
  cases h with
  | forwarded h hr =>
    obtain ⟨le, conclusive, quiet, settled⟩ := h.settled fresh
    refine ⟨le, conclusive, fun running => ⟨settled ?_ running, quiet hr⟩⟩
    cases r with
    | done => rfl
    | raised fault => exact absurd rfl (hr fault)
    | unfinished => cases finished
  | @givenUp _ t ms ns fault q forwarded given =>
    obtain ⟨le, conclusive, -⟩ := forwarded.settled fresh
    have staged := given.staged
    have acknowledges := staged.tally Event.within_acknowledges (by decide)
    rw [tally_append] at unspoilt
    have up := given.terminated_of_unspoilt (Nat.eq_zero_of_add_eq_zero unspoilt).2
    refine ⟨by rw [tally_append]; omega, conclusive.before
      (staged.tally Event.within_asks (by decide)) (staged.tally Event.within_breaks (by decide)),
      by simp [up]⟩

structure Squared (s : Site σ) : Prop where
  running : s.status.terminated = false →
    tally Event.acknowledges s.moments = tally Event.brings s.moments ∧
    tally Event.breaks s.moments = 0
  left : tally Event.brings s.moments = tally Event.acknowledges s.moments ∨
    tally Event.brings s.moments = tally Event.acknowledges s.moments + 1 ∧
    tally Event.acknowledges (since Event.brings s.moments) = 0
  conclusive : Conclusive s.moments

theorem Squared.idle (h : Squared s) (steady : Site.Steady s s' ms) (idle : Idle ms) :
    Squared s' := by
  have acknowledges := idle.tally_eq_zero fun _ => not_acknowledges_of_idle
  have brings := idle.tally_eq_zero fun _ => not_brings_of_idle
  have breaks := idle.tally_within Event.within_breaks
  refine ⟨fun running => ?_, ?_, ?_⟩
  · have down : s.status.terminated = false := by
      have := steady.rises.whole
      rw [running] at this
      exact Bool.le_antisymm this (Bool.false_le _)
    simpa [steady.moments, acknowledges, brings, breaks] using h.running down
  · simpa [steady.moments, acknowledges, brings, since_append brings] using h.left
  · rw [steady.moments]
    exact h.conclusive.before (idle.tally_within Event.within_asks) breaks

theorem opens_of_brings {e : Event} (h : e.brings = true) : e.opens = true := by
  unfold Event.brings at h
  split at h <;> first | rfl | cases h

theorem Squared.taken {m : Message} {t : Site σ} {xs : List (Moment σ)} {start : Moment σ}
    {r : Ending Unit} (h : Squared s) (running : s.status.terminated = false)
    (fresh : s.status.progress = .fresh) (taken : w.Taken m s t s' xs start ms r)
    (finished : r.finished = true) (unspoilt : tally Event.spoils ms = 0) : Squared s' := by
  obtain ⟨even, quiet⟩ := h.running running
  have progress : (t.counted Counter.fetched).status.progress = .fresh := by
    rw [Site.status_counted, taken.fetched.progress, fresh]
  obtain ⟨le, conclusive, settled⟩ := taken.cycled.settled progress finished unspoilt
  have brings : tally Event.brings ms = 0 := by
    rw [tally_eq_zero]
    intro x hx
    rw [← Bool.not_eq_true]
    intro brought
    simpa [tally_eq_zero.1 taken.cycled.opens x hx] using opens_of_brings brought
  have brought : start.event.brings = true := by rw [taken.received, Event.brings]
  have acknowledges : tally Event.acknowledges s'.moments =
      tally Event.acknowledges s.moments + tally Event.acknowledges ms := by
    rw [taken.grows.moments, tally_append, tally_append, tally_cons,
      taken.idle.tally_eq_zero fun _ => not_acknowledges_of_idle, taken.received]
    simp [Event.acknowledges]
  have brings' : tally Event.brings s'.moments = tally Event.brings s.moments + 1 := by
    rw [taken.grows.moments, tally_append, tally_append, tally_cons, brought, brings,
      taken.idle.tally_eq_zero fun _ => not_brings_of_idle]
    rfl
  have before : tally Event.breaks (s.moments ++ xs ++ [start]) = 0 := by
    simp [quiet, taken.idle.tally_within Event.within_breaks, taken.received, Event.breaks]
  have whole : s'.moments = s.moments ++ xs ++ [start] ++ ms := by simp [taken.grows.moments]
  refine ⟨fun up => ?_, ?_, ?_⟩
  · obtain ⟨one, unbroken⟩ := settled up
    exact ⟨by omega, by rw [whole, tally_append, before, unbroken]⟩
  · have last : since Event.brings s'.moments = ms := by
      rw [taken.grows.moments, ← List.append_assoc]
      exact since_cons brought brings
    rw [last]
    omega
  · rw [whole]
    exact .after before conclusive

theorem Passed.squared {complete : Bool} {world : σ} (h : Passed w (w.fresh world) complete s)
    (hc : complete = true) (unspoilt : tally Event.spoils s.moments = 0) : Squared s := by
  induction h with
  | begun => exact ⟨by simp, by simp, .of_quiet (by simp)⟩
  | idle _ steady idle _ ih =>
    rw [steady.moments, tally_append] at unspoilt
    exact (ih rfl (Nat.eq_zero_of_add_eq_zero unspoilt).1).idle steady idle
  | reset _ _ ih =>
    obtain ⟨running, left, conclusive⟩ := ih rfl unspoilt
    exact ⟨running, left, conclusive⟩
  | @cycle s t m fuel _ fresh running receive ih =>
    obtain ⟨s', xs, start, ms, r, cycle, taken⟩ := w.taken_spec fuel running receive
    rw [cycle] at hc unspoilt ⊢
    rw [taken.grows.moments, tally_append, tally_append, tally_cons] at unspoilt
    exact (ih rfl (by omega)).taken running fresh taken hc (by omega)
  | cut => cases hc

end

/-- When the visits are over, what is counted as settled has been acknowledged, and so has every
message but one that a terminated worker has left behind. Every attempt is counted as a failure or
as settled, but for a last one that has broken off. -/
theorem counters_balance (w : Worker σ) (world : σ) (visits : List (Visit σ))
    (finished : (w.live visits (w.fresh world)).1 = .done ())
    (unspoilt : ∀ x ∈ (w.history world visits).moments,
      x.event ≠ .failed (.sequence .deactivate) .unknown) :
    let s := w.history world visits
    let settled := s.counters.value Counter.delivered + s.counters.value Counter.nonRetry +
      s.counters.value Counter.dropped + s.counters.value Counter.undeliverable
    tally Event.acknowledges s.moments = settled ∧
    (s.counters.value Counter.fetched - settled = 0 ∨
      s.counters.value Counter.fetched - settled = 1 ∧ s.status.terminated = true ∧
      tally Event.acknowledges (since Event.brings s.moments) = 0) ∧
    tally Event.attempts s.moments = s.counters.value Counter.failures +
      s.counters.value Counter.delivered + s.counters.value Counter.nonRetry +
      ((since Event.asks s.moments).any (·.event.breaks)).toNat := by
  have passed := w.passed_history world visits
  have quiet : tally Event.spoils (w.history world visits).moments = 0 := by
    rw [tally_eq_zero]
    intro x hx
    rw [← Bool.not_eq_true]
    intro spoils
    unfold Event.spoils at spoils
    split at spoils
    · rename_i event
      exact unspoilt x hx event
    · cases spoils
  rw [finished] at passed
  obtain ⟨running, left, conclusive⟩ := passed.squared rfl quiet
  obtain ⟨names, accounts, value⟩ := w.history_accounts world visits
  have fetched := accounts.fetched
  have acknowledged := accounts.acknowledged
  have attempted := accounts.attempted
  dsimp only
  rw [← conclusive.breaks_eq, value Counter.fetched (by decide),
    value Counter.delivered (by decide), value Counter.nonRetry (by decide),
    value Counter.dropped (by decide), value Counter.undeliverable (by decide),
    value Counter.failures (by decide)]
  refine ⟨by omega, ?_, by omega⟩
  rcases left with even | ⟨odd, pending⟩
  · exact .inl (by omega)
  · refine .inr ⟨by omega, ?_, pending⟩
    rw [← Bool.not_eq_false]
    intro up
    have := (running up).1
    omega

theorem counters_balance_broken :
    let w := plain {} (.error .unknown)
    let s := w.history [⟨"1", ∅, .null⟩] [.run 2]
    let settled := s.counters.value Counter.delivered + s.counters.value Counter.nonRetry +
      s.counters.value Counter.dropped + s.counters.value Counter.undeliverable
    (w.live [.run 2] (w.fresh [⟨"1", ∅, .null⟩])).1 = .done () ∧
    (∀ x ∈ s.moments, x.event ≠ .failed (.sequence .deactivate) .unknown) ∧
    s.counters.value Counter.fetched - settled = 1 ∧
    (tally Event.acknowledges s.moments = settled ∧
    (s.counters.value Counter.fetched - settled = 0 ∨
      s.counters.value Counter.fetched - settled = 1 ∧ s.status.terminated = true ∧
      tally Event.acknowledges (since Event.brings s.moments) = 0) ∧
    tally Event.attempts s.moments = s.counters.value Counter.failures +
      s.counters.value Counter.delivered + s.counters.value Counter.nonRetry +
      ((since Event.asks s.moments).any (·.event.breaks)).toNat) := by
  have finished : ((plain {} (.error .unknown)).live [.run 2]
      ((plain {} (.error .unknown)).fresh [⟨"1", ∅, .null⟩])).1 = .done () := rfl
  have quiet : tally Event.spoils ((plain {} (.error .unknown)).history [⟨"1", ∅, .null⟩]
      [.run 2]).moments = 0 := by decide
  have unspoilt : ∀ x ∈ ((plain {} (.error .unknown)).history [⟨"1", ∅, .null⟩]
      [.run 2]).moments, x.event ≠ .failed (.sequence .deactivate) .unknown := by
    intro x hx event
    simpa [event, Event.spoils] using tally_eq_zero.1 quiet x hx
  exact ⟨finished, unspoilt, by decide, counters_balance _ _ _ finished unspoilt⟩

end Worker

end Courier
