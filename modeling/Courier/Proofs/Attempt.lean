import Courier.Proofs.Step
import Courier.Worker.Delivery

namespace Courier

variable {σ α β : Type}

def Settings.retries (s : Settings) : Except Fault (Option Message) → Bool
  | .ok none => false
  | .ok (some response) => (s.classifier.classifyResponse response).outcome = .retryable
  | .error (.delivery _ cause) => !s.classifier.isNonRetryable cause
  | .error fault => fault ≠ .unknown

namespace Event

def faults : Event → Bool
  | .dispatching .fault _ => true
  | _ => false

theorem within_faults : Within .attempt faults := by
  intro e h
  unfold faults at h
  split at h
  · rfl
  · cases h

theorem sober_faults : Sober faults := within_faults.sober (by decide)

end Event

namespace Site

structure Grows (s s' : Site σ) (ms : List (Moment σ)) : Prop where
  moments : s'.moments = s.moments ++ ms
  rises : Rises s.status.terminated ms s'.status.terminated
  deactivations : s'.counters.value Worker.Counter.deactivations =
    s.counters.value Worker.Counter.deactivations + tally Event.deactivates ms

structure Steady (s s' : Site σ) (ms : List (Moment σ)) : Prop extends Grows s s' ms where
  attempts : s'.status.progress.attempts = s.status.progress.attempts
  constant : ∀ x ∈ ms, x.status.progress.attempts = s.status.progress.attempts

def Enters (names : List String) (s s' : Site σ) : Prop :=
  ∀ c ≠ Worker.Counter.deactivations, s'.counters.value c = s.counters.value c + names.count c

section Grows

variable {s t u : Site σ} {ms ns : List (Moment σ)}

theorem Grows.refl (s : Site σ) : Grows s s [] := ⟨by simp, .refl _, by simp⟩

theorem Grows.trans (h : Grows s t ms) (k : Grows t u ns) : Grows s u (ms ++ ns) where
  moments := by rw [k.moments, h.moments, List.append_assoc]
  rises := h.rises.trans k.rises
  deactivations := by
    rw [k.deactivations, h.deactivations, tally_append]
    omega

theorem Spell.grows (h : Spell s t ms) (hd : tally Event.deactivates ms = 0) : Grows s t ms where
  moments := h.moments
  rises := h.rises
  deactivations := by simp [h.counters, hd]

theorem Grows.note (h : Grows s t ms) (e : Event) (he : e.deactivates = false) :
    Grows s (t.note e) (ms ++ [t.moment e]) :=
  h.trans (((Spell.refl t).note e).grows (by simp [he]))

theorem Grows.withProgress (h : Grows s t ms) (p : Progress) :
    Grows s (t.withStatus { t.status with progress := p }) ms :=
  ⟨h.moments, h.rises, h.deactivations⟩

theorem Grows.counted (h : Grows s t ms) {c : String}
    (hc : c ≠ Worker.Counter.deactivations) : Grows s (t.counted c) ms where
  moments := h.moments
  rises := h.rises
  deactivations := by simp [Counters.count, Counters.value_add, hc, h.deactivations]

theorem Steady.refl (s : Site σ) : Steady s s [] := ⟨.refl s, rfl, by simp⟩

theorem Steady.trans (h : Steady s t ms) (k : Steady t u ns) : Steady s u (ms ++ ns) where
  toGrows := h.toGrows.trans k.toGrows
  attempts := by rw [k.attempts, h.attempts]
  constant x hx := by
    rcases List.mem_append.1 hx with hx | hx
    · exact h.constant x hx
    · rw [k.constant x hx, h.attempts]

theorem Spell.steady (h : Spell s t ms) (hd : tally Event.deactivates ms = 0) : Steady s t ms where
  toGrows := h.grows hd
  attempts := by rw [h.progress]
  constant x hx := by rw [h.progress_mem hx]

theorem Spell.steady_of_staged {g : Stage} (h : Spell s t ms) (staged : Staged g ms)
    (hg : g ≠ .retirement) : Steady s t ms :=
  h.steady (staged.tally Event.within_deactivates ⟨by decide, hg.symm⟩)

theorem Steady.note (h : Steady s t ms) (e : Event) (he : e.deactivates = false) :
    Steady s (t.note e) (ms ++ [t.moment e]) :=
  h.trans (((Spell.refl t).note e).steady (by simp [he]))

theorem Steady.counted (h : Steady s t ms) {c : String}
    (hc : c ≠ Worker.Counter.deactivations) : Steady s (t.counted c) ms :=
  ⟨h.toGrows.counted hc, h.attempts, h.constant⟩

theorem Steady.withSucceeded (h : Steady s t ms) (succeeded : Bool) :
    Steady s (t.withStatus
      { t.status with progress := { t.status.progress with succeeded := succeeded } }) ms :=
  ⟨h.toGrows.withProgress _, h.attempts, h.constant⟩

variable {as bs : List String}

theorem Enters.refl (s : Site σ) : Enters [] s s := by
  simp [Enters]

theorem Enters.trans (h : Enters as s t) (k : Enters bs t u) : Enters (as ++ bs) s u := by
  intro c hc
  rw [k c hc, h c hc, List.count_append]
  omega

theorem Enters.counted (h : Enters as s t) (name : String) :
    Enters (as ++ [name]) s (t.counted name) := by
  intro c hc
  rw [counters_counted, Counters.count, Counters.value_add, h c hc, List.count_append,
    List.count_singleton]
  by_cases same : name = c
  · simp [same]
    omega
  · simp [same]

theorem Spell.enters (h : Spell s t ms) : Enters [] s t := by
  simp [Enters, h.counters]

end Grows

end Site

namespace Worker

variable (w : Worker σ)

open Site (Spell Grows Steady Enters)

theorem steady_logged {s t : Site σ} {ms : List (Moment σ)} (h : Steady s t ms)
    (severity : Severity) (text : String) :
    ∃ x, Steady s (w.logged severity text t) (ms ++ [x]) ∧ x.event.incidental = true ∧
      x.world = t.world :=
  ⟨_, h.note _ rfl, rfl, rfl⟩

def Exchanged (e : Endpoint) (stored : Message) (outcome : Except Fault (Option Message))
    (ms : List (Moment σ)) : Prop :=
  ∃ x ns, ms = x :: ns ∧ x.event = .consumerAsked true ∧
    Called (.sending e (w.workingCopy stored)) (.closing .exchange .sent outcome) ns

section

variable {w} {e : Endpoint} {stored : Message} {outcome : Except Fault (Option Message)}
  {ms : List (Moment σ)}

theorem Exchanged.tally_eq {p : Event → Bool} (hp : Event.Sober p)
    (h : w.Exchanged e stored outcome ms) :
    tally p ms = (p (.consumerAsked true)).toNat + (p (.sending e (w.workingCopy stored))).toNat +
      (p (.closing .exchange .sent outcome)).toNat := by
  obtain ⟨x, ns, rfl, hx, h⟩ := h
  simp [hx, h.tally_eq hp, Nat.add_assoc]

theorem Exchanged.staged (h : w.Exchanged e stored outcome ms) : Staged .attempt ms := by
  obtain ⟨x, ns, rfl, hx, h⟩ := h
  refine .cons (.inr (by rw [hx, Event.stage])) (h.staged rfl ?_)
  cases outcome <;> rfl

theorem Exchanged.ne_nil (h : w.Exchanged e stored outcome ms) : ms ≠ [] := by
  obtain ⟨x, ns, rfl, -⟩ := h
  simp

theorem Exchanged.sends (h : w.Exchanged e stored outcome ms) : tally Event.sends ms = 1 := by
  rw [h.tally_eq Event.sober_sends]
  cases outcome <;> rfl

end

inductive Finding
  | delivered
  | turnedDown (reason : String)
  | failed (working : Message)
  | broken (fault : Fault)

/-- How an attempt shows in the journal, depending on what it finds out. -/
inductive Found (e : Endpoint) (stored : Message) : Finding → List (Moment σ) → Prop
  | gone {x y r} : x.event = .consumerAsked false → y.event = .log r →
      Found e stored .delivered [x, y]
  | oneWay {ms} : w.Exchanged e stored (.ok none) ms → Found e stored .delivered ms
  | answered {response m ms ns} : w.Exchanged e stored (.ok (some response)) ms →
      (w.settings.classifier.classifyResponse response).outcome = .success →
      Dispatched .reply response (.ok m) ns → Found e stored .delivered (ms ++ ns)
  | turnedDown {response m ms ns} : w.Exchanged e stored (.ok (some response)) ms →
      (w.settings.classifier.classifyResponse response).outcome = .nonRetryable →
      Dispatched .reply response (.ok m) ns →
      Found e stored (.turnedDown (w.settings.classifier.classifyResponse response).reason)
        (ms ++ ns)
  | refused {what cause ms} : w.Exchanged e stored (.error (.delivery what cause)) ms →
      w.settings.classifier.isNonRetryable cause = true → Found e stored (.turnedDown cause) ms
  | failed {outcome atFault m working x r ms ns} : w.Exchanged e stored outcome ms →
      w.settings.retries outcome = true → x.event = .log r →
      Dispatched .fault atFault (.ok m) ns → Found e stored (.failed working) (ms ++ x :: ns)
  | replyBroken {response fault ms ns} : w.Exchanged e stored (.ok (some response)) ms →
      w.settings.retries (.ok (some response)) = false →
      Dispatched .reply response (.error fault) ns → Found e stored (.broken fault) (ms ++ ns)
  | faultBroken {outcome atFault fault x r ms ns} : w.Exchanged e stored outcome ms →
      w.settings.retries outcome = true → x.event = .log r →
      Dispatched .fault atFault (.error fault) ns → Found e stored (.broken fault) (ms ++ x :: ns)
  | unknown {ms} : w.Exchanged e stored (.error .unknown) ms → Found e stored (.broken .unknown) ms

section

variable {w} {e : Endpoint} {stored : Message} {finding : Finding} {ms : List (Moment σ)}

theorem Found.staged (h : w.Found e stored finding ms) : Staged .attempt ms := by
  cases h with
  | gone hx hy =>
    exact .cons (.inr (by rw [hx, Event.stage])) (.cons (.inl (by rw [hy, Event.stage])) .nil)
  | oneWay h => exact h.staged
  | answered h _ hd => exact h.staged.append hd.staged
  | turnedDown h _ hd => exact h.staged.append hd.staged
  | refused h => exact h.staged
  | failed h _ hx hd => exact h.staged.append (.cons (.inl (by rw [hx, Event.stage])) hd.staged)
  | replyBroken h _ hd => exact h.staged.append hd.staged
  | faultBroken h _ hx hd =>
    exact h.staged.append (.cons (.inl (by rw [hx, Event.stage])) hd.staged)
  | unknown h => exact h.staged

theorem Found.ne_nil (h : w.Found e stored finding ms) : ms ≠ [] := by
  cases h with
  | gone => simp
  | oneWay h => exact h.ne_nil
  | answered h => simp [h.ne_nil]
  | turnedDown h => simp [h.ne_nil]
  | refused h => exact h.ne_nil
  | failed => simp
  | replyBroken h => simp [h.ne_nil]
  | faultBroken => simp
  | unknown h => exact h.ne_nil

theorem Found.sends_le (h : w.Found e stored finding ms) : tally Event.sends ms ≤ 1 := by
  cases h with
  | gone hx hy => simp [hx, hy, Event.sends]
  | oneWay h => simp [h.sends]
  | answered h _ hd => simp [h.sends, hd.sends]
  | turnedDown h _ hd => simp [h.sends, hd.sends]
  | refused h => simp [h.sends]
  | failed h _ hx hd => simp [h.sends, hd.sends, hx, Event.sends]
  | replyBroken h _ hd => simp [h.sends, hd.sends]
  | faultBroken h _ hx hd => simp [h.sends, hd.sends, hx, Event.sends]
  | unknown h => simp [h.sends]

theorem Found.sends_of_failed {working : Message}
    (h : w.Found e stored (.failed working) ms) : tally Event.sends ms = 1 := by
  cases h with
  | failed h _ hx hd => simp [h.sends, hd.sends, hx, Event.sends]

end

def follow (e : Endpoint) (stored : Message) : Finding → Act σ Unit
  | .delivered => w.completeDelivery e stored.id
  | .turnedDown reason => w.settleUndelivered stored.id reason
  | .failed working => w.prepareToRetry working
  | .broken fault => Act.raise fault

inductive Attempted (e : Endpoint) (stored : Message) : Attempt → List (Moment σ) → Prop
  | skipped {x y r} : x.event = .consumerAsked false → y.event = .log r →
      Attempted e stored .skipped [x, y]
  | completed {ms} : w.Exchanged e stored (.ok none) ms → Attempted e stored .completed ms
  | answered {response working ms} : w.Exchanged e stored (.ok (some response)) ms →
      Attempted e stored (.answered response working) ms
  | refused {fault working ms} : w.Exchanged e stored (.error fault) ms →
      Attempted e stored (.refused fault working) ms

variable {w} in
theorem Attempted.staged {e : Endpoint} {stored : Message} {a : Attempt} {ms : List (Moment σ)}
    (h : w.Attempted e stored a ms) : Staged .attempt ms := by
  cases h with
  | skipped hx hy =>
    exact .cons (.inr (by rw [hx, Event.stage])) (.cons (.inl (by rw [hy, Event.stage])) .nil)
  | completed h => exact h.staged
  | answered h => exact h.staged
  | refused h => exact h.staged

theorem attempt_spec (e : Endpoint) (stored : Message) (s : Site σ) :
    ∃ a s' ms, w.attempt e stored s = (.done a, s') ∧ Spell s s' ms ∧ w.Attempted e stored a ms ∧
      ∀ x ∈ ms, x.event.sends = true → x.status = s.status := by
  rw [attempt, isAlive, bind_assoc, Act.bind_done (Act.look_apply _ s), bind_assoc,
    Act.bind_done (Act.note_apply _ s), pure_bind]
  have asked := (Spell.refl s).note (.consumerAsked (w.outside.isAlive s.world))
  cases alive : w.outside.isAlive s.world with
  | false =>
    rw [alive] at asked
    exact ⟨.skipped, _, _, rfl, asked.note _, .skipped rfl rfl, by simp [Event.sends]⟩
  | true =>
    rw [alive] at asked
    obtain ⟨outcome, working, s', ms, send, hs, hc, ht⟩ :=
      w.send_spec e (w.workingCopy stored) (s.note (.consumerAsked true))
    have exchanged : w.Exchanged e stored outcome (s.moment (.consumerAsked true) :: ms) :=
      ⟨_, ms, rfl, rfl, hc⟩
    have started : ∀ x ∈ s.moment (.consumerAsked true) :: ms, x.event.sends = true →
        x.status = s.status := by
      intro x hx
      rcases List.mem_cons.1 hx with rfl | hx
      · simp
      · exact hc.begun Event.sober_sends (by cases outcome <;> rfl) ht x hx
    rw [if_pos rfl, Act.bind_done send]
    match outcome with
    | .ok none => exact ⟨.completed, s', _, rfl, asked.trans hs, .completed exchanged, started⟩
    | .ok (some response) =>
      exact ⟨.answered response working, s', _, rfl, asked.trans hs, .answered exchanged, started⟩
    | .error fault =>
      exact ⟨.refused fault working, s', _, rfl, asked.trans hs, .refused exchanged, started⟩

theorem reportFailure_spec (text : String) (atFault : Message) (s : Site σ) :
    ∃ r s' x record ns, w.reportFailure text atFault s = (.ofExcept r, s') ∧
      Steady s s' (x :: ns) ∧ Enters [Counter.failures] s s' ∧ x.event = .log record ∧
      Dispatched .fault atFault r ns ∧ s'.status.progress = s.status.progress ∧
      ∀ y ∈ (x :: ns).getLast?, y.status = s'.status := by
  let logged := (w.logged .error text s).counted Counter.failures
  obtain ⟨r, s', ns, mediate, hs, hd, hl⟩ := w.mediate_spec .fault atFault logged
  have counted : Steady s logged [s.moment (.log _)] :=
    ((Steady.refl s).note _ rfl).counted (by decide)
  have steady := counted.trans (hs.steady_of_staged hd.staged (by decide))
  have entered : Enters [Counter.failures] s logged := (Enters.refl s).counted _
  refine ⟨r, s', _, _, ns, ?_, steady, entered.trans hs.enters, rfl, hd, hs.progress, ?_⟩
  · rw [reportFailure, Act.bind_done (w.log_apply _ _ s), Act.bind_done (Act.count_apply _ _),
      mediate]
  · cases hd with
    | missing => simpa using hl
    | mediated => simpa using hl
    | failed => simpa using hl

def blamed (ms : List (Moment σ)) : List String :=
  List.replicate (tally Event.faults ms) Counter.failures

theorem blamed_append (ms ns : List (Moment σ)) : blamed (ms ++ ns) = blamed ms ++ blamed ns := by
  rw [blamed, tally_append, ← List.replicate_append_replicate, blamed, blamed]

theorem blamed_eq_nil {ms : List (Moment σ)} (h : tally Event.faults ms = 0) : blamed ms = [] := by
  simp [blamed, h]

theorem blamed_reported {atFault : Message} {q : Except Fault Message} {x : Moment σ}
    {record : Record} {ns : List (Moment σ)} (hx : x.event = .log record)
    (h : Dispatched .fault atFault q ns) : blamed (x :: ns) = [Counter.failures] := by
  have one : tally Event.faults ns = 1 := by
    rw [h.tally_eq Event.sober_faults (fun _ => rfl) fun _ => rfl]
    cases q <;> rfl
  simp [blamed, hx, one, Event.faults]

theorem blamed_exchanged {e : Endpoint} {stored : Message} {outcome : Except Fault (Option Message)}
    {ms : List (Moment σ)} (h : w.Exchanged e stored outcome ms) : blamed ms = [] := by
  apply blamed_eq_nil
  rw [h.tally_eq Event.sober_faults]
  cases outcome <;> rfl

theorem blamed_replied {m : Message} {q : Except Fault Message} {ms : List (Moment σ)}
    (h : Dispatched .reply m q ms) : blamed ms = [] := by
  apply blamed_eq_nil
  rw [h.tally_eq Event.sober_faults (fun _ => rfl) fun _ => rfl]
  cases q <;> rfl

variable {w} in
theorem Attempted.blamed {e : Endpoint} {stored : Message} {a : Attempt} {ms : List (Moment σ)}
    (h : w.Attempted e stored a ms) : Worker.blamed ms = [] := by
  cases h with
  | skipped hx hy => simp [Worker.blamed, hx, hy, Event.faults]
  | completed h => exact w.blamed_exchanged h
  | answered h => exact w.blamed_exchanged h
  | refused h => exact w.blamed_exchanged h

structure Assessed (e : Endpoint) (stored : Message) (finding : Finding) (s s' : Site σ)
    (ms : List (Moment σ)) : Prop where
  found : w.Found e stored finding ms
  steady : Steady s s' ms
  entered : Enters (blamed ms) s s'
  started : ∀ x ∈ ms, x.event.sends = true → x.status = s.status
  unsettled : ∀ working, finding = .failed working → s.status.progress.succeeded = false →
    s'.status.progress.succeeded = false
  last : ∀ working, finding = .failed working → ∀ x ∈ ms.getLast?, x.status = s'.status

theorem judge_spec (e : Endpoint) (stored response working : Message) (s : Site σ)
    {ms : List (Moment σ)} (h : w.Exchanged e stored (.ok (some response)) ms) :
    ∃ finding s' ns, w.judge e stored response working s = w.follow e stored finding s' ∧
      Steady s s' ns ∧ Enters (blamed ns) s s' ∧ w.Found e stored finding (ms ++ ns) ∧
      tally Event.sends ns = 0 ∧
      ∀ working, finding = .failed working →
        s'.status.progress.succeeded = false ∧ ∀ x ∈ (ms ++ ns).getLast?, x.status = s'.status := by
  -- a response that is no reason to try again goes through the reply sequence first
  have replied {finding : Finding} (final : ∀ working, finding ≠ .failed working)
      (quiet : w.settings.retries (.ok (some response)) = false)
      (found : ∀ {m ns}, Dispatched .reply response (.ok m) ns →
        w.Found e stored finding (ms ++ ns)) :
      ∃ found s' ns,
        (w.mediate .reply response >>= fun _ => w.follow e stored finding) s =
          w.follow e stored found s' ∧
        Steady s s' ns ∧ Enters (blamed ns) s s' ∧ w.Found e stored found (ms ++ ns) ∧
        tally Event.sends ns = 0 ∧ ∀ working, found ≠ .failed working := by
    obtain ⟨r, s', ns, mediate, hs, hd, -⟩ := w.mediate_spec .reply response s
    have steady := hs.steady_of_staged hd.staged (by decide)
    have entered : Enters (blamed ns) s s' := by
      rw [blamed_replied hd]
      exact hs.enters
    cases r with
    | ok m =>
      rw [Act.bind_done mediate]
      exact ⟨finding, s', ns, rfl, steady, entered, found hd, hd.sends, final⟩
    | error fault =>
      rw [Act.bind_raised mediate]
      exact ⟨.broken fault, s', ns, rfl, steady, entered, .replyBroken h quiet hd, hd.sends,
        by simp⟩
  cases verdict : (w.settings.classifier.classifyResponse response).outcome with
  | success =>
    obtain ⟨finding, s', ns, reply, steady, entered, found, sends, final⟩ :=
      @replied .delivered (by simp)
        (by simp [Settings.retries, verdict]) (.answered h verdict)
    simp only [judge, verdict]
    exact ⟨finding, s', ns, reply, steady, entered, found, sends, fun _ h => absurd h (final _)⟩
  | nonRetryable =>
    obtain ⟨finding, s', ns, reply, steady, entered, found, sends, final⟩ := replied (by simp)
      (by simp [Settings.retries, verdict]) (.turnedDown h verdict)
    simp only [judge, verdict]
    exact ⟨finding, s', ns, reply, steady, entered, found, sends, fun _ h => absurd h (final _)⟩
  | retryable =>
    have retries : w.settings.retries (.ok (some response)) = true := by
      simp [Settings.retries, verdict]
    simp only [judge, verdict]
    rw [Act.bind_done (Act.setStatus_apply _ s)]
    obtain ⟨r, s', x, record, ns, report, hs, counted, hx, hd, hp, hl⟩ := w.reportFailure_spec
      ("Endpoint [" ++ e.name ++ "] rejected message " ++ stored.id ++ ": " ++
        (w.settings.classifier.classifyResponse response).reason) response
      (s.withStatus { s.status with progress := { s.status.progress with succeeded := false } })
    have steady := ((Steady.refl s).withSucceeded false).trans hs
    have entered : Enters (blamed (x :: ns)) s s' := by
      rw [blamed_reported hx hd]
      exact counted
    cases r with
    | ok m =>
      rw [Act.bind_done report]
      refine ⟨.failed working, s', x :: ns, rfl, steady, entered, .failed h retries hx hd,
        by simp [hx, Event.sends, hd.sends], ?_⟩
      intro _ _
      refine ⟨by simp [hp], ?_⟩
      simpa using hl
    | error fault =>
      rw [Act.bind_raised report]
      exact ⟨.broken fault, s', x :: ns, rfl, steady, entered, .faultBroken h retries hx hd,
        by simp [hx, Event.sends, hd.sends], by simp⟩

theorem recover_spec (e : Endpoint) (stored working : Message) (fault : Fault) (s : Site σ)
    {ms : List (Moment σ)} (h : w.Exchanged e stored (.error fault) ms) :
    ∃ finding s' ns, w.recover e stored fault working s = w.follow e stored finding s' ∧
      Steady s s' ns ∧ Enters (blamed ns) s s' ∧ w.Found e stored finding (ms ++ ns) ∧
      tally Event.sends ns = 0 ∧
      ∀ working, finding = .failed working →
        s'.status.progress = s.status.progress ∧
        ∀ x ∈ (ms ++ ns).getLast?, x.status = s'.status := by
  have again (text : String) (retries : w.settings.retries (.error fault) = true) :
      ∃ finding s' ns,
        (do w.prepareToRetry (← w.reportFailure text working)) s = w.follow e stored finding s' ∧
        Steady s s' ns ∧ Enters (blamed ns) s s' ∧ w.Found e stored finding (ms ++ ns) ∧
        tally Event.sends ns = 0 ∧
        ∀ working, finding = .failed working →
          s'.status.progress = s.status.progress ∧
          ∀ x ∈ (ms ++ ns).getLast?, x.status = s'.status := by
    obtain ⟨r, s', x, record, ns, report, hs, counted, hx, hd, hp, hl⟩ :=
      w.reportFailure_spec text working s
    have entered : Enters (blamed (x :: ns)) s s' := by
      rw [blamed_reported hx hd]
      exact counted
    cases r with
    | ok m =>
      rw [Act.bind_done report]
      refine ⟨.failed m, s', x :: ns, rfl, hs, entered, .failed h retries hx hd,
        by simp [hx, Event.sends, hd.sends], ?_⟩
      intro _ _
      refine ⟨hp, ?_⟩
      simpa using hl
    | error fault =>
      rw [Act.bind_raised report]
      exact ⟨.broken fault, s', x :: ns, rfl, hs, entered, .faultBroken h retries hx hd,
        by simp [hx, Event.sends, hd.sends], by simp⟩
  cases fault with
  | unknown =>
    exact ⟨.broken .unknown, s, [], rfl, .refl s, .refl s, by simpa using .unknown h, rfl, by simp⟩
  | delivery what cause =>
    cases retryable : w.settings.classifier.isNonRetryable cause with
    | true =>
      refine ⟨.turnedDown cause, s, [], ?_, .refl s, .refl s, by simpa using .refused h retryable,
        rfl, by simp⟩
      simp [recover, Fault.describe?, retryable, follow]
    | false =>
      simp only [recover, Fault.describe?, retryable, Bool.false_eq_true, if_false]
      exact again _ (by simp [Settings.retries, retryable])
  | runtime what => exact again _ rfl
  | invalidArgument what => exact again _ rfl

theorem deliverOnce_spec (e : Endpoint) (stored : Message) (s : Site σ) :
    ∃ finding s' ms, w.deliverOnce e stored s = w.follow e stored finding s' ∧
      w.Assessed e stored finding s s' ms := by
  obtain ⟨a, t, ms, attempt, hs, ha, started⟩ := w.attempt_spec e stored s
  have later {ns : List (Moment σ)} (h : tally Event.sends ns = 0) :
      ∀ x ∈ ms ++ ns, x.event.sends = true → x.status = s.status := by
    intro x hx sends
    rcases List.mem_append.1 hx with hx | hx
    · exact started x hx sends
    · simp [tally_eq_zero.1 h x hx] at sends
  have steady := hs.steady_of_staged ha.staged (by decide)
  have entered : Enters (blamed ms) s t := by
    rw [ha.blamed]
    exact hs.enters
  rw [deliverOnce, Act.bind_done attempt]
  cases ha with
  | skipped hx hy =>
    exact ⟨.delivered, _, _, rfl, .gone hx hy, steady.withSucceeded true, entered, started,
      by simp, by simp⟩
  | completed h =>
    exact ⟨.delivered, _, _, rfl, .oneWay h, steady.withSucceeded true, entered, started,
      by simp, by simp⟩
  | answered h =>
    obtain ⟨finding, s', ns, judge, hj, counted, found, sends, hf⟩ := w.judge_spec e stored _ _ _ h
    refine ⟨finding, s', _, judge, found, (steady.withSucceeded true).trans hj, ?_, later sends,
      fun working hw _ => (hf working hw).1, fun working hw => (hf working hw).2⟩
    rw [blamed_append]
    exact entered.trans counted
  | refused h =>
    obtain ⟨finding, s', ns, recover, hr, counted, found, sends, hf⟩ :=
      w.recover_spec e stored _ _ t h
    refine ⟨finding, s', _, recover, found, steady.trans hr, ?_, later sends, ?_,
      fun working hw => (hf working hw).2⟩
    · rw [blamed_append]
      exact entered.trans counted
    intro working hw unsettled
    rw [(hf working hw).1, hs.progress, unsettled]

end Worker

end Courier
