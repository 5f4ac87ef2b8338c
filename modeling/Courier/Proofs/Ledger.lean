import Courier.Proofs.Retirement
import Mathlib.Data.List.DropRight

/-!
The counters against the journal. Every pass through the attempts counts what it comes to, so that
the counters say how many messages have been acknowledged and how many attempts there have been.
-/

namespace Courier

variable {σ : Type}

namespace Event

def attempts : Event → Bool
  | .sending _ _ | .consumerAsked false => true
  | _ => false

def asks : Event → Bool
  | .consumerAsked _ => true
  | _ => false

def skips : Event → Bool
  | .consumerAsked false => true
  | _ => false

def unreplied : Event → Bool
  | .failed (.sequence .reply) _ => true
  | _ => false

def breaks : Event → Bool
  | .failed .exchange .unknown | .failed (.sequence .reply) _ => true
  | _ => false

theorem within_attempts : Within .attempt attempts := by
  intro e h
  unfold attempts at h
  split at h <;> first | rfl | cases h

theorem within_asks : Within .attempt asks := by
  intro e h
  cases e <;> first | rfl | cases h

theorem within_skips : Within .attempt skips := by
  intro e h
  unfold skips at h
  split at h <;> first | rfl | cases h

theorem within_unreplied : Within .attempt unreplied := by
  intro e h
  unfold unreplied at h
  split at h <;> first | rfl | cases h

theorem within_breaks : Within .attempt breaks := by
  intro e h
  unfold breaks at h
  split at h <;> first | rfl | cases h

theorem breaks_of_unreplied {e : Event} (h : e.unreplied = true) : e.breaks = true := by
  unfold unreplied at h
  split at h <;> first | rfl | cases h

theorem within_brings : Within .opening brings := by
  intro e h
  unfold brings at h
  split at h <;> first | rfl | cases h

end Event

theorem unreplied_le (ms : List (Moment σ)) : tally Event.unreplied ms ≤ tally Event.breaks ms :=
  List.countP_mono_left fun _ _ => Event.breaks_of_unreplied

namespace Worker

open Site (Enters)

def delivers (w : Worker σ) : Event → Bool
  | .sent none => true
  | .sent (some response) => (w.settings.classifier.classifyResponse response).outcome = .success
  | _ => false

theorem within_delivers (w : Worker σ) : Event.Within .attempt w.delivers := by
  intro e h
  cases e <;> first | rfl | cases h

namespace Finding

def delivers : Finding → Bool
  | .delivered => true
  | _ => false

def settles : Finding → Bool
  | .delivered | .turnedDown _ => true
  | _ => false

end Finding

/-- What is counted agrees with what shows in the journal. -/
structure Accounts (w : Worker σ) (names : List String) (ms : List (Moment σ)) : Prop where
  fetched : names.count Counter.fetched = tally Event.brings ms
  acknowledged : names.count Counter.delivered + names.count Counter.nonRetry +
    names.count Counter.dropped + names.count Counter.undeliverable = tally Event.acknowledges ms
  attempted : names.count Counter.failures + names.count Counter.delivered +
    names.count Counter.nonRetry + tally Event.breaks ms = tally Event.attempts ms
  delivered_le : names.count Counter.delivered ≤ tally w.delivers ms + tally Event.skips ms
  delivers_le : tally w.delivers ms + tally Event.skips ms ≤
    names.count Counter.delivered + tally Event.unreplied ms

section Accounts

variable {w : Worker σ} {e : Endpoint} {stored : Message} {s s' : Site σ} {ms ns : List (Moment σ)}
  {names more : List String}

theorem Accounts.append (h : w.Accounts names ms) (k : w.Accounts more ns) :
    w.Accounts (names ++ more) (ms ++ ns) := by
  obtain ⟨h₁, h₂, h₃, h₄, h₅⟩ := h
  obtain ⟨k₁, k₂, k₃, k₄, k₅⟩ := k
  constructor <;> simp only [List.count_append, tally_append] <;> omega

theorem Accounts.nil (brings : tally Event.brings ms = 0)
    (acknowledges : tally Event.acknowledges ms = 0)
    (attempt : ∀ p, Event.Within .attempt p → tally p ms = 0) : w.Accounts [] ms := by
  constructor <;> simp [brings, acknowledges, attempt _ Event.within_breaks,
    attempt _ Event.within_attempts, attempt _ w.within_delivers, attempt _ Event.within_skips]

theorem accounts_of_staged {g : Stage} (h : Staged g ms)
    (hg : g ≠ .opening ∧ g ≠ .attempt ∧ g ≠ .settlement) : w.Accounts [] ms :=
  .nil (h.tally Event.within_brings ⟨by decide, hg.1.symm⟩)
    (h.tally Event.within_acknowledges ⟨by decide, hg.2.2.symm⟩)
    fun _ hp => h.tally hp ⟨by decide, hg.2.1.symm⟩

theorem not_idle_of_attempt {e : Event} (h : e.stage = .attempt) : e.idle = false := by
  cases e with
  | dispatching kind _ => rfl
  | mediating kind _ _ => rfl
  | mediated kind _ => rfl
  | failed errand _ =>
    cases errand with
    | sequence kind => rfl
    | exchange => rfl
    | _ => cases h
  | _ => first | rfl | cases h

theorem not_brings_of_idle {e : Event} (h : e.idle = true) : e.brings = false := by
  rw [← Bool.not_eq_true]
  intro brings
  unfold Event.brings at brings
  split at brings
  · cases h
  · cases brings

theorem Idle.tally_eq_zero {p : Event → Bool} (h : Idle ms)
    (hp : ∀ e, e.idle = true → p e = false) : tally p ms = 0 :=
  Courier.tally_eq_zero.2 fun x hx => hp _ (h x hx).1

theorem Idle.tally_within {p : Event → Bool} (h : Idle ms) (hp : Event.Within .attempt p) :
    tally p ms = 0 := by
  apply h.tally_eq_zero
  intro e idle
  rw [← Bool.not_eq_true]
  intro he
  simp [not_idle_of_attempt (hp e he)] at idle

theorem accounts_of_idle (h : Idle ms) : w.Accounts [] ms :=
  .nil (h.tally_eq_zero fun _ => not_brings_of_idle)
    (h.tally_eq_zero fun _ => not_acknowledges_of_idle) fun _ hp => h.tally_within hp

theorem Exchanged.figures {outcome : Except Fault (Option Message)}
    (h : w.Exchanged e stored outcome ms) :
    tally Event.attempts ms = 1 ∧ tally Event.faults ms = 0 ∧ tally Event.skips ms = 0 ∧
      tally Event.unreplied ms = 0 ∧
      tally Event.breaks ms = (Event.closing .exchange .sent outcome).breaks.toNat ∧
      tally w.delivers ms = (w.delivers (.closing .exchange .sent outcome)).toNat := by
  have count {p : Event → Bool} (hp : Event.Within .attempt p) := h.tally_eq (hp.sober (by decide))
  rw [count Event.within_attempts, count Event.within_faults, count Event.within_skips,
    count Event.within_unreplied, count Event.within_breaks, count w.within_delivers]
  cases outcome <;> simp [Event.closing, Event.attempts, Event.faults, Event.skips, Event.unreplied,
    Event.breaks, delivers]

theorem quiet_of_retries {outcome : Except Fault (Option Message)}
    (h : w.settings.retries outcome = true) :
    (Event.closing .exchange .sent outcome).breaks = false ∧
      w.delivers (.closing .exchange .sent outcome) = false := by
  match outcome with
  | .ok none => cases h
  | .ok (some response) =>
    have : (w.settings.classifier.classifyResponse response).outcome = .retryable := by
      simpa [Settings.retries] using h
    simp [Event.closing, Event.breaks, delivers, this]
  | .error fault =>
    cases fault with
    | unknown => cases h
    | _ => exact ⟨rfl, rfl⟩

theorem Dispatched.figures {kind : Sequence.Kind} {m : Message} {r : Except Fault Message}
    (h : Dispatched kind m r ms) :
    tally Event.attempts ms = 0 ∧ tally Event.faults ms = (Event.dispatching kind m).faults.toNat ∧
      tally Event.skips ms = 0 ∧
      tally Event.unreplied ms = toll Event.unreplied (.sequence kind) r ∧
      tally Event.breaks ms = toll Event.breaks (.sequence kind) r ∧ tally w.delivers ms = 0 := by
  have count {p : Event → Bool} (hp : Event.Within .attempt p) := h.tally_eq (hp.sober (by decide))
  rw [count Event.within_attempts (fun _ => rfl) fun _ => rfl,
    count Event.within_faults (fun _ => rfl) fun _ => rfl,
    count Event.within_skips (fun _ => rfl) fun _ => rfl,
    count Event.within_unreplied (fun _ => rfl) fun _ => rfl,
    count Event.within_breaks (fun _ => rfl) fun _ => rfl,
    count w.within_delivers (fun _ => rfl) fun _ => rfl]
  have faults (fault : Fault) : (Event.failed (.sequence kind) fault).faults = false := rfl
  cases r <;> simp [Event.attempts, faults, Event.skips, Event.unreplied, Event.breaks, delivers]

theorem report_figures {atFault : Message} {q : Except Fault Message} {x : Moment σ} {r : Record}
    (hx : x.event = .log r) (h : Dispatched .fault atFault q ms) :
    tally Event.attempts (x :: ms) = 0 ∧ tally Event.faults (x :: ms) = 1 ∧
      tally Event.skips (x :: ms) = 0 ∧ tally Event.unreplied (x :: ms) = 0 ∧
      tally Event.breaks (x :: ms) = 0 ∧ tally w.delivers (x :: ms) = 0 := by
  obtain ⟨attempts, faults, skips, unreplied, breaks, delivers⟩ := Dispatched.figures (w := w) h
  simp only [tally_cons, hx]
  rw [attempts, faults, skips, unreplied, breaks, delivers]
  cases q <;> exact ⟨rfl, rfl, rfl, rfl, rfl, rfl⟩

theorem Exchanged.figures_append {outcome : Except Fault (Option Message)}
    (h : w.Exchanged e stored outcome ms) {faults unreplied breaks : Nat}
    (later : tally Event.attempts ns = 0 ∧ tally Event.faults ns = faults ∧
      tally Event.skips ns = 0 ∧ tally Event.unreplied ns = unreplied ∧
      tally Event.breaks ns = breaks ∧ tally w.delivers ns = 0) :
    tally Event.attempts (ms ++ ns) = 1 ∧ tally Event.faults (ms ++ ns) = faults ∧
      tally Event.skips (ms ++ ns) = 0 ∧ tally Event.unreplied (ms ++ ns) = unreplied ∧
      tally Event.breaks (ms ++ ns) =
        (Event.closing .exchange .sent outcome).breaks.toNat + breaks ∧
      tally w.delivers (ms ++ ns) = (w.delivers (.closing .exchange .sent outcome)).toNat := by
  obtain ⟨attempts, faults', skips, unreplied', breaks', delivers⟩ := h.figures
  obtain ⟨h₁, h₂, h₃, h₄, h₅, h₆⟩ := later
  simp only [tally_append]
  omega

theorem Found.figures {finding : Worker.Finding} (h : w.Found e stored finding ms) :
    tally Event.attempts ms = 1 ∧
      tally Event.faults ms + tally Event.breaks ms + finding.settles.toNat = 1 ∧
      finding.delivers.toNat ≤ tally w.delivers ms + tally Event.skips ms ∧
      tally w.delivers ms + tally Event.skips ms ≤
        finding.delivers.toNat + tally Event.unreplied ms ∧
      ((∀ fault, finding ≠ .broken fault) → tally Event.breaks ms = 0) := by
  cases h with
  | gone hx hy =>
    simp [hx, hy, Event.attempts, Event.faults, Event.breaks, Event.skips, Event.unreplied,
      Finding.settles, Finding.delivers, delivers]
  | oneWay h =>
    obtain ⟨attempts, faults, skips, unreplied, breaks, delivers⟩ := h.figures
    rw [attempts, faults, skips, unreplied, breaks, delivers]
    simp [Event.closing, Event.breaks, Worker.delivers, Finding.settles, Finding.delivers]
  | answered h hc hd =>
    obtain ⟨attempts, faults, skips, unreplied, breaks, delivers⟩ :=
      h.figures_append (Dispatched.figures hd)
    rw [attempts, faults, skips, unreplied, breaks, delivers]
    simp [Event.closing, Event.breaks, Event.faults, Worker.delivers, hc, Finding.settles,
      Finding.delivers]
  | turnedDown h hc hd =>
    obtain ⟨attempts, faults, skips, unreplied, breaks, delivers⟩ :=
      h.figures_append (Dispatched.figures hd)
    rw [attempts, faults, skips, unreplied, breaks, delivers]
    simp [Event.closing, Event.breaks, Event.faults, Worker.delivers, hc, Finding.settles,
      Finding.delivers]
  | refused h _ =>
    obtain ⟨attempts, faults, skips, unreplied, breaks, delivers⟩ := h.figures
    rw [attempts, faults, skips, unreplied, breaks, delivers]
    simp [Event.closing, Event.breaks, Worker.delivers, Finding.settles, Finding.delivers]
  | failed h retries hx hd =>
    obtain ⟨attempts, faults, skips, unreplied, breaks, delivers⟩ :=
      h.figures_append (report_figures hx hd)
    rw [attempts, faults, skips, unreplied, breaks, delivers, (quiet_of_retries retries).1,
      (quiet_of_retries retries).2]
    simp [Finding.settles, Finding.delivers]
  | replyBroken h _ hd =>
    obtain ⟨attempts, faults, skips, unreplied, breaks, delivers⟩ :=
      h.figures_append (Dispatched.figures hd)
    rw [attempts, faults, skips, unreplied, breaks, delivers]
    simp [Event.closing, Event.breaks, Event.faults, Event.unreplied, Finding.settles,
      Finding.delivers, Bool.toNat_le]
  | faultBroken h retries hx hd =>
    obtain ⟨attempts, faults, skips, unreplied, breaks, delivers⟩ :=
      h.figures_append (report_figures hx hd)
    rw [attempts, faults, skips, unreplied, breaks, delivers, (quiet_of_retries retries).1,
      (quiet_of_retries retries).2]
    simp [Finding.settles, Finding.delivers]
  | unknown h =>
    obtain ⟨attempts, faults, skips, unreplied, breaks, delivers⟩ := h.figures
    rw [attempts, faults, skips, unreplied, breaks, delivers]
    simp [Event.closing, Event.breaks, Worker.delivers, Finding.settles, Finding.delivers]

theorem Followed.acknowledges {finding : Worker.Finding} {r : Ending Unit}
    (h : w.Followed finding s s' ms r) :
    tally Event.acknowledges ms = (finding.entries ms).length := by
  cases h with
  | delivered h => exact h.acknowledges
  | turnedDown h => exact h.acknowledges
  | broken => rfl
  | _ => rw [Finding.entries, List.length_replicate]

theorem count_entries (t : Try σ) :
    t.entries.count Counter.fetched = 0 ∧
      t.entries.count Counter.failures = tally Event.faults t.found ∧
      t.entries.count Counter.delivered = t.finding.delivers.toNat ∧
      t.entries.count Counter.delivered + t.entries.count Counter.nonRetry =
        t.finding.settles.toNat ∧
      t.entries.count Counter.delivered + t.entries.count Counter.nonRetry +
        t.entries.count Counter.dropped + t.entries.count Counter.undeliverable =
        (t.finding.entries t.aftermath).length := by
  obtain ⟨finding, found, aftermath⟩ := t
  cases finding <;> simp [Try.entries, blamed, Finding.entries, Finding.delivers, Finding.settles,
    List.count_replicate, Counter.fetched, Counter.undeliverable, Counter.failures,
    Counter.delivered, Counter.nonRetry, Counter.dropped]

theorem Tried.accounts {t : Try σ} {r : Ending Unit} (h : w.Tried e stored t s s' r) :
    w.Accounts t.entries t.moments := by
  obtain ⟨mid, assessed, followed⟩ := h.course
  obtain ⟨attempts, reported, delivered_le, delivers_le, -⟩ := assessed.found.figures
  obtain ⟨fetched, failures, delivered, settled, acknowledged⟩ := count_entries t
  have first := assessed.found.staged
  have unsettled := first.tally Event.within_acknowledges (by decide)
  have unopened := first.tally Event.within_brings (by decide)
  have later {p : Event → Bool} (hp : Event.Within .attempt p) : tally p t.aftermath = 0 :=
    followed.tally_eq_zero hp (.inr rfl)
  have acknowledges := followed.acknowledges
  have brings := followed.tally_eq_zero Event.within_brings (.inl rfl)
  have attempts' := later Event.within_attempts
  have breaks := later Event.within_breaks
  have delivers := later w.within_delivers
  have skips := later Event.within_skips
  constructor <;> simp only [Try.moments, tally_append] <;> omega

theorem Tries.accounts {ts : List (Try σ)} {r : Ending Unit} (h : w.Tries e stored ts s s' r) :
    w.Accounts (ts.flatMap Try.entries) (ts.flatMap Try.moments) := by
  induction h with
  | ended => exact accounts_of_idle .nil
  | stalled => exact accounts_of_idle .nil
  | broken h => simpa using h.accounts
  | more h _ ih => exact h.accounts.append ih

theorem tally_untargeted {p : Event → Bool} (hp : Event.Sober p) {x y : Moment σ}
    {xs ys : List (Moment σ)} {accepted : Bool} (hx : x.event.incidental = true)
    (hxs : ∀ z ∈ xs, z.event.incidental = true) (hy : y.event = .acknowledged accepted)
    (hys : ∀ z ∈ ys, z.event.incidental = true) :
    tally p (x :: xs ++ y :: ys) = (p (.acknowledged accepted)).toNat := by
  rw [tally_append, tally_cons, tally_cons, hp _ hx, tally_incidental hp hxs,
    tally_incidental hp hys, hy]
  simp

theorem Forwarded.accounts {r : Ending Unit} (h : w.Forwarded stored s s' ms r) :
    ∃ names, Enters names s s' ∧ w.Accounts names ms := by
  cases h with
  | @untargeted _ _ x xs y ys _ hx _ hxs hy hys _ entered =>
    have count {p : Event → Bool} (hp : Event.Sober p) := tally_untargeted hp hx hxs hy hys
    have attempt {p : Event → Bool} (hp : Event.Within .attempt p) := count (hp.sober (by decide))
    refine ⟨_, entered, ?_⟩
    constructor
    · rw [count (Event.within_brings.sober (by decide))]
      rfl
    · rw [count Event.sober_acknowledges]
      rfl
    · rw [attempt Event.within_breaks, attempt Event.within_attempts]
      rfl
    · rw [attempt w.within_delivers, attempt Event.within_skips]
      exact Nat.zero_le _
    · rw [attempt w.within_delivers, attempt Event.within_skips]
      exact Nat.zero_le _
  | @targeted _ _ _ _ x ts _ hx _ _ _ entered tries =>
    have first : w.Accounts [] [x] :=
      accounts_of_staged (g := .incidental) (.of_incidental (by simpa using hx)) (by decide)
    exact ⟨_, entered.trans tries.entered, first.append tries.accounts⟩

theorem Cycled.accounts {r : Ending Unit} (h : w.Cycled stored s s' ms r) :
    ∃ names, Enters names s s' ∧ w.Accounts names ms := by
  cases h with
  | forwarded h => exact h.accounts
  | givenUp h given =>
    obtain ⟨names, entered, accounts⟩ := h.accounts
    exact ⟨_, entered.trans given.entered,
      accounts.append (accounts_of_staged given.staged (by decide))⟩

theorem Taken.accounts {m : Message} {t : Site σ} {xs : List (Moment σ)} {start : Moment σ}
    {r : Ending Unit} (h : w.Taken m s t s' xs start ms r) :
    ∃ names, Enters names s s' ∧ w.Accounts names (xs ++ start :: ms) := by
  obtain ⟨names, entered, accounts⟩ := h.cycled.accounts
  have fetched : w.Accounts [Counter.fetched] [start] := by
    constructor <;> simp [h.received] <;> rfl
  exact ⟨[] ++ [Counter.fetched] ++ names, (h.fetched.enters.counted _).trans entered, by
    simpa using (accounts_of_idle h.idle).append (fetched.append accounts)⟩

theorem Passed.accounts {complete : Bool} {a : Site σ} (h : Passed w a complete s) :
    ∃ names ms, s.moments = a.moments ++ ms ∧ Enters names a s ∧ w.Accounts names ms := by
  induction h with
  | begun => exact ⟨[], [], by simp, .refl a, accounts_of_idle .nil⟩
  | idle _ steady idle entered ih =>
    obtain ⟨names, ms, moments, before, accounts⟩ := ih
    exact ⟨_, _, by rw [steady.moments, moments, List.append_assoc], before.trans entered,
      accounts.append (accounts_of_idle idle)⟩
  | reset _ _ ih => exact ih
  | @cycle s t m fuel _ _ running receive ih =>
    obtain ⟨names, ms, moments, before, accounts⟩ := ih
    obtain ⟨s', xs, start, ns, r, cycle, taken⟩ := w.taken_spec fuel running receive
    obtain ⟨more, entered, accounts'⟩ := taken.accounts
    rw [cycle]
    exact ⟨_, _, by rw [taken.grows.moments, moments, List.append_assoc], before.trans entered,
      accounts.append accounts'⟩
  | cut _ ih => exact ih

end Accounts

theorem value_fresh (w : Worker σ) (world : σ) (name : String) :
    (w.fresh world).counters.value name = 0 := by
  simp [fresh, Site.fresh, Counters.value]

theorem history_accounts (w : Worker σ) (world : σ) (visits : List (Visit σ)) :
    ∃ names, w.Accounts names (w.history world visits).moments ∧
      ∀ name ≠ Counter.deactivations,
        (w.history world visits).counters.value name = names.count name := by
  obtain ⟨names, ms, moments, entered, accounts⟩ := (w.passed_history world visits).accounts
  rw [moments_fresh, List.nil_append] at moments
  refine ⟨names, moments ▸ accounts, fun name h => ?_⟩
  rw [entered name h, value_fresh, Int.zero_add]

/-- What is counted as delivered are the exchanges that deliver and the attempts that find the
consumer gone, unless the reply sequence fails. So it is real deliveries that are counted where no
attempt finds the consumer gone, and, the reply sequence never failing, only there. -/
theorem delivered_counts (w : Worker σ) (world : σ) (visits : List (Visit σ)) :
    let s := w.history world visits
    s.counters.value Counter.delivered ≤ tally w.delivers s.moments + tally Event.skips s.moments ∧
    tally w.delivers s.moments + tally Event.skips s.moments ≤
      s.counters.value Counter.delivered + tally Event.unreplied s.moments ∧
    (tally Event.unreplied s.moments = 0 →
      (s.counters.value Counter.delivered ≤ tally w.delivers s.moments ↔
        tally Event.skips s.moments = 0)) := by
  obtain ⟨names, accounts, value⟩ := w.history_accounts world visits
  have delivered := value Counter.delivered (by decide)
  have upper := accounts.delivered_le
  have lower := accounts.delivers_le
  dsimp only
  omega

def forsaken : Worker (List Message) :=
  { plain { throttle := false } (.ok none) with
    outside := { Outside.plain (.ok none) [] with isAlive _ := false } }

/-- A message is counted as delivered that nobody has sent. -/
theorem counted_unsent :
    let s := forsaken.history [⟨"m1", ∅, .null⟩] [.run 2]
    ¬ s.counters.value Counter.delivered ≤ tally forsaken.delivers s.moments ∧
      tally Event.sends s.moments = 0 := by
  decide

end Worker

end Courier
