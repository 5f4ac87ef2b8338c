import Courier.Proofs.History

namespace Courier

variable {σ : Type}

def Status.Within (n : Int) (t : Status) : Prop :=
  0 ≤ t.progress.attempts ∧ t.progress.attempts ≤ n

namespace Worker

open Site (Steady)

section Within

variable {w : Worker σ} {world : σ} {e : Endpoint} {stored : Message} {s s' : Site σ}
  {ms : List (Moment σ)} {n : Int}

theorem bounded_of_pos (hn : 0 < w.settings.maxAttempts) : w.settings.retryPolicy.bounded = true :=
  decide_eq_true hn

theorem within_of_steady (h : Steady s s' ms) (hs : s.status.Within n) :
    s'.status.Within n ∧ ∀ x ∈ ms, x.status.Within n := by
  refine ⟨?_, fun x hx => ?_⟩
  · rw [Status.Within, h.attempts]
    exact hs
  · rw [Status.Within, h.constant x hx]
    exact hs

theorem within_of_settled (hn : 0 ≤ n) (h : s.Settled s' ms) (hs : s.status.Within n) :
    s'.status.Within n ∧ ∀ x ∈ ms, x.status.Within n := by
  have hs' : s'.status.Within n := by
    rw [h.status]
    exact ⟨Int.le_refl 0, hn⟩
  refine ⟨hs', fun x hx => ?_⟩
  rcases h.constant x hx with h | h
  · rw [h]
    exact hs
  · rw [h]
    exact hs'

theorem Followed.within {finding : Finding} {r : Ending Unit} (hn : 0 < w.settings.maxAttempts)
    (h : w.Followed finding s s' ms r) (hs : s.status.Within w.settings.maxAttempts)
    (left : s.status.progress.attempts < w.settings.maxAttempts) :
    s'.status.Within w.settings.maxAttempts ∧
      ∀ x ∈ ms, x.status.Within w.settings.maxAttempts := by
  -- one attempt more, for the site that is left and for all that shows before
  have counted (attempts : s'.status.progress.attempts = s.status.progress.attempts + 1)
      (constant : ∀ x ∈ ms, x.status.progress.attempts = s'.status.progress.attempts) :
      s'.status.Within w.settings.maxAttempts ∧
        ∀ x ∈ ms, x.status.Within w.settings.maxAttempts := by
    have hs' : s'.status.Within w.settings.maxAttempts := by
      obtain ⟨low, -⟩ := hs
      constructor <;> omega
    refine ⟨hs', fun x hx => ?_⟩
    rw [Status.Within, constant x hx]
    exact hs'
  cases h with
  | delivered h => exact within_of_settled (Int.le_of_lt hn) h hs
  | turnedDown h => exact within_of_settled (Int.le_of_lt hn) h hs
  | broken => exact ⟨hs, by simp⟩
  | ended => exact ⟨hs, by simp⟩
  | again _ h => exact counted (h.counted (bounded_of_pos hn)).2 h.constant
  | dropped _ _ _ _ h _ => exact within_of_settled (Int.le_of_lt hn) h hs
  | exhausted _ _ _ _ h => exact counted h.attempts h.constant

theorem Tried.within {t : Try σ} {r : Ending Unit} (hn : 0 < w.settings.maxAttempts)
    (h : w.Tried e stored t s s' r) (hs : s.status.Within w.settings.maxAttempts)
    (left : s.status.progress.attempts < w.settings.maxAttempts) :
    s'.status.Within w.settings.maxAttempts ∧
      ∀ x ∈ t.moments, x.status.Within w.settings.maxAttempts := by
  obtain ⟨mid, assessed, followed⟩ := h.course
  obtain ⟨hmid, found⟩ := within_of_steady assessed.steady hs
  obtain ⟨hs', aftermath⟩ := followed.within hn hmid (by rw [assessed.steady.attempts]; exact left)
  exact ⟨hs', List.forall_mem_append.2 ⟨found, aftermath⟩⟩

theorem Tries.within {ts : List (Try σ)} {r : Ending Unit} (hn : 0 < w.settings.maxAttempts)
    (h : w.Tries e stored ts s s' r) (hs : s.status.Within w.settings.maxAttempts)
    (left : s.status.progress.succeeded = false → s.status.terminated = false →
      s.status.progress.attempts < w.settings.maxAttempts) :
    s'.status.Within w.settings.maxAttempts ∧
      ∀ x ∈ ts.flatMap Try.moments, x.status.Within w.settings.maxAttempts := by
  induction h with
  | ended => exact ⟨hs, by simp⟩
  | stalled => exact ⟨hs, by simp⟩
  | broken h => simpa using h.within hn hs (left h.unsettled h.running)
  | more h _ ih =>
    obtain ⟨hmid, first⟩ := h.within hn hs (left h.unsettled h.running)
    obtain ⟨hs', rest⟩ := ih hmid fun unsettled running =>
      ((h.again unsettled running (by simp)).2 (bounded_of_pos hn)).2
    exact ⟨hs', List.forall_mem_append.2 ⟨first, rest⟩⟩

theorem Forwarded.within {r : Ending Unit} (hn : 0 < w.settings.maxAttempts)
    (h : w.Forwarded stored s s' ms r) (fresh : s.status.progress = .fresh) :
    s'.status.Within w.settings.maxAttempts ∧
      ∀ x ∈ ms, x.status.Within w.settings.maxAttempts := by
  have hs : s.status.Within w.settings.maxAttempts := by
    rw [Status.Within, fresh]
    exact ⟨Int.le_refl 0, (Int.le_of_lt hn)⟩
  cases h with
  | untargeted _ _ _ _ _ h _ => exact within_of_steady h hs
  | targeted _ _ first status _ tries =>
    obtain ⟨-, hx⟩ := within_of_steady first hs
    obtain ⟨hs', rest⟩ := tries.within hn (by rw [status]; exact hs) fun _ _ => by
      rw [status, fresh]
      exact hn
    exact ⟨hs', List.forall_mem_cons.2 ⟨hx _ (by simp), rest⟩⟩

theorem Cycled.within {r : Ending Unit} (hn : 0 < w.settings.maxAttempts)
    (h : w.Cycled stored s s' ms r) (fresh : s.status.progress = .fresh) :
    s'.status.Within w.settings.maxAttempts ∧
      ∀ x ∈ ms, x.status.Within w.settings.maxAttempts := by
  cases h with
  | forwarded h => exact h.within hn fresh
  | givenUp h given =>
    obtain ⟨hs, first⟩ := h.within hn fresh
    obtain ⟨hs', rest⟩ := within_of_steady given.toSteady hs
    exact ⟨hs', List.forall_mem_append.2 ⟨first, rest⟩⟩

theorem Reached.within (hn : 0 < w.settings.maxAttempts) (h : Reached w (w.fresh world) s) :
    s.status.Within w.settings.maxAttempts ∧
      ∀ x ∈ s.moments, x.status.Within w.settings.maxAttempts := by
  induction h with
  | begun => exact ⟨⟨Int.le_refl 0, (Int.le_of_lt hn)⟩, by simp⟩
  | idle _ steady _ ih =>
    obtain ⟨hs', rest⟩ := within_of_steady steady ih.1
    rw [steady.moments]
    exact ⟨hs', List.forall_mem_append.2 ⟨ih.2, rest⟩⟩
  | reset _ _ ih => exact ⟨⟨Int.le_refl 0, (Int.le_of_lt hn)⟩, ih.2⟩
  | @cycle s t m fuel _ fresh running receive ih =>
    obtain ⟨s', xs, start, ms, r, cycle, taken⟩ := w.taken_spec fuel running receive
    have progress : (t.counted Counter.fetched).status.progress = .fresh := by
      rw [Site.status_counted, taken.fetched.progress, fresh]
    obtain ⟨hs', rest⟩ := taken.cycled.within hn progress
    have fetched : ∀ x ∈ xs ++ [start], x.status.Within w.settings.maxAttempts := by
      intro x hx
      rw [Status.Within, taken.fetched.progress_mem hx]
      exact ih.1
    obtain ⟨before, first⟩ := List.forall_mem_append.1 fetched
    rw [cycle, taken.grows.moments]
    refine ⟨hs', List.forall_mem_append.2 ⟨ih.2, List.forall_mem_append.2 ⟨before, ?_⟩⟩⟩
    exact List.forall_mem_cons.2 ⟨first start (by simp), rest⟩

end Within

def interrupted (t : Try σ) : Bool := t.found.getLast?.any (·.status.terminated)

/-- What follows the `k`-th attempt of a cycle where the attempt failed and the message has been
through the fault sequence: `newer` are the passes after it, and `closing` is the rest of the
cycle. -/
structure Charged (w : Worker σ) (k : Nat) (t : Try σ) (newer : List (Try σ))
    (closing : List (Moment σ)) : Prop where
  counted : ∀ x ∈ t.found, x.status.progress.attempts = k - 1
  terminated : interrupted t = true → t.aftermath = [] ∧ newer = [] ∧ closing = []
  again : interrupted t = false → (k : Int) < w.settings.maxAttempts →
    t.aftermath ≠ [] ∧ (∀ x ∈ t.aftermath, x.status.progress.attempts = k) ∧
    delays t.aftermath = (if 0 < w.settings.retryIntervalMs then [w.settings.retryIntervalMs]
      else []) ∧
    tally Event.acknowledges t.aftermath = 0
  dropped : interrupted t = false → k = w.settings.maxAttempts →
    w.settings.dropOnMaxAttempts = true →
    newer = [] ∧ closing = [] ∧ delays t.aftermath = [] ∧
    tally Event.acknowledges t.aftermath = 1 ∧
    ∀ x ∈ t.aftermath, x.status.progress = ⟨0, true⟩ ∧ x.status.terminated = false
  /-- At the limit, the worker is terminated, and its owner deactivated unless nothing is known
  about how the deactivate sequence failed. -/
  exhausted : interrupted t = false → k = w.settings.maxAttempts →
    w.settings.dropOnMaxAttempts = false →
    newer = [] ∧ delays (t.aftermath ++ closing) = [] ∧
    tally Event.acknowledges (t.aftermath ++ closing) = 0 ∧
    (∀ x ∈ t.aftermath ++ closing, x.status.terminated = true ∧
      x.status.progress.attempts = w.settings.maxAttempts) ∧
    ((∃ x ∈ t.aftermath, x.event = .deactivating) ∨
      ∃ x ∈ t.aftermath, x.event = .failed (.sequence .deactivate) .unknown)

/-- How a cycle uses its attempts: what is done before and after the passes sends nothing, and a
pass sends at most once. -/
structure Rationed (w : Worker σ) (stored : Message) (opening : List (Moment σ))
    (tries : List (Try σ)) (closing : List (Moment σ)) : Prop where
  before : tally Event.sends opening = 0
  after : tally Event.sends closing = 0
  passes : ∀ t ∈ tries, ∃ e, w.Found e stored t.finding t.found ∧ tally Event.sends t.aftermath = 0
  limit : (tries.length : Int) ≤ w.settings.maxAttempts
  charged : ∀ older t newer working, tries = older ++ t :: newer → t.finding = .failed working →
    w.Charged (older.length + 1) t newer closing

theorem Rationed.sends_le {w : Worker σ} {stored : Message} {opening closing : List (Moment σ)}
    {tries : List (Try σ)} (h : w.Rationed stored opening tries closing) :
    tally Event.sends (tries.flatMap Try.moments) ≤ tries.length := by
  have passes := h.passes
  clear h
  induction tries with
  | nil => simp
  | cons t ts ih =>
    obtain ⟨first, rest⟩ := List.forall_mem_cons.1 passes
    obtain ⟨e, found, aftermath⟩ := first
    have := ih rest
    have := found.sends_le
    simp only [List.flatMap_cons, Try.moments, tally_append, List.length_cons] at *
    omega

section Charged

variable {w : Worker σ} {e : Endpoint} {stored : Message} {s s' : Site σ} {ms : List (Moment σ)}

def Closes (stored : Message) (s : Site σ) (r : Ending Unit) (closing : List (Moment σ)) : Prop :=
  (∀ fault, r ≠ .raised fault) ∧ closing = [] ∨
    ∃ fault s' q, r = .raised fault ∧ GivenUp fault (some stored) s s' closing q

theorem Assessed.interrupted_eq {working : Message} {t : Try σ}
    (h : w.Assessed e stored t.finding s s' t.found) (failed : t.finding = .failed working) :
    interrupted t = s'.status.terminated := by
  obtain ⟨x, hx⟩ : ∃ x, t.found.getLast? = some x := by
    rw [← Option.isSome_iff_exists, List.getLast?_isSome]
    exact h.found.ne_nil
  simp [interrupted, hx, h.last working failed x hx]

theorem Tries.charged (hn : 0 < w.settings.maxAttempts) {older newer : List (Try σ)} {t : Try σ}
    {r : Ending Unit} {closing : List (Moment σ)} {working : Message}
    (tries : w.Tries e stored (older ++ t :: newer) s s' r)
    (start : s.status.progress.attempts = 0) (closes : Closes stored s' r closing)
    (failed : t.finding = .failed working) : w.Charged (older.length + 1) t newer closing := by
  obtain ⟨finding, found, aftermath⟩ := t
  obtain rfl : finding = .failed working := failed
  obtain ⟨a, b, q, tried, -, attempts, -, rest⟩ := tries.split
  obtain ⟨attempts, -⟩ := attempts (bounded_of_pos hn)
  obtain ⟨mid, assessed, followed⟩ := tried.course
  have interrupted := assessed.interrupted_eq rfl
  have counted : ∀ x ∈ found, x.status.progress.attempts = (older.length + 1 : Nat) - 1 := by
    intro x hx
    rw [assessed.steady.constant x hx, attempts, start]
    omega
  have mid_attempts : mid.status.progress.attempts = older.length := by
    rw [assessed.steady.attempts, attempts, start]
    omega
  have limit : w.settings.retryPolicy.maxAttempts = w.settings.maxAttempts := rfl
  -- a pass after which the message is settled or the worker terminated is the last one
  have stopped (hb : ¬(b.status.progress.succeeded = false ∧ b.status.terminated = false)) :
      newer = [] ∧ (q = .done () → closing = []) ∧
        ∀ x ∈ closing, x.status.progress.attempts = b.status.progress.attempts ∧
          b.status.terminated ≤ x.status.terminated := by
    have last : newer = [] ∧ s' = b ∧ (q = .done () → ∀ fault, r ≠ .raised fault) := by
      rcases rest with ⟨-, later⟩ | ⟨rfl, rfl, rfl⟩
      · obtain ⟨hnewer, hs', hr⟩ := later.stopped hb
        exact ⟨hnewer, hs', fun _ => hr⟩
      · exact ⟨rfl, rfl, fun h => by simp [h]⟩
    obtain ⟨hnewer, rfl, hr⟩ := last
    refine ⟨hnewer, fun hq => ?_, ?_⟩
    · rcases closes with ⟨-, h⟩ | ⟨fault, _, _, h, -⟩
      · exact h
      · exact absurd h (hr hq fault)
    · rcases closes with ⟨-, rfl⟩ | ⟨fault, _, _, -, given⟩
      · simp
      · exact fun x hx => ⟨given.constant x hx, given.rises.first x hx⟩
  cases followed with
  | ended up =>
    obtain ⟨hnewer, hclosing, -⟩ := stopped (by simp [up])
    refine ⟨counted, fun _ => ⟨rfl, hnewer, hclosing rfl⟩, ?_, ?_, ?_⟩ <;>
      simp [interrupted, up]
  | again up h =>
    obtain ⟨within, attempts⟩ := h.counted (bounded_of_pos hn)
    refine ⟨counted, by simp [interrupted, up], fun _ _ => ⟨?_, ?_, ?_, ?_⟩, ?_, ?_⟩
    · obtain ⟨x, r, ns, hms, -, -⟩ := h.rested
      exact hms ▸ List.cons_ne_nil x ns
    · intro x hx
      rw [h.constant x hx, attempts, mid_attempts]
      omega
    · exact h.delays_eq
    · exact h.staged.tally Event.within_acknowledges (by decide)
    · omega
    · omega
  | dropped up bounded drops exceeded h constant =>
    obtain ⟨hnewer, hclosing, -⟩ := stopped (by simp [h.status])
    have drop : w.settings.dropOnMaxAttempts = true := by
      simpa [Settings.retryPolicy, RetryPolicy.of, hn] using drops
    refine ⟨counted, by simp [interrupted, up], by omega, fun _ _ _ => ⟨hnewer, hclosing rfl, ?_,
      h.acknowledges, ?_⟩, by simp [drop]⟩
    · exact delays_eq_nil (h.staged.tally Event.within_sleeps (by decide))
    · intro x hx
      rw [constant x hx, h.status]
      exact ⟨rfl, up⟩
  | exhausted up bounded drops exceeded h =>
    obtain ⟨hnewer, -, hclosing⟩ := stopped (by simp [h.terminated.1])
    have keep : w.settings.dropOnMaxAttempts = false := by
      simpa [Settings.retryPolicy, RetryPolicy.of, hn] using drops
    have staged : Staged .retirement (aftermath ++ closing) := by
      apply h.staged.append
      rcases closes with ⟨-, rfl⟩ | ⟨_, _, _, -, given⟩
      · exact .nil
      · exact given.staged
    refine ⟨counted, by simp [interrupted, up], by omega, by simp [keep], fun _ hk _ => ⟨hnewer,
      delays_eq_nil (staged.tally Event.within_sleeps (by decide)),
      staged.tally Event.within_acknowledges (by decide), ?_, ?_⟩⟩
    · refine List.forall_mem_append.2 ⟨fun x hx => ⟨h.terminated.2 x hx, ?_⟩, fun x hx => ?_⟩
      · rw [h.constant x hx, h.attempts]
        omega
      · obtain ⟨attempts, raised⟩ := hclosing x hx
        refine ⟨Bool.le_antisymm (Bool.le_true _) (h.terminated.1 ▸ raised), ?_⟩
        rw [attempts, h.attempts]
        omega
    · obtain ⟨xs, ns, ys, hms, -, retired, -⟩ := h.retired
      change aftermath = _ at hms
      rcases retired.deactivating with ⟨x, hx, he⟩ | ⟨x, hx, he⟩
      · exact .inl ⟨x, by simp [hms, hx], he⟩
      · exact .inr ⟨x, by simp [hms, hx], he⟩

theorem Tries.length_le (hn : 0 < w.settings.maxAttempts) {ts : List (Try σ)} {r : Ending Unit}
    (tries : w.Tries e stored ts s s' r) (start : s.status.progress.attempts = 0) :
    (ts.length : Int) ≤ w.settings.maxAttempts := by
  rcases List.eq_nil_or_concat ts with rfl | ⟨older, t, rfl⟩
  · exact Int.le_of_lt hn
  · rw [List.concat_eq_append] at tries ⊢
    obtain ⟨a, -, -, -, -, attempts, -⟩ := tries.split
    obtain ⟨attempts, bound⟩ := attempts (bounded_of_pos hn)
    have limit : w.settings.retryPolicy.maxAttempts = w.settings.maxAttempts := rfl
    rw [limit, start] at bound
    have := bound hn
    rw [List.length_append, List.length_singleton]
    omega

theorem Closes.sends {r : Ending Unit} {closing : List (Moment σ)}
    (closes : Closes stored s r closing) : tally Event.sends closing = 0 := by
  rcases closes with ⟨-, rfl⟩ | ⟨_, _, _, -, given⟩
  · rfl
  · exact given.staged.tally Event.within_sends (by decide)

theorem Forwarded.rationed (hn : 0 < w.settings.maxAttempts) {r : Ending Unit}
    {closing : List (Moment σ)} (h : w.Forwarded stored s s' ms r)
    (fresh : s.status.progress = .fresh) (closes : Closes stored s' r closing) :
    ∃ opening tries, ms = opening ++ tries.flatMap Try.moments ∧
      w.Rationed stored opening tries closing := by
  cases h with
  | @untargeted _ _ x xs y ys _ hx _ hxs hy hys _ _ =>
    refine ⟨x :: xs ++ y :: ys, [], by simp, ?_, closes.sends, by simp, Int.le_of_lt hn, by simp⟩
    rw [tally_append, tally_incidental Event.sober_sends (List.forall_mem_cons.2 ⟨hx, hxs⟩),
      tally_cons, hy, tally_incidental Event.sober_sends hys]
    rfl
  | @targeted e _ t _ x ts _ hx _ _ status _ tries =>
    have start : t.status.progress.attempts = 0 := by rw [status, fresh]; rfl
    refine ⟨[x], ts, rfl, by simp [Event.sober_sends _ hx], closes.sends, ?_,
      tries.length_le hn start, ?_⟩
    · intro u hu
      obtain ⟨a, b, q, tried⟩ := tries.tried u hu
      obtain ⟨mid, assessed, followed⟩ := tried.course
      exact ⟨e, assessed.found, followed.tally_eq_zero Event.within_sends (.inr rfl)⟩
    · intro older u newer working hts failed
      rw [hts] at tries
      exact tries.charged hn start closes failed

theorem Cycled.rationed (hn : 0 < w.settings.maxAttempts) {r : Ending Unit}
    (h : w.Cycled stored s s' ms r) (fresh : s.status.progress = .fresh) :
    ∃ opening tries closing, ms = opening ++ tries.flatMap Try.moments ++ closing ∧
      w.Rationed stored opening tries closing := by
  cases h with
  | forwarded h hr =>
    obtain ⟨opening, tries, rfl, rationed⟩ := h.rationed hn fresh (.inl ⟨hr, rfl⟩)
    exact ⟨opening, tries, [], by simp, rationed⟩
  | givenUp h given =>
    obtain ⟨opening, tries, rfl, rationed⟩ := h.rationed hn fresh (.inr ⟨_, _, _, rfl, given⟩)
    exact ⟨opening, tries, _, rfl, rationed⟩

end Charged

section Finishes

variable {w : Worker σ} {e : Endpoint} {stored : Message} {s : Site σ}

theorem deliver_finishes (hn : 0 < w.settings.maxAttempts) (fuel : Nat)
    (left : s.status.progress.attempts < w.settings.maxAttempts)
    (enough : w.settings.maxAttempts < s.status.progress.attempts + fuel) :
    (w.deliver e stored fuel s).1 ≠ .unfinished := by
  induction fuel generalizing s with
  | zero => omega
  | succ fuel ih =>
    rw [deliver, Act.bind_done (Act.status_apply s), Act.onlyIf_apply]
    split
    case isFalse => simp
    case isTrue h =>
      obtain ⟨t, u, q, once, tried, finished⟩ := w.tried_spec e stored s h.1 h.2
      cases q with
      | unfinished => exact absurd rfl finished
      | raised fault =>
        rw [Act.bind_raised once]
        simp
      | done _ =>
        rw [Act.bind_done once]
        by_cases more : u.status.progress.succeeded = false ∧ u.status.terminated = false
        · obtain ⟨attempts, within⟩ := (tried.again more.1 more.2 (by simp)).2 (bounded_of_pos hn)
          exact ih within (by omega)
        · cases fuel with
          | zero => omega
          | succ fuel =>
            rw [deliver, Act.bind_done (Act.status_apply u), Act.onlyIf_apply, if_neg more]
            simp

theorem forward_finishes (hn : 0 < w.settings.maxAttempts) {fuel : Nat}
    (fresh : s.status.progress = .fresh) (enough : w.settings.maxAttempts < fuel) :
    (w.forward stored fuel s).1 ≠ .unfinished := by
  obtain ⟨t, xs, resolve, -, status, -⟩ := w.resolveTarget_spec stored
    (w.logged .debug ("Sending message " ++ stored.id ++ " to the endpoint") s)
  have attempts : t.status.progress.attempts = 0 := by
    rw [status, status_logged, fresh]
    rfl
  rw [forward, Act.bind_done (w.log_apply _ _ s), Act.bind_done resolve]
  generalize w.target? stored _ = found
  cases found with
  | some e => exact deliver_finishes hn fuel (by omega) (by omega)
  | none =>
    obtain ⟨accepted, u, x, ms, acknowledge, -⟩ := w.acknowledge_spec stored.id
      ((w.logged .warn ("Property " ++ Property.targetEndpoint ++ " not found for message " ++
        stored.id ++ ", hence removing the message") t).counted Counter.undeliverable)
    intro unfinished
    have := (congrArg Prod.fst acknowledge).symm.trans unfinished
    simp at this

theorem cycle_finishes (hn : 0 < w.settings.maxAttempts) (m : Message) {fuel : Nat}
    (fresh : s.status.progress = .fresh) (enough : w.settings.maxAttempts < fuel) :
    (w.cycle m fuel s).1 ≠ .unfinished := by
  obtain ⟨s', ms, r, forward, -⟩ := w.forward_spec (unmarked m) fuel (s.counted Counter.fetched)
  have finished : r ≠ .unfinished := by
    have finishes : (w.forward (unmarked m) fuel (s.counted Counter.fetched)).1 ≠ .unfinished :=
      forward_finishes hn fresh enough
    rwa [forward] at finishes
  rw [cycle, Act.bind_done (Act.count_apply _ s)]
  cases r with
  | done _ =>
    rw [Act.bind_done (Act.catching_done forward)]
    simp [Act.pure_apply]
  | raised fault =>
    rw [Act.bind_done (Act.catching_raised forward)]
    obtain ⟨u, ns, q, giveUp, -⟩ := w.giveUp_spec
      ("Deactivating the message processor: " ++ ·)
      "Deactivating the message processor after an unknown error" fault (some (unmarked m)) s'
    change (w.giveUp _ _ fault _ s').1 ≠ _
    rw [giveUp]
    cases q <;> simp [Ending.ofExcept]
  | unfinished => exact absurd rfl finished

end Finishes

/-- The budget of attempts is kept at all times: no more attempts are counted than there may be,
every cycle keeps to it and sends at most as often, and every cycle comes to its end. -/
theorem budget_kept (w : Worker σ) (hn : 0 < w.settings.maxAttempts) :
    (∀ world visits, (w.history world visits).status.Within w.settings.maxAttempts ∧
      ∀ x ∈ (w.history world visits).moments, x.status.Within w.settings.maxAttempts) ∧
    (∀ world visits before start m rest,
      (w.history world visits).moments = before ++ start :: rest →
      start.event = .received (some m) →
      (tally Event.sends (sameCycle rest) : Int) ≤ w.settings.maxAttempts ∧
      ∃ opening tries closing tail,
        sameCycle rest = (opening ++ tries.flatMap Try.moments ++ closing) ++ tail ∧
        w.Rationed (unmarked m) opening tries closing ∧ Idle tail) ∧
    ∀ m (fuel : Nat) s, s.status.progress = .fresh → w.settings.maxAttempts < fuel →
      (w.cycle m fuel s).1 ≠ .unfinished := by
  refine ⟨fun world visits => (w.reached_history world visits).within hn, ?_,
    fun m fuel s fresh enough => cycle_finishes hn m fresh enough⟩
  intro world visits before start m rest hms hs
  have each := (w.reached_history world visits).eachCycle
    (P := fun m c => ∃ opening tries closing, c = opening ++ tries.flatMap Try.moments ++ closing ∧
      w.Rationed (unmarked m) opening tries closing)
    fun cycled fresh => cycled.rationed hn fresh
  obtain ⟨body, tail, hbody, ⟨opening, tries, closing, rfl, rationed⟩, idle⟩ :=
    each before start m rest hms hs
  refine ⟨?_, opening, tries, closing, tail, hbody, rationed, idle⟩
  rw [hbody, tally_append, idle.sends, tally_append, tally_append, rationed.before, rationed.after]
  have := rationed.sends_le
  have := rationed.limit
  omega

/-- Both attempts fail: the worker waits between them, and is terminated after the second one. -/
theorem budget_kept_exhausted :
    let w := plain { maxAttempts := 2, retryIntervalMs := 5 } (.error (.runtime "down"))
    let s := w.history [⟨"1", ∅, .null⟩] [.run 3]
    0 < w.settings.maxAttempts ∧ s.status.progress.attempts = 2 ∧ s.status.terminated = true ∧
    s.status.Within w.settings.maxAttempts ∧
    ∃ before start m rest, s.moments = before ++ start :: rest ∧
      start.event = .received (some m) ∧ tally Event.sends (sameCycle rest) = 2 ∧
      delays (sameCycle rest) = [5] ∧
      (∃ opening tries closing tail,
        sameCycle rest = (opening ++ tries.flatMap Try.moments ++ closing) ++ tail ∧
        w.Rationed (unmarked m) opening tries closing ∧ Idle tail) ∧
      (w.cycle m 3 (w.fresh [m])).1 ≠ .unfinished := by
  intro w s
  have positive : 0 < w.settings.maxAttempts := by decide
  obtain ⟨within, cycles, ends⟩ := budget_kept w positive
  obtain ⟨start, m, received, split⟩ := first_received s.moments (by decide +kernel)
  obtain ⟨-, rationed⟩ := cycles _ _ _ start m _ split received
  exact ⟨positive, by decide +kernel, by decide +kernel, (within _ _).1, _, start, m, _, split,
    received, by decide +kernel, by decide +kernel, rationed, ends m 3 _ rfl (by decide)⟩

end Worker

end Courier
