import Courier.Proofs.Aftermath
import Courier.Worker.Run

namespace Courier

variable {σ : Type}

structure Try (σ : Type) where
  finding : Worker.Finding
  found : List (Moment σ)
  aftermath : List (Moment σ)

def Try.moments (t : Try σ) : List (Moment σ) := t.found ++ t.aftermath

def Try.entries (t : Try σ) : List String :=
  Worker.blamed t.found ++ t.finding.entries t.aftermath

namespace Worker

variable (w : Worker σ)

open Site (Spell Grows Steady Settled Enters)

structure Tried (e : Endpoint) (stored : Message) (t : Try σ) (s s' : Site σ) (r : Ending Unit) :
    Prop where
  unsettled : s.status.progress.succeeded = false
  running : s.status.terminated = false
  course : ∃ mid, w.Assessed e stored t.finding s mid t.found ∧
    w.Followed t.finding mid s' t.aftermath r
  entered : Enters t.entries s s'

inductive Tries (e : Endpoint) (stored : Message) :
    List (Try σ) → Site σ → Site σ → Ending Unit → Prop
  | ended {s} : ¬(s.status.progress.succeeded = false ∧ s.status.terminated = false) →
      Tries e stored [] s s (.done ())
  | stalled {s} : Tries e stored [] s s .unfinished
  | broken {t s s' fault} : w.Tried e stored t s s' (.raised fault) →
      Tries e stored [t] s s' (.raised fault)
  | more {t ts s s' s'' r} : w.Tried e stored t s s' (.done ()) → Tries e stored ts s' s'' r →
      Tries e stored (t :: ts) s s'' r

def precedes : Stage → Bool
  | .opening | .acquisition => true
  | _ => false

structure Retried (e : Endpoint) (stored : Message) (t : Try σ) : Prop where
  failed : ∃ working, w.Found e stored (.failed working) t.found
  retrying : ∃ s s' : Site σ, s.status.terminated = false ∧ w.Retrying s s' t.aftermath

section

variable {w} {finding : Finding} {e : Endpoint} {stored : Message} {t : Try σ} {ts : List (Try σ)}
  {s s' : Site σ} {ms : List (Moment σ)} {r : Ending Unit}

theorem Followed.grows (h : w.Followed finding s s' ms r) : Grows s s' ms := by
  cases h with
  | delivered h => exact h.toGrows
  | turnedDown h => exact h.toGrows
  | broken => exact .refl s
  | ended => exact .refl s
  | again _ h => exact h.toGrows
  | dropped _ _ _ _ h _ => exact h.toGrows
  | exhausted _ _ _ _ h => exact h.toGrows

theorem Followed.finished (h : w.Followed finding s s' ms r) : r ≠ .unfinished := by
  cases h with
  | @again _ _ _ _ r => cases r <;> simp [Ending.ofExcept]
  | @exhausted _ _ _ _ r => cases r <;> simp [Ending.ofExcept]
  | _ => simp

theorem Followed.tally_eq_zero {g : Stage} {p : Event → Bool} (hp : Event.Within g p)
    (hg : precedes g = true ∨ g = .attempt) (h : w.Followed finding s s' ms r) :
    tally p ms = 0 := by
  have other {g' : Stage} (staged : Staged g' ms)
      (hg' : g' = .settlement ∨ g' = .rest ∨ g' = .retirement) : tally p ms = 0 := by
    apply staged.tally hp
    rcases hg' with rfl | rfl | rfl <;> cases g <;> simp [precedes] at hg ⊢
  cases h with
  | delivered h => exact other h.staged (by simp)
  | turnedDown h => exact other h.staged (by simp)
  | broken => rfl
  | ended => rfl
  | again _ h => exact other h.staged (by simp)
  | dropped _ _ _ _ h _ => exact other h.staged (by simp)
  | exhausted _ _ _ _ h => exact other h.staged (by simp)

theorem Tried.tally_of_precedes {g : Stage} {p : Event → Bool} (hp : Event.Within g p)
    (hg : precedes g = true) (h : w.Tried e stored t s s' r) : tally p t.moments = 0 := by
  obtain ⟨mid, assessed, followed⟩ := h.course
  have other : g ≠ .incidental ∧ g ≠ .attempt := by
    cases g <;> simp [precedes] at hg ⊢
  rw [Try.moments, tally_append, followed.tally_eq_zero hp (.inl hg),
    assessed.found.staged.tally hp other]

theorem Tried.grows (h : w.Tried e stored t s s' r) : Grows s s' t.moments := by
  obtain ⟨mid, assessed, followed⟩ := h.course
  exact assessed.steady.toGrows.trans (followed.grows)

theorem Tries.grows (h : w.Tries e stored ts s s' r) : Grows s s' (ts.flatMap Try.moments) := by
  induction h with
  | ended => exact .refl _
  | stalled => exact .refl _
  | broken h => simpa using h.grows
  | more h _ ih => exact (h.grows).trans ih

theorem Tries.entered (h : w.Tries e stored ts s s' r) : Enters (ts.flatMap Try.entries) s s' := by
  induction h with
  | ended => exact .refl _
  | stalled => exact .refl _
  | broken h => simpa using h.entered
  | more h _ ih => exact h.entered.trans ih

theorem Tried.again (tried : w.Tried e stored t s s' r)
    (unsettled : s'.status.progress.succeeded = false)
    (running : s'.status.terminated = false) (hr : ∀ fault, r ≠ .raised fault) :
    w.Retried e stored t ∧ (w.settings.retryPolicy.bounded = true →
      s'.status.progress.attempts = s.status.progress.attempts + 1 ∧
      s'.status.progress.attempts < w.settings.retryPolicy.maxAttempts) := by
  obtain ⟨finding, found, aftermath⟩ := t
  obtain ⟨mid, assessed, followed⟩ := tried.course
  cases followed with
  | delivered h => simp [h.status] at unsettled
  | turnedDown h => simp [h.status] at unsettled
  | broken => exact absurd rfl (hr _)
  | ended up => simp [up] at running
  | again up h =>
    refine ⟨⟨⟨_, assessed.found⟩, mid, s', up, h⟩, ?_⟩
    intro bounded
    obtain ⟨within, counted⟩ := h.counted bounded
    rw [counted]
    exact ⟨by rw [assessed.steady.attempts], within⟩
  | dropped _ _ _ _ h _ => simp [h.status] at unsettled
  | exhausted _ _ _ _ h => simp [h.terminated.1] at running

theorem Tries.begun (h : w.Tries e stored ts s s' r) (hts : ts ≠ []) :
    s.status.progress.succeeded = false ∧ s.status.terminated = false := by
  cases h with
  | ended => exact absurd rfl hts
  | stalled => exact absurd rfl hts
  | broken h => exact ⟨h.unsettled, h.running⟩
  | more h => exact ⟨h.unsettled, h.running⟩

theorem Tries.retried (next : w.Tries e stored ts s' u r) (hts : ts ≠ [])
    (tried : w.Tried e stored t s s' (.done ())) :
    w.Retried e stored t ∧ (w.settings.retryPolicy.bounded = true →
      s'.status.progress.attempts = s.status.progress.attempts + 1 ∧
      s'.status.progress.attempts < w.settings.retryPolicy.maxAttempts) := by
  obtain ⟨unsettled, running⟩ := next.begun hts
  exact tried.again unsettled running (by simp)

/-- Every pass comes after passes that called for another one; each of those has been counted
where the attempts are limited. -/
theorem Tries.split {older newer : List (Try σ)}
    (h : w.Tries e stored (older ++ t :: newer) s s' r) :
    ∃ a b q, w.Tried e stored t a b q ∧ Grows s a (older.flatMap Try.moments) ∧
      (w.settings.retryPolicy.bounded = true →
        a.status.progress.attempts = s.status.progress.attempts + older.length ∧
        (s.status.progress.attempts < w.settings.retryPolicy.maxAttempts →
          a.status.progress.attempts < w.settings.retryPolicy.maxAttempts)) ∧
      (∀ u ∈ older, w.Retried e stored u) ∧
      (q = .done () ∧ w.Tries e stored newer b s' r ∨ newer = [] ∧ b = s' ∧ r = q) := by
  induction older generalizing s with
  | nil =>
    cases h with
    | broken h => exact ⟨s, s', _, h, .refl s, by simp, by simp, .inr ⟨rfl, rfl, rfl⟩⟩
    | more h k => exact ⟨s, _, _, h, .refl s, by simp, by simp, .inl ⟨rfl, k⟩⟩
  | cons u older ih =>
    generalize hts : u :: older ++ t :: newer = ts at h
    cases h with
    | ended => simp at hts
    | stalled => simp at hts
    | broken => simp at hts
    | more h k =>
      obtain ⟨rfl, rfl⟩ := List.cons.inj hts
      obtain ⟨retried, counted⟩ := k.retried (by simp) h
      obtain ⟨a, b, q, tried, grows, attempts, all, rest⟩ := ih k
      refine ⟨a, b, q, tried, (h.grows).trans grows, ?_, by simpa using ⟨retried, all⟩, rest⟩
      intro bounded
      obtain ⟨counted, within⟩ := counted bounded
      obtain ⟨attempts, bound⟩ := attempts bounded
      refine ⟨?_, fun _ => bound within⟩
      rw [attempts, counted, List.length_cons]
      omega

theorem Tries.stopped (h : w.Tries e stored ts s s' r)
    (hs : ¬(s.status.progress.succeeded = false ∧ s.status.terminated = false)) :
    ts = [] ∧ s' = s ∧ ∀ fault, r ≠ .raised fault := by
  cases h with
  | ended => simp
  | stalled => simp
  | broken h => exact absurd ⟨h.unsettled, h.running⟩ hs
  | more h => exact absurd ⟨h.unsettled, h.running⟩ hs

theorem Tries.tried (h : w.Tries e stored ts s s' r) :
    ∀ t ∈ ts, ∃ a b q, w.Tried e stored t a b q := by
  induction h with
  | ended => simp
  | stalled => simp
  | broken h => simpa using ⟨_, _, _, h⟩
  | more h _ ih => simpa using ⟨⟨_, _, _, h⟩, ih⟩

theorem Tries.tally_of_precedes {g : Stage} {p : Event → Bool} (hp : Event.Within g p)
    (hg : precedes g = true) (h : w.Tries e stored ts s s' r) :
    tally p (ts.flatMap Try.moments) = 0 := by
  induction h with
  | ended => rfl
  | stalled => rfl
  | broken h => simp [h.tally_of_precedes hp hg]
  | more h _ ih => simp [h.tally_of_precedes hp hg, ih]

end

theorem tried_spec (e : Endpoint) (stored : Message) (s : Site σ)
    (unsettled : s.status.progress.succeeded = false) (running : s.status.terminated = false) :
    ∃ t s' r, w.deliverOnce e stored s = (r, s') ∧ w.Tried e stored t s s' r ∧ r ≠ .unfinished := by
  obtain ⟨finding, mid, ms, once, assessed⟩ := w.deliverOnce_spec e stored s
  obtain ⟨r, s', ns, follow, followed, entered⟩ := w.follow_spec e stored finding mid
  exact ⟨⟨finding, ms, ns⟩, s', r, once.trans follow,
    ⟨unsettled, running, ⟨mid, assessed, followed⟩, assessed.entered.trans entered⟩,
    followed.finished⟩

theorem deliver_spec (e : Endpoint) (stored : Message) (fuel : Nat) (s : Site σ) :
    ∃ ts s' r, w.deliver e stored fuel s = (r, s') ∧ w.Tries e stored ts s s' r := by
  induction fuel generalizing s with
  | zero => exact ⟨[], s, _, rfl, .stalled⟩
  | succ fuel ih =>
    rw [deliver, Act.bind_done (Act.status_apply s), Act.onlyIf_apply]
    split
    case isFalse h => exact ⟨[], s, _, rfl, .ended h⟩
    case isTrue h =>
      obtain ⟨t, u, q, once, tried, finished⟩ := w.tried_spec e stored s h.1 h.2
      cases q with
      | unfinished => exact absurd rfl finished
      | raised fault => exact ⟨[t], u, _, Act.bind_raised once _, .broken tried⟩
      | done _ =>
        obtain ⟨ts, s', r, deliver, tries⟩ := ih u
        exact ⟨t :: ts, s', r, (Act.bind_done once _).trans deliver, .more tried tries⟩

def target? (stored : Message) (v : σ) : Option Endpoint :=
  if w.targetName stored = "" then none else (w.outside.endpoints v).resolve (w.targetName stored)

theorem resolveTarget_spec (stored : Message) (s : Site σ) :
    ∃ s' xs, w.resolveTarget stored s = (.done (w.target? stored s.world), s') ∧ Spell s s' xs ∧
      s'.status = s.status ∧ (∀ x ∈ xs, x.event.incidental = true) ∧
      ((w.target? stored s.world).isSome = true → s' = s ∧ xs = []) := by
  rw [resolveTarget]
  by_cases unnamed : w.targetName stored = ""
  · simp only [unnamed, target?, if_true]
    exact ⟨s, [], rfl, .refl s, rfl, by simp, by simp⟩
  · simp only [unnamed, target?, if_false]
    rw [Act.bind_done (Act.look_apply _ s)]
    cases (w.outside.endpoints s.world).resolve (w.targetName stored) with
    | some e => exact ⟨s, [], rfl, .refl s, rfl, by simp, by simp⟩
    | none => exact ⟨_, _, rfl, (Spell.refl s).note _, rfl, by simp [Event.incidental], by simp⟩

inductive Forwarded (stored : Message) : Site σ → Site σ → List (Moment σ) → Ending Unit → Prop
  | untargeted {s s' x xs y ys accepted} : x.event.incidental = true →
      w.target? stored x.world = none → (∀ z ∈ xs, z.event.incidental = true) →
      y.event = .acknowledged accepted → (∀ z ∈ ys, z.event.incidental = true) →
      Steady s s' (x :: xs ++ y :: ys) → Enters [Counter.undeliverable] s s' →
      Forwarded stored s s' (x :: xs ++ y :: ys) (.done ())
  | targeted {e s t s' x ts r} : x.event.incidental = true → w.target? stored x.world = some e →
      Steady s t [x] → t.status = s.status → Enters [] s t → w.Tries e stored ts t s' r →
      Forwarded stored s s' (x :: ts.flatMap Try.moments) r

theorem forward_spec (stored : Message) (fuel : Nat) (s : Site σ) :
    ∃ s' ms r, w.forward stored fuel s = (r, s') ∧ w.Forwarded stored s s' ms r := by
  rw [forward, Act.bind_done (w.log_apply _ _ s)]
  obtain ⟨x, begun, hx, world⟩ := w.steady_logged (.refl s) .debug
    ("Sending message " ++ stored.id ++ " to the endpoint")
  generalize ht : w.logged .debug ("Sending message " ++ stored.id ++ " to the endpoint") s = t
    at begun ⊢
  have status : t.status = s.status := by rw [← ht, w.status_logged]
  have uncounted : t.counters = s.counters := by rw [← ht, w.counters_logged]
  have entered : Enters [] s t := by simp [Enters, uncounted]
  have world : x.world = t.world := by rw [world, ← ht, w.world_logged]
  obtain ⟨u, xs, resolve, hu, -, hxs, found⟩ := w.resolveTarget_spec stored t
  rw [Act.bind_done resolve]
  cases target : w.target? stored t.world with
  | some e =>
    obtain ⟨rfl, rfl⟩ := found (by simp [target])
    obtain ⟨ts, s', r, deliver, tries⟩ := w.deliver_spec e stored fuel u
    exact ⟨s', _, r, deliver, .targeted hx (by rw [world, target]) begun status entered
      tries⟩
  | none =>
    have counted := (entered.trans hu.enters).counted Counter.undeliverable
    obtain ⟨z, lost, hz, -⟩ := w.steady_logged
      (begun.trans (hu.steady (tally_incidental Event.sober_deactivates hxs))) .warn
      ("Property " ++ Property.targetEndpoint ++ " not found for message " ++ stored.id ++
        ", hence removing the message")
    have lost := lost.counted (c := Counter.undeliverable) (by decide)
    obtain ⟨accepted, s', y, ys, acknowledge, hs, hy, hys, -⟩ := w.acknowledge_spec stored.id _
    have quiet : tally Event.deactivates (y :: ys) = 0 := by
      simp [hy, Event.deactivates, tally_incidental Event.sober_deactivates hys]
    refine ⟨s', x :: (xs ++ [z]) ++ y :: ys, _, acknowledge, .untargeted hx (by rw [world, target])
      ?_ hy hys (by simpa using lost.trans (hs.steady quiet)) (counted.trans hs.enters)⟩
    intro z' hz'
    rcases List.mem_append.1 hz' with h | h
    · exact hxs z' h
    · rw [List.mem_singleton.1 h, hz]

structure GivenUp (fault : Fault) (inHand : Option Message) (s s' : Site σ) (ms : List (Moment σ))
    (r : Except Fault Unit) : Prop extends Steady s s' ms where
  retired : ∃ x y ns, ms = x :: y :: ns ∧ x.event = .givingUp fault ∧ y.event.incidental = true ∧
    Retired inHand s' r ns
  progress : s'.status.progress = s.status.progress
  entered : Enters [] s s'

theorem GivenUp.staged {fault : Fault} {inHand : Option Message} {s s' : Site σ}
    {ms : List (Moment σ)} {r : Except Fault Unit} (h : GivenUp fault inHand s s' ms r) :
    Staged .retirement ms := by
  obtain ⟨x, y, ns, rfl, hx, hy, retired⟩ := h.retired
  exact .cons (.inr (by rw [hx, Event.stage]))
    (.cons (.inl (Event.stage_of_incidental hy)) retired.staged)

theorem giveUp_spec (known : String → String) (unknown : String) (fault : Fault)
    (inHand : Option Message) (s : Site σ) :
    ∃ s' ms r, w.giveUp known unknown fault inHand s = (.ofExcept r, s') ∧
      GivenUp fault inHand s s' ms r := by
  rw [giveUp, Act.bind_done (Act.note_apply _ s), Act.bind_done (w.log_apply _ _ _)]
  generalize told : w.logged .fatal _ _ = t
  have begun : ∃ y, Spell s t [s.moment (.givingUp fault), y] ∧ y.event.incidental = true := by
    rw [← told]
    exact ⟨_, ((Spell.refl s).note (.givingUp fault)).note _, rfl⟩
  obtain ⟨y, begun, hy⟩ := begun
  obtain ⟨r, s', ns, retire, hs, retired, progress, entered⟩ := w.retire_spec inHand t
  have quiet : tally Event.deactivates [s.moment (.givingUp fault), y] = 0 := by
    rw [tally_cons, tally_cons, Event.sober_deactivates _ hy]
    rfl
  refine ⟨s', _, r, retire, (begun.steady quiet).trans hs, ⟨_, y, ns, rfl, rfl, hy, retired⟩, ?_,
    begun.enters.trans entered⟩
  rw [progress, begun.progress]

/-- How a cycle shows in the journal: the message is forwarded, and the worker gives up if that
fails. -/
inductive Cycled (stored : Message) : Site σ → Site σ → List (Moment σ) → Ending Unit → Prop
  | forwarded {s s' ms r} : w.Forwarded stored s s' ms r → (∀ fault, r ≠ .raised fault) →
      Cycled stored s s' ms r
  | givenUp {s t s' ms ns fault r} : w.Forwarded stored s t ms (.raised fault) →
      GivenUp fault (some stored) t s' ns r → Cycled stored s s' (ms ++ ns) (.ofExcept r)

theorem cycle_spec (m : Message) (fuel : Nat) (s : Site σ) :
    ∃ s' ms r, w.cycle m fuel s = (r, s') ∧
      w.Cycled (unmarked m) (s.counted Counter.fetched) s' ms r := by
  obtain ⟨t, ms, r, forward, forwarded⟩ :=
    w.forward_spec (unmarked m) fuel (s.counted Counter.fetched)
  rw [cycle, Act.bind_done (Act.count_apply _ s)]
  cases r with
  | done _ =>
    rw [Act.bind_done (Act.catching_done forward)]
    exact ⟨t, ms, _, rfl, .forwarded forwarded (by simp)⟩
  | unfinished =>
    rw [Act.bind_unfinished (Act.catching_unfinished forward)]
    exact ⟨t, ms, _, rfl, .forwarded forwarded (by simp)⟩
  | raised fault =>
    rw [Act.bind_done (Act.catching_raised forward)]
    obtain ⟨s', ns, r, giveUp, given⟩ := w.giveUp_spec _ _ fault (some (unmarked m)) t
    exact ⟨s', ms ++ ns, _, giveUp, .givenUp forwarded given⟩

section

variable {w} {stored : Message} {s s' : Site σ} {ms : List (Moment σ)} {r : Ending Unit}

theorem Forwarded.grows (h : w.Forwarded stored s s' ms r) : Grows s s' ms := by
  cases h with
  | untargeted _ _ _ _ _ h => exact h.toGrows
  | targeted _ _ h _ _ k => exact h.toGrows.trans (k.grows)

theorem Forwarded.tally_of_precedes {g : Stage} {p : Event → Bool} (hp : Event.Within g p)
    (hg : precedes g = true) (h : w.Forwarded stored s s' ms r) : tally p ms = 0 := by
  have other : g ≠ .incidental ∧ g ≠ .settlement := by
    cases g <;> simp [precedes] at hg ⊢
  cases h with
  | untargeted hx _ hxs hy hys _ _ =>
    have staged : Staged .settlement _ :=
      .cons (.inl (Event.stage_of_incidental hx)) ((Staged.of_incidental hxs).append
        (.cons (.inr (by rw [hy, Event.stage])) (.of_incidental hys)))
    exact staged.tally hp other
  | targeted hx _ _ _ _ tries =>
    rw [tally_cons, hp.sober other.1 _ hx, tries.tally_of_precedes hp hg]
    rfl

theorem Cycled.tally_of_precedes {g : Stage} {p : Event → Bool} (hp : Event.Within g p)
    (hg : precedes g = true) (h : w.Cycled stored s s' ms r) : tally p ms = 0 := by
  cases h with
  | forwarded h => exact h.tally_of_precedes hp hg
  | givenUp h given =>
    have other : g ≠ .incidental ∧ g ≠ .retirement := by
      cases g <;> simp [precedes] at hg ⊢
    rw [tally_append, h.tally_of_precedes hp hg, given.staged.tally hp other]

theorem Cycled.opens (h : w.Cycled stored s s' ms r) : tally Event.opens ms = 0 :=
  h.tally_of_precedes Event.within_opens rfl

theorem Cycled.grows (h : w.Cycled stored s s' ms r) : Grows s s' ms := by
  cases h with
  | forwarded h => exact h.grows
  | givenUp h k => exact (h.grows).trans k.toGrows

end

end Worker

end Courier
