import Courier.Proofs.History

namespace Courier

variable {σ : Type}

namespace Worker

/-- The grounds on which a stored message may be acknowledged, as the end of what has happened in
its cycle. -/
inductive Grounds (w : Worker σ) (stored : Message) : List (Moment σ) → Prop
  | untargeted {x xs} : w.target? stored x.world = none →
      (∀ y ∈ x :: xs, y.event.incidental = true) → Grounds w stored (x :: xs)
  | gone {older x y r} : x.event = .consumerAsked false → y.event = .log r →
      Grounds w stored (older ++ [x, y])
  | oneWay {older e ms} : w.Exchanged e stored (.ok none) ms → Grounds w stored (older ++ ms)
  | answered {older e response m ms ns} : w.Exchanged e stored (.ok (some response)) ms →
      (w.settings.classifier.classifyResponse response).outcome ≠ .retryable →
      Dispatched .reply response (.ok m) ns → Grounds w stored (older ++ (ms ++ ns))
  | refused {older e what cause ms} : w.Exchanged e stored (.error (.delivery what cause)) ms →
      w.settings.classifier.isNonRetryable cause = true → Grounds w stored (older ++ ms)
  | spent {older e outcome atFault m x r ms ns} : w.settings.dropOnMaxAttempts = true →
      0 < w.settings.maxAttempts → w.Exchanged e stored outcome ms →
      w.settings.retries outcome = true → x.event = .log r → Dispatched .fault atFault (.ok m) ns →
      (∀ y ∈ (ms ++ x :: ns).getLast?, y.status.terminated = false) →
      (tally Event.sends (older ++ (ms ++ x :: ns)) : Int) = w.settings.maxAttempts →
      Grounds w stored (older ++ (ms ++ x :: ns))

def Pending (c : List (Moment σ)) : Prop :=
  ∀ y ∈ c, y.event.opens = false ∧ y.event.acknowledges = false

def Warranted (w : Worker σ) (stored : Message) (c : List (Moment σ)) (x : Moment σ) : Prop :=
  x.event.acknowledges = true → Pending c ∧ w.Grounds stored c

section

variable {w : Worker σ} {e : Endpoint} {stored working : Message} {s s' : Site σ}
  {c ms ns : List (Moment σ)}

theorem Pending.append (h : Pending ms) (k : Pending ns) : Pending (ms ++ ns) := by
  intro x hx
  rcases List.mem_append.1 hx with hx | hx
  · exact h x hx
  · exact k x hx

theorem Pending.of_staged {g : Stage} (h : Staged g ms) (hg : g ≠ .opening ∧ g ≠ .settlement) :
    Pending ms := by
  have opens := h.tally Event.within_opens ⟨by decide, hg.1.symm⟩
  have acknowledges := h.tally Event.within_acknowledges ⟨by decide, hg.2.symm⟩
  rw [tally_eq_zero] at opens acknowledges
  intro x hx
  exact ⟨opens x hx, acknowledges x hx⟩

theorem Found.grounds {finding : Worker.Finding} (h : w.Found e stored finding ms)
    (hf : finding = .delivered ∨ ∃ reason, finding = .turnedDown reason) (older : List (Moment σ)) :
    w.Grounds stored (older ++ ms) := by
  cases h with
  | gone hx hy => exact .gone hx hy
  | oneWay h => exact .oneWay h
  | answered h hc hd => exact .answered h (by simp [hc]) hd
  | turnedDown h hc hd => exact .answered h (by simp [hc]) hd
  | refused h hc => exact .refused h hc
  | failed => simp at hf
  | replyBroken => simp at hf
  | faultBroken => simp at hf
  | unknown => simp at hf

theorem Found.spent (h : w.Found e stored (.failed working) ms)
    (running : ∀ y ∈ ms.getLast?, y.status.terminated = false)
    (drops : w.settings.retryPolicy.drops = true) {older : List (Moment σ)}
    (sends : (tally Event.sends older : Int) + 1 = w.settings.maxAttempts) :
    w.Grounds stored (older ++ ms) := by
  have drop : w.settings.dropOnMaxAttempts = true ∧ 0 < w.settings.maxAttempts := by
    simpa [Settings.retryPolicy, RetryPolicy.of] using drops
  have one := h.sends_of_failed
  cases h with
  | failed h retries hx hd =>
    refine .spent drop.1 drop.2 h retries hx hd running ?_
    rw [tally_append, one, ← sends]
    omega

theorem warranted_of_pending (h : Pending ms) : Always (w.Warranted stored) c ms := by
  apply Always.of_forall
  intro before x hx acknowledges
  simp [(h x hx).2] at acknowledges

theorem warranted_of_settled (h : s.Settled s' ms) (pending : Pending c)
    (grounds : w.Grounds stored c) : Always (w.Warranted stored) c ms := by
  obtain ⟨x, ns, accepted, rfl, -, hi⟩ := h.acknowledged
  have quiet : Pending ns := .of_staged (g := .incidental) (.of_incidental hi) (by decide)
  exact .cons (fun _ => ⟨pending, grounds⟩) (warranted_of_pending quiet)

theorem Tried.warranted {t : Try σ} {r : Ending Unit} (tried : w.Tried e stored t s s' r)
    (pending : Pending c) (budget : w.settings.retryPolicy.bounded = true →
      (tally Event.sends c : Int) = s.status.progress.attempts ∧
      s.status.progress.attempts < w.settings.retryPolicy.maxAttempts) :
    Always (w.Warranted stored) c t.moments := by
  obtain ⟨finding, found, aftermath⟩ := t
  obtain ⟨mid, assessed, followed⟩ := tried.course
  have quiet : Pending found := .of_staged assessed.found.staged (by decide)
  apply (warranted_of_pending quiet).append
  have pending := pending.append quiet
  cases followed with
  | delivered h => exact warranted_of_settled h pending (assessed.found.grounds (.inl rfl) c)
  | turnedDown h => exact warranted_of_settled h pending (assessed.found.grounds (.inr ⟨_, rfl⟩) c)
  | broken => exact .nil
  | ended => exact .nil
  | again _ h => exact warranted_of_pending (.of_staged h.staged (by decide))
  | dropped up bounded drops exceeded h _ =>
    have running : ∀ y ∈ found.getLast?, y.status.terminated = false := by
      intro y hy
      rw [assessed.last _ rfl y hy, up]
    obtain ⟨counted, within⟩ := budget bounded
    have attempts := assessed.steady.attempts
    apply warranted_of_settled h pending
    apply assessed.found.spent running drops
    change _ = w.settings.retryPolicy.maxAttempts
    omega
  | exhausted _ _ _ _ h => exact warranted_of_pending (.of_staged h.staged (by decide))

theorem Retried.pending {t : Try σ} (h : w.Retried e stored t) : Pending t.moments := by
  obtain ⟨working, found⟩ := h.failed
  obtain ⟨mid, s', -, retrying⟩ := h.retrying
  exact (Pending.of_staged found.staged (by decide)).append (.of_staged retrying.staged (by decide))

theorem Retried.sends {t : Try σ} (h : w.Retried e stored t) : tally Event.sends t.moments = 1 := by
  obtain ⟨working, found⟩ := h.failed
  obtain ⟨mid, s', -, retrying⟩ := h.retrying
  simp [Try.moments, found.sends_of_failed, retrying.staged.tally Event.within_sends (by decide)]

theorem Tries.warranted {ts : List (Try σ)} {r : Ending Unit} (tries : w.Tries e stored ts s s' r)
    (pending : Pending c) (budget : w.settings.retryPolicy.bounded = true →
      (tally Event.sends c : Int) = s.status.progress.attempts ∧
      s.status.progress.attempts < w.settings.retryPolicy.maxAttempts) :
    Always (w.Warranted stored) c (ts.flatMap Try.moments) := by
  induction tries generalizing c with
  | ended => exact .nil
  | stalled => exact .nil
  | broken tried => simpa using tried.warranted pending budget
  | @more t ts s s' s'' r tried tries ih =>
    rw [List.flatMap_cons]
    apply (tried.warranted pending budget).append
    cases ts with
    | nil => exact .nil
    | cons _ _ =>
      -- the next pass has begun, so this one called for it
      obtain ⟨retried, counted⟩ := tries.retried (by simp) tried
      apply ih (pending.append retried.pending)
      intro bounded
      obtain ⟨attempts, within⟩ := counted bounded
      refine ⟨?_, within⟩
      rw [tally_append, retried.sends, attempts, ← (budget bounded).1]
      omega

theorem Forwarded.warranted {r : Ending Unit} (forwarded : w.Forwarded stored s s' ms r)
    (fresh : s.status.progress = .fresh) : Always (w.Warranted stored) [] ms := by
  cases forwarded with
  | @untargeted _ _ x xs y ys _ hx target hxs hy hys _ _ =>
    have incidental : ∀ z ∈ x :: xs, z.event.incidental = true := by simpa using ⟨hx, hxs⟩
    have before : Pending (x :: xs) := .of_staged (g := .incidental) (.of_incidental incidental)
      (by decide)
    have after : Pending ys := .of_staged (g := .incidental) (.of_incidental hys) (by decide)
    apply (warranted_of_pending before).append
    exact .cons (fun _ => ⟨before, .untargeted target incidental⟩) (warranted_of_pending after)
  | @targeted e _ t _ x ts _ hx _ _ status _ tries =>
    have first : Pending [x] := .of_staged (g := .incidental) (.of_incidental (by simpa using hx))
      (by decide)
    apply (warranted_of_pending first).append
    apply tries.warranted first
    intro bounded
    have quiet : x.event.sends = false := Event.sober_sends _ hx
    rw [status, fresh]
    simpa [quiet, Progress.fresh, RetryPolicy.bounded] using bounded

theorem Cycled.warranted {r : Ending Unit} (cycled : w.Cycled stored s s' ms r)
    (fresh : s.status.progress = .fresh) : Always (w.Warranted stored) [] ms := by
  cases cycled with
  | forwarded h => exact h.warranted fresh
  | givenUp h given =>
    exact (h.warranted fresh).append (warranted_of_pending (.of_staged given.staged (by decide)))

end

def Lawful (w : Worker σ) (before : List (Moment σ)) (x : Moment σ) : Prop :=
  x.event.acknowledges = true → ∃ older first as start m c,
    before = older ++ first :: (as ++ start :: c) ∧
    first.event = .receiving ∧ first.status.terminated = false ∧
    (∀ y ∈ as, y.event.incidental = true) ∧ start.event = .received (some m) ∧ Pending c ∧
    w.Grounds (unmarked m) c

theorem not_acknowledges_of_idle {e : Event} (h : e.idle = true) : e.acknowledges = false := by
  cases e <;> first | rfl | cases h

theorem lawful_of_idle {w : Worker σ} {c ms : List (Moment σ)} (h : Idle ms) :
    Always w.Lawful c ms := by
  apply Always.of_forall
  intro before x hx acknowledges
  simp [not_acknowledges_of_idle (h x hx).1] at acknowledges

theorem Reached.lawful_from {w : Worker σ} {a s : Site σ} (h : Reached w a s)
    (ha : Always w.Lawful [] a.moments) : Always w.Lawful [] s.moments := by
  refine h.always_of ha lawful_of_idle (fun _ hx acknowledges => ?_)
    @fun m s t s' xs start ms r taken fresh past => ?_
  · simp [hx, Event.acknowledges] at acknowledges
  · intro c x after hc acknowledges
    have progress : (t.counted Counter.fetched).status.progress = .fresh := by
      rw [Site.status_counted, taken.fetched.progress, fresh]
    obtain ⟨pending, grounds⟩ := taken.cycled.warranted progress c x after hc acknowledges
    obtain ⟨y, as, rfl, hy, up, has⟩ := taken.begun
    exact ⟨past, y, as, start, m, c, by simp, hy, up, has, taken.received, pending, grounds⟩

theorem Reached.lawful {w : Worker σ} {world : σ} {s : Site σ} (h : Reached w (w.fresh world) s) :
    Always w.Lawful [] s.moments :=
  h.lawful_from .nil

/-- Whatever the collaborators do and whenever the worker is terminated: an acknowledgement belongs
to a cycle, it is the only one of its cycle, and it comes right after its grounds. -/
theorem acknowledged_on_grounds (w : Worker σ) (world : σ) (visits : List (Visit σ))
    {before after : List (Moment σ)} {x : Moment σ}
    (h : (w.history world visits).moments = before ++ x :: after)
    (hx : x.event.acknowledges = true) :
    ∃ older start m c, before = older ++ start :: c ∧ start.event = .received (some m) ∧
      (∀ y ∈ c, y.event.opens = false ∧ y.event.acknowledges = false) ∧
      w.Grounds (unmarked m) c := by
  obtain ⟨older, y, as, start, m, c, rfl, -, -, -, hs, pending, grounds⟩ :=
    (w.reached_history world visits).lawful before x after h hx
  exact ⟨older ++ y :: as, start, m, c, by simp, hs, pending, grounds⟩

theorem acknowledged_on_grounds_plain :
    ∃ before x after,
      ((Worker.plain {} (.ok none)).history [⟨"1", ∅, .null⟩] [.run 2]).moments =
        before ++ x :: after ∧
      x.event.acknowledges = true ∧
      ∃ older start m c, before = older ++ start :: c ∧ start.event = .received (some m) ∧
        (∀ y ∈ c, y.event.opens = false ∧ y.event.acknowledges = false) ∧
        (Worker.plain {} (.ok none)).Grounds (unmarked m) c := by
  have any : ((Worker.plain {} (.ok none)).history [⟨"1", ∅, .null⟩] [.run 2]).moments.any
      (·.event.acknowledges) = true := by decide
  obtain ⟨x, hx, acknowledges⟩ := List.any_eq_true.1 any
  obtain ⟨before, after, h⟩ := List.append_of_mem hx
  exact ⟨before, x, after, h, acknowledges, acknowledged_on_grounds _ _ _ h acknowledges⟩

end Worker

end Courier
