import Courier.Proofs.Retirement

namespace Courier

variable {σ α β : Type}

namespace Worker

open Site (Spell Grows Steady)

structure Stopped (s' : Site σ) (ms : List (Moment σ)) : Prop where
  terminated : s'.status.terminated = true
  retires : tally Event.retires ms = 1
  deactivates : tally Event.deactivates ms = 1
  last : ∃ older start c, ms = older ++ start :: c ∧ start.event.opens = true ∧ Pending c ∧
    tally Event.givesUp older = 0 ∧ tally Event.sendsOff ms = start.event.brings.toNat

/-- The course of an action under a calm clock and owner; one that gives up ends with `idle`. -/
inductive Course (idle : α) (s' : Site σ) (ms : List (Moment σ)) (r : Ending α) : Prop
  | quiet : tally Event.givesUp ms = 0 → tally Event.spoils ms = 0 → (∀ fault, r ≠ .raised fault) →
      (s'.status.terminated = false → Undisturbed ms) → Course idle s' ms r
  | stopped : tally Event.spoils ms = 0 → r = .done idle → Stopped s' ms → Course idle s' ms r
  | spoiled : 0 < tally Event.spoils ms → (∃ fault, r = .raised fault) ∨
      s'.status.terminated = true ∧ 0 < tally Event.givesUp ms ∧ 1 < tally Event.sendsOff ms →
      Course idle s' ms r

section Course

variable {w : Worker σ} {stored : Message} {inHand : Option Message} {idle : α} {idle' : β}
  {s s' u : Site σ} {x : Moment σ} {ms ns : List (Moment σ)} {r : Ending α} {q : Ending β}

theorem Course.of_undisturbed (h : Undisturbed ms) (hr : ∀ fault, r ≠ .raised fault) :
    Course idle s' ms r :=
  .quiet (h.tally Event.within_givesUp) (h.tally Event.within_spoils) hr fun _ => h

theorem Course.before (h : Undisturbed ms) (k : Course idle s' ns r) :
    Course idle s' (ms ++ ns) r := by
  have count {p : Event → Bool} (hp : Event.Within .retirement p) :
      tally p (ms ++ ns) = tally p ns := by
    rw [tally_append, h.tally hp, Nat.zero_add]
  cases k with
  | quiet givesUp spoils hr undisturbed =>
    refine .quiet ?_ ?_ hr fun running => h.append (undisturbed running)
    · rw [count Event.within_givesUp, givesUp]
    · rw [count Event.within_spoils, spoils]
  | stopped spoils hr stopped =>
    obtain ⟨older, start, c, rfl, opens, pending, givesUp, sendsOff⟩ := stopped.last
    refine .stopped ?_ hr ⟨stopped.terminated, ?_, ?_, ms ++ older, start, c, by simp, opens,
      pending, ?_, ?_⟩
    · rw [count Event.within_spoils, spoils]
    · rw [count Event.within_retires, stopped.retires]
    · rw [count Event.within_deactivates, stopped.deactivates]
    · rw [tally_append, h.tally Event.within_givesUp, givesUp]
    · rw [count Event.within_sendsOff, sendsOff]
  | spoiled spoils out =>
    refine .spoiled ?_ ?_
    · rw [count Event.within_spoils]
      exact spoils
    · rw [count Event.within_givesUp, count Event.within_sendsOff]
      exact out

theorem Course.after {a : α} (h : Course idle s' ms (.done a)) (up : u.status.terminated = true)
    (hn : ∀ y ∈ ns, y.event.incidental = true) (hq : ∀ fault, q ≠ .raised fault)
    (hidle : a = idle → q = .done idle') : Course idle' u (ms ++ ns) q := by
  have count {p : Event → Bool} (hp : Event.Within .retirement p) :
      tally p (ms ++ ns) = tally p ms := by
    rw [tally_append, tally_incidental (hp.sober (by decide)) hn, Nat.add_zero]
  cases h with
  | quiet givesUp spoils _ _ =>
    refine .quiet ?_ ?_ hq fun running => by simp [up] at running
    · rw [count Event.within_givesUp, givesUp]
    · rw [count Event.within_spoils, spoils]
  | stopped spoils ha stopped =>
    obtain ⟨older, start, c, rfl, opens, pending, givesUp, sendsOff⟩ := stopped.last
    have rest : Pending ns := .of_staged (g := .incidental) (.of_incidental hn) (by decide)
    refine .stopped ?_ (hidle (Ending.done.inj ha)) ⟨up, ?_, ?_, older, start, c ++ ns, by simp,
      opens, pending.append rest, givesUp, ?_⟩
    · rw [count Event.within_spoils, spoils]
    · rw [count Event.within_retires, stopped.retires]
    · rw [count Event.within_deactivates, stopped.deactivates]
    · rw [count Event.within_sendsOff, sendsOff]
  | spoiled spoils out =>
    obtain ⟨-, givesUp, sendsOff⟩ := out.resolve_left (by simp)
    refine .spoiled ?_ (.inr ⟨up, ?_, ?_⟩)
    · rw [count Event.within_spoils]
      exact spoils
    · rw [count Event.within_givesUp]
      exact givesUp
    · rw [count Event.within_sendsOff]
      exact sendsOff

theorem Course.next {a : α} (h : Course idle s' ms (.done a))
    (stays : s'.status.terminated = true → Course idle' u (ms ++ ns) q)
    (further : s'.status.terminated = false → Course idle' u ns q) :
    Course idle' u (ms ++ ns) q := by
  cases up : s'.status.terminated with
  | true => exact stays up
  | false =>
    cases h with
    | quiet _ _ _ undisturbed => exact (further up).before (undisturbed up)
    | stopped _ _ stopped => simp [stopped.terminated] at up
    | spoiled _ out => simp [(out.resolve_left (by simp)).1] at up

theorem Course.raised {fault : Fault} (h : Course idle s' ms (.raised fault)) :
    Course idle' s' ms (.raised fault) := by
  cases h with
  | quiet _ _ hr _ => exact absurd rfl (hr fault)
  | stopped _ hr _ => cases hr
  | spoiled spoils _ => exact .spoiled spoils (.inl ⟨fault, rfl⟩)

theorem Course.unfinished (h : Course idle s' ms .unfinished) : Course idle' s' ms .unfinished := by
  cases h with
  | quiet givesUp spoils _ undisturbed => exact .quiet givesUp spoils (by simp) undisturbed
  | stopped _ hr _ => cases hr
  | spoiled spoils out => exact .spoiled spoils (.inr (out.resolve_left (by simp)))

theorem GivenUp.terminated {fault : Fault} (h : GivenUp fault inHand s s' ms (.ok ())) :
    s'.status.terminated = true := by
  obtain ⟨_, _, _, -, -, -, retired⟩ := h.retired
  exact retired.terminated

theorem GivenUp.course {fault : Fault} {p : Except Fault Unit}
    (h : GivenUp fault inHand s s' ns p) (calm : Calm ns) (opens : x.event.opens = true)
    (brings : x.event.brings = inHand.isSome) (pending : Pending ms)
    (undisturbed : Undisturbed (x :: ms)) : Course () s' (x :: ms ++ ns) (.ofExcept p) := by
  have count {p : Event → Bool} (hp : Event.Within .retirement p) :
      tally p (x :: ms ++ ns) = tally p ns := by
    rw [tally_append, undisturbed.tally hp, Nat.zero_add]
  have rest : Pending ns := .of_staged h.staged (by decide)
  cases (h.concluded calm).2 with
  | complete complete =>
    refine .stopped ?_ rfl ⟨h.terminated, ?_, ?_, [], x, ms ++ ns, by simp, opens,
      pending.append rest, rfl, ?_⟩
    · rw [count Event.within_spoils, complete.spoils]
    · rw [count Event.within_retires, complete.retires]
    · rw [count Event.within_deactivates, complete.deactivates]
    · rw [count Event.within_sendsOff, complete.sendsOff, brings]
  | spoiled spoiled =>
    refine .spoiled ?_ (.inl ⟨_, rfl⟩)
    rw [count Event.within_spoils]
    exact spoiled.spoils

theorem Cycled.course {m : Message} {p : Ending Unit} (h : w.Cycled stored s s' ms p)
    (calm : Calm ms) (hx : x.event = .received (some m)) : Course () s' (x :: ms) p := by
  have first : Undisturbed [x] := by simp [Undisturbed, hx, Event.stage]
  cases h with
  | forwarded forwarded hr =>
    cases forwarded.disturbance with
    | none undisturbed => exact .of_undisturbed (first.append undisturbed) hr
    | @exhausted _ _ _ xs ys hxs exhausted hp =>
      have calm : Calm ys := fun y hy => calm y (by simp [hy])
      obtain ⟨givesUp, concluded⟩ := exhausted.concluded calm
      refine .before first (.before hxs ?_)
      cases concluded with
      | complete complete =>
        exact .quiet givesUp complete.spoils hr fun running => by
          simp [exhausted.terminated.1] at running
      | spoiled => exact absurd ((hp _).2 rfl) (hr _)
  | @givenUp _ t ms ns fault q forwarded given =>
    have calm' : Calm ns := fun y hy => calm y (by simp [hy])
    cases forwarded.disturbance with
    | none undisturbed =>
      exact given.course calm' (by rw [hx, Event.opens]) (by rw [hx]; rfl) forwarded.pending
        (first.append undisturbed)
    | @exhausted _ _ _ xs ys hxs exhausted hp =>
      have calm : Calm ys := fun y hy => calm y (by simp [hy])
      obtain ⟨-, concluded⟩ := exhausted.concluded calm
      obtain ⟨givesUp, outcome⟩ := given.concluded calm'
      rw [List.append_assoc]
      refine .before first (.before hxs ?_)
      -- the sequence has failed as the attempts were used up, and it is dispatched once more
      cases concluded with
      | complete => simp at hp
      | spoiled spoiled =>
        have spoils := spoiled.spoils
        have sendsOff := spoiled.sendsOff
        refine .spoiled (by rw [tally_append]; omega) ?_
        cases outcome with
        | complete complete =>
          have again : tally Event.sendsOff ns = 1 := complete.sendsOff
          refine .inr ⟨given.terminated, ?_, ?_⟩
          · rw [tally_append, givesUp]
            omega
          · rw [tally_append, sendsOff, again]
            decide
        | spoiled => exact .inl ⟨_, rfl⟩

end Course

def Shows (idle : α) (s : Site σ) (y : Ending α × Site σ) : Prop :=
  ∃ ms, Grows s y.2 ms ∧ (Calm ms → Course idle y.2 ms y.1)

section Shows

variable {w : Worker σ} {idle : α} {idle' : β} {s t : Site σ} {y : Ending α × Site σ}
  {ms : List (Moment σ)}

theorem Shows.of_undisturbed (grows : Grows s y.2 ms) (h : Undisturbed ms)
    (hr : Calm ms → ∀ fault, y.1 ≠ .raised fault) : Shows idle s y :=
  ⟨ms, grows, fun calm => .of_undisturbed h (hr calm)⟩

theorem Shows.before (grows : Grows s t ms) (h : Undisturbed ms) (k : Shows idle t y) :
    Shows idle s y := by
  obtain ⟨ns, hns, course⟩ := k
  refine ⟨ms ++ ns, grows.trans hns, fun calm => .before h (course ?_)⟩
  exact (List.forall_mem_append.1 calm).2

structure Continues (idle : α) (idle' : β) (a : α) (s : Site σ) (y : Ending β × Site σ)
    (ns : List (Moment σ)) : Prop where
  grows : Grows s y.2 ns
  terminated : s.status.terminated = true → (∀ x ∈ ns, x.event.incidental = true) ∧
    (∀ fault, y.1 ≠ .raised fault) ∧ (a = idle → y.1 = .done idle')
  further : s.status.terminated = false → Calm ns → Course idle' y.2 ns y.1

theorem Shows.bind {x : Act σ α} {f : α → Act σ β} (h : Shows idle s (x t))
    (k : ∀ a, ∃ ns, Continues idle idle' a (x t).2 (f a (x t).2) ns) :
    Shows idle' s ((x >>= f) t) := by
  obtain ⟨ms, grows, course⟩ := h
  match hx : x t with
  | (.raised fault, u) =>
    rw [Act.bind_raised hx]
    simp only [hx] at grows course
    exact ⟨ms, grows, fun calm => (course calm).raised⟩
  | (.unfinished, u) =>
    rw [Act.bind_unfinished hx]
    simp only [hx] at grows course
    exact ⟨ms, grows, fun calm => (course calm).unfinished⟩
  | (.done a, u) =>
    rw [Act.bind_done hx]
    simp only [hx] at grows course k
    obtain ⟨ns, next⟩ := k a
    refine ⟨ms ++ ns, grows.trans next.grows, fun calm => ?_⟩
    obtain ⟨calm, calm'⟩ := List.forall_mem_append.1 calm
    refine (course calm).next (fun up => ?_) fun running => next.further running calm'
    obtain ⟨hns, hq, hidle⟩ := next.terminated up
    refine (course calm).after ?_ hns hq hidle
    have whole := next.grows.rises.whole
    rw [up] at whole
    exact Bool.le_antisymm (Bool.le_true _) whole

end Shows

section Runs

variable (w : Worker σ)

theorem not_calm_of_slept {r : Except Fault α} {ns : List (Moment σ)}
    (h : ∀ fault, r = .error fault → ∃ x ∈ ns, x.event = .failed .sleep fault) (calm : Calm ns) :
    ∀ fault, r ≠ .error fault := by
  intro fault hr
  obtain ⟨x, hx, failed⟩ := h fault hr
  have := calm x hx
  simp [failed, Event.strikes] at this

theorem nap_spec (c : Prop) [Decidable c] (ms : Int) (s : Site σ) :
    ∃ r s' ns, Act.onlyIf c (w.sleep ms) s = (.ofExcept r, s') ∧ Grows s s' ns ∧ Staged .rest ns ∧
      (Calm ns → ∀ fault, r ≠ .error fault) := by
  rw [Act.onlyIf_apply]
  split
  case isFalse => exact ⟨.ok (), s, [], rfl, .refl s, .nil, by simp⟩
  case isTrue =>
    obtain ⟨r, s', ns, sleep, hs, rested, failed⟩ := w.sleep_spec ms s
    have steady := hs.steady_of_staged rested.staged (by decide)
    exact ⟨r, s', ns, sleep, steady.toGrows, rested.staged, not_calm_of_slept failed⟩

theorem pace_spec (begun : Int) (s : Site σ) :
    ∃ r s' ns, w.pace begun s = (.ofExcept r, s') ∧ Grows s s' ns ∧ Staged .rest ns ∧
      (s.status.terminated = true → r = .ok false ∧ ns = []) ∧
      (Calm ns → ∀ fault, r ≠ .error fault) := by
  rw [pace, Act.bind_done (Act.status_apply s)]
  cases up : s.status.terminated with
  | true => exact ⟨.ok false, s, [], rfl, .refl s, .nil, by simp, by simp⟩
  | false =>
    rw [if_neg (by simp)]
    obtain ⟨r, t, ms, first, ht, hms, calm⟩ :=
      w.nap_spec w.settings.cronMode w.settings.throttleIntervalMs s
    cases r with
    | error fault =>
      exact ⟨.error fault, t, ms, Act.bind_raised first _, ht, hms, by simp,
        fun h => absurd rfl (calm h fault)⟩
    | ok _ =>
      rw [Act.bind_done first]
      obtain ⟨r, u, ns, second, hu, hns, calm⟩ :=
        w.nap_spec (w.settings.pollIntervalMs < pacingLimitMs) w.settings.pollIntervalMs t
      have grows := ht.trans hu
      have staged := hms.append hns
      cases r with
      | error fault =>
        exact ⟨.error fault, u, _, Act.bind_raised second _, grows, staged, by simp,
          fun h => absurd rfl (calm (List.forall_mem_append.1 h).2 fault)⟩
      | ok _ =>
        rw [Act.bind_done second]
        split
        · exact ⟨.ok _, u, _, rfl, grows, staged, by simp, by simp⟩
        · exact ⟨.ok _, u, _, rfl, grows, staged, by simp, by simp⟩

variable {w} {s t : Site σ}

theorem ofExcept_ne_raised {r : Except Fault α} (h : ∀ fault, r ≠ .error fault) (fault : Fault) :
    Ending.ofExcept r ≠ .raised fault := by
  cases r with
  | ok _ => simp [Ending.ofExcept]
  | error other => exact absurd rfl (h other)

theorem Shows.paced {x : Act σ Unit} (begun : Int) (h : Shows () s (x t)) :
    Shows false s ((x >>= fun _ => w.pace begun) t) := by
  apply h.bind
  intro _
  obtain ⟨r, u, ns, pace, grows, staged, ended, calm⟩ := w.pace_spec begun (x t).2
  rw [pace]
  refine ⟨ns, grows, fun up => ?_, fun _ h => ?_⟩
  · obtain ⟨rfl, rfl⟩ := ended up
    simp [Ending.ofExcept]
  · exact .of_undisturbed (.of_staged staged (by decide)) (ofExcept_ne_raised (calm h))

theorem shows_giveUp {fault : Fault} {ms : List (Moment σ)} (hs : Spell s t ms)
    (called : Called .receiving (.failed .fetch fault) ms) :
    Shows () s (w.giveUpForwarding fault none t) := by
  have quiet := called.tally_eq Event.sober_deactivates
  obtain ⟨u, ns, r, giveUp, given⟩ := w.giveUp_spec
    ("Deactivating the message processor: " ++ ·)
    "Deactivating the message processor after an unknown error" fault none t
  rw [giveUpForwarding, giveUp]
  refine ⟨ms ++ ns, (hs.grows quiet).trans given.toGrows, fun calm => ?_⟩
  have undisturbed : Undisturbed ms :=
    .of_staged (g := .opening) (called.staged rfl rfl) (by decide)
  obtain ⟨x, as, y, rfl, hx, has, hy⟩ := called
  have before : Pending as := .of_staged (g := .incidental) (.of_incidental has) (by decide)
  refine given.course (List.forall_mem_append.1 calm).2 (by rw [hx, Event.opens])
    (by rw [hx]; rfl) (before.append ?_) undisturbed
  simp [Pending, hy, Event.opens, Event.acknowledges]

theorem shows_cycle {m : Message} {ms : List (Moment σ)} (fuel : Nat) (hs : Spell s t ms)
    (called : Called .receiving (.received (some m)) ms) : Shows () s (w.cycle m fuel t) := by
  have quiet := called.tally_eq Event.sober_deactivates
  obtain ⟨u, ns, r, cycle, cycled⟩ := w.cycle_spec m fuel t
  rw [cycle]
  refine ⟨ms ++ ns, ((hs.grows quiet).counted (by decide)).trans cycled.grows, fun calm => ?_⟩
  obtain ⟨x, as, y, rfl, hx, has, hy⟩ := called
  have before : Undisturbed (x :: as) :=
    .cons (by simp [hx, Event.stage]) (.of_incidental has)
  have course := cycled.course (List.forall_mem_append.1 calm).2 hy
  simpa using course.before before

theorem shows_turn (begun : Int) (fuel : Nat) : Shows false s (w.turn begun fuel s) := by
  rw [turn, Act.bind_done (Act.setProgress_apply _ s), isDeactivated, bind_assoc,
    Act.bind_done (Act.look_apply _ _), bind_assoc, Act.bind_done (Act.note_apply _ _), pure_bind]
  generalize w.outside.isDeactivated _ = asked
  have begins := ((Grows.refl s).withProgress .fresh).note (.ownerAsked asked) rfl
  generalize Site.note (.ownerAsked asked) _ = u at begins
  refine .before begins (by simp [Undisturbed, Event.stage]) ?_
  split
  case isTrue =>
    rw [Act.bind_done (Act.setStatus_apply _ u), Act.bind_done (w.log_apply _ _ _)]
    exact .of_undisturbed (((Spell.refl u).raise.note _).grows rfl)
      (by simp [Undisturbed, Event.stage]) (by simp [Act.pure_apply])
  case isFalse =>
    obtain ⟨r, v, ms, receive, hv, called, -⟩ := w.receive_spec u
    cases r with
    | error fault =>
      rw [Act.bind_done (Act.catching_raised receive)]
      exact (shows_giveUp hv called).paced begun
    | ok received =>
      rw [Act.bind_done (Act.catching_done receive)]
      cases received with
      | some m => exact (shows_cycle fuel hv called).paced begun
      | none =>
        have undisturbed : Undisturbed ms :=
          .of_staged (g := .opening) (called.staged rfl rfl) (by decide)
        refine .before (hv.grows (called.tally_eq Event.sober_deactivates)) undisturbed ?_
        obtain ⟨x, told, hx, -⟩ := w.steady_logged (.refl v) .debug "No messages were received"
        change Shows false v ((w.log .debug "No messages were received" >>= fun _ =>
          if w.settings.cronMode then pure false else w.pace begun) v)
        rw [Act.bind_done (w.log_apply _ _ v)]
        refine .before told.toGrows (.of_incidental (by simpa using hx)) ?_
        split
        · exact .of_undisturbed (.refl _) .nil (by simp [Act.pure_apply])
        · obtain ⟨q, v', ns, pace, grows, staged, -, calm⟩ := w.pace_spec begun _
          rw [pace]
          exact .of_undisturbed grows (.of_staged staged (by decide))
            fun h => ofExcept_ne_raised (calm h)

theorem turns_of_terminated (begun : Int) (fuel : Nat) (up : s.status.terminated = true) :
    ∃ r, w.turns begun fuel s = (r, s) ∧ ∀ fault, r ≠ .raised fault := by
  cases fuel with
  | zero => exact ⟨_, rfl, by simp⟩
  | succ fuel =>
    refine ⟨.done (), ?_, by simp⟩
    rw [turns, Act.bind_done (Act.status_apply s), Act.onlyIf_apply, if_neg (by simp [up])]

theorem shows_turns (begun : Int) (fuel : Nat) : Shows () s (w.turns begun fuel s) := by
  induction fuel generalizing s with
  | zero => exact .of_undisturbed (.refl s) .nil (by simp [turns])
  | succ fuel ih =>
    rw [turns, Act.bind_done (Act.status_apply s), Act.onlyIf_apply]
    split
    case isFalse => exact .of_undisturbed (.refl s) .nil (by simp)
    case isTrue =>
      apply (shows_turn begun fuel).bind
      intro more
      generalize (w.turn begun fuel s).2 = t
      have done : ∀ fault, Ending.done () ≠ .raised fault := by simp
      cases more with
      | false =>
        refine ⟨[], .refl t, fun _ => ⟨by simp, done, fun _ => rfl⟩, fun _ _ => ?_⟩
        exact .of_undisturbed .nil done
      | true =>
        rw [Act.onlyIf_apply, if_pos rfl]
        cases up : t.status.terminated with
        | true =>
          obtain ⟨r, ended, hr⟩ := turns_of_terminated (w := w) begun fuel up
          rw [ended]
          exact ⟨[], .refl t, fun _ => ⟨by simp, hr, by simp⟩, fun h => by simp [up] at h⟩
        | false =>
          obtain ⟨ns, grows, course⟩ := ih (s := t)
          exact ⟨ns, grows, fun h => by simp [up] at h, fun _ => course⟩

theorem shows_forwardAll (begun : Int) (fuel : Nat) : Shows () s (w.forwardAll begun fuel s) := by
  apply (shows_turns begun fuel).bind
  intro _
  generalize (w.turns begun fuel s).2 = t
  have done : ∀ fault, Ending.done () ≠ .raised fault := by simp
  refine ⟨_, (Grows.refl t).note _ rfl, fun _ => ⟨by simp [Event.incidental], done, fun _ => rfl⟩,
    fun _ _ => ?_⟩
  exact .of_undisturbed (by simp [Undisturbed, Event.stage]) done

theorem startup_spec (w : Worker σ) (c : Prop) [Decidable c] (s : Site σ) :
    ∃ r s' ns, Act.onlyIf c w.startupDelay s = (.ofExcept r, s') ∧ Grows s s' ns ∧
      Staged .rest ns ∧ (Calm ns → ∀ fault, r ≠ .error fault) := by
  rw [Act.onlyIf_apply]
  split
  case isFalse => exact ⟨.ok (), s, [], rfl, .refl s, .nil, by simp⟩
  case isTrue =>
    rw [startupDelay]
    obtain ⟨r, t, ms, sleep, ht, called, -⟩ := w.clockSleep_spec w.settings.startupDelayMs s
    cases r with
    | error fault =>
      have staged : Staged .rest ms := called.staged rfl rfl
      refine ⟨.error fault, t, ms, Act.bind_raised sleep _,
        ht.grows (called.tally_eq Event.sober_deactivates), staged, fun calm => ?_⟩
      obtain ⟨x, as, y, rfl, -, -, hy⟩ := called
      have := calm y (by simp)
      simp [hy, Event.closing, Event.strikes] at this
    | ok completed =>
      have staged : Staged .rest ms := called.staged rfl rfl
      have grows := ht.grows (called.tally_eq Event.sober_deactivates)
      rw [Act.bind_done sleep]
      cases completed with
      | true =>
        exact ⟨.ok (), _, ms, rfl, ⟨grows.moments, grows.rises, grows.deactivations⟩, staged,
          by simp⟩
      | false =>
        have grows := grows.note (.log ⟨.warn, "[" ++ w.outside.ownerName t.world ++ "] " ++
          "Initial delay interrupted when worker started as inactive"⟩) rfl
        exact ⟨.ok (), _, _, rfl, ⟨grows.moments, grows.rises, grows.deactivations⟩,
          staged.append (.of_incidental (by simp [Event.incidental])), by simp⟩

def Acquires (s t : Site σ) : Prop := ∃ ms, Grows s t ms ∧ Staged .acquisition ms

theorem Acquires.spell {u : Site σ} {ms : List (Moment σ)} (h : Acquires s t) (k : Spell t u ms)
    (staged : Staged .acquisition ms) : Acquires s u := by
  obtain ⟨ns, grows, hns⟩ := h
  exact ⟨ns ++ ms, grows.trans (k.steady_of_staged staged (by decide)).toGrows,
    hns.append staged⟩

theorem acquires (w : Worker σ) (s : Site σ) : Acquires s (w.acquire s).2 := by
  have naming : Act.Keeps (Acquires s) w.storeName := by
    intro t h
    obtain ⟨r, u, ms, name, hu, called, -⟩ := w.storeName_spec t
    rw [name]
    exact h.spell hu (called.staged rfl (by cases r <;> rfl))
  have creating : Act.Keeps (Acquires s) w.createConsumer := by
    intro t h
    obtain ⟨r, u, ms, create, hu, called, -⟩ := w.createConsumer_spec t
    rw [create]
    exact h.spell hu (called.staged rfl (by cases r <;> rfl))
  have telling (text : String) : Act.Keeps (Acquires s) (w.log .info text) :=
    fun t h => h.spell ((Spell.refl t).note _) (.of_incidental (by simp [Event.incidental]))
  have keeps : Act.Keeps (Acquires s) w.acquire := by
    rw [acquire]
    split
    · exact .raise _
    · apply creating.bind
      intro given
      cases given with
      | false => exact naming.bind fun _ => .raise _
      | true =>
        rw [if_pos rfl]
        refine Act.Keeps.bind (fun t h => ?_) fun _ => naming.bind fun _ => telling _
        obtain ⟨ms, grows, staged⟩ := h
        exact ⟨ms, ⟨grows.moments, grows.rises, grows.deactivations⟩, staged⟩
  exact keeps s ⟨[], .refl s, .nil⟩

theorem shows_run (w : Worker σ) (fuel : Nat) (s : Site σ) : Shows () s (w.run fuel s) := by
  rw [run, Act.bind_done (Act.note_apply _ s), Act.bind_done (Act.look_apply _ _),
    Act.bind_done (Act.status_apply _)]
  have begins := (Grows.refl s).note .runBegun rfl
  have first : Undisturbed [s.moment .runBegun] := by simp [Undisturbed, Event.stage]
  obtain ⟨r, t, ns, startup, ht, hns, calm⟩ :=
    w.startup_spec (s.note .runBegun).status.delayDue (s.note .runBegun)
  have undisturbed : Undisturbed (s.moment .runBegun :: ns) :=
    first.append (.of_staged hns (by decide))
  cases r with
  | error fault =>
    rw [Act.bind_raised startup]
    refine .of_undisturbed (begins.trans ht) undisturbed fun h => ?_
    exact absurd rfl (calm (List.forall_mem_append.1 h).2 fault)
  | ok _ =>
    rw [Act.bind_done startup]
    split
    case isTrue => exact .before (begins.trans ht) undisturbed (shows_forwardAll _ fuel)
    case isFalse =>
      obtain ⟨ms, hms, staged⟩ := w.acquires t
      have before := undisturbed.append (.of_staged staged (by decide))
      generalize acquire : w.acquire t = ended at hms
      obtain ⟨r, u⟩ := ended
      have grows := (begins.trans ht).trans hms
      cases r with
      | done _ =>
        rw [Act.bind_done (Act.catching_done acquire)]
        exact .before grows before (shows_forwardAll _ fuel)
      | unfinished =>
        rw [Act.bind_unfinished (Act.catching_unfinished acquire)]
        exact .of_undisturbed grows before (by simp)
      | raised fault =>
        rw [Act.bind_done (Act.catching_raised acquire)]
        obtain ⟨v, xs, q, giveUp, given⟩ := w.giveUp_spec
          ("Initialization failed, deactivating the message processor: " ++ ·)
          "Initialization failed with an unknown error, deactivating the message processor"
          fault none u
        have pending : Pending (ns ++ ms) := Pending.append (.of_staged hns (by decide))
          (.of_staged staged (by decide))
        change Shows () s (w.giveUpAcquiring fault u)
        rw [giveUpAcquiring, giveUp]
        refine ⟨_, grows.trans given.toGrows, fun calm => ?_⟩
        have course : Course () v (s.moment .runBegun :: (ns ++ ms) ++ xs) (.ofExcept q) :=
          given.course (List.forall_mem_append.1 calm).2 rfl rfl pending before
        simpa using course

end Runs

/-- Failures have been contained in a run: none got out, and one that nothing had dealt with stopped
the worker, with its retirement counted. -/
structure Contained (s s' : Site σ) (ms : List (Moment σ)) (r : Ending Unit) : Prop where
  caught : ∀ fault, r ≠ .raised fault
  stopped : 0 < tally Event.givesUp ms → r = .done () ∧ Stopped s' ms ∧
    s'.counters.value Counter.deactivations = s.counters.value Counter.deactivations + 1

theorem Course.contained_iff {s s' : Site σ} {ms : List (Moment σ)} {r : Ending Unit}
    (course : Course () s' ms r) (grows : Grows s s' ms) :
    Contained s s' ms r ↔ tally Event.spoils ms = 0 := by
  cases course with
  | quiet givesUp spoils hr _ =>
    refine ⟨fun _ => spoils, fun _ => ⟨hr, fun given => ?_⟩⟩
    omega
  | stopped spoils hr stopped =>
    refine ⟨fun _ => spoils, fun _ => ⟨by simp [hr], fun _ => ⟨hr, stopped, ?_⟩⟩⟩
    rw [grows.deactivations, stopped.deactivates]
    rfl
  | spoiled spoils out =>
    refine ⟨fun contained => ?_, fun none => by omega⟩
    rcases out with ⟨fault, raised⟩ | ⟨-, given, twice⟩
    · exact absurd raised (contained.caught fault)
    · -- the sequence has been dispatched twice
      obtain ⟨-, stopped, -⟩ := contained.stopped given
      obtain ⟨_, start, _, -, -, -, -, sendsOff⟩ := stopped.last
      have := Bool.toNat_le start.event.brings
      omega

/-- As long as the clock and the owner do their work, the failures of a run are contained if, and
only if, the deactivate sequence never fails in a way nothing is known about. -/
theorem run_contained_iff (w : Worker σ) (fuel : Nat) (s : Site σ) :
    ∃ ms, (w.run fuel s).2.moments = s.moments ++ ms ∧ (Calm ms →
      (Contained s (w.run fuel s).2 ms (w.run fuel s).1 ↔
        ∀ x ∈ ms, x.event ≠ .failed (.sequence .deactivate) .unknown)) := by
  obtain ⟨ms, grows, course⟩ := w.shows_run fuel s
  refine ⟨ms, grows.moments, fun calm => ?_⟩
  rw [(course calm).contained_iff grows, tally_eq_zero]
  have spoils (e : Event) : e.spoils = false ↔ e ≠ .failed (.sequence .deactivate) .unknown := by
    unfold Event.spoils
    split
    case h_1 => simp
    case h_2 other => simpa using other
  simp [spoils]

theorem run_contained_plain :
    ∃ s s' ms r, s = (plain {} (.error .unknown)).fresh [⟨"1", ∅, .null⟩] ∧
      (plain {} (.error .unknown)).run 2 s = (r, s') ∧ s'.moments = ms ∧ Calm ms ∧
      0 < tally Event.givesUp ms ∧ Contained s s' ms r := by
  obtain ⟨ms, hms, contained⟩ := (plain {} (.error .unknown)).run_contained_iff 2
    ((plain {} (.error .unknown)).fresh [⟨"1", ∅, .null⟩])
  rw [moments_fresh, List.nil_append] at hms
  subst hms
  have calm : Calm ((plain {} (.error .unknown)).run 2
      ((plain {} (.error .unknown)).fresh [⟨"1", ∅, .null⟩])).2.moments := by
    unfold Calm
    decide
  have quiet : tally Event.spoils ((plain {} (.error .unknown)).run 2
      ((plain {} (.error .unknown)).fresh [⟨"1", ∅, .null⟩])).2.moments = 0 := by decide
  refine ⟨_, _, _, _, rfl, rfl, rfl, calm, by decide, (contained calm).2 fun x hx spoils => ?_⟩
  have := tally_eq_zero.1 quiet x hx
  simp [spoils, Event.spoils] at this

def spoilt : Worker (List Message) :=
  { plain { deactivateSequence := "bye", throttle := false } (.error .unknown) with
    outside := { Outside.plain (.error .unknown) [] with
      sequence? _ _ := some fun m v => ⟨⟨.error .unknown, v, []⟩, m⟩ } }

/-- The failure of the deactivate sequence gets out; neither is the worker terminated, nor the owner
asked to deactivate itself. -/
theorem run_not_contained :
    ∃ s s' ms r, s = spoilt.fresh [⟨"m1", ∅, .null⟩] ∧ spoilt.run 2 s = (r, s') ∧
      s'.moments = ms ∧ Calm ms ∧ ¬ Contained s s' ms r ∧ s'.status.terminated = false ∧
      tally Event.retires ms = 0 := by
  have calm : Calm (spoilt.run 2 (spoilt.fresh [⟨"m1", ∅, .null⟩])).2.moments := by
    unfold Calm
    decide
  have escapes : (match (spoilt.run 2 (spoilt.fresh [⟨"m1", ∅, .null⟩])).1 with
    | .raised _ => true
    | _ => false) = true := by decide
  refine ⟨_, _, _, _, rfl, rfl, rfl, calm, fun contained => ?_, by decide, by decide⟩
  split at escapes
  case h_1 fault raised => exact contained.caught fault raised
  case h_2 => cases escapes

end Worker

end Courier
