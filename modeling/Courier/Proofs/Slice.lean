import Courier.Proofs.Cadence
import Mathlib.Algebra.Ring.Int.Defs

namespace Courier

variable {σ : Type}

namespace Event

def span : Event → Int
  | .sleeping d => max d 0
  | _ => 0

def waits (e : Event) : Bool := 0 < e.span

theorem within_waits : Within .rest waits := by
  intro e h
  cases e <;> first | rfl | cases h

theorem sober_waits : Sober waits := within_waits.sober (by decide)

theorem span_of_not_waits {e : Event} (h : e.waits = false) : e.span = 0 := by
  cases e with
  | sleeping d =>
    rw [waits, decide_eq_false_iff_not] at h
    rw [span] at h ⊢
    omega
  | _ => rfl

theorem span_sleeping {d : Int} (pos : 0 < d) : (sleeping d).span = d :=
  Int.max_eq_left (Int.le_of_lt pos)

end Event

def waited (ms : List (Moment σ)) : Int := (ms.map fun x => x.event.span).sum

@[simp] theorem waited_nil : waited ([] : List (Moment σ)) = 0 := rfl

@[simp] theorem waited_cons (x : Moment σ) (ms : List (Moment σ)) :
    waited (x :: ms) = x.event.span + waited ms := rfl

@[simp] theorem waited_append (ms ns : List (Moment σ)) :
    waited (ms ++ ns) = waited ms + waited ns := by
  simp [waited]

theorem waited_eq_zero {ms : List (Moment σ)} (h : tally Event.waits ms = 0) : waited ms = 0 := by
  induction ms with
  | nil => rfl
  | cons x ms ih =>
    rw [tally_eq_zero, List.forall_mem_cons] at h
    rw [waited_cons, Event.span_of_not_waits h.1, ih (tally_eq_zero.2 h.2)]
    rfl

theorem Always.of_append {P : List (Moment σ) → Moment σ → Prop} {c ms ns : List (Moment σ)}
    (h : Always P c (ms ++ ns)) : Always P c ms := by
  intro before x after hx
  exact h before x (after ++ ns) (by simp [hx])

theorem always_cons {P : List (Moment σ) → Moment σ → Prop} {c ms : List (Moment σ)}
    {x : Moment σ} : Always P c (x :: ms) ↔ P c x ∧ Always P (c ++ [x]) ms := by
  refine ⟨fun h => ⟨by simpa using h [] x ms rfl, fun before y after hy => ?_⟩,
    fun h => .cons h.1 h.2⟩
  simpa using h (x :: before) y after (by simp [hy])

instance Always.decidable {P : List (Moment σ) → Moment σ → Prop} [∀ c x, Decidable (P c x)] :
    ∀ c ms, Decidable (Always P c ms)
  | _, [] => .isTrue .nil
  | c, x :: ms =>
    have := decidable (P := P) (c ++ [x]) ms
    decidable_of_iff (P c x ∧ Always P (c ++ [x]) ms) always_cons.symm

/-- Nothing takes time but the waits of a worker that paces itself: one after each fetch. -/
structure Punctual (now : σ → Int) (begun : Int) (ms : List (Moment σ)) : Prop where
  clock : Always (fun before x => now x.world = begun + waited before) [] ms
  waits : Always (fun before x => x.event.waits = true →
    tally Event.waits before < tally Event.fetches before) [] ms

theorem Punctual.of_append {now : σ → Int} {begun : Int} {ms ns : List (Moment σ)}
    (h : Punctual now begun (ms ++ ns)) : Punctual now begun ms :=
  ⟨h.clock.of_append, h.waits.of_append⟩

theorem length_fetchTimes (now : σ → Int) (ms : List (Moment σ)) :
    (fetchTimes now ms).length = tally Event.fetches ms := by
  rw [fetchTimes, List.length_map, tally, List.countP_eq_length_filter]

@[simp] theorem fetchTimes_append (now : σ → Int) (ms ns : List (Moment σ)) :
    fetchTimes now (ms ++ ns) = fetchTimes now ms ++ fetchTimes now ns := by
  simp [fetchTimes]

theorem fetchTimes_eq_nil {now : σ → Int} {ms : List (Moment σ)} :
    fetchTimes now ms = [] ↔ tally Event.fetches ms = 0 := by
  rw [← length_fetchTimes now, List.length_eq_zero_iff]

theorem mem_fetchTimes {now : σ → Int} {ms : List (Moment σ)} {c : Int}
    (h : c ∈ fetchTimes now ms) : ∃ x ∈ ms, now x.world = c := by
  obtain ⟨x, hx, rfl⟩ := List.mem_map.1 h
  exact ⟨x, (List.mem_filter.1 hx).1, rfl⟩

theorem Spaced.fetchTimes {now : σ → Int} {p : Int} {ms : List (Moment σ)} (h : Spaced now p ms) :
    (fetchTimes now ms).Pairwise (· + p ≤ ·) := by
  rw [Courier.fetchTimes, List.pairwise_map, List.pairwise_filter]
  exact h.imp fun spaced begun fetches => spaced (Event.ofFetch_of_fetches begun) fetches

/-! ## How often an interval fits -/

theorem reach_of_spaced {p b : Int} {ts : List Int} {t : Int}
    (spaced : (t :: ts).Pairwise (· + p ≤ ·)) (till : ∀ u ∈ t :: ts, u ≤ b) :
    t + ts.length * p ≤ b := by
  induction ts generalizing t with
  | nil => simpa using till
  | cons u ts ih =>
    rw [List.pairwise_cons] at spaced
    rw [List.forall_mem_cons] at till
    have next := ih spaced.2 till.2
    have apart := spaced.1 u (by simp)
    rw [List.length_cons, Int.natCast_add, Int.natCast_one, Int.add_mul, Int.one_mul]
    omega

theorem length_le_of_spaced {p c d : Int} {ts : List Int} (pos : 0 < p) (nonneg : 0 ≤ d)
    (spaced : ts.Pairwise (· + p ≤ ·)) (since : ∀ t ∈ ts, c ≤ t)
    (till : ∀ t ∈ ts.tail, t ≤ c + d) : (ts.length : Int) ≤ d / p + 1 := by
  have fits : 0 ≤ d / p := Int.ediv_nonneg nonneg (Int.le_of_lt pos)
  match ts with
  | [] => simp; omega
  | [t] => simp; omega
  | t :: u :: ts =>
    have apart := (List.pairwise_cons.1 spaced).1 u (by simp)
    have near := till u (by simp)
    have reach := reach_of_spaced spaced (List.forall_mem_cons.2 ⟨by omega, till⟩)
    have first := since t (by simp)
    have times : ((u :: ts).length : Int) ≤ d / p :=
      Int.le_ediv_of_mul_le pos (by omega)
    rw [List.length_cons, Int.natCast_add, Int.natCast_one]
    omega

namespace Worker

variable {w : Worker σ}

/-! ## No late fetch -/

section Late

variable {past ms ns : List (Moment σ)} {s t : Site σ} {c : Int}

def Prompt (o : Outside σ) (c : Int) (past : List (Moment σ)) (s : Site σ) : Prop :=
  ∃ ms, s.moments = past ++ ms ∧ ∀ t ∈ (fetchTimes o.now ms).tail, t ≤ c

def InTime (o : Outside σ) (c : Int) (past : List (Moment σ)) (s : Site σ) : Prop :=
  ∃ ms, s.moments = past ++ ms ∧ (∀ t ∈ (fetchTimes o.now ms).tail, t ≤ c) ∧
    (tally Event.fetches ms = 0 ∨ o.now s.world ≤ c)

theorem InTime.prompt {o : Outside σ} (h : InTime o c past s) : Prompt o c past s := by
  obtain ⟨ms, moments, prompt, -⟩ := h
  exact ⟨ms, moments, prompt⟩

theorem Prompt.shown {o : Outside σ} (h : Prompt o c past s) (moments : t.moments = s.moments ++ ns)
    (quiet : tally Event.fetches ns = 0) : Prompt o c past t := by
  obtain ⟨ms, before, prompt⟩ := h
  refine ⟨ms ++ ns, by rw [moments, before, List.append_assoc], ?_⟩
  rw [fetchTimes_append, fetchTimes_eq_nil.2 quiet, List.append_nil]
  exact prompt

theorem InTime.begin {o : Outside σ} (moments : s.moments = past ++ ns)
    (quiet : tally Event.ofFetch ns = 0) : InTime o c past s := by
  have none := tally_fetches_of_ofFetch quiet
  exact ⟨ns, moments, by simp [fetchTimes_eq_nil.2 none], .inl none⟩

theorem Worked.fetchTimes {r : Ending Bool} (h : w.Worked s t ms r) (now : σ → Int) :
    fetchTimes now ms = [] ∨ fetchTimes now ms = [now s.world] := by
  cases h with
  | barred quiet _ => exact .inl (fetchTimes_eq_nil.2 (tally_fetches_of_ofFetch quiet))
  | @fetched asked start rest _ shown hasked hstart world quiet _ _ =>
    have unasked := Event.not_fetches_of_not_ofFetch hasked
    right
    rw [shown, Courier.fetchTimes, List.filter_cons_of_neg (by simp [unasked]),
      List.filter_cons_of_pos (by rw [hstart]; rfl), List.map_cons, world]
    exact congrArg _ (fetchTimes_eq_nil.2 quiet)

theorem prompt_turn (throttle : w.settings.throttle = true) (begun : Int) (fuel : Nat)
    (inTime : InTime w.outside (begun + sliceMs) past s) :
    Proceeds (InTime w.outside (begun + sliceMs) past)
      (fun _ => Prompt w.outside (begun + sliceMs) past) (w.turn begun fuel s) := by
  obtain ⟨r, t, ns, work, shown, worked⟩ := w.work_spec fuel s
  obtain ⟨ms, before, prompt, fetchless⟩ := inTime
  have moments : t.moments = past ++ (ms ++ ns) := by rw [shown, before, List.append_assoc]
  have still : ∀ t ∈ (Courier.fetchTimes w.outside.now (ms ++ ns)).tail, t ≤ begun + sliceMs := by
    rw [fetchTimes_append]
    have times := worked.fetchTimes w.outside.now
    cases earlier : fetchTimes w.outside.now ms with
    | nil => rcases times with times | times <;> simp [times]
    | cons first others =>
      have near : w.outside.now s.world ≤ begun + sliceMs := by
        refine fetchless.resolve_left fun none => ?_
        simp [fetchTimes_eq_nil.2 none] at earlier
      rw [earlier] at prompt
      refine List.forall_mem_append.2 ⟨prompt, ?_⟩
      rcases times with times | times <;> simp [times, near]
  have prompt : Prompt w.outside (begun + sliceMs) past t := ⟨_, moments, still⟩
  refine turn_rule (fun work' => ?_) fun work' stops => ?_
  · obtain ⟨rfl, rfl⟩ := Prod.mk.inj (work.symm.trans work')
    obtain ⟨ks, waited, quiet⟩ := shown_of_omits (w.composed_pace begun)
      (w.omits_pace Event.within_fetches rfl begun) t
    have ended := prompt.shown waited quiet
    refine .of_always ended fun more => ?_
    have within := (pace_within throttle (Prod.ext more rfl)).1
    obtain ⟨ms, moments, prompt⟩ := ended
    exact ⟨ms, moments, prompt, .inr within⟩
  · obtain ⟨rfl, rfl⟩ := Prod.mk.inj (work.symm.trans work')
    exact .of_always prompt fun more => absurd more stops

theorem prompt_run (throttle : w.settings.throttle = true) (fuel : Nat) (s : Site σ) :
    Prompt w.outside (w.outside.now s.world + sliceMs) s.moments (w.run fuel s).2 :=
  run_rule_of_fetches fuel .begin (prompt_turn throttle _) InTime.prompt
    fun prompt moments quiet => prompt.shown moments (tally_fetches_of_ofFetch quiet)

end Late

/-! ## As many fetches as fit -/

section Punctual

variable {past ms ns : List (Moment σ)} {s t : Site σ} {begun : Int}

structure Lap (o : Outside σ) (p begun : Int) (k : Nat) (s : Site σ) (ms : List (Moment σ)) :
    Prop where
  fetches : tally Event.fetches ms = k
  waits : tally Event.waits ms = k
  total : waited ms = k * p
  clock : o.now s.world = begun + k * p

def Abreast (o : Outside σ) (p begun : Int) (past : List (Moment σ)) (s : Site σ) : Prop :=
  ∃ ms, s.moments = past ++ ms ∧ (tally Event.wakes ms = 0 → Punctual o.now begun ms →
    ∃ k : Nat, Lap o p begun k s ms ∧ k * p ≤ sliceMs)

def Filled (o : Outside σ) (p begun : Int) (past : List (Moment σ)) (r : Ending Unit)
    (s : Site σ) : Prop :=
  r ≠ .unfinished → s.status.terminated = false → ∃ ms, s.moments = past ++ ms ∧
    (tally Event.wakes ms = 0 → tally Event.givesUp ms = 0 → Punctual o.now begun ms →
      (tally Event.fetches ms : Int) = sliceMs / p + 1)

theorem ediv_eq_of_lap {p d : Int} {k : Nat} (pos : 0 < p) (h : k * p ≤ d)
    (h' : d < ((k + 1 : Nat) : Int) * p) : d / p = k :=
  Int.le_antisymm (Int.le_of_lt_add_one (Int.ediv_lt_of_lt_mul pos h'))
    (Int.le_ediv_of_mul_le pos h)

theorem Lap.next {p : Int} {k : Nat} {u : Site σ} {ks : List (Moment σ)}
    (pos : 0 < p) (lap : Lap w.outside p begun k s ms) (fetched : tally Event.fetches ns = 1)
    (sleep : w.sleep p t = (.done (), u))
    (moments : u.moments = t.moments ++ ks) (restful : tally Event.wakes ks = 0)
    (punctual : Punctual w.outside.now begun (ms ++ ns ++ ks)) :
    Lap w.outside p begun (k + 1) u (ms ++ ns ++ ks) := by
  obtain ⟨as, rfl, incidental, -⟩ := sleep_complete pos sleep moments restful
  have quiet := tally_incidental Event.sober_waits incidental
  have fetchless := tally_incidental Event.sober_fetches incidental
  have time : (Event.sleeping p).span = p := Event.span_sleeping pos
  have asleep : (Event.sleeping p).waits = true := by
    rw [Event.waits, time]
    exact decide_eq_true pos
  have awake : (Event.slept true).waits = false := rfl
  have only := punctual.waits (ms ++ ns) _ _ rfl asleep
  have idle : tally Event.waits ns = 0 := by
    simp only [List.nil_append, tally_append, lap.waits, lap.fetches, fetched] at only
    omega
  have ended := punctual.clock (ms ++ ns ++ t.moment (.sleeping p) :: as)
    (u.moment (.slept true)) [] (by simp)
  have whole : waited (ms ++ ns ++ t.moment (.sleeping p) :: as) = ((k + 1 : Nat) : Int) * p := by
    rw [waited_append, waited_append, waited_cons, Site.event_moment, time, lap.total,
      waited_eq_zero idle, waited_eq_zero quiet, Int.natCast_add, Int.natCast_one, Int.add_mul,
      Int.one_mul]
    omega
  refine ⟨?_, ?_, ?_, ?_⟩
  · simp [lap.fetches, fetched, fetchless, Event.fetches]
  · simp [lap.waits, idle, quiet, asleep, awake]
  · rw [← List.cons_append, ← List.append_assoc, waited_append, whole]
    simp [Event.span]
  · rw [List.nil_append, whole] at ended
    simpa using ended

theorem Worked.fetches_once {r : Ending Bool} (h : w.Worked s t ns r) (hr : r = .done true) :
    tally Event.fetches ns = 1 := by
  cases h with
  | barred => cases hr
  | @fetched asked start rest _ shown hasked hstart _ quiet _ _ =>
    have unasked := Event.not_fetches_of_not_ofFetch hasked
    rw [shown, tally_cons, tally_cons, unasked, hstart, quiet]
    rfl

theorem Abreast.lap {p : Int} (pos : 0 < p) {u : Site σ} {ks : List (Moment σ)}
    (abreast : Abreast w.outside p begun past s) (shown : t.moments = s.moments ++ ns)
    (worked : w.Worked s t ns (.done true)) (sleep : w.sleep p t = (.done (), u))
    (waited : u.moments = t.moments ++ ks) :
    ∃ ms, u.moments = past ++ ms ∧ (tally Event.wakes ms = 0 → Punctual w.outside.now begun ms →
      ∃ k : Nat, Lap w.outside p begun (k + 1) u ms ∧ k * p ≤ sliceMs) := by
  obtain ⟨ms, before, abreast⟩ := abreast
  refine ⟨ms ++ ns ++ ks, by simp [waited, shown, before], fun restful punctual => ?_⟩
  rw [tally_append, tally_append] at restful
  obtain ⟨k, lap, fits⟩ := abreast (by omega) punctual.of_append.of_append
  exact ⟨k, lap.next pos (worked.fetches_once rfl) sleep waited (by omega) punctual, fits⟩

theorem Abreast.stopped {p : Int} {r : Ending Bool} (timed : w.settings.cronMode = false)
    (abreast : Abreast w.outside p begun past s) (shown : t.moments = s.moments ++ ns)
    (worked : w.Worked s t ns r) (stops : r ≠ .done true) :
    Proceeds (Abreast w.outside p begun past) (Filled w.outside p begun past) (r, t) := by
  cases r with
  | done more =>
    cases more with
    | true => exact absurd rfl stops
    | false =>
      intro _ running
      cases worked with
      | barred _ up => simp [up] at running
      | fetched _ _ _ _ _ _ drained => simp [drained rfl] at timed
  | raised fault =>
    obtain ⟨ms, before, -⟩ := abreast
    refine fun _ _ => ⟨ms ++ ns, by simp [shown, before], fun _ kept => ?_⟩
    cases worked with
    | fetched shown _ _ _ _ gives _ =>
      have given := gives fault rfl
      rw [shown, tally_append, tally_cons, tally_cons] at kept
      omega
  | unfinished => exact fun finished => absurd rfl finished

section Turns

variable (throttle : w.settings.throttle = true) (timed : w.settings.cronMode = false)
  (pos : 0 < w.settings.pollIntervalMs) (short : w.settings.pollIntervalMs < pacingLimitMs)

include throttle timed pos short

theorem filled_pace (abreast : Abreast w.outside w.settings.pollIntervalMs begun past s)
    (shown : t.moments = s.moments ++ ns) (worked : w.Worked s t ns (.done true)) :
    Proceeds (Abreast w.outside w.settings.pollIntervalMs begun past)
      (Filled w.outside w.settings.pollIntervalMs begun past) (w.pace begun t) := by
  cases up : t.status.terminated with
  | true =>
    rw [pace_terminated begun up]
    exact fun _ running => by simp [up] at running
  | false =>
    obtain ⟨ks, waited, -⟩ := shown_of_omits (w.composed_pace begun)
      (w.omits_pace Event.within_ofFetch rfl begun) t
    rcases pace : w.pace begun t with ⟨more | fault | _, u⟩
    · rw [pace] at waited
      obtain ⟨sleep, within⟩ := sleep_of_pace throttle timed short up pace
      obtain ⟨ms, all, lap⟩ := abreast.lap pos shown worked sleep waited
      cases more with
      | true =>
        refine ⟨ms, all, fun restful punctual => ?_⟩
        obtain ⟨k, lap, -⟩ := lap restful punctual
        have clock := lap.clock
        have within := of_decide_eq_true within.symm
        exact ⟨k + 1, lap, by omega⟩
      | false =>
        refine fun _ _ => ⟨ms, all, fun restful _ punctual => ?_⟩
        obtain ⟨k, lap, fits⟩ := lap restful punctual
        have clock := lap.clock
        have late := of_decide_eq_false within.symm
        rw [lap.fetches, ediv_eq_of_lap pos fits (by omega)]
        rfl
    · rw [pace] at waited
      have broken := sleep_raised (sleep_of_pace_raised throttle timed short up pace) waited
      obtain ⟨ms, before, -⟩ := abreast
      refine fun _ _ => ⟨ms ++ ns ++ ks, by simp [waited, shown, before], fun restful => ?_⟩
      rw [tally_append] at restful
      omega
    · exact fun finished => absurd rfl finished

theorem filled_turn (fuel : Nat)
    (abreast : Abreast w.outside w.settings.pollIntervalMs begun past s) :
    Proceeds (Abreast w.outside w.settings.pollIntervalMs begun past)
      (Filled w.outside w.settings.pollIntervalMs begun past) (w.turn begun fuel s) := by
  obtain ⟨r, t, ns, work, shown, worked⟩ := w.work_spec fuel s
  refine turn_rule (fun work' => ?_) fun work' stops => ?_
  · obtain ⟨rfl, rfl⟩ := Prod.mk.inj (work.symm.trans work')
    exact filled_pace throttle timed pos short abreast shown worked
  · obtain ⟨rfl, rfl⟩ := Prod.mk.inj (work.symm.trans work')
    exact abreast.stopped timed shown worked stops

end Turns

/-! ## Before the turns -/

def Posted (s : Site σ) : Prop := ∃ x, s.moments.getLast? = some x ∧ x.world = s.world

theorem posted_note (e : Event) (s : Site σ) : Posted (s.note e) := ⟨s.moment e, by simp, rfl⟩

theorem posted_log (severity : Severity) (text : String) :
    Act.Keeps Posted (w.log severity text) :=
  fun _ _ => posted_note _ _

theorem posted_startupDelay : Act.Keeps Posted w.startupDelay := by
  refine Act.Keeps.bind (fun s _ => ?_) fun _ => (Act.Keeps.onlyIf _ (posted_log _ _)).bind
    fun _ s hs => hs
  rw [w.clockSleep_apply]
  exact posted_note _ _

theorem posted_acquire : Act.Keeps Posted w.acquire := by
  have storeName : Act.Keeps Posted w.storeName := fun s _ => by
    rw [w.storeName_apply]
    exact posted_note _ _
  rw [acquire]
  split
  · exact .raise _
  · refine Act.Keeps.bind (fun s _ => ?_) fun given => ?_
    · rw [w.createConsumer_apply]
      exact posted_note _ _
    · split
      · exact Act.Keeps.bind (fun _ hs => hs) fun _ => storeName.bind fun _ => posted_log _ _
      · exact storeName.bind fun _ => .raise _

theorem posted_ready : Act.Keeps Posted w.ready := by
  refine Act.Keeps.status.bind fun _ => (Act.Keeps.onlyIf _ posted_startupDelay).bind fun _ => ?_
  split
  · exact .pure _
  · exact posted_acquire.catching

theorem abreast_begin {o : Outside σ} {p : Int} (moments : s.moments = past ++ ms) (some : ms ≠ [])
    (quiet : tally Event.fetches ms = 0) (posted : Posted s) : Abreast o p begun past s := by
  refine ⟨ms, moments, fun _ punctual => ⟨0, ?_, by simp [sliceMs]⟩⟩
  have idle : tally Event.waits ms = 0 := by
    rw [tally_eq_zero]
    intro x hx
    obtain ⟨before, after, rfl⟩ := List.append_of_mem hx
    rw [← Bool.not_eq_true]
    intro waits
    have only := punctual.waits before x after rfl waits
    rw [tally_append] at quiet
    rw [List.nil_append] at only
    omega
  obtain ⟨x, last, world⟩ := posted
  obtain rfl | ⟨before, y, concat⟩ := List.eq_nil_or_concat ms
  · exact absurd rfl some
  · obtain rfl := concat.trans List.concat_eq_append
    obtain rfl : y = x := by simpa [moments] using last
    have clock := punctual.clock before y [] rfl
    have earlier : tally Event.waits before = 0 := by
      rw [tally_append] at idle
      omega
    rw [List.nil_append, waited_eq_zero earlier, world] at clock
    exact ⟨quiet, idle, by simp [waited_eq_zero idle], by simpa using clock⟩

theorem startupDelay_raised {fault : Fault} (delay : w.startupDelay s = (.raised fault, t))
    (moments : t.moments = s.moments ++ ms) : tally Event.wakes ms ≠ 0 := by
  have asleep := w.clockSleep_apply w.settings.startupDelayMs s
  rw [startupDelay] at delay
  cases outcome :
      (w.outside.sleep w.settings.startupDelayMs s.status.terminated s.world).outcome with
  | ok completed =>
    rw [outcome] at asleep
    rw [Act.bind_done asleep] at delay
    cases completed <;> cases delay
  | error fault' =>
    generalize w.outside.sleep w.settings.startupDelayMs s.status.terminated s.world = r at *
    obtain ⟨as, spell, -⟩ := w.spell_heard r (s.note (.sleeping w.settings.startupDelayMs))
    rw [outcome] at asleep
    rw [Act.bind_raised asleep] at delay
    obtain ⟨-, rfl⟩ := Prod.mk.inj delay
    rw [answered, Site.moments_note, spell.moments, outcome] at moments
    have woken := congrArg (tally Event.wakes) moments
    intro restful
    simp [Event.wakes, Event.closing, restful] at woken

theorem ready_raised {fault : Fault} (ready : w.ready s = (.raised fault, t))
    (moments : t.moments = s.moments ++ ms) : tally Event.wakes ms ≠ 0 := by
  have caught (u : Site σ) : (if s.status.holdsConsumer then pure (.ok ())
      else Act.catching w.acquire : Act σ (Except Fault Unit)) u ≠ (.raised fault, t) := by
    split
    · rintro ⟨⟩
    · rw [Act.catching_apply]
      split <;> rintro ⟨⟩
  rw [Worker.ready, Act.bind_done (Act.status_apply s), Act.onlyIf] at ready
  split at ready
  case isFalse => exact absurd ready (caught s)
  case isTrue =>
    rcases delay : w.startupDelay s with ⟨_ | _ | _, u⟩
    · rw [Act.bind_done delay] at ready
      exact absurd ready (caught u)
    · rw [Act.bind_raised delay] at ready
      cases ready
      exact startupDelay_raised delay moments
    · rw [Act.bind_unfinished delay] at ready
      cases ready

theorem filled_run (throttle : w.settings.throttle = true) (timed : w.settings.cronMode = false)
    (pos : 0 < w.settings.pollIntervalMs) (short : w.settings.pollIntervalMs < pacingLimitMs)
    (fuel : Nat) (s : Site σ) :
    Filled w.outside w.settings.pollIntervalMs (w.outside.now s.world) s.moments
      (w.run fuel s).1 (w.run fuel s).2 := by
  obtain ⟨ns, shown, quiet⟩ := shown_of_omits w.composed_ready
    (w.omits_ready Event.within_fetches rfl) (s.note .runBegun)
  have posted := posted_ready (w := w) _ (posted_note .runBegun s)
  have opened {r : Ending (Except Fault Unit)} {t : Site σ}
      (ready : w.ready (s.note .runBegun) = (r, t)) :
      t.moments = s.moments ++ s.moment .runBegun :: ns := by
    rw [ready, Site.moments_note, List.append_assoc] at shown
    exact shown
  refine run_rule fuel (fun {t} ready => ?_) (fun {t fault} ready => ?_)
    (fun {t fault} ready => ?_) (fun _ finished => absurd rfl finished) fun {t} filled => ?_
  · rw [ready] at posted
    exact turns_rule (fun _ finished => absurd rfl finished)
      (fun _ up _ running => by simp [up] at running)
      (fun fuel hs _ => filled_turn throttle timed pos short fuel hs) fuel
      (abreast_begin (opened ready) (by simp) (by simpa [Event.fetches] using quiet) posted)
  · obtain ⟨u, ms, r, giveUp, given⟩ := w.giveUp_spec
      ("Initialization failed, deactivating the message processor: " ++ ·)
      "Initialization failed with an unknown error, deactivating the message processor" fault none t
    rw [giveUpAcquiring, giveUp]
    refine fun _ _ => ⟨s.moment .runBegun :: ns ++ ms, ?_, fun _ kept => ?_⟩
    · rw [given.moments, opened ready, List.append_assoc]
    · have gives := given.gives_up
      rw [tally_append] at kept
      omega
  · refine fun _ _ => ⟨_, opened ready, fun restful => ?_⟩
    have entered : t.moments = (s.note .runBegun).moments ++ ns := by
      rw [opened ready, Site.moments_note]
      simp
    have woken := ready_raised ready entered
    rw [tally_cons] at restful
    omega
  · intro finished running
    obtain ⟨ms, moments, count⟩ := filled finished running
    obtain ⟨x, shown, _, hx⟩ := w.logged_shown .debug "Exiting worker iteration" t
    refine ⟨ms ++ [x], by rw [shown, moments, List.append_assoc], fun restful kept punctual => ?_⟩
    rw [tally_append] at restful kept
    have times := count (by omega) (by omega) punctual.of_append
    simpa [hx, Event.fetches] using times

end Punctual

/-- A throttled run takes a slice of time: no fetch but the first begins after it is used up. If the
worker waits through its poll interval by itself, it fetches at most as often as the interval fits
into the slice, and once more; and just that often if nothing else takes time, and the worker
neither is terminated nor gives up. -/
theorem slice_kept (w : Worker σ) (throttle : w.settings.throttle = true) {fuel : Nat}
    {s : Site σ}
    {ms : List (Moment σ)} (moments : (w.run fuel s).2.moments = s.moments ++ ms) :
    (∀ t ∈ (fetchTimes w.outside.now ms).tail, t ≤ w.outside.now s.world + sliceMs) ∧
    (w.settings.cronMode = false → 0 < w.settings.pollIntervalMs →
      w.settings.pollIntervalMs < pacingLimitMs → tally Event.wakes ms = 0 →
      (w.outside.Timely →
        (tally Event.fetches ms : Int) ≤ sliceMs / w.settings.pollIntervalMs + 1) ∧
      ((w.run fuel s).1 ≠ .unfinished → (w.run fuel s).2.status.terminated = false →
        tally Event.givesUp ms = 0 → Punctual w.outside.now (w.outside.now s.world) ms →
        (tally Event.fetches ms : Int) = sliceMs / w.settings.pollIntervalMs + 1)) := by
  obtain ⟨ms', moments', prompt⟩ := prompt_run throttle fuel s
  obtain rfl := List.append_cancel_left (moments.symm.trans moments')
  refine ⟨prompt, fun timed pos short restful => ⟨fun timely => ?_, fun finished running => ?_⟩⟩
  · obtain ⟨ms', moments', cadenced⟩ := cadence_run timely throttle timed pos short (s := s) fuel
    obtain rfl := List.append_cancel_left (moments.symm.trans moments')
    rw [← length_fetchTimes w.outside.now]
    refine length_le_of_spaced pos (by decide) (cadenced restful).fetchTimes (fun t ht => ?_) prompt
    obtain ⟨x, hx, rfl⟩ := mem_fetchTimes ht
    exact ((between_of_composed timely (w.composed_run fuel) moments).2 x hx).1
  · obtain ⟨ms', moments', count⟩ := filled_run throttle timed pos short fuel s finished running
    obtain rfl := List.append_cancel_left (moments.symm.trans moments')
    exact count restful

theorem slice_kept_400 :
    let w : Worker Int := ⟨{ processorName := "p", pollIntervalMs := 400 }, .ticking 0⟩
    let ms := (w.run 4 (w.fresh 0)).2.moments
    (w.run 4 (w.fresh 0)).1 ≠ .unfinished ∧ w.outside.Timely ∧ tally Event.wakes ms = 0 ∧
      Punctual w.outside.now 0 ms ∧ (∀ t ∈ (fetchTimes w.outside.now ms).tail, t ≤ 1000) ∧
      (tally Event.fetches ms : Int) = sliceMs / 400 + 1 := by
  intro w ms
  have restful : tally Event.wakes ms = 0 := by decide +kernel
  have punctual : Punctual w.outside.now 0 ms := ⟨by decide +kernel, by decide +kernel⟩
  have finished : (w.run 4 (w.fresh 0)).1 ≠ .unfinished := Ending.ne_unfinished (by decide +kernel)
  have kept := slice_kept w rfl (show _ = (w.fresh 0).moments ++ ms by
    rw [moments_fresh, List.nil_append])
  refine ⟨finished, Outside.timely_ticking (by decide), restful, punctual, kept.1, ?_⟩
  exact (kept.2 rfl (by decide) (by decide) restful).2 finished (by decide +kernel)
    (by decide +kernel) punctual

end Worker

end Courier
