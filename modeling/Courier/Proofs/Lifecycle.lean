import Mathlib.Data.Bool.Basic
import Mathlib.Data.List.Induction
import Courier.Proofs.Tenure

namespace Courier

variable {σ : Type}

namespace Host

section Moves

variable {name : String} {h k : Host} {m : Move} {effects : List Effect}

def launches (h k : Host) : Bool := h.controlling = .joiningToStart && k.controlling = .idle

def exits (h k : Host) : Bool := h.scheduling.alive && !k.scheduling.alive

def stops (h k : Host) : Bool := h.controlling = .joiningToStop && k.controlling = .idle

inductive Succeeds (h k : Host) : Prop
  | kept : k.worker = { h.worker with terminated := k.worker.terminated } →
      h.worker.terminated ≤ k.worker.terminated → Succeeds h k
  | ran : h.scheduling = .working → h.worker.Onward k.worker → Succeeds h k
  | replaced : h.scheduling.alive = false → h.worker.terminated = true →
      k.worker = .fresh false → Succeeds h k

theorem Obeys.succeeds (obeys : Obeys h k) : Succeeds h k := .kept obeys.worker obeys.terminated

theorem succeeds_replaceTerminated (down : h.scheduling.alive = false)
    (worker : k.worker = h.replaceTerminated.worker) : Succeeds h k := by
  rw [replaceTerminated] at worker
  split at worker
  case isTrue up => exact .replaced down up worker
  case isFalse => exact .kept (by rw [worker]) (Bool.le_of_eq (by rw [worker]))

theorem Proceeds.succeeds (step : Proceeds name h k) : Succeeds h k := by
  cases step with
  | refused => exact .kept rfl (Bool.le_refl _)
  | accepted => exact .kept rfl (Bool.le_refl _)
  | launched _ down => exact succeeds_replaceTerminated down rfl
  | stopped => exact .kept rfl (Bool.le_refl _)
  | revived _ down => exact succeeds_replaceTerminated down rfl

@[simp] theorem controlling_deactivate (name : String) (h : Host) :
    (h.deactivate name).1.controlling = h.controlling := by
  rw [deactivate]
  split <;> rfl

theorem Advances.controlling (step : Advances name h k) : k.controlling = h.controlling := by
  cases step <;> simp

theorem Advances.succeeds (step : Advances name h k) : Succeeds h k := by
  cases step with
  | failed => exact .kept (obeys_deactivate name h).worker (obeys_deactivate name h).terminated
  | _ => exact .kept rfl (Bool.le_refl _)

theorem Advances.deactivated (step : Advances name h k) : h.deactivated ≤ k.deactivated := by
  cases step with
  | failed => exact (obeys_deactivate name h).deactivated
  | _ => exact Bool.le_refl _

theorem activates_of_step (step : h.step name m = some (k, effects))
    (joins : k.controlling = .joiningToActivate) :
    h.controlling = .joiningToActivate ∨ m = .order .activate := by
  cases m with
  | order o =>
    rw [Host.step] at step
    split at step
    case isFalse => cases step
    case isTrue idle =>
      obtain rfl := congrArg Prod.fst (Option.some.inj step)
      cases o with
      | start =>
        rw [obey, beginStart] at joins
        dsimp only at joins
        split at joins <;> cases joins
      | stop => cases joins
      | deactivate =>
        rw [obey, controlling_deactivate, idle] at joins
        cases joins
      | activate => exact .inr rfl
  | proceed =>
    cases proceeds_of_proceed step with
    | refused => cases joins
    | accepted => cases joins
    | launched => cases joins
    | stopped => cases joins
    | revived =>
      rw [revive, beginStart] at joins
      dsimp only at joins
      split at joins <;> cases joins
  | advance => exact .inl ((advances_of_advance step).controlling ▸ joins)
  | finished contained worker =>
    rw [Host.step] at step
    split at step
    case isTrue =>
      cases step
      exact .inl joins
    case isFalse => cases step
  | inner o =>
    rw [Host.step] at step
    split at step
    case isFalse => cases step
    case isTrue =>
      obtain rfl := congrArg Prod.fst (Option.some.inj step)
      refine .inl ?_
      cases o with
      | start =>
        rw [obeyInner] at joins
        split at joins
        · exact joins
        · split at joins <;> exact joins
      | stop => exact joins
      | deactivate => exact (controlling_deactivate name h) ▸ joins
      | activate =>
        rw [obeyInner] at joins
        split at joins <;> exact joins

end Moves

section Turns

variable {name : String} {h k : Host} {t : Turn σ}

theorem obeys_of_order {o : Order} {effects : List Effect}
    (step : h.step name (.order o) = some (k, effects)) : h.controlling = .idle ∧ Obeys h k := by
  rw [Host.step] at step
  split at step
  case isTrue idle =>
    obtain rfl := congrArg Prod.fst (Option.some.inj step)
    exact ⟨idle, obeys_obey name (by rw [idle]; rfl) o⟩
  case isFalse => cases step

theorem Turned.succeeds (turned : Turned name h t k) : Succeeds h k := by
  cases turned with
  | unmoved => exact (Obeys.refl h).succeeds
  | ordered step => exact (obeys_of_order step).2.succeeds
  | proceeds proceeds => exact proceeds.succeeds
  | advances advances => exact advances.succeeds
  | cut _ obeys => exact obeys.succeeds
  | passed contained now obeys onward =>
    refine .ran now ⟨?_, onward.holdsConsumer, onward.delayDue⟩
    exact Bool.le_trans obeys.terminated (Bool.left_le_or _ _)

theorem Obeys.launches (obeys : Obeys h k) : launches h k = false := by
  simp only [Host.launches, Bool.and_eq_false_imp, decide_eq_true_eq, decide_eq_false_iff_not]
  intro joins idle
  have := obeys.waits (by rw [joins]; rfl)
  simp [joins, idle] at this

theorem Advances.launches (step : Advances name h k) : launches h k = false := by
  simp only [Host.launches, step.controlling, Bool.and_eq_false_imp, decide_eq_true_eq,
    decide_eq_false_iff_not]
  intro joins
  simp [joins]

theorem Advances.alive (step : Advances name h k) : h.scheduling.alive = true := by
  cases step <;> simp_all [Scheduling.alive]

theorem threads_of_le (quiet : launches h k = false)
    (le : k.scheduling.alive ≤ h.scheduling.alive) :
    (launches h k).toNat + h.scheduling.alive.toNat =
      (exits h k).toNat + k.scheduling.alive.toNat := by
  rw [quiet, exits]
  generalize h.scheduling.alive = before at le ⊢
  generalize k.scheduling.alive = after at le ⊢
  cases before <;> cases after <;> first | rfl | cases le rfl

theorem Turned.threads (turned : Turned name h t k) :
    (launches h k).toNat + h.scheduling.alive.toNat =
      (exits h k).toNat + k.scheduling.alive.toNat := by
  have same {k : Host} (obeys : Obeys h k) : k.scheduling.alive ≤ h.scheduling.alive :=
    Bool.le_of_eq (by rw [obeys.scheduling])
  cases turned with
  | unmoved => exact threads_of_le (Obeys.refl h).launches (Bool.le_refl _)
  | ordered step =>
    have obeys := (obeys_of_order step).2
    exact threads_of_le obeys.launches (same obeys)
  | proceeds proceeds =>
    cases proceeds with
    | refused doing => exact threads_of_le (by simp [launches, doing]) (Bool.le_refl _)
    | accepted doing => exact threads_of_le (by simp [launches, doing]) (Bool.le_refl _)
    | launched doing down =>
      have spawned : launches h (h.launch name).1 = true := by simp [launches, launch, doing]
      rw [spawned, exits, down]
      rfl
    | stopped doing => exact threads_of_le (by simp [launches, doing]) (Bool.false_le _)
    | revived doing => exact threads_of_le (by simp [launches, doing]) (Bool.false_le _)
  | advances advances =>
    exact threads_of_le advances.launches (by rw [advances.alive]; exact Bool.le_true _)
  | cut _ obeys => exact threads_of_le obeys.launches (same obeys)
  | passed contained now obeys =>
    have alive : h.scheduling.alive = true := by rw [now]; rfl
    exact threads_of_le obeys.launches (by rw [alive]; exact Bool.le_true _)

theorem Turned.deactivated (turned : Turned name h t k) (off : h.deactivated = true)
    (on : k.deactivated = false) :
    t = .proceed ∧ h.controlling = .joiningToActivate ∧ h.scheduling.alive = false := by
  have never (le : h.deactivated ≤ k.deactivated) : False := by
    rw [off, on] at le
    cases le rfl
  cases turned with
  | unmoved => exact (never (Bool.le_refl _)).elim
  | ordered step => exact (never (obeys_of_order step).2.deactivated).elim
  | proceeds proceeds =>
    cases proceeds with
    | refused => exact (never (Bool.le_refl _)).elim
    | accepted => exact (never (Bool.le_refl _)).elim
    | launched =>
      exact (never (Bool.le_of_eq h.deactivated_replaceTerminated.symm)).elim
    | stopped => exact (never (Bool.le_refl _)).elim
    | revived doing down => exact ⟨rfl, doing, down⟩
  | advances advances => exact (never advances.deactivated).elim
  | cut _ obeys => exact (never obeys.deactivated).elim
  | passed contained _ obeys => exact (never obeys.deactivated).elim

structure Still (h : Host) : Prop where
  down : h.scheduling.alive = false
  stopped : h.running = false
  controlling : h.controlling = .idle ∨ h.controlling = .joiningToStop

theorem Still.idle (still : Still h) : h.scheduling ≠ .working := by
  intro now
  have down := still.down
  simp [now, Scheduling.alive] at down

theorem still_of_stops (sound : Sound k) (turned : Turned name h t k) (stops : stops h k = true) :
    Still k := by
  obtain ⟨joins, idle⟩ : h.controlling = .joiningToStop ∧ k.controlling = .idle := by
    simpa [Host.stops] using stops
  -- Whoever waits for the scheduler thread is not called off, so the order has been carried out.
  have waits {k' : Host} (obeys : Obeys h k') (idle : k'.controlling = .idle) : False := by
    have := obeys.waits (by rw [joins]; rfl)
    simp [joins, idle] at this
  cases turned with
  | unmoved => simp [joins] at idle
  | ordered step => exact (waits (obeys_of_order step).2 idle).elim
  | proceeds proceeds =>
    cases proceeds with
    | stopped => exact ⟨rfl, sound.stopped rfl, .inl rfl⟩
    | _ => simp_all
  | advances advances => simp [advances.controlling, joins] at idle
  | cut _ obeys => exact (waits obeys idle).elim
  | passed _ _ obeys => exact (waits obeys idle).elim

theorem Still.turned (still : Still h) (turned : Turned name h t k) (start : t ≠ .order .start)
    (activate : t ≠ .order .activate) : Still k := by
  obtain ⟨down, stopped, controlling⟩ := still
  cases turned with
  | unmoved => exact ⟨down, stopped, controlling⟩
  | @ordered o _ effects step =>
    obtain ⟨idle, obeys⟩ := obeys_of_order step
    refine ⟨by rw [obeys.scheduling, down], ?_, ?_⟩
    · exact Bool.le_antisymm (stopped ▸ obeys.running) (Bool.false_le _)
    · rw [Host.step, if_pos idle] at step
      obtain rfl := congrArg Prod.fst (Option.some.inj step)
      cases o with
      | start => exact absurd rfl start
      | stop => exact .inr rfl
      | deactivate => simpa [obey] using Or.inl idle
      | activate => exact absurd rfl activate
  | proceeds proceeds =>
    cases proceeds with
    | stopped => exact ⟨rfl, stopped, .inl rfl⟩
    | _ => simp_all
  | advances advances => simp [advances.alive] at down
  | cut now => simp [now, Scheduling.alive] at down
  | passed _ now => simp [now, Scheduling.alive] at down

/-- The host is deactivated, and there is no pass that it has been too late for. -/
structure Off (h : Host) : Prop where
  deactivated : h.deactivated = true
  idle : h.scheduling ≠ .working
  controlling : h.controlling ≠ .joiningToActivate

theorem Off.turned (off : Off h) (turned : Turned name h t k) (activate : t ≠ .order .activate) :
    Off k := by
  -- Only a thread that is about to activate the host could have cleared the flag.
  have deactivated : k.deactivated = true := by
    cases on : k.deactivated with
    | true => rfl
    | false => exact absurd (turned.deactivated off.deactivated on).2.1 off.controlling
  obtain ⟨disabled, idle, controlling⟩ := off
  cases turned with
  | unmoved => exact ⟨disabled, idle, controlling⟩
  | ordered step =>
    refine ⟨deactivated, by rwa [(obeys_of_order step).2.scheduling], fun joins => ?_⟩
    obtain same | same := activates_of_step step joins
    · exact controlling same
    · exact activate (by cases same; rfl)
  | proceeds proceeds =>
    cases proceeds with
    | refused => exact ⟨deactivated, idle, by simp⟩
    | accepted => exact ⟨deactivated, idle, by simp⟩
    | launched => exact ⟨deactivated, by simp [launch], by simp [launch]⟩
    | stopped => exact ⟨deactivated, by simp, by simp⟩
    | revived doing => exact absurd doing controlling
  | advances advances =>
    refine ⟨deactivated, ?_, by rwa [advances.controlling]⟩
    cases advances with
    | begun _ _ on => simp [disabled] at on
    | _ => simp
  | cut now => exact absurd now idle
  | passed _ now => exact absurd now idle

end Turns

def hostAfter (w : Worker (Hosted σ)) (rest : σ) (turns : List (Turn σ)) : Host :=
  (history w rest turns).world.host

def changes (w : Worker (Hosted σ)) (rest : σ) (p : Host → Host → Bool) (turns : List (Turn σ)) :
    Nat :=
  (List.range turns.length).countP fun n =>
    p (hostAfter w rest (turns.take n)) (hostAfter w rest (turns.take (n + 1)))

theorem changes_append_singleton (w : Worker (Hosted σ)) (rest : σ) (p : Host → Host → Bool)
    (turns : List (Turn σ)) (t : Turn σ) :
    changes w rest p (turns ++ [t]) = changes w rest p turns +
      (p (hostAfter w rest turns) (hostAfter w rest (turns ++ [t]))).toNat := by
  have before : (List.range turns.length).countP (fun n =>
        p (hostAfter w rest ((turns ++ [t]).take n))
          (hostAfter w rest ((turns ++ [t]).take (n + 1)))) =
      changes w rest p turns := by
    refine List.countP_congr fun n hn => ?_
    have hn := List.mem_range.1 hn
    rw [List.take_append_of_le_length (Nat.le_of_lt hn), List.take_append_of_le_length hn]
  have whole : (turns ++ [t]).take (turns.length + 1) = turns ++ [t] :=
    List.take_of_length_le (by simp)
  rw [changes, List.length_append, List.length_singleton, List.range_succ, List.countP_append,
    before, List.countP_singleton, whole, List.take_left']
  · cases p (hostAfter w rest turns) (hostAfter w rest (turns ++ [t])) <;> rfl
  · rfl

section History

variable {s : Settings} {o : Outside (Hosted σ)} (civil : Civil s.processorName o) (rest : σ)

include civil

theorem history_turn (turns : List (Turn σ)) (t : Turn σ) :
    ∃ ms, Follows s.processorName (history (runner s o) rest turns) t
      (history (runner s o) rest (turns ++ [t])) ms := by
  obtain ⟨r, a, -, lived, caught, -⟩ := live_spec civil turns (start s rest)
  have before : history (runner s o) rest turns = a := congrArg Prod.snd lived
  have more : history (runner s o) rest (turns ++ [t]) =
      ((live (runner s o) turns >>= fun _ => takeTurn (runner s o) t) (start s rest)).2 := by
    rw [history, live_append, live_singleton]
    rfl
  rw [more, before]
  cases r with
  | raised fault => exact absurd rfl (caught fault)
  | unfinished =>
    rw [Act.bind_unfinished lived]
    exact ⟨[], by simp, .unmoved t, by simp, by simp⟩
  | done _ =>
    rw [Act.bind_done lived]
    obtain ⟨r, b, ms, taken, ensues⟩ := turn_spec civil t a
    rw [taken]
    exact ⟨ms, ensues.toFollows⟩

/-- What each of some turns keeps up, they keep up together; where that rules out a pass, they show
nothing but records. -/
theorem history_keeps {J : Host → Prop} {p : Turn σ → Prop}
    (idle : ∀ {h}, J h → h.scheduling ≠ .working)
    (step : ∀ {h k t}, J h → p t → Turned s.processorName h t k → Sound k → J k)
    {turns more : List (Turn σ)} (first : J (hostAfter (runner s o) rest turns))
    (all : ∀ u ∈ more, p u) :
    J (hostAfter (runner s o) rest (turns ++ more)) ∧
      ∃ ms, (history (runner s o) rest (turns ++ more)).moments =
          (history (runner s o) rest turns).moments ++ ms ∧
        ∀ x ∈ ms, ∃ record, x.event = .log record := by
  induction more using List.reverseRecOn with
  | nil => exact ⟨by simpa using first, [], by simp, by simp⟩
  | append_singleton more t ih =>
    obtain ⟨those, last⟩ := List.forall_mem_append.1 all
    obtain ⟨kept, ms, moments, logs⟩ := ih those
    obtain ⟨ns, follows⟩ := history_turn civil rest (turns ++ more) t
    rw [← List.append_assoc]
    refine ⟨step kept (List.forall_mem_singleton.1 last) follows.turned
      (sound_history civil rest _), ms ++ ns, ?_, ?_⟩
    · rw [follows.moments, moments, List.append_assoc]
    · refine List.forall_mem_append.2 ⟨logs, follows.beside ?_⟩
      cases t with
      | schedule => exact decide_eq_false (idle kept)
      | _ => rfl

theorem single_thread (turns : List (Turn σ)) :
    changes (runner s o) rest launches turns = changes (runner s o) rest exits turns +
      (hostAfter (runner s o) rest turns).scheduling.alive.toNat := by
  induction turns using List.reverseRecOn with
  | nil => rfl
  | append_singleton turns t ih =>
    obtain ⟨ms, follows⟩ := history_turn civil rest turns t
    have threads := follows.turned.threads
    simp only [← hostAfter.eq_def] at threads
    rw [changes_append_singleton, changes_append_singleton]
    omega

end History

structure Lifecycle (w : Worker (Hosted σ)) (rest : σ) : Prop where
  single : ∀ turns, changes w rest launches turns =
    changes w rest exits turns + (hostAfter w rest turns).scheduling.alive.toNat
  /-- The worker is replaced only if it is terminated, and only while no scheduler thread is alive;
  the new one starts at once. In the course of a pass, the host is asked to stop at most. -/
  turned : ∀ turns t, ∃ ms, Follows w.settings.processorName (history w rest turns) t
      (history w rest (turns ++ [t])) ms ∧
    Succeeds (hostAfter w rest turns) (hostAfter w rest (turns ++ [t]))
  /-- Once the order to stop has been carried out, no scheduler thread is alive; nothing happens but
  that something is logged, until the next order to start or to activate. -/
  stopped : ∀ turns t, stops (hostAfter w rest turns) (hostAfter w rest (turns ++ [t])) = true →
    ∀ more, (∀ u ∈ more, u ≠ .order .start ∧ u ≠ .order .activate) →
      let now := hostAfter w rest (turns ++ [t] ++ more)
      now.scheduling.alive = false ∧ now.running = false ∧
        ∃ ms, (history w rest (turns ++ [t] ++ more)).moments =
            (history w rest (turns ++ [t])).moments ++ ms ∧
          ∀ x ∈ ms, ∃ record, x.event = .log record
  cleared : ∀ turns t, (hostAfter w rest turns).deactivated = true →
    (hostAfter w rest (turns ++ [t])).deactivated = false →
      t = .proceed ∧ (hostAfter w rest turns).controlling = .joiningToActivate ∧
        (hostAfter w rest turns).scheduling.alive = false
  quiet : ∀ turns, Off (hostAfter w rest turns) → ∀ more, (∀ u ∈ more, u ≠ .order .activate) →
    Off (hostAfter w rest (turns ++ more)) ∧
      ∃ ms, (history w rest (turns ++ more)).moments = (history w rest turns).moments ++ ms ∧
        ∀ x ∈ ms, ∃ record, x.event = .log record

/-- Whatever orders a host is given, from outside or from inside its passes, and whenever its
scheduler thread gets its turn: it keeps to its life cycle, and nothing but an order to activate it
can get the controlling thread to do so. -/
theorem lifecycle_kept (s : Settings) (o : Outside (Hosted σ)) (civil : Civil s.processorName o)
    (rest : σ) :
    Lifecycle (runner s o) rest ∧
      ∀ h m k effects, Host.step s.processorName h m = some (k, effects) →
        k.controlling = .joiningToActivate →
          h.controlling = .joiningToActivate ∨ m = .order .activate := by
  refine ⟨⟨single_thread civil rest, fun turns t => ?_, fun turns t stopped more all => ?_,
    fun turns t off on => ?_, fun turns off more all => ?_⟩,
    fun _ _ _ _ => activates_of_step⟩
  · obtain ⟨ms, follows⟩ := history_turn civil rest turns t
    exact ⟨ms, follows, follows.turned.succeeds⟩
  · obtain ⟨ms, follows⟩ := history_turn civil rest turns t
    have still := still_of_stops (sound_history civil rest _) follows.turned stopped
    obtain ⟨still, logs⟩ := history_keeps civil rest (J := Still)
      Still.idle (fun still u turned _ => still.turned turned u.1 u.2) still all
    exact ⟨still.down, still.stopped, logs⟩
  · obtain ⟨ms, follows⟩ := history_turn civil rest turns t
    exact follows.turned.deactivated off on
  · exact history_keeps civil rest (J := Off) (fun off => off.idle)
      (fun off activate turned _ => off.turned turned activate) off all

/-- The sender has the host stopped, and the host is started again before its scheduler thread has
ended; then it is stopped for good. -/
theorem lifecycle_kept_halting :
    let s := (Worker.plain { throttle := false } (.ok none)).settings
    let o := (Outside.plain (.ok none) []).halting s.processorName
    let turns : List (Turn (List Message)) :=
      [.order .start, .proceed, .proceed, .schedule 0, .schedule 0, .schedule 3, .order .start,
        .proceed, .proceed, .schedule 0, .schedule 0, .proceed, .order .stop, .schedule 0,
        .schedule 0, .schedule 0]
    let a := hostAfter (runner s o) [⟨"m1", ∅, .null⟩] (turns ++ [.proceed])
    Civil s.processorName o ∧ Lifecycle (runner s o) [⟨"m1", ∅, .null⟩] ∧
      changes (runner s o) [⟨"m1", ∅, .null⟩] launches (turns ++ [.proceed]) = 2 ∧
      changes (runner s o) [⟨"m1", ∅, .null⟩] exits (turns ++ [.proceed]) = 2 ∧
      a.scheduling.alive = false ∧ a.running = false := by
  intro s o turns a
  have civil : Civil s.processorName o := civil_halting _ _
  obtain ⟨lifecycle, -⟩ := lifecycle_kept s o civil [⟨"m1", ∅, .null⟩]
  have returns : stops (hostAfter (runner s o) [⟨"m1", ∅, .null⟩] turns)
      (hostAfter (runner s o) [⟨"m1", ∅, .null⟩] (turns ++ [.proceed])) = true := by decide +kernel
  obtain ⟨down, stopped, -⟩ := lifecycle.stopped turns .proceed returns [] (by simp)
  rw [List.append_nil] at down stopped
  have spawned : changes (runner s o) [⟨"m1", ∅, .null⟩] launches (turns ++ [.proceed]) = 2 := by
    decide +kernel
  have ended := lifecycle.single (turns ++ [.proceed])
  rw [spawned, down, Bool.toNat_false, Nat.add_zero] at ended
  exact ⟨civil, lifecycle, spawned, ended.symm, down, stopped⟩

end Host

end Courier
