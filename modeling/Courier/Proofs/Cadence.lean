import Courier.Clock
import Courier.Proofs.Pacing

namespace Courier

variable {σ : Type}

def fetchTimes (now : σ → Int) (ms : List (Moment σ)) : List Int :=
  (ms.filter fun x => x.event.fetches).map fun x => now x.world

def Spaced (now : σ → Int) (p : Int) (ms : List (Moment σ)) : Prop :=
  ms.Pairwise fun x y =>
    x.event.ofFetch = true → y.event.fetches = true → now x.world + p ≤ now y.world

namespace Spaced

variable {now : σ → Int} {p : Int} {ms ns : List (Moment σ)}

theorem of_fetchless (h : tally Event.fetches ms = 0) : Spaced now p ms := by
  rw [tally_eq_zero] at h
  induction ms with
  | nil => exact .nil
  | cons x ms ih =>
    rw [List.forall_mem_cons] at h
    refine List.pairwise_cons.2 ⟨fun y hy _ fetches => ?_, ih h.2⟩
    simp [h.2 y hy] at fetches

theorem append (h : Spaced now p ms) (k : Spaced now p ns)
    (across : ∀ x ∈ ms, x.event.ofFetch = true → ∀ y ∈ ns, y.event.fetches = true →
      now x.world + p ≤ now y.world) : Spaced now p (ms ++ ns) :=
  List.pairwise_append.2 ⟨h, k, fun x hx y hy begun fetches => across x hx begun y hy fetches⟩

theorem append_fetchless (h : Spaced now p ms) (k : tally Event.fetches ns = 0) :
    Spaced now p (ms ++ ns) := by
  refine h.append (.of_fetchless k) fun x hx _ y hy fetches => ?_
  simp [tally_eq_zero.1 k y hy] at fetches

end Spaced

namespace Worker

variable {w : Worker σ}

section Worked

variable {s t : Site σ} {ms : List (Moment σ)} {r : Ending Bool}

theorem Worked.fetch_world (h : w.Worked s t ms r) :
    ∀ y ∈ ms, y.event.fetches = true → y.world = s.world := by
  intro y hy fetches
  cases h with
  | barred quiet _ =>
    simp [tally_eq_zero.1 (tally_fetches_of_ofFetch quiet) y hy] at fetches
  | @fetched asked start rest _ shown hasked hstart world quiet _ _ =>
    subst shown
    rcases List.mem_cons.1 hy with rfl | hy
    · simp [Event.ofFetch_of_fetches fetches] at hasked
    · rcases List.mem_cons.1 hy with rfl | hy
      · exact world
      · simp [tally_eq_zero.1 quiet y hy] at fetches

theorem Worked.spaced (h : w.Worked s t ms r) (now : σ → Int) (p : Int) : Spaced now p ms := by
  cases h with
  | barred quiet _ => exact .of_fetchless (tally_fetches_of_ofFetch quiet)
  | @fetched asked start rest _ shown hasked hstart world quiet _ _ =>
    subst shown
    refine List.pairwise_cons.2 ⟨fun y _ begun => ?_, ?_⟩
    · simp [hasked] at begun
    · have single : Spaced now p [start] := List.pairwise_singleton ..
      exact single.append_fetchless quiet

end Worked

def Cadenced (o : Outside σ) (p : Int) (past : List (Moment σ)) (s : Site σ) : Prop :=
  ∃ ms, s.moments = past ++ ms ∧ (tally Event.wakes ms = 0 → Spaced o.now p ms)

def Due (o : Outside σ) (p : Int) (past : List (Moment σ)) (s : Site σ) : Prop :=
  ∃ ms, s.moments = past ++ ms ∧ (tally Event.wakes ms = 0 → Spaced o.now p ms ∧
    ∀ x ∈ ms, x.event.ofFetch = true → o.now x.world + p ≤ o.now s.world)

section

variable {o : Outside σ} {p : Int} {past : List (Moment σ)} {s t : Site σ} {ns : List (Moment σ)}

theorem Due.cadenced (h : Due o p past s) : Cadenced o p past s := by
  obtain ⟨ms, moments, due⟩ := h
  exact ⟨ms, moments, fun restful => (due restful).1⟩

theorem Cadenced.shown (h : Cadenced o p past s) (moments : t.moments = s.moments ++ ns)
    (quiet : tally Event.fetches ns = 0) : Cadenced o p past t := by
  obtain ⟨ms, before, spaced⟩ := h
  refine ⟨ms ++ ns, by rw [moments, before, List.append_assoc], fun restful => ?_⟩
  rw [tally_append] at restful
  exact (spaced (by omega)).append_fetchless quiet

theorem Due.begin (moments : s.moments = past ++ ns) (quiet : tally Event.ofFetch ns = 0) :
    Due o p past s := by
  refine ⟨ns, moments, fun _ => ⟨.of_fetchless (tally_fetches_of_ofFetch quiet), ?_⟩⟩
  intro x hx begun
  simp [tally_eq_zero.1 quiet x hx] at begun

end

section Cadence

variable (timely : w.outside.Timely) (throttle : w.settings.throttle = true)
  (timed : w.settings.cronMode = false) (pos : 0 < w.settings.pollIntervalMs)
  (short : w.settings.pollIntervalMs < pacingLimitMs) {past : List (Moment σ)} {s : Site σ}

include timely throttle timed pos short

theorem cadence_turn (begun : Int) (fuel : Nat)
    (due : Due w.outside w.settings.pollIntervalMs past s) :
    Proceeds (Due w.outside w.settings.pollIntervalMs past)
      (fun _ => Cadenced w.outside w.settings.pollIntervalMs past) (w.turn begun fuel s) := by
  obtain ⟨r, t, ns, work, shown, worked⟩ := w.work_spec fuel s
  obtain ⟨forward, between⟩ := between_of_composed timely (w.composed_work fuel)
    (show (w.work fuel s).2.moments = s.moments ++ ns by rw [work, shown])
  simp only [work] at forward between
  obtain ⟨ms, before, due⟩ := due
  have moments : t.moments = past ++ (ms ++ ns) := by rw [shown, before, List.append_assoc]
  have spaced (restful : tally Event.wakes (ms ++ ns) = 0) :
      Spaced w.outside.now w.settings.pollIntervalMs (ms ++ ns) := by
    rw [tally_append] at restful
    obtain ⟨spaced, far⟩ := due (by omega)
    refine spaced.append (worked.spaced _ _) fun x hx begun y hy fetches => ?_
    rw [worked.fetch_world y hy fetches]
    exact far x hx begun
  have cadenced : Cadenced w.outside w.settings.pollIntervalMs past t := ⟨_, moments, spaced⟩
  refine turn_rule (fun work' => ?_) fun work' stops => ?_
  · obtain ⟨rfl, rfl⟩ := Prod.mk.inj (work.symm.trans work')
    obtain ⟨ks, waited, quiet⟩ := shown_of_omits (w.composed_pace begun)
      (w.omits_pace Event.within_ofFetch rfl begun) t
    refine .of_always (cadenced.shown waited (tally_fetches_of_ofFetch quiet)) fun more => ?_
    obtain ⟨u, pace⟩ : ∃ u, w.pace begun t = (.done true, u) := ⟨_, Prod.ext more rfl⟩
    rw [pace] at waited ⊢
    change Due w.outside w.settings.pollIntervalMs past u
    obtain ⟨-, running⟩ := pace_within throttle pace
    obtain ⟨sleep, -⟩ := sleep_of_pace throttle timed short running pace
    refine ⟨ms ++ ns ++ ks, by rw [waited, moments, List.append_assoc], fun restful => ?_⟩
    rw [tally_append, tally_append] at restful
    have lasts := sleep_lasts timely pos sleep waited (by omega)
    refine ⟨(spaced (by rw [tally_append]; omega)).append_fetchless
      (tally_fetches_of_ofFetch quiet), fun x hx begun => ?_⟩
    rcases List.mem_append.1 hx with hx | hx
    · rcases List.mem_append.1 hx with hx | hx
      · have far := (due (by omega)).2 x hx begun
        omega
      · have past := (between x hx).2
        omega
    · simp [tally_eq_zero.1 quiet x hx] at begun
  · obtain ⟨rfl, rfl⟩ := Prod.mk.inj (work.symm.trans work')
    exact .of_always cadenced fun more => absurd more stops

theorem cadence_run (fuel : Nat) :
    Cadenced w.outside w.settings.pollIntervalMs s.moments (w.run fuel s).2 :=
  run_rule_of_fetches fuel .begin (cadence_turn timely throttle timed pos short _)
    Due.cadenced fun cadenced moments quiet =>
      cadenced.shown moments (tally_fetches_of_ofFetch quiet)

end Cadence

end Worker

/-! ## A world that is nothing but a clock -/

/-- A store that has nothing to give, and takes some time to say so. Apart from that only sleeps
take time. -/
def Outside.ticking (fetchMs : Int) : Outside Int where
  ownerName _ := "owner"
  isDeactivated _ := false
  deactivate c := ⟨.ok (), c, []⟩
  storeName c := ⟨.ok "store", c, []⟩
  createConsumer c := ⟨.ok true, c, []⟩
  receive c := ⟨.ok none, c + fetchMs, []⟩
  acknowledge c := (false, c)
  isAlive _ := true
  endpoints _ := ∅
  send _ m c := ⟨⟨.ok none, c, []⟩, m⟩
  sequence? _ _ := none
  now c := c
  sleep ms up c :=
    let (completed, c) := Clock.sleep (Clock.measured none) ms up c
    ⟨.ok completed, c, []⟩
  interrupt c := c

theorem Outside.timely_ticking {fetchMs : Int} (h : 0 ≤ fetchMs) : (ticking fetchMs).Timely where
  moves hv := by
    cases hv with
    | receive v => exact Int.le_add_of_nonneg_right h
    | sleep ms up v =>
      simp only [ticking, Clock.sleep, Clock.measured]
      split
      · exact Int.le_refl _
      · split
        · exact Int.le_refl _
        · exact Int.le_add_of_nonneg_right (by omega)
    | mediate m registered => cases registered
    | _ => exact Int.le_refl _
  acknowledge _ := Int.le_refl _
  sleep ms up v complete := by
    simp only [ticking, Clock.sleep, Clock.measured] at complete ⊢
    split
    case isTrue cancelled => simp [cancelled] at complete
    case isFalse =>
      split
      · exact Int.add_le_of_le_sub_left (by omega)
      · exact Int.le_refl _

namespace Worker

section Ticking

variable {s : Settings}

def ticked (fetchMs : Int) (t : Site Int) : Site Int :=
  ((((t.withStatus { t.status with progress := .fresh }).note (.ownerAsked false)).note
    .receiving).withWorld (t.world + fetchMs)).note (.received none) |>.note
      (.log ⟨.debug, "[" ++ "owner" ++ "] " ++ "No messages were received"⟩)

theorem work_ticking (fetchMs : Int) (fuel : Nat) (t : Site Int) :
    (⟨s, .ticking fetchMs⟩ : Worker Int).work fuel t = (.done (!s.cronMode), ticked fetchMs t) :=
  rfl

theorem turn_ticking (throttle : s.throttle = true) (timed : s.cronMode = false)
    (long : ¬s.pollIntervalMs < pacingLimitMs) (fetchMs begun : Int) (fuel : Nat) {t : Site Int}
    (running : t.status.terminated = false) (within : t.world + fetchMs ≤ begun + sliceMs) :
    (⟨s, .ticking fetchMs⟩ : Worker Int).turn begun fuel t = (.done true, ticked fetchMs t) := by
  have paced := pace_unwaited (w := ⟨s, .ticking fetchMs⟩) throttle timed long begun
    (s := ticked fetchMs t) running
  have more : decide (t.world + fetchMs - begun ≤ sliceMs) = true := decide_eq_true (by omega)
  rw [turn_eq, Act.bind_done (work_ticking fetchMs fuel t), timed]
  exact paced.trans (congrArg (fun more => (Ending.done more, ticked fetchMs t)) more)

theorem run_ticking (throttle : s.throttle = true) (timed : s.cronMode = false)
    (long : ¬s.pollIntervalMs < pacingLimitMs) {t : Site Int} (ready : t.status.Ready)
    (running : t.status.terminated = false) :
    ((⟨s, .ticking 400⟩ : Worker Int).run 2 t).2 =
      ticked 400 (ticked 400 (t.note .runBegun)) := by
  have first := turn_ticking throttle timed long 400 t.world 1 (t := t.note .runBegun) running
    (show t.world + 400 ≤ t.world + 1000 by omega)
  have second := turn_ticking throttle timed long 400 t.world 0
    (t := ticked 400 (t.note .runBegun)) running
    (show t.world + 400 + 400 ≤ t.world + 1000 by omega)
  have turns : (⟨s, .ticking 400⟩ : Worker Int).turns t.world 2 (t.note .runBegun) =
      (.unfinished, ticked 400 (ticked 400 (t.note .runBegun))) := by
    refine (turns_succ (s := t.note .runBegun) running first).trans ?_
    exact turns_succ (s := ticked 400 (t.note .runBegun)) running second
  rw [run_ready ready, forwardAll]
  exact congrArg Prod.snd (Act.bind_unfinished turns _)

end Ticking

/-- A throttled worker lets its poll interval go by between two fetches of a run, whatever it runs
against, just where it waits through the interval by itself. -/
theorem fetches_spaced_iff {s : Settings} (throttle : s.throttle = true)
    (timed : s.cronMode = false) (pos : 0 < s.pollIntervalMs) :
    (∀ (σ : Type) (o : Outside σ), o.Timely → ∀ (fuel : Nat) (t : Site σ) (ms : List (Moment σ)),
      ((Worker.mk s o).run fuel t).2.moments = t.moments ++ ms → tally Event.wakes ms = 0 →
        Spaced o.now s.pollIntervalMs ms) ↔ s.pollIntervalMs < pacingLimitMs := by
  constructor
  · intro spaced
    refine Decidable.by_contra fun long => ?_
    have shown := run_ticking throttle timed long
      (t := ⟨0, ⟨.fresh, false, true, false⟩, ∅, []⟩) ⟨rfl, rfl⟩ rfl
    have close := spaced Int (.ticking 400) (Outside.timely_ticking (by decide)) 2 _ _
      (by rw [shown]; rfl) rfl
    simp [Spaced, Event.ofFetch, Event.fetches, ticked] at close
    omega
  · intro short σ o timely fuel t ms moments restful
    obtain ⟨ms', moments', spaced⟩ := cadence_run (w := ⟨s, o⟩) timely throttle timed pos short
      (s := t) fuel
    obtain rfl := List.append_cancel_left (moments.symm.trans moments')
    exact spaced restful

theorem fetches_spaced_400 :
    let s : Settings := { processorName := "p", pollIntervalMs := 400 }
    let w : Worker Int := ⟨s, .ticking 0⟩
    s.complaints = [] ∧ s.throttle = true ∧ s.cronMode = false ∧ 0 < s.pollIntervalMs ∧
      fetchTimes w.outside.now (w.run 4 (w.fresh 0)).2.moments = [0, 400, 800] ∧
      Spaced w.outside.now s.pollIntervalMs (w.run 4 (w.fresh 0)).2.moments := by
  intro s w
  have restful : tally Event.wakes (w.run 4 (w.fresh 0)).2.moments = 0 := by decide +kernel
  refine ⟨by decide, rfl, rfl, by decide, by decide +kernel, ?_⟩
  refine (fetches_spaced_iff (s := s) rfl rfl (by decide)).2 (by decide) Int w.outside
    (Outside.timely_ticking (by decide)) 4 (w.fresh 0) _ ?_ restful
  rw [moments_fresh, List.nil_append]

/-- With the interval that is set where nothing is said, an empty store is asked again at once. -/
theorem refetches_by_default :
    let s : Settings := { processorName := "p" }
    let w : Worker Int := ⟨s, .ticking 400⟩
    s.complaints = [] ∧ s.throttle = true ∧ s.cronMode = false ∧ 0 < s.pollIntervalMs ∧
      w.outside.Timely ∧ tally Event.wakes (w.run 4 (w.fresh 0)).2.moments = 0 ∧
      fetchTimes w.outside.now (w.run 4 (w.fresh 0)).2.moments = [0, 400, 800] ∧
      ¬Spaced w.outside.now s.pollIntervalMs (w.run 4 (w.fresh 0)).2.moments := by
  refine ⟨by decide, rfl, rfl, by decide, Outside.timely_ticking (by decide), by decide +kernel,
    by decide +kernel, ?_⟩
  rw [Spaced]
  decide +kernel

end Worker

end Courier
