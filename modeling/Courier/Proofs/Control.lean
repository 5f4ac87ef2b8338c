import Courier.Host

namespace Courier

namespace Scheduling

def engaged : Scheduling → Bool
  | .working | .failing | .checking | .waiting => true
  | _ => false

def looks : Scheduling → Bool
  | .entering | .deciding | .working | .waiting => true
  | _ => false

theorem alive_of_engaged {s : Scheduling} (h : s.engaged = true) : s.alive = true := by
  cases s <;> first | rfl | cases h

end Scheduling

def Controlling.joins : Controlling → Bool
  | .joiningToStart | .joiningToStop | .joiningToActivate => true
  | _ => false

def Move.schedules : Move → Bool
  | .advance | .finished _ _ => true
  | _ => false

namespace Host

variable {name : String} {h h' h'' : Host} {m : Move} {effects : List Effect}

inductive Proceeds (name : String) (h : Host) : Host → Prop
  | refused : h.controlling = .starting → h.deactivated = true →
      Proceeds name h { h with controlling := .idle }
  | accepted : h.controlling = .starting → h.deactivated = false →
      Proceeds name h { h with controlling := .joiningToStart }
  | launched : h.controlling = .joiningToStart → h.scheduling.alive = false →
      Proceeds name h (h.launch name).1
  | stopped : h.controlling = .joiningToStop → h.scheduling.alive = false →
      Proceeds name h { h with controlling := .idle, scheduling := .absent }
  | revived : h.controlling = .joiningToActivate → h.scheduling.alive = false →
      Proceeds name h (h.revive name).1

inductive Advances (name : String) (h : Host) : Host → Prop
  | entered : h.scheduling = .entering → Advances name h { h with scheduling := .deciding }
  | begun : h.scheduling = .deciding → h.running = true → h.deactivated = false →
      Advances name h { h with scheduling := .working }
  | declined : h.scheduling = .deciding → h.running = false ∨ h.deactivated = true →
      Advances name h { h with scheduling := .leaving }
  | failed : h.scheduling = .failing →
      Advances name h { (h.deactivate name).1 with scheduling := .leaving }
  | spent : h.scheduling = .checking → h.worker.terminated = true →
      Advances name h { h with scheduling := .leaving }
  | rested : h.scheduling = .checking → h.worker.terminated = false →
      Advances name h { h with scheduling := .waiting }
  | woken : h.scheduling = .waiting → Advances name h { h with scheduling := .deciding }
  | left : h.scheduling = .leaving →
      Advances name h { h with running := false, scheduling := .ended }

theorem proceeds_of_proceed (step : h.proceed name = some (h', effects)) : Proceeds name h h' := by
  unfold proceed at step
  split at step
  case h_1 => cases step
  case h_2 doing =>
    split at step
    case isTrue off =>
      cases step
      exact .refused doing off
    case isFalse off =>
      cases step
      exact .accepted doing (Bool.eq_false_iff.2 off)
  case h_3 doing =>
    split at step
    case isTrue => cases step
    case isFalse down =>
      obtain rfl := congrArg Prod.fst (Option.some.inj step)
      exact .launched doing (Bool.eq_false_iff.2 down)
  case h_4 doing =>
    split at step
    case h_1 gone =>
      cases step
      have stopped : Proceeds name h _ := .stopped doing (by rw [gone, Scheduling.alive])
      rwa [← gone] at stopped
    case h_2 gone =>
      cases step
      exact .stopped doing (by rw [gone, Scheduling.alive])
    case h_3 => cases step
  case h_5 doing =>
    split at step
    case isTrue => cases step
    case isFalse down =>
      obtain rfl := congrArg Prod.fst (Option.some.inj step)
      exact .revived doing (Bool.eq_false_iff.2 down)

theorem advances_of_advance (step : h.advance name = some (h', effects)) : Advances name h h' := by
  unfold advance at step
  split at step
  case h_1 now =>
    cases step
    exact .entered now
  case h_2 now =>
    cases step
    by_cases further : (h.running && !h.deactivated) = true
    · rw [if_pos further]
      have : h.running = true ∧ h.deactivated = false := by simpa using further
      exact .begun now this.1 this.2
    · rw [if_neg further]
      refine .declined now ?_
      cases up : h.running <;> simp_all
  case h_3 now =>
    cases step
    exact .failed now
  case h_4 now =>
    cases step
    split
    case isTrue up => exact .spent now up
    case isFalse up => exact .rested now (Bool.eq_false_iff.2 up)
  case h_5 now =>
    cases step
    exact .woken now
  case h_6 now =>
    cases step
    exact .left now
  case h_7 => cases step

theorem exists_advance (name : String) (alive : h.scheduling.alive = true)
    (idle : h.scheduling ≠ .working) : ∃ k effects, h.advance name = some (k, effects) := by
  rw [advance]
  cases now : h.scheduling with
  | absent => simp [now, Scheduling.alive] at alive
  | ended => simp [now, Scheduling.alive] at alive
  | working => exact absurd now idle
  | _ => exact ⟨_, _, rfl⟩

structure Obeys (h h' : Host) : Prop where
  scheduling : h'.scheduling = h.scheduling
  waits : h.controlling.joins = true → h'.controlling = h.controlling
  worker : h'.worker = { h.worker with terminated := h'.worker.terminated }
  terminated : h.worker.terminated ≤ h'.worker.terminated
  running : h'.running ≤ h.running
  deactivated : h.deactivated ≤ h'.deactivated
  told : h'.worker.terminated = h.worker.terminated ∧ h'.running = h.running ∧
      h'.deactivated = h.deactivated ∨
    h'.worker.terminated = true ∧ (h'.running = false ∨ h'.deactivated = true)

namespace Obeys

theorem refl (h : Host) : Obeys h h :=
  ⟨rfl, fun _ => rfl, rfl, Bool.le_refl _, Bool.le_refl _, Bool.le_refl _, .inl ⟨rfl, rfl, rfl⟩⟩

theorem trans (a : Obeys h h') (b : Obeys h' h'') : Obeys h h'' where
  scheduling := b.scheduling.trans a.scheduling
  waits joins := by
    have same := a.waits joins
    rw [b.waits (by rw [same, joins]), same]
  worker := by rw [b.worker, a.worker]
  terminated := Bool.le_trans a.terminated b.terminated
  running := Bool.le_trans b.running a.running
  deactivated := Bool.le_trans a.deactivated b.deactivated
  told := by
    obtain ⟨same, running, deactivated⟩ | told := b.told
    · rw [same, running, deactivated]
      exact a.told
    · exact .inr told

end Obeys

theorem obeys_controlling (free : h.controlling.joins = false) (c : Controlling) :
    Obeys h { h with controlling := c } :=
  ⟨rfl, fun joins => by simp [free] at joins, rfl, Bool.le_refl _, Bool.le_refl _, Bool.le_refl _,
    .inl ⟨rfl, rfl, rfl⟩⟩

theorem obeys_requestStop (h : Host) : Obeys h h.requestStop :=
  ⟨rfl, fun _ => rfl, rfl, Bool.le_true _, Bool.false_le _, Bool.le_refl _, .inr ⟨rfl, .inl rfl⟩⟩

theorem obeys_deactivate (name : String) (h : Host) : Obeys h (h.deactivate name).1 := by
  rw [deactivate]
  split
  · exact .refl h
  · exact ⟨rfl, fun _ => rfl, rfl, Bool.le_true _, Bool.le_refl _, Bool.le_true _,
      .inr ⟨rfl, .inr rfl⟩⟩

theorem obeys_obey (name : String) (free : h.controlling.joins = false) (o : Order) :
    Obeys h (h.obey name o).1 := by
  cases o with
  | start => exact obeys_controlling free _
  | stop =>
    have free : h.requestStop.controlling.joins = false := free
    exact (obeys_requestStop h).trans (obeys_controlling free _)
  | deactivate => exact obeys_deactivate name h
  | activate =>
    rw [obey]
    split
    · exact .refl h
    · exact obeys_controlling free _

theorem obeys_obeyInner (name : String) (h : Host) (o : Order) :
    Obeys h (h.obeyInner name o).2.1 := by
  cases o with
  | start =>
    rw [obeyInner]
    split
    · exact .refl h
    · split
      · exact .refl h
      · exact .refl h
  | stop => exact obeys_requestStop h
  | deactivate => exact obeys_deactivate name h
  | activate =>
    rw [obeyInner]
    split
    · exact .refl h
    · exact .refl h

theorem Proceeds.obeys (step : Proceeds name h h') (alive : h.scheduling.alive = true) :
    Obeys h h' := by
  cases step with
  | refused doing => exact obeys_controlling (by rw [doing]; rfl) _
  | accepted doing => exact obeys_controlling (by rw [doing]; rfl) _
  | launched _ down => simp [alive] at down
  | stopped _ down => simp [alive] at down
  | revived _ down => simp [alive] at down

def finish (contained : Bool) (worker : Status) (h : Host) : Host :=
  { h with
    worker := { worker with terminated := h.worker.terminated || worker.terminated }
    scheduling := if contained then .checking else .failing }

inductive Moves (name : String) (h : Host) : Host → Prop
  | obeys {k} : Obeys h k → Moves name h k
  | proceeds {k} : Proceeds name h k → Moves name h k
  | advances {k} : Advances name h k → Moves name h k
  | finished (contained : Bool) (worker : Status) : h.scheduling = .working →
      Moves name h (h.finish contained worker)

theorem stirs_of_step (step : h.step name m = some (h', effects)) (own : m.schedules = false) :
    Obeys h h' ∨ Proceeds name h h' := by
  cases m with
  | order o =>
    rw [Host.step] at step
    split at step
    case isTrue idle =>
      obtain rfl := congrArg Prod.fst (Option.some.inj step)
      exact .inl (obeys_obey name (by rw [idle]; rfl) o)
    case isFalse => cases step
  | proceed => exact .inr (proceeds_of_proceed step)
  | advance => cases own
  | finished => cases own
  | inner o =>
    rw [Host.step] at step
    split at step
    case isTrue =>
      obtain rfl := congrArg Prod.fst (Option.some.inj step)
      exact .inl (obeys_obeyInner name h o)
    case isFalse => cases step

theorem moves_of_step (step : h.step name m = some (h', effects)) : Moves name h h' := by
  cases own : m.schedules with
  | false => exact (stirs_of_step step own).elim .obeys .proceeds
  | true =>
    cases m with
    | advance => exact .advances (advances_of_advance step)
    | finished contained worker =>
      rw [Host.step] at step
      split at step
      case isTrue now =>
        cases step
        exact .finished contained worker now
      case isFalse => cases step
    | _ => cases own

inductive Stirs (name : String) (h : Host) : Host → Prop
  | refl : Stirs name h h
  | step {k l : Host} {move : Move} {fx : List Effect} : Stirs name h k → move.schedules = false →
      k.step name move = some (l, fx) → Stirs name h l

theorem Stirs.trans (a : Stirs name h h') (b : Stirs name h' h'') : Stirs name h h'' := by
  induction b with
  | refl => exact a
  | step _ own step ih => exact ih.step own step

theorem Stirs.obeys (a : Stirs name h h') (alive : h.scheduling.alive = true) : Obeys h h' := by
  induction a with
  | refl => exact .refl h
  | step _ own step ih =>
    refine ih.trans ((stirs_of_step step own).elim id fun proceeds => proceeds.obeys ?_)
    rw [ih.scheduling, alive]

inductive Bearing (h : Host) : Prop
  | terminated : h.worker.terminated = true → Bearing h
  | fresh {delayDue : Bool} : h.worker = .fresh delayDue →
      (h.scheduling.alive = true → h.running = true) → h.scheduling.engaged = false → Bearing h
  | going : h.scheduling.engaged = true ∨ h.scheduling = .deciding → h.running = true →
      h.deactivated = false → Bearing h

structure Sound (h : Host) : Prop where
  running : h.running = true → h.scheduling.alive = true
  bearing : Bearing h
  asked : h.scheduling.looks = true → h.worker.terminated = true →
    h.running = false ∨ h.deactivated = true

theorem sound_fresh (deactivatedAtStartup : Bool) : Sound (fresh deactivatedAtStartup) where
  running := by simp [fresh]
  bearing := .fresh rfl (by simp [fresh, Scheduling.alive]) rfl
  asked := by simp [fresh, Scheduling.looks]

@[simp] theorem running_replaceTerminated (h : Host) :
    h.replaceTerminated.running = h.running := by
  rw [replaceTerminated]
  split <;> rfl

@[simp] theorem deactivated_replaceTerminated (h : Host) :
    h.replaceTerminated.deactivated = h.deactivated := by
  rw [replaceTerminated]
  split <;> rfl

theorem Sound.replaced (sound : Sound h) (down : h.scheduling.alive = false) :
    ∃ delayDue, h.replaceTerminated.worker = .fresh delayDue := by
  rw [replaceTerminated]
  split
  case isTrue => exact ⟨false, rfl⟩
  case isFalse up =>
    cases sound.bearing with
    | terminated up' => exact absurd up' up
    | fresh new => exact ⟨_, new⟩
    | going now =>
      rcases now with now | now
      · simp [Scheduling.alive_of_engaged now] at down
      · simp [now, Scheduling.alive] at down

theorem Sound.stopped (sound : Sound h) (down : h.scheduling.alive = false) :
    h.running = false := by
  rw [← Bool.not_eq_true]
  intro up
  simp [sound.running up] at down

theorem Sound.obeys (sound : Sound h) (obeys : Obeys h h') : Sound h' where
  running up := by
    rw [obeys.scheduling]
    have := obeys.running
    rw [up] at this
    exact sound.running (Bool.eq_true_of_true_le this)
  bearing := by
    obtain ⟨same, running, deactivated⟩ | ⟨up, -⟩ := obeys.told
    · have worker : h'.worker = h.worker := by rw [obeys.worker, same]
      cases sound.bearing with
      | terminated up => exact .terminated (by rw [worker, up])
      | fresh new ready idle =>
        refine .fresh (by rw [worker, new]) ?_ ?_
        · rwa [obeys.scheduling, running]
        · rwa [obeys.scheduling]
      | going now up on =>
        refine .going ?_ ?_ ?_
        · rwa [obeys.scheduling]
        · rwa [running]
        · rwa [deactivated]
    · exact .terminated up
  asked looks up := by
    obtain ⟨same, running, deactivated⟩ | ⟨-, told⟩ := obeys.told
    · rw [running, deactivated]
      exact sound.asked (by rwa [← obeys.scheduling]) (by rwa [← same])
    · exact told

@[simp] theorem deactivated_deactivate (name : String) (h : Host) :
    (h.deactivate name).1.deactivated = true := by
  rw [deactivate]
  split
  case isTrue off => exact off
  case isFalse => rfl

theorem Sound.terminated_deactivate (sound : Sound h) (name : String)
    (now : h.scheduling.engaged = true) : (h.deactivate name).1.worker.terminated = true := by
  have obeys := obeys_deactivate name h
  cases (sound.obeys obeys).bearing with
  | terminated up => exact up
  | fresh _ _ idle => simp [obeys.scheduling, now] at idle
  | going _ _ on => simp at on

theorem Sound.proceeds (sound : Sound h) (step : Proceeds name h h') : Sound h' := by
  cases step with
  | refused doing => exact sound.obeys (obeys_controlling (by rw [doing]; rfl) _)
  | accepted doing => exact sound.obeys (obeys_controlling (by rw [doing]; rfl) _)
  | launched _ down =>
    obtain ⟨delayDue, new⟩ := sound.replaced down
    -- The thread is about to look, and its worker has been replaced if it was terminated.
    refine ⟨fun _ => rfl, .fresh new (fun _ => rfl) rfl, fun _ up => ?_⟩
    have : h.replaceTerminated.worker.terminated = true := up
    simp [h.terminated_replaceTerminated] at this
  | stopped _ down =>
    have still := sound.stopped down
    refine ⟨fun up => by simp [still] at up, ?_, fun looks => by cases looks⟩
    cases sound.bearing with
    | terminated up => exact .terminated up
    | fresh new => exact .fresh new (fun alive => by cases alive) rfl
    | going _ up => simp [still] at up
  | revived _ down =>
    have still := sound.stopped down
    obtain ⟨delayDue, new⟩ := sound.replaced down
    refine ⟨fun up => ?_, .fresh new (fun alive => by cases alive) rfl, fun looks => by cases looks⟩
    have : h.replaceTerminated.running = true := up
    simp [still] at this

theorem Sound.advances (sound : Sound h) (step : Advances name h h') : Sound h' := by
  cases step with
  | entered now =>
    refine ⟨fun _ => rfl, ?_, fun _ => sound.asked (by rw [now, Scheduling.looks])⟩
    cases sound.bearing with
    | terminated up => exact .terminated up
    | fresh new ready => exact .fresh new (fun _ => ready (by rw [now]; rfl)) rfl
    | going _ up on => exact .going (.inr rfl) up on
  | begun now up on =>
    exact ⟨fun _ => rfl, .going (.inl rfl) up on,
      fun _ => sound.asked (by rw [now, Scheduling.looks])⟩
  | declined now off =>
    refine ⟨fun _ => rfl, ?_, fun looks => by cases looks⟩
    cases sound.bearing with
    | terminated up => exact .terminated up
    | fresh new ready => exact .fresh new (fun _ => ready (by rw [now]; rfl)) rfl
    | going _ up on => simp [up, on] at off
  | failed now =>
    have up := sound.terminated_deactivate name (by rw [now]; rfl)
    exact ⟨fun _ => rfl, .terminated up, fun looks => by cases looks⟩
  | spent _ up => exact ⟨fun _ => rfl, .terminated up, fun looks => by cases looks⟩
  | rested now down =>
    refine ⟨fun _ => rfl, ?_, fun _ up => ?_⟩
    · cases sound.bearing with
      | terminated up => exact .terminated up
      | fresh _ _ idle => simp [now, Scheduling.engaged] at idle
      | going _ up on => exact .going (.inl rfl) up on
    · have : h.worker.terminated = true := up
      simp [down] at this
  | woken now =>
    refine ⟨fun _ => rfl, ?_, fun _ => sound.asked (by rw [now, Scheduling.looks])⟩
    cases sound.bearing with
    | terminated up => exact .terminated up
    | fresh _ _ idle => simp [now, Scheduling.engaged] at idle
    | going _ up on => exact .going (.inr rfl) up on
  | left now =>
    refine ⟨fun up => (Bool.false_ne_true up).elim, ?_, fun looks => by cases looks⟩
    cases sound.bearing with
    | terminated up => exact .terminated up
    | fresh new => exact .fresh new (fun alive => by cases alive) rfl
    | going now' => simp [now, Scheduling.engaged] at now'

theorem Sound.finished (sound : Sound h) (now : h.scheduling = .working) (contained : Bool)
    (worker : Status) : Sound (h.finish contained worker) where
  running _ := by cases contained <;> rfl
  bearing := by
    cases sound.bearing with
    | terminated up => exact .terminated (by simp [finish, up])
    | fresh _ _ idle => simp [now, Scheduling.engaged] at idle
    | going _ up on => exact .going (.inl (by cases contained <;> rfl)) up on
  asked looks := by cases contained <;> cases looks

theorem Sound.step (sound : Sound h) (step : h.step name m = some (h', effects)) : Sound h' := by
  cases moves_of_step step with
  | obeys obeys => exact sound.obeys obeys
  | proceeds proceeds => exact sound.proceeds proceeds
  | advances advances => exact sound.advances advances
  | finished contained worker now => exact sound.finished now contained worker

end Host

end Courier
