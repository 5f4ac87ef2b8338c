import Courier.Proofs.Likeness

/-!
Two histories in which the same is done. They may differ in the words of the log, in what is shown
to the sequences, and in how a failure of the transport is reported. Whether they differ in anything
else is told from what has been done at two sites, and from the sites as they are.
-/

namespace Courier

variable {σ α β : Type}

def transportFailure? : Except Fault (Option Message) → Option String
  | .error (.delivery _ cause) => some cause
  | .ok (some response) =>
    if response.property Property.blockingSenderError = "true" then
      some (response.property Property.errorMessage)
    else none
  | _ => none

def SameReport (r r' : Except Fault (Option Message)) : Prop :=
  r = r' ∨ ∃ cause, transportFailure? r = some cause ∧ transportFailure? r' = some cause

def Event.exchange? : Event → Option (Except Fault (Option Message))
  | .sent response => some (.ok response)
  | .failed .exchange fault => some (.error fault)
  | _ => none

def Event.silent : Event → Bool
  | .log _ | .dispatching _ _ | .mediating _ _ _ | .mediated _ _ => true
  | _ => false

def Event.Akin (e e' : Event) : Prop :=
  e.unmarked = e'.unmarked ∨
    ∃ r r', e.exchange? = some r ∧ e'.exchange? = some r' ∧ SameReport r r'

def Status.asSuccess (t : Status) : Status :=
  { t with progress := { t.progress with succeeded := true } }

structure Moment.Akin (R : σ → σ → Prop) (x x' : Moment σ) : Prop where
  event : x.event.Akin x'.event
  world : R x.world x'.world
  asSuccess : x.status.asSuccess = x'.status.asSuccess
  status : x.event.acknowledges = false → x.status = x'.status

theorem Event.silent_unmarked (e : Event) : e.unmarked.silent = e.silent := by
  cases e <;> rfl

theorem Event.exchange?_closing (r : Except Fault (Option Message)) :
    (Event.closing .exchange .sent r).exchange? = some r := by
  cases r <;> rfl

theorem Event.silent_exchange (r : Except Fault (Option Message)) :
    (Event.closing .exchange .sent r).silent = false := by
  cases r <;> rfl

theorem Event.silent_fetch (r : Except Fault (Option Message)) :
    (Event.closing .fetch .received r).silent = false := by
  cases r <;> rfl

theorem Moment.Like.silent {R : σ → σ → Prop} {x x' : Moment σ} (h : x.Like R x') :
    x.event.silent = x'.event.silent := by
  rw [← x.event.silent_unmarked, ← x'.event.silent_unmarked, h.event]

theorem Moment.Like.akin {R : σ → σ → Prop} {x x' : Moment σ} (h : x.Like R x') : x.Akin R x' where
  event := .inl h.event
  world := h.world
  asSuccess := by rw [h.status]
  status _ := h.status

namespace Site

def deeds (s : Site σ) : List (Moment σ) := s.journal.filter fun x => !x.event.silent

theorem deeds_note_silent {e : Event} (h : e.silent = true) (s : Site σ) :
    (s.note e).deeds = s.deeds :=
  List.filter_cons_of_neg (by simp [h])

theorem deeds_note {e : Event} (h : e.silent = false) (s : Site σ) :
    (s.note e).deeds = s.moment e :: s.deeds :=
  List.filter_cons_of_pos (by simp [h])

theorem deeds_onto (past : List (Moment σ)) (s : Site σ) :
    (s.onto past).deeds = s.deeds ++ past.filter fun x => !x.event.silent :=
  List.filter_append ..

/-- Two sites at which the same has been done, though perhaps only one has noted a success. -/
structure Near (R : σ → σ → Prop) (s s' : Site σ) : Prop where
  world : R s.world s'.world
  asSuccess : s.status.asSuccess = s'.status.asSuccess
  counters : s.counters = s'.counters
  deeds : List.Forall₂ (Moment.Akin R) s.deeds s'.deeds

structure Akin (R : σ → σ → Prop) (s s' : Site σ) : Prop where
  world : R s.world s'.world
  status : s.status = s'.status
  counters : s.counters = s'.counters
  deeds : List.Forall₂ (Moment.Akin R) s.deeds s'.deeds

structure Still (R : σ → σ → Prop) (s t : Site σ) : Prop where
  world : R s.world t.world
  status : t.status = s.status
  counters : t.counters = s.counters
  deeds : t.deeds = s.deeds

section

variable {R : σ → σ → Prop} {s s' t t' u : Site σ}

theorem Akin.near (h : Akin R s s') : Near R s s' :=
  ⟨h.world, by rw [h.status], h.counters, h.deeds⟩

theorem Akin.fresh {v v' : σ} (h : R v v') (delayDue : Bool) :
    Akin R (Site.fresh v delayDue) (Site.fresh v' delayDue) :=
  ⟨h, rfl, rfl, .nil⟩

theorem Akin.withWorld (h : Akin R s s') {v v' : σ} (hv : R v v') :
    Akin R (s.withWorld v) (s'.withWorld v') :=
  ⟨hv, h.status, h.counters, h.deeds⟩

theorem Akin.counted (h : Akin R s s') (c : String) : Akin R (s.counted c) (s'.counted c) :=
  ⟨h.world, h.status, by rw [counters_counted, counters_counted, h.counters], h.deeds⟩

theorem Near.withWorld (h : Near R s s') {v v' : σ} (hv : R v v') :
    Near R (s.withWorld v) (s'.withWorld v') :=
  ⟨hv, h.asSuccess, h.counters, h.deeds⟩

theorem Near.withStatus (h : Near R s s') {q q' : Status}
    (hq : q.asSuccess = s.status.asSuccess) (hq' : q'.asSuccess = s'.status.asSuccess) :
    Near R (s.withStatus q) (s'.withStatus q') :=
  ⟨h.world, hq.trans (h.asSuccess.trans hq'.symm), h.counters, h.deeds⟩

theorem Near.settled (h : Near R s s') (p : Progress) :
    Akin R (s.withStatus { s.status with progress := p })
      (s'.withStatus { s'.status with progress := p }) where
  world := h.world
  status := congrArg (fun t : Status => { t with progress := p }) h.asSuccess
  counters := h.counters
  deeds := h.deeds

theorem Akin.note (h : Akin R s s') {e e' : Event} (hs : e.silent = false)
    (hs' : e'.silent = false) (he : e.Akin e') : Akin R (s.note e) (s'.note e') where
  world := h.world
  status := h.status
  counters := h.counters
  deeds := by
    rw [deeds_note hs, deeds_note hs']
    exact .cons ⟨he, h.world, h.near.asSuccess, fun _ => h.status⟩ h.deeds

theorem Near.acknowledged (h : Near R s s') (accepted : Bool) :
    Near R (s.note (.acknowledged accepted)) (s'.note (.acknowledged accepted)) where
  world := h.world
  asSuccess := h.asSuccess
  counters := h.counters
  deeds := by
    rw [deeds_note rfl, deeds_note rfl]
    exact .cons ⟨.inl rfl, h.world, h.asSuccess, fun none => by cases none⟩ h.deeds

theorem Still.refl (h : R s.world s.world) : Still R s s := ⟨h, rfl, rfl, rfl⟩

theorem Still.note (h : Still R s t) {e : Event} (silent : e.silent = true) :
    Still R s (t.note e) :=
  ⟨h.world, h.status, h.counters, (deeds_note_silent silent t).trans h.deeds⟩

theorem Still.counted (h : Still R s t) (c : String) : Still R (s.counted c) (t.counted c) :=
  ⟨h.world, h.status, by rw [counters_counted, counters_counted, h.counters], h.deeds⟩

theorem Still.trans [IsTrans σ R] (h : Still R s t) (k : Still R t u) : Still R s u where
  world := IsTrans.trans _ _ _ h.world k.world
  status := k.status.trans h.status
  counters := k.counters.trans h.counters
  deeds := k.deeds.trans h.deeds

variable [Std.Symm R] [IsTrans σ R]

theorem Still.world_congr (h : Still R s t) (h' : Still R s' t') (hs : R s.world s'.world) :
    R t.world t'.world :=
  IsTrans.trans _ _ _ (IsTrans.trans _ _ _ (Std.Symm.symm _ _ h.world) hs) h'.world

theorem Akin.still (hs : Akin R s s') (h : Still R s t) (h' : Still R s' t') : Akin R t t' where
  world := h.world_congr h' hs.world
  status := by rw [h.status, h'.status, hs.status]
  counters := by rw [h.counters, h'.counters, hs.counters]
  deeds := by rw [h.deeds, h'.deeds]; exact hs.deeds

theorem Near.still (hs : Near R s s') (h : Still R s t) (h' : Still R s' t') : Near R t t' where
  world := h.world_congr h' hs.world
  asSuccess := by rw [h.status, h'.status, hs.asSuccess]
  counters := by rw [h.counters, h'.counters, hs.counters]
  deeds := by rw [h.deeds, h'.deeds]; exact hs.deeds

theorem Near.refl_left (h : Near R s s') : R s.world s.world :=
  IsTrans.trans _ _ _ h.world (Std.Symm.symm _ _ h.world)

theorem Near.refl_right (h : Near R s s') : R s'.world s'.world :=
  IsTrans.trans _ _ _ (Std.Symm.symm _ _ h.world) h.world

end

end Site

namespace Act

structure Agrees (R : σ → σ → Prop) (p p' : Ending α × Site σ) : Prop where
  ending : p.1 = p'.1
  site : p.2.Akin R p'.2

/-- From akin sites the two actions do the same. -/
def Agree (R : σ → σ → Prop) (x x' : Act σ α) : Prop :=
  ∀ s s', s.Akin R s' → Agrees R (x s) (x' s')

def Silent (R : σ → σ → Prop) (x : Act σ α) : Prop :=
  ∀ s, R s.world s.world → ∃ a t, x s = (.done a, t) ∧ s.Still R t

section Agree

variable {R : σ → σ → Prop} {x x' : Act σ α} {f f' : α → Act σ β}

theorem Agrees.bind {s s' : Site σ} (hx : Agrees R (x s) (x' s')) (hf : ∀ a, Agree R (f a) (f' a)) :
    Agrees R ((x >>= f) s) ((x' >>= f') s') := by
  obtain ⟨ending, site⟩ := hx
  rw [bind_apply, bind_apply]
  generalize x s = p at ending site ⊢
  generalize x' s' = p' at ending site ⊢
  match p, p' with
  | (.done a, t), (.done a', t') =>
    cases ending
    exact hf a t t' site
  | (.raised fault, t), (.raised fault', t') =>
    cases ending
    exact ⟨rfl, site⟩
  | (.unfinished, t), (.unfinished, t') => exact ⟨rfl, site⟩

theorem Agree.pure (a : α) : Agree R (Pure.pure a : Act σ α) (Pure.pure a) := fun _ _ h => ⟨rfl, h⟩

theorem Agree.stall : Agree R (stall : Act σ α) stall := fun _ _ h => ⟨rfl, h⟩

theorem Agree.bind (hx : Agree R x x') (hf : ∀ a, Agree R (f a) (f' a)) :
    Agree R (x >>= f) (x' >>= f') :=
  fun s s' h => (hx s s' h).bind hf

theorem Agree.catching (hx : Agree R x x') : Agree R (catching x) (catching x') := by
  intro s s' h
  obtain ⟨ending, site⟩ := hx s s' h
  rw [catching_apply, catching_apply]
  generalize x s = p at ending site ⊢
  generalize x' s' = p' at ending site ⊢
  match p, p' with
  | (.done a, t), (.done a', t') =>
    cases ending
    exact ⟨rfl, site⟩
  | (.raised fault, t), (.raised fault', t') =>
    cases ending
    exact ⟨rfl, site⟩
  | (.unfinished, t), (.unfinished, t') => exact ⟨rfl, site⟩

theorem Agree.onlyIf (c : Prop) [Decidable c] {x x' : Act σ Unit} (hx : Agree R x x') :
    Agree R (onlyIf c x) (onlyIf c x') := by
  rw [Act.onlyIf, Act.onlyIf]
  split
  · exact hx
  · exact .pure ()

theorem Agree.status_bind {f f' : Status → Act σ β} (hf : ∀ t, Agree R (f t) (f' t)) :
    Agree R (status >>= f) (status >>= f') := by
  refine .bind (fun s s' h => ⟨congrArg Ending.done h.status, h⟩) hf

theorem Agree.silent_bind [Std.Symm R] [IsTrans σ R] (hx : Silent R x) (hx' : Silent R x')
    (hf : ∀ a a', Agree R (f a) (f' a')) : Agree R (x >>= f) (x' >>= f') := by
  intro s s' h
  obtain ⟨a, t, done, still⟩ := hx s h.near.refl_left
  obtain ⟨a', t', done', still'⟩ := hx' s' h.near.refl_right
  rw [bind_done done, bind_done done']
  exact hf a a' t t' (h.still still still')

theorem Agree.of_silent [Std.Symm R] [IsTrans σ R] {x x' : Act σ Unit} (hx : Silent R x)
    (hx' : Silent R x') : Agree R x x' := by
  rw [← bind_pure x, ← bind_pure x']
  exact silent_bind hx hx' fun _ _ => .pure ()

theorem Agree.of_respects (built : Built x) (respects : Respects R x) : Agree R x x := by
  intro s s' h
  let bare (s : Site σ) : Site σ := ⟨s.world, s.status, s.counters, []⟩
  have begun : (bare s).Like R (bare s') := ⟨h.world, h.status, h.counters, .nil⟩
  obtain ⟨ending, site⟩ := respects _ _ begun
  have parts : x s = ((x (bare s)).1, (x (bare s)).2.onto s.journal) :=
    built.onto s.journal (bare s)
  have parts' : x s' = ((x (bare s')).1, (x (bare s')).2.onto s'.journal) :=
    built.onto s'.journal (bare s')
  have shown : List.Forall₂ (Moment.Akin R) (x (bare s)).2.deeds (x (bare s')).2.deeds := by
    refine (List.rel_filter ?_ site.journal).imp fun _ _ => Moment.Like.akin
    intro y y' like
    simp only [like.silent]
  rw [parts, parts']
  refine ⟨ending, site.world, site.status, site.counters, ?_⟩
  rw [Site.deeds_onto, Site.deeds_onto]
  exact List.rel_append shown h.deeds

end Agree

end Act

end Courier
