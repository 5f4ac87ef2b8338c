import Courier.Worker.Act

namespace Courier

variable {σ α β : Type}

namespace Site

def moments (s : Site σ) : List (Moment σ) := s.journal.reverse

def moment (s : Site σ) (e : Event) : Moment σ := ⟨e, s.status, s.world⟩

def withWorld (v : σ) (s : Site σ) : Site σ := { s with world := v }

def withStatus (t : Status) (s : Site σ) : Site σ := { s with status := t }

def counted (counter : String) (s : Site σ) : Site σ :=
  { s with counters := s.counters.count counter }

@[simp] theorem event_moment (s : Site σ) (e : Event) : (s.moment e).event = e := rfl

@[simp] theorem status_moment (s : Site σ) (e : Event) : (s.moment e).status = s.status := rfl

@[simp] theorem world_moment (s : Site σ) (e : Event) : (s.moment e).world = s.world := rfl

@[simp] theorem moments_fresh (v : σ) (delayDue : Bool) : (fresh v delayDue).moments = [] := rfl

@[simp] theorem moments_note (e : Event) (s : Site σ) :
    (s.note e).moments = s.moments ++ [s.moment e] := by
  simp [moments, note, moment]

@[simp] theorem status_note (e : Event) (s : Site σ) : (s.note e).status = s.status := rfl

@[simp] theorem world_note (e : Event) (s : Site σ) : (s.note e).world = s.world := rfl

@[simp] theorem counters_note (e : Event) (s : Site σ) : (s.note e).counters = s.counters := rfl

@[simp] theorem moments_withWorld (v : σ) (s : Site σ) : (s.withWorld v).moments = s.moments := rfl

@[simp] theorem status_withWorld (v : σ) (s : Site σ) : (s.withWorld v).status = s.status := rfl

@[simp] theorem world_withWorld (v : σ) (s : Site σ) : (s.withWorld v).world = v := rfl

@[simp] theorem counters_withWorld (v : σ) (s : Site σ) :
    (s.withWorld v).counters = s.counters := rfl

@[simp] theorem moments_withStatus (t : Status) (s : Site σ) :
    (s.withStatus t).moments = s.moments := rfl

@[simp] theorem status_withStatus (t : Status) (s : Site σ) : (s.withStatus t).status = t := rfl

@[simp] theorem world_withStatus (t : Status) (s : Site σ) : (s.withStatus t).world = s.world := rfl

@[simp] theorem counters_withStatus (t : Status) (s : Site σ) :
    (s.withStatus t).counters = s.counters := rfl

@[simp] theorem moments_counted (c : String) (s : Site σ) : (s.counted c).moments = s.moments := rfl

@[simp] theorem status_counted (c : String) (s : Site σ) : (s.counted c).status = s.status := rfl

@[simp] theorem world_counted (c : String) (s : Site σ) : (s.counted c).world = s.world := rfl

@[simp] theorem counters_counted (c : String) (s : Site σ) :
    (s.counted c).counters = s.counters.count c := rfl

end Site

def Ending.ofExcept : Except Fault α → Ending α
  | .ok a => .done a
  | .error fault => .raised fault

def Ending.finished : Ending α → Bool
  | .unfinished => false
  | _ => true

theorem Ending.ne_unfinished {e : Ending α} (h : e.finished = true) : e ≠ .unfinished := by
  rintro rfl
  cases h

namespace Act

@[simp] theorem note_apply (e : Event) (s : Site σ) : note e s = (.done (), s.note e) := rfl

@[simp] theorem record_apply (severity : Severity) (text : String) (s : Site σ) :
    record severity text s = (.done (), s.note (.log ⟨severity, text⟩)) := rfl

@[simp] theorem look_apply (f : σ → α) (s : Site σ) : look f s = (.done (f s.world), s) := rfl

@[simp] theorem status_apply (s : Site σ) : status s = (.done s.status, s) := rfl

@[simp] theorem setStatus_apply (f : Status → Status) (s : Site σ) :
    setStatus f s = (.done (), s.withStatus (f s.status)) := rfl

@[simp] theorem setProgress_apply (p : Progress) (s : Site σ) :
    setProgress p s = (.done (), s.withStatus { s.status with progress := p }) := rfl

@[simp] theorem count_apply (c : String) (s : Site σ) : count c s = (.done (), s.counted c) := rfl

@[simp] theorem query_apply (q : σ → α × σ) (s : Site σ) :
    query q s = (.done (q s.world).1, s.withWorld (q s.world).2) := rfl

@[simp] theorem change_world (f : σ → σ) (s : Site σ) :
    change (fun s => { s with world := f s.world }) s = (.done (), s.withWorld (f s.world)) := rfl

@[simp] theorem change_withWorld (v : σ) (s : Site σ) :
    change (fun s => { s with world := v }) s = (.done (), s.withWorld v) := rfl

@[simp] theorem raise_apply (fault : Fault) (s : Site σ) :
    (raise fault : Act σ α) s = (.raised fault, s) := rfl

@[simp] theorem stall_apply (s : Site σ) : (stall : Act σ α) s = (.unfinished, s) := rfl

@[simp] theorem ofExcept_apply (r : Except Fault α) (s : Site σ) :
    (ofExcept r : Act σ α) s = (.ofExcept r, s) := by
  cases r <;> rfl

theorem onlyIf_apply (c : Prop) [Decidable c] (x : Act σ Unit) (s : Site σ) :
    onlyIf c x s = if c then x s else (.done (), s) := by
  by_cases h : c <;> simp [onlyIf, h, pure]

theorem bind_done {x : Act σ α} {s s' : Site σ} {a : α} (h : x s = (.done a, s'))
    (f : α → Act σ β) : (x >>= f) s = f a s' := by
  rw [bind_apply, h]

theorem bind_raised {x : Act σ α} {s s' : Site σ} {fault : Fault} (h : x s = (.raised fault, s'))
    (f : α → Act σ β) : (x >>= f) s = (.raised fault, s') := by
  rw [bind_apply, h]

theorem bind_unfinished {x : Act σ α} {s s' : Site σ} (h : x s = (.unfinished, s'))
    (f : α → Act σ β) : (x >>= f) s = (.unfinished, s') := by
  rw [bind_apply, h]

theorem catching_apply (x : Act σ α) (s : Site σ) :
    catching x s = match x s with
      | (.done a, s) => (.done (.ok a), s)
      | (.raised fault, s) => (.done (.error fault), s)
      | (.unfinished, s) => (.unfinished, s) := rfl

theorem catching_done {x : Act σ α} {s s' : Site σ} {a : α} (h : x s = (.done a, s')) :
    catching x s = (.done (.ok a), s') := by
  rw [catching_apply, h]

theorem catching_raised {x : Act σ α} {s s' : Site σ} {fault : Fault}
    (h : x s = (.raised fault, s')) : catching x s = (.done (.error fault), s') := by
  rw [catching_apply, h]

theorem catching_unfinished {x : Act σ α} {s s' : Site σ} (h : x s = (.unfinished, s')) :
    catching x s = (.unfinished, s') := by
  rw [catching_apply, h]

theorem catching_site (x : Act σ α) (s : Site σ) : (catching x s).2 = (x s).2 := by
  rw [catching_apply]
  rcases x s with ⟨_ | _ | _, s'⟩ <;> rfl

theorem of_bind_done {x : Act σ α} {f : α → Act σ β} {s t : Site σ} {b : β}
    (h : (x >>= f) s = (.done b, t)) : ∃ a u, x s = (.done a, u) ∧ f a u = (.done b, t) := by
  rw [bind_apply] at h
  match hs : x s with
  | (.done a, u) => exact ⟨a, u, rfl, by simpa [hs] using h⟩
  | (.raised fault, u) => simp [hs] at h
  | (.unfinished, u) => simp [hs] at h

theorem finished_of_bind {x : Act σ α} {f : α → Act σ β} {s : Site σ}
    (h : ((x >>= f) s).1 ≠ .unfinished) : (x s).1 ≠ .unfinished := by
  intro unfinished
  rw [bind_unfinished (Prod.ext unfinished rfl : x s = (.unfinished, (x s).2))] at h
  exact h rfl

theorem of_catching_ok {x : Act σ α} {s t : Site σ} {a : α}
    (h : catching x s = (.done (.ok a), t)) : x s = (.done a, t) := by
  rw [catching_apply] at h
  match hs : x s with
  | (.done a, u) => simpa [hs] using h
  | (.raised fault, u) => simp [hs] at h
  | (.unfinished, u) => simp [hs] at h

def Keeps (I : Site σ → Prop) (x : Act σ α) : Prop := ∀ s, I s → I (x s).2

section Keeps

variable {I : Site σ → Prop}

theorem Keeps.pure (a : α) : Keeps I (Pure.pure a : Act σ α) := fun _ h => h

theorem Keeps.raise (fault : Fault) : Keeps I (raise fault : Act σ α) := fun _ h => h

theorem Keeps.stall : Keeps I (stall : Act σ α) := fun _ h => h

theorem Keeps.look (f : σ → α) : Keeps I (look f) := fun _ h => h

theorem Keeps.status : Keeps I status := fun _ h => h

theorem Keeps.ofExcept (r : Except Fault α) : Keeps I (ofExcept r : Act σ α) := by
  intro s h
  simpa using h

theorem Keeps.after {x : Act σ α} {f : α → Act σ β} {s : Site σ} (hx : I (x s).2)
    (hf : ∀ a, Keeps I (f a)) : I ((x >>= f) s).2 := by
  rw [bind_apply]
  match hs : x s with
  | (.done a, s') => exact hf a s' (by simpa [hs] using hx)
  | (.raised fault, s') => simpa [hs] using hx
  | (.unfinished, s') => simpa [hs] using hx

theorem Keeps.bind {x : Act σ α} {f : α → Act σ β} (hx : Keeps I x) (hf : ∀ a, Keeps I (f a)) :
    Keeps I (x >>= f) :=
  fun s h => Keeps.after (hx s h) hf

theorem Keeps.onlyIf (c : Prop) [Decidable c] {x : Act σ Unit} (hx : Keeps I x) :
    Keeps I (onlyIf c x) := by
  intro s h
  by_cases hc : c
  · simpa [onlyIf_apply, hc] using hx s h
  · simpa [onlyIf_apply, hc] using h

theorem Keeps.forM {ι : Type} (l : List ι) {f : ι → Act σ Unit} (hf : ∀ i, Keeps I (f i)) :
    Keeps I (l.forM f) := by
  induction l with
  | nil => exact .pure ()
  | cons i l ih => exact (hf i).bind fun _ => ih

theorem Keeps.catching {x : Act σ α} (hx : Keeps I x) : Keeps I (catching x) := by
  intro s h
  have := hx s h
  rw [catching_apply]
  match hs : x s with
  | (.done a, s') => simpa [hs] using this
  | (.raised fault, s') => simpa [hs] using this
  | (.unfinished, s') => simpa [hs] using this

end Keeps

def Carries (I : Bool → Site σ → Prop) (x : Act σ α) : Prop :=
  ∀ s, I true s → I (x s).1.finished (x s).2

section Carries

variable {I : Bool → Site σ → Prop}

theorem Carries.of_keeps {x : Act σ α} (cut : ∀ s, I true s → I false s) (h : Keeps (I true) x) :
    Carries I x := by
  intro s hs
  cases (x s).1.finished with
  | true => exact h s hs
  | false => exact cut _ (h s hs)

theorem Carries.pure (a : α) : Carries I (Pure.pure a : Act σ α) := fun _ h => h

theorem Carries.after {x : Act σ α} {f : α → Act σ β} {s : Site σ} (hx : I (x s).1.finished (x s).2)
    (hf : ∀ a, Carries I (f a)) : I ((x >>= f) s).1.finished ((x >>= f) s).2 := by
  rw [bind_apply]
  generalize x s = p at hx ⊢
  match p with
  | (.done a, s') => exact hf a s' hx
  | (.raised fault, s') => exact hx
  | (.unfinished, s') => exact hx

theorem Carries.bind {x : Act σ α} {f : α → Act σ β} (hx : Carries I x)
    (hf : ∀ a, Carries I (f a)) : Carries I (x >>= f) :=
  fun s h => Carries.after (hx s h) hf

theorem Carries.onlyIf (c : Prop) [Decidable c] {x : Act σ Unit} (hx : Carries I x) :
    Carries I (onlyIf c x) := by
  intro s h
  by_cases hc : c
  · simpa [onlyIf_apply, hc] using hx s h
  · rw [onlyIf_apply, if_neg hc]
    exact h

theorem Carries.catching {x : Act σ α} (hx : Carries I x) : Carries I (catching x) := by
  intro s h
  have := hx s h
  rw [catching_apply]
  generalize x s = p at this ⊢
  match p with
  | (.done a, s') => exact this
  | (.raised fault, s') => exact this
  | (.unfinished, s') => exact this

end Carries

/-- From a site with `P` the action comes to a result, and of the result and the site it leaves `Q`
holds. -/
def Attains (P : Site σ → Prop) (x : Act σ α) (Q : α → Site σ → Prop) : Prop :=
  ∀ s, P s → ∃ a t, x s = (.done a, t) ∧ Q a t

section Attains

variable {P : Site σ → Prop} {Q : α → Site σ → Prop}

theorem Attains.pure {a : α} (h : ∀ s, P s → Q a s) : Attains P (Pure.pure a) Q :=
  fun s hs => ⟨a, s, rfl, h s hs⟩

theorem Attains.bind {x : Act σ α} {f : α → Act σ β} {R : β → Site σ → Prop} (hx : Attains P x Q)
    (hf : ∀ a, Attains (Q a) (f a) R) : Attains P (x >>= f) R := by
  intro s hs
  obtain ⟨a, t, first, ha⟩ := hx s hs
  rw [bind_done first]
  exact hf a t ha

theorem Attains.onlyIf (c : Prop) [Decidable c] {x : Act σ Unit} (hx : Attains P x fun _ => P) :
    Attains P (onlyIf c x) fun _ => P := by
  rw [Act.onlyIf]
  split
  · exact hx
  · exact .pure fun _ hs => hs

theorem Attains.catching {x : Act σ α} (hx : Attains P x Q) :
    Attains P (catching x) fun r s => ∃ a, r = .ok a ∧ Q a s := by
  intro s hs
  obtain ⟨a, t, first, ha⟩ := hx s hs
  exact ⟨.ok a, t, catching_done first, a, rfl, ha⟩

theorem Attains.of_fact {φ : Prop} {x : Act σ α} (h : φ → Attains P x Q) :
    Attains (fun s => φ ∧ P s) x Q :=
  fun s hs => h hs.1 s hs.2

theorem Attains.mono {x : Act σ α} {Q' : α → Site σ → Prop} (hx : Attains P x Q)
    (h : ∀ a s, Q a s → Q' a s) : Attains P x Q' := by
  intro s hs
  obtain ⟨a, t, first, ha⟩ := hx s hs
  exact ⟨a, t, first, h a t ha⟩

end Attains

end Act

end Courier
