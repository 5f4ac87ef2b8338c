import Courier.Proofs.Acknowledgement

namespace Courier

variable {σ : Type}

namespace Event

def givesUp : Event → Bool
  | .givingUp _ => true
  | _ => false

def retires : Event → Bool
  | .deactivating => true
  | _ => false

def sendsOff : Event → Bool
  | .dispatching .deactivate _ => true
  | _ => false

def spoils : Event → Bool
  | .failed (.sequence .deactivate) .unknown => true
  | _ => false

def strikes : Event → Bool
  | .failed .sleep _ | .failed .deactivation _ => true
  | _ => false

theorem within_givesUp : Within .retirement givesUp := by
  intro e h
  cases e <;> first | rfl | cases h

theorem within_retires : Within .retirement retires := by
  intro e h
  cases e <;> first | rfl | cases h

theorem within_sendsOff : Within .retirement sendsOff := by
  intro e h
  unfold sendsOff at h
  split at h
  · rfl
  · cases h

theorem within_spoils : Within .retirement spoils := by
  intro e h
  unfold spoils at h
  split at h
  · rfl
  · cases h

theorem spoils_failed {fault : Fault} (h : fault ≠ .unknown) :
    (failed (.sequence .deactivate) fault).spoils = false := by
  cases fault with
  | unknown => exact absurd rfl h
  | _ => rfl

end Event

def Undisturbed (ms : List (Moment σ)) : Prop := ∀ x ∈ ms, x.event.stage ≠ .retirement

def Calm (ms : List (Moment σ)) : Prop := ∀ x ∈ ms, x.event.strikes = false

structure Complete (inHand : Option Message) (ms : List (Moment σ)) : Prop where
  retires : tally Event.retires ms = 1
  deactivates : tally Event.deactivates ms = 1
  sendsOff : tally Event.sendsOff ms = inHand.isSome.toNat
  spoils : tally Event.spoils ms = 0

structure Spoiled (ms : List (Moment σ)) : Prop where
  sendsOff : tally Event.sendsOff ms = 1
  spoils : 0 < tally Event.spoils ms

/-- What a retirement comes to under a calm owner. -/
inductive Concluded (inHand : Option Message) (ms : List (Moment σ)) : Except Fault Unit → Prop
  | complete : Complete inHand ms → Concluded inHand ms (.ok ())
  | spoiled {fault} : Spoiled ms → Concluded inHand ms (.error fault)

section Retirement

variable {inHand : Option Message} {s s' : Site σ} {r : Except Fault Unit}
  {ms ns : List (Moment σ)}

theorem Undisturbed.tally {p : Event → Bool} (hp : Event.Within .retirement p)
    (h : Undisturbed ms) : tally p ms = 0 := by
  rw [tally_eq_zero]
  intro x hx
  rw [← Bool.not_eq_true]
  exact fun hpx => h x hx (hp _ hpx)

theorem Undisturbed.nil : Undisturbed ([] : List (Moment σ)) := by
  simp [Undisturbed]

theorem Undisturbed.append (h : Undisturbed ms) (k : Undisturbed ns) : Undisturbed (ms ++ ns) :=
  List.forall_mem_append.2 ⟨h, k⟩

theorem Undisturbed.cons {x : Moment σ} (hx : x.event.stage ≠ .retirement) (h : Undisturbed ms) :
    Undisturbed (x :: ms) :=
  List.forall_mem_cons.2 ⟨hx, h⟩

theorem Undisturbed.of_staged {g : Stage} (h : Staged g ms) (hg : g ≠ .retirement) :
    Undisturbed ms := by
  intro x hx
  rcases h x hx with h | h
  · simp [h]
  · rw [h]
    exact hg

theorem Undisturbed.of_incidental (h : ∀ x ∈ ms, x.event.incidental = true) : Undisturbed ms :=
  .of_staged (g := .incidental) (.of_incidental h) (by decide)

section SentOff

variable {q : Except Fault Unit}

theorem SentOff.sendsOff (h : SentOff inHand q ms) :
    tally Event.sendsOff ms = inHand.isSome.toNat := by
  rw [h.tally_eq (Event.within_sendsOff.sober (by decide)) (fun _ _ => rfl) (fun _ => rfl)
    fun _ _ => rfl]
  cases inHand <;> cases q <;> rfl

theorem SentOff.spoils (h : SentOff inHand q ms) :
    tally Event.spoils ms = toll Event.spoils (.sequence .deactivate) q := by
  rw [h.tally_eq (Event.within_spoils.sober (by decide)) (fun _ _ => rfl) (fun _ => rfl)
    fun _ => Event.spoils_failed]
  cases inHand <;> simp [Event.spoils]

theorem SentOff.retires (h : SentOff inHand q ms) : tally Event.retires ms = 0 := by
  rw [h.tally_eq (Event.within_retires.sober (by decide)) (fun _ _ => rfl) (fun _ => rfl)
    fun _ _ => rfl]
  cases inHand <;> cases q <;> rfl

theorem SentOff.givesUp (h : SentOff inHand q ms) : tally Event.givesUp ms = 0 := by
  rw [h.tally_eq (Event.within_givesUp.sober (by decide)) (fun _ _ => rfl) (fun _ => rfl)
    fun _ _ => rfl]
  cases inHand <;> cases q <;> rfl

end SentOff

theorem Retired.givesUp (h : Retired inHand s' r ms) : tally Event.givesUp ms = 0 := by
  cases h with
  | spoiled sent => exact sent.givesUp
  | gone sent called =>
    rw [tally_append, sent.givesUp, called.tally_eq (Event.within_givesUp.sober (by decide))]
    cases r <;> rfl

theorem Retired.concluded (h : Retired inHand s' r ms) (calm : Calm ms) :
    Concluded inHand ms r := by
  cases h with
  | spoiled sent =>
    have spoils := sent.spoils
    have sendsOff := sent.sendsOff
    cases sent with
    | spoiled _ => exact .spoiled ⟨sendsOff, spoils ▸ Nat.one_pos⟩
  | @gone _ ms ns sent called _ =>
    cases r with
    | error fault =>
      obtain ⟨x, as, y, rfl, -, -, hy⟩ := called
      have := calm y (by simp)
      simp [hy, Event.closing, Event.strikes] at this
    | ok _ =>
      have count {p : Event → Bool} (hp : Event.Within .retirement p) :
          tally p (ms ++ ns) = tally p ms + ((p .deactivating).toNat + (p .deactivated).toNat) := by
        rw [tally_append, called.tally_eq (hp.sober (by decide))]
        rfl
      refine .complete ⟨?_, ?_, ?_, ?_⟩
      · rw [count Event.within_retires, sent.retires]
        rfl
      · rw [count Event.within_deactivates, sent.deactivates]
        rfl
      · rw [count Event.within_sendsOff, sent.sendsOff]
        rfl
      · rw [count Event.within_spoils, sent.spoils]
        rfl

theorem Retired.terminated (h : Retired inHand s' (.ok ()) ms) : s'.status.terminated = true := by
  cases h with
  | gone _ _ up => exact up

theorem Concluded.congr (h : Concluded inHand ms r)
    (count : ∀ p, Event.Within .retirement p → (∀ fault, p (.givingUp fault) = false) →
      tally p ns = tally p ms) : Concluded inHand ns r := by
  cases h with
  | complete h =>
    refine .complete ⟨?_, ?_, ?_, ?_⟩
    · rw [count _ Event.within_retires fun _ => rfl, h.retires]
    · rw [count _ Event.within_deactivates fun _ => rfl, h.deactivates]
    · rw [count _ Event.within_sendsOff fun _ => rfl, h.sendsOff]
    · rw [count _ Event.within_spoils fun _ => rfl, h.spoils]
  | spoiled h =>
    refine .spoiled ⟨?_, ?_⟩
    · rw [count _ Event.within_sendsOff fun _ => rfl, h.sendsOff]
    · rw [count _ Event.within_spoils fun _ => rfl]
      exact h.spoils

end Retirement

namespace Worker

open Site (Spell)

section Cycles

variable {w : Worker σ} {e : Endpoint} {stored working : Message} {inHand : Option Message}
  {s s' : Site σ} {ms ns : List (Moment σ)}

theorem Exhausted.concluded {q : Except Fault Unit} (h : Exhausted working s s' q ms)
    (calm : Calm ms) : tally Event.givesUp ms = 0 ∧ Concluded (some working) ms q := by
  obtain ⟨xs, rs, ys, rfl, hx, retired, hy⟩ := h.retired
  have count {p : Event → Bool} (hp : Event.Within .retirement p) :
      tally p (xs ++ rs ++ ys) = tally p rs := by
    have sober := hp.sober (by decide)
    rw [tally_append, tally_append, tally_incidental sober hx, tally_incidental sober hy]
    omega
  have calm : Calm rs := fun x hx => calm x (by simp [hx])
  exact ⟨(count Event.within_givesUp).trans retired.givesUp,
    (retired.concluded calm).congr fun _ hp _ => count hp⟩

theorem GivenUp.concluded {fault : Fault} {r : Except Fault Unit}
    (h : GivenUp fault inHand s s' ms r) (calm : Calm ms) :
    tally Event.givesUp ms = 1 ∧ Concluded inHand ms r := by
  obtain ⟨x, y, rs, rfl, hx, hy, retired⟩ := h.retired
  have calm : Calm rs := fun x hx => calm x (by simp [hx])
  constructor
  · have quiet := Event.within_givesUp.sober (by decide) _ hy
    rw [tally_cons, tally_cons, hx, quiet, retired.givesUp]
    rfl
  · apply (retired.concluded calm).congr
    intro p hp given
    simp [hx, given, hp.sober (by decide) _ hy]

inductive Disturbance (t : Site σ) (r : Ending Unit) : List (Moment σ) → Prop
  | none {xs} : Undisturbed xs → Disturbance t r xs
  | exhausted {m a q xs ys} : Undisturbed xs → Exhausted m a t q ys →
      (∀ fault, r = .raised fault ↔ q = .error fault) → Disturbance t r (xs ++ ys)

theorem Disturbance.before {r : Ending Unit} (h : Undisturbed ms) (k : Disturbance s' r ns) :
    Disturbance s' r (ms ++ ns) := by
  cases k with
  | none k => exact .none (h.append k)
  | exhausted hx exhausted hr =>
    rw [← List.append_assoc]
    exact .exhausted (h.append hx) exhausted hr

theorem Tried.disturbance {t : Try σ} {r : Ending Unit} (tried : w.Tried e stored t s s' r) :
    Disturbance s' r t.moments := by
  obtain ⟨finding, found, aftermath⟩ := t
  obtain ⟨mid, assessed, followed⟩ := tried.course
  refine .before (.of_staged assessed.found.staged (by decide)) ?_
  cases followed with
  | delivered h => exact .none (.of_staged h.staged (by decide))
  | turnedDown h => exact .none (.of_staged h.staged (by decide))
  | broken => exact .none .nil
  | ended => exact .none .nil
  | again _ h => exact .none (.of_staged h.staged (by decide))
  | dropped _ _ _ _ h _ => exact .none (.of_staged h.staged (by decide))
  | @exhausted _ _ _ _ q _ _ _ _ h =>
    refine .exhausted .nil h fun fault => ?_
    cases q <;> simp [Ending.ofExcept]

theorem Tries.disturbance {ts : List (Try σ)} {r : Ending Unit}
    (tries : w.Tries e stored ts s s' r) : Disturbance s' r (ts.flatMap Try.moments) := by
  induction tries with
  | ended => exact .none .nil
  | stalled => exact .none .nil
  | broken tried => simpa using tried.disturbance
  | more tried tries ih =>
    rw [List.flatMap_cons]
    generalize ht : Try.moments _ = ms
    have first := ht ▸ tried.disturbance
    cases first with
    | none h => exact ih.before h
    | @exhausted _ _ q _ _ hx exhausted hq =>
      -- the attempts are used up, so there is no further pass
      obtain ⟨rfl, rfl, finished⟩ := tries.stopped (by simp [exhausted.terminated.1])
      rw [List.flatMap_nil, List.append_nil]
      refine .exhausted hx exhausted fun fault => ⟨fun hr => absurd hr (finished fault), ?_⟩
      intro broken
      cases (hq fault).2 broken

theorem Forwarded.disturbance {r : Ending Unit} (h : w.Forwarded stored s s' ms r) :
    Disturbance s' r ms := by
  cases h with
  | @untargeted _ _ x xs y ys _ hx _ hxs hy hys _ _ =>
    refine .none (.append (.of_incidental (List.forall_mem_cons.2 ⟨hx, hxs⟩)) (.cons ?_ ?_))
    · simp [hy, Event.stage]
    · exact .of_incidental hys
  | @targeted _ _ _ _ x ts _ hx _ _ _ _ tries =>
    have first : Undisturbed [x] := .of_incidental (by simpa using hx)
    exact tries.disturbance.before first

theorem Tried.pending {t : Try σ} {fault : Fault}
    (tried : w.Tried e stored t s s' (.raised fault)) : Pending t.moments := by
  obtain ⟨finding, found, aftermath⟩ := t
  obtain ⟨mid, assessed, followed⟩ := tried.course
  apply (Pending.of_staged assessed.found.staged (by decide)).append
  generalize hr : Ending.raised fault = r at followed
  cases followed with
  | delivered => cases hr
  | turnedDown => cases hr
  | broken => simp [Pending]
  | ended => cases hr
  | again _ h => exact .of_staged h.staged (by decide)
  | dropped => cases hr
  | exhausted _ _ _ _ h => exact .of_staged h.staged (by decide)

theorem Tries.pending {ts : List (Try σ)} {r : Ending Unit} {fault : Fault}
    (tries : w.Tries e stored ts s s' r) (hr : r = .raised fault) :
    Pending (ts.flatMap Try.moments) := by
  induction tries with
  | ended => cases hr
  | stalled => cases hr
  | broken tried => simpa using tried.pending
  | @more t ts _ _ _ _ tried tries ih =>
    cases ts with
    | nil =>
      subst hr
      cases tries
    | cons _ _ =>
      obtain ⟨retried, -⟩ := tries.retried (by simp) tried
      exact retried.pending.append (ih hr)

theorem Forwarded.pending {fault : Fault} (h : w.Forwarded stored s s' ms (.raised fault)) :
    Pending ms := by
  cases h with
  | @targeted _ _ _ _ x _ _ hx _ _ _ _ tries =>
    have first : Pending [x] := .of_staged (g := .incidental) (.of_incidental (by simpa using hx))
      (by decide)
    exact first.append (tries.pending rfl)

end Cycles

end Worker

end Courier
