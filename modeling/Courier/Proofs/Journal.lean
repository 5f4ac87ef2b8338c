import Courier.Proofs.Act

/-!
The journal of a worker. Every event belongs to a stage, so that events of different stages need
not be told apart one by one; and the flag of termination only ever rises.
-/

namespace Courier

variable {σ : Type}

/-- What an event belongs to. An incidental one can come about while a collaborator is busy. -/
inductive Stage
  | incidental
  | opening
  | acquisition
  | attempt
  | settlement
  | rest
  | retirement
  deriving DecidableEq

namespace Stage

def ofKind : Sequence.Kind → Stage
  | .reply | .fault => attempt
  | .deactivate => retirement

def ofErrand : Errand → Stage
  | .consumer | .storeName => acquisition
  | .fetch => opening
  | .exchange => attempt
  | .sequence kind => ofKind kind
  | .sleep => rest
  | .deactivation => retirement

end Stage

namespace Event

def incidental : Event → Bool
  | .log _ | .interrupted => true
  | _ => false

def acknowledges : Event → Bool
  | .acknowledged _ => true
  | _ => false

def sends : Event → Bool
  | .sending _ _ => true
  | _ => false

def fetches : Event → Bool
  | .receiving => true
  | _ => false

def sleeps : Event → Bool
  | .sleeping _ => true
  | _ => false

def deactivates : Event → Bool
  | .deactivated => true
  | _ => false

def brings : Event → Bool
  | .received (some _) => true
  | _ => false

def opens : Event → Bool
  | .runBegun | .ownerAsked _ | .receiving | .received _ => true
  | _ => false

def stage : Event → Stage
  | .log _ | .interrupted => .incidental
  | .runBegun | .ownerAsked _ | .receiving | .received _ => .opening
  | .requestingConsumer | .consumer _ | .namingStore | .storeNamed _ => .acquisition
  | .consumerAsked _ | .sending _ _ | .sent _ => .attempt
  | .dispatching kind _ | .mediating kind _ _ | .mediated kind _ => .ofKind kind
  | .acknowledged _ => .settlement
  | .sleeping _ | .slept _ => .rest
  | .deactivating | .deactivated | .givingUp _ => .retirement
  | .failed errand _ => .ofErrand errand

theorem stage_of_incidental {e : Event} (h : e.incidental = true) : e.stage = .incidental := by
  cases e <;> first | rfl | cases h

def Within (g : Stage) (p : Event → Bool) : Prop := ∀ e, p e = true → e.stage = g

theorem within_acknowledges : Within .settlement acknowledges := by
  intro e h
  cases e <;> first | rfl | cases h

theorem within_sends : Within .attempt sends := by
  intro e h
  cases e <;> first | rfl | cases h

theorem within_fetches : Within .opening fetches := by
  intro e h
  cases e <;> first | rfl | cases h

theorem within_sleeps : Within .rest sleeps := by
  intro e h
  cases e <;> first | rfl | cases h

theorem within_deactivates : Within .retirement deactivates := by
  intro e h
  cases e <;> first | rfl | cases h

theorem within_opens : Within .opening opens := by
  intro e h
  cases e <;> first | rfl | cases h

def Sober (p : Event → Bool) : Prop := ∀ e, e.incidental = true → p e = false

theorem Within.sober {g : Stage} {p : Event → Bool} (h : Within g p) (hg : g ≠ .incidental) :
    Sober p := by
  intro e he
  rw [← Bool.not_eq_true]
  intro hp
  exact hg ((h e hp).symm.trans (stage_of_incidental he))

theorem sober_acknowledges : Sober acknowledges := within_acknowledges.sober (by decide)

theorem sober_sends : Sober sends := within_sends.sober (by decide)

theorem sober_fetches : Sober fetches := within_fetches.sober (by decide)

theorem sober_sleeps : Sober sleeps := within_sleeps.sober (by decide)

theorem sober_deactivates : Sober deactivates := within_deactivates.sober (by decide)

end Event

def tally (p : Event → Bool) (ms : List (Moment σ)) : Nat := ms.countP fun x => p x.event

section tally

variable {p : Event → Bool} {ms ns : List (Moment σ)}

@[simp] theorem tally_nil : tally p ([] : List (Moment σ)) = 0 := rfl

@[simp] theorem tally_cons (x : Moment σ) :
    tally p (x :: ms) = (p x.event).toNat + tally p ms := by
  cases h : p x.event <;> simp [tally, h, Nat.add_comm]

@[simp] theorem tally_append : tally p (ms ++ ns) = tally p ms + tally p ns :=
  List.countP_append

theorem tally_eq_zero : tally p ms = 0 ↔ ∀ x ∈ ms, p x.event = false := by
  simp [tally, List.countP_eq_zero]

theorem tally_incidental (hp : Event.Sober p) (h : ∀ x ∈ ms, x.event.incidental = true) :
    tally p ms = 0 := by
  rw [tally_eq_zero]
  intro x hx
  exact hp _ (h x hx)

end tally

def Staged (g : Stage) (ms : List (Moment σ)) : Prop :=
  ∀ x ∈ ms, x.event.stage = .incidental ∨ x.event.stage = g

section Staged

variable {g g' : Stage} {ms ns : List (Moment σ)}

theorem Staged.nil : Staged g ([] : List (Moment σ)) := by simp [Staged]

theorem Staged.cons {x : Moment σ} (hx : x.event.stage = .incidental ∨ x.event.stage = g)
    (h : Staged g ms) : Staged g (x :: ms) := by
  simpa [Staged] using ⟨hx, h⟩

theorem Staged.append (h : Staged g ms) (k : Staged g ns) : Staged g (ms ++ ns) := by
  intro x hx
  rcases List.mem_append.1 hx with hx | hx
  · exact h x hx
  · exact k x hx

theorem Staged.of_incidental (h : ∀ x ∈ ms, x.event.incidental = true) : Staged g ms := by
  intro x hx
  exact .inl (Event.stage_of_incidental (h x hx))

theorem Staged.tally {p : Event → Bool} (h : Staged g ms) (hp : Event.Within g' p)
    (hg : g' ≠ .incidental ∧ g' ≠ g) : tally p ms = 0 := by
  rw [tally_eq_zero]
  intro x hx
  rw [← Bool.not_eq_true]
  intro he
  rcases h x hx with h | h
  · exact hg.1 (by rw [← hp _ he, h])
  · exact hg.2 (by rw [← hp _ he, h])

end Staged

def delays (ms : List (Moment σ)) : List Int :=
  ms.filterMap fun x => match x.event with
    | .sleeping d => some d
    | _ => none

section delays

variable {ms ns : List (Moment σ)}

@[simp] theorem delays_nil : delays ([] : List (Moment σ)) = [] := rfl

theorem delays_cons (x : Moment σ) : delays (x :: ms) = delays [x] ++ delays ms :=
  List.filterMap_append (l := [x])

@[simp] theorem delays_append : delays (ms ++ ns) = delays ms ++ delays ns :=
  List.filterMap_append

theorem delays_eq_nil (h : tally Event.sleeps ms = 0) : delays ms = [] := by
  rw [delays, List.filterMap_eq_nil_iff]
  intro x hx
  have := tally_eq_zero.1 h x hx
  cases hx : x.event <;> simp_all [Event.sleeps]

end delays

/-- Every one of some moments stands in a relation to those before it, `c` to begin with. -/
def Always (P : List (Moment σ) → Moment σ → Prop) (c ms : List (Moment σ)) : Prop :=
  ∀ before x after, ms = before ++ x :: after → P (c ++ before) x

section Always

variable {P : List (Moment σ) → Moment σ → Prop} {c ms ns : List (Moment σ)}

theorem Always.nil : Always P c [] := by
  intro before x after h
  simp at h

theorem Always.cons {x : Moment σ} (h : P c x) (k : Always P (c ++ [x]) ms) :
    Always P c (x :: ms) := by
  intro before y after hy
  cases before with
  | nil =>
    obtain ⟨rfl, rfl⟩ := List.cons.inj hy
    simpa using h
  | cons z before =>
    obtain ⟨rfl, rfl⟩ := List.cons.inj hy
    simpa using k before y after rfl

theorem Always.append (h : Always P c ms) (k : Always P (c ++ ms) ns) :
    Always P c (ms ++ ns) := by
  induction ms generalizing c with
  | nil => simpa using k
  | cons x ms ih =>
    have first : P c x := by simpa using h [] x ms rfl
    have rest : Always P (c ++ [x]) ms := by
      intro before y after hy
      simpa using h (x :: before) y after (by simp [hy])
    exact .cons first (ih rest (by simpa using k))

theorem Always.init {x : Moment σ} (h : Always P c (ms ++ [x])) : Always P c ms := by
  intro before y after hy
  exact h before y (after ++ [x]) (by simp [hy])

theorem Always.last {x : Moment σ} (h : Always P c (ms ++ [x])) : P (c ++ ms) x :=
  h ms x [] rfl

theorem Always.of_forall (h : ∀ before, ∀ x ∈ ms, P before x) : Always P c ms := by
  intro before x after hx
  exact h (c ++ before) x (by simp [hx])

end Always

structure Rises (a : Bool) (ms : List (Moment σ)) (b : Bool) : Prop where
  whole : a ≤ b
  first : ∀ x ∈ ms, a ≤ x.status.terminated
  last : ∀ x ∈ ms, x.status.terminated ≤ b
  between : ms.Pairwise fun x y => x.status.terminated ≤ y.status.terminated

namespace Rises

variable {a b c : Bool} {ms ns : List (Moment σ)}

theorem refl (a : Bool) : Rises a ([] : List (Moment σ)) a := by
  constructor <;> simp

theorem trans (h : Rises a ms b) (k : Rises b ns c) : Rises a (ms ++ ns) c where
  whole := Bool.le_trans h.whole k.whole
  first x hx := by
    rcases List.mem_append.1 hx with hx | hx
    · exact h.first x hx
    · exact Bool.le_trans h.whole (k.first x hx)
  last x hx := by
    rcases List.mem_append.1 hx with hx | hx
    · exact Bool.le_trans (h.last x hx) k.whole
    · exact k.last x hx
  between := by
    rw [List.pairwise_append]
    exact ⟨h.between, k.between, fun x hx y hy => Bool.le_trans (h.last x hx) (k.first y hy)⟩

theorem single (x : Moment σ) : Rises x.status.terminated [x] x.status.terminated := by
  constructor <;> simp

theorem raise (h : Rises a ms b) : Rises a ms true :=
  ⟨Bool.le_true _, h.first, fun _ _ => Bool.le_true _, h.between⟩

theorem terminated (h : Rises true ms b) :
    b = true ∧ ∀ x ∈ ms, x.status.terminated = true := by
  refine ⟨?_, fun x hx => ?_⟩
  · exact Bool.le_antisymm (Bool.le_true b) h.whole
  · exact Bool.le_antisymm (Bool.le_true _) (h.first x hx)

end Rises

end Courier
