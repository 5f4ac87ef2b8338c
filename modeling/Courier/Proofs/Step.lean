import Courier.Proofs.Journal
import Courier.Worker

namespace Courier

variable {σ α β : Type}

namespace Site

structure Spell (s s' : Site σ) (ms : List (Moment σ)) : Prop where
  moments : s'.moments = s.moments ++ ms
  rises : Rises s.status.terminated ms s'.status.terminated
  status : s'.status = { s.status with terminated := s'.status.terminated }
  counters : s'.counters = s.counters
  constant : ∀ x ∈ ms, x.status = { s.status with terminated := x.status.terminated }

namespace Spell

variable {s t u : Site σ} {ms ns : List (Moment σ)}

theorem refl (s : Site σ) : Spell s s [] :=
  ⟨by simp, .refl _, rfl, rfl, by simp⟩

theorem trans (h : Spell s t ms) (k : Spell t u ns) : Spell s u (ms ++ ns) where
  moments := by rw [k.moments, h.moments, List.append_assoc]
  rises := h.rises.trans k.rises
  status := by rw [k.status, h.status]
  counters := by rw [k.counters, h.counters]
  constant x hx := by
    rcases List.mem_append.1 hx with hx | hx
    · exact h.constant x hx
    · rw [k.constant x hx, h.status]

theorem note (h : Spell s t ms) (e : Event) : Spell s (t.note e) (ms ++ [t.moment e]) :=
  h.trans ⟨by simp, .single (t.moment e), by simp, by simp, by simp⟩

theorem withWorld (h : Spell s t ms) (v : σ) : Spell s (t.withWorld v) ms :=
  ⟨h.moments, h.rises, h.status, h.counters, h.constant⟩

theorem raise (h : Spell s t ms) :
    Spell s (t.withStatus { t.status with terminated := true }) ms where
  moments := h.moments
  rises := h.rises.raise
  status := by rw [status_withStatus, h.status]
  counters := h.counters
  constant := h.constant

theorem progress (h : Spell s t ms) : t.status.progress = s.status.progress := by
  rw [h.status]

theorem progress_mem (h : Spell s t ms) {x : Moment σ} (hx : x ∈ ms) :
    x.status.progress = s.status.progress := by
  rw [h.constant x hx]

end Spell

end Site

def Event.closing (errand : Errand) (ended : α → Event) : Except Fault α → Event
  | .ok a => ended a
  | .error fault => .failed errand fault

def toll (p : Event → Bool) (errand : Errand) : Except Fault α → Nat
  | .ok _ => 0
  | .error fault => (p (.failed errand fault)).toNat

@[simp] theorem toll_ok (p : Event → Bool) (errand : Errand) (a : α) :
    toll p errand (.ok a) = 0 := rfl

@[simp] theorem toll_error (p : Event → Bool) (errand : Errand) (fault : Fault) :
    toll p errand (.error fault : Except Fault α) = (p (.failed errand fault)).toNat := rfl

def Called (begun ended : Event) (ms : List (Moment σ)) : Prop :=
  ∃ x as y, ms = x :: (as ++ [y]) ∧ x.event = begun ∧
    (∀ z ∈ as, z.event.incidental = true) ∧ y.event = ended

theorem Called.tally_eq {begun ended : Event} {ms : List (Moment σ)} {p : Event → Bool}
    (hp : Event.Sober p) (h : Called begun ended ms) :
    tally p ms = (p begun).toNat + (p ended).toNat := by
  obtain ⟨x, as, y, rfl, rfl, ha, rfl⟩ := h
  simp [tally_incidental hp ha]

theorem Called.staged {g : Stage} {begun ended : Event} {ms : List (Moment σ)}
    (hb : begun.stage = g) (he : ended.stage = g) (h : Called begun ended ms) : Staged g ms := by
  obtain ⟨x, as, y, rfl, rfl, ha, rfl⟩ := h
  exact .cons (.inr hb) ((Staged.of_incidental ha).append (.cons (.inr he) .nil))

theorem Called.begun {begun ended : Event} {ms : List (Moment σ)} {p : Event → Bool} {t : Status}
    (hp : Event.Sober p) (he : p ended = false) (h : Called begun ended ms)
    (ht : ∀ x ∈ ms.head?, x.status = t) : ∀ x ∈ ms, p x.event = true → x.status = t := by
  obtain ⟨x, as, y, rfl, rfl, ha, rfl⟩ := h
  intro z hz hpz
  simp only [List.mem_cons, List.mem_append, List.not_mem_nil, or_false] at hz
  rcases hz with rfl | hz | rfl
  · exact ht z rfl
  · simp [hp _ (ha z hz)] at hpz
  · simp [he] at hpz

/-- How a dispatch shows in the journal: there was no sequence to run, or it ran and left the
message as `m'`, or it failed. -/
inductive Dispatched (kind : Sequence.Kind) (m : Message) :
    Except Fault Message → List (Moment σ) → Prop
  | missing {x y r} : x.event = .dispatching kind m → y.event = .log r →
      Dispatched kind m (.ok m) [x, y]
  | mediated {x ms name m'} : x.event = .dispatching kind m →
      Called (.mediating kind name m) (.mediated kind m') ms → Dispatched kind m (.ok m') (x :: ms)
  | failed {x ms name fault} : x.event = .dispatching kind m →
      Called (.mediating kind name m) (.failed (.sequence kind) fault) ms →
      Dispatched kind m (.error fault) (x :: ms)

theorem Dispatched.tally_eq {kind : Sequence.Kind} {m : Message} {r : Except Fault Message}
    {ms : List (Moment σ)} {p : Event → Bool} (hp : Event.Sober p)
    (hm : ∀ name, p (.mediating kind name m) = false) (hm' : ∀ m', p (.mediated kind m') = false)
    (h : Dispatched kind m r ms) :
    tally p ms = (p (.dispatching kind m)).toNat + toll p (.sequence kind) r := by
  cases h with
  | missing hx hy => simp [hx, hy, hp (.log _) rfl]
  | mediated hx h => simp [hx, h.tally_eq hp, hm, hm']
  | failed hx h => simp [hx, h.tally_eq hp, hm]

theorem Dispatched.sends {kind : Sequence.Kind} {m : Message} {r : Except Fault Message}
    {ms : List (Moment σ)} (h : Dispatched kind m r ms) : tally Event.sends ms = 0 := by
  rw [h.tally_eq Event.sober_sends (fun _ => rfl) fun _ => rfl]
  cases r <;> rfl

theorem Dispatched.staged {kind : Sequence.Kind} {m : Message} {r : Except Fault Message}
    {ms : List (Moment σ)} (h : Dispatched kind m r ms) : Staged (.ofKind kind) ms := by
  cases h with
  | missing hx hy =>
    refine .cons (.inr ?_) (.cons (.inl ?_) .nil)
    · rw [hx, Event.stage]
    · rw [hy, Event.stage]
  | mediated hx h =>
    refine .cons (.inr ?_) (h.staged rfl rfl)
    rw [hx, Event.stage]
  | failed hx h =>
    refine .cons (.inr ?_) (h.staged rfl rfl)
    rw [hx, Event.stage]

namespace Worker

variable (w : Worker σ)

open Site (Spell world_note)

def logged (severity : Severity) (text : String) (s : Site σ) : Site σ :=
  s.note (.log ⟨severity, "[" ++ w.outside.ownerName s.world ++ "] " ++ text⟩)

@[simp] theorem log_apply (severity : Severity) (text : String) (s : Site σ) :
    w.log severity text s = (.done (), w.logged severity text s) := rfl

@[simp] theorem status_logged (severity : Severity) (text : String) (s : Site σ) :
    (w.logged severity text s).status = s.status := rfl

@[simp] theorem world_logged (severity : Severity) (text : String) (s : Site σ) :
    (w.logged severity text s).world = s.world := rfl

@[simp] theorem counters_logged (severity : Severity) (text : String) (s : Site σ) :
    (w.logged severity text s).counters = s.counters := rfl

def halted (s : Site σ) : Site σ :=
  w.logged .debug "Successfully terminated worker"
    (((s.withStatus { s.status with terminated := true }).withWorld
      (w.outside.interrupt s.world)).note .interrupted)

@[simp] theorem terminate_apply (s : Site σ) : w.terminate s = (.done (), w.halted s) := rfl

@[simp] theorem status_halted (s : Site σ) :
    (w.halted s).status = { s.status with terminated := true } := rfl

theorem spell_halted (s : Site σ) :
    ∃ ms, Spell s (w.halted s) ms ∧
      ∀ x ∈ ms, x.event.incidental = true ∧ x.status.terminated = true :=
  ⟨_, (((Spell.refl s).raise.withWorld _).note _).note _, by simp [Event.incidental]⟩

theorem hearAll_spec (as : List Aside) (s : Site σ) :
    ∃ s' ms, w.hearAll as s = (.done (), s') ∧ Spell s s' ms ∧
      ∀ x ∈ ms, x.event.incidental = true := by
  induction as generalizing s with
  | nil => exact ⟨s, [], rfl, Spell.refl s, by simp⟩
  | cons a as ih =>
    have hear : ∃ t ms, w.hear a s = (.done (), t) ∧ Spell s t ms ∧
        ∀ x ∈ ms, x.event.incidental = true := by
      cases a with
      | terminate =>
        obtain ⟨ms, h, hms⟩ := w.spell_halted s
        exact ⟨_, ms, w.terminate_apply s, h, fun x hx => (hms x hx).1⟩
      | raise => exact ⟨_, _, rfl, (Spell.refl s).raise, by simp⟩
      | log r => exact ⟨_, _, rfl, (Spell.refl s).note _, by simp [Event.incidental]⟩
    obtain ⟨t, ms, ha, hms, hi⟩ := hear
    obtain ⟨u, ns, has, hns, hj⟩ := ih t
    refine ⟨u, ms ++ ns, ?_, hms.trans hns, ?_⟩
    · rw [hearAll, Act.bind_done ha, has]
    · intro x hx
      rcases List.mem_append.1 hx with hx | hx
      · exact hi x hx
      · exact hj x hx

theorem call_spec (c : Call σ α) (s : Site σ) :
    ∃ s' ms, w.call c s = (.ofExcept (c s.world).outcome, s') ∧ Spell s s' ms ∧
      ∀ x ∈ ms, x.event.incidental = true := by
  obtain ⟨s', ms, hear, hs, hi⟩ := w.hearAll_spec (c s.world).asides (s.withWorld (c s.world).world)
  refine ⟨s', ms, ?_, ((Spell.refl s).withWorld _).trans hs, hi⟩
  rw [call, Act.bind_done (Act.look_apply c s), take, bind_assoc,
    Act.bind_done (Act.change_withWorld _ _), bind_assoc, Act.bind_done hear, pure_bind,
    Act.ofExcept_apply]

theorem ask_spec (errand : Errand) (c : Call σ α) (s : Site σ) :
    ∃ s' ms, Spell s s' ms ∧ (∀ x ∈ ms, x.event.incidental = true) ∧
      w.ask errand c s = (.ofExcept (c s.world).outcome, match (c s.world).outcome with
        | .ok _ => s'
        | .error fault => s'.note (.failed errand fault)) := by
  obtain ⟨s', ms, call, hs, hi⟩ := w.call_spec c s
  refine ⟨s', ms, hs, hi, ?_⟩
  rw [ask]
  cases hr : (c s.world).outcome with
  | ok a =>
    rw [hr] at call
    rw [Act.bind_done (Act.catching_done call)]
    rfl
  | error fault =>
    rw [hr] at call
    rw [Act.bind_done (Act.catching_raised call)]
    rfl

theorem noted_spec (begun : Event) (errand : Errand) (c : Call σ α) (ended : α → Event)
    (s : Site σ) :
    ∃ r s' ms, (do
        Act.note begun
        let a ← w.ask errand c
        Act.note (ended a)
        return a) s = (.ofExcept r, s') ∧
      Spell s s' ms ∧ Called begun (.closing errand ended r) ms ∧
      ∀ x ∈ ms.head?, x.status = s.status := by
  obtain ⟨s', ms, hs, hi, ask⟩ := w.ask_spec errand c (s.note begun)
  rw [Act.bind_done (Act.note_apply begun s)]
  have spell : Spell s s' ([s.moment begun] ++ ms) := ((Spell.refl s).note begun).trans hs
  cases hr : (c (s.note begun).world).outcome with
  | ok a =>
    rw [hr] at ask
    refine ⟨.ok a, s'.note (ended a), _, ?_, spell.note _, ⟨_, ms, _, rfl, rfl, hi, rfl⟩,
      by simp⟩
    rw [Act.bind_done ask]
    rfl
  | error fault =>
    rw [hr] at ask
    refine ⟨.error fault, s'.note (.failed errand fault), _, ?_, spell.note _,
      ⟨_, ms, _, rfl, rfl, hi, rfl⟩, by simp⟩
    rw [Act.bind_raised ask]
    rfl

theorem createConsumer_spec (s : Site σ) :
    ∃ r s' ms, w.createConsumer s = (.ofExcept r, s') ∧ Spell s s' ms ∧
      Called .requestingConsumer (.closing .consumer .consumer r) ms ∧
      ∀ x ∈ ms.head?, x.status = s.status :=
  w.noted_spec _ _ _ _ s

theorem storeName_spec (s : Site σ) :
    ∃ r s' ms, w.storeName s = (.ofExcept r, s') ∧ Spell s s' ms ∧
      Called .namingStore (.closing .storeName .storeNamed r) ms ∧
      ∀ x ∈ ms.head?, x.status = s.status :=
  w.noted_spec _ _ _ _ s

theorem receive_spec (s : Site σ) :
    ∃ r s' ms, w.receive s = (.ofExcept r, s') ∧ Spell s s' ms ∧
      Called .receiving (.closing .fetch .received r) ms ∧
      ∀ x ∈ ms.head?, x.status = s.status :=
  w.noted_spec _ _ _ _ s

theorem clockSleep_spec (ms : Int) (s : Site σ) :
    ∃ r s' ns, w.clockSleep ms s = (.ofExcept r, s') ∧ Spell s s' ns ∧
      Called (.sleeping ms) (.closing .sleep .slept r) ns ∧ ∀ x ∈ ns.head?, x.status = s.status :=
  w.noted_spec _ _ (w.outside.sleep ms s.status.terminated) _ s

theorem deactivateOwner_spec (s : Site σ) :
    ∃ r s' ms, w.deactivateOwner s = (.ofExcept r, s') ∧ Spell s s' ms ∧
      Called .deactivating (.closing .deactivation (fun _ => .deactivated) r) ms ∧
      ∀ x ∈ ms.head?, x.status = s.status :=
  w.noted_spec _ _ _ (fun _ => .deactivated) s

theorem acknowledge_spec (id : String) (s : Site σ) :
    ∃ accepted s' x ms, w.acknowledge id s = (.done (), s') ∧ Spell s s' (x :: ms) ∧
      x.event = .acknowledged accepted ∧ (∀ y ∈ ms, y.event.incidental = true) ∧
      s'.status = s.status ∧ ∀ y ∈ x :: ms, y.status = s.status := by
  rw [acknowledge, Act.bind_done (Act.query_apply _ s), Act.bind_done (Act.note_apply _ _),
    Act.onlyIf_apply]
  split
  · exact ⟨_, _, _, _, rfl, (((Spell.refl s).withWorld _).note _).note _, rfl,
      by simp [Event.incidental], rfl, by simp⟩
  · exact ⟨_, _, _, _, rfl, ((Spell.refl s).withWorld _).note _, rfl, by simp, rfl, by simp⟩

theorem send_spec (e : Endpoint) (working : Message) (s : Site σ) :
    ∃ r left s' ms, w.send e working s = (.done (r, left), s') ∧ Spell s s' ms ∧
      Called (.sending e working) (.closing .exchange .sent r) ms ∧
      ∀ x ∈ ms.head?, x.status = s.status := by
  obtain ⟨s', ms, hs, hi, ask⟩ := w.ask_spec .exchange
    (fun _ => (w.outside.send e working s.world).toReply) (s.note (.sending e working))
  rw [send, Act.bind_done (Act.note_apply _ s), Act.bind_done (Act.look_apply _ _)]
  have spell := ((Spell.refl s).note (.sending e working)).trans hs
  cases hr : (w.outside.send e working s.world).outcome with
  | ok response =>
    rw [hr] at ask
    rw [world_note, Act.bind_done (Act.catching_done ask)]
    exact ⟨.ok response, _, _, _, rfl, spell.note _, ⟨_, ms, _, rfl, rfl, hi, rfl⟩, by simp⟩
  | error fault =>
    rw [hr] at ask
    rw [world_note, Act.bind_done (Act.catching_raised ask)]
    exact ⟨.error fault, _, _, _, rfl, spell.note _, ⟨_, ms, _, rfl, rfl, hi, rfl⟩, by simp⟩

theorem mediate_spec (kind : Sequence.Kind) (m : Message) (s : Site σ) :
    ∃ r s' ms, w.mediate kind m s = (.ofExcept r, s') ∧ Spell s s' ms ∧ Dispatched kind m r ms ∧
      ∀ x ∈ ms.getLast?, x.status = s'.status := by
  rw [mediate, dispatch, bind_assoc, Act.bind_done (Act.note_apply _ s), bind_assoc,
    Act.bind_done (Act.look_apply _ _), world_note]
  have begun := (Spell.refl s).note (.dispatching kind m)
  split
  case h_1 =>
    exact ⟨.ok m, _, _, rfl, begun.note _, .missing rfl rfl, by simp⟩
  case h_2 mediate _ =>
    let mediating := Event.mediating kind (w.settings.sequence kind) m
    obtain ⟨s', ms, hs, hi, ask⟩ := w.ask_spec (.sequence kind)
      (fun _ => (mediate m s.world).toReply) ((s.note (.dispatching kind m)).note mediating)
    have spell := (begun.note mediating).trans hs
    rw [bind_assoc, Act.bind_done (Act.note_apply _ _), bind_assoc,
      Act.bind_done (Act.look_apply _ _), bind_assoc]
    cases hr : (mediate m s.world).outcome with
    | ok u =>
      rw [hr] at ask
      simp only [world_note]
      rw [Act.bind_done (Act.catching_done ask)]
      exact ⟨.ok _, _, _, rfl, spell.note _, .mediated rfl ⟨_, ms, _, rfl, rfl, hi, rfl⟩,
        by simp [List.getLast?_cons]⟩
    | error fault =>
      rw [hr] at ask
      simp only [world_note]
      rw [Act.bind_done (Act.catching_raised ask)]
      exact ⟨.error fault, _, _, rfl, spell.note _, .failed rfl ⟨_, ms, _, rfl, rfl, hi, rfl⟩,
        by simp [List.getLast?_cons]⟩

inductive Rested (ms : Int) : List (Moment σ) → Prop
  | none : ms ≤ 0 → Rested ms []
  | slept {r ns rs} : 0 < ms → Called (.sleeping ms) (.closing .sleep .slept r) ns →
      (∀ x ∈ rs, x.event.incidental = true) → Rested ms (ns ++ rs)

theorem Rested.staged {ms : Int} {ns : List (Moment σ)} (h : Rested ms ns) : Staged .rest ns := by
  cases h with
  | none => exact .nil
  | @slept r _ _ _ h hi =>
    cases r with
    | ok _ => exact (h.staged (g := .rest) rfl rfl).append (.of_incidental hi)
    | error _ => exact (h.staged (g := .rest) rfl rfl).append (.of_incidental hi)

theorem Rested.delays_eq {ms : Int} {ns : List (Moment σ)} (h : Rested ms ns) :
    delays ns = if 0 < ms then [ms] else [] := by
  cases h with
  | none h => rw [if_neg (by omega), delays_nil]
  | @slept r _ _ h called hi =>
    obtain ⟨x, as, y, rfl, hx, ha, hy⟩ := called
    have before := delays_eq_nil (tally_incidental Event.sober_sleeps ha)
    have after := delays_eq_nil (tally_incidental Event.sober_sleeps hi)
    have last : delays [y] = [] := by
      apply delays_eq_nil
      rw [tally_cons, hy]
      cases r <;> rfl
    have first : delays [x] = [ms] := by simp [delays, hx]
    rw [if_pos h, List.cons_append, delays_cons, delays_append, delays_append, first, before, last,
      after]
    rfl

theorem sleep_spec (ms : Int) (s : Site σ) :
    ∃ r s' ns, w.sleep ms s = (.ofExcept r, s') ∧ Spell s s' ns ∧ Rested ms ns ∧
      ∀ fault, r = .error fault → ∃ x ∈ ns, x.event = .failed .sleep fault := by
  rw [sleep, Act.onlyIf_apply]
  split
  case isFalse h => exact ⟨.ok (), s, [], rfl, Spell.refl s, .none (by omega), by simp⟩
  case isTrue h =>
    obtain ⟨r, s', ns, sleep, hs, hc, -⟩ := w.clockSleep_spec ms s
    cases r with
    | error fault =>
      obtain ⟨x, as, y, rfl, hx, ha, hy⟩ := hc
      refine ⟨.error fault, s', _ ++ [], Act.bind_raised sleep _, ?_,
        .slept h ⟨x, as, y, rfl, hx, ha, hy⟩ (by simp), ?_⟩
      · simpa using hs
      · intro other h
        obtain rfl := Except.error.inj h
        exact ⟨y, by simp, hy⟩
    | ok completed =>
      rw [Act.bind_done sleep, Act.onlyIf_apply]
      split
      · exact ⟨.ok (), _, _, rfl, hs.note _, .slept h hc (by simp [Event.incidental]), by simp⟩
      · exact ⟨.ok (), s', ns ++ [], rfl, by simpa using hs, .slept h hc (by simp), by simp⟩

end Worker

end Courier
