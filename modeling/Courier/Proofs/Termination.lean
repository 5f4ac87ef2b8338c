import Courier.Proofs.Acknowledgement

namespace Courier

variable {σ : Type}

def Event.starts : Event → Bool
  | .runBegun | .ownerAsked _ | .receiving => true
  | _ => false

namespace Worker

def Guarded (ms : List (Moment σ)) : Prop :=
  ∀ x ∈ ms, x.status.terminated = true → x.event.fetches = false ∧ x.event.sends = false

section

variable {w : Worker σ} {world : σ} {e : Endpoint} {stored : Message} {s s' : Site σ}
  {ms : List (Moment σ)}

theorem guarded_of_staged {g : Stage} (h : Staged g ms) (hg : g ≠ .opening ∧ g ≠ .attempt) :
    Guarded ms := by
  have fetches := tally_eq_zero.1 (h.tally Event.within_fetches ⟨by decide, hg.1.symm⟩)
  have sends := tally_eq_zero.1 (h.tally Event.within_sends ⟨by decide, hg.2.symm⟩)
  intro x hx _
  exact ⟨fetches x hx, sends x hx⟩

theorem guarded_of_idle (h : Idle ms) : Guarded ms := by
  have sends := tally_eq_zero.1 h.sends
  intro x hx up
  refine ⟨?_, sends x hx⟩
  rw [← Bool.not_eq_true]
  intro fetches
  simp [(h x hx).2 fetches] at up

theorem Tried.guarded {t : Try σ} {r : Ending Unit} (h : w.Tried e stored t s s' r) :
    Guarded t.moments := by
  obtain ⟨mid, assessed, followed⟩ := h.course
  refine List.forall_mem_append.2 ⟨fun x hx up => ?_, fun x hx _ => ?_⟩
  · have fetches := assessed.found.staged.tally Event.within_fetches (by decide)
    refine ⟨tally_eq_zero.1 fetches x hx, ?_⟩
    rw [← Bool.not_eq_true]
    intro sends
    simp [assessed.started x hx sends, h.running] at up
  · have fetches := followed.tally_eq_zero Event.within_fetches (.inl rfl)
    have sends := followed.tally_eq_zero Event.within_sends (.inr rfl)
    exact ⟨tally_eq_zero.1 fetches x hx, tally_eq_zero.1 sends x hx⟩

theorem Tries.guarded {ts : List (Try σ)} {r : Ending Unit} (h : w.Tries e stored ts s s' r) :
    Guarded (ts.flatMap Try.moments) := by
  induction h with
  | ended => simp [Guarded]
  | stalled => simp [Guarded]
  | broken h => simpa using h.guarded
  | more h _ ih => exact List.forall_mem_append.2 ⟨h.guarded, ih⟩

theorem Forwarded.guarded {r : Ending Unit} (h : w.Forwarded stored s s' ms r) : Guarded ms := by
  cases h with
  | @untargeted _ _ x xs y ys _ hx _ hxs hy hys _ _ =>
    have before : Staged .settlement (x :: xs) :=
      .of_incidental (List.forall_mem_cons.2 ⟨hx, hxs⟩)
    have after : Staged .settlement (y :: ys) :=
      .cons (.inr (by rw [hy, Event.stage])) (.of_incidental hys)
    exact guarded_of_staged (before.append after) (by decide)
  | @targeted _ _ _ _ x _ _ hx _ _ _ _ tries =>
    have first : Staged .settlement [x] := .of_incidental (by simpa using hx)
    exact List.forall_mem_append.2 ⟨guarded_of_staged first (by decide), tries.guarded⟩

theorem Cycled.guarded {r : Ending Unit} (h : w.Cycled stored s s' ms r) : Guarded ms := by
  cases h with
  | forwarded h => exact h.guarded
  | givenUp h given =>
    exact List.forall_mem_append.2 ⟨h.guarded, guarded_of_staged given.staged (by decide)⟩

theorem Reached.guarded (h : Reached w (w.fresh world) s) : Guarded s.moments := by
  induction h with
  | begun => simp [Guarded]
  | idle _ steady idle ih =>
    rw [steady.moments]
    exact List.forall_mem_append.2 ⟨ih, guarded_of_idle idle⟩
  | reset _ _ ih => exact ih
  | @cycle s t m fuel _ _ running receive ih =>
    obtain ⟨s', xs, start, ms, r, cycle, taken⟩ := w.taken_spec fuel running receive
    rw [cycle, taken.grows.moments]
    refine List.forall_mem_append.2 ⟨ih, List.forall_mem_append.2 ⟨guarded_of_idle taken.idle,
      List.forall_mem_cons.2 ⟨fun _ => ?_, taken.cycled.guarded⟩⟩⟩
    rw [taken.received]
    exact ⟨rfl, rfl⟩

theorem not_starts_of_incidental {e : Event} (h : e.incidental = true) : e.starts = false := by
  cases e <;> first | rfl | cases h

theorem not_starts_of_not_opens {e : Event} (h : e.opens = false) : e.starts = false := by
  cases e <;> first | rfl | cases h

theorem Reached.settles (h : Reached w (w.fresh world) s) {before mid after : List (Moment σ)}
    {x y : Moment σ} (hms : s.moments = before ++ x :: (mid ++ y :: after))
    (up : x.status.terminated = true) (hy : y.event.acknowledges = true) :
    ∀ z ∈ x :: mid, z.event.acknowledges = false ∧ z.event.starts = false := by
  obtain ⟨older, first, as, start, m, c, split, -, running, has, hstart, pending, -⟩ :=
    h.lawful (before ++ x :: mid) y after (by simp [hms]) hy
  rw [List.nil_append] at split
  obtain ⟨ms, grows⟩ := h.grows
  obtain rfl : ms = s.moments := by simp [grows.moments]
  have rises := grows.rises.between
  rw [hms, List.pairwise_append, List.pairwise_cons] at rises
  have later : ∀ z ∈ mid, z.status.terminated = true := by
    intro z hz
    have := rises.2.1.1 z (by simp [hz])
    rw [up] at this
    exact Bool.le_antisymm (Bool.le_true _) this
  -- the flag was down when the fetch of the message began, so `x` lies after that
  have within : ∃ bs, as ++ start :: c = bs ++ x :: mid := by
    rcases List.append_eq_append_iff.1 split with ⟨bs, -, hbs⟩ | ⟨bs, -, hbs⟩
    · have : first ∈ x :: mid := by simp [hbs]
      rcases List.mem_cons.1 this with rfl | hmid
      · simp [up] at running
      · simp [later first hmid] at running
    · cases bs with
      | nil =>
        obtain ⟨rfl, -⟩ := List.cons.inj hbs
        simp [up] at running
      | cons _ bs => exact ⟨bs, (List.cons.inj hbs).2⟩
  obtain ⟨bs, hbs⟩ := within
  intro z hz
  have : z ∈ as ++ start :: c := by
    rw [hbs]
    exact List.mem_append_right bs hz
  rcases List.mem_append.1 this with hz | hz
  · exact ⟨Event.sober_acknowledges _ (has z hz), not_starts_of_incidental (has z hz)⟩
  · rcases List.mem_cons.1 hz with rfl | hz
    · rw [hstart]
      exact ⟨rfl, rfl⟩
    · exact ⟨(pending z hz).2, not_starts_of_not_opens (pending z hz).1⟩

theorem turn_of_deactivated (begun : Int) (fuel : Nat)
    (h : w.outside.isDeactivated s.world = true) :
    ∃ s' r, w.turn begun fuel s = (.done false, s') ∧ s'.status.terminated = true ∧
      s'.moments.map Moment.event = s.moments.map Moment.event ++ [.ownerAsked true, .log r] := by
  rw [turn, Act.bind_done (Act.setProgress_apply _ s), isDeactivated, bind_assoc,
    Act.bind_done (Act.look_apply _ _), bind_assoc, Act.bind_done (Act.note_apply _ _), pure_bind,
    Site.world_withStatus, h, if_pos rfl, Act.bind_done (Act.setStatus_apply _ _),
    Act.bind_done (w.log_apply _ _ _), logged]
  refine ⟨_, ⟨.debug, "[" ++ w.outside.ownerName s.world ++ "] " ++
    "Exiting worker since the message processor is deactivated"⟩, rfl, rfl, ?_⟩
  simp [Site.moment]

/-- Termination is for good: the flag never comes down again, nothing is fetched or sent once it is
up, at most the message in hand is still acknowledged, and a turn that finds the owner inactive
does nothing but raise the flag. -/
theorem termination_final (w : Worker σ) :
    (∀ world visits more, ∃ ms,
      (w.history world (visits ++ more)).moments = (w.history world visits).moments ++ ms ∧
      Rises (w.history world visits).status.terminated ms
        (w.history world (visits ++ more)).status.terminated) ∧
    (∀ world visits, ∀ x ∈ (w.history world visits).moments, x.status.terminated = true →
      x.event.fetches = false ∧ x.event.sends = false) ∧
    (∀ world visits before mid after x y,
      (w.history world visits).moments = before ++ x :: (mid ++ y :: after) →
      x.status.terminated = true → y.event.acknowledges = true →
      ∀ z ∈ x :: mid, z.event.acknowledges = false ∧ z.event.starts = false) ∧
    ∀ begun fuel s, w.outside.isDeactivated s.world = true →
      ∃ s' r, w.turn begun fuel s = (.done false, s') ∧ s'.status.terminated = true ∧
        s'.moments.map Moment.event =
          s.moments.map Moment.event ++ [.ownerAsked true, .log r] := by
  refine ⟨fun world visits more => ?_, fun world visits => (w.reached_history world visits).guarded,
    fun world visits _ _ _ _ _ hms up hy => (w.reached_history world visits).settles hms up hy,
    fun begun fuel _ h => turn_of_deactivated begun fuel h⟩
  obtain ⟨ms, grows⟩ := (w.reached_history_append world visits more).grows
  exact ⟨ms, grows.moments, grows.rises⟩

/-- The worker is terminated while it sends, and what it has sent is acknowledged. -/
theorem termination_final_while_sending :
    ∃ before mid after x y,
      ((plain {} (.ok none) [.terminate]).history [⟨"1", ∅, .null⟩] [.run 2, .run 2]).moments =
        before ++ x :: (mid ++ y :: after) ∧
      x.status.terminated = true ∧ y.event.acknowledges = true ∧
      ∀ z ∈ x :: mid, z.event.acknowledges = false ∧ z.event.starts = false := by
  have up : (((plain {} (.ok none) [.terminate]).history [⟨"1", ∅, .null⟩]
      [.run 2, .run 2]).moments.takeWhile fun x => !x.event.acknowledges).any
        (·.status.terminated) = true := by decide
  have later : (((plain {} (.ok none) [.terminate]).history [⟨"1", ∅, .null⟩]
      [.run 2, .run 2]).moments.dropWhile fun x => !x.event.acknowledges).any
        (·.event.acknowledges) = true := by decide
  obtain ⟨x, hx, up⟩ := List.any_eq_true.1 up
  obtain ⟨y, hy, acknowledges⟩ := List.any_eq_true.1 later
  obtain ⟨before, as, hbefore⟩ := List.append_of_mem hx
  obtain ⟨bs, after, hafter⟩ := List.append_of_mem hy
  have hms := List.takeWhile_append_dropWhile (p := fun x => !x.event.acknowledges)
    (l := ((plain {} (.ok none) [.terminate]).history [⟨"1", ∅, .null⟩] [.run 2, .run 2]).moments)
  rw [hbefore, hafter] at hms
  have split := hms.symm.trans (show _ = before ++ x :: ((as ++ bs) ++ y :: after) by simp)
  exact ⟨before, as ++ bs, after, x, y, split, up, acknowledges,
    (termination_final _).2.2.1 _ _ _ _ _ _ _ split up acknowledges⟩

end

end Worker

end Courier
