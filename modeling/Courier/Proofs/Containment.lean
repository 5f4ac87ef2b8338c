import Courier.Proofs.GivingUp
import Courier.Proofs.Tenure

namespace Courier

variable {σ α β : Type}

namespace Worker

def Lost (ms : List (Moment σ)) : Prop :=
  ∃ older start c, ms = older ++ start :: c ∧ start.event.opens = true ∧ Pending c ∧
    tally Event.givesUp older = 0

section

variable {w : Worker σ} {stored : Message} {s s' : Site σ} {ms ns : List (Moment σ)}
  {r : Ending Unit}

theorem Lost.before (h : tally Event.givesUp ms = 0) (lost : Lost ns) : Lost (ms ++ ns) := by
  obtain ⟨older, start, c, rfl, opens, pending, quiet⟩ := lost
  exact ⟨ms ++ older, start, c, by simp, opens, pending, by rw [tally_append, h, quiet]⟩

theorem Lost.after (lost : Lost ms) (h : Pending ns) : Lost (ms ++ ns) := by
  obtain ⟨older, start, c, rfl, opens, pending, quiet⟩ := lost
  exact ⟨older, start, c ++ ns, by simp, opens, pending.append h, quiet⟩

theorem Forwarded.givesUp (h : w.Forwarded stored s s' ms r) : tally Event.givesUp ms = 0 := by
  cases h.disturbance with
  | none undisturbed => exact undisturbed.tally Event.within_givesUp
  | exhausted undisturbed exhausted =>
    obtain ⟨xs, rs, ys, rfl, hx, retired, hy⟩ := exhausted.retired
    have sober := Event.within_givesUp.sober (by decide)
    simp [undisturbed.tally Event.within_givesUp, retired.givesUp, tally_incidental sober hx,
      tally_incidental sober hy]

end

end Worker

namespace Host

open Site (Spell Grows)
open Worker (Lost Pending)

variable {s : Settings} {o : Outside (Hosted σ)} {a b t : Site (Hosted σ)}

/-- How a worker gives up in the run of a host: its owner is deactivated unless the failure gets
out. What does not give up ends as it likes; what has given up ends with `idle`. -/
inductive Fate (idle : α) (b : Site (Hosted σ)) (ms : List (Moment (Hosted σ))) (r : Ending α) :
    Prop
  | quiet : tally Event.givesUp ms = 0 → Fate idle b ms r
  | lost : Lost ms → r ≠ .unfinished → (∀ x, r = .done x → x = idle ∧
      b.status.terminated = true ∧ b.world.host.deactivated = true) → Fate idle b ms r

def Meets (idle : α) (a : Site (Hosted σ)) (y : Ending α × Site (Hosted σ)) : Prop :=
  ∃ ms, Grows a y.2 ms ∧ Fate idle y.2 ms y.1

structure Pursues (idle : α) (idle' : β) (x : α) (a : Site (Hosted σ))
    (y : Ending β × Site (Hosted σ)) (ns : List (Moment (Hosted σ))) : Prop where
  grows : Grows a y.2 ns
  deactivated : a.world.host.deactivated ≤ y.2.world.host.deactivated
  terminated : a.status.terminated = true → x = idle →
    (∀ z ∈ ns, z.event.incidental = true) ∧ y.1 = .done idle'
  further : Fate idle' y.2 ns y.1

section Fate

variable {idle : α} {idle' : β} {y : Ending α × Site (Hosted σ)} {ms ns : List (Moment (Hosted σ))}
  {r : Ending α}

theorem Fate.before (h : tally Event.givesUp ms = 0) (k : Fate idle b ns r) :
    Fate idle b (ms ++ ns) r := by
  cases k with
  | quiet quiet => exact .quiet (by rw [tally_append, h, quiet])
  | lost lost ended out => exact .lost (lost.before h) ended out

theorem Meets.of_undisturbed (grows : Grows a y.2 ms) (h : Undisturbed ms) : Meets idle a y :=
  ⟨ms, grows, .quiet (h.tally Event.within_givesUp)⟩

theorem Meets.before (grows : Grows a t ms) (h : tally Event.givesUp ms = 0)
    (k : Meets idle t y) : Meets idle a y := by
  obtain ⟨ns, hns, fate⟩ := k
  exact ⟨ms ++ ns, grows.trans hns, fate.before h⟩

theorem Meets.bind {x : Act (Hosted σ) α} {f : α → Act (Hosted σ) β} (h : Meets idle a (x t))
    (k : ∀ i, ∃ ns, Pursues idle idle' i (x t).2 (f i (x t).2) ns) :
    Meets idle' a ((x >>= f) t) := by
  obtain ⟨ms, grows, fate⟩ := h
  match hx : x t with
  | (.raised fault, u) =>
    rw [Act.bind_raised hx]
    simp only [hx] at grows fate
    cases fate with
    | quiet quiet => exact ⟨ms, grows, .quiet quiet⟩
    | lost lost => exact ⟨ms, grows, .lost lost (by simp) (by simp)⟩
  | (.unfinished, u) =>
    rw [Act.bind_unfinished hx]
    simp only [hx] at grows fate
    cases fate with
    | quiet quiet => exact ⟨ms, grows, .quiet quiet⟩
    | lost _ ended => exact absurd rfl ended
  | (.done i, u) =>
    rw [Act.bind_done hx]
    simp only [hx] at grows fate k
    obtain ⟨ns, next⟩ := k i
    refine ⟨ms ++ ns, grows.trans next.grows, ?_⟩
    cases fate with
    | quiet quiet => exact next.further.before quiet
    | lost lost ended out =>
      -- The worker is terminated by now: what follows is incidental, and comes to `idle'`.
      obtain ⟨rfl, up, off⟩ := out i rfl
      obtain ⟨incidental, done⟩ := next.terminated up rfl
      have quiet : Pending ns := .of_staged (g := .incidental) (.of_incidental incidental)
        (by decide)
      have whole := next.grows.rises.whole
      have deactivated := next.deactivated
      rw [up] at whole
      rw [off] at deactivated
      refine .lost (lost.after quiet) (by simp [done]) fun x hx => ⟨?_, ?_, ?_⟩
      · rw [done] at hx
        exact (Ending.done.inj hx).symm
      · exact Bool.eq_true_of_true_le whole
      · exact Bool.eq_true_of_true_le deactivated

end Fate

section Runs

variable (civil : Civil s.processorName o)

include civil

theorem working_composed {x : Act (Hosted σ) α} (composed : (runner s o).Composed x)
    (now : a.world.host.scheduling = .working) : (x a).2.world.host.scheduling = .working := by
  rw [(obeys_composed civil composed now).1.scheduling, now]

theorem deactivated_of_deactivateOwner (now : a.world.host.scheduling = .working) :
    ((runner s o).deactivateOwner a).2.world.host.deactivated = true := by
  let reply := (runner s o).outside.deactivate a.world
  have asked : (runner s o).deactivateOwner a = (.ofExcept reply.outcome,
      (runner s o).answered .deactivation (fun _ => .deactivated) reply (a.note .deactivating)) :=
    (runner s o).noted_apply _ _ _ (fun _ => .deactivated) a
  have off : reply.world.host.deactivated = true := by
    change (a.world.host.deactivate s.processorName).1.deactivated = true
    rw [deactivate]
    split
    case isTrue off => exact off
    case isFalse => rfl
  have alive : reply.world.host.scheduling.alive = true := by
    have obeys : Obeys a.world.host reply.world.host := obeys_deactivate s.processorName _
    rw [obeys.scheduling, now]
    rfl
  -- The asides come after that, and find the host deactivated.
  have kept := (unmoved_obeys civil alive _).patient.hearAll reply.asides
    ((a.note .deactivating).withWorld reply.world) (.begin (.refl _))
  have whole := kept.1.deactivated
  rw [off] at whole
  rw [asked, Worker.answered, Site.world_note, Worker.heard]
  exact Bool.eq_true_of_true_le whole

theorem deactivated_of_retire {inHand : Option Message} (now : a.world.host.scheduling = .working)
    (done : (runner s o).retire inHand a = (.done (), b)) : b.world.host.deactivated = true := by
  have composed : (runner s o).Composed (inHand.forM (runner s o).sendOff) := by
    cases inHand with
    | none => exact .pure _
    | some m => exact (runner s o).composed_sendOff m
  have still := working_composed civil composed now
  obtain ⟨_, t, sent, done⟩ := Act.of_bind_done done
  rw [Act.bind_done (Act.setStatus_apply _ t)] at done
  obtain ⟨_, u, asked, done⟩ := Act.of_bind_done done
  rw [sent] at still
  have off := deactivated_of_deactivateOwner civil
    (a := t.withStatus { t.status with terminated := true }) still
  rw [asked] at off
  rw [Act.count_apply] at done
  obtain ⟨-, rfl⟩ := Prod.mk.inj done
  exact off

theorem meets_giveUp {known : String → String} {unknown : String} {fault : Fault}
    {inHand : Option Message} (now : t.world.host.scheduling = .working)
    {older c : List (Moment (Hosted σ))} {start : Moment (Hosted σ)}
    (grows : Grows a t (older ++ start :: c)) (opens : start.event.opens = true)
    (pending : Pending c) (quiet : tally Event.givesUp older = 0) :
    Meets () a ((runner s o).giveUp known unknown fault inHand t) := by
  obtain ⟨b, ms, r, giveUp, given⟩ := (runner s o).giveUp_spec known unknown fault inHand t
  rw [giveUp]
  refine ⟨_, grows.trans given.toGrows, .lost ?_ (by cases r <;> simp [Ending.ofExcept]) ?_⟩
  · exact Lost.after ⟨older, start, c, rfl, opens, pending, quiet⟩
      (.of_staged given.staged (by decide))
  · intro _ done
    cases r with
    | error _ => cases done
    | ok _ =>
      rw [Worker.giveUp, Act.bind_done (Act.note_apply _ t),
        Act.bind_done ((runner s o).log_apply _ _ _)] at giveUp
      exact ⟨rfl, given.terminated, deactivated_of_retire civil (by exact now) giveUp⟩

theorem meets_cycle {m : Message} {ms : List (Moment (Hosted σ))} (fuel : Nat)
    (now : t.world.host.scheduling = .working) (spell : Spell a t ms)
    (called : Called .receiving (.received (some m)) ms) :
    Meets () a ((runner s o).cycle m fuel t) := by
  have grows := (spell.grows (called.tally_eq Event.sober_deactivates)).counted
    (c := Worker.Counter.fetched) (by decide)
  have quiet : tally Event.givesUp ms = 0 :=
    called.tally_eq (Event.within_givesUp.sober (by decide))
  have composed := (runner s o).composed_forward (Worker.unmarked m) fuel
  have still := working_composed civil composed (a := t.counted Worker.Counter.fetched) now
  obtain ⟨u, ns, r, forward, forwarded⟩ := (runner s o).forward_spec (Worker.unmarked m) fuel
    (t.counted Worker.Counter.fetched)
  rw [forward] at still
  rw [Worker.cycle, Act.bind_done (Act.count_apply _ t)]
  cases r with
  | done _ =>
    rw [Act.bind_done (Act.catching_done forward)]
    exact .before grows quiet ⟨ns, forwarded.grows, .quiet forwarded.givesUp⟩
  | unfinished =>
    rw [Act.bind_unfinished (Act.catching_unfinished forward)]
    exact .before grows quiet ⟨ns, forwarded.grows, .quiet forwarded.givesUp⟩
  | raised fault =>
    rw [Act.bind_done (Act.catching_raised forward)]
    obtain ⟨x, as, y, rfl, hx, has, hy⟩ := called
    have moments : x :: (as ++ [y]) ++ ns = (x :: as) ++ y :: ns := by simp
    refine meets_giveUp civil still (moments ▸ grows.trans forwarded.grows)
      (by rw [hy, Event.opens]) forwarded.pending ?_
    rw [tally_cons, hx, tally_incidental (Event.within_givesUp.sober (by decide)) has]
    rfl

theorem meets_fetch {fault : Fault} {ms : List (Moment (Hosted σ))}
    (now : t.world.host.scheduling = .working) (spell : Spell a t ms)
    (called : Called .receiving (.failed .fetch fault) ms) :
    Meets () a ((runner s o).giveUpForwarding fault none t) := by
  have quiet := called.tally_eq Event.sober_deactivates
  obtain ⟨x, as, y, rfl, hx, has, hy⟩ := called
  have incidental : Pending as := .of_staged (g := .incidental) (.of_incidental has) (by decide)
  have grows : Grows a t ([] ++ x :: (as ++ [y])) := spell.grows quiet
  refine meets_giveUp civil now grows (by rw [hx, Event.opens]) (incidental.append ?_) rfl
  simp [Worker.Pending, hy, Event.opens, Event.acknowledges]

theorem Meets.paced {x : Act (Hosted σ) Unit} (composed : (runner s o).Composed x)
    (now : t.world.host.scheduling = .working) (begun : Int) (h : Meets () a (x t)) :
    Meets false a ((x >>= fun _ => (runner s o).pace begun) t) := by
  apply h.bind
  intro _
  have still := working_composed civil composed now
  have deactivated := (obeys_composed civil ((runner s o).composed_pace begun) still).1.deactivated
  obtain ⟨r, u, ns, pace, grows, staged, ended, -⟩ := (runner s o).pace_spec begun (x t).2
  rw [pace] at deactivated ⊢
  refine ⟨ns, grows, deactivated, fun up _ => ?_, .quiet (staged.tally Event.within_givesUp ?_)⟩
  · obtain ⟨rfl, rfl⟩ := ended up
    simp [Ending.ofExcept]
  · decide

theorem meets_turn (begun : Int) (fuel : Nat) (now : a.world.host.scheduling = .working) :
    Meets false a ((runner s o).turn begun fuel a) := by
  rw [Worker.turn, Act.bind_done (Act.setProgress_apply _ a), Worker.isDeactivated, bind_assoc,
    Act.bind_done (Act.look_apply _ _), bind_assoc, Act.bind_done (Act.note_apply _ _), pure_bind]
  generalize (runner s o).outside.isDeactivated _ = asked
  have begins := ((Grows.refl a).withProgress .fresh).note (.ownerAsked asked) rfl
  have still : (Site.note (.ownerAsked asked)
      (a.withStatus { a.status with progress := .fresh })).world.host.scheduling = .working := now
  generalize Site.note (.ownerAsked asked) _ = u at begins still
  refine .before begins rfl ?_
  split
  case isTrue =>
    rw [Act.bind_done (Act.setStatus_apply _ u), Act.bind_done ((runner s o).log_apply _ _ _)]
    exact .of_undisturbed (((Spell.refl u).raise.note _).grows rfl)
      (by simp [Undisturbed, Event.stage])
  case isFalse =>
    obtain ⟨r, v, ms, receive, hv, called, -⟩ := (runner s o).receive_spec u
    have unmoved := unmoved_obeys civil (h := u.world.host) (by rw [still]; rfl) u.moments
    have obeys : Obeys u.world.host v.world.host := by
      have := (unmoved.receive u (.begin (.refl _))).1
      rwa [receive] at this
    have still : v.world.host.scheduling = .working := by rw [obeys.scheduling, still]
    cases r with
    | error fault =>
      rw [Act.bind_done (Act.catching_raised receive)]
      exact (meets_fetch civil still hv called).paced civil ((runner s o).composed_giveUp _ _ _ _)
        still begun
    | ok received =>
      rw [Act.bind_done (Act.catching_done receive)]
      cases received with
      | some m =>
        exact (meets_cycle civil fuel still hv called).paced civil
          ((runner s o).composed_cycle m fuel) still begun
      | none =>
        have undisturbed : Undisturbed ms :=
          .of_staged (g := .opening) (called.staged rfl rfl) (by decide)
        refine .before (hv.grows (called.tally_eq Event.sober_deactivates))
          (undisturbed.tally Event.within_givesUp) ?_
        obtain ⟨x, told, hx, -⟩ := (runner s o).steady_logged (.refl v) .debug
          "No messages were received"
        change Meets false v (((runner s o).log .debug "No messages were received" >>= fun _ =>
          if (runner s o).settings.cronMode then pure false else (runner s o).pace begun) v)
        rw [Act.bind_done ((runner s o).log_apply _ _ v)]
        have first : Undisturbed ([] ++ [x]) := .of_incidental (by simpa using hx)
        refine .before told.toGrows (first.tally Event.within_givesUp) ?_
        split
        · exact .of_undisturbed (.refl _) .nil
        · obtain ⟨q, v', ns, pace, grows, staged, -, -⟩ := (runner s o).pace_spec begun _
          rw [pace]
          exact .of_undisturbed grows (.of_staged staged (by decide))

theorem meets_turns (begun : Int) (fuel : Nat) (now : a.world.host.scheduling = .working) :
    Meets () a ((runner s o).turns begun fuel a) := by
  induction fuel generalizing a with
  | zero => exact .of_undisturbed (.refl a) .nil
  | succ fuel ih =>
    rw [Worker.turns, Act.bind_done (Act.status_apply a), Act.onlyIf_apply]
    split
    case isFalse => exact .of_undisturbed (.refl a) .nil
    case isTrue =>
      apply (meets_turn civil begun fuel now).bind
      intro more
      have still := working_composed civil ((runner s o).composed_turn begun fuel) now
      generalize ((runner s o).turn begun fuel a).2 = u at still
      cases more with
      | false => exact ⟨[], .refl u, Bool.le_refl _, fun _ _ => ⟨by simp, rfl⟩, .quiet rfl⟩
      | true =>
        rw [Act.onlyIf_apply, if_pos rfl]
        have obeys := (obeys_composed civil ((runner s o).composed_turns begun fuel) still).1
        obtain ⟨ns, grows, fate⟩ := ih still
        exact ⟨ns, grows, obeys.deactivated, fun _ h => absurd h (by simp), fate⟩

theorem meets_forwardAll (begun : Int) (fuel : Nat) (now : a.world.host.scheduling = .working) :
    Meets () a ((runner s o).forwardAll begun fuel a) := by
  apply (meets_turns civil begun fuel now).bind
  intro _
  generalize ((runner s o).turns begun fuel a).2 = u
  exact ⟨_, (Grows.refl u).note _ rfl, Bool.le_refl _,
    fun _ _ => ⟨by simp [Event.incidental], rfl⟩, .quiet (by simp [Event.givesUp])⟩

theorem meets_run (fuel : Nat) (now : a.world.host.scheduling = .working) :
    Meets () a ((runner s o).run fuel a) := by
  rw [Worker.run, Act.bind_done (Act.note_apply _ a), Act.bind_done (Act.look_apply _ _),
    Act.bind_done (Act.status_apply _)]
  have begins := (Grows.refl a).note .runBegun rfl
  have composed : (runner s o).Composed
      (Act.onlyIf (a.note .runBegun).status.delayDue (runner s o).startupDelay) :=
    .onlyIf _ (runner s o).composed_startupDelay
  have still := working_composed civil composed (a := a.note .runBegun) now
  obtain ⟨r, t, ns, startup, ht, hns, -⟩ :=
    (runner s o).startup_spec (a.note .runBegun).status.delayDue (a.note .runBegun)
  rw [startup] at still
  have undisturbed : Undisturbed (a.moment .runBegun :: ns) :=
    .cons (by simp [Event.stage]) (.of_staged hns (by decide))
  cases r with
  | error fault =>
    rw [Act.bind_raised startup]
    exact .of_undisturbed (begins.trans ht) undisturbed
  | ok _ =>
    rw [Act.bind_done startup]
    split
    case isTrue =>
      exact .before (begins.trans ht) (undisturbed.tally Event.within_givesUp)
        (meets_forwardAll civil _ fuel still)
    case isFalse =>
      have still := working_composed civil (runner s o).composed_acquire still
      obtain ⟨ms, hms, staged⟩ := (runner s o).acquires t
      have before := undisturbed.append (.of_staged staged (by decide))
      generalize acquire : (runner s o).acquire t = ended at hms still
      obtain ⟨r, u⟩ := ended
      have grows := (begins.trans ht).trans hms
      cases r with
      | done _ =>
        rw [Act.bind_done (Act.catching_done acquire)]
        exact .before grows (before.tally Event.within_givesUp)
          (meets_forwardAll civil _ fuel still)
      | unfinished =>
        rw [Act.bind_unfinished (Act.catching_unfinished acquire)]
        exact .of_undisturbed grows before
      | raised fault =>
        rw [Act.bind_done (Act.catching_raised acquire)]
        have pending : Pending (ns ++ ms) := Pending.append (.of_staged hns (by decide))
          (.of_staged staged (by decide))
        have whole : Grows a u ([] ++ a.moment .runBegun :: (ns ++ ms)) := by simpa using grows
        exact meets_giveUp civil still whole rfl pending rfl

end Runs

inductive Departing (h : Host) : Prop
  | failing : h.scheduling = .failing → Departing h
  | spent : h.scheduling = .checking → h.deactivated = true → h.worker.terminated = true →
      Departing h

structure Departed (now : Scheduling) (h : Host) : Prop where
  scheduling : h.scheduling = now
  deactivated : h.deactivated = true
  terminated : h.worker.terminated = true

section Departing

variable {name : String} {h k : Host} {now : Scheduling}

theorem Departing.alive (departing : Departing h) :
    h.scheduling.alive = true ∧ h.scheduling ≠ .working := by
  cases departing with
  | failing now => simp [now, Scheduling.alive]
  | spent now => simp [now, Scheduling.alive]

theorem Departed.obeys (departed : Departed now h) (obeys : Obeys h k) : Departed now k where
  scheduling := by rw [obeys.scheduling, departed.scheduling]
  deactivated := by
    have := obeys.deactivated
    rw [departed.deactivated] at this
    exact Bool.eq_true_of_true_le this
  terminated := by
    have := obeys.terminated
    rw [departed.terminated] at this
    exact Bool.eq_true_of_true_le this

theorem Departing.obeys (departing : Departing h) (obeys : Obeys h k) : Departing k := by
  cases departing with
  | failing now => exact .failing (by rw [obeys.scheduling, now])
  | spent now off up =>
    have departed := Departed.obeys ⟨now, off, up⟩ obeys
    exact .spent departed.scheduling departed.deactivated departed.terminated

theorem Departing.advances (departing : Departing h) (sound : Sound h)
    (advances : Advances name h k) : Departed .leaving k := by
  cases departing with
  | failing now =>
    cases advances with
    | failed => exact ⟨rfl, by simp, sound.terminated_deactivate name (by rw [now]; rfl)⟩
    | _ => simp_all
  | spent now off up =>
    cases advances with
    | spent => exact ⟨rfl, off, up⟩
    | _ => simp_all

theorem Departed.advances (departed : Departed .leaving h) (advances : Advances name h k) :
    Departed .ended k ∧ k.running = false := by
  obtain ⟨now, off, up⟩ := departed
  cases advances with
  | left => exact ⟨⟨rfl, off, up⟩, rfl⟩
  | _ => simp_all

end Departing

/-- Whatever happens meanwhile, the scheduler thread takes two more steps, runs nothing any more,
and leaves the host deactivated with its worker terminated. -/
def Expires (w : Worker (Hosted σ)) (b : Site (Hosted σ)) : Prop :=
  ∀ (first second : List (Turn σ)) (f g : Nat), (∀ t ∈ first ++ second, t.schedules = false) →
    ∃ c ms, live w (first ++ .schedule f :: (second ++ [.schedule g])) b = (.done (), c) ∧
      c.moments = b.moments ++ ms ∧ (∀ x ∈ ms, ∃ record, x.event = .log record) ∧
      Departed .ended c.world.host ∧ c.world.host.running = false

theorem Departing.expires (civil : Civil s.processorName o) (sound : Sound b.world.host)
    (departing : Departing b.world.host) : Expires (runner s o) b := by
  intro first second f g beside
  obtain ⟨before, between⟩ := List.forall_mem_append.1 beside
  -- Before each of the two steps there are turns that leave the scheduler thread where it is.
  obtain ⟨c, ms, live₁, moments₁, logs₁, obeys⟩ := live_beside civil before departing.alive.1
  have departing := departing.obeys obeys
  obtain ⟨alive, idle⟩ := departing.alive
  obtain ⟨d, ns, step₁, moments₂, logs₂, advances⟩ := take_advance s.processorName alive idle
  have departed := departing.advances (sound.obeys obeys) advances
  obtain ⟨e, xs, live₂, moments₃, logs₃, obeys⟩ :=
    live_beside civil between (a := d) (by rw [departed.scheduling]; rfl)
  have departed := departed.obeys obeys
  have leaves : e.world.host.scheduling ≠ .working := by simp [departed.scheduling]
  obtain ⟨u, ys, step₂, moments₄, logs₄, advances⟩ :=
    take_advance s.processorName (by rw [departed.scheduling]; rfl) leaves
  have turn₁ := (takeTurn_advance (runner s o) f idle).trans step₁
  have turn₂ := (takeTurn_advance (runner s o) g leaves).trans step₂
  refine ⟨u, ms ++ ns ++ xs ++ ys, ?_, ?_, ?_, departed.advances advances⟩
  · rw [live_append, Act.bind_done live₁, live, Act.bind_done turn₁, live_append,
      Act.bind_done live₂, live_singleton, turn₂]
  · simp [moments₁, moments₂, moments₃, moments₄]
  · simp only [List.forall_mem_append]
    exact ⟨⟨⟨logs₁, logs₂⟩, logs₃⟩, logs₄⟩

theorem schedule_advance (w : Worker (Hosted σ)) (wait : Act (Hosted σ) Unit) (more : Nat)
    (now : a.world.host.scheduling = .failing ∨ a.world.host.scheduling = .checking ∨
      a.world.host.scheduling = .leaving) :
    schedule w wait (more + 1) a =
      (take w.settings.processorName .advance >>= fun _ => schedule w wait more) a := by
  rw [schedule, Act.bind_done (Act.look_apply _ a)]
  rcases now with now | now | now
  · rw [now]
  · rw [now]
  · rw [now]

theorem Departing.schedule (w : Worker (Hosted σ)) (sound : Sound b.world.host)
    (departing : Departing b.world.host) (wait : Act (Hosted σ) Unit) (more : Nat) :
    ∃ c, schedule w wait (more + 3) b = (.done (), c) ∧ Departed .ended c.world.host ∧
      c.world.host.running = false := by
  obtain ⟨alive, idle⟩ := departing.alive
  obtain ⟨c, ms, step, -, -, advances⟩ := take_advance w.settings.processorName alive idle
  have departed := departing.advances sound advances
  obtain ⟨d, ns, step', -, -, advances⟩ := take_advance (a := c) w.settings.processorName
    (by rw [departed.scheduling]; rfl) (by rw [departed.scheduling]; decide)
  have ended := departed.advances advances
  refine ⟨d, ?_, ended⟩
  have first : b.world.host.scheduling = .failing ∨ b.world.host.scheduling = .checking ∨
      b.world.host.scheduling = .leaving := by
    cases departing with
    | failing now => exact .inl now
    | spent now => exact .inr (.inl now)
  rw [schedule_advance w wait _ first, Act.bind_done step,
    schedule_advance w wait _ (.inr (.inr departed.scheduling)), Act.bind_done step',
    Host.schedule, Act.bind_done (Act.look_apply _ d), ended.1.scheduling]
  rfl

/-- A failure has left a cycle, the acquisition, or the run itself. -/
def Fails (r : Ending Unit) (ms : List (Moment (Hosted σ))) : Prop :=
  (∃ fault, r = .raised fault) ∨ ∃ x ∈ ms, ∃ fault, x.event = .givingUp fault

theorem pass_fails (civil : Civil s.processorName o) (sound : Sound a.world.host)
    (now : a.world.host.scheduling = .working) {r : Ending Unit} {ms : List (Moment (Hosted σ))}
    {fuel : Nat} (ran : (runner s o).run fuel (entry a) = (r, t)) (fate : Fate () t ms r)
    (fails : Fails r ms) :
    ∃ b ns, pass (runner s o) fuel a = (.done (), b) ∧ b.moments = t.moments ++ ns ∧
      (∀ x ∈ ns, ∃ record, x.event = .log record) ∧ Sound b.world.host ∧
      Departing b.world.host := by
  have gives : (∃ x ∈ ms, ∃ fault, x.event = .givingUp fault) → r ≠ .unfinished ∧
      (r = .done () → t.status.terminated = true ∧ t.world.host.deactivated = true) := by
    rintro ⟨x, hx, fault, given⟩
    cases fate with
    | quiet quiet =>
      have := tally_eq_zero.1 quiet x hx
      simp [given, Event.givesUp] at this
    | lost _ finished out => exact ⟨finished, fun done => (out () done).2⟩
  obtain ⟨r', t', ran', lasting, ended⟩ := pass_ended civil now fuel
  obtain ⟨rfl, rfl⟩ := Prod.mk.inj (ran.symm.trans ran')
  have finished : r ≠ .unfinished := by
    rintro rfl
    exact (gives (fails.resolve_left (by simp))).1 rfl
  obtain ⟨contained, b, ns, how, passed, moments, logs, host⟩ :=
    ended.resolve_left fun cut => finished cut.1
  refine ⟨b, ns, passed, moments, fun x hx => (logs x hx).1, ?_, ?_⟩
  · rw [host]
    exact (sound.obeys lasting.1).finished (by rw [lasting.1.scheduling, now]) contained t.status
  · rw [host]
    rcases how with ⟨rfl, rfl⟩ | ⟨-, rfl⟩
    · obtain ⟨up, off⟩ := (gives (fails.resolve_left (by simp))).2 rfl
      exact .spent rfl off (by simpa [finish] using Or.inr up)
    · exact .failing rfl

/-- Whatever a host and its collaborators have been through, a failure in a pass does not get out.
What the worker has given up is not acknowledged, and the scheduler thread comes to its end without
another run; it leaves the host deactivated, and the worker terminated. -/
theorem failure_contained (s : Settings) (o : Outside (Hosted σ)) (civil : Civil s.processorName o)
    (rest : σ) (turns : List (Turn σ)) (fuel : Nat) :
    let a := history (runner s o) rest turns
    a.world.host.scheduling = .working →
      ∃ r t ms, (runner s o).run fuel (entry a) = (r, t) ∧ t.moments = a.moments ++ ms ∧
        (Fails r ms → (0 < tally Event.givesUp ms → Lost ms) ∧
          ∃ b ns, pass (runner s o) fuel a = (.done (), b) ∧ b.moments = t.moments ++ ns ∧
            (∀ x ∈ ns, ∃ record, x.event = .log record) ∧ Expires (runner s o) b ∧
            ∀ wait more, ∃ c, schedule (runner s o) wait (more + 3) b = (.done (), c) ∧
              Departed .ended c.world.host ∧ c.world.host.running = false) := by
  intro a now
  have sound : Sound a.world.host := sound_history civil rest turns
  obtain ⟨ms, grows, fate⟩ := meets_run civil (a := entry a) fuel now
  rcases ran : (runner s o).run fuel (entry a) with ⟨r, t⟩
  rw [ran] at grows fate
  refine ⟨r, t, ms, rfl, grows.moments, fun fails => ⟨fun given => ?_, ?_⟩⟩
  · cases fate with
    | quiet quiet => omega
    | lost lost => exact lost
  · obtain ⟨b, ns, passed, moments, logs, sound, departing⟩ :=
      pass_fails civil sound now ran fate fails
    exact ⟨b, ns, passed, moments, logs, departing.expires civil sound,
      departing.schedule (runner s o) sound⟩

theorem failure_contained_spoilt :
    let s := Worker.spoilt.settings
    let o := Worker.spoilt.outside.hosted
    let a := history (runner s o) [⟨"m1", ∅, .null⟩]
      [.order .start, .proceed, .proceed, .schedule 0, .schedule 0]
    Civil s.processorName o ∧ a.world.host.scheduling = .working ∧
      ∃ r t ms b, (runner s o).run 2 (entry a) = (r, t) ∧ t.moments = a.moments ++ ms ∧
        (∃ fault, r = .raised fault) ∧ Lost ms ∧ pass (runner s o) 2 a = (.done (), b) ∧
        Expires (runner s o) b := by
  intro s o a
  have civil : Civil s.processorName o := civil_hosted _ _
  have now : a.world.host.scheduling = .working := by decide
  obtain ⟨r, t, ms, ran, moments, contained⟩ := failure_contained s o civil _ _ 2 now
  have escapes : (match ((runner s o).run 2 (entry a)).1 with
    | .raised _ => true
    | _ => false) = true := by decide
  have given : tally Event.givesUp a.moments < tally Event.givesUp t.moments := by
    have : tally Event.givesUp a.moments <
        tally Event.givesUp ((runner s o).run 2 (entry a)).2.moments := by decide
    rwa [ran] at this
  rw [ran] at escapes
  cases r with
  | raised fault =>
    obtain ⟨lost, b, -, passed, -, -, expires, -⟩ := contained (.inl ⟨fault, rfl⟩)
    refine ⟨civil, now, _, t, ms, b, ran, moments, ⟨fault, rfl⟩, lost ?_, passed, expires⟩
    rw [moments, tally_append] at given
    exact Nat.pos_of_lt_add_right given
  | done _ => cases escapes
  | unfinished => cases escapes

end Host

end Courier
