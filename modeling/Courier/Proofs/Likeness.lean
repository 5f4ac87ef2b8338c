import Courier.Proofs.Calls
import Courier.Proofs.Composition
import Courier.Proofs.History
import Courier.Rehearsal.Bench
import Mathlib.Data.List.Forall2

namespace Courier

variable {σ α β : Type}

namespace Worker

section Sends

variable {w : Worker σ} {e : Endpoint} {stored : Message} {s s' : Site σ} {ms : List (Moment σ)}
  {r : Ending Unit}

def Uniform (w : Worker σ) (e : Endpoint) (stored : Message) (ms : List (Moment σ)) : Prop :=
  ∀ y ∈ ms, y.event.sends = true → y.event = .sending e (w.workingCopy stored)

theorem uniform_of_quiet (h : tally Event.sends ms = 0) : w.Uniform e stored ms := by
  intro y hy sends
  simp [tally_eq_zero.1 h y hy] at sends

theorem Uniform.append {ns : List (Moment σ)} (h : w.Uniform e stored ms)
    (k : w.Uniform e stored ns) : w.Uniform e stored (ms ++ ns) :=
  List.forall_mem_append.2 ⟨h, k⟩

theorem Exchanged.uniform {outcome : Except Fault (Option Message)}
    (h : w.Exchanged e stored outcome ms) : w.Uniform e stored ms := by
  obtain ⟨x, ns, rfl, hx, y, as, z, rfl, hy, has, hz⟩ := h
  have first : w.Uniform e stored [x] := uniform_of_quiet (by simp [hx, Event.sends])
  have rest : w.Uniform e stored (as ++ [z]) := by
    apply uniform_of_quiet
    rw [tally_append, tally_incidental Event.sober_sends has, tally_cons, hz]
    cases outcome <;> rfl
  have sending : w.Uniform e stored [y] := by
    intro z hz _
    rw [List.mem_singleton.1 hz, hy]
  exact first.append (sending.append rest)

theorem Found.uniform {finding : Finding} (h : w.Found e stored finding ms) :
    w.Uniform e stored ms := by
  cases h with
  | gone hx hy => exact uniform_of_quiet (by simp [hx, hy, Event.sends])
  | oneWay h => exact h.uniform
  | answered h _ hd => exact h.uniform.append (uniform_of_quiet hd.sends)
  | turnedDown h _ hd => exact h.uniform.append (uniform_of_quiet hd.sends)
  | refused h => exact h.uniform
  | failed h _ hx hd =>
    exact h.uniform.append (uniform_of_quiet (by simp [hx, Event.sends, hd.sends]))
  | replyBroken h _ hd => exact h.uniform.append (uniform_of_quiet hd.sends)
  | faultBroken h _ hx hd =>
    exact h.uniform.append (uniform_of_quiet (by simp [hx, Event.sends, hd.sends]))
  | unknown h => exact h.uniform

theorem Tried.uniform {t : Try σ} (h : w.Tried e stored t s s' r) :
    w.Uniform e stored t.moments := by
  obtain ⟨mid, assessed, followed⟩ := h.course
  exact assessed.found.uniform.append
    (uniform_of_quiet (followed.tally_eq_zero Event.within_sends (.inr rfl)))

theorem Tries.uniform {ts : List (Try σ)} (h : w.Tries e stored ts s s' r) :
    w.Uniform e stored (ts.flatMap Try.moments) := by
  intro y hy
  obtain ⟨t, ht, hy⟩ := List.mem_flatMap.1 hy
  obtain ⟨a, b, q, tried⟩ := h.tried t ht
  exact tried.uniform y hy

def OneTarget (w : Worker σ) (stored : Message) (ms : List (Moment σ)) : Prop :=
  ∀ y ∈ ms, y.event.sends = true → ∃ x e, ms.head? = some x ∧ w.target? stored x.world = some e ∧
    y.event = .sending e (w.workingCopy stored)

theorem oneTarget_of_quiet (h : tally Event.sends ms = 0) : w.OneTarget stored ms := by
  intro y hy sends
  simp [tally_eq_zero.1 h y hy] at sends

theorem OneTarget.append {ns : List (Moment σ)} (h : w.OneTarget stored ms)
    (quiet : tally Event.sends ns = 0) : w.OneTarget stored (ms ++ ns) := by
  intro y hy sends
  rcases List.mem_append.1 hy with hy | hy
  · obtain ⟨x, e, head, target, sending⟩ := h y hy sends
    exact ⟨x, e, by rw [List.head?_append, head]; rfl, target, sending⟩
  · simp [tally_eq_zero.1 quiet y hy] at sends

theorem Forwarded.oneTarget (h : w.Forwarded stored s s' ms r) : w.OneTarget stored ms := by
  cases h with
  | untargeted hx _ hxs hy hys _ _ =>
    apply oneTarget_of_quiet
    rw [tally_append, tally_incidental Event.sober_sends (List.forall_mem_cons.2 ⟨hx, hxs⟩),
      tally_cons, hy, tally_incidental Event.sober_sends hys]
    rfl
  | targeted hx target _ _ _ tries =>
    intro y hy sends
    rcases List.mem_cons.1 hy with rfl | hy
    · simp [Event.sober_sends _ hx] at sends
    · exact ⟨_, _, rfl, target, tries.uniform y hy sends⟩

theorem Cycled.oneTarget (h : w.Cycled stored s s' ms r) : w.OneTarget stored ms := by
  cases h with
  | forwarded h => exact h.oneTarget
  | givenUp h given =>
    exact h.oneTarget.append (given.staged.tally Event.within_sends (by decide))

end Sends

end Worker

def Event.unmarked : Event → Event
  | .received m => .received (m.map Worker.unmarked)
  | e => e

structure Reply.Like (R : σ → σ → Prop) (f : Except Fault α → β) (r r' : Reply σ α) : Prop where
  outcome : f r.outcome = f r'.outcome
  asides : r.asides = r'.asides
  world : R r.world r'.world

structure Handled.Like (R : σ → σ → Prop) (r r' : Handled σ α) : Prop extends
    Reply.Like R id r.toReply r'.toReply where
  message : r.message = r'.message

/-- Collaborators that answer alike in any two related worlds; only the message that they hand out
may bear another mark. -/
structure Outside.Blind (o : Outside σ) (R : σ → σ → Prop) : Prop where
  ownerName : ∀ {v v'}, R v v' → o.ownerName v = o.ownerName v'
  isDeactivated : ∀ {v v'}, R v v' → o.isDeactivated v = o.isDeactivated v'
  isAlive : ∀ {v v'}, R v v' → o.isAlive v = o.isAlive v'
  endpoints : ∀ {v v'}, R v v' → o.endpoints v = o.endpoints v'
  now : ∀ {v v'}, R v v' → o.now v = o.now v'
  deactivate : ∀ {v v'}, R v v' → (o.deactivate v).Like R id (o.deactivate v')
  storeName : ∀ {v v'}, R v v' → (o.storeName v).Like R id (o.storeName v')
  createConsumer : ∀ {v v'}, R v v' → (o.createConsumer v).Like R id (o.createConsumer v')
  receive : ∀ {v v'}, R v v' → (o.receive v).Like R Worker.cleared (o.receive v')
  acknowledge : ∀ {v v'}, R v v' →
    (o.acknowledge v).1 = (o.acknowledge v').1 ∧ R (o.acknowledge v).2 (o.acknowledge v').2
  send : ∀ {v v'} e m, R v v' → (o.send e m v).Like R (o.send e m v')
  sequence : ∀ {v v'} name, R v v' → Option.Rel (fun f f' => ∀ m, (f m v).Like R (f' m v'))
    (o.sequence? name v) (o.sequence? name v')
  sleep : ∀ {v v'} ms up, R v v' → (o.sleep ms up v).Like R id (o.sleep ms up v')
  interrupt : ∀ {v v'}, R v v' → R (o.interrupt v) (o.interrupt v')

theorem Outside.Blind.eq (o : Outside σ) : o.Blind Eq where
  ownerName := by rintro v _ rfl; rfl
  isDeactivated := by rintro v _ rfl; rfl
  isAlive := by rintro v _ rfl; rfl
  endpoints := by rintro v _ rfl; rfl
  now := by rintro v _ rfl; rfl
  deactivate := by rintro v _ rfl; exact ⟨rfl, rfl, rfl⟩
  storeName := by rintro v _ rfl; exact ⟨rfl, rfl, rfl⟩
  createConsumer := by rintro v _ rfl; exact ⟨rfl, rfl, rfl⟩
  receive := by rintro v _ rfl; exact ⟨rfl, rfl, rfl⟩
  acknowledge := by rintro v _ rfl; exact ⟨rfl, rfl⟩
  send := by rintro v _ e m rfl; exact ⟨⟨rfl, rfl, rfl⟩, rfl⟩
  sequence := by
    rintro v _ name rfl
    cases o.sequence? name v with
    | none => exact .none
    | some f => exact .some fun m => ⟨⟨rfl, rfl, rfl⟩, rfl⟩
  sleep := by rintro v _ ms up rfl; exact ⟨rfl, rfl, rfl⟩
  interrupt := by rintro v _ rfl; rfl

structure Moment.Like (R : σ → σ → Prop) (x x' : Moment σ) : Prop where
  event : x.event.unmarked = x'.event.unmarked
  status : x.status = x'.status
  world : R x.world x'.world

structure Site.Like (R : σ → σ → Prop) (s s' : Site σ) : Prop where
  world : R s.world s'.world
  status : s.status = s'.status
  counters : s.counters = s'.counters
  journal : List.Forall₂ (Moment.Like R) s.journal s'.journal

namespace Site.Like

variable {R : σ → σ → Prop} {s s' : Site σ}

theorem note (h : Like R s s') {e e' : Event} (he : e.unmarked = e'.unmarked) :
    Like R (s.note e) (s'.note e') :=
  ⟨h.world, h.status, h.counters, .cons ⟨he, h.status, h.world⟩ h.journal⟩

theorem withWorld (h : Like R s s') {v v' : σ} (hv : R v v') :
    Like R (s.withWorld v) (s'.withWorld v') :=
  ⟨hv, h.status, h.counters, h.journal⟩

theorem withStatus (h : Like R s s') (f : Status → Status) :
    Like R (s.withStatus (f s.status)) (s'.withStatus (f s'.status)) :=
  ⟨h.world, by rw [status_withStatus, status_withStatus, h.status], h.counters, h.journal⟩

theorem counted (h : Like R s s') (c : String) : Like R (s.counted c) (s'.counted c) :=
  ⟨h.world, h.status, by rw [counters_counted, counters_counted, h.counters], h.journal⟩

theorem fresh {v v' : σ} (h : R v v') (delayDue : Bool) :
    Like R (Site.fresh v delayDue) (Site.fresh v' delayDue) :=
  ⟨h, rfl, rfl, .nil⟩

end Site.Like

namespace Act

structure Matches (R : σ → σ → Prop) (p p' : Ending α × Site σ) : Prop where
  ending : p.1 = p'.1
  site : p.2.Like R p'.2

def Respects (R : σ → σ → Prop) (x : Act σ α) : Prop :=
  ∀ s s', s.Like R s' → Matches R (x s) (x s')

section Respects

variable {R : σ → σ → Prop}

theorem Respects.pure (a : α) : Respects R (Pure.pure a : Act σ α) := fun _ _ h => ⟨rfl, h⟩

theorem Respects.raise (fault : Fault) : Respects R (raise fault : Act σ α) :=
  fun _ _ h => ⟨rfl, h⟩

theorem Respects.stall : Respects R (stall : Act σ α) := fun _ _ h => ⟨rfl, h⟩

theorem Respects.bind {x : Act σ α} {f : α → Act σ β} (hx : Respects R x)
    (hf : ∀ a, Respects R (f a)) : Respects R (x >>= f) := by
  intro s s' h
  obtain ⟨ending, site⟩ := hx s s' h
  rw [bind_apply, bind_apply]
  generalize x s = p at ending site ⊢
  generalize x s' = p' at ending site ⊢
  match p, p' with
  | (.done a, t), (.done a', t') =>
    cases ending
    exact hf a t t' site
  | (.raised fault, t), (.raised fault', t') =>
    cases ending
    exact ⟨rfl, site⟩
  | (.unfinished, t), (.unfinished, t') => exact ⟨rfl, site⟩

theorem Respects.catching {x : Act σ α} (hx : Respects R x) : Respects R (catching x) := by
  intro s s' h
  obtain ⟨ending, site⟩ := hx s s' h
  rw [catching_apply, catching_apply]
  generalize x s = p at ending site ⊢
  generalize x s' = p' at ending site ⊢
  match p, p' with
  | (.done a, t), (.done a', t') =>
    cases ending
    exact ⟨rfl, site⟩
  | (.raised fault, t), (.raised fault', t') =>
    cases ending
    exact ⟨rfl, site⟩
  | (.unfinished, t), (.unfinished, t') => exact ⟨rfl, site⟩

theorem Respects.status : Respects R (status : Act σ Status) :=
  fun _ _ h => ⟨congrArg Ending.done h.status, h⟩

theorem Respects.setStatus (f : Status → Status) : Respects R (setStatus f : Act σ Unit) :=
  fun _ _ h => ⟨rfl, h.withStatus f⟩

theorem Respects.count (c : String) : Respects R (count c : Act σ Unit) :=
  fun _ _ h => ⟨rfl, h.counted c⟩

theorem Respects.note (e : Event) : Respects R (note e : Act σ Unit) :=
  fun _ _ h => ⟨rfl, h.note rfl⟩

theorem Respects.onlyIf (c : Prop) [Decidable c] {x : Act σ Unit} (hx : Respects R x) :
    Respects R (onlyIf c x) := by
  rw [Act.onlyIf]
  split
  · exact hx
  · exact .pure ()

theorem Respects.look {f : σ → α} (hf : ∀ v v', R v v' → f v = f v') : Respects R (look f) :=
  fun _ _ h => ⟨congrArg Ending.done (hf _ _ h.world), h⟩

end Respects

end Act

namespace Worker

open Act (Respects Matches)

section Blind

variable {R : σ → σ → Prop} {w : Worker σ} (h : w.outside.Blind R)

include h

theorem respects_log (severity : Severity) (text : String) : Respects R (w.log severity text) := by
  intro s s' hs
  refine ⟨rfl, hs.note ?_⟩
  rw [h.ownerName hs.world]

theorem respects_terminate : Respects R w.terminate := by
  refine (Respects.setStatus _).bind fun _ => Respects.bind ?_ fun _ =>
    (Respects.note _).bind fun _ => respects_log h _ _
  exact fun _ _ hs => ⟨rfl, hs.withWorld (h.interrupt hs.world)⟩

theorem respects_hearAll (as : List Aside) : Respects R (w.hearAll as) := by
  induction as with
  | nil => exact .pure _
  | cons a as ih =>
    refine Respects.bind ?_ fun _ => ih
    cases a with
    | terminate => exact respects_terminate h
    | raise => exact fun _ _ hs => ⟨rfl, hs.withStatus fun t => { t with terminated := true }⟩
    | log r => exact Respects.note _

variable {f : Except Fault α → β} {r r' : Reply σ α} {s s' : Site σ}

theorem like_heard (hr : r.Like R f r') (hs : s.Like R s') :
    (w.heard r s).Like R (w.heard r' s') := by
  rw [Worker.heard, Worker.heard, hr.asides]
  exact (respects_hearAll h r'.asides _ _ (hs.withWorld hr.world)).site

theorem like_answered (hr : r.Like R id r') (hs : s.Like R s') (errand : Errand)
    (ended : α → Event) :
    (w.answered errand ended r s).Like R (w.answered errand ended r' s') := by
  rw [Worker.answered, Worker.answered, show r.outcome = r'.outcome from hr.outcome]
  exact (like_heard h hr hs).note rfl

theorem respects_noted (begun : Event) (errand : Errand) {c : Call σ α} (ended : α → Event)
    (hc : ∀ {v v'}, R v v' → (c v).Like R id (c v')) :
    Respects R (do
      Act.note begun
      let a ← w.ask errand c
      Act.note (ended a)
      return a) := by
  intro s s' hs
  rw [w.noted_apply, w.noted_apply]
  exact ⟨congrArg Ending.ofExcept (hc hs.world).outcome,
    like_answered h (hc hs.world) (hs.note rfl) errand ended⟩

omit h in
theorem respects_asked {f : σ → α} (hf : ∀ v v', R v v' → f v = f v') (e : α → Event) :
    Respects R (do
      let a ← Act.look f
      Act.note (e a)
      return a) :=
  (Respects.look hf).bind fun _ => (Respects.note _).bind fun _ => .pure _

theorem respects_clockSleep (ms : Int) : Respects R (w.clockSleep ms) := by
  intro s s' hs
  rw [w.clockSleep_apply, w.clockSleep_apply, ← hs.status]
  have reply := h.sleep ms s.status.terminated hs.world
  exact ⟨congrArg Ending.ofExcept reply.outcome, like_answered h reply (hs.note rfl) _ _⟩

theorem respects_acknowledge (id : String) : Respects R (w.acknowledge id) := by
  refine Respects.bind (fun s s' hs => ?_) fun accepted =>
    (Respects.note _).bind fun _ => .onlyIf _ (respects_log h _ _)
  obtain ⟨accepted, world⟩ := h.acknowledge hs.world
  exact ⟨congrArg Ending.done accepted, hs.withWorld world⟩

theorem respects_send (e : Endpoint) (m : Message) : Respects R (w.send e m) := by
  intro s s' hs
  have reply := h.send e m hs.world
  rw [w.send_apply, w.send_apply, show (w.outside.send e m s.world).outcome = _ from reply.outcome,
    reply.message]
  exact ⟨rfl, like_answered h reply.toLike (hs.note rfl) _ _⟩

theorem respects_dispatch (kind : Sequence.Kind) (m : Message) :
    Respects R (w.dispatch kind m) := by
  intro s s' hs
  have found : Option.Rel (fun f f' => ∀ m, (f m s.world).Like R (f' m s'.world))
      (w.registered kind s.world) (w.registered kind s'.world) := by
    rw [registered, registered]
    split
    · exact .none
    · exact h.sequence _ hs.world
  cases hf : w.registered kind s.world with
  | none =>
    cases hf' : w.registered kind s'.world with
    | none =>
      rw [w.dispatch_missing hf, w.dispatch_missing hf']
      exact ⟨rfl, (hs.note rfl).note rfl⟩
    | some f' =>
      rw [hf, hf'] at found
      cases found
  | some f =>
    cases hf' : w.registered kind s'.world with
    | none =>
      rw [hf, hf'] at found
      cases found
    | some f' =>
      rw [hf, hf'] at found
      cases found with
      | some alike =>
        have reply := alike m
        rw [w.dispatch_found hf, w.dispatch_found hf', reply.message,
          show (f m s.world).outcome = _ from reply.outcome]
        exact ⟨rfl, like_answered h reply.toLike ((hs.note rfl).note rfl) _ _⟩

omit h in
theorem received_unmarked {r r' : Except Fault (Option Message)} (h : cleared r = cleared r') :
    (Event.closing .fetch .received r).unmarked = (Event.closing .fetch .received r').unmarked := by
  match r, r' with
  | .ok m, .ok m' => exact congrArg Event.received (Except.ok.inj h)
  | .error fault, .error fault' => rw [Except.error.inj h]

theorem respects_fetch {f : Except Fault (Option Message) → Act σ α} (hf : ∀ r, Respects R (f r))
    (blind : ∀ r r', cleared r = cleared r' → f r = f r') :
    Respects R (Act.catching w.receive >>= f) := by
  intro s s' hs
  have reply := h.receive hs.world
  rw [Act.bind_done (Act.catching_ofExcept (w.receive_apply s)),
    Act.bind_done (Act.catching_ofExcept (w.receive_apply s')), blind _ _ reply.outcome]
  refine hf _ _ _ ((like_heard h reply (hs.note rfl)).note ?_)
  exact received_unmarked reply.outcome

theorem respects_of_composed {x : Act σ α} (hx : w.Composed x) : Respects R x := by
  induction hx with
  | pure a => exact .pure a
  | raise fault => exact .raise fault
  | stall => exact .stall
  | bind _ _ ihx ihf => exact ihx.bind ihf
  | catching _ ih => exact ih.catching
  | status => exact .status
  | setStatus f _ => exact .setStatus f
  | count counter => exact .count counter
  | runBegun => exact .note _
  | givingUp fault => exact .note _
  | endpoints => exact .look fun _ _ => h.endpoints
  | now => exact .look fun _ _ => h.now
  | log severity text => exact respects_log h severity text
  | terminate => exact respects_terminate h
  | createConsumer => exact respects_noted h _ _ _ h.createConsumer
  | storeName => exact respects_noted h _ _ _ h.storeName
  | isDeactivated =>
    exact respects_asked (R := R) (f := w.outside.isDeactivated) (fun _ _ => h.isDeactivated) _
  | isAlive => exact respects_asked (R := R) (f := w.outside.isAlive) (fun _ _ => h.isAlive) _
  | send e working => exact respects_send h e working
  | acknowledge id => exact respects_acknowledge h id
  | clockSleep ms => exact respects_clockSleep h ms
  | deactivateOwner => exact respects_noted h _ _ _ h.deactivate
  | dispatch kind m => exact respects_dispatch h kind m
  | fetch _ blind ih => exact respects_fetch h ih blind

theorem respects_live (visits : List (Visit σ))
    (hf : ∀ f, .meanwhile f ∈ visits → ∀ v v', R v v' → R (f v) (f v')) :
    Respects R (w.live visits) := by
  induction visits with
  | nil => exact .pure _
  | cons v vs ih =>
    have later := ih fun f hv => hf f (List.mem_cons_of_mem _ hv)
    refine (Respects.catching ?_).bind fun _ => later
    cases v with
    | run fuel => exact respects_of_composed h (w.composed_run fuel)
    | terminate => exact respects_terminate h
    | destroy => exact respects_terminate h
    | meanwhile f => exact fun _ _ hs => ⟨rfl, hs.withWorld (hf f (by simp) _ _ hs.world)⟩

end Blind

end Worker

namespace Rehearsal

def Stand.Like (v v' : Stand) : Prop :=
  ∃ ms, v' = { v with pending := ms } ∧ v.pending.map Worker.unmarked = ms.map Worker.unmarked

structure Scene.Like (c c' : Scene Stand) : Prop where
  world : c.world.Like c'.world
  message : c.message = c'.message
  asides : c.asides = c'.asides

section

variable (hasWorker : Bool) {c c' : Scene Stand} {v v' : Stand}

theorem perform_like (h : c.Like c') (a : Action) :
    ((alone hasWorker).perform c a).1 = ((alone hasWorker).perform c' a).1 ∧
      ((alone hasWorker).perform c a).2.Like ((alone hasWorker).perform c' a).2 := by
  obtain ⟨v, m, as⟩ := c
  obtain ⟨v', m', as'⟩ := c'
  obtain ⟨⟨ms, rfl, same⟩, rfl, rfl⟩ := h
  cases a with
  | push m =>
    have more : (v.pending ++ [m]).map Worker.unmarked = (ms ++ [m]).map Worker.unmarked := by
      rw [List.map_append, List.map_append, same]
    exact ⟨rfl, ⟨ms ++ [m], rfl, more⟩, rfl, rfl⟩
  | _ => exact ⟨rfl, ⟨ms, rfl, same⟩, rfl, rfl⟩

theorem performAll_like (h : c.Like c') (as : List Action) :
    ((alone hasWorker).performAll c as).1 = ((alone hasWorker).performAll c' as).1 ∧
      ((alone hasWorker).performAll c as).2.Like ((alone hasWorker).performAll c' as).2 := by
  induction as generalizing c c' with
  | nil => exact ⟨rfl, h⟩
  | cons a as ih =>
    obtain ⟨outcome, scene⟩ := perform_like hasWorker h a
    rw [Setting.performAll, Setting.performAll]
    generalize (alone hasWorker).perform c a = p at outcome scene ⊢
    generalize (alone hasWorker).perform c' a = p' at outcome scene ⊢
    obtain ⟨r, d⟩ := p
    obtain ⟨r', d'⟩ := p'
    obtain rfl : r = r' := outcome
    cases r with
    | ok _ => exact ih scene
    | error fault => exact ⟨rfl, scene⟩

theorem scripted_like {f : Except Fault α → β} (course : Scene Stand → α × Stand)
    (hc : ∀ {c c' : Scene Stand}, c.Like c' → f (.ok (course c).1) = f (.ok (course c').1) ∧
      (course c).2.Like (course c').2) (h : v.Like v') (as : List Action) :
    ((alone hasWorker).scripted as course v).Like Stand.Like f
      ((alone hasWorker).scripted as course v') := by
  have begun : Scene.Like ⟨v, none, []⟩ ⟨v', none, []⟩ := ⟨h, rfl, rfl⟩
  obtain ⟨outcome, scene⟩ := performAll_like hasWorker begun as
  rw [Setting.scripted, Setting.scripted]
  generalize (alone hasWorker).performAll ⟨v, none, []⟩ as = p at outcome scene ⊢
  generalize (alone hasWorker).performAll ⟨v', none, []⟩ as = p' at outcome scene ⊢
  obtain ⟨r, d⟩ := p
  obtain ⟨r', d'⟩ := p'
  obtain rfl : r = r' := outcome
  cases r with
  | ok _ => exact ⟨(hc scene).1, scene.asides, (hc scene).2⟩
  | error fault => exact ⟨rfl, scene.asides, scene.world⟩

theorem mediated_like (h : v.Like v') (as : List Action) (m : Message) :
    ((alone hasWorker).mediated as m v).Like Stand.Like ((alone hasWorker).mediated as m v') := by
  have begun : Scene.Like ⟨v, some m, []⟩ ⟨v', some m, []⟩ := ⟨h, rfl, rfl⟩
  obtain ⟨outcome, scene⟩ := performAll_like hasWorker begun as
  rw [Setting.mediated, Setting.mediated]
  generalize (alone hasWorker).performAll ⟨v, some m, []⟩ as = p at outcome scene ⊢
  generalize (alone hasWorker).performAll ⟨v', some m, []⟩ as = p' at outcome scene ⊢
  obtain ⟨r, d⟩ := p
  obtain ⟨r', d'⟩ := p'
  obtain rfl : r = r' := outcome
  have message : d.message = d'.message := scene.message
  exact ⟨⟨by simp only [id, message], scene.asides, scene.world⟩, by simp only [message]⟩

variable (script : Script)

theorem createConsumer_like (h : v.Like v') :
    (script.createConsumer (alone hasWorker) v).Like Stand.Like id
      (script.createConsumer (alone hasWorker) v') := by
  obtain ⟨ms, rfl, same⟩ := h
  have opened : Stand.Like { v with openings := v.openings + 1 }
      { v with pending := ms, openings := v.openings + 1 } := ⟨ms, rfl, same⟩
  rw [Script.createConsumer, Script.createConsumer]
  have found : script.openings[((alone hasWorker).get { v with pending := ms }).openings]? =
      script.openings[((alone hasWorker).get v).openings]? := rfl
  rw [found]
  cases script.openings[((alone hasWorker).get v).openings]? with
  | none => exact ⟨rfl, rfl, opened⟩
  | some opening =>
    cases opening with
    | refused => exact ⟨rfl, rfl, opened⟩
    | opened actions =>
      exact scripted_like _ (fun c => (true, c.world)) (fun h => ⟨rfl, h.world⟩) opened actions

theorem receive_alone (v : Stand) : script.receive (alone hasWorker) v =
    if script.receiptLimit.any (· ≤ v.receipts) then
      ⟨.error (.runtime "receive limit reached"), { v with receipts := v.receipts + 1 }, []⟩
    else (alone hasWorker).scripted (script.receipts.getD v.receipts [])
      (fun c => (c.world.pending.head?, { c.world with now := c.world.now + script.receiptMs }))
      { v with receipts := v.receipts + 1 } :=
  rfl

theorem receive_like (h : v.Like v') :
    (script.receive (alone hasWorker) v).Like Stand.Like Worker.cleared
      (script.receive (alone hasWorker) v') := by
  obtain ⟨ms, rfl, same⟩ := h
  have asked : Stand.Like { v with receipts := v.receipts + 1 }
      { v with pending := ms, receipts := v.receipts + 1 } := ⟨ms, rfl, same⟩
  rw [receive_alone, receive_alone]
  by_cases bound : script.receiptLimit.any (· ≤ v.receipts) = true
  · rw [if_pos bound, if_pos bound]
    exact ⟨rfl, rfl, asked⟩
  · rw [if_neg bound, if_neg bound]
    refine scripted_like _ _ (fun {c c'} h => ?_) asked _
    obtain ⟨⟨ns, world, same⟩, -, -⟩ := h
    rw [world]
    refine ⟨?_, ns, rfl, same⟩
    have head := congrArg List.head? same
    rw [List.head?_map, List.head?_map] at head
    exact congrArg Except.ok head

theorem acknowledge_alone (v : Stand) : script.acknowledge (alone hasWorker) v =
    match script.acknowledgements.getD v.acknowledgements true, v.pending with
    | true, m :: rest => (true, { v with
        acknowledgements := v.acknowledgements + 1
        pending := rest
        acknowledged := v.acknowledged ++ [m.id] })
    | _, _ => (false, { v with acknowledgements := v.acknowledgements + 1 }) :=
  rfl

theorem acknowledge_like (h : v.Like v') :
    (script.acknowledge (alone hasWorker) v).1 = (script.acknowledge (alone hasWorker) v').1 ∧
      (script.acknowledge (alone hasWorker) v).2.Like
        (script.acknowledge (alone hasWorker) v').2 := by
  obtain ⟨ms, rfl, same⟩ := h
  rw [acknowledge_alone, acknowledge_alone]
  cases script.acknowledgements.getD v.acknowledgements true with
  | false => exact ⟨rfl, ms, rfl, same⟩
  | true =>
    cases hv : v.pending with
    | nil =>
      rw [hv, List.map_nil, eq_comm, List.map_eq_nil_iff] at same
      subst same
      exact ⟨rfl, [], rfl, rfl⟩
    | cons m rest =>
      cases ms with
      | nil => simp [hv] at same
      | cons m' rest' =>
        rw [hv, List.map_cons, List.map_cons] at same
        obtain ⟨first, rest⟩ := List.cons.inj same
        have id : m.id = m'.id := by
          change (Worker.unmarked m).id = (Worker.unmarked m').id
          rw [first]
        exact ⟨rfl, rest', by simp only [id], rest⟩

theorem send_alone (e : Endpoint) (m : Message) (v : Stand) :
    script.send (alone hasWorker) e m v =
      if Script.sendLimit ≤ v.exchanges then
        ⟨⟨.error .unknown, { v with exchanges := v.exchanges + 1 }, []⟩, m⟩
      else
        let handled := (alone hasWorker).mediated (script.exchange v.exchanges).actions m
          { v with exchanges := v.exchanges + 1 }
        { handled with
          outcome := handled.outcome.map fun m =>
            (script.exchange v.exchanges).response.map (Script.Response.message · m) } :=
  rfl

theorem send_like (e : Endpoint) (m : Message) (h : v.Like v') :
    (script.send (alone hasWorker) e m v).Like Stand.Like
      (script.send (alone hasWorker) e m v') := by
  obtain ⟨ms, rfl, same⟩ := h
  have begun : Stand.Like { v with exchanges := v.exchanges + 1 }
      { v with pending := ms, exchanges := v.exchanges + 1 } := ⟨ms, rfl, same⟩
  rw [send_alone, send_alone]
  by_cases bound : Script.sendLimit ≤ v.exchanges
  · rw [if_pos bound, if_pos bound]
    exact ⟨⟨rfl, rfl, begun⟩, rfl⟩
  · rw [if_neg bound, if_neg bound]
    have handled := mediated_like hasWorker begun
      (script.exchange v.exchanges).actions m
    exact ⟨⟨congrArg (Except.map _) handled.outcome, handled.asides, handled.world⟩,
      handled.message⟩

theorem sequence_like (name : String) (h : v.Like v') :
    Option.Rel (fun f f' => ∀ m, (f m v).Like Stand.Like (f' m v'))
      (Script.sequence? (alone hasWorker) name v) (Script.sequence? (alone hasWorker) name v') := by
  obtain ⟨ms, rfl, same⟩ := h
  change Option.Rel _ ((v.sequences.find name).map _) ((v.sequences.find name).map _)
  cases v.sequences.find name with
  | none => exact .none
  | some actions =>
    refine .some fun m => ?_
    have handled := mediated_like hasWorker ⟨ms, rfl, same⟩ actions m
    exact ⟨⟨congrArg (Except.map _) handled.outcome, handled.asides, handled.world⟩,
      handled.message⟩

theorem sleep_like (ms : Int) (up : Bool) (h : v.Like v') :
    (script.sleep (alone hasWorker) ms up v).Like Stand.Like id
      (script.sleep (alone hasWorker) ms up v') := by
  obtain ⟨ns, rfl, same⟩ := h
  have begun : Stand.Like { v with rests := v.rests + 1 }
      { v with pending := ns, rests := v.rests + 1 } := ⟨ns, rfl, same⟩
  refine scripted_like _ _ (fun {c c'} h => ?_) begun _
  obtain ⟨⟨ms, world, same⟩, -, asides⟩ := h
  rw [world, asides]
  split
  · exact ⟨rfl, ms, rfl, same⟩
  · exact ⟨rfl, ms, rfl, same⟩

end

theorem Script.blind (script : Script) (hasWorker : Bool) :
    (script.outside (alone hasWorker)).Blind Stand.Like where
  ownerName _ := rfl
  isDeactivated := by
    rintro v _ ⟨ms, rfl, -⟩
    rfl
  isAlive := by
    rintro v _ ⟨ms, rfl, -⟩
    rfl
  endpoints := by
    rintro v _ ⟨ms, rfl, -⟩
    rfl
  now := by
    rintro v _ ⟨ms, rfl, -⟩
    rfl
  deactivate := by
    rintro v _ ⟨ms, rfl, same⟩
    have called : Stand.Like { v with deactivated := true }
        { v with pending := ms, deactivated := true } := ⟨ms, rfl, same⟩
    exact scripted_like _ (fun c => ((), c.world)) (fun h => ⟨rfl, h.world⟩) called
      script.onDeactivate
  storeName h := ⟨rfl, rfl, h⟩
  createConsumer := createConsumer_like hasWorker script
  receive := receive_like hasWorker script
  acknowledge := acknowledge_like hasWorker script
  send := send_like hasWorker script
  sequence := sequence_like hasWorker
  sleep := sleep_like hasWorker script
  interrupt h := h

end Rehearsal

namespace Worker

/-- Every attempt starts from the message as it was stored. All that a cycle sends is that message,
to the endpoint found when the cycle began, whatever has become of its copies and of the endpoints
meanwhile; and the mark of an earlier run on a stored message makes no difference to anything. -/
theorem starts_from_stored (w : Worker σ) :
    (∀ world visits before start m rest,
      (w.history world visits).moments = before ++ start :: rest →
      start.event = .received (some m) →
      ∀ y ∈ sameCycle rest, y.event.sends = true →
        ∃ x e, (sameCycle rest).head? = some x ∧ w.target? (unmarked m) x.world = some e ∧
          y.event = .sending e ((m.removeProperty Property.blockingSenderError).setProperty
            Property.nonErrorHttpStatusCodes w.settings.classifier.nonErrorStatusText)) ∧
    ∀ (R : σ → σ → Prop) world world' visits, w.outside.Blind R → R world world' →
      (∀ f, .meanwhile f ∈ visits → ∀ v v', R v v' → R (f v) (f v')) →
      Act.Matches R (w.live visits (w.fresh world)) (w.live visits (w.fresh world')) := by
  constructor
  · intro world visits before start m rest hms hs
    have each := (w.reached_history world visits).eachCycle
      (P := fun m ms => w.OneTarget (unmarked m) ms) fun cycled _ => cycled.oneTarget
    obtain ⟨body, tail, whole, oneTarget, idle⟩ := each before start m rest hms hs
    rw [whole]
    exact oneTarget.append idle.sends
  · intro R world world' visits blind related moves
    exact respects_live blind visits moves _ _ (.fresh related _)

theorem unmarked_setProperty (m : Message) (mark : String) :
    unmarked (m.setProperty Property.blockingSenderError mark) = unmarked m := by
  have same : (m.properties.insert Property.blockingSenderError mark).erase
      Property.blockingSenderError = m.properties.erase Property.blockingSenderError := by
    apply Std.ExtTreeMap.ext_getElem?
    intro key
    simp only [Std.ExtTreeMap.getElem?_erase, Std.ExtTreeMap.getElem?_insert]
    split
    · rfl
    · rfl
  rw [unmarked, unmarked, Message.removeProperty, Message.removeProperty, Message.setProperty, same]

open Rehearsal in
theorem starts_from_stored_rehearsed :
    let settings : Settings := {
      processorName := "rehearsal", targetEndpoint := "backend", maxAttempts := 3
      retryIntervalMs := 0, throttle := false, faultSequence := "mend" }
    let script : Script := {
      ownerName := "owner", storeName := "store", openings := [], receipts := [], receiptMs := 0
      receiptLimit := none, acknowledgements := [], rests := [], onDeactivate := []
      exchanges := [⟨[.setId "2", .fail (.runtime "no answer")], none⟩, ⟨[], none⟩] }
    let w := Bench.worker settings script
    let m : Message := ⟨"1", ∅, .null⟩
    let stand (m : Message) : Stand := .fresh [m] (.ofList [⟨"backend", "there"⟩])
      ((∅ : Sequence.Registry (List Action)).insert "mend" [.addEndpoint ⟨"backend", "elsewhere"⟩])
      true false
    let marked := m.setProperty Property.blockingSenderError "true"
    tally Event.sends (w.history (stand m) [.run 4]).moments = 2 ∧
    (∀ before start m rest,
      (w.history (stand m) [.run 4]).moments = before ++ start :: rest →
      start.event = .received (some m) →
      ∀ y ∈ sameCycle rest, y.event.sends = true →
        ∃ x e, (sameCycle rest).head? = some x ∧ w.target? (unmarked m) x.world = some e ∧
          y.event = .sending e ((m.removeProperty Property.blockingSenderError).setProperty
            Property.nonErrorHttpStatusCodes w.settings.classifier.nonErrorStatusText)) ∧
    w.outside.Blind Stand.Like ∧ (stand m).Like (stand marked) ∧
    Act.Matches Stand.Like (w.live [.run 4] (w.fresh (stand m)))
      (w.live [.run 4] (w.fresh (stand marked))) := by
  intro settings script w m stand marked
  have blind : w.outside.Blind Stand.Like := script.blind true
  have related : (stand m).Like (stand marked) := by
    refine ⟨[marked], rfl, ?_⟩
    change [unmarked m] = [unmarked marked]
    rw [unmarked_setProperty]
  refine ⟨by decide +kernel, ?_, blind, related, ?_⟩
  · intro before start n rest hms hs
    exact (starts_from_stored w).1 _ _ before start n rest hms hs
  · exact (starts_from_stored w).2 _ _ _ _ blind related (by simp)

end Worker

end Courier
