import Courier.Host.Schedule
import Courier.Proofs.Calls
import Courier.Proofs.Control
import Courier.Proofs.Frame

/-!
A host among its collaborators in the course of time. Its two threads take turns in any order; while
a pass is going on, the controlling thread and the sequences take theirs inside the collaborators.
-/

namespace Courier

variable {σ α : Type}

namespace Host

inductive Turn (σ : Type)
  | order (o : Order)
  | proceed
  | schedule (fuel : Nat)
  | meanwhile (f : σ → σ)

def takeTurn (w : Worker (Hosted σ)) : Turn σ → Act (Hosted σ) Unit
  | .order o => take w.settings.processorName (.order o)
  | .proceed => take w.settings.processorName .proceed
  | .schedule fuel => do
    let h ← Act.look Hosted.host
    if h.scheduling = .working then pass w fuel else take w.settings.processorName .advance
  | .meanwhile f => Act.change fun s => { s with world := { s.world with rest := f s.world.rest } }

def live (w : Worker (Hosted σ)) : List (Turn σ) → Act (Hosted σ) Unit
  | [] => pure ()
  | t :: ts => do
    takeTurn w t
    live w ts

def start (s : Settings) (rest : σ) : Site (Hosted σ) :=
  .fresh ⟨fresh s.deactivatedAtStartup, rest⟩ s.deactivatedAtStartup

def history (w : Worker (Hosted σ)) (rest : σ) (turns : List (Turn σ)) : Site (Hosted σ) :=
  (live w turns (start w.settings rest)).2

end Host

def Reply.hosted (h : Host) (r : Reply σ α) : Reply (Hosted σ) α :=
  ⟨r.outcome, ⟨h, r.world⟩, r.asides⟩

def Handled.hosted (h : Host) (r : Handled σ α) : Handled (Hosted σ) α :=
  ⟨r.toReply.hosted h, r.message⟩

def Outside.hosted (o : Outside σ) : Outside (Hosted σ) where
  ownerName v := o.ownerName v.rest
  isDeactivated v := o.isDeactivated v.rest
  deactivate v := (o.deactivate v.rest).hosted v.host
  storeName v := (o.storeName v.rest).hosted v.host
  createConsumer v := (o.createConsumer v.rest).hosted v.host
  receive v := (o.receive v.rest).hosted v.host
  acknowledge v := ((o.acknowledge v.rest).1, ⟨v.host, (o.acknowledge v.rest).2⟩)
  isAlive v := o.isAlive v.rest
  endpoints v := o.endpoints v.rest
  send e m v := (o.send e m v.rest).hosted v.host
  sequence? name v := (o.sequence? name v.rest).map fun f m v => (f m v.rest).hosted v.host
  now v := o.now v.rest
  sleep ms up v := (o.sleep ms up v.rest).hosted v.host
  interrupt v := ⟨v.host, o.interrupt v.rest⟩

def Outside.halting (name : String) (o : Outside σ) : Outside (Hosted σ) :=
  { o.hosted with
    send := fun e m v =>
      let r := (o.send e m v.rest).hosted v.host
      match v.host.step name (.inner .stop) with
      | none => r
      | some (h, effects) =>
        { r with
          world := { r.world with host := h }
          asides := r.asides ++ effects.map Host.aside } }

namespace Host

/-- Collaborators that leave the host to its two threads: while one of them is busy the controlling
thread may go on, and orders may come from inside the pass. -/
structure Civil (name : String) (o : Outside (Hosted σ)) : Prop where
  moves : ∀ {v v'}, o.Moves v v' → Stirs name v.host v'.host
  acknowledge : ∀ v, Stirs name v.host (o.acknowledge v).2.host

section

variable {w : Worker (Hosted σ)} {s t : Site (Hosted σ)} {name : String} {h : Host}

theorem live_append (w : Worker (Hosted σ)) (turns more : List (Turn σ)) :
    live w (turns ++ more) = live w turns >>= fun _ => live w more := by
  induction turns with
  | nil => rw [List.nil_append, live, pure_bind]
  | cons t ts ih => rw [List.cons_append, live, live, ih, bind_assoc]

theorem live_singleton (w : Worker (Hosted σ)) (t : Turn σ) : live w [t] = takeTurn w t := by
  rw [live, live]
  exact bind_pure (takeTurn w t)

open Site (Spell)

theorem take_spec (name : String) (m : Move) (s : Site (Hosted σ)) :
    ∃ s' ms, take name m s = (.done (), s') ∧ Spell s s' ms ∧
      (∀ x ∈ ms, (∃ record, x.event = .log record) ∧ x.world = s'.world) ∧ s'.status = s.status ∧
      s'.world.rest = s.world.rest ∧
      (s.world.host.step name m = none ∧ s' = s ∨
        ∃ effects, s.world.host.step name m = some (s'.world.host, effects)) := by
  have told (effects : List Effect) (t : Site (Hosted σ)) :
      ∃ t' ms, effects.forM (fun e => Act.note (.log (record name e))) t = (.done (), t') ∧
        Spell t t' ms ∧ (∀ x ∈ ms, (∃ record, x.event = .log record) ∧ x.world = t.world) ∧
        t'.status = t.status ∧ t'.world = t.world := by
    induction effects generalizing t with
    | nil => exact ⟨t, [], rfl, .refl t, by simp, rfl, rfl⟩
    | cons e effects ih =>
      obtain ⟨t', ms, rest, spell, logs, status, world⟩ := ih (t.note (.log (record name e)))
      exact ⟨t', _, (Act.bind_done (Act.note_apply _ t) _).trans rest,
        ((Spell.refl t).note _).trans spell, List.forall_mem_append.2 ⟨by simp, logs⟩, status,
        world⟩
  rw [take, Act.bind_done (Act.look_apply _ s)]
  cases step : s.world.host.step name m with
  | none => exact ⟨s, [], rfl, .refl s, by simp, rfl, rfl, .inl ⟨rfl, rfl⟩⟩
  | some next =>
    obtain ⟨host, effects⟩ := next
    obtain ⟨t, ms, notes, spell, logs, status, world⟩ :=
      told effects (s.withWorld { s.world with host })
    rw [← world] at logs
    refine ⟨t, ms, notes, ((Spell.refl s).withWorld _).trans spell, logs, status, ?_, .inr ?_⟩
    · rw [world, Site.world_withWorld]
    · exact ⟨effects, by rw [world, Site.world_withWorld]⟩

def entry (s : Site (Hosted σ)) : Site (Hosted σ) := s.withStatus s.world.host.worker

theorem pass_spec (w : Worker (Hosted σ)) (fuel : Nat) (s : Site (Hosted σ)) :
    ∃ r t, w.run fuel (entry s) = (r, t) ∧ (r = .unfinished ∧ pass w fuel s = (.unfinished, t) ∨
      ∃ contained u ms, (r = .done () ∧ contained = true ∨
          (∃ fault, r = .raised fault) ∧ contained = false) ∧
        Spell t u ms ∧ (∀ x ∈ ms, (∃ record, x.event = .log record) ∧ x.world = t.world) ∧
        u.world = t.world ∧
        pass w fuel s = take w.settings.processorName (.finished contained t.status) u) := by
  have begun : pass w fuel s = (do
      let contained ← Containment.contain ("processor [" ++ w.settings.processorName ++ "]")
        (w.run fuel)
      take w.settings.processorName (.finished contained (← Act.status))) (entry s) := by
    rw [pass, Act.bind_done (Act.look_apply _ s), Act.bind_done (Act.setStatus_apply _ s)]
    rfl
  rcases ran : w.run fuel (entry s) with ⟨r, t⟩
  refine ⟨r, t, rfl, ?_⟩
  rw [begun, Containment.contain]
  cases r with
  | unfinished =>
    refine .inl ⟨rfl, ?_⟩
    rw [bind_assoc, Act.bind_unfinished (Act.catching_unfinished ran)]
  | done _ =>
    refine .inr ⟨true, t, [], .inl ⟨rfl, rfl⟩, .refl t, by simp, rfl, ?_⟩
    rw [bind_assoc, Act.bind_done (Act.catching_done ran)]
    rfl
  | raised fault =>
    let report := Containment.report ("processor [" ++ w.settings.processorName ++ "]") fault
    refine .inr ⟨false, _, _, .inr ⟨⟨fault, rfl⟩, rfl⟩, (Spell.refl t).note (.log report),
      by simp, rfl, ?_⟩
    rw [bind_assoc, Act.bind_done (Act.catching_raised ran)]
    rfl

end

inductive Turned (name : String) (h : Host) : Turn σ → Host → Prop
  | unmoved (t : Turn σ) : Turned name h t h
  | ordered {o k effects} : h.step name (.order o) = some (k, effects) → Turned name h (.order o) k
  | proceeds {k} : Proceeds name h k → Turned name h .proceed k
  | advances {fuel k} : Advances name h k → Turned name h (.schedule fuel) k
  | cut {fuel k} : h.scheduling = .working → Obeys h k → Turned name h (.schedule fuel) k
  | passed {fuel k} (contained : Bool) {worker : Status} : h.scheduling = .working → Obeys h k →
      h.worker.Onward worker → Turned name h (.schedule fuel) (k.finish contained worker)

def Turn.schedules : Turn σ → Bool
  | .schedule _ => true
  | _ => false

def Turn.passes (h : Host) : Turn σ → Bool
  | .schedule _ => h.scheduling = .working
  | _ => false

section Civil

open Site (Spell)

variable {s : Settings} {o : Outside (Hosted σ)} {name : String} {h k : Host}
  {v v' : Hosted σ} {a b : Site (Hosted σ)}

theorem civil_hosted (name : String) (o : Outside σ) : Civil name o.hosted where
  moves {v v'} moves := by
    have same : v'.host = v.host := by
      cases moves with
      | @mediate _ _ f m registered =>
        obtain ⟨g, -, rfl⟩ := Option.map_eq_some_iff.1 registered
        rfl
      | _ => rfl
    rw [same]
    exact .refl
  acknowledge _ := .refl

theorem moves_of_halting {o : Outside σ} (moves : (o.halting name).Moves v v') :
    ∃ u, o.hosted.Moves v u ∧ u.rest = v'.rest ∧ Stirs name u.host v'.host := by
  cases moves with
  | deactivate => exact ⟨_, .deactivate v, rfl, .refl⟩
  | storeName => exact ⟨_, .storeName v, rfl, .refl⟩
  | createConsumer => exact ⟨_, .createConsumer v, rfl, .refl⟩
  | receive => exact ⟨_, .receive v, rfl, .refl⟩
  | mediate m registered => exact ⟨_, .mediate m registered, rfl, .refl⟩
  | sleep ms up => exact ⟨_, .sleep ms up v, rfl, .refl⟩
  | interrupt => exact ⟨_, .interrupt v, rfl, .refl⟩
  | send e m =>
    refine ⟨_, .send e m v, ?_⟩
    cases stopping : v.host.step name (.inner .stop) with
    | none =>
      simp only [Outside.halting, stopping]
      exact ⟨rfl, .refl⟩
    | some next =>
      simp only [Outside.halting, stopping]
      exact ⟨rfl, .step .refl rfl stopping⟩

theorem civil_halting (name : String) (o : Outside σ) : Civil name (o.halting name) where
  moves moves := by
    obtain ⟨u, hosted, -, stirs⟩ := moves_of_halting moves
    exact ((civil_hosted name o).moves hosted).trans stirs
  acknowledge _ := .refl

theorem moves_of_owned (moves : (owned name o).Moves v v') :
    o.Moves v v' ∨ v' = { v with host := (v.host.deactivate name).1 } := by
  cases moves with
  | deactivate => exact .inr rfl
  | storeName => exact .inl (.storeName v)
  | createConsumer => exact .inl (.createConsumer v)
  | receive => exact .inl (.receive v)
  | send e m => exact .inl (.send e m v)
  | mediate m registered => exact .inl (.mediate m registered)
  | sleep ms up => exact .inl (.sleep ms up v)
  | interrupt => exact .inl (.interrupt v)

/-- From inside a pass the host is asked to stop at most. -/
theorem obeys_of_moves (civil : Civil name o) (alive : h.scheduling.alive = true)
    (moves : (owned name o).Moves v v') (obeys : Obeys h v.host) : Obeys h v'.host := by
  rcases moves_of_owned moves with moves | rfl
  · exact obeys.trans ((civil.moves moves).obeys (by rw [obeys.scheduling, alive]))
  · exact obeys.trans (obeys_deactivate _ _)

theorem unmoved_obeys (civil : Civil s.processorName o) (alive : h.scheduling.alive = true)
    (past : List (Moment (Hosted σ))) :
    (runner s o).Unmoved (Worker.Lasting (fun v => Obeys h v.host) past) := by
  refine .of_world (fun moves obeys => obeys_of_moves civil alive moves obeys) (fun {v} obeys => ?_)
    past
  exact obeys.trans ((civil.acknowledge v).obeys (by rw [obeys.scheduling, alive]))

theorem obeys_composed (civil : Civil s.processorName o) {x : Act (Hosted σ) α}
    (composed : (runner s o).Composed x) (now : a.world.host.scheduling = .working) :
    Worker.Lasting (fun v => Obeys a.world.host v.host) a.moments (x a).2 :=
  (unmoved_obeys civil (by rw [now]; rfl) _).keeps composed a (.begin (.refl _))

structure Follows (name : String) (a : Site (Hosted σ)) (t : Turn σ) (b : Site (Hosted σ))
    (ms : List (Moment (Hosted σ))) : Prop where
  moments : b.moments = a.moments ++ ms
  turned : Turned name a.world.host t b.world.host
  beside : t.passes a.world.host = false → ∀ x ∈ ms, ∃ record, x.event = .log record
  seen : ∀ x ∈ ms, x.world.host = b.world.host ∨
    a.world.host.scheduling = .working ∧ Obeys a.world.host x.world.host

structure Ensues (name : String) (a : Site (Hosted σ)) (t : Turn σ) (r : Ending Unit)
    (b : Site (Hosted σ)) (ms : List (Moment (Hosted σ))) : Prop
    extends Follows name a t b ms where
  caught : ∀ fault, r ≠ .raised fault
  done : t.passes a.world.host = false → r = .done ()
  cut : r = .unfinished → b.world.host.scheduling = .working

theorem ensues_take {t : Turn σ} {m : Move}
    (turned : ∀ {k effects}, a.world.host.step name m = some (k, effects) →
      Turned name a.world.host t k) :
    ∃ r b ms, take name m a = (r, b) ∧ Ensues name a t r b ms := by
  obtain ⟨b, ms, step, spell, logs, -, -, moved⟩ := take_spec name m a
  refine ⟨_, b, ms, step, ⟨spell.moments, ?_, fun _ x hx => (logs x hx).1, fun x hx => ?_⟩,
    by simp, fun _ => rfl, by simp⟩
  case refine_2 => exact .inl (by rw [(logs x hx).2])
  rcases moved with ⟨-, rfl⟩ | ⟨effects, moved⟩
  · exact .unmoved t
  · exact turned moved

theorem pass_ended (civil : Civil s.processorName o) (now : a.world.host.scheduling = .working)
    (fuel : Nat) : ∃ r t, (runner s o).run fuel (entry a) = (r, t) ∧
      Worker.Lasting (fun v => Obeys a.world.host v.host) a.moments t ∧
      (r = .unfinished ∧ pass (runner s o) fuel a = (.unfinished, t) ∨
        ∃ contained b ms, (r = .done () ∧ contained = true ∨
            (∃ fault, r = .raised fault) ∧ contained = false) ∧
          pass (runner s o) fuel a = (.done (), b) ∧ b.moments = t.moments ++ ms ∧
          (∀ x ∈ ms, (∃ record, x.event = .log record) ∧
            (x.world.host = b.world.host ∨ x.world.host = t.world.host)) ∧
          b.world.host = t.world.host.finish contained t.status) := by
  have lasting := obeys_composed civil ((runner s o).composed_run fuel) (a := entry a) now
  obtain ⟨r, t, ran, ended⟩ := pass_spec (runner s o) fuel a
  rw [ran] at lasting
  refine ⟨r, t, ran, lasting, ended.imp_right ?_⟩
  rintro ⟨contained, u, ms, how, spell, logs, world, passed⟩
  obtain ⟨b, ns, finished, spell', logs', -, -, moved⟩ :=
    take_spec s.processorName (.finished contained t.status) u
  -- The host is still in the pass, so it takes the report of how the run has ended.
  rw [world, Host.step, if_pos (by rw [lasting.1.scheduling]; exact now)] at moved
  obtain ⟨effects, moved⟩ := moved.resolve_left (by simp)
  refine ⟨contained, b, ms ++ ns, how, passed.trans finished, ?_,
    List.forall_mem_append.2 ⟨fun x hx => ?_, fun x hx => ?_⟩,
    (congrArg Prod.fst (Option.some.inj moved)).symm⟩
  · rw [spell'.moments, spell.moments, List.append_assoc]
  · obtain ⟨log, before⟩ := logs x hx
    exact ⟨log, .inr (by rw [before])⟩
  · obtain ⟨log, after⟩ := logs' x hx
    exact ⟨log, .inl (by rw [after])⟩

theorem ensues_pass (civil : Civil s.processorName o) (now : a.world.host.scheduling = .working)
    (fuel : Nat) : ∃ r b ms, pass (runner s o) fuel a = (r, b) ∧
      Ensues s.processorName a (.schedule fuel) r b ms := by
  have passes : (Turn.schedule fuel : Turn σ).passes a.world.host = true := by
    simp [Turn.passes, now]
  obtain ⟨r, t, ran, lasting, ended⟩ := pass_ended civil now fuel
  obtain ⟨obeys, ms, grows, since⟩ := lasting
  have onward := ((runner s o).composed_run fuel).built.onward (entry a)
  rw [ran] at onward
  rcases ended with ⟨rfl, cut⟩ | ⟨contained, b, ns, -, passed, moments, logs, host⟩
  · exact ⟨_, t, ms, cut, ⟨grows, .cut now obeys, by simp [passes],
      fun x hx => .inr ⟨now, since x hx⟩⟩, by simp, by simp [passes],
      fun _ => by rw [obeys.scheduling, now]⟩
  · refine ⟨_, b, ms ++ ns, passed, ⟨?_, ?_, by simp [passes],
      List.forall_mem_append.2 ⟨fun x hx => .inr ⟨now, since x hx⟩, fun x hx => ?_⟩⟩, by simp,
      fun _ => rfl, by simp⟩
    · rw [moments, grows, List.append_assoc]
    · rw [host]
      exact .passed contained now obeys onward
    · exact (logs x hx).2.imp_right fun before => ⟨now, by rwa [before]⟩

theorem takeTurn_advance (w : Worker (Hosted σ)) (fuel : Nat)
    (idle : a.world.host.scheduling ≠ .working) :
    takeTurn w (.schedule fuel) a = take w.settings.processorName .advance a := by
  rw [takeTurn, Act.bind_done (Act.look_apply _ a), if_neg idle]

theorem takeTurn_pass (w : Worker (Hosted σ)) (fuel : Nat)
    (now : a.world.host.scheduling = .working) :
    takeTurn w (.schedule fuel) a = pass w fuel a := by
  rw [takeTurn, Act.bind_done (Act.look_apply _ a), if_pos now]

theorem turn_spec (civil : Civil s.processorName o) (t : Turn σ) (a : Site (Hosted σ)) :
    ∃ r b ms, takeTurn (runner s o) t a = (r, b) ∧ Ensues s.processorName a t r b ms := by
  cases t with
  | order o => exact ensues_take .ordered
  | proceed => exact ensues_take fun step => .proceeds (proceeds_of_proceed step)
  | meanwhile f =>
    exact ⟨_, _, [], rfl, ⟨by simp [Site.moments], .unmoved _, by simp, by simp⟩, by simp,
      fun _ => rfl, by simp⟩
  | schedule fuel =>
    by_cases now : a.world.host.scheduling = .working
    · rw [takeTurn_pass _ fuel now]
      exact ensues_pass civil now fuel
    · rw [takeTurn_advance _ fuel now]
      exact ensues_take fun step => .advances (advances_of_advance step)

theorem Turned.sound {t : Turn σ} (sound : Sound h) (turned : Turned name h t k) : Sound k := by
  cases turned with
  | unmoved => exact sound
  | ordered step => exact sound.step step
  | proceeds proceeds => exact sound.proceeds proceeds
  | advances advances => exact sound.advances advances
  | cut _ obeys => exact sound.obeys obeys
  | passed contained now obeys =>
    exact (sound.obeys obeys).finished (by rw [obeys.scheduling, now]) contained _

theorem live_spec (civil : Civil s.processorName o) (turns : List (Turn σ)) (a : Site (Hosted σ)) :
    ∃ r b ms, live (runner s o) turns a = (r, b) ∧ (∀ fault, r ≠ .raised fault) ∧
      b.moments = a.moments ++ ms ∧ (Sound a.world.host → Sound b.world.host) ∧
      (r = .unfinished → b.world.host.scheduling = .working) := by
  induction turns generalizing a with
  | nil => exact ⟨_, a, [], rfl, by simp, by simp, id, by simp⟩
  | cons t ts ih =>
    obtain ⟨r, b, ms, taken, ensues⟩ := turn_spec civil t a
    cases r with
    | raised fault => exact absurd rfl (ensues.caught fault)
    | unfinished =>
      exact ⟨_, b, ms, Act.bind_unfinished taken _, by simp, ensues.moments, ensues.turned.sound,
        ensues.cut⟩
    | done _ =>
      obtain ⟨r, c, ns, rest, caught, moments, sound, cut⟩ := ih b
      refine ⟨r, c, ms ++ ns, (Act.bind_done taken _).trans rest, caught, ?_,
        fun h => sound (ensues.turned.sound h), cut⟩
      rw [moments, ensues.moments, List.append_assoc]

theorem Turned.obeys {t : Turn σ} (turned : Turned name h t k) (beside : t.schedules = false)
    (alive : h.scheduling.alive = true) : Obeys h k := by
  cases turned with
  | unmoved => exact .refl h
  | ordered step => exact (stirs_of_step step rfl).elim id fun proceeds => proceeds.obeys alive
  | proceeds proceeds => exact proceeds.obeys alive
  | advances => cases beside
  | cut => cases beside
  | passed => cases beside

theorem Turn.not_passes {t : Turn σ} (beside : t.schedules = false) : t.passes h = false := by
  cases t <;> first | rfl | cases beside

theorem live_beside (civil : Civil s.processorName o) {turns : List (Turn σ)}
    (beside : ∀ t ∈ turns, t.schedules = false) (alive : a.world.host.scheduling.alive = true) :
    ∃ b ms, live (runner s o) turns a = (.done (), b) ∧ b.moments = a.moments ++ ms ∧
      (∀ x ∈ ms, ∃ record, x.event = .log record) ∧ Obeys a.world.host b.world.host := by
  induction turns generalizing a with
  | nil => exact ⟨a, [], rfl, by simp, by simp, .refl _⟩
  | cons t ts ih =>
    obtain ⟨first, later⟩ := List.forall_mem_cons.1 beside
    obtain ⟨r, b, ms, taken, ensues⟩ := turn_spec civil t a
    obtain rfl := ensues.done (Turn.not_passes first)
    have logs := ensues.beside (Turn.not_passes first)
    have obeys := ensues.turned.obeys first alive
    obtain ⟨c, ns, rest, moments, logs', obeys'⟩ := ih later (by rw [obeys.scheduling, alive])
    refine ⟨c, ms ++ ns, (Act.bind_done taken _).trans rest, ?_,
      List.forall_mem_append.2 ⟨logs, logs'⟩, obeys.trans obeys'⟩
    rw [moments, ensues.moments, List.append_assoc]

theorem take_advance (name : String) (alive : a.world.host.scheduling.alive = true)
    (idle : a.world.host.scheduling ≠ .working) :
    ∃ b ms, take name .advance a = (.done (), b) ∧ b.moments = a.moments ++ ms ∧
      (∀ x ∈ ms, ∃ record, x.event = .log record) ∧ Advances name a.world.host b.world.host := by
  obtain ⟨b, ms, taken, spell, logs, -, -, moved⟩ := take_spec name .advance a
  obtain ⟨k, effects, advance⟩ := exists_advance name alive idle
  obtain ⟨effects, moved⟩ := moved.resolve_left fun stuck => by
    have := advance.symm.trans stuck.1
    simp at this
  exact ⟨b, ms, taken, spell.moments, fun x hx => (logs x hx).1, advances_of_advance moved⟩

theorem sound_history (civil : Civil s.processorName o) (rest : σ) (turns : List (Turn σ)) :
    Sound (history (runner s o) rest turns).world.host := by
  obtain ⟨r, b, ms, live, -, -, sound, -⟩ := live_spec civil turns (start s rest)
  have history : history (runner s o) rest turns = b := congrArg Prod.snd live
  rw [history]
  exact sound (sound_fresh _)

end Civil

end Host

end Courier
