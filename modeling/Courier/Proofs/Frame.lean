import Courier.Proofs.Composition
import Courier.Proofs.History

/-!
What no single step of a worker disturbs, no history disturbs, whatever the worker does in it.
-/

namespace Courier

variable {σ α β : Type}

def Event.answers : Event → Bool
  | .received _ | .acknowledged _ => true
  | _ => false

inductive Outside.Moves (o : Outside σ) : σ → σ → Prop
  | deactivate (v : σ) : Moves o v (o.deactivate v).world
  | storeName (v : σ) : Moves o v (o.storeName v).world
  | createConsumer (v : σ) : Moves o v (o.createConsumer v).world
  | receive (v : σ) : Moves o v (o.receive v).world
  | send (e : Endpoint) (m : Message) (v : σ) : Moves o v (o.send e m v).world
  | mediate {name v f} (m : Message) : o.sequence? name v = some f → Moves o v (f m v).world
  | sleep (ms : Int) (up : Bool) (v : σ) : Moves o v (o.sleep ms up v).world
  | interrupt (v : σ) : Moves o v (o.interrupt v)

namespace Worker

structure Patient (w : Worker σ) (I : Site σ → Prop) : Prop where
  heard : ∀ {s e}, e.incidental = true → I s → I (s.note e)
  status : ∀ {s} (t : Status), I s → I (s.withStatus t)
  interrupted : ∀ {s}, I s → I (s.withWorld (w.outside.interrupt s.world))

structure Unmoved (w : Worker σ) (I : Site σ → Prop) : Prop where
  note : ∀ {s e}, e.answers = false → I s → I (s.note e)
  status : ∀ {s} (t : Status), I s → I (s.withStatus t)
  counted : ∀ {s} (name : String), I s → I (s.counted name)
  moved : ∀ {s v}, w.outside.Moves s.world v → I s → I (s.withWorld v)
  receive : Act.Keeps I w.receive
  acknowledged : ∀ {s}, I s → I ((s.withWorld (w.outside.acknowledge s.world).2).note
    (.acknowledged (w.outside.acknowledge s.world).1))

section

variable {w : Worker σ} {I : Site σ → Prop}

theorem not_answers_of_incidental {e : Event} (h : e.incidental = true) : e.answers = false := by
  cases e <;> first | rfl | cases h

theorem Unmoved.patient (h : w.Unmoved I) : w.Patient I where
  heard he := h.note (not_answers_of_incidental he)
  status := h.status
  interrupted := h.moved (.interrupt _)

namespace Patient

variable (h : w.Patient I)

include h

theorem log (severity : Severity) (text : String) : Act.Keeps I (w.log severity text) :=
  fun _ hs => h.heard rfl hs

theorem terminate : Act.Keeps I w.terminate :=
  fun _ hs => h.heard rfl (h.heard rfl (h.interrupted (h.status _ hs)))

theorem hearAll (as : List Aside) : Act.Keeps I (w.hearAll as) := by
  induction as with
  | nil => exact .pure _
  | cons a as ih =>
    refine Act.Keeps.bind ?_ fun _ => ih
    cases a with
    | terminate => exact h.terminate
    | raise => exact fun _ hs => h.status _ hs
    | log r => exact fun _ hs => h.heard rfl hs

theorem call {c : Call σ α} {s : Site σ} (hs : I (s.withWorld (c s.world).world)) :
    I (w.call c s).2 := by
  rw [Worker.call, Act.bind_done (Act.look_apply c s), take, bind_assoc,
    Act.bind_done (Act.change_withWorld _ _)]
  exact Act.Keeps.bind ((h.hearAll _).bind fun _ => .pure _) (fun _ => .ofExcept _) _ hs

end Patient

namespace Unmoved

variable (h : w.Unmoved I)

include h

theorem log (severity : Severity) (text : String) : Act.Keeps I (w.log severity text) :=
  h.patient.log severity text

theorem noting {e : Event} (he : e.answers = false) : Act.Keeps I (Act.note e) :=
  fun _ hs => h.note he hs

theorem ask {errand : Errand} {c : Call σ α} {s : Site σ}
    (hc : w.outside.Moves s.world (c s.world).world) (hs : I s) : I (w.ask errand c s).2 := by
  refine Act.Keeps.after (x := Act.catching (w.call c)) ?_ fun r => ?_
  · rw [Act.catching_site]
    exact h.patient.call (h.moved hc hs)
  · cases r with
    | ok _ => exact .pure _
    | error fault => exact (h.noting rfl).bind fun _ => .raise _

theorem asking {errand : Errand} {c : Call σ α} (hc : ∀ v, w.outside.Moves v (c v).world) :
    Act.Keeps I (w.ask errand c) :=
  fun _ hs => h.ask (hc _) hs

theorem createConsumer : Act.Keeps I w.createConsumer :=
  (h.noting rfl).bind fun _ => (h.asking .createConsumer).bind fun _ =>
    (h.noting rfl).bind fun _ => .pure _

theorem storeName : Act.Keeps I w.storeName :=
  (h.noting rfl).bind fun _ => (h.asking .storeName).bind fun _ =>
    (h.noting rfl).bind fun _ => .pure _

theorem isDeactivated : Act.Keeps I w.isDeactivated :=
  (Act.Keeps.look _).bind fun _ => (h.noting rfl).bind fun _ => .pure _

theorem isAlive : Act.Keeps I w.isAlive :=
  (Act.Keeps.look _).bind fun _ => (h.noting rfl).bind fun _ => .pure _

theorem deactivateOwner : Act.Keeps I w.deactivateOwner :=
  (h.noting rfl).bind fun _ => (h.asking .deactivate).bind fun _ => h.noting rfl

theorem clockSleep (ms : Int) : Act.Keeps I (w.clockSleep ms) :=
  (h.noting rfl).bind fun _ => Act.Keeps.status.bind fun _ => (h.asking (.sleep _ _)).bind fun _ =>
    (h.noting rfl).bind fun _ => .pure _

theorem acknowledge (id : String) : Act.Keeps I (w.acknowledge id) := by
  intro s hs
  rw [Worker.acknowledge, Act.bind_done (Act.query_apply _ s), Act.bind_done (Act.note_apply _ _)]
  exact Act.Keeps.onlyIf _ (h.log _ _) _ (h.acknowledged hs)

theorem send (e : Endpoint) (working : Message) : Act.Keeps I (w.send e working) := by
  refine (h.noting rfl).bind fun _ s hs => ?_
  rw [Act.bind_done (Act.look_apply _ s)]
  refine Act.Keeps.after ?_ fun r => ?_
  · rw [Act.catching_site]
    exact h.ask (.send e working s.world) hs
  · cases r with
    | ok _ => exact (h.noting rfl).bind fun _ => .pure _
    | error _ => exact .pure _

theorem dispatch (kind : Sequence.Kind) (m : Message) : Act.Keeps I (w.dispatch kind m) := by
  refine (h.noting rfl).bind fun _ s hs => ?_
  rw [Act.bind_done (Act.look_apply _ s)]
  generalize hf : (if w.settings.sequence kind = "" then none
    else w.outside.sequence? (w.settings.sequence kind) s.world) = found
  cases found with
  | none => exact (Act.Keeps.bind (h.noting rfl) fun _ => .pure _) s hs
  | some mediate =>
    have registered : w.outside.sequence? (w.settings.sequence kind) s.world = some mediate := by
      split at hf
      · cases hf
      · exact hf
    have begun : I (s.note (.mediating kind (w.settings.sequence kind) m)) := h.note rfl hs
    dsimp only
    rw [Act.bind_done (Act.note_apply _ s), Act.bind_done (Act.look_apply _ _)]
    refine Act.Keeps.after ?_ fun r => ?_
    · rw [Act.catching_site]
      exact h.ask (.mediate m registered) begun
    · cases r with
      | ok _ => exact (h.noting rfl).bind fun _ => .pure _
      | error _ => exact .pure _

theorem keeps {x : Act σ α} (hx : w.Composed x) : Act.Keeps I x := by
  induction hx with
  | pure a => exact .pure a
  | raise fault => exact .raise fault
  | stall => exact .stall
  | bind _ _ ihx ihf => exact ihx.bind ihf
  | catching _ ih => exact ih.catching
  | status => exact .status
  | setStatus f _ => exact fun _ hs => h.status _ hs
  | count counter => exact fun _ hs => h.counted counter hs
  | runBegun => exact h.noting rfl
  | givingUp fault => exact h.noting rfl
  | endpoints => exact .look _
  | now => exact .look _
  | log severity text => exact h.log severity text
  | terminate => exact h.patient.terminate
  | createConsumer => exact h.createConsumer
  | storeName => exact h.storeName
  | isDeactivated => exact h.isDeactivated
  | isAlive => exact h.isAlive
  | send e working => exact h.send e working
  | acknowledge id => exact h.acknowledge id
  | clockSleep ms => exact h.clockSleep ms
  | deactivateOwner => exact h.deactivateOwner
  | dispatch kind m => exact h.dispatch kind m
  | fetch _ _ ih => exact h.receive.catching.bind ih

theorem live (visits : List (Visit σ))
    (hf : ∀ f, .meanwhile f ∈ visits → ∀ s, I s → I (s.withWorld (f s.world))) :
    Act.Keeps I (w.live visits) := by
  induction visits with
  | nil => exact .pure _
  | cons v vs ih =>
    have later := ih fun f hv => hf f (List.mem_cons_of_mem _ hv)
    refine Act.Keeps.bind (Act.Keeps.catching ?_) fun _ => later
    cases v with
    | run fuel => exact h.keeps (w.composed_run fuel)
    | terminate => exact h.patient.terminate
    | destroy => exact h.patient.terminate
    | meanwhile f => exact hf f (by simp)

end Unmoved

def Lasting (J : σ → Prop) (past : List (Moment σ)) (s : Site σ) : Prop :=
  J s.world ∧ ∃ ms, s.moments = past ++ ms ∧ ∀ x ∈ ms, J x.world

section Lasting

variable {J : σ → Prop} {past : List (Moment σ)} {s : Site σ}

theorem Lasting.begin (h : J s.world) : Lasting J s.moments s := ⟨h, [], by simp, by simp⟩

theorem Lasting.note (e : Event) (h : Lasting J past s) : Lasting J past (s.note e) := by
  obtain ⟨world, ms, moments, since⟩ := h
  refine ⟨world, ms ++ [s.moment e], by simp [moments], ?_⟩
  exact List.forall_mem_append.2 ⟨since, List.forall_mem_singleton.2 world⟩

theorem Lasting.withWorld {v : σ} (h : Lasting J past s) (world : J v) :
    Lasting J past (s.withWorld v) := ⟨world, h.2⟩

end Lasting

theorem Unmoved.of_notes (note : ∀ {s} (e : Event), I s → I (s.note e))
    (status : ∀ {s} (t : Status), I s → I (s.withStatus t))
    (counted : ∀ {s} (name : String), I s → I (s.counted name))
    (moved : ∀ {s v}, w.outside.Moves s.world v → I s → I (s.withWorld v))
    (acknowledge : ∀ {s}, I s → I (s.withWorld (w.outside.acknowledge s.world).2)) :
    w.Unmoved I where
  note _ := note _
  status := status
  counted := counted
  moved := moved
  receive := by
    have patient : w.Patient I := ⟨fun _ => note _, status, moved (.interrupt _)⟩
    have noting (e : Event) : Act.Keeps I (Act.note e) := fun _ hs => note e hs
    refine (noting _).bind fun _ => Act.Keeps.bind (Act.Keeps.bind ?_ fun r => ?_) fun m =>
      (noting _).bind fun _ => .pure _
    · intro s hs
      rw [Act.catching_site]
      exact patient.call (moved (.receive s.world) hs)
    · cases r with
      | ok _ => exact .pure _
      | error fault => exact (noting _).bind fun _ => .raise _
  acknowledged hs := note _ (acknowledge hs)

theorem Unmoved.of_world {J : σ → Prop} (moves : ∀ {v v'}, w.outside.Moves v v' → J v → J v')
    (acknowledge : ∀ {v}, J v → J (w.outside.acknowledge v).2) (past : List (Moment σ)) :
    w.Unmoved (Lasting J past) :=
  .of_notes (fun e hs => hs.note e) (fun _ hs => hs) (fun _ hs => hs)
    (fun hv hs => hs.withWorld (moves hv hs.1)) fun hs => hs.withWorld (acknowledge hs.1)

theorem Unmoved.of_moments {P : List (Moment σ) → Prop} (h : ∀ {ms} ns, P ms → P (ms ++ ns)) :
    w.Unmoved fun s => P s.moments where
  note {s e} _ hs := by simpa using h [s.moment e] hs
  status _ hs := by simpa using hs
  counted _ hs := by simpa using hs
  moved _ hs := by simpa using hs
  receive s hs := by
    obtain ⟨r, s', ms, receive, spell, -⟩ := w.receive_spec s
    rw [receive, spell.moments]
    exact h ms hs
  acknowledged {s} hs := by
    rw [Site.moments_note, Site.moments_withWorld]
    exact h _ hs

end

end Worker

end Courier
