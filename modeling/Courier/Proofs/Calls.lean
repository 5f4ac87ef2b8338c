import Courier.Proofs.Step

/-!
The calls of a worker as equations: how each of them ends, and the site it leaves, given by the
reply of the collaborator alone.
-/

namespace Courier

variable {σ α : Type}

theorem Act.catching_ofExcept {x : Act σ α} {r : Except Fault α} {s s' : Site σ}
    (h : x s = (.ofExcept r, s')) : catching x s = (.done r, s') := by
  cases r with
  | ok a => exact catching_done h
  | error fault => exact catching_raised h

namespace Worker

variable (w : Worker σ)

open Site (Spell world_note)

def heard (r : Reply σ α) (s : Site σ) : Site σ := (w.hearAll r.asides (s.withWorld r.world)).2

theorem hearAll_apply (as : List Aside) (s : Site σ) :
    w.hearAll as s = (.done (), (w.hearAll as s).2) := by
  obtain ⟨s', ms, hear, -⟩ := w.hearAll_spec as s
  rw [hear]

theorem spell_heard (r : Reply σ α) (s : Site σ) :
    ∃ ms, Spell s (w.heard r s) ms ∧ ∀ x ∈ ms, x.event.incidental = true := by
  obtain ⟨s', ms, hear, spell, incidental⟩ := w.hearAll_spec r.asides (s.withWorld r.world)
  refine ⟨ms, ?_, incidental⟩
  rw [heard, hear]
  exact ((Spell.refl s).withWorld _).trans spell

theorem call_apply (c : Call σ α) (s : Site σ) :
    w.call c s = (.ofExcept (c s.world).outcome, w.heard (c s.world) s) := by
  rw [call, Act.bind_done (Act.look_apply c s), take, bind_assoc,
    Act.bind_done (Act.change_withWorld _ _), bind_assoc, Act.bind_done (w.hearAll_apply _ _),
    pure_bind, Act.ofExcept_apply, heard]

theorem ask_apply (errand : Errand) (c : Call σ α) (s : Site σ) :
    w.ask errand c s = (.ofExcept (c s.world).outcome, match (c s.world).outcome with
      | .ok _ => w.heard (c s.world) s
      | .error fault => (w.heard (c s.world) s).note (.failed errand fault)) := by
  have call := w.call_apply c s
  rw [ask]
  cases outcome : (c s.world).outcome with
  | ok a =>
    rw [outcome] at call
    rw [Act.bind_done (Act.catching_done call)]
    rfl
  | error fault =>
    rw [outcome] at call
    rw [Act.bind_done (Act.catching_raised call)]
    rfl

def answered (errand : Errand) (ended : α → Event) (r : Reply σ α) (s : Site σ) : Site σ :=
  (w.heard r s).note (.closing errand ended r.outcome)

theorem noted_apply (begun : Event) (errand : Errand) (c : Call σ α) (ended : α → Event)
    (s : Site σ) :
    (do
      Act.note begun
      let a ← w.ask errand c
      Act.note (ended a)
      return a) s = (.ofExcept (c s.world).outcome,
        w.answered errand ended (c s.world) (s.note begun)) := by
  have ask := w.ask_apply errand c (s.note begun)
  rw [world_note] at ask
  rw [Act.bind_done (Act.note_apply begun s), answered]
  cases outcome : (c s.world).outcome with
  | ok a =>
    rw [outcome] at ask
    rw [Act.bind_done ask]
    rfl
  | error fault =>
    rw [outcome] at ask
    rw [Act.bind_raised ask]
    rfl

theorem createConsumer_apply (s : Site σ) :
    w.createConsumer s = (.ofExcept (w.outside.createConsumer s.world).outcome,
      w.answered .consumer .consumer (w.outside.createConsumer s.world)
        (s.note .requestingConsumer)) :=
  w.noted_apply _ _ _ _ s

theorem storeName_apply (s : Site σ) :
    w.storeName s = (.ofExcept (w.outside.storeName s.world).outcome,
      w.answered .storeName .storeNamed (w.outside.storeName s.world) (s.note .namingStore)) :=
  w.noted_apply _ _ _ _ s

theorem receive_apply (s : Site σ) :
    w.receive s = (.ofExcept (w.outside.receive s.world).outcome,
      w.answered .fetch .received (w.outside.receive s.world) (s.note .receiving)) :=
  w.noted_apply _ _ _ _ s

theorem clockSleep_apply (ms : Int) (s : Site σ) :
    w.clockSleep ms s = (.ofExcept (w.outside.sleep ms s.status.terminated s.world).outcome,
      w.answered .sleep .slept (w.outside.sleep ms s.status.terminated s.world)
        (s.note (.sleeping ms))) :=
  w.noted_apply _ _ (w.outside.sleep ms s.status.terminated) _ s

theorem send_apply (e : Endpoint) (m : Message) (s : Site σ) :
    w.send e m s = (.done ((w.outside.send e m s.world).outcome,
      (w.outside.send e m s.world).message),
      w.answered .exchange .sent (w.outside.send e m s.world).toReply (s.note (.sending e m))) := by
  rw [send, Act.bind_done (Act.note_apply _ s), Act.bind_done (Act.look_apply _ _), world_note,
    answered]
  generalize w.outside.send e m s.world = r
  have ask := w.ask_apply .exchange (fun _ => r.toReply) (s.note (.sending e m))
  cases outcome : r.outcome with
  | ok response =>
    rw [outcome] at ask
    rw [Act.bind_done (Act.catching_done ask)]
    rfl
  | error fault =>
    rw [outcome] at ask
    rw [Act.bind_done (Act.catching_raised ask)]
    rfl

def registered (kind : Sequence.Kind) (v : σ) : Option (Message → σ → Handled σ Unit) :=
  if w.settings.sequence kind = "" then none else w.outside.sequence? (w.settings.sequence kind) v

theorem dispatch_missing {kind : Sequence.Kind} {s : Site σ}
    (h : w.registered kind s.world = none) (m : Message) :
    w.dispatch kind m s = (.done (.ok false, m), (s.note (.dispatching kind m)).note (.log
      ⟨.warn, Sequence.missing w.settings.processorName kind (w.settings.sequence kind)⟩)) := by
  rw [registered] at h
  rw [dispatch, Act.bind_done (Act.note_apply _ s), Act.bind_done (Act.look_apply _ _), world_note,
    h]
  rfl

theorem dispatch_found {kind : Sequence.Kind} {s : Site σ}
    {mediate : Message → σ → Handled σ Unit} (h : w.registered kind s.world = some mediate)
    (m : Message) :
    w.dispatch kind m s =
      (.done ((mediate m s.world).outcome.map fun _ => true, (mediate m s.world).message),
        w.answered (.sequence kind) (fun _ => .mediated kind (mediate m s.world).message)
          (mediate m s.world).toReply
          ((s.note (.dispatching kind m)).note
            (.mediating kind (w.settings.sequence kind) m))) := by
  rw [registered] at h
  rw [dispatch, Act.bind_done (Act.note_apply _ s), Act.bind_done (Act.look_apply _ _), world_note,
    h]
  dsimp only
  rw [Act.bind_done (Act.note_apply _ _), Act.bind_done (Act.look_apply _ _), world_note,
    world_note, answered]
  generalize mediate m s.world = r
  have ask := w.ask_apply (.sequence kind) (fun _ => r.toReply)
    ((s.note (.dispatching kind m)).note (.mediating kind (w.settings.sequence kind) m))
  cases outcome : r.outcome with
  | ok _ =>
    rw [outcome] at ask
    rw [Act.bind_done (Act.catching_done ask)]
    rfl
  | error fault =>
    rw [outcome] at ask
    rw [Act.bind_done (Act.catching_raised ask)]
    rfl

end Worker

end Courier
