import Courier.Proofs.Calls
import Courier.Proofs.Frame
import Courier.Rehearsal
import Mathlib.Data.List.Induction

/-!
What is registered, and what runs. A registry of sequences is edited from outside, and by the
sequences that it holds while they are running. A dispatch runs the sequence that was registered
last under its name, unless that has been removed since; and it runs it to its own end, whatever
becomes of the registration meanwhile.
-/

namespace Courier.Sequence

variable {σ β : Type}

inductive Edit (β : Type)
  | added (name : String) (body : β)
  | removed (name : String)

namespace Edit

def name : Edit β → String
  | added name _ | removed name => name

def body? : Edit β → Option β
  | added _ body => some body
  | removed _ => none

end Edit

def Registry.edited (r : Registry β) : Edit β → Registry β
  | .added name body => r.insert name body
  | .removed name => r.remove name

/-- A sequence was registered under the name, and nothing has been done about the name since. -/
def Stands (past : List (Edit β)) (name : String) (b : β) : Prop :=
  ∃ before after, past = before ++ .added name b :: after ∧ ∀ e ∈ after, e.name ≠ name

def standing (past : List (Edit β)) (name : String) : Option β :=
  (past.reverse.find? (·.name = name)).bind Edit.body?

section Standing

variable {past : List (Edit β)} {name : String} {b : β}

theorem standing_concat (past : List (Edit β)) (e : Edit β) (name : String) :
    standing (past ++ [e]) name = if e.name = name then e.body? else standing past name := by
  rw [standing, List.reverse_concat, List.find?_cons]
  by_cases same : e.name = name <;> simp [same, standing]

theorem standing_eq_some_iff : standing past name = some b ↔ Stands past name b := by
  rw [standing, Option.bind_eq_some_iff]
  constructor
  · rintro ⟨e, found, body⟩
    obtain ⟨named, later, earlier, split, untouched⟩ := List.find?_eq_some_iff_append.1 found
    cases e with
    | added other _ =>
      cases body
      obtain rfl : other = name := of_decide_eq_true named
      refine ⟨earlier.reverse, later.reverse, ?_, fun e he => ?_⟩
      · rw [← List.reverse_reverse past, split]
        simp
      · simpa using untouched e (List.mem_reverse.1 he)
    | removed => cases body
  · rintro ⟨before, after, rfl, untouched⟩
    refine ⟨.added name b, List.find?_eq_some_iff_append.2 ⟨by simp [Edit.name], after.reverse,
      before.reverse, by simp, fun e he => ?_⟩, rfl⟩
    simpa using untouched e (List.mem_reverse.1 he)

theorem Registry.find_edited (r : Registry β) (e : Edit β) (name : String) :
    (r.edited e).find name = if e.name = name then e.body? else r.find name := by
  cases e with
  | added name' body => exact find_add rfl name
  | removed name' => exact r.find_remove name' name

theorem Registry.find_foldl_edited (past : List (Edit β)) (name : String) :
    (past.foldl edited ∅).find name = standing past name := by
  induction past using List.reverseRecOn with
  | nil => rfl
  | append_singleton past e ih =>
    rw [List.foldl_append, List.foldl_cons, List.foldl_nil, find_edited, ih, standing_concat]

end Standing

/-- One part of a sequence: what it makes of a message and of the world, and what it does to the
registry in that world. -/
structure Mediator (registry : σ → Registry β) where
  mediate : Message → σ → Handled σ Unit
  edits : Message → σ → List (Edit β)
  registry_mediate : ∀ m v,
    registry (mediate m v).world = (edits m v).foldl Registry.edited (registry v)

def joined (first rest : Handled σ Unit) : Handled σ Unit :=
  { rest with asides := first.asides ++ rest.asides }

namespace Mediator

variable {registry : σ → Registry β}

def runAll : List (Mediator registry) → Message → σ → Handled σ Unit
  | [], m, v => ⟨⟨.ok (), v, []⟩, m⟩
  | a :: as, m, v =>
    let first := a.mediate m v
    match first.outcome with
    | .ok _ => joined first (runAll as first.message first.world)
    | .error _ => first

def editsAll : List (Mediator registry) → Message → σ → List (Edit β)
  | [], _, _ => []
  | a :: as, m, v =>
    let first := a.mediate m v
    a.edits m v ++ match first.outcome with
      | .ok _ => editsAll as first.message first.world
      | .error _ => []

variable {a : Mediator registry} {as : List (Mediator registry)} {m : Message} {v : σ}

theorem runAll_cons_ok (h : (a.mediate m v).outcome = .ok ()) : runAll (a :: as) m v =
    joined (a.mediate m v) (runAll as (a.mediate m v).message (a.mediate m v).world) := by
  simp only [runAll, h]

theorem runAll_cons_error {fault : Fault} (h : (a.mediate m v).outcome = .error fault) :
    runAll (a :: as) m v = a.mediate m v := by
  simp only [runAll, h]

theorem runAll_append (cs : List (Mediator registry)) (h : (runAll as m v).outcome = .ok ()) :
    runAll (as ++ cs) m v =
      joined (runAll as m v) (runAll cs (runAll as m v).message (runAll as m v).world) := by
  induction as generalizing m v with
  | nil => rfl
  | cons a as ih =>
    cases first : (a.mediate m v).outcome with
    | ok =>
      rw [runAll_cons_ok first] at h ⊢
      rw [List.cons_append, runAll_cons_ok first, ih h]
      simp [joined]
    | error fault =>
      rw [runAll_cons_error first, first] at h
      cases h

theorem registry_runAll (as : List (Mediator registry)) (m : Message) (v : σ) :
    registry (runAll as m v).world = (editsAll as m v).foldl Registry.edited (registry v) := by
  induction as generalizing m v with
  | nil => rfl
  | cons a as ih =>
    cases first : (a.mediate m v).outcome with
    | ok =>
      rw [runAll_cons_ok first, editsAll, first, List.foldl_append, ← a.registry_mediate]
      exact ih _ _
    | error fault =>
      rw [runAll_cons_error first, editsAll, first, List.append_nil, ← a.registry_mediate]

end Mediator

structure Missed (w : Worker σ) (kind : Kind) (m : Message) (s : Site σ) : Prop where
  result : (w.dispatch kind m s).1 = .done (.ok false, m)
  moments : (w.dispatch kind m s).2.moments = s.moments ++ [s.moment (.dispatching kind m),
    s.moment (.log ⟨.warn, missing w.settings.processorName kind (w.settings.sequence kind)⟩)]
  world : (w.dispatch kind m s).2.world = s.world

theorem missed_of_registered {w : Worker σ} {kind : Kind} {s : Site σ}
    (h : w.registered kind s.world = none) (m : Message) : Missed w kind m s where
  result := by rw [w.dispatch_missing h]
  moments := by
    rw [w.dispatch_missing h, Site.moments_note, Site.moments_note, List.append_assoc]
    rfl
  world := by rw [w.dispatch_missing h]; rfl

structure Repertoire (σ β : Type) where
  registry : σ → Registry β
  register : Registry β → σ → σ
  body : β → List (Mediator registry)
  registry_register : ∀ r v, registry (register r v) = r

inductive Operation (β : Type)
  | add (name : String) (b? : Option β)
  | remove (name : String)
  | dispatch (settings : Settings) (kind : Kind) (m : Message)

namespace Repertoire

variable (r : Repertoire σ β) (o : Outside σ)

def run (b : β) : Message → σ → Handled σ Unit := Mediator.runAll (r.body b)

structure Held : Prop where
  sequence? : ∀ name v, o.sequence? name v = ((r.registry v).find name).map r.run
  interrupt : ∀ v, r.registry (o.interrupt v) = r.registry v

def add (name : String) (b? : Option β) : Act σ Unit := do
  let registry ← Act.look r.registry
  let edited ← Act.ofExcept (registry.add name b?)
  Act.change fun s => { s with world := r.register edited s.world }

def remove (name : String) : Act σ Unit :=
  Act.change fun s => { s with world := r.register ((r.registry s.world).remove name) s.world }

def perform (s : Site σ) : Operation β → Site σ
  | .add name b? => (r.add name b? s).2
  | .remove name => (r.remove name s).2
  | .dispatch settings kind m => (Worker.dispatch ⟨settings, o⟩ kind m s).2

def history (s : Site σ) (ops : List (Operation β)) : Site σ := ops.foldl (r.perform o) s

def due (past : List (Edit β)) (settings : Settings) (kind : Kind) : Option β :=
  if settings.sequence kind = "" then none else standing past (settings.sequence kind)

def made (past : List (Edit β)) (v : σ) : Operation β → List (Edit β)
  | .add name (some b) => [.added name b]
  | .add _ none => []
  | .remove name => [.removed name]
  | .dispatch settings kind m => match due past settings kind with
    | some b => Mediator.editsAll (r.body b) m v
    | none => []

/-- All edits up to the end of some operations, in the order in which they were made. -/
def chronicle (past : List (Edit β)) (s : Site σ) : List (Operation β) → List (Edit β)
  | [] => past
  | op :: ops => chronicle (past ++ r.made past s.world op) (r.perform o s op) ops

structure Ran (w : Worker σ) (kind : Kind) (m : Message) (b : β) (s : Site σ) : Prop where
  result : (w.dispatch kind m s).1 =
    .done ((r.run b m s.world).outcome.map fun _ => true, (r.run b m s.world).message)
  moments : ∃ ms x, (w.dispatch kind m s).2.moments = s.moments ++ s.moment (.dispatching kind m) ::
      s.moment (.mediating kind (w.settings.sequence kind) m) :: (ms ++ [x]) ∧
    (∀ y ∈ ms, y.event.incidental = true) ∧
    x.event = .closing (.sequence kind) (fun _ => .mediated kind (r.run b m s.world).message)
      (r.run b m s.world).outcome
  registry : r.registry (w.dispatch kind m s).2.world =
    (Mediator.editsAll (r.body b) m s.world).foldl Registry.edited (r.registry s.world)
  world : (r.run b m s.world).asides = [] →
    (w.dispatch kind m s).2.world = (r.run b m s.world).world
  whole : ∀ as cs, r.body b = as ++ cs →
    let first := Mediator.runAll as m s.world
    first.outcome = .ok () →
    r.run b m s.world = joined first (Mediator.runAll cs first.message first.world)

variable {r : Repertoire σ β} {o : Outside σ} {kind : Kind} {b : β} {s : Site σ}
  {past : List (Edit β)}

theorem registry_heard {w : Worker σ} (held : r.Held w.outside) (reply : Reply σ Unit)
    (s : Site σ) : r.registry (w.heard reply s).world = r.registry reply.world := by
  have patient : w.Patient fun t => r.registry t.world = r.registry reply.world :=
    { heard := fun _ ht => ht
      status := fun _ ht => ht
      interrupted := fun ht => (held.interrupt _).trans ht }
  exact patient.hearAll reply.asides _ rfl

theorem ran_of_registered {w : Worker σ} (held : r.Held w.outside)
    (h : w.registered kind s.world = some (r.run b)) (m : Message) : r.Ran w kind m b s where
  result := by rw [w.dispatch_found h]
  moments := by
    obtain ⟨ms, spell, incidental⟩ := w.spell_heard (r.run b m s.world).toReply
      ((s.note (.dispatching kind m)).note (.mediating kind (w.settings.sequence kind) m))
    rw [w.dispatch_found h, Worker.answered, Site.moments_note, spell.moments, Site.moments_note,
      Site.moments_note]
    simp only [List.append_assoc, List.cons_append, List.nil_append]
    exact ⟨ms, _, rfl, incidental, rfl⟩
  registry := by
    rw [w.dispatch_found h, Worker.answered, Site.world_note, registry_heard held]
    exact Mediator.registry_runAll _ m s.world
  world quiet := by
    rw [w.dispatch_found h, Worker.answered, Site.world_note, Worker.heard, quiet]
    rfl
  whole as cs split ok := by rw [run, split, Mediator.runAll_append cs ok]

theorem registered_eq (held : r.Held o) (h : r.registry s.world = past.foldl Registry.edited ∅)
    (settings : Settings) (kind : Kind) : Worker.registered ⟨settings, o⟩ kind s.world =
      (due past settings kind).map r.run := by
  rw [Worker.registered, due, held.sequence?, h, Registry.find_foldl_edited]
  split <;> rfl

theorem registry_perform (held : r.Held o) (h : r.registry s.world = past.foldl Registry.edited ∅)
    (op : Operation β) : r.registry (r.perform o s op).world =
      (past ++ r.made past s.world op).foldl Registry.edited ∅ := by
  rw [List.foldl_append, ← h]
  cases op with
  | add name b? =>
    cases b? with
    | some b => exact r.registry_register _ _
    | none => rfl
  | remove name => exact r.registry_register _ _
  | dispatch settings kind m =>
    have registered := registered_eq held h settings kind
    rw [perform, made]
    cases due : due past settings kind with
    | some b =>
      rw [due] at registered
      exact (ran_of_registered held registered m).registry
    | none =>
      rw [due] at registered
      rw [(missed_of_registered registered m).world]
      rfl

theorem registry_history (held : r.Held o) (h : r.registry s.world = past.foldl Registry.edited ∅)
    (ops : List (Operation β)) : r.registry (r.history o s ops).world =
      (r.chronicle o past s ops).foldl Registry.edited ∅ := by
  induction ops generalizing past s with
  | nil => exact h
  | cons op ops ih => exact ih (registry_perform held h op)

/-- Each dispatch in a history runs the sequence that was registered last under its name, by an
operation or by a sequence while it was running, and that has not been removed since. It is run once,
on the message given and to its own end, and its failure comes back with the message as it left it.
Where there is no name or nothing stands, a warning is all that comes of it. What cannot be
registered changes nothing. -/
theorem dispatch_runs_standing (held : r.Held o) (start : Site σ)
    (empty : r.registry start.world = ∅) (ops : List (Operation β)) :
    let s := r.history o start ops
    let past := r.chronicle o [] start ops
    (∀ settings kind m,
      (∀ b, settings.sequence kind ≠ "" → Stands past (settings.sequence kind) b →
        r.Ran ⟨settings, o⟩ kind m b s) ∧
      (settings.sequence kind = "" ∨ (∀ b, ¬ Stands past (settings.sequence kind) b) →
        Missed ⟨settings, o⟩ kind m s)) ∧
    ∀ name, r.add name none s =
      (.raised (.invalidArgument "SequenceRegistry: null sequence"), s) := by
  intro s past
  have registry : r.registry s.world = past.foldl Registry.edited ∅ :=
    registry_history held empty ops
  refine ⟨fun settings kind m => ⟨fun b named stands => ?_, fun missing => ?_⟩, fun _ => rfl⟩
  · have due : due past settings kind = some b := by
      rw [Repertoire.due, if_neg named, standing_eq_some_iff.2 stands]
    refine ran_of_registered (w := ⟨settings, o⟩) held ?_ m
    rw [registered_eq held registry, due]
    rfl
  · have due : due past settings kind = none := by
      rw [Repertoire.due, ite_eq_left_iff, Option.eq_none_iff_forall_ne_some]
      intro named b stands
      exact missing.elim named fun none => none b (standing_eq_some_iff.1 stands)
    refine missed_of_registered (w := ⟨settings, o⟩) ?_ m
    rw [registered_eq held registry, due]
    rfl

end Repertoire

end Courier.Sequence

namespace Courier.Rehearsal

open Sequence (Edit Mediator Repertoire)

def Action.edits : Action → List (Edit (List Action))
  | .addSequence name actions => [.added name actions]
  | .removeSequence name => [.removed name]
  | _ => []

def mediator (hasWorker : Bool) (a : Action) : Mediator Stand.sequences where
  mediate m v :=
    let (outcome, c) := (alone hasWorker).perform ⟨v, some m, []⟩ a
    ⟨⟨outcome, c.world, c.asides⟩, c.message.getD m⟩
  edits _ _ := a.edits
  registry_mediate m v := by cases a <;> rfl

def repertoire (hasWorker : Bool) : Repertoire Stand (List Action) where
  registry := Stand.sequences
  register r v := { v with sequences := r }
  body actions := actions.map (mediator hasWorker)
  registry_register _ _ := rfl

section

variable {hasWorker : Bool}

theorem perform_eq_mediate (v : Stand) (m : Message) (asides : List Aside) (a : Action) :
    (alone hasWorker).perform ⟨v, some m, asides⟩ a =
      (((mediator hasWorker a).mediate m v).outcome,
        ⟨((mediator hasWorker a).mediate m v).world,
          some ((mediator hasWorker a).mediate m v).message,
          asides ++ ((mediator hasWorker a).mediate m v).asides⟩) := by
  cases a <;> simp [mediator, Setting.perform, Setting.onMessage, Setting.onStand, alone]

theorem performAll_eq_run (v : Stand) (m : Message) (asides : List Aside)
    (actions : List Action) :
    (alone hasWorker).performAll ⟨v, some m, asides⟩ actions =
      (((repertoire hasWorker).run actions m v).outcome,
        ⟨((repertoire hasWorker).run actions m v).world,
          some ((repertoire hasWorker).run actions m v).message,
          asides ++ ((repertoire hasWorker).run actions m v).asides⟩) := by
  induction actions generalizing v m asides with
  | nil => simp [Setting.performAll, repertoire, Repertoire.run, Mediator.runAll]
  | cons a as ih =>
    have cons : (repertoire hasWorker).run (a :: as) =
        Mediator.runAll (mediator hasWorker a :: as.map (mediator hasWorker)) := rfl
    rw [Setting.performAll, perform_eq_mediate, cons]
    cases first : ((mediator hasWorker a).mediate m v).outcome with
    | ok =>
      rw [Mediator.runAll_cons_ok first]
      dsimp only
      rw [ih]
      simp [Sequence.joined, Repertoire.run, repertoire]
    | error fault =>
      rw [Mediator.runAll_cons_error first, first]

theorem repertoire_held (script : Script) :
    (repertoire hasWorker).Held (script.outside (alone hasWorker)) where
  sequence? name v := by
    change Option.map _ (v.sequences.find name) = Option.map _ (v.sequences.find name)
    congr 1
    funext actions m v
    rw [Setting.mediated, performAll_eq_run]
    dsimp only
    generalize (repertoire hasWorker).run actions m v = handled
    obtain ⟨⟨_ | _, _, _⟩, _⟩ := handled <;> rfl
  interrupt _ := rfl

end

open Sequence in
theorem dispatch_runs_standing_replaced :
    let script : Script := {
      ownerName := "owner", storeName := "store", openings := [], receipts := [], receiptMs := 0
      receiptLimit := none, acknowledgements := [], exchanges := [], rests := []
      onDeactivate := [] }
    let r := repertoire false
    let o := script.outside (alone false)
    let settings : Settings := { faultSequence := "mend", replySequence := "mend" }
    let w : Worker Stand := ⟨settings, o⟩
    let start := w.fresh (.fresh [] ∅ ∅ true false)
    let m : Message := ⟨"1", ∅, .null⟩
    let second := [Action.setProperty "turn" "second"]
    let first := [Action.removeSequence "mend", .addSequence "mend" second,
      .setProperty "turn" "first", .fail (.runtime "late")]
    let before := [Sequence.Operation.add "mend" (some first)]
    let after := before ++ [.dispatch settings .fault m]
    let s := r.history o start before
    let t := r.history o start after
    r.Held o ∧ r.registry start.world = ∅ ∧
    Stands (r.chronicle o [] start before) "mend" first ∧
    (w.dispatch .fault m s).1 = .done (.error (.runtime "late"), m.setProperty "turn" "first") ∧
    Stands (r.chronicle o [] start after) "mend" second ∧
    (w.dispatch .reply m t).1 = .done (.ok true, m.setProperty "turn" "second") ∧
    Missed w .deactivate m t ∧
    r.add "mend" none t = (.raised (.invalidArgument "SequenceRegistry: null sequence"), t) := by
  intro script r o settings w start m second first before after s t
  have held : r.Held o := repertoire_held script
  obtain ⟨now, -⟩ := Repertoire.dispatch_runs_standing held start rfl before
  obtain ⟨later, null⟩ := Repertoire.dispatch_runs_standing held start rfl after
  have stands : Stands (r.chronicle o [] start before) "mend" first := ⟨[], [], rfl, by simp⟩
  have replaced : Stands (r.chronicle o [] start after) "mend" second :=
    ⟨[.added "mend" first, .removed "mend"], [], rfl, by simp⟩
  exact ⟨held, rfl, stands, ((now settings .fault m).1 first (by decide) stands).result, replaced,
    ((later settings .reply m).1 second (by decide) replaced).result,
    (later settings .deactivate m).2 (.inl rfl), null "mend"⟩

end Courier.Rehearsal
