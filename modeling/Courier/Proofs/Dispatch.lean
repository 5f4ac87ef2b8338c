import Courier.Proofs.Calls
import Courier.Proofs.Composition
import Courier.Proofs.History

namespace Courier

variable {σ α : Type}

/-- Whatever is of a kind begins a stretch of some form. -/
def Begins (p : Event → Bool) (P : List (Moment σ) → Prop) (ms : List (Moment σ)) : Prop :=
  ∀ before x after, ms = before ++ x :: after → p x.event = true →
    ∃ ns rest, x :: after = ns ++ rest ∧ P ns

section Begins

variable {p : Event → Bool} {P : List (Moment σ) → Prop} {ms ns : List (Moment σ)}

theorem Begins.of_none (h : tally p ms = 0) : Begins p P ms := by
  rintro before x after rfl hx
  simp [tally_eq_zero.1 h x (by simp)] at hx

theorem Begins.append (h : Begins p P ms) (k : Begins p P ns) : Begins p P (ms ++ ns) := by
  intro before x after hms hx
  rcases List.append_eq_append_iff.1 hms with ⟨as, rfl, hns⟩ | ⟨bs, rfl, hbs⟩
  · exact k as x after hns hx
  · cases bs with
    | nil => exact k [] x after hbs.symm hx
    | cons b bs =>
      obtain ⟨rfl, rfl⟩ := List.cons.inj hbs
      obtain ⟨stretch, rest, hstretch, hP⟩ := h before x bs rfl hx
      exact ⟨stretch, rest ++ ns, by simpa using congrArg (· ++ ns) hstretch, hP⟩

theorem Begins.single {x : Moment σ} (h : P (x :: ms)) (rest : tally p ms = 0) :
    Begins p P (x :: ms) := by
  intro before y after hms hy
  cases before with
  | nil =>
    obtain ⟨rfl, rfl⟩ := List.cons.inj hms
    exact ⟨_, [], by simp, h⟩
  | cons z before =>
    obtain ⟨rfl, rfl⟩ := List.cons.inj hms
    simp [tally_eq_zero.1 rest y (by simp)] at hy

end Begins

namespace Event

def dispatches : Event → Bool
  | .dispatching _ _ => true
  | _ => false

theorem sober_dispatches : Sober dispatches := by
  intro e h
  cases e <;> first | rfl | cases h

end Event

namespace Worker

open Act (Keeps)
open Site (Spell)

/-- How a dispatch shows in the journal, and that it is the sequence registered at that moment that
has been run, and has ended it so. -/
inductive Ran (w : Worker σ) (kind : Sequence.Kind) (m : Message) : List (Moment σ) → Prop
  | missing {x y r} : x.event = .dispatching kind m → w.registered kind x.world = none →
      y.event = .log r → Ran w kind m [x, y]
  | mediated {x mediate y as z} : x.event = .dispatching kind m →
      w.registered kind x.world = some mediate →
      y.event = .mediating kind (w.settings.sequence kind) m →
      (∀ a ∈ as, a.event.incidental = true) →
      z.event = .closing (.sequence kind) (fun _ => .mediated kind (mediate m x.world).message)
        (mediate m x.world).outcome → Ran w kind m (x :: y :: (as ++ [z]))

def Runs (w : Worker σ) (ms : List (Moment σ)) : Prop :=
  Begins Event.dispatches (fun ns => ∃ kind m, w.Ran kind m ns) ms

variable {w : Worker σ}

theorem keeps_runs_of_spell {x : Act σ α}
    (h : ∀ s, ∃ s' ms, (x s).2 = s' ∧ Spell s s' ms ∧ tally Event.dispatches ms = 0) :
    Keeps (fun s => w.Runs s.moments) x := by
  intro s hs
  obtain ⟨s', ms, rfl, spell, none⟩ := h s
  rw [spell.moments]
  exact hs.append (.of_none none)

theorem keeps_runs_note {e : Event} (he : e.dispatches = false) :
    Keeps (fun s => w.Runs s.moments) (Act.note e) :=
  keeps_runs_of_spell fun s => ⟨_, _, rfl, (Spell.refl s).note e, by simp [he]⟩

theorem keeps_runs_terminate : Keeps (fun s => w.Runs s.moments) w.terminate :=
  keeps_runs_of_spell fun s => by
    obtain ⟨ms, spell, incidental⟩ := w.spell_halted s
    exact ⟨_, ms, rfl, spell,
      tally_incidental Event.sober_dispatches fun x hx => (incidental x hx).1⟩

theorem keeps_runs_called {x : Act σ α} {begun : Event} {ended : Except Fault α → Event}
    (hb : begun.dispatches = false) (he : ∀ r, (ended r).dispatches = false)
    (h : ∀ s, ∃ r s' ms, x s = (.ofExcept r, s') ∧ Spell s s' ms ∧ Called begun (ended r) ms ∧
      ∀ x ∈ ms.head?, x.status = s.status) : Keeps (fun s => w.Runs s.moments) x :=
  keeps_runs_of_spell fun s => by
    obtain ⟨r, s', ms, hx, spell, called, -⟩ := h s
    refine ⟨s', ms, by rw [hx], spell, ?_⟩
    rw [called.tally_eq Event.sober_dispatches, hb, he]
    rfl

theorem keeps_runs_dispatch (kind : Sequence.Kind) (m : Message) :
    Keeps (fun s => w.Runs s.moments) (w.dispatch kind m) := by
  intro s hs
  let begun := s.note (.dispatching kind m)
  cases found : w.registered kind s.world with
  | none =>
    have ran : w.Runs [s.moment (.dispatching kind m), begun.moment (.log ⟨.warn,
        Sequence.missing w.settings.processorName kind (w.settings.sequence kind)⟩)] :=
      .single ⟨kind, m, .missing rfl found rfl⟩ (by simp [Event.dispatches])
    have grown := hs.append ran
    rw [← List.singleton_append, ← List.append_assoc, ← Site.moments_note, ← Site.moments_note]
      at grown
    rw [w.dispatch_missing found m]
    exact grown
  | some mediate =>
    let mediating := begun.note (.mediating kind (w.settings.sequence kind) m)
    let r := mediate m s.world
    let closing := (w.heard r.toReply mediating).moment
      (.closing (.sequence kind) (fun _ => .mediated kind r.message) r.outcome)
    obtain ⟨as, heard, incidental⟩ := w.spell_heard r.toReply mediating
    have quiet : closing.event.dispatches = false := by
      change (Event.closing _ _ r.outcome).dispatches = false
      cases r.outcome <;> rfl
    have ran : w.Runs (s.moment (.dispatching kind m) ::
        begun.moment (.mediating kind (w.settings.sequence kind) m) :: (as ++ [closing])) :=
      .single ⟨kind, m, .mediated rfl found rfl incidental rfl⟩ (by
        rw [tally_cons, tally_append, tally_incidental Event.sober_dispatches incidental,
          tally_cons, quiet]
        rfl)
    have grown := hs.append ran
    have moments : ((w.heard r.toReply mediating).note closing.event).moments = s.moments ++
        s.moment (.dispatching kind m) ::
          begun.moment (.mediating kind (w.settings.sequence kind) m) :: (as ++ [closing]) := by
      rw [Site.moments_note, heard.moments, Site.moments_note, Site.moments_note]
      simp [closing]
    rw [w.dispatch_found found m]
    exact moments ▸ grown

theorem Composed.runs {x : Act σ α} (h : w.Composed x) : Keeps (fun s => w.Runs s.moments) x := by
  induction h with
  | pure a => exact .pure a
  | raise fault => exact .raise fault
  | stall => exact .stall
  | bind _ _ ihx ihf => exact ihx.bind ihf
  | catching _ ih => exact ih.catching
  | status => exact .status
  | setStatus f _ => exact fun _ hs => hs
  | count counter => exact fun _ hs => hs
  | runBegun => exact keeps_runs_note rfl
  | givingUp fault => exact keeps_runs_note rfl
  | endpoints => exact .look _
  | now => exact .look _
  | log severity text => exact keeps_runs_of_spell fun s => ⟨_, _, rfl, (Spell.refl s).note _, rfl⟩
  | terminate => exact keeps_runs_terminate
  | createConsumer =>
    exact keeps_runs_called rfl (fun r => by cases r <;> rfl) w.createConsumer_spec
  | storeName => exact keeps_runs_called rfl (fun r => by cases r <;> rfl) w.storeName_spec
  | isDeactivated =>
    exact (Keeps.look _).bind fun _ => (keeps_runs_note rfl).bind fun _ => .pure _
  | isAlive => exact (Keeps.look _).bind fun _ => (keeps_runs_note rfl).bind fun _ => .pure _
  | send e working =>
    refine keeps_runs_of_spell fun s => ?_
    obtain ⟨r, left, s', ms, send, spell, called, -⟩ := w.send_spec e working s
    refine ⟨s', ms, by rw [send], spell, ?_⟩
    rw [called.tally_eq Event.sober_dispatches]
    cases r <;> rfl
  | acknowledge id =>
    refine keeps_runs_of_spell fun s => ?_
    obtain ⟨accepted, s', x, ms, acknowledge, spell, hx, incidental, -⟩ := w.acknowledge_spec id s
    refine ⟨s', x :: ms, by rw [acknowledge], spell, ?_⟩
    rw [tally_cons, hx, tally_incidental Event.sober_dispatches incidental]
    rfl
  | clockSleep ms =>
    exact keeps_runs_called rfl (fun r => by cases r <;> rfl) (w.clockSleep_spec ms)
  | deactivateOwner =>
    exact keeps_runs_called rfl (fun r => by cases r <;> rfl) w.deactivateOwner_spec
  | dispatch kind m => exact keeps_runs_dispatch kind m
  | fetch _ _ ih =>
    exact (keeps_runs_called rfl (fun r => by cases r <;> rfl) w.receive_spec).catching.bind ih

theorem keeps_runs_live (visits : List (Visit σ)) :
    Keeps (fun s => w.Runs s.moments) (w.live visits) := by
  induction visits with
  | nil => exact .pure _
  | cons v vs ih =>
    refine Keeps.bind (Keeps.catching ?_) fun _ => ih
    cases v with
    | run fuel => exact (w.composed_run fuel).runs
    | terminate => exact keeps_runs_terminate
    | destroy => exact keeps_runs_terminate
    | meanwhile f => exact fun _ hs => hs

theorem runs_history (w : Worker σ) (world : σ) (visits : List (Visit σ)) :
    w.Runs (w.history world visits).moments :=
  keeps_runs_live visits _ (.of_none rfl)

end Worker

end Courier
