import Courier.Proofs.Frame
import Courier.Proofs.Ledger

namespace Courier

variable {σ : Type}

namespace Worker

variable (w : Worker σ)

def relieve : Act σ Unit := Act.setStatus fun _ => .fresh w.settings.deactivatedAtStartup

def serve : List (List (Visit σ)) → Act σ Unit
  | [] => pure ()
  | visits :: terms => do
    w.relieve
    w.live visits
    serve terms

def succession (world : σ) (terms : List (List (Visit σ))) : Site σ :=
  (w.serve terms (w.fresh world)).2

variable {w}

theorem keeps_serve {P : List (Moment σ) → Prop}
    (h : ∀ {a s}, Reached w a s → P a.moments → P s.moments) (terms : List (List (Visit σ))) :
    Act.Keeps (fun s => P s.moments) (w.serve terms) := by
  induction terms with
  | nil => exact .pure _
  | cons visits terms ih =>
    refine Act.Keeps.bind (fun _ hs => hs) fun _ => Act.Keeps.bind (fun s hs => ?_) fun _ => ih
    exact h (carries_live visits s .begun).reached hs

theorem Unmoved.serve {I : Site σ → Prop} (h : w.Unmoved I) (terms : List (List (Visit σ)))
    (hf : ∀ visits ∈ terms, ∀ f, .meanwhile f ∈ visits → ∀ s, I s → I (s.withWorld (f s.world))) :
    Act.Keeps I (w.serve terms) := by
  induction terms with
  | nil => exact .pure _
  | cons visits terms ih =>
    refine Act.Keeps.bind (fun _ hs => h.status _ hs) fun _ =>
      (h.live visits (hf visits (by simp))).bind fun _ => ?_
    exact ih fun more hm => hf more (List.mem_cons_of_mem _ hm)

theorem succession_lawful (world : σ) (terms : List (List (Visit σ))) :
    Always w.Lawful [] (w.succession world terms).moments :=
  keeps_serve (P := Always w.Lawful []) (fun h => h.lawful_from) terms _ .nil

theorem succession_eachCycle {P : Message → List (Moment σ) → Prop} (world : σ)
    (terms : List (List (Visit σ)))
    (hP : ∀ {m t t' ms r}, w.Cycled (unmarked m) t t' ms r → t.status.progress = .fresh → P m ms) :
    EachCycle P (w.succession world terms).moments :=
  keeps_serve (P := EachCycle P) (fun h ha => h.eachCycle_from ha hP) terms _
    (eachCycle_of_idle .nil)

variable (w) in
def Untouched (c : List (Moment σ)) : Prop :=
  ∀ y ∈ c, y.event.opens = false ∧ y.event.acknowledges = false ∧ w.delivers y.event = false

variable (w) in
def Conveys (stored : Message) (c : List (Moment σ)) (x : Moment σ) : Prop :=
  x.event.sends = true → w.Untouched c ∧ ∃ e, x.event = .sending e (w.workingCopy stored)

section

variable {e : Endpoint} {stored : Message} {s s' : Site σ} {c ms ns : List (Moment σ)}

theorem Untouched.append (h : w.Untouched ms) (k : w.Untouched ns) : w.Untouched (ms ++ ns) :=
  List.forall_mem_append.2 ⟨h, k⟩

theorem Pending.untouched (h : Pending ms) (delivers : tally w.delivers ms = 0) :
    w.Untouched ms :=
  fun y hy => ⟨(h y hy).1, (h y hy).2, tally_eq_zero.1 delivers y hy⟩

theorem untouched_of_incidental (h : ∀ x ∈ ms, x.event.incidental = true) : w.Untouched ms :=
  Pending.untouched (.of_staged (g := .incidental) (.of_incidental h) (by decide))
    (tally_incidental (w.within_delivers.sober (by decide)) h)

theorem conveys_of_quiet (h : tally Event.sends ms = 0) : Always (w.Conveys stored) c ms := by
  apply Always.of_forall
  intro before x hx sends
  simp [tally_eq_zero.1 h x hx] at sends

theorem Exchanged.conveys {outcome : Except Fault (Option Message)}
    (h : w.Exchanged e stored outcome ms) (hc : w.Untouched c) :
    Always (w.Conveys stored) c ms := by
  obtain ⟨x, ns, rfl, hx, a, as, y, rfl, ha, has, hy⟩ := h
  have asked : w.Untouched [x] := by
    simp [Untouched, hx, Event.opens, Event.acknowledges, delivers]
  have rest : tally Event.sends (as ++ [y]) = 0 := by
    rw [tally_append, tally_incidental Event.sober_sends has, tally_cons, hy]
    cases outcome <;> rfl
  refine .cons (fun sends => ?_) (.cons (fun _ => ⟨hc.append asked, e, ha⟩) (conveys_of_quiet rest))
  simp [hx, Event.sends] at sends

theorem Found.conveys {finding : Worker.Finding} (h : w.Found e stored finding ms)
    (hc : w.Untouched c) : Always (w.Conveys stored) c ms := by
  cases h with
  | gone hx hy => exact conveys_of_quiet (by simp [hx, hy, Event.sends])
  | oneWay h => exact h.conveys hc
  | answered h _ hd => exact (h.conveys hc).append (conveys_of_quiet hd.sends)
  | turnedDown h _ hd => exact (h.conveys hc).append (conveys_of_quiet hd.sends)
  | refused h _ => exact h.conveys hc
  | failed h _ hx hd =>
    exact (h.conveys hc).append (conveys_of_quiet (by simp [hx, Event.sends, hd.sends]))
  | replyBroken h _ hd => exact (h.conveys hc).append (conveys_of_quiet hd.sends)
  | faultBroken h _ hx hd =>
    exact (h.conveys hc).append (conveys_of_quiet (by simp [hx, Event.sends, hd.sends]))
  | unknown h => exact h.conveys hc

theorem Tried.conveys {t : Try σ} {r : Ending Unit} (h : w.Tried e stored t s s' r)
    (hc : w.Untouched c) : Always (w.Conveys stored) c t.moments := by
  obtain ⟨mid, assessed, followed⟩ := h.course
  exact (assessed.found.conveys hc).append
    (conveys_of_quiet (followed.tally_eq_zero Event.within_sends (.inr rfl)))

theorem Found.undelivered {working : Message} (h : w.Found e stored (.failed working) ms) :
    tally w.delivers ms = 0 := by
  obtain ⟨-, -, -, le, quiet⟩ := h.figures
  have unreplied := unreplied_le ms
  rw [quiet (by simp)] at unreplied
  simp only [Finding.delivers, Bool.toNat_false] at le
  omega

theorem Retried.untouched {t : Try σ} (h : w.Retried e stored t) : w.Untouched t.moments := by
  obtain ⟨working, found⟩ := h.failed
  obtain ⟨mid, s', -, retrying⟩ := h.retrying
  apply h.pending.untouched
  rw [Try.moments, tally_append, found.undelivered,
    retrying.staged.tally w.within_delivers (by decide)]

theorem Tries.conveys {ts : List (Try σ)} {r : Ending Unit} (tries : w.Tries e stored ts s s' r)
    (hc : w.Untouched c) : Always (w.Conveys stored) c (ts.flatMap Try.moments) := by
  induction tries generalizing c with
  | ended => exact .nil
  | stalled => exact .nil
  | broken tried => simpa using tried.conveys hc
  | @more t ts _ _ _ _ tried tries ih =>
    rw [List.flatMap_cons]
    apply (tried.conveys hc).append
    cases ts with
    | nil => exact .nil
    | cons _ _ =>
      obtain ⟨retried, -⟩ := tries.retried (by simp) tried
      exact ih (hc.append retried.untouched)

theorem Forwarded.conveys {r : Ending Unit} (h : w.Forwarded stored s s' ms r) :
    Always (w.Conveys stored) [] ms := by
  cases h with
  | untargeted hx _ hxs hy hys _ _ =>
    apply conveys_of_quiet
    rw [tally_untargeted Event.sober_sends hx hxs hy hys]
    rfl
  | @targeted _ _ _ _ x _ _ hx _ _ _ _ tries =>
    have quiet : tally Event.sends [x] = 0 := by simp [Event.sober_sends _ hx]
    exact (conveys_of_quiet quiet).append (tries.conveys (untouched_of_incidental (by simpa)))

theorem Cycled.conveys {r : Ending Unit} (h : w.Cycled stored s s' ms r) :
    Always (w.Conveys stored) [] ms := by
  cases h with
  | forwarded h => exact h.conveys
  | givenUp h given =>
    exact h.conveys.append (conveys_of_quiet (given.staged.tally Event.within_sends (by decide)))

end

variable (w) in
def Conveyed (before : List (Moment σ)) (x : Moment σ) : Prop :=
  x.event.sends = true → ∃ older start m c e, before = older ++ start :: c ∧
    start.event = .received (some m) ∧ w.Untouched c ∧
    x.event = .sending e (w.workingCopy (unmarked m))

theorem conveyed_of_quiet {c ms : List (Moment σ)} (h : tally Event.sends ms = 0) :
    Always w.Conveyed c ms := by
  apply Always.of_forall
  intro before x hx sends
  simp [tally_eq_zero.1 h x hx] at sends

theorem Reached.conveyed {a s : Site σ} (h : Reached w a s) (ha : Always w.Conveyed [] a.moments) :
    Always w.Conveyed [] s.moments := by
  refine h.always_of ha (fun idle => conveyed_of_quiet idle.sends) (fun _ hx sends => ?_)
    @fun m _ _ _ xs start ms r taken _ past => ?_
  · simp [hx, Event.sends] at sends
  · intro c x after hc sends
    obtain ⟨untouched, e, sending⟩ := taken.cycled.conveys c x after hc sends
    exact ⟨past ++ xs, start, m, c, e, by simp, taken.received, untouched, sending⟩

theorem succession_conveyed (world : σ) (terms : List (List (Visit σ))) :
    Always w.Conveyed [] (w.succession world terms).moments :=
  keeps_serve (P := Always w.Conveyed []) (fun h => h.conveyed) terms _ .nil

end Worker

end Courier
