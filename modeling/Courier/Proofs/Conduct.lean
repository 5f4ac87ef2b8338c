import Courier.Proofs.Aftermath
import Courier.Proofs.Calls
import Mathlib.Data.List.Basic

namespace Courier

variable {σ : Type}

def Handled.leaves (h : Handled σ (Option Message)) (m : Message) : Message :=
  match h.outcome with
  | .ok _ => h.message
  | .error _ => m

namespace Worker

variable (w : Worker σ)

def owed (h : Handled σ (Option Message)) : Option (Sequence.Kind × Message) :=
  match h.outcome with
  | .ok none => none
  | .ok (some response) =>
    if (w.settings.classifier.classifyResponse response).outcome = .retryable then
      some (.fault, response)
    else some (.reply, response)
  | .error fault => if w.settings.retries (.error fault) then some (.fault, h.message) else none

def Conversed (e : Endpoint) (working : Message) (h : Handled σ (Option Message))
    (ms : List (Moment σ)) : Prop :=
  ∃ x as y, ms = x :: (as ++ [y]) ∧ x.event = .sending e working ∧
    h = w.outside.send e working x.world ∧ (∀ z ∈ as, z.event.incidental = true) ∧
    y.event = .closing .exchange .sent h.outcome

theorem conversed_spec (e : Endpoint) (working : Message) (s : Site σ) :
    ∃ h t ns, w.send e working s = (.done (h.outcome, h.message), t) ∧
      t.moments = s.moments ++ ns ∧ w.Conversed e working h ns := by
  let begun := s.note (.sending e working)
  let h := w.outside.send e working s.world
  let closing := (w.heard h.toReply begun).moment (.closing .exchange .sent h.outcome)
  obtain ⟨as, heard, quiet⟩ := w.spell_heard h.toReply begun
  refine ⟨h, _, s.moment (.sending e working) :: (as ++ [closing]), w.send_apply e working s, ?_,
    _, as, closing, rfl, rfl, rfl, quiet, rfl⟩
  rw [answered, Site.moments_note, heard.moments, Site.moments_note]
  simp [closing, begun, h]

def Finding.final (finding : Finding) : Prop := ∀ working, finding ≠ .failed working

def Finding.blamed (h : Handled σ (Option Message)) : Except Fault Message → Finding
  | .ok m => .failed (h.leaves m)
  | .error fault => .broken fault

inductive Conducted (e : Endpoint) (stored : Message) : Finding → List (Moment σ) → Prop
  | gone {x y r} : x.event = .consumerAsked false → y.event = .log r →
      Conducted e stored .delivered [x, y]
  | neither {finding x h ms} : x.event = .consumerAsked true →
      w.Conversed e (w.workingCopy stored) h ms → w.owed h = none → finding.final →
      Conducted e stored finding (x :: ms)
  | replied {finding x h ms m q ds} : x.event = .consumerAsked true →
      w.Conversed e (w.workingCopy stored) h ms → w.owed h = some (.reply, m) →
      Dispatched .reply m q ds → finding.final → Conducted e stored finding (x :: (ms ++ ds))
  | blamed {x h ms m y r q ds} : x.event = .consumerAsked true →
      w.Conversed e (w.workingCopy stored) h ms → w.owed h = some (.fault, m) →
      y.event = .log r → Dispatched .fault m q ds →
      Conducted e stored (.blamed h q) (x :: (ms ++ y :: ds))

theorem reply_spec (e : Endpoint) (stored response : Message) {finding : Finding}
    (final : finding.final) (s : Site σ) :
    ∃ found t ds q,
      (w.mediate .reply response >>= fun _ => w.follow e stored finding) s =
        w.follow e stored found t ∧
      t.moments = s.moments ++ ds ∧ Dispatched .reply response q ds ∧ found.final := by
  obtain ⟨q, t, ds, mediate, spell, dispatched, -⟩ := w.mediate_spec .reply response s
  cases q with
  | ok m => exact ⟨finding, t, ds, .ok m, Act.bind_done mediate _, spell.moments, dispatched, final⟩
  | error fault =>
    exact ⟨.broken fault, t, ds, .error fault, Act.bind_raised mediate _, spell.moments, dispatched,
      by simp [Finding.final]⟩

theorem fault_spec (e : Endpoint) (stored atFault : Message) (h : Handled σ (Option Message))
    (text : String) (s : Site σ) :
    ∃ t y r q ds,
      (w.reportFailure text atFault >>= fun m => w.prepareToRetry (h.leaves m)) s =
        w.follow e stored (.blamed h q) t ∧
      t.moments = s.moments ++ y :: ds ∧ y.event = .log r ∧ Dispatched .fault atFault q ds ∧
      ∀ z ∈ (y :: ds).getLast?, z.status = t.status := by
  obtain ⟨q, t, y, r, ds, report, steady, -, hy, dispatched, -, last⟩ :=
    w.reportFailure_spec text atFault s
  cases q with
  | ok m =>
    exact ⟨t, y, r, .ok m, ds, Act.bind_done report _, steady.moments, hy, dispatched, last⟩
  | error fault =>
    exact ⟨t, y, r, .error fault, ds, Act.bind_raised report _, steady.moments, hy, dispatched,
      last⟩

def Attempt.ofHandled (h : Handled σ (Option Message)) : Attempt :=
  match h.outcome with
  | .ok (some response) => .answered response h.message
  | .ok none => .completed
  | .error fault => .refused fault h.message

theorem attempt_gone (e : Endpoint) (stored : Message) {s : Site σ}
    (alive : w.outside.isAlive s.world = false) :
    ∃ t x y, w.attempt e stored s = (.done .skipped, t) ∧ t.moments = s.moments ++ [x, y] ∧
      x.event = .consumerAsked false ∧ ∃ r, y.event = .log r := by
  let asked := s.note (.consumerAsked false)
  let told : Event := .log ⟨.warn, "[" ++ w.outside.ownerName asked.world ++ "] " ++
    ("Store consumer is not alive, message " ++ stored.id ++ " was not sent")⟩
  refine ⟨asked.note told, s.moment (.consumerAsked false), asked.moment told, ?_, ?_, rfl, _, rfl⟩
  · rw [attempt, isAlive, bind_assoc, Act.bind_done (Act.look_apply _ s), bind_assoc,
      Act.bind_done (Act.note_apply _ s), pure_bind, alive]
    rfl
  · rw [Site.moments_note, Site.moments_note, List.append_assoc]
    rfl

theorem attempt_alive (e : Endpoint) (stored : Message) {s : Site σ}
    (alive : w.outside.isAlive s.world = true) :
    ∃ h t x ns, w.attempt e stored s = (.done (.ofHandled h), t) ∧
      t.moments = s.moments ++ x :: ns ∧ x.event = .consumerAsked true ∧
      w.Conversed e (w.workingCopy stored) h ns := by
  obtain ⟨h, t, ns, send, moments, conversed⟩ :=
    w.conversed_spec e (w.workingCopy stored) (s.note (.consumerAsked true))
  refine ⟨h, t, s.moment (.consumerAsked true), ns, ?_, by simp [moments], rfl, conversed⟩
  rw [attempt, isAlive, bind_assoc, Act.bind_done (Act.look_apply _ s), bind_assoc,
    Act.bind_done (Act.note_apply _ s), pure_bind, alive, if_pos rfl, Act.bind_done send,
    Attempt.ofHandled]
  cases h.outcome with
  | error _ => rfl
  | ok response => cases response <;> rfl

def Conducts (e : Endpoint) (stored : Message) (c : List (Moment σ)) (s : Site σ)
    (y : Ending Unit × Site σ) : Prop :=
  ∃ finding t ms, y = w.follow e stored finding t ∧ t.moments = s.moments ++ ms ∧
    w.Conducted e stored finding (c ++ ms) ∧
    ∀ working, finding = .failed working → ∀ z ∈ (c ++ ms).getLast?, z.status = t.status

section Conducted

variable {w} {e : Endpoint} {stored : Message} {h : Handled σ (Option Message)} {x : Moment σ}
  {ns : List (Moment σ)}

theorem Conducts.after {c ms : List (Moment σ)} {s t : Site σ} {y : Ending Unit × Site σ}
    (moments : t.moments = s.moments ++ ms) (conducts : w.Conducts e stored (c ++ ms) t y) :
    w.Conducts e stored c s y := by
  obtain ⟨finding, u, ns, follow, later, conducted, last⟩ := conducts
  rw [List.append_assoc] at conducted last
  exact ⟨finding, u, ms ++ ns, follow, by rw [later, moments, List.append_assoc], conducted, last⟩

variable (asked : x.event = .consumerAsked true)
  (conversed : w.Conversed e (w.workingCopy stored) h ns)

include asked conversed

theorem conducts_blamed (atFault : Message) (owes : w.owed h = some (.fault, atFault))
    (text : String) (s : Site σ) :
    w.Conducts e stored (x :: ns) s
      ((w.reportFailure text atFault >>= fun m => w.prepareToRetry (h.leaves m)) s) := by
  obtain ⟨t, y, r, q, ds, report, moments, hy, dispatched, last⟩ :=
    w.fault_spec e stored atFault h text s
  refine ⟨_, t, y :: ds, report, moments, .blamed asked conversed owes hy dispatched, fun _ _ => ?_⟩
  rwa [List.getLast?_append_of_ne_nil _ (List.cons_ne_nil y ds)]

theorem conducts_replied {response : Message} (finding : Finding) (final : finding.final)
    (owes : w.owed h = some (.reply, response)) (s : Site σ) :
    w.Conducts e stored (x :: ns) s
      ((w.mediate .reply response >>= fun _ => w.follow e stored finding) s) := by
  obtain ⟨found, t, ds, q, reply, moments, dispatched, final⟩ :=
    w.reply_spec e stored response final s
  exact ⟨found, t, ds, reply, moments, .replied asked conversed owes dispatched final,
    fun working failed => absurd failed (final working)⟩

theorem conducts_neither (finding : Finding) (final : finding.final) (owes : w.owed h = none)
    (s : Site σ) : w.Conducts e stored (x :: ns) s (w.follow e stored finding s) := by
  refine ⟨finding, s, [], rfl, by simp, ?_, fun working failed => absurd failed (final working)⟩
  rw [List.append_nil]
  exact .neither asked conversed owes final

theorem conducts_judge {response : Message} (outcome : h.outcome = .ok (some response))
    (s : Site σ) : w.Conducts e stored (x :: ns) s (w.judge e stored response h.message s) := by
  cases verdict : (w.settings.classifier.classifyResponse response).outcome with
  | success =>
    simp only [judge, verdict]
    exact conducts_replied asked conversed .delivered (by simp [Finding.final])
      (by simp [owed, outcome, verdict]) s
  | nonRetryable =>
    simp only [judge, verdict]
    exact conducts_replied asked conversed (.turnedDown _) (by simp [Finding.final])
      (by simp [owed, outcome, verdict]) s
  | retryable =>
    have leaves (m : Message) : h.leaves m = h.message := by simp [Handled.leaves, outcome]
    have blamed := conducts_blamed asked conversed response (by simp [owed, outcome, verdict])
    simp only [leaves] at blamed
    simp only [judge, verdict]
    rw [Act.bind_done (Act.setStatus_apply _ s)]
    exact blamed _ (s.withStatus
      { s.status with progress := { s.status.progress with succeeded := false } })

theorem conducts_recover {fault : Fault} (outcome : h.outcome = .error fault) (s : Site σ) :
    w.Conducts e stored (x :: ns) s (w.recover e stored fault h.message s) := by
  have leaves (m : Message) : h.leaves m = m := by simp [Handled.leaves, outcome]
  have blamed (text : String) (retries : w.settings.retries (.error fault) = true) :=
    conducts_blamed asked conversed h.message (by simp [owed, outcome, retries]) text s
  simp only [leaves] at blamed
  have neither (finding : Finding) (final : finding.final)
      (retries : w.settings.retries (.error fault) = false) :=
    conducts_neither asked conversed finding final (by simp [owed, outcome, retries]) s
  cases fault with
  | unknown => exact neither (.broken .unknown) (by simp [Finding.final]) rfl
  | delivery what cause =>
    cases retryable : w.settings.classifier.isNonRetryable cause with
    | true =>
      simp only [recover, Fault.describe?, retryable, if_true]
      exact neither (.turnedDown cause) (by simp [Finding.final])
        (by simp [Settings.retries, retryable])
    | false =>
      simp only [recover, Fault.describe?, retryable, Bool.false_eq_true, if_false]
      exact blamed _ (by simp [Settings.retries, retryable])
  | runtime what => exact blamed _ rfl
  | invalidArgument what => exact blamed _ rfl

end Conducted

theorem conducts_deliverOnce (e : Endpoint) (stored : Message) (s : Site σ) :
    w.Conducts e stored [] s (w.deliverOnce e stored s) := by
  cases alive : w.outside.isAlive s.world with
  | false =>
    obtain ⟨t, x, y, attempt, moments, hx, r, hy⟩ := w.attempt_gone e stored alive
    rw [deliverOnce, Act.bind_done attempt]
    exact ⟨.delivered, _, [x, y], rfl, moments, .gone hx hy, by simp⟩
  | true =>
    obtain ⟨h, t, x, ns, attempt, moments, asked, conversed⟩ := w.attempt_alive e stored alive
    rw [deliverOnce, Act.bind_done attempt, Attempt.ofHandled]
    cases outcome : h.outcome with
    | error fault => exact .after moments (conducts_recover asked conversed outcome t)
    | ok answer =>
      let succeeded := t.withStatus
        { t.status with progress := { t.status.progress with succeeded := true } }
      cases answer with
      | none =>
        exact .after moments (conducts_neither asked conversed .delivered
          (by simp [Finding.final]) (by simp [owed, outcome]) succeeded)
      | some response =>
        exact .after moments (conducts_judge asked conversed outcome succeeded)

end Worker

end Courier
