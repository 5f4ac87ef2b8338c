import Courier.Proofs.Batching
import Courier.Proofs.Budget
import Courier.Proofs.Calls
import Courier.Proofs.Retirement

namespace Courier

variable {σ α : Type}

structure Reply.Lets (r : Reply σ α) (outcome : Except Fault α → Prop) (world : σ → Prop) :
    Prop where
  outcome : outcome r.outcome
  world : world r.world
  asides : ∀ a ∈ r.asides, ∃ record, a = .log record

/-- Collaborators that let a worker drain the store. In a world with `holds lent ms` the owner is
active, and the store holds `ms`, of which the first one is with the worker if `lent`; it leaves the
store with the next acknowledgement. The sender may fail as long as something is known about it. -/
structure Outside.Obliging (o : Outside σ) (holds : Bool → List Message → σ → Prop) : Prop where
  active : ∀ {lent ms v}, holds lent ms v → o.isDeactivated v = false
  createConsumer : ∀ {ms v}, holds false ms v →
    (o.createConsumer v).Lets (· = .ok true) (holds false ms)
  storeName : ∀ {ms v}, holds false ms v →
    (o.storeName v).Lets (fun r => ∃ name, r = .ok name) (holds false ms)
  receive : ∀ {ms v}, holds false ms v →
    (o.receive v).Lets (· = .ok ms.head?) (holds (!ms.isEmpty) ms)
  acknowledge : ∀ {m ms v}, holds true (m :: ms) v →
    (o.acknowledge v).1 = true ∧ holds false ms (o.acknowledge v).2
  send : ∀ {m ms v} e working, holds true (m :: ms) v →
    (o.send e working v).toReply.Lets (· ≠ .error .unknown) (holds true (m :: ms))
  mediate : ∀ {m ms v name f} atHand, o.sequence? name v = some f → holds true (m :: ms) v →
    (f atHand v).toReply.Lets (· = .ok ()) (holds true (m :: ms))
  sleep : ∀ {lent ms v} d up, holds lent ms v →
    (o.sleep d up v).Lets (fun r => ∃ completed, r = .ok completed) (holds lent ms)

namespace Worker

open Site (Spell Settled)

structure Going (holds : Bool → List Message → σ → Prop) (past : List (Moment σ))
    (rest : List Message) (p : Progress) (lent : Bool) (ms : List Message) (s : Site σ) : Prop where
  world : holds lent ms s.world
  running : s.status.terminated = false
  progress : s.status.progress = p
  since : ∃ ns, s.moments = past ++ ns ∧ ∀ x ∈ ns, x.event.acknowledges = true →
    x.event = .acknowledged true ∧ holds false rest x.world

section Going

variable {w : Worker σ} {holds : Bool → List Message → σ → Prop} {past : List (Moment σ)}
  {rest ms : List Message} {p : Progress} {lent : Bool} {s : Site σ}

theorem Going.begin (world : holds lent ms s.world) (running : s.status.terminated = false)
    (rest : List Message) : Going holds s.moments rest s.status.progress lent ms s :=
  ⟨world, running, rfl, [], by simp, by simp⟩

theorem Going.note (h : Going holds past rest p lent ms s) {e : Event}
    (he : e.acknowledges = false) : Going holds past rest p lent ms (s.note e) := by
  obtain ⟨ns, moments, since⟩ := h.since
  refine ⟨h.world, h.running, h.progress, ns ++ [s.moment e], by simp [moments], ?_⟩
  exact List.forall_mem_append.2 ⟨since, by simp [he]⟩

theorem Going.withWorld (h : Going holds past rest p lent ms s) {lent' : Bool} {ms' : List Message}
    {v : σ} (world : holds lent' ms' v) : Going holds past rest p lent' ms' (s.withWorld v) :=
  ⟨world, h.running, h.progress, h.since⟩

theorem Going.withStatus (h : Going holds past rest p lent ms s) {t : Status}
    (running : t.terminated = false) :
    Going holds past rest t.progress lent ms (s.withStatus t) :=
  ⟨h.world, running, rfl, h.since⟩

theorem Going.counted (h : Going holds past rest p lent ms s) (counter : String) :
    Going holds past rest p lent ms (s.counted counter) :=
  ⟨h.world, h.running, h.progress, h.since⟩

theorem Going.heard (h : Going holds past rest p lent ms s) {r : Reply σ α}
    {outcome : Except Fault α → Prop} {lent' : Bool} {ms' : List Message}
    (lets : r.Lets outcome (holds lent' ms')) :
    Going holds past rest p lent' ms' (w.heard r s) := by
  have heard : ∀ as : List Aside, (∀ a ∈ as, ∃ record, a = .log record) →
      ∀ t, Going holds past rest p lent' ms' t →
        Going holds past rest p lent' ms' (w.hearAll as t).2 := by
    intro as
    induction as with
    | nil => exact fun _ _ ht => ht
    | cons a as ih =>
      intro quiet t ht
      obtain ⟨⟨record, rfl⟩, later⟩ := List.forall_mem_cons.1 quiet
      exact ih later _ (ht.note (e := .log record) rfl)
  exact heard r.asides lets.asides _ (h.withWorld lets.world)

theorem Going.answered (h : Going holds past rest p lent ms s) (errand : Errand) (ended : α → Event)
    (quiet : ∀ a, (ended a).acknowledges = false) {r : Reply σ α} {outcome : Except Fault α → Prop}
    {lent' : Bool} {ms' : List Message} (lets : r.Lets outcome (holds lent' ms')) :
    Going holds past rest p lent' ms' (w.answered errand ended r s) := by
  refine (h.heard lets).note ?_
  cases r.outcome with
  | ok a => exact quiet a
  | error _ => rfl

end Going

section Attains

open Act (Attains)

variable {w : Worker σ} {holds : Bool → List Message → σ → Prop}
  (obliging : w.outside.Obliging holds) {past : List (Moment σ)} {rest ms : List Message}
  {m : Message} {p : Progress} {lent : Bool}

theorem attains_log (severity : Severity) (text : String) :
    Attains (Going holds past rest p lent ms) (w.log severity text)
      fun _ => Going holds past rest p lent ms :=
  fun _ hs => ⟨(), _, rfl, hs.note rfl⟩

theorem attains_count (counter : String) :
    Attains (Going holds past rest p lent ms) (Act.count counter)
      fun _ => Going holds past rest p lent ms :=
  fun _ hs => ⟨(), _, rfl, hs.counted counter⟩

theorem attains_setProgress (q : Progress) :
    Attains (Going holds past rest p lent ms) (Act.setProgress q)
      fun _ => Going holds past rest q lent ms :=
  fun s hs => ⟨(), _, rfl, hs.withStatus (t := { s.status with progress := q }) hs.running⟩

theorem attains_setSucceeded (succeeded : Bool) :
    Attains (Going holds past rest p lent ms)
      (Act.setStatus fun t => { t with progress := { t.progress with succeeded } })
      fun _ => Going holds past rest ⟨p.attempts, succeeded⟩ lent ms := by
  intro s hs
  obtain rfl := hs.progress
  exact ⟨(), _, rfl, hs.withStatus (t := { s.status with
    progress := ⟨s.status.progress.attempts, succeeded⟩ }) hs.running⟩

theorem attains_isAlive : Attains (Going holds past rest p lent ms) w.isAlive
    fun _ => Going holds past rest p lent ms :=
  fun _ hs => ⟨_, _, rfl, hs.note rfl⟩

theorem attains_resolveTarget (stored : Message) :
    Attains (Going holds past rest p lent ms) (w.resolveTarget stored)
      fun _ => Going holds past rest p lent ms := by
  rw [resolveTarget]
  split
  · exact .pure fun _ hs => hs
  · have looked : Attains (Going holds past rest p lent ms) (Act.look w.outside.endpoints)
        fun _ => Going holds past rest p lent ms := fun _ hs => ⟨_, _, rfl, hs⟩
    refine looked.bind fun registry => ?_
    split
    · exact .pure fun _ hs => hs
    · exact (attains_log _ _).bind fun _ => .pure fun _ hs => hs

include obliging

theorem attains_clockSleep (d : Int) :
    Attains (Going holds past rest p lent ms) (w.clockSleep d)
      fun _ => Going holds past rest p lent ms := by
  intro s hs
  have lets := obliging.sleep d s.status.terminated hs.world
  obtain ⟨completed, outcome⟩ := lets.outcome
  refine ⟨completed, _, ?_, (hs.note (e := .sleeping d) rfl).answered (w := w) .sleep .slept
    (fun _ => rfl) lets⟩
  rw [clockSleep_apply, outcome, Ending.ofExcept]

theorem attains_sleep (d : Int) :
    Attains (Going holds past rest p lent ms) (w.sleep d)
      fun _ => Going holds past rest p lent ms :=
  .onlyIf _ ((attains_clockSleep obliging d).bind fun _ => .onlyIf _ (attains_log _ _))

theorem attains_createConsumer :
    Attains (Going holds past rest p false ms) w.createConsumer
      fun given s => given = true ∧ Going holds past rest p false ms s := by
  intro s hs
  have lets := obliging.createConsumer hs.world
  refine ⟨true, _, ?_, rfl, (hs.note (e := .requestingConsumer) rfl).answered (w := w)
    .consumer .consumer (fun _ => rfl) lets⟩
  rw [createConsumer_apply, lets.outcome, Ending.ofExcept]

theorem attains_storeName :
    Attains (Going holds past rest p false ms) w.storeName
      fun _ => Going holds past rest p false ms := by
  intro s hs
  have lets := obliging.storeName hs.world
  obtain ⟨name, outcome⟩ := lets.outcome
  refine ⟨name, _, ?_, (hs.note (e := .namingStore) rfl).answered (w := w) .storeName
    .storeNamed (fun _ => rfl) lets⟩
  rw [storeName_apply, outcome, Ending.ofExcept]

theorem attains_receive :
    Attains (Going holds past rest p false ms) w.receive
      fun r s => r = ms.head? ∧ Going holds past rest p (!ms.isEmpty) ms s := by
  intro s hs
  have lets := obliging.receive hs.world
  refine ⟨ms.head?, _, ?_, rfl, (hs.note (e := .receiving) rfl).answered (w := w) .fetch .received
    (fun _ => rfl) lets⟩
  rw [receive_apply, lets.outcome, Ending.ofExcept]

theorem attains_mediate (kind : Sequence.Kind) (atHand : Message) :
    Attains (Going holds past rest p true (m :: ms)) (w.mediate kind atHand)
      fun _ => Going holds past rest p true (m :: ms) := by
  intro s hs
  have begun := hs.note (e := .dispatching kind atHand) rfl
  cases found : w.registered kind s.world with
  | none =>
    rw [mediate, Act.bind_done (w.dispatch_missing found atHand)]
    exact ⟨atHand, _, rfl, begun.note rfl⟩
  | some mediate =>
    have registered : w.outside.sequence? (w.settings.sequence kind) s.world = some mediate := by
      rw [registered] at found
      split at found
      · cases found
      · exact found
    have lets := obliging.mediate atHand registered hs.world
    rw [Worker.mediate, Act.bind_done (w.dispatch_found found atHand), lets.outcome]
    exact ⟨_, _, rfl, (begun.note rfl).answered _ _ (fun _ => rfl) lets⟩

theorem attains_send (e : Endpoint) (working : Message) :
    Attains (Going holds past rest p true (m :: ms)) (w.send e working)
      fun r s => r.1 ≠ .error .unknown ∧ Going holds past rest p true (m :: ms) s := by
  intro s hs
  have lets := obliging.send e working hs.world
  exact ⟨_, _, w.send_apply e working s, lets.outcome,
    (hs.note rfl).answered _ _ (fun _ => rfl) lets⟩

theorem attains_acknowledge (id : String) :
    Attains (Going holds past rest p true (m :: rest)) (w.acknowledge id)
      fun _ => Going holds past rest p false rest := by
  intro s hs
  obtain ⟨accepted, world⟩ := obliging.acknowledge hs.world
  obtain ⟨ns, moments, since⟩ := hs.since
  have later : ∀ x ∈ ns ++ [(s.withWorld (w.outside.acknowledge s.world).2).moment
      (.acknowledged true)], x.event.acknowledges = true →
      x.event = .acknowledged true ∧ holds false rest x.world :=
    List.forall_mem_append.2 ⟨since, List.forall_mem_singleton.2 fun _ => ⟨rfl, world⟩⟩
  refine ⟨(), (s.withWorld (w.outside.acknowledge s.world).2).note (.acknowledged true), ?_, world,
    hs.running, hs.progress, _, ?_, later⟩
  case refine_2 => rw [Site.moments_note, Site.moments_withWorld, moments, List.append_assoc]
  rw [acknowledge, Act.bind_done (Act.query_apply _ s), Act.bind_done (Act.note_apply _ _),
    accepted]
  rfl

theorem attains_settle (id : String) :
    Attains (Going holds past rest p true (m :: rest)) (w.settle id)
      fun _ => Going holds past rest ⟨0, true⟩ false rest :=
  (attains_acknowledge obliging id).bind fun _ => attains_setProgress _

theorem attains_completeDelivery (e : Endpoint) (id : String) :
    Attains (Going holds past rest p true (m :: rest)) (w.completeDelivery e id)
      fun _ => Going holds past rest ⟨0, true⟩ false rest :=
  (attains_settle obliging id).bind fun _ => (attains_count _).bind fun _ => attains_log _ _

theorem attains_settleUndelivered (id reason : String) :
    Attains (Going holds past rest p true (m :: rest)) (w.settleUndelivered id reason)
      fun _ => Going holds past rest ⟨0, true⟩ false rest :=
  (attains_settle obliging id).bind fun _ => (attains_count _).bind fun _ => attains_log _ _

theorem attains_reportFailure (text : String) (atFault : Message) :
    Attains (Going holds past rest p true (m :: ms)) (w.reportFailure text atFault)
      fun _ => Going holds past rest p true (m :: ms) :=
  (attains_log _ _).bind fun _ => (attains_count _).bind fun _ => attains_mediate obliging _ _

theorem attains_attempt (e : Endpoint) (stored : Message) :
    Attains (Going holds past rest p true (m :: ms)) (w.attempt e stored)
      fun a s => (∀ working, a ≠ .refused .unknown working) ∧
        Going holds past rest p true (m :: ms) s := by
  refine attains_isAlive.bind fun alive => ?_
  split
  · refine (attains_send obliging e _).bind fun (outcome, working) => ?_
    refine .of_fact fun known => ?_
    match outcome with
    | .ok (some _) => exact .pure fun _ hs => ⟨by simp, hs⟩
    | .ok none => exact .pure fun _ hs => ⟨by simp, hs⟩
    | .error fault => exact .pure fun _ hs => ⟨by simpa using known, hs⟩
  · exact (attains_log _ _).bind fun _ => .pure fun _ hs => ⟨by simp, hs⟩

def Onward (w : Worker σ) (holds : Bool → List Message → σ → Prop) (past : List (Moment σ))
    (m : Message) (rest : List Message) (attempts : Int) (s : Site σ) : Prop :=
  attempts + 1 < w.settings.maxAttempts ∧
      Going holds past rest ⟨attempts + 1, false⟩ true (m :: rest) s ∨
    Going holds past rest ⟨0, true⟩ false rest s

variable (bounded : 0 < w.settings.maxAttempts) (drop : w.settings.dropOnMaxAttempts = true)
  {attempts : Int}

include bounded drop

theorem attains_prepareToRetry (working : Message) :
    Attains (Going holds past rest ⟨attempts, false⟩ true (m :: rest)) (w.prepareToRetry working)
      fun _ => w.Onward holds past m rest attempts := by
  intro s hs
  have limited : w.settings.retryPolicy.bounded = true := bounded_of_pos bounded
  have drops : w.settings.retryPolicy.drops = true := by
    simp [Settings.retryPolicy, RetryPolicy.of, drop, bounded]
  have limit : w.settings.retryPolicy.maxAttempts = w.settings.maxAttempts := rfl
  rw [prepareToRetry, Act.bind_done (Act.status_apply s), hs.running, hs.progress]
  by_cases within : attempts + 1 < w.settings.maxAttempts
  · rw [RetryPolicy.onFailure_within limited within]
    refine Attains.mono (Q := fun _ => Going holds past rest ⟨attempts + 1, false⟩ true (m :: rest))
      ?_ (fun _ _ h => .inl ⟨within, h⟩) s hs
    exact (attains_setProgress _).bind fun _ => (attains_log _ _).bind fun _ =>
      attains_sleep obliging _
  · rw [RetryPolicy.onFailure_dropped limited (by rw [limit]; exact Int.not_lt.1 within) drops]
    refine Attains.mono (Q := fun _ => Going holds past rest ⟨0, true⟩ false rest) ?_
      (fun _ _ h => .inr h) s hs
    exact (attains_setProgress _).bind fun _ => (attains_acknowledge obliging _).bind fun _ =>
      (attains_count _).bind fun _ => attains_log _ _

theorem attains_judge (e : Endpoint) (stored response working : Message) :
    Attains (Going holds past rest ⟨attempts, true⟩ true (m :: rest))
      (w.judge e stored response working) fun _ => w.Onward holds past m rest attempts := by
  have settled {x : Act σ Unit}
      (hx : Attains (Going holds past rest ⟨attempts, true⟩ true (m :: rest)) x
        fun _ => Going holds past rest ⟨0, true⟩ false rest) :
      Attains (Going holds past rest ⟨attempts, true⟩ true (m :: rest))
        (w.mediate .reply response >>= fun _ => x) fun _ => w.Onward holds past m rest attempts :=
    (attains_mediate obliging _ _).bind fun _ => hx.mono fun _ _ => .inr
  rw [judge]
  dsimp only
  split
  · exact settled (attains_completeDelivery obliging _ _)
  · exact settled (attains_settleUndelivered obliging _ _)
  · exact (attains_setSucceeded false).bind fun _ =>
      (attains_reportFailure obliging _ _).bind fun _ =>
        attains_prepareToRetry obliging bounded drop working

theorem attains_recover (e : Endpoint) (stored : Message) {fault : Fault} (known : fault ≠ .unknown)
    (working : Message) :
    Attains (Going holds past rest ⟨attempts, false⟩ true (m :: rest))
      (w.recover e stored fault working) fun _ => w.Onward holds past m rest attempts := by
  have again (text : String) : Attains (Going holds past rest ⟨attempts, false⟩ true (m :: rest))
      (do w.prepareToRetry (← w.reportFailure text working))
      fun _ => w.Onward holds past m rest attempts :=
    (attains_reportFailure obliging _ _).bind fun _ =>
      attains_prepareToRetry obliging bounded drop _
  rw [recover]
  cases fault with
  | unknown => exact absurd rfl known
  | delivery what cause =>
    simp only [Fault.describe?]
    split
    · exact (attains_settleUndelivered obliging _ _).mono fun _ _ => .inr
    · exact again _
  | runtime what => exact again _
  | invalidArgument what => exact again _

theorem attains_deliverOnce (e : Endpoint) (stored : Message) :
    Attains (Going holds past rest ⟨attempts, false⟩ true (m :: rest)) (w.deliverOnce e stored)
      fun _ => w.Onward holds past m rest attempts := by
  have complete : Attains (Going holds past rest ⟨attempts, false⟩ true (m :: rest))
      (do
        succeed
        w.completeDelivery e stored.id) fun _ => w.Onward holds past m rest attempts :=
    (attains_setSucceeded true).bind fun _ =>
      (attains_completeDelivery obliging _ _).mono fun _ _ => .inr
  refine (attains_attempt obliging e stored).bind fun found => .of_fact fun known => ?_
  cases found with
  | skipped => exact complete
  | completed => exact complete
  | answered response working =>
    exact (attains_setSucceeded true).bind fun _ =>
      attains_judge obliging bounded drop _ _ _ _
  | refused fault working =>
    exact attains_recover obliging bounded drop _ _ (by simpa using known) _

/-- The budget is the measure: each failed attempt leaves one attempt less. -/
theorem attains_deliver (e : Endpoint) (stored : Message) (fuel : Nat)
    (enough : w.settings.maxAttempts < attempts + fuel) (left : attempts < w.settings.maxAttempts) :
    Attains (Going holds past rest ⟨attempts, false⟩ true (m :: rest)) (w.deliver e stored fuel)
      fun _ => Going holds past rest ⟨0, true⟩ false rest := by
  induction fuel generalizing attempts with
  | zero => omega
  | succ fuel ih =>
    intro s hs
    obtain ⟨_, t, once, onward⟩ := attains_deliverOnce obliging bounded drop e stored s hs
    rw [deliver, Act.bind_done (Act.status_apply s), Act.onlyIf,
      if_pos ⟨by rw [hs.progress], hs.running⟩, Act.bind_done once]
    rcases onward with ⟨within, again⟩ | settled
    · exact ih (by omega) within t again
    · obtain ⟨fuel, rfl⟩ : ∃ n, fuel = n + 1 := ⟨fuel - 1, by omega⟩
      rw [deliver, Act.bind_done (Act.status_apply t), Act.onlyIf,
        if_neg (by simp [settled.progress])]
      exact ⟨(), t, rfl, settled⟩

theorem attains_cycle (received : Message) {fuel : Nat} (enough : w.settings.maxAttempts < fuel) :
    Attains (Going holds past rest .fresh true (m :: rest)) (w.cycle received fuel)
      fun _ s => ∃ p, Going holds past rest p false rest s := by
  have forward : Attains (Going holds past rest .fresh true (m :: rest))
      (w.forward (unmarked received) fuel)
      fun _ s => ∃ p, Going holds past rest p false rest s := by
    refine (attains_log _ _).bind fun _ => (attains_resolveTarget _).bind fun target => ?_
    cases target with
    | some e =>
      exact (attains_deliver obliging bounded drop e _ fuel (by omega) bounded).mono
        fun _ _ hs => ⟨_, hs⟩
    | none =>
      exact (attains_log _ _).bind fun _ => (attains_count _).bind fun _ =>
        (attains_acknowledge obliging _).mono fun _ _ hs => ⟨_, hs⟩
  refine (attains_count _).bind fun _ => forward.catching.bind fun r => ?_
  rintro s ⟨_, rfl, hs⟩
  exact ⟨(), s, rfl, hs⟩

end Attains

/-- What is done about a message until it is settled: after `k` failed attempts the worker has
waited, and there is at most one more. -/
structure Tended (w : Worker σ) (k : Nat) (ms : List (Moment σ)) : Prop where
  limit : (k : Int) < w.settings.maxAttempts
  sends : tally Event.sends ms ≤ k + 1
  waits : delays ms = if 0 < w.settings.retryIntervalMs then
    List.replicate k w.settings.retryIntervalMs else []
  fetches : tally Event.fetches ms = 0
  acknowledges : tally Event.acknowledges ms = 0

section Tended

variable {w : Worker σ} {e : Endpoint} {stored : Message} {s s' : Site σ} {t : Try σ}
  {ts : List (Try σ)} {ms : List (Moment σ)}

theorem Retried.lap (h : w.Retried e stored t) :
    tally Event.sends t.moments = 1 ∧ tally Event.fetches t.moments = 0 ∧
      tally Event.acknowledges t.moments = 0 ∧
      delays t.moments =
        if 0 < w.settings.retryIntervalMs then [w.settings.retryIntervalMs] else [] := by
  obtain ⟨⟨working, found⟩, a, b, -, retrying⟩ := h
  have attempted := found.staged
  have rested := retrying.staged
  refine ⟨?_, ?_, ?_, ?_⟩
  · rw [Try.moments, tally_append, found.sends_of_failed,
      rested.tally Event.within_sends (by decide)]
  · rw [Try.moments, tally_append, attempted.tally Event.within_fetches (by decide),
      rested.tally Event.within_fetches (by decide)]
  · rw [Try.moments, tally_append, attempted.tally Event.within_acknowledges (by decide),
      rested.tally Event.within_acknowledges (by decide)]
  · rw [Try.moments, delays_append, retrying.delays_eq,
      delays_eq_nil (attempted.tally Event.within_sleeps (by decide)), List.nil_append]

theorem Tries.settles (tries : w.Tries e stored ts s s' (.done ()))
    (unsettled : s.status.progress.succeeded = false) (running : s'.status.terminated = false) :
    ∃ older t mid, ts = older ++ [t] ∧ (∀ u ∈ older, w.Retried e stored u) ∧
      w.Found e stored t.finding t.found ∧ Settled mid s' t.aftermath := by
  generalize hr : Ending.done () = r at tries
  induction tries with
  | ended stop => exact absurd ⟨unsettled, running⟩ stop
  | stalled => cases hr
  | broken => cases hr
  | @more t ts s mid s' r tried tries ih =>
    subst hr
    cases ts with
    | cons _ _ =>
      obtain ⟨older, last, a, hts, retried, found, settled⟩ :=
        ih (tries.begun (by simp)).1 running rfl
      obtain ⟨first, -⟩ := tries.retried (by simp) tried
      exact ⟨t :: older, last, a, by rw [hts, List.cons_append],
        List.forall_mem_cons.2 ⟨first, retried⟩, found, settled⟩
    | nil =>
      cases tries with
      | ended stop =>
        obtain ⟨finding, found, aftermath⟩ := t
        obtain ⟨a, assessed, followed⟩ := tried.course
        have settled : Settled a mid aftermath := by
          by_cases succeeded : mid.status.progress.succeeded = false
          · exact absurd ⟨succeeded, running⟩ stop
          · generalize hq : Ending.done () = q at followed
            cases followed with
            | delivered h => exact h
            | turnedDown h => exact h
            | broken => cases hq
            | ended up => simp [up] at running
            | again _ h =>
              refine absurd ?_ succeeded
              rw [h.unsettled, assessed.unsettled _ rfl unsettled]
            | dropped _ _ _ _ h _ => exact h
            | exhausted _ _ _ _ h => simp [h.terminated.1] at running
        exact ⟨[], _, a, rfl, by simp, assessed.found, settled⟩

theorem tended_retried {older : List (Try σ)} (retried : ∀ u ∈ older, w.Retried e stored u) :
    tally Event.sends (older.flatMap Try.moments) = older.length ∧
      tally Event.fetches (older.flatMap Try.moments) = 0 ∧
      tally Event.acknowledges (older.flatMap Try.moments) = 0 ∧
      delays (older.flatMap Try.moments) = if 0 < w.settings.retryIntervalMs then
        List.replicate older.length w.settings.retryIntervalMs else [] := by
  induction older with
  | nil => simp
  | cons u older ih =>
    obtain ⟨first, retried⟩ := List.forall_mem_cons.1 retried
    obtain ⟨sends, fetches, acknowledges, waits⟩ := first.lap
    obtain ⟨sends', fetches', acknowledges', waits'⟩ := ih retried
    rw [List.flatMap_cons]
    refine ⟨?_, ?_, ?_, ?_⟩
    · rw [tally_append, sends, sends', List.length_cons, Nat.add_comm]
    · rw [tally_append, fetches, fetches']
    · rw [tally_append, acknowledges, acknowledges']
    · rw [delays_append, waits, waits']
      split <;> rfl

theorem Cycled.tended (bounded : 0 < w.settings.maxAttempts)
    (h : w.Cycled stored s s' ms (.done ())) (fresh : s.status.progress = .fresh)
    (running : s'.status.terminated = false) :
    ∃ before x after accepted k, ms = before ++ x :: after ∧ w.Tended k before ∧
      x.event = .acknowledged accepted ∧ ∀ y ∈ after, y.event.incidental = true := by
  generalize hr : Ending.done () = r at h
  cases h with
  | @givenUp _ _ _ _ _ r _ given =>
    obtain ⟨_, _, _, -, -, -, retired⟩ := given.retired
    cases r with
    | error _ => cases hr
    | ok _ => simp [retired.terminated] at running
  | forwarded h =>
    cases h with
    | @untargeted _ _ x xs y ys accepted hx _ hxs hy hys _ _ =>
      have quiet : ∀ z ∈ x :: xs, z.event.incidental = true :=
        List.forall_mem_cons.2 ⟨hx, hxs⟩
      refine ⟨x :: xs, y, ys, accepted, 0, rfl, ⟨bounded, ?_, ?_, ?_, ?_⟩, hy, hys⟩
      · rw [tally_incidental Event.sober_sends quiet]
        omega
      · rw [delays_eq_nil (tally_incidental Event.sober_sleeps quiet)]
        simp
      · exact tally_incidental Event.sober_fetches quiet
      · exact tally_incidental Event.sober_acknowledges quiet
    | @targeted e _ t _ x ts _ hx _ _ status _ tries =>
      subst hr
      have begun : t.status.progress = .fresh := by rw [status, fresh]
      have limit := tries.length_le bounded (by rw [begun]; rfl)
      obtain ⟨older, last, mid, rfl, retried, found, settled⟩ :=
        tries.settles (by rw [begun]; rfl) running
      obtain ⟨sends, fetches, acknowledges, waits⟩ := tended_retried retried
      obtain ⟨y, ys, accepted, aftermath, hy, hys⟩ := settled.acknowledged
      have attempted := found.staged
      have first {p : Event → Bool} (hp : Event.Sober p) : p x.event = false := hp _ hx
      refine ⟨x :: older.flatMap Try.moments ++ last.found, y, ys, accepted, older.length, ?_,
        ⟨?_, ?_, ?_, ?_, ?_⟩, hy, hys⟩
      · simp [Try.moments, aftermath]
      · simp only [List.length_append, List.length_singleton] at limit
        omega
      · have := found.sends_le
        rw [tally_append, tally_cons, first Event.sober_sends, sends]
        simp only [Bool.toNat_false]
        omega
      · have quiet : delays [x] = [] :=
          delays_eq_nil (tally_incidental Event.sober_sleeps (by simpa using hx))
        rw [delays_append, delays_cons, quiet, waits,
          delays_eq_nil (attempted.tally Event.within_sleeps (by decide)), List.append_nil,
          List.nil_append]
      · rw [tally_append, tally_cons, first Event.sober_fetches, fetches,
          attempted.tally Event.within_fetches (by decide)]
        rfl
      · rw [tally_append, tally_cons, first Event.sober_acknowledges, acknowledges,
          attempted.tally Event.within_acknowledges (by decide)]
        rfl

end Tended

def pauses (w : Worker σ) : List Int :=
  (if 0 < w.settings.throttleIntervalMs then [w.settings.throttleIntervalMs] else []) ++
    if 0 < w.settings.pollIntervalMs ∧ w.settings.pollIntervalMs < 1000 then
      [w.settings.pollIntervalMs] else []

/-- How it shows in the journal that a worker takes all messages from the store: each of them is
fetched, tended, and acknowledged, after which it is out of the store and the worker waits. At last
there is nothing to fetch. -/
inductive Drains (w : Worker σ) (holds : Bool → List Message → σ → Prop) :
    List Message → List (Moment σ) → Prop
  | drained {x fetch rest} : x.event = .ownerAsked false →
      Called .receiving (.received none) fetch → (∀ y ∈ rest, y.event.incidental = true) →
      Drains w holds [] (x :: fetch ++ rest)
  | round {m ms x fetch before k y after later} : x.event = .ownerAsked false →
      Called .receiving (.received (some m)) fetch → w.Tended k before →
      y.event = .acknowledged true → holds false ms y.world → Staged .rest after →
      delays after = w.pauses → Drains w holds ms later →
      Drains w holds (m :: ms) (x :: fetch ++ (before ++ y :: after) ++ later)

section Drains

variable {w : Worker σ} {holds : Bool → List Message → σ → Prop}
  (obliging : w.outside.Obliging holds) (cron : w.settings.cronMode = true)
  (unthrottled : w.settings.throttle = false) {past : List (Moment σ)} {rest : List Message}
  {p : Progress} {s : Site σ}

include obliging cron unthrottled in
theorem pauses_spec (h : Going holds past rest p false rest s) (begun : Int) :
    ∃ t ns, w.pace begun s = (.done true, t) ∧ t.moments = s.moments ++ ns ∧ Staged .rest ns ∧
      delays ns = w.pauses ∧ Going holds past rest p false rest t := by
  have slept (d : Int) {s : Site σ} (h : Going holds past rest p false rest s) :
      ∃ t ns, w.sleep d s = (.done (), t) ∧ t.moments = s.moments ++ ns ∧ Rested d ns ∧
        Going holds past rest p false rest t := by
    obtain ⟨_, t, sleep, going⟩ := attains_sleep obliging d s h
    obtain ⟨r, u, ns, sleep', spell, rested, -⟩ := w.sleep_spec d s
    obtain ⟨-, rfl⟩ := Prod.mk.inj (sleep.symm.trans sleep')
    exact ⟨t, ns, sleep, spell.moments, rested, going⟩
  obtain ⟨t, ns, throttle, moments, rested, going⟩ := slept w.settings.throttleIntervalMs h
  obtain ⟨u, ns', poll, moments', rested', going'⟩ : ∃ u ns',
      Act.onlyIf (w.settings.pollIntervalMs < pacingLimitMs) (w.sleep w.settings.pollIntervalMs) t =
        (.done (), u) ∧ u.moments = t.moments ++ ns' ∧
      (Staged .rest ns' ∧ delays ns' =
        if 0 < w.settings.pollIntervalMs ∧ w.settings.pollIntervalMs < 1000 then
          [w.settings.pollIntervalMs] else []) ∧
      Going holds past rest p false rest u := by
    rw [Act.onlyIf_apply]
    split
    case isTrue short =>
      obtain ⟨u, ns', poll, moments', rested', going'⟩ := slept w.settings.pollIntervalMs going
      refine ⟨u, ns', poll, moments', ⟨rested'.staged, ?_⟩, going'⟩
      rw [rested'.delays_eq]
      simp [show w.settings.pollIntervalMs < 1000 from short]
    case isFalse long =>
      refine ⟨t, [], rfl, by simp, ⟨.nil, ?_⟩, going⟩
      rw [if_neg fun h => long h.2]
      rfl
  refine ⟨u, ns ++ ns', ?_, by rw [moments', moments, List.append_assoc],
    rested.staged.append rested'.1, by rw [delays_append, rested.delays_eq, rested'.2, pauses],
    going'⟩
  rw [pace, Act.bind_done (Act.status_apply s), h.running, cron, Act.onlyIf, if_pos rfl]
  simp only [Bool.false_eq_true, if_false]
  rw [Act.bind_done throttle, Act.bind_done poll, unthrottled]
  rfl

theorem Drains.fetches {ms : List Message} {ns : List (Moment σ)} (h : w.Drains holds ms ns) :
    tally Event.fetches ns = ms.length + 1 := by
  induction h with
  | drained hx fetch quiet =>
    rw [List.cons_append, tally_cons, tally_append, fetch.tally_eq Event.sober_fetches,
      tally_incidental Event.sober_fetches quiet, hx]
    rfl
  | @round m ms x fetch before k y after later hx fetched tended hy _ rested _ _ ih =>
    rw [tally_append, ih, List.cons_append, tally_cons, tally_append,
      fetched.tally_eq Event.sober_fetches, tally_append, tended.fetches, tally_cons,
      rested.tally Event.within_fetches (by decide), hx, hy]
    simp [Event.fetches]
    omega

def reset (s : Site σ) : Site σ :=
  (s.withStatus { s.status with progress := .fresh }).note (.ownerAsked false)

include obliging

theorem fetch_spec {ms : List Message} (world : holds false ms s.world)
    (running : s.status.terminated = false) :
    ∃ t x fetch, w.receive (reset s) = (.done ms.head?, t) ∧
      t.moments = s.moments ++ x :: fetch ∧ x.event = .ownerAsked false ∧
      Called .receiving (.received ms.head?) fetch ∧
      ∀ rest, Going holds s.moments rest .fresh (!ms.isEmpty) ms t := by
  have asked (rest : List Message) : Going holds s.moments rest .fresh false ms (reset s) :=
    ((Going.begin world running rest).withStatus
      (t := { s.status with progress := .fresh }) running).note rfl
  obtain ⟨_, t, receive, rfl, -⟩ := attains_receive obliging (reset s) (asked [])
  obtain ⟨r, u, fetch, receive', spell, called, -⟩ := w.receive_spec (reset s)
  obtain ⟨hr, rfl⟩ := Prod.mk.inj (receive.symm.trans receive')
  obtain rfl : r = .ok ms.head? := by
    cases r with
    | error _ => cases hr
    | ok _ => rw [Ending.done.inj hr]
  let active := (s.withStatus { s.status with progress := .fresh }).moment (.ownerAsked false)
  refine ⟨t, active, fetch, receive, ?_, rfl, called, fun rest => ?_⟩
  · rw [spell.moments, reset, Site.moments_note, List.append_assoc]
    rfl
  obtain ⟨_, v, receive'', -, going⟩ := attains_receive obliging (reset s) (asked rest)
  obtain ⟨-, rfl⟩ := Prod.mk.inj (receive.symm.trans receive'')
  exact going

theorem turn_active {ms : List Message} (world : holds false ms s.world) (begun : Int)
    (fuel : Nat) {t : Site σ} {r : Option Message} (receive : w.receive (reset s) = (.done r, t)) :
    w.turn begun fuel s = (match r with
      | some m => do
        w.cycle m fuel
        w.pace begun
      | none => do
        w.log .debug "No messages were received"
        if w.settings.cronMode then return false
        w.pace begun) t := by
  have active : w.outside.isDeactivated s.world = false := obliging.active world
  rw [turn, Act.bind_done (Act.setProgress_apply _ s), isDeactivated, bind_assoc,
    Act.bind_done (Act.look_apply _ _), bind_assoc, Act.bind_done (Act.note_apply _ _), pure_bind,
    Site.world_withStatus, active]
  simp only [Bool.false_eq_true, if_false]
  refine (Act.bind_done (s := reset s) (Act.catching_done receive) _).trans ?_
  cases r <;> rfl

include cron

theorem turn_drained (world : holds false [] s.world) (running : s.status.terminated = false)
    (begun : Int) (fuel : Nat) :
    ∃ t ns, w.turn begun fuel s = (.done false, t) ∧ t.moments = s.moments ++ ns ∧
      w.Drains holds [] ns ∧ holds false [] t.world ∧ t.status.terminated = false := by
  obtain ⟨t, x, fetch, receive, moments, hx, called, going⟩ := fetch_spec obliging world running
  let exit : Event := .log ⟨.debug,
    "[" ++ w.outside.ownerName t.world ++ "] " ++ "No messages were received"⟩
  refine ⟨t.note exit, x :: fetch ++ [t.moment exit], ?_, ?_, .drained hx called ?_,
    (going []).world, (going []).running⟩
  · rw [turn_active obliging world begun fuel receive]
    simp only [List.head?_nil, cron, if_true]
    rfl
  · rw [Site.moments_note, moments, List.append_assoc]
  · simp [exit, Event.incidental]

variable (bounded : 0 < w.settings.maxAttempts) (drop : w.settings.dropOnMaxAttempts = true)

include unthrottled bounded drop

theorem turn_round {m : Message} (world : holds false (m :: rest) s.world)
    (running : s.status.terminated = false) (begun : Int) {fuel : Nat}
    (enough : w.settings.maxAttempts < fuel) :
    ∃ t ns, w.turn begun fuel s = (.done true, t) ∧ t.moments = s.moments ++ ns ∧
      holds false rest t.world ∧ t.status.terminated = false ∧
      ∀ later, w.Drains holds rest later → w.Drains holds (m :: rest) (ns ++ later) := by
  obtain ⟨t, x, fetch, receive, moments, hx, called, going⟩ := fetch_spec obliging world running
  obtain ⟨_, u, cycle, p, settled⟩ :=
    attains_cycle obliging bounded drop m enough t (going rest)
  obtain ⟨v, ns, r, cycle', cycled⟩ := w.cycle_spec m fuel t
  obtain ⟨rfl, rfl⟩ := Prod.mk.inj (cycle.symm.trans cycle')
  obtain ⟨before, y, after, accepted, k, rfl, tended, hy, quiet⟩ :=
    cycled.tended bounded (going rest).progress settled.running
  obtain ⟨v, waits, pace, moments'', rested, delays_eq, paused⟩ :=
    pauses_spec obliging cron unthrottled settled begun
  have moments' : u.moments = s.moments ++ (x :: fetch ++ (before ++ y :: after)) := by
    rw [cycled.grows.moments, Site.moments_counted, moments, List.append_assoc]
  obtain ⟨hy, left⟩ : y.event = .acknowledged true ∧ holds false rest y.world := by
    obtain ⟨since, all, accepted⟩ := settled.since
    obtain rfl := List.append_cancel_left (moments'.symm.trans all)
    exact accepted y (by simp) (by rw [hy]; rfl)
  refine ⟨v, x :: fetch ++ (before ++ y :: (after ++ waits)), ?_, ?_, paused.world, paused.running,
    ?_⟩
  · rw [turn_active obliging world begun fuel receive]
    simp only [List.head?_cons]
    rw [Act.bind_done cycle, pace]
  · rw [moments'', moments']
    simp
  · intro later drains
    refine .round hx called tended hy left ((Staged.of_incidental quiet).append rested) ?_ drains
    rw [delays_append, delays_eq, delays_eq_nil (tally_incidental Event.sober_sleeps quiet),
      List.nil_append]

theorem turns_drain {ms : List Message} (world : holds false ms s.world)
    (running : s.status.terminated = false) (begun : Int) {fuel : Nat}
    (enough : ms.length + w.settings.maxAttempts < fuel) :
    ∃ t ns, w.turns begun fuel s = (.done (), t) ∧ t.moments = s.moments ++ ns ∧
      w.Drains holds ms ns ∧ holds false [] t.world ∧ t.status.terminated = false := by
  induction ms generalizing s fuel with
  | nil =>
    obtain ⟨fuel, rfl⟩ : ∃ n, fuel = n + 1 := ⟨fuel - 1, by simp at enough; omega⟩
    obtain ⟨t, ns, turn, moments, drains, world', running'⟩ :=
      turn_drained obliging cron world running begun fuel
    refine ⟨t, ns, ?_, moments, drains, world', running'⟩
    rw [turns, Act.bind_done (Act.status_apply s), Act.onlyIf, if_pos running, Act.bind_done turn]
    rfl
  | cons m rest ih =>
    rw [List.length_cons] at enough
    obtain ⟨fuel, rfl⟩ : ∃ n, fuel = n + 1 := ⟨fuel - 1, by omega⟩
    obtain ⟨t, ns, turn, moments, world', running', round⟩ :=
      turn_round obliging cron unthrottled bounded drop world running begun
        (show w.settings.maxAttempts < fuel by omega)
    obtain ⟨u, later, turns, moments', drains, world'', running''⟩ :=
      ih world' running' (show (rest.length : Int) + w.settings.maxAttempts < fuel by omega)
    refine ⟨u, ns ++ later, ?_, by rw [moments', moments, List.append_assoc], round later drains,
      world'', running''⟩
    rw [Worker.turns, Act.bind_done (Act.status_apply s), Act.onlyIf, if_pos running,
      Act.bind_done turn, Act.onlyIf, if_pos rfl, turns]

end Drains

section Ready

open Act (Attains)

variable {w : Worker σ} {holds : Bool → List Message → σ → Prop}
  (obliging : w.outside.Obliging holds) {past : List (Moment σ)} {rest ms : List Message}
  {p : Progress}

include obliging

theorem attains_startupDelay :
    Attains (Going holds past rest p false ms) w.startupDelay
      fun _ => Going holds past rest p false ms :=
  (attains_clockSleep obliging _).bind fun _ =>
    (Attains.onlyIf _ (attains_log _ _)).bind fun _ s hs => ⟨(), _, rfl,
      hs.progress ▸ hs.withStatus (t := { s.status with delayDue := false }) hs.running⟩

theorem attains_acquire (valid : w.settings.complaints = []) :
    Attains (Going holds past rest p false ms) w.acquire
      fun _ => Going holds past rest p false ms := by
  simp only [acquire, valid]
  refine (attains_createConsumer obliging).bind fun given => .of_fact ?_
  rintro rfl s hs
  have held := hs.withStatus (t := { s.status with holdsConsumer := true }) hs.running
  rw [hs.progress] at held
  exact ((attains_storeName obliging).bind fun _ => attains_log _ _) _ held

theorem attains_ready (valid : w.settings.complaints = []) :
    Attains (Going holds past rest p false ms) w.ready
      fun r s => r = .ok () ∧ Going holds past rest p false ms s := by
  have status : Attains (Going holds past rest p false ms) (Act.status)
      fun _ => Going holds past rest p false ms := fun s hs => ⟨s.status, s, rfl, hs⟩
  refine status.bind fun t => (Attains.onlyIf _ (attains_startupDelay obliging)).bind fun _ => ?_
  split
  · exact .pure fun _ hs => ⟨rfl, hs⟩
  · refine (attains_acquire obliging valid).catching.mono fun r s ⟨_, hr, hs⟩ => ⟨hr, hs⟩

end Ready

/-- One run in cron mode drains the store, whatever it holds and whatever the sender does: it comes
to its end, each message is fetched once and acknowledged in its turn after the attempts it may
have, the worker waits after each of them and not in the end, and goes on at the next trigger. -/
theorem drains_store {w : Worker σ} {holds : Bool → List Message → σ → Prop}
    (obliging : w.outside.Obliging holds) (valid : w.settings.complaints = [])
    (cron : w.settings.cronMode = true) (unthrottled : w.settings.throttle = false)
    (bounded : 0 < w.settings.maxAttempts) (drop : w.settings.dropOnMaxAttempts = true)
    {s : Site σ} (running : s.status.terminated = false) {ms : List Message}
    (world : holds false ms s.world) {fuel : Nat}
    (enough : ms.length + w.settings.maxAttempts < fuel) :
    ∃ t opening rounds exit, w.run fuel s = (.done (), t) ∧
      t.moments = s.moments ++ (opening ++ rounds ++ [exit]) ∧
      (tally Event.fetches opening = 0 ∧ tally Event.sends opening = 0 ∧
        tally Event.acknowledges opening = 0) ∧
      w.Drains holds ms rounds ∧ exit.event.incidental = true ∧
      tally Event.fetches (opening ++ rounds ++ [exit]) = ms.length + 1 ∧
      holds false [] t.world ∧ t.status.terminated = false ∧
      w.outside.isDeactivated t.world = false := by
  have begun : Going holds s.moments [] s.status.progress false ms (s.note .runBegun) :=
    (Going.begin world running []).note rfl
  obtain ⟨_, t, ready, rfl, going⟩ := attains_ready obliging valid _ begun
  obtain ⟨opening, moments, -⟩ := going.since
  have opens {g : Stage} {p : Event → Bool} (hp : Event.Within g p) (hg : carefree g = false)
      (hb : p .runBegun = false) : tally p opening = 0 := by
    have omits := w.omits_ready hp hg (tally p s.moments) (s.note .runBegun) (by simp [hb])
    rw [ready, moments, tally_append] at omits
    omega
  obtain ⟨u, rounds, turns, moments', drains, world', running'⟩ :=
    turns_drain obliging cron unthrottled bounded drop going.world going.running
      (w.outside.now s.world) enough
  let exit : Event := .log ⟨.debug,
    "[" ++ w.outside.ownerName u.world ++ "] " ++ "Exiting worker iteration"⟩
  have fetches := opens Event.within_fetches rfl rfl
  refine ⟨u.note exit, opening, rounds, u.moment exit, ?_, ?_,
    ⟨fetches, opens Event.within_sends rfl rfl, opens Event.within_acknowledges rfl rfl⟩, drains,
    rfl, ?_, world', running', obliging.active world'⟩
  · rw [run_begun ready, forwardAll, Act.bind_done turns]
    rfl
  · rw [Site.moments_note, moments', moments]
    simp
  · rw [tally_append, tally_append, fetches, drains.fetches]
    simp [exit, Event.fetches]

theorem plain_obliging {exchange : Except Fault (Option Message)}
    (known : exchange ≠ .error .unknown) :
    (Outside.plain exchange []).Obliging fun _ ms v => v = ms where
  active _ := rfl
  createConsumer h := ⟨rfl, h, by simp [Outside.plain]⟩
  storeName h := ⟨⟨_, rfl⟩, h, by simp [Outside.plain]⟩
  receive h := ⟨congrArg (fun v : List Message => Except.ok v.head?) h, h, by simp [Outside.plain]⟩
  acknowledge h := ⟨rfl, congrArg List.tail h⟩
  send _ _ h := ⟨known, h, by simp [Outside.plain]⟩
  mediate _ registered := by cases registered
  sleep _ _ h := ⟨⟨_, rfl⟩, h, by simp [Outside.plain]⟩

/-- Two messages to an endpoint that is down: both of them are dropped. -/
theorem drains_store_plain :
    let w := plain
      { maxAttempts := 2, dropOnMaxAttempts := true, throttle := false, retryIntervalMs := 10,
        cronExpression := "0 * * * * ?", throttleIntervalMs := 5, pollIntervalMs := 250 }
      (.error (.delivery "down" "down"))
    let ms : List Message := [⟨"1", ∅, .null⟩, ⟨"2", ∅, .null⟩]
    w.pauses = [5, 250] ∧ ∃ t opening rounds exit, w.run 5 (w.fresh ms) = (.done (), t) ∧
      t.moments = opening ++ rounds ++ [exit] ∧
      w.Drains (fun _ ms v => v = ms) ms rounds ∧ t.world = [] ∧ t.status.terminated = false := by
  intro w ms
  have enough : (ms.length : Int) + w.settings.maxAttempts < (5 : Nat) := by decide
  obtain ⟨t, opening, rounds, exit, run, moments, -, drains, -, -, world, running, -⟩ :=
    drains_store (w := w) (plain_obliging (by simp)) (by decide) (by decide) rfl (by decide) rfl
      (s := w.fresh ms) rfl rfl enough
  exact ⟨by decide, t, opening, rounds, exit, run, moments, drains, world, running⟩

end Worker

end Courier
