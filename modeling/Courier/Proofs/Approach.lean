import Courier.Proofs.Stock
import Courier.Proofs.Tenure

namespace Courier

variable {σ α β : Type}

def Reply.Loyal (r : Reply (Hosted σ) α) : Prop :=
  (∀ a ∈ r.asides, ∃ record, a = .log record) ∨ r.world.host.worker.terminated = true

structure Outside.Loyal (o : Outside (Hosted σ)) : Prop where
  createConsumer : ∀ v, (o.createConsumer v).Loyal
  storeName : ∀ v, (o.storeName v).Loyal
  sleep : ∀ ms up v, (o.sleep ms up v).Loyal

theorem Stock.Grows.trans {k k' k'' : Stock} (h : k.Grows k') (l : k'.Grows k'') : k.Grows k'' := by
  obtain ⟨ms, pending, pushed⟩ := h
  obtain ⟨ns, pending', pushed'⟩ := l
  exact ⟨ms ++ ns, by simp [pending', pending], by simp [pushed', pushed]⟩

def Stock.Accounts (removed first : List Message) (k : Stock) : Prop :=
  removed ++ k.pending = first ++ k.pushed

theorem Stock.Accounts.grows {removed first : List Message} {k k' : Stock}
    (h : k.Accounts removed first) (grows : k.Grows k') : k'.Accounts removed first := by
  obtain ⟨ms, pending, pushed⟩ := grows
  rw [Accounts, pending, pushed, ← List.append_assoc, h, List.append_assoc]

namespace Worker

theorem status_hearAll (w : Worker σ) {as : List Aside}
    (quiet : ∀ a ∈ as, ∃ record, a = .log record) (s : Site σ) :
    (w.hearAll as s).2.status = s.status := by
  induction as generalizing s with
  | nil => rfl
  | cons a as ih =>
    obtain ⟨⟨record, rfl⟩, later⟩ := List.forall_mem_cons.1 quiet
    exact (ih later (s.note (.log record))).trans (Site.status_note _ s)

end Worker

def Act.Heads (T P : Site σ → Prop) (x : Act σ α) (Q : α → Site σ → Prop) : Prop :=
  ∀ a, P a → T (x a).2 ∨ ∃ i b, x a = (.done i, b) ∧ Q i b

section Heads

variable {T P : Site σ → Prop} {Q : α → Site σ → Prop} {R : β → Site σ → Prop} {x : Act σ α}

theorem Act.Heads.bind {f : α → Act σ β} (hx : Act.Heads T P x Q)
    (hf : ∀ i, Act.Heads T (Q i) (f i) R) (stays : ∀ i, Act.Keeps T (f i)) :
    Act.Heads T P (x >>= f) R := by
  intro a ha
  rcases hx a ha with there | ⟨i, b, done, hb⟩
  · exact .inl (Act.Keeps.after there stays)
  · rw [Act.bind_done done]
    exact hf i b hb

theorem Act.Heads.onlyIf (c : Prop) [Decidable c] {x : Act σ Unit}
    (hx : Act.Heads T P x fun _ => P) : Act.Heads T P (Act.onlyIf c x) fun _ => P := by
  intro a ha
  rw [Act.onlyIf_apply]
  split
  · exact hx a ha
  · exact .inr ⟨(), a, rfl, ha⟩

theorem Act.Heads.catching (hx : Act.Heads T P x Q) :
    Act.Heads T P (Act.catching x) fun r b => ∃ i, r = .ok i ∧ Q i b := by
  intro a ha
  rcases hx a ha with there | ⟨i, b, done, hb⟩
  · exact .inl (by rwa [Act.catching_site])
  · exact .inr ⟨.ok i, b, Act.catching_done done, i, rfl, hb⟩

end Heads

namespace Host

def Unfetched (ms : List (Moment σ)) : Prop := ∀ x ∈ ms, ∀ r, x.event ≠ .received r

inductive Hinders (x : Moment (Hosted σ)) : Prop
  | refused : x.event = .consumer false → Hinders x
  | failed {errand fault} : x.event = .failed errand fault → Hinders x
  | stopped : x.world.host.running = false → Hinders x
  | deactivated : x.world.host.deactivated = true → Hinders x

inductive Arrives (stock : σ → Stock) (removed first : List Message)
    (before : List (Moment (Hosted σ))) (x : Moment (Hosted σ)) : Prop
  | hindered : Hinders x → Arrives stock removed first before x
  | fetched (k : Stock) : (∃ y ∈ before, y.event = .consumer true) → k.Accounts removed first →
      x.event = .received k.pending.head? → k.Grows (stock x.world.rest) →
      Arrives stock removed first before x

def Arrived (stock : σ → Stock) (removed first : List Message) (ms : List (Moment (Hosted σ))) :
    Prop :=
  ∃ before x after, ms = before ++ x :: after ∧ Unfetched before ∧
    Arrives stock removed first before x

theorem Arrived.append {stock : σ → Stock} {removed first : List Message}
    {ms : List (Moment (Hosted σ))} (h : Arrived stock removed first ms)
    (ns : List (Moment (Hosted σ))) : Arrived stock removed first (ms ++ ns) := by
  obtain ⟨before, x, after, rfl, unfetched, arrives⟩ := h
  exact ⟨before, x, after ++ ns, by simp, unfetched, arrives⟩

def There (stock : σ → Stock) (removed first : List Message) (past : List (Moment (Hosted σ)))
    (a : Site (Hosted σ)) : Prop :=
  ∃ ms, a.moments = past ++ ms ∧ Arrived stock removed first ms

theorem unmoved_there (w : Worker (Hosted σ)) (stock : σ → Stock) (removed first : List Message)
    (past : List (Moment (Hosted σ))) : w.Unmoved (There stock removed first past) := by
  refine .of_moments (P := fun ms => ∃ ns, ms = past ++ ns ∧ Arrived stock removed first ns) ?_
  rintro _ ns ⟨ms, rfl, arrived⟩
  exact ⟨_, List.append_assoc .., arrived.append ns⟩

def Since (past : List (Moment (Hosted σ))) (given : Bool) (a : Site (Hosted σ)) : Prop :=
  ∃ ms, a.moments = past ++ ms ∧ Unfetched ms ∧ (given = true → ∃ y ∈ ms, y.event = .consumer true)

structure Clear (J : Hosted σ → Prop) (past : List (Moment (Hosted σ))) (given : Bool)
    (a : Site (Hosted σ)) : Prop where
  up : a.status.terminated = false
  live : a.world.host.worker.terminated = false
  world : J a.world
  since : Since past given a

section Clear

variable {J : Hosted σ → Prop} {past : List (Moment (Hosted σ))} {given : Bool}
  {a b : Site (Hosted σ)} {ms : List (Moment (Hosted σ))} {stock : σ → Stock}
  {removed first : List Message}

theorem Since.append (h : Since past given a) (moments : b.moments = a.moments ++ ms)
    (quiet : Unfetched ms) : Since past given b := by
  obtain ⟨ns, before, unfetched, consumer⟩ := h
  refine ⟨ns ++ ms, by rw [moments, before, List.append_assoc],
    List.forall_mem_append.2 ⟨unfetched, quiet⟩, fun got => ?_⟩
  obtain ⟨y, hy, hc⟩ := consumer got
  exact ⟨y, List.mem_append_left _ hy, hc⟩

theorem Since.note (h : Since past given a) {e : Event} (quiet : ∀ r, e ≠ .received r) :
    Since past given (a.note e) :=
  h.append (Site.moments_note e a) (by simpa [Unfetched] using quiet)

theorem Since.consumer (h : Since past given a) : Since past true (a.note (.consumer true)) := by
  obtain ⟨ms, moments, unfetched, -⟩ := h
  refine ⟨ms ++ [a.moment (.consumer true)], by simp [moments], ?_, fun _ => ?_⟩
  · exact List.forall_mem_append.2 ⟨unfetched, by simp⟩
  · exact ⟨a.moment (.consumer true), by simp, rfl⟩

theorem Since.heard (h : Since past given a) (w : Worker (Hosted σ)) (r : Reply (Hosted σ) α) :
    Since past given (w.heard r a) := by
  obtain ⟨ms, spell, incidental⟩ := w.spell_heard r a
  refine h.append spell.moments fun y hy q hq => ?_
  simpa [hq, Event.incidental] using incidental y hy

theorem Since.arrives (h : Since past given a) {e : Event}
    (arrives : ∀ before, (given = true → ∃ y ∈ before, y.event = .consumer true) →
      Arrives stock removed first before (a.moment e)) :
    There stock removed first past (a.note e) := by
  obtain ⟨ms, moments, unfetched, consumer⟩ := h
  exact ⟨ms ++ [a.moment e], by simp [moments], ms, a.moment e, [], rfl, unfetched,
    arrives ms consumer⟩

theorem Clear.note (h : Clear J past given a) {e : Event} (quiet : ∀ r, e ≠ .received r) :
    Clear J past given (a.note e) :=
  ⟨h.up, h.live, h.world, h.since.note quiet⟩

theorem Clear.withStatus (h : Clear J past given a) {t : Status} (up : t.terminated = false) :
    Clear J past given (a.withStatus t) :=
  ⟨up, h.live, h.world, h.since⟩

variable {T : Site (Hosted σ) → Prop}

theorem heads_log (w : Worker (Hosted σ)) (severity : Severity) (text : String) :
    Act.Heads T (Clear J past given) (w.log severity text) fun _ => Clear J past given :=
  fun _ ha => .inr ⟨(), _, rfl, ha.note (by simp)⟩

theorem heads_setStatus {f : Status → Status} (kept : ∀ t, (f t).terminated = t.terminated) :
    Act.Heads T (Clear J past given) (Act.setStatus f) fun _ => Clear J past given :=
  fun a ha => .inr ⟨(), _, rfl, ha.withStatus (t := f a.status) (by rw [kept, ha.up])⟩

end Clear

section Runs

variable {s : Settings} {o : Outside (Hosted σ)} {h : Host} {J : Hosted σ → Prop}
  {past : List (Moment (Hosted σ))} {given : Bool} {a : Site (Hosted σ)} {stock : σ → Stock}
  {removed first : List Message}

structure Guards (s : Settings) (o : Outside (Hosted σ)) (h : Host) (J : Hosted σ → Prop) :
    Prop where
  civil : Civil s.processorName o
  loyal : o.Loyal
  working : h.scheduling = .working
  live : h.worker.terminated = false
  active : h.deactivated = false
  obeys : ∀ {v}, J v → Obeys h v.host
  moves : ∀ {v v'}, (owned s.processorName o).Moves v v' → J v → J v'

theorem grows_heard {stock : σ → Stock} {k : Stock}
    (stocked : Stocked (owned s.processorName o) fun v => stock v.rest) (r : Reply (Hosted σ) α)
    (grows : k.Grows (stock r.world.rest)) (a : Site (Hosted σ)) :
    k.Grows (stock ((runner s o).heard r a).world.rest) := by
  have patient : (runner s o).Patient fun b => k.Grows (stock b.world.rest) :=
    ⟨fun _ hb => hb, fun _ hb => hb, fun {b} hb => hb.trans (stocked.moves (.interrupt b.world))⟩
  exact patient.hearAll r.asides (a.withWorld r.world) grows

theorem there_receive {stock : σ → Stock}
    (stocked : Stocked (owned s.processorName o) fun v => stock v.rest)
    (accounts : ∀ {v}, J v → (stock v.rest).Accounts removed first) (clear : Clear J past true a) :
    There stock removed first past (Act.catching (runner s o).receive a).2 := by
  rw [Act.catching_site, Worker.receive_apply]
  have since := (clear.since.note (e := .receiving) (by simp)).heard (runner s o)
    ((runner s o).outside.receive a.world)
  refine since.arrives fun before consumer => ?_
  cases outcome : ((runner s o).outside.receive a.world).outcome with
  | error fault => exact .hindered (.failed rfl)
  | ok r =>
    obtain ⟨k, grows, rfl, after⟩ := stocked.receive outcome
    exact .fetched k (consumer rfl) ((accounts clear.world).grows grows) rfl
      (grows_heard stocked _ after _)

variable (guards : Guards s o h J)

include guards

theorem hinders_of_terminated {x : Moment (Hosted σ)} (world : J x.world)
    (up : x.world.host.worker.terminated = true) : Hinders x := by
  rcases (guards.obeys world).told with ⟨same, -, -⟩ | ⟨-, stopped | deactivated⟩
  · rw [same, guards.live] at up
    cases up
  · exact .stopped stopped
  · exact .deactivated deactivated

theorem patient_guards (up : Bool) : (runner s o).Patient fun b =>
    J b.world ∧ up ≤ b.world.host.worker.terminated where
  heard _ hb := hb
  status _ hb := hb
  interrupted {b} hb := by
    have moves : (owned s.processorName o).Moves b.world ((runner s o).outside.interrupt b.world) :=
      .interrupt b.world
    refine ⟨guards.moves moves hb.1, Bool.le_trans hb.2 ?_⟩
    have alive : b.world.host.scheduling.alive = true := by
      rw [(guards.obeys hb.1).scheduling, guards.working]
      rfl
    exact (obeys_of_moves guards.civil alive moves (.refl _)).terminated

theorem guarded_heard (r : Reply (Hosted σ) α) (world : J r.world) (a : Site (Hosted σ)) :
    J ((runner s o).heard r a).world ∧
      r.world.host.worker.terminated ≤ ((runner s o).heard r a).world.host.worker.terminated :=
  (patient_guards guards r.world.host.worker.terminated).hearAll r.asides (a.withWorld r.world)
    ⟨world, Bool.le_refl _⟩

theorem Clear.answered (clear : Clear J past given a) (errand : Errand) (ended : α → Event)
    {r : Reply (Hosted σ) α} (loyal : r.Loyal)
    (moves : (owned s.processorName o).Moves a.world r.world) :
    There stock removed first past ((runner s o).answered errand ended r a) ∨
      ∃ i, r.outcome = .ok i ∧ Clear J past given ((runner s o).heard r a) := by
  obtain ⟨world, told⟩ := guarded_heard guards r (guards.moves moves clear.world) a
  have since := clear.since.heard (runner s o) r
  cases outcome : r.outcome with
  | error fault =>
    exact .inl (since.arrives fun _ _ => .hindered (.failed (by rw [outcome]; rfl)))
  | ok i =>
    cases live : ((runner s o).heard r a).world.host.worker.terminated with
    | true =>
      exact .inl (since.arrives fun _ _ => .hindered (hinders_of_terminated guards world live))
    | false =>
      refine .inr ⟨i, rfl, ?_, live, world, since⟩
      -- Had the call terminated the worker, the host would know.
      rcases loyal with logs | up
      · rw [Worker.heard, (runner s o).status_hearAll logs]
        exact clear.up
      · rw [up, live] at told
        cases told rfl

open Act (Heads)

theorem heads_call {x : Act (Hosted σ) α} {begun : Event} {errand : Errand} {c : Call (Hosted σ) α}
    {ended : α → Event} {Q : α → Site (Hosted σ) → Prop}
    (apply : ∀ a, Clear J past given a → x a = (.ofExcept (c a.world).outcome,
      (runner s o).answered errand ended (c a.world) (a.note begun)))
    (quiet : ∀ r, begun ≠ .received r) (loyal : ∀ v, (c v).Loyal)
    (moves : ∀ v, (owned s.processorName o).Moves v (c v).world)
    (closing : ∀ i b, Clear J past given b →
      There stock removed first past (b.note (ended i)) ∨ Q i (b.note (ended i))) :
    Heads (There stock removed first past) (Clear J past given) x Q := by
  intro a ha
  rw [apply a ha]
  rcases (ha.note quiet).answered guards errand ended (loyal a.world) (moves a.world)
    with there | ⟨i, outcome, clear⟩
  · exact .inl there
  · rw [Worker.answered, outcome, Event.closing]
    exact (closing i _ clear).imp_right fun q => ⟨i, _, rfl, q⟩

theorem heads_clockSleep (ms : Int) :
    Heads (There stock removed first past) (Clear J past given) ((runner s o).clockSleep ms)
      fun _ => Clear J past given := by
  have apply (a) (ha : Clear J past given a) : (runner s o).clockSleep ms a =
      (.ofExcept (o.sleep ms false a.world).outcome,
        (runner s o).answered .sleep .slept (o.sleep ms false a.world)
          (a.note (.sleeping ms))) := by
    rw [Worker.clockSleep_apply, ha.up]
    rfl
  exact heads_call guards apply (by simp) (guards.loyal.sleep ms false) (.sleep ms false)
    fun _ _ clear => .inr (clear.note (by simp))

theorem heads_storeName :
    Heads (There stock removed first past) (Clear J past given) (runner s o).storeName
      fun _ => Clear J past given :=
  heads_call guards (fun a _ => (runner s o).storeName_apply a) (by simp) guards.loyal.storeName
    .storeName fun _ _ clear => .inr (clear.note (by simp))

theorem heads_createConsumer :
    Heads (There stock removed first past) (Clear J past given) (runner s o).createConsumer
      fun i b => i = true ∧ Clear J past true b := by
  refine heads_call guards (fun a _ => (runner s o).createConsumer_apply a) (by simp)
    guards.loyal.createConsumer .createConsumer fun i b clear => ?_
  cases i with
  | false => exact .inl (clear.since.arrives fun _ _ => .hindered (.refused rfl))
  | true => exact .inr ⟨rfl, clear.up, clear.live, clear.world, clear.since.consumer⟩

theorem heads_startupDelay :
    Heads (There stock removed first past) (Clear J past given) (runner s o).startupDelay
      fun _ => Clear J past given := by
  have stays := unmoved_there (runner s o) stock removed first past
  have begun : (runner s o).Composed (Act.setStatus fun t => { t with delayDue := false }) :=
    .setStatus _ fun _ => ⟨Bool.le_refl _, Bool.le_refl _, Bool.false_le _⟩
  refine (heads_clockSleep guards _).bind (fun completed => ?_)
    fun completed => stays.keeps (.bind (.onlyIf _ (.log _ _)) fun _ => begun)
  exact (Heads.onlyIf _ (heads_log _ _ _)).bind (fun _ => heads_setStatus fun _ => rfl)
    fun _ => stays.keeps begun

theorem heads_acquire (valid : s.complaints = []) :
    Heads (There stock removed first past) (Clear J past given) (runner s o).acquire
      fun _ => Clear J past true := by
  have stays := unmoved_there (runner s o) stock removed first past
  have named : (runner s o).Composed (do
      let store ← (runner s o).storeName
      (runner s o).log .info ("Worker initialized on store [" ++ store ++ "]")) :=
    .bind .storeName fun _ => .log _ _
  have holds (t : Status) : t.Onward { t with holdsConsumer := true } :=
    ⟨Bool.le_refl _, Bool.le_true _, Bool.le_refl _⟩
  rw [Worker.acquire, show (runner s o).settings.complaints = [] from valid]
  refine (heads_createConsumer guards).bind (fun given a h => ?_)
    fun given => stays.keeps ?_
  · obtain ⟨yes, clear⟩ := h
    rw [yes, if_pos rfl]
    refine Heads.bind
      (heads_setStatus (f := fun t => { t with holdsConsumer := true }) fun _ => rfl)
      (fun _ => ?_) (fun _ => stays.keeps named) a clear
    exact (heads_storeName guards).bind (fun _ => heads_log _ _ _) fun _ => stays.keeps (.log _ _)
  · split
    · exact .bind (.setStatus _ holds) fun _ => named
    · exact .bind .storeName fun _ => .raise _

section

variable {stock : σ → Stock} (stocked : Stocked (owned s.processorName o) fun v => stock v.rest)
  (accounts : ∀ {v}, J v → (stock v.rest).Accounts removed first)

include guards stocked accounts

theorem there_turn (clear : Clear J past true a) (begun : Int) (fuel : Nat) :
    There stock removed first past ((runner s o).turn begun fuel a).2 := by
  have stays := unmoved_there (runner s o) stock removed first past
  have on : (runner s o).outside.isDeactivated a.world = false := by
    rcases (guards.obeys clear.world).told with ⟨-, -, same⟩ | ⟨up, -⟩
    · exact same.trans guards.active
    · rw [clear.live] at up
      cases up
  rw [Worker.turn, Act.bind_done (Act.setProgress_apply _ a), Worker.isDeactivated, bind_assoc,
    Act.bind_done (Act.look_apply _ _), bind_assoc, Act.bind_done (Act.note_apply _ _), pure_bind,
    Site.world_withStatus, on, if_neg (by simp)]
  refine Act.Keeps.after (there_receive stocked accounts ?_) fun r => stays.keeps ?_
  · exact (clear.withStatus (t := { a.status with progress := .fresh }) clear.up).note
      (e := .ownerAsked false) (by simp)
  · rcases r with fault | _ | m
    · exact .bind ((runner s o).composed_giveUp _ _ fault none) fun _ =>
        (runner s o).composed_pace begun
    · refine .bind (.log _ _) fun _ => ?_
      split
      · exact .pure _
      · exact (runner s o).composed_pace begun
    · exact .bind ((runner s o).composed_cycle m fuel) fun _ => (runner s o).composed_pace begun

theorem there_forwardAll (clear : Clear J past true a) (begun : Int) (fuel : Nat) :
    There stock removed first past ((runner s o).forwardAll begun (fuel + 1) a).2 := by
  have stays := unmoved_there (runner s o) stock removed first past
  refine Act.Keeps.after ?_ fun _ => stays.keeps (.log _ _)
  rw [Worker.turns, Act.bind_done (Act.status_apply a), Act.onlyIf_apply, if_pos clear.up]
  exact Act.Keeps.after (there_turn guards stocked accounts clear begun fuel) fun more =>
    stays.keeps (.onlyIf _ ((runner s o).composed_turns begun fuel))

theorem there_run (valid : s.complaints = []) (up : a.status.terminated = false)
    (new : a.status.holdsConsumer = false) (live : a.world.host.worker.terminated = false)
    (world : J a.world) (fuel : Nat) :
    There stock removed first (a.moments ++ [a.moment .runBegun])
      ((runner s o).run (fuel + 1) a).2 := by
  have stays := unmoved_there (runner s o) stock removed first (a.moments ++ [a.moment .runBegun])
  have begins : Clear J (a.moments ++ [a.moment .runBegun]) false (a.note .runBegun) :=
    ⟨up, live, world, [], by simp, by simp [Unfetched], by simp⟩
  rw [Worker.run, Act.bind_done (Act.note_apply _ a), Act.bind_done (Act.look_apply _ _),
    Act.bind_done (Act.status_apply _)]
  generalize begun : (runner s o).outside.now (a.note .runBegun).world = now
  have all : (runner s o).Composed ((runner s o).forwardAll now (fuel + 1)) :=
    .bind ((runner s o).composed_turns now (fuel + 1)) fun _ => .log _ _
  have givesUp (fault : Fault) : (runner s o).Composed ((runner s o).giveUpAcquiring fault) :=
    (runner s o).composed_giveUp _ _ fault none
  have delays : Act.Heads (There stock removed first (a.moments ++ [a.moment .runBegun]))
      (Clear J (a.moments ++ [a.moment .runBegun]) false) (runner s o).startupDelay _ :=
    heads_startupDelay guards
  have acquires : Act.Heads (There stock removed first (a.moments ++ [a.moment .runBegun]))
      (Clear J (a.moments ++ [a.moment .runBegun]) false) (runner s o).acquire _ :=
    heads_acquire guards valid
  -- Each part of the way gets on, or else has come to what is in the way; that stays so then.
  rcases Act.Heads.onlyIf (a.note .runBegun).status.delayDue delays _ begins with
    there | ⟨_, b, delayed, clear⟩
  · refine Act.Keeps.after there fun _ => stays.keeps ?_
    split
    · exact all
    · refine .bind (.catching (runner s o).composed_acquire) fun r => ?_
      cases r with
      | ok _ => exact all
      | error fault => exact givesUp fault
  · rw [Act.bind_done delayed, if_neg (by simp [new])]
    rcases acquires.catching b clear with there | ⟨_, c, done, _, rfl, clear⟩
    · refine Act.Keeps.after there fun r => stays.keeps ?_
      cases r with
      | ok _ => exact all
      | error fault => exact givesUp fault
    · rw [Act.bind_done done]
      exact there_forwardAll guards stocked accounts clear now fuel

end

end Runs

end Host

end Courier
