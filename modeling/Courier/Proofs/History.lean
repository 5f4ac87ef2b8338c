import Courier.Proofs.Cycle
import Mathlib.Data.List.TakeWhile

/-!
The history of a worker: it is run, terminated and destroyed in any order, and the world moves on in
between. Whatever the order, a history is made of idle steps and of cycles, one for each message
that has been received.
-/

namespace Courier

variable {σ α : Type}

inductive Visit (σ : Type)
  | run (fuel : Nat)
  | terminate
  | destroy
  | meanwhile (f : σ → σ)

namespace Worker

variable (w : Worker σ)

def receiveVisit : Visit σ → Act σ Unit
  | .run fuel => w.run fuel
  | .terminate => w.terminate
  | .destroy => w.destroy
  | .meanwhile f => Act.change fun s => { s with world := f s.world }

/-- Receives one visit after the other. A failure goes to the visitor, and nothing follows on a run
that has not come to its end. -/
def live : List (Visit σ) → Act σ Unit
  | [] => pure ()
  | v :: vs => do
    let _ ← Act.catching (w.receiveVisit v)
    live vs

def fresh (world : σ) : Site σ := .fresh world w.settings.deactivatedAtStartup

@[simp] theorem moments_fresh (world : σ) : (w.fresh world).moments = [] := rfl

@[simp] theorem world_fresh (world : σ) : (w.fresh world).world = world := rfl

def history (world : σ) (visits : List (Visit σ)) : Site σ := (w.live visits (w.fresh world)).2

end Worker

namespace Outside

/-- Collaborators of the simplest kind: the store is a list of messages, no time passes, there are
no sequences, and every exchange ends in the same way, with the same things going on meanwhile. -/
def plain (exchange : Except Fault (Option Message)) (asides : List Aside) :
    Outside (List Message) where
  ownerName _ := "plain"
  isDeactivated _ := false
  deactivate v := ⟨.ok (), v, []⟩
  storeName v := ⟨.ok "store", v, []⟩
  createConsumer v := ⟨.ok true, v, []⟩
  receive v := ⟨.ok v.head?, v, []⟩
  acknowledge v := (true, v.tail)
  isAlive _ := true
  endpoints _ := .ofList [⟨"backend", "there"⟩]
  send _ m v := ⟨⟨exchange, v, asides⟩, m⟩
  sequence? _ _ := none
  now _ := 0
  sleep _ _ v := ⟨.ok true, v, []⟩
  interrupt v := v

end Outside

def Worker.plain (settings : Settings) (exchange : Except Fault (Option Message))
    (asides : List Aside := []) : Worker (List Message) :=
  ⟨{ settings with processorName := "plain", targetEndpoint := "backend" }, .plain exchange asides⟩

def Event.idle : Event → Bool
  | .received (some _) | .consumerAsked _ | .sending _ _ | .sent _ | .dispatching _ _
  | .mediating _ _ _ | .mediated _ _ | .acknowledged _ | .failed .exchange _
  | .failed (.sequence _) _ => false
  | _ => true

namespace Worker

open Site (Spell Grows Steady Enters)

def Idle (ms : List (Moment σ)) : Prop :=
  ∀ x ∈ ms, x.event.idle = true ∧ (x.event.fetches = true → x.status.terminated = false)

/-- The sites a worker can come to from another one, from cycle to cycle. -/
inductive Reached (w : Worker σ) (a : Site σ) : Site σ → Prop
  | begun : Reached w a a
  | idle {s s' ms} : Reached w a s → Steady s s' ms → Idle ms → Reached w a s'
  | reset {s} : Reached w a s → s.status.terminated = false →
      Reached w a (s.withStatus { s.status with progress := .fresh })
  | cycle {s s' m} (fuel : Nat) : Reached w a s → s.status.progress = .fresh →
      s.status.terminated = false → w.receive s = (.done (some m), s') →
      Reached w a (w.cycle m fuel s').2

/-- The same, told apart by whether the last cycle has come to its end, or has been cut short where
the granted steps ran out. Between the cycles nothing is counted but deactivations. -/
inductive Passed (w : Worker σ) (a : Site σ) : Bool → Site σ → Prop
  | begun : Passed w a true a
  | idle {s s' ms} : Passed w a true s → Steady s s' ms → Idle ms → Enters [] s s' →
      Passed w a true s'
  | reset {s} : Passed w a true s → s.status.terminated = false →
      Passed w a true (s.withStatus { s.status with progress := .fresh })
  | cycle {s s' m} (fuel : Nat) : Passed w a true s → s.status.progress = .fresh →
      s.status.terminated = false → w.receive s = (.done (some m), s') →
      Passed w a (w.cycle m fuel s').1.finished (w.cycle m fuel s').2
  | cut {s} : Passed w a true s → Passed w a false s

def carefree : Stage → Bool
  | .incidental | .acquisition | .rest => true
  | _ => false

theorem idle_of_carefree {e : Event} (h : carefree e.stage = true) :
    e.idle = true ∧ e.fetches = false := by
  cases e with
  | dispatching kind _ => cases kind <;> cases h
  | mediating kind _ _ => cases kind <;> cases h
  | mediated kind _ => cases kind <;> cases h
  | failed errand _ =>
    cases errand with
    | sequence kind => cases kind <;> cases h
    | _ => first | exact ⟨rfl, rfl⟩ | cases h
  | _ => first | exact ⟨rfl, rfl⟩ | cases h

section Idle

variable {g : Stage} {ms ns : List (Moment σ)}

theorem Idle.of_staged (h : Staged g ms) (hg : carefree g = true) : Idle ms := by
  intro x hx
  have : carefree x.event.stage = true := by
    rcases h x hx with h | h
    · rw [h, carefree]
    · rw [h, hg]
  simp [idle_of_carefree this]

theorem Idle.nil : Idle ([] : List (Moment σ)) := by
  simp [Idle]

theorem Idle.append (h : Idle ms) (k : Idle ns) : Idle (ms ++ ns) := by
  intro x hx
  rcases List.mem_append.1 hx with hx | hx
  · exact h x hx
  · exact k x hx

theorem Idle.single {x : Moment σ} (hi : x.event.idle = true) (hf : x.event.fetches = false) :
    Idle [x] := by
  simp [Idle, hi, hf]

end Idle

theorem idle_of_called {begun ended : Event} {ms : List (Moment σ)} (hb : begun.idle = true)
    (he : ended.idle = true)
    (hf : ∀ x ∈ ms, x.event.fetches = true → x.status.terminated = false)
    (h : Called begun ended ms) : Idle ms := by
  obtain ⟨x, as, y, rfl, rfl, ha, rfl⟩ := h
  intro z hz
  refine ⟨?_, hf z hz⟩
  simp only [List.mem_cons, List.mem_append, List.not_mem_nil, or_false] at hz
  rcases hz with rfl | hz | rfl
  · exact hb
  · exact (idle_of_carefree (by rw [Event.stage_of_incidental (ha z hz), carefree])).1
  · exact he

section Passed

variable {w : Worker σ} {a s s' : Site σ} {g : Stage} {ms : List (Moment σ)}

theorem Passed.reached {complete : Bool} (h : Passed w a complete s) : Reached w a s := by
  induction h with
  | begun => exact .begun
  | idle _ steady idle _ ih => exact ih.idle steady idle
  | reset _ running ih => exact ih.reset running
  | cycle fuel _ fresh running receive ih => exact ih.cycle fuel fresh running receive
  | cut _ ih => exact ih

theorem Passed.stay (complete : Bool) : Passed w a complete a := by
  cases complete with
  | true => exact .begun
  | false => exact .cut .begun

theorem Passed.note (h : Passed w a true s) {e : Event} (idle : e.idle = true)
    (fetches : e.fetches = false) (deactivates : e.deactivates = false) :
    Passed w a true (s.note e) :=
  h.idle ((Steady.refl s).note e deactivates) (.single idle fetches) (Enters.refl s)

theorem Passed.spell (h : Passed w a true s) (hs : Spell s s' ms) (hm : Staged g ms)
    (hg : carefree g = true) : Passed w a true s' := by
  refine h.idle (hs.steady (hm.tally Event.within_deactivates ?_)) (.of_staged hm hg) hs.enters
  cases g <;> first | decide | cases hg

theorem Passed.withStatus (h : Passed w a true s) {t : Status}
    (attempts : t.progress.attempts = s.status.progress.attempts)
    (raised : s.status.terminated ≤ t.terminated) : Passed w a true (s.withStatus t) := by
  have rises : Rises s.status.terminated ([] : List (Moment σ)) t.terminated :=
    ⟨raised, by simp, by simp, by simp⟩
  have steady : Steady s (s.withStatus t) [] := ⟨⟨by simp, rises, by simp⟩, attempts, by simp⟩
  exact h.idle steady .nil (Enters.refl s)

theorem GivenUp.idle {fault : Fault} {r : Except Fault Unit}
    (h : GivenUp fault none s s' ms r) : Idle ms := by
  obtain ⟨x, y, ns, rfl, hx, hy, retired⟩ := h.retired
  have called : Idle ns := by
    cases retired with
    | gone sent called =>
      cases sent
      obtain ⟨a, as, b, rfl, ha, has, hb⟩ := called
      have middle : Idle as := .of_staged (g := .incidental) (.of_incidental has) rfl
      have last : Idle [b] := by
        cases r <;> exact .single (by rw [hb]; rfl) (by rw [hb]; rfl)
      exact (Idle.single (by rw [ha]; rfl) (by rw [ha]; rfl)).append (middle.append last)
    | spoiled sent => cases sent
  have second : Idle [y] := by
    have := idle_of_carefree (e := y.event) (by rw [Event.stage_of_incidental hy, carefree])
    exact .single this.1 this.2
  exact (Idle.single (by rw [hx]; rfl) (by rw [hx]; rfl)).append (second.append called)

theorem keeps_log (severity : Severity) (text : String) :
    Act.Keeps (Passed w a true) (w.log severity text) :=
  fun _ h => h.note rfl rfl rfl

theorem keeps_sleep (ms : Int) : Act.Keeps (Passed w a true) (w.sleep ms) := by
  intro s h
  obtain ⟨r, s', ns, sleep, hs, rested, -⟩ := w.sleep_spec ms s
  rw [sleep]
  exact h.spell hs rested.staged rfl

theorem keeps_clockSleep (ms : Int) : Act.Keeps (Passed w a true) (w.clockSleep ms) := by
  intro s h
  obtain ⟨r, s', ns, sleep, hs, called, -⟩ := w.clockSleep_spec ms s
  rw [sleep]
  exact h.spell hs (called.staged (g := .rest) rfl (by cases r <;> rfl)) rfl

theorem keeps_createConsumer : Act.Keeps (Passed w a true) w.createConsumer := by
  intro s h
  obtain ⟨r, s', ns, create, hs, called, -⟩ := w.createConsumer_spec s
  rw [create]
  exact h.spell hs (called.staged (g := .acquisition) rfl (by cases r <;> rfl)) rfl

theorem keeps_storeName : Act.Keeps (Passed w a true) w.storeName := by
  intro s h
  obtain ⟨r, s', ns, name, hs, called, -⟩ := w.storeName_spec s
  rw [name]
  exact h.spell hs (called.staged (g := .acquisition) rfl (by cases r <;> rfl)) rfl

theorem keeps_giveUp (known : String → String) (unknown : String) (fault : Fault) :
    Act.Keeps (Passed w a true) (w.giveUp known unknown fault none) := by
  intro s h
  obtain ⟨s', ms, r, giveUp, given⟩ := w.giveUp_spec known unknown fault none s
  rw [giveUp]
  exact h.idle given.toSteady given.idle given.entered

theorem keeps_setStatus (f : Status → Status)
    (attempts : ∀ t, (f t).progress.attempts = t.progress.attempts)
    (raised : ∀ t, t.terminated ≤ (f t).terminated) :
    Act.Keeps (Passed w a true) (Act.setStatus f) :=
  fun s h => h.withStatus (attempts s.status) (raised s.status)

theorem keeps_startupDelay : Act.Keeps (Passed w a true) w.startupDelay := by
  apply (keeps_clockSleep _).bind
  intro completed
  apply (Act.Keeps.onlyIf _ (keeps_log _ _)).bind
  intro _
  exact keeps_setStatus (fun t => { t with delayDue := false }) (fun _ => rfl)
    fun _ => Bool.le_refl _

theorem keeps_acquire : Act.Keeps (Passed w a true) w.acquire := by
  rw [acquire]
  split
  · exact .raise _
  · apply keeps_createConsumer.bind
    intro given
    cases given with
    | false => exact keeps_storeName.bind fun _ => .raise _
    | true =>
      rw [if_pos rfl]
      refine (keeps_setStatus (fun t => { t with holdsConsumer := true }) (fun _ => rfl)
        fun _ => Bool.le_refl _).bind fun _ => ?_
      exact keeps_storeName.bind fun _ => keeps_log _ _

theorem keeps_pace (begun : Int) : Act.Keeps (Passed w a true) (w.pace begun) := by
  refine Act.Keeps.status.bind fun t => ?_
  split
  · exact .pure _
  · apply (Act.Keeps.onlyIf _ (keeps_sleep _)).bind
    intro _
    apply (Act.Keeps.onlyIf _ (keeps_sleep _)).bind
    intro _
    split
    · exact (Act.Keeps.look _).bind fun _ => .pure _
    · exact .pure _

theorem carries_of_keeps {x : Act σ α} (h : Act.Keeps (Passed w a true) x) :
    Act.Carries (Passed w a) x :=
  .of_keeps (fun _ h => h.cut) h

theorem passed_turn (begun : Int) (fuel : Nat) {s : Site σ} (h : Passed w a true s)
    (running : s.status.terminated = false) :
    Passed w a (w.turn begun fuel s).1.finished (w.turn begun fuel s).2 := by
  rw [turn, Act.bind_done (Act.setProgress_apply _ s), isDeactivated, bind_assoc,
    Act.bind_done (Act.look_apply _ _), bind_assoc, Act.bind_done (Act.note_apply _ _), pure_bind]
  generalize hs : s.withStatus { s.status with progress := .fresh } = t
  have fresh : Passed w a true t := hs ▸ h.reset running
  have asked : Passed w a true (t.note (.ownerAsked (w.outside.isDeactivated t.world))) :=
    fresh.note rfl rfl rfl
  split
  · refine carries_of_keeps ((keeps_setStatus (fun t => { t with terminated := true })
      (fun _ => rfl) fun _ => Bool.le_true _).bind fun _ => ?_) _ asked
    exact (keeps_log _ _).bind fun _ => .pure _
  · generalize hu : t.note (.ownerAsked (w.outside.isDeactivated t.world)) = u at asked
    have progress : u.status.progress = .fresh := by rw [← hu, ← hs]; rfl
    have running : u.status.terminated = false := by rw [← hu, ← hs]; exact running
    obtain ⟨r, v, ms, receive, hv, called, begins⟩ := w.receive_spec u
    have fetches : ∀ x ∈ ms, x.event.fetches = true → x.status.terminated = false := by
      intro x hx hf
      rw [called.begun Event.sober_fetches (by cases r <;> rfl) begins x hx hf, running]
    cases r with
    | error fault =>
      have passed := asked.idle (hv.steady (called.tally_eq Event.sober_deactivates))
        (idle_of_called rfl rfl fetches called) hv.enters
      rw [Act.bind_done (Act.catching_raised receive)]
      exact carries_of_keeps ((keeps_giveUp _ _ fault).bind fun _ => keeps_pace begun) _ passed
    | ok received =>
      rw [Act.bind_done (Act.catching_done receive)]
      cases received with
      | none =>
        have passed := asked.idle (hv.steady (called.tally_eq Event.sober_deactivates))
          (idle_of_called rfl rfl fetches called) hv.enters
        refine carries_of_keeps ((keeps_log _ _).bind fun _ => ?_) _ passed
        split
        · exact .pure _
        · exact keeps_pace begun
      | some m =>
        exact Act.Carries.after (.cycle fuel asked progress running receive) fun _ =>
          carries_of_keeps (keeps_pace begun)

theorem carries_turns (begun : Int) (fuel : Nat) :
    Act.Carries (Passed w a) (w.turns begun fuel) := by
  induction fuel with
  | zero => exact carries_of_keeps .stall
  | succ fuel ih =>
    intro s h
    rw [turns, Act.bind_done (Act.status_apply s), Act.onlyIf_apply]
    split
    case isFalse => exact h
    case isTrue running =>
      exact Act.Carries.after (passed_turn begun fuel h running) fun _ => .onlyIf _ ih

theorem carries_run (fuel : Nat) : Act.Carries (Passed w a) (w.run fuel) := by
  have all (begun : Int) : Act.Carries (Passed w a) (w.forwardAll begun fuel) :=
    (carries_turns begun fuel).bind fun _ => carries_of_keeps (keeps_log _ _)
  intro s h
  rw [run, Act.bind_done (Act.note_apply _ s), Act.bind_done (Act.look_apply _ _),
    Act.bind_done (Act.status_apply _)]
  have first : Passed w a true (s.note .runBegun) := h.note rfl rfl rfl
  apply Act.Carries.after (carries_of_keeps (Act.Keeps.onlyIf _ keeps_startupDelay) _ first)
  intro _
  split
  · exact all _
  · apply (carries_of_keeps keeps_acquire.catching).bind
    intro r
    cases r with
    | ok _ => exact all _
    | error fault => exact carries_of_keeps (keeps_giveUp _ _ fault)

theorem keeps_terminate : Act.Keeps (Passed w a true) w.terminate := by
  intro s h
  obtain ⟨ms, hs, hm⟩ := w.spell_halted s
  exact h.spell hs (.of_incidental (g := .incidental) fun x hx => (hm x hx).1) rfl

theorem carries_receiveVisit (v : Visit σ) : Act.Carries (Passed w a) (w.receiveVisit v) := by
  cases v with
  | run fuel => exact carries_run fuel
  | terminate => exact carries_of_keeps keeps_terminate
  | destroy => exact carries_of_keeps keeps_terminate
  | meanwhile f =>
    intro s h
    have spell : Spell s (s.withWorld (f s.world)) [] := (Spell.refl s).withWorld _
    exact h.idle (spell.steady rfl) .nil spell.enters

theorem carries_live (visits : List (Visit σ)) : Act.Carries (Passed w a) (w.live visits) := by
  induction visits with
  | nil => exact .pure _
  | cons v vs ih => exact (carries_receiveVisit v).catching.bind fun _ => ih

end Passed

structure Taken (w : Worker σ) (m : Message) (s t s' : Site σ) (xs : List (Moment σ))
    (start : Moment σ) (ms : List (Moment σ)) (r : Ending Unit) : Prop where
  fetched : Spell s t (xs ++ [start])
  begun : ∃ x as, xs = x :: as ∧ x.event = .receiving ∧ x.status.terminated = false ∧
    ∀ y ∈ as, y.event.incidental = true
  received : start.event = .received (some m)
  cycled : w.Cycled (unmarked m) (t.counted Counter.fetched) s' ms r

theorem taken_spec (w : Worker σ) {m : Message} (fuel : Nat) {s t : Site σ}
    (running : s.status.terminated = false) (receive : w.receive s = (.done (some m), t)) :
    ∃ s' xs start ms r, w.cycle m fuel t = (r, s') ∧ w.Taken m s t s' xs start ms r := by
  obtain ⟨s', ms, r, cycle, cycled⟩ := w.cycle_spec m fuel t
  obtain ⟨q, u, ns, received, spell, called, begins⟩ := w.receive_spec s
  rw [receive] at received
  obtain ⟨hq, rfl⟩ := Prod.mk.inj received
  cases q with
  | error => cases hq
  | ok n =>
    obtain rfl : some m = n := by simpa [Ending.ofExcept] using hq
    obtain ⟨x, as, start, rfl, hx, has, hs⟩ := called
    exact ⟨s', x :: as, start, ms, r, cycle, spell,
      ⟨x, as, rfl, hx, by rw [begins x rfl, running], has⟩, hs, cycled⟩

theorem Taken.idle {w : Worker σ} {m : Message} {s t s' : Site σ} {xs ms : List (Moment σ)}
    {start : Moment σ} {r : Ending Unit} (h : w.Taken m s t s' xs start ms r) : Idle xs := by
  obtain ⟨x, as, rfl, hx, running, has⟩ := h.begun
  have first : Idle [x] := by
    intro y hy
    rw [List.mem_singleton.1 hy]
    exact ⟨by rw [hx]; rfl, fun _ => running⟩
  exact first.append (.of_staged (g := .incidental) (.of_incidental has) rfl)

theorem Taken.grows {w : Worker σ} {m : Message} {s t s' : Site σ} {xs ms : List (Moment σ)}
    {start : Moment σ} {r : Ending Unit} (h : w.Taken m s t s' xs start ms r) :
    Grows s s' (xs ++ start :: ms) := by
  have quiet : tally Event.deactivates (xs ++ [start]) = 0 := by
    obtain ⟨x, as, rfl, hx, -, has⟩ := h.begun
    simp [hx, h.received, tally_incidental Event.sober_deactivates has, Event.deactivates]
  have := ((h.fetched.grows quiet).counted (c := Counter.fetched) (by decide)).trans h.cycled.grows
  simpa using this

theorem passed_history (w : Worker σ) (world : σ) (visits : List (Visit σ)) :
    Passed w (w.fresh world) (w.live visits (w.fresh world)).1.finished (w.history world visits) :=
  carries_live visits _ .begun

theorem reached_history (w : Worker σ) (world : σ) (visits : List (Visit σ)) :
    Reached w (w.fresh world) (w.history world visits) :=
  (w.passed_history world visits).reached

theorem live_append (w : Worker σ) (visits more : List (Visit σ)) :
    w.live (visits ++ more) = w.live visits >>= fun _ => w.live more := by
  induction visits with
  | nil => rw [List.nil_append, live, pure_bind]
  | cons v vs ih => rw [List.cons_append, live, live, ih, bind_assoc]

theorem reached_history_append (w : Worker σ) (world : σ) (visits more : List (Visit σ)) :
    Reached w (w.history world visits) (w.history world (visits ++ more)) := by
  rw [history, history, live_append]
  exact (Act.Carries.after (.stay _) fun _ => carries_live more).reached

theorem Reached.grows {w : Worker σ} {a s : Site σ} (h : Reached w a s) : ∃ ms, Grows a s ms := by
  induction h with
  | begun => exact ⟨[], .refl a⟩
  | idle _ steady _ ih =>
    obtain ⟨ms, grows⟩ := ih
    exact ⟨_, grows.trans steady.toGrows⟩
  | reset _ _ ih =>
    obtain ⟨ms, grows⟩ := ih
    exact ⟨ms, grows.withProgress .fresh⟩
  | @cycle s t m fuel _ _ running receive ih =>
    obtain ⟨ms, grows⟩ := ih
    obtain ⟨s', xs, start, ns, r, cycle, taken⟩ := w.taken_spec fuel running receive
    rw [cycle]
    exact ⟨_, grows.trans taken.grows⟩

def sameCycle (ms : List (Moment σ)) : List (Moment σ) := ms.takeWhile fun x => !x.event.opens

theorem first_received (ms : List (Moment σ)) (h : tally Event.brings ms ≠ 0) :
    ∃ start m, start.event = .received (some m) ∧
      ms = ms.takeWhile (fun x => !x.event.brings) ++
        start :: (ms.dropWhile fun x => !x.event.brings).tail := by
  obtain ⟨x, hx, brings⟩ : ∃ x ∈ ms, x.event.brings = true := by simpa [tally_eq_zero] using h
  have nonempty : ms.dropWhile (fun x => !x.event.brings) ≠ [] := by
    intro none
    simpa [brings] using List.dropWhile_eq_nil_iff.1 none x hx
  obtain ⟨start, rest, dropped⟩ := List.exists_cons_of_ne_nil nonempty
  have first := List.head_dropWhile_not (fun x : Moment σ => !x.event.brings) nonempty
  simp only [dropped, List.head_cons, Bool.not_eq_false'] at first
  obtain ⟨m, received⟩ : ∃ m, start.event = .received (some m) := by
    unfold Event.brings at first
    split at first
    · exact ⟨_, ‹_›⟩
    · cases first
  refine ⟨start, m, received, ?_⟩
  rw [dropped, List.tail_cons, ← dropped, List.takeWhile_append_dropWhile]

/-- The moments of every cycle: what is done about the message that has been received, and idle
moments. -/
def EachCycle (P : Message → List (Moment σ) → Prop) (ms : List (Moment σ)) : Prop :=
  ∀ before start m rest, ms = before ++ start :: rest → start.event = .received (some m) →
    ∃ body tail, sameCycle rest = body ++ tail ∧ P m body ∧ Idle tail

theorem EachCycle.append {P : Message → List (Moment σ) → Prop} {ms ns : List (Moment σ)}
    (h : EachCycle P ms) (k : EachCycle P ns)
    (idle : Idle (sameCycle ns)) : EachCycle P (ms ++ ns) := by
  intro before start m rest hms hs
  rcases List.append_eq_append_iff.1 hms with ⟨as, rfl, hns⟩ | ⟨bs, hbs, hns⟩
  · exact k as start m rest hns hs
  · cases bs with
    | nil => exact k [] start m rest hns.symm hs
    | cons b bs =>
      rw [List.cons_append] at hns
      obtain ⟨rfl, hrest⟩ := List.cons.inj hns
      obtain ⟨body, tail, hbody, hP, htail⟩ := h before start m bs hbs hs
      rw [hrest, sameCycle, List.takeWhile_append]
      split
      case isTrue whole =>
        refine ⟨body, tail ++ sameCycle ns, ?_, hP, htail.append idle⟩
        have all := (List.takeWhile_prefix (fun x : Moment σ => !x.event.opens)).eq_of_length whole
        rw [← List.append_assoc, ← hbody, sameCycle, all, sameCycle]
      case isFalse => exact ⟨body, tail, hbody, hP, htail⟩

theorem eachCycle_of_idle {P : Message → List (Moment σ) → Prop} {ms : List (Moment σ)}
    (h : Idle ms) : EachCycle P ms := by
  intro before start m rest hms hs
  have := (h start (by simp [hms])).1
  simp [hs, Event.idle] at this

theorem Idle.sameCycle {ms : List (Moment σ)} (h : Idle ms) : Idle (sameCycle ms) :=
  fun x hx => h x ((List.takeWhile_sublist _).mem hx)

theorem Idle.sends {ms : List (Moment σ)} (h : Idle ms) : tally Event.sends ms = 0 := by
  rw [tally_eq_zero]
  intro x hx
  have := (h x hx).1
  cases hx : x.event <;> simp_all [Event.idle, Event.sends]

variable {w : Worker σ} {world : σ} {a s s' : Site σ}

/-- What idle moments may always do, and what may be done in a cycle whatever came before its fetch,
may be done in a whole history. -/
theorem Reached.always_of {P : List (Moment σ) → Moment σ → Prop} (h : Reached w a s)
    (ha : Always P [] a.moments) (idle : ∀ {c ms}, Idle ms → Always P c ms)
    (received : ∀ {x m} c, x.event = .received (some m) → P c x)
    (cycle : ∀ {m s t s' xs start ms r}, w.Taken m s t s' xs start ms r →
      s.status.progress = .fresh → ∀ past, Always P (past ++ xs ++ [start]) ms) :
    Always P [] s.moments := by
  induction h with
  | begun => exact ha
  | idle _ steady quiet ih =>
    rw [steady.moments]
    exact ih.append (idle quiet)
  | reset _ _ ih => exact ih
  | @cycle s t m fuel _ fresh running receive ih =>
    obtain ⟨s', xs, start, ms, r, cycled, taken⟩ := w.taken_spec fuel running receive
    rw [cycled, taken.grows.moments]
    have rest : Always P ([] ++ s.moments ++ xs ++ [start]) ms := cycle taken fresh s.moments
    exact ih.append ((idle taken.idle).append (.cons (received _ taken.received) rest))

/-- What holds of every cycle by itself holds of every cycle of a history. -/
theorem Reached.eachCycle_of {P : Message → List (Moment σ) → Prop} (h : Reached w a s)
    (ha : EachCycle P a.moments)
    (hP : ∀ {m fuel t ms}, t.status.progress = .fresh →
      (w.cycle m fuel t).2.moments = t.moments ++ ms → P m ms) :
    EachCycle P s.moments := by
  induction h with
  | begun => exact ha
  | idle _ steady idle ih =>
    rw [steady.moments]
    exact ih.append (eachCycle_of_idle idle) idle.sameCycle
  | reset _ _ ih => simpa using ih
  | @cycle s t m fuel _ fresh running receive ih =>
    obtain ⟨s', xs, start, ms, r, cycle, taken⟩ := w.taken_spec fuel running receive
    have progress : t.status.progress = .fresh := by rw [taken.fetched.progress, fresh]
    have moments : (w.cycle m fuel t).2.moments = t.moments ++ ms := by
      rw [cycle, taken.cycled.grows.moments, Site.moments_counted]
    have closed : ∀ x ∈ ms, x.event.opens = false := tally_eq_zero.1 taken.cycled.opens
    have whole : sameCycle ms = ms :=
      List.takeWhile_eq_self_iff.2 (by simpa using closed)
    have opens : start.event.opens = true := by rw [taken.received, Event.opens]
    have own : EachCycle P (start :: ms) := by
      intro before x n rest hms hx
      cases before with
      | nil =>
        obtain ⟨rfl, rfl⟩ := List.cons.inj hms
        obtain rfl : n = m := by simpa [taken.received] using hx.symm
        exact ⟨ms, [], by simp [whole], hP progress moments, by simp [Idle]⟩
      | cons y before =>
        obtain ⟨rfl, rfl⟩ := List.cons.inj hms
        have := closed x (by simp)
        simp [hx, Event.opens] at this
    rw [cycle, taken.grows.moments]
    refine ih.append ((eachCycle_of_idle taken.idle).append own ?_) ?_
    · simp [sameCycle, opens, Idle]
    · rw [sameCycle, List.takeWhile_append]
      split
      · simpa [opens] using taken.idle
      · exact taken.idle.sameCycle

theorem Reached.eachCycle_from {P : Message → List (Moment σ) → Prop} (h : Reached w a s)
    (ha : EachCycle P a.moments)
    (hP : ∀ {m t t' ms r}, w.Cycled (unmarked m) t t' ms r → t.status.progress = .fresh → P m ms) :
    EachCycle P s.moments := by
  refine h.eachCycle_of ha fun {m fuel t ms} fresh moments => ?_
  obtain ⟨t', ns, r, cycle, cycled⟩ := w.cycle_spec m fuel t
  rw [cycle, cycled.grows.moments, Site.moments_counted] at moments
  exact List.append_cancel_left moments ▸ hP cycled fresh

theorem Reached.eachCycle {P : Message → List (Moment σ) → Prop}
    (h : Reached w (w.fresh world) s)
    (hP : ∀ {m t t' ms r}, w.Cycled (unmarked m) t t' ms r → t.status.progress = .fresh → P m ms) :
    EachCycle P s.moments :=
  h.eachCycle_from (eachCycle_of_idle .nil) hP

end Worker

end Courier
