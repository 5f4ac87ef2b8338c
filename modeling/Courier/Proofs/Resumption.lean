import Courier.Proofs.Approach
import Courier.Proofs.Lifecycle

namespace Courier

variable {σ : Type}

namespace Host

section Turns

variable {w : Worker (Hosted σ)} {rest : σ} {turns : List (Turn σ)} {name : String} {h k : Host}
  {n : Nat}

def after (name : String) (h : Host) (m : Move) : Host := ((h.step name m).map Prod.fst).getD h

def moved (name : String) (h : Host) : Turn σ → Host
  | .order o => h.after name (.order o)
  | .proceed => h.after name .proceed
  | .schedule _ => h.after name .advance
  | .meanwhile _ => h

theorem take_after (name : String) (m : Move) (a : Site (Hosted σ)) :
    ∃ b, take name m a = (.done (), b) ∧ b.world.host = a.world.host.after name m := by
  obtain ⟨b, ms, taken, -, -, -, -, ⟨none, rfl⟩ | ⟨effects, some⟩⟩ := take_spec name m a
  · exact ⟨b, taken, by rw [after, none]; rfl⟩
  · exact ⟨b, taken, by rw [after, some]; rfl⟩

theorem takeTurn_moved (w : Worker (Hosted σ)) (t : Turn σ) (a : Site (Hosted σ))
    (beside : t.passes a.world.host = false) :
    ∃ b, takeTurn w t a = (.done (), b) ∧
      b.world.host = a.world.host.moved w.settings.processorName t := by
  cases t with
  | order o => exact take_after _ _ a
  | proceed => exact take_after _ _ a
  | schedule fuel =>
    rw [takeTurn_advance w fuel (of_decide_eq_false beside)]
    exact take_after _ _ a
  | meanwhile f => exact ⟨_, rfl, rfl⟩

structure Stands (w : Worker (Hosted σ)) (rest : σ) (turns : List (Turn σ)) (h : Host) (n : Nat) :
    Prop where
  done : ∃ a, live w turns (start w.settings rest) = (.done (), a) ∧ a.world.host = h
  launched : changes w rest launches turns = n

theorem Stands.host (stands : Stands w rest turns h n) : hostAfter w rest turns = h := by
  obtain ⟨a, lived, host⟩ := stands.done
  rw [hostAfter, history, lived, host]

theorem Stands.next (stands : Stands w rest turns h n) (t : Turn σ)
    (beside : t.passes h = false) :
    Stands w rest (turns ++ [t]) (h.moved w.settings.processorName t)
      (n + (launches h (h.moved w.settings.processorName t)).toNat) := by
  obtain ⟨a, lived, rfl⟩ := stands.done
  obtain ⟨b, taken, host⟩ := takeTurn_moved w t a beside
  have lived' : live w (turns ++ [t]) (Host.start w.settings rest) = (.done (), b) := by
    rw [live_append, Act.bind_done lived, live_singleton, taken]
  refine ⟨⟨b, lived', host⟩, ?_⟩
  have after : hostAfter w rest (turns ++ [t]) = a.world.host.moved w.settings.processorName t := by
    rw [hostAfter, history, lived', host]
  rw [changes_append_singleton, stands.launched, stands.host, after]

theorem Stands.unmoved (stands : Stands w rest turns h n) {more : List (Turn σ)}
    (same : ∀ t ∈ more, t.passes h = false ∧ h.moved w.settings.processorName t = h) :
    Stands w rest (turns ++ more) h n := by
  induction more generalizing turns with
  | nil => rwa [List.append_nil]
  | cons t ts ih =>
    obtain ⟨⟨beside, still⟩, later⟩ := List.forall_mem_cons.1 same
    have next := stands.next t beside
    rw [still, (Obeys.refl h).launches] at next
    rw [List.append_cons]
    exact ih next later

def Turn.controls : Turn σ → Bool
  | .order _ | .proceed => true
  | _ => false

theorem moved_of_down {t : Turn σ} (down : h.scheduling.alive = false) (idle : t.controls = false) :
    t.passes h = false ∧ h.moved name t = h := by
  cases t with
  | order => cases idle
  | proceed => cases idle
  | meanwhile => exact ⟨rfl, rfl⟩
  | schedule fuel =>
    have still : h.scheduling = .absent ∨ h.scheduling = .ended := by
      cases now : h.scheduling <;> simp_all [Scheduling.alive]
    rcases still with now | now
    · exact ⟨by simp [Turn.passes, now], by simp [moved, after, step, advance, now]⟩
    · exact ⟨by simp [Turn.passes, now], by simp [moved, after, step, advance, now]⟩

theorem moved_of_running {t : Turn σ} (up : h.running = true) (on : h.deactivated = false)
    (idle : h.controlling = .idle) (beside : t.schedules = false) (stop : t ≠ .order .stop)
    (deactivate : t ≠ .order .deactivate) : t.passes h = false ∧ h.moved name t = h := by
  refine ⟨Turn.not_passes beside, ?_⟩
  obtain ⟨running, deactivated, worker, controlling, scheduling⟩ := h
  obtain ⟨rfl, rfl, rfl⟩ : running = true ∧ deactivated = false ∧ controlling = .idle :=
    ⟨up, on, idle⟩
  cases t with
  | proceed => rfl
  | schedule => cases beside
  | meanwhile => rfl
  | order o =>
    cases o with
    | start => rfl
    | stop => exact absurd rfl stop
    | activate => rfl
    | deactivate => exact absurd rfl deactivate

structure Launched (h : Host) : Prop where
  running : h.running = true
  deactivated : h.deactivated = false
  controlling : h.controlling = .idle
  scheduling : h.scheduling = .entering
  worker : ∃ delayDue, h.worker = .fresh delayDue

/-- The turns in which an order to start the host or to activate it is carried out, with none of the
controlling thread in between. -/
inductive Summons (h : Host) : List (Turn σ) → Prop
  | activate (x y z : List (Turn σ)) : (∀ t ∈ x ++ y ++ z, t.controls = false) →
      Summons h ([.order .activate] ++ x ++ [.proceed] ++ y ++ [.proceed] ++ z ++ [.proceed])
  | start (x y : List (Turn σ)) : h.deactivated = false → (∀ t ∈ x ++ y, t.controls = false) →
      Summons h ([.order .start] ++ x ++ [.proceed] ++ y ++ [.proceed])

theorem Stands.after_wait (stands : Stands w rest turns h n) (down : h.scheduling.alive = false)
    {x : List (Turn σ)} (idle : ∀ t ∈ x, t.controls = false) (t : Turn σ)
    (beside : t.schedules = false) :
    Stands w rest (turns ++ x ++ [t]) (h.moved w.settings.processorName t)
      (n + (launches h (h.moved w.settings.processorName t)).toNat) :=
  (stands.unmoved fun u hu => moved_of_down down (idle u hu)).next t (Turn.not_passes beside)

theorem Stands.launched_of_starting (stands : Stands w rest turns h n) (sound : Sound h)
    (down : h.scheduling.alive = false) (starting : h.controlling = .starting)
    (on : h.deactivated = false) {x y : List (Turn σ)}
    (idle : ∀ t ∈ x ++ y, t.controls = false) :
    ∃ k, Stands w rest (turns ++ x ++ [.proceed] ++ y ++ [.proceed]) k (n + 1) ∧ Launched k := by
  obtain ⟨first, second⟩ := List.forall_mem_append.1 idle
  have accepts : h.moved w.settings.processorName (.proceed : Turn σ) =
      { h with controlling := .joiningToStart } := by
    simp [moved, after, step, proceed, starting, on]
  have waiting := stands.after_wait down first .proceed rfl
  rw [accepts] at waiting
  have accepted : Proceeds w.settings.processorName h { h with controlling := .joiningToStart } :=
    .accepted starting on
  replace sound := sound.proceeds accepted
  have launched : ({ h with controlling := .joiningToStart } : Host).moved
      w.settings.processorName (.proceed : Turn σ) =
        (({ h with controlling := .joiningToStart } : Host).launch w.settings.processorName).1 := by
    simp [moved, after, step, proceed, down]
  have up := waiting.after_wait down second .proceed rfl
  rw [launched] at up
  refine ⟨(launch w.settings.processorName { h with controlling := .joiningToStart }).1, ?_, rfl,
    ?_, rfl, rfl, sound.replaced down⟩
  · simpa [launches, launch, starting] using up
  · exact (deactivated_replaceTerminated _).trans on

theorem Summons.launched (stands : Stands w rest turns h n) (sound : Sound h)
    (down : h.scheduling.alive = false) (idle : h.controlling = .idle) {up : List (Turn σ)}
    (summons : Summons h up) : ∃ k, Stands w rest (turns ++ up) k (n + 1) ∧ Launched k := by
  have stopped := sound.stopped down
  have free (c : Controlling) : Sound { h with controlling := c } :=
    sound.obeys (obeys_controlling (by rw [idle]; rfl) c)
  cases summons with
  | start x y on quiet =>
    have starts : h.moved w.settings.processorName (.order .start : Turn σ) =
        { h with controlling := .starting } := by
      simp [moved, after, step, obey, beginStart, idle, stopped]
    have begun := stands.next (.order .start) rfl
    rw [starts] at begun
    obtain ⟨k, up, launched⟩ := begun.launched_of_starting (free _) down rfl on quiet
    exact ⟨k, by simpa [launches, idle] using up, launched⟩
  | activate x y z quiet =>
    obtain ⟨first, second⟩ := List.forall_mem_append.1 (List.append_assoc .. ▸ quiet)
    have activates : h.moved w.settings.processorName (.order .activate : Turn σ) =
        { h with controlling := .joiningToActivate } := by
      simp [moved, after, step, obey, idle, stopped]
    have begun := stands.next (.order .activate) rfl
    rw [activates] at begun
    have revives : ({ h with controlling := .joiningToActivate } : Host).moved
        w.settings.processorName (.proceed : Turn σ) =
          (({ h with controlling := .joiningToActivate } : Host).revive
            w.settings.processorName).1 := by
      simp [moved, after, step, proceed, down]
    have revived := begun.after_wait down first .proceed rfl
    rw [revives] at revived
    have proceeds : Proceeds w.settings.processorName { h with controlling := .joiningToActivate }
        (({ h with controlling := .joiningToActivate } : Host).revive
          w.settings.processorName).1 := .revived rfl down
    have sound := (free .joiningToActivate).proceeds proceeds
    have starting : (({ h with controlling := .joiningToActivate } : Host).revive
        w.settings.processorName).1.controlling = .starting := by
      simp [revive, beginStart, stopped]
    obtain ⟨k, up, launched⟩ := revived.launched_of_starting sound rfl starting rfl second
    exact ⟨k, by simpa [launches, idle, starting] using up, launched⟩

/-- The turns that lead up to the first pass of a scheduler thread, where nobody stops the host or
deactivates it. -/
inductive LeadsUp : List (Turn σ) → Prop
  | intro (x y z : List (Turn σ)) (f g : Nat) : (∀ t ∈ x ++ y ++ z,
      t.schedules = false ∧ t ≠ .order .stop ∧ t ≠ .order .deactivate) →
      LeadsUp (x ++ [.schedule f] ++ y ++ [.schedule g] ++ z)

theorem LeadsUp.working (stands : Stands w rest turns h n) (launched : Launched h)
    {first : List (Turn σ)} (leads : LeadsUp first) :
    Stands w rest (turns ++ first) { h with scheduling := .working } n := by
  obtain ⟨x, y, z, f, g, calm⟩ := leads
  obtain ⟨early, after⟩ := List.forall_mem_append.1 calm
  obtain ⟨before, between⟩ := List.forall_mem_append.1 early
  let stage (now : Scheduling) : Host := { h with scheduling := now }
  have still (now : Scheduling) {us : List (Turn σ)}
      (quiet : ∀ t ∈ us, t.schedules = false ∧ t ≠ .order .stop ∧ t ≠ .order .deactivate) :
      ∀ t ∈ us, t.passes (stage now) = false ∧
        (stage now).moved w.settings.processorName t = stage now := fun t ht =>
    moved_of_running launched.running launched.deactivated launched.controlling (quiet t ht).1
      (quiet t ht).2.1 (quiet t ht).2.2
  have quiet (now next : Scheduling) : launches (stage now) (stage next) = false := by
    simp [launches, stage, launched.controlling]
  have enters : (stage .entering).moved w.settings.processorName (.schedule f : Turn σ) =
      stage .deciding := rfl
  have begins : (stage .deciding).moved w.settings.processorName (.schedule g : Turn σ) =
      stage .working := by
    simp [stage, moved, Host.after, step, advance, launched.running, launched.deactivated]
  have entering : h = stage .entering := by rw [← launched.scheduling]
  rw [entering] at stands
  have deciding := (stands.unmoved (still .entering before)).next (.schedule f) rfl
  rw [enters, quiet] at deciding
  have working := (deciding.unmoved (still .deciding between)).next (.schedule g) rfl
  rw [begins, quiet] at working
  simpa using working.unmoved (still .working after)

end Turns

section Journal

variable {w : Worker (Hosted σ)} {P : Site (Hosted σ) → Prop}

structure Persists (w : Worker (Hosted σ)) (P : Site (Hosted σ) → Prop) : Prop where
  host : ∀ {a} (h : Host), P a → P (a.withWorld { a.world with host := h })
  status : ∀ {a} (t : Status), P a → P (a.withStatus t)
  log : ∀ {a} (record : Record), P a → P (a.note (.log record))
  run : ∀ fuel, Act.Keeps P (w.run fuel)

theorem Persists.take (persists : Persists w P) (name : String) (m : Move) :
    Act.Keeps P (Host.take name m) := by
  refine (Act.Keeps.look _).bind fun h => ?_
  split
  · exact .pure _
  · refine Act.Keeps.bind (fun _ => persists.host _) fun _ => ?_
    exact Act.Keeps.forM _ fun e => fun _ => persists.log _

theorem Persists.live (persists : Persists w P) {turns : List (Turn σ)}
    (rest : ∀ f, .meanwhile f ∈ turns → ∀ a, P a →
      P (a.withWorld { a.world with rest := f a.world.rest })) :
    Act.Keeps P (Host.live w turns) := by
  have pass (fuel : Nat) : Act.Keeps P (pass w fuel) := by
    refine (Act.Keeps.look _).bind fun h => Act.Keeps.bind (fun _ => persists.status _) fun _ =>
      Act.Keeps.bind ((persists.run fuel).catching.bind fun r => ?_) fun _ =>
        Act.Keeps.status.bind fun _ => persists.take _ _
    cases r with
    | ok _ => exact .pure _
    | error fault => exact Act.Keeps.bind (fun _ => persists.log _) fun _ => .pure _
  induction turns with
  | nil => exact .pure _
  | cons t ts ih =>
    refine Act.Keeps.bind ?_ fun _ => ih fun f hf => rest f (List.mem_cons_of_mem _ hf)
    cases t with
    | order o => exact persists.take _ _
    | proceed => exact persists.take _ _
    | meanwhile f => exact fun a ha => rest f (by simp) a ha
    | schedule fuel =>
      refine (Act.Keeps.look _).bind fun h => ?_
      split
      · exact pass fuel
      · exact persists.take _ _

end Journal

section Pass

variable {s : Settings} {o : Outside (Hosted σ)} {stock : σ → Stock}

theorem stocked_owned (name : String) (stocked : Stocked o fun v => stock v.rest) :
    Stocked (owned name o) fun v => stock v.rest where
  moves moves := by
    rcases moves_of_owned moves with moves | rfl
    · exact stocked.moves moves
    · exact .refl _
  receive := stocked.receive
  accepted := stocked.accepted
  refused := stocked.refused

theorem accounts_history (stocked : Stocked o fun v => stock v.rest) (rest : σ)
    (new : (stock rest).pushed = []) {turns : List (Turn σ)}
    (pushes : ∀ f, .meanwhile f ∈ turns → ∀ v, (stock v).Grows (stock (f v))) :
    (stock (history (runner s o) rest turns).world.rest).Accounts
      (books (history (runner s o) rest turns).moments).removed (stock rest).pending := by
  let w := runner s o
  have lawful : Persists w fun a => Always w.Lawful [] a.moments :=
    { host := fun _ ha => ha
      status := fun _ ha => ha
      log := fun {a} record ha => by
        rw [Site.moments_note]
        exact ha.append (Worker.lawful_of_idle (.single rfl rfl))
      run := fun fuel a ha => (Worker.carries_run fuel a .begun).reached.lawful_from ha }
  have keeping : Persists w
      (Keeping (fun v : Hosted σ => stock v.rest) (stock rest).pending fun _ _ => True) :=
    { host := fun h ha => ha.moved (.refl _) fun _ _ => trivial
      status := fun _ ha => ha
      log := fun record ha => ha.note rfl
      run := fun fuel => (unmoved_keeping (stocked_owned _ stocked)).keeps (w.composed_run fuel) }
  -- Both outlast whatever happens between the runs, so they hold of the whole history.
  have handed : Always Handed [] (history w rest turns).moments :=
    Worker.handed_of_lawful (lawful.live (fun _ _ _ ha => ha) (start s rest) .nil)
  have first : Keeping (fun v : Hosted σ => stock v.rest) (stock rest).pending (fun _ _ => True)
      (start s rest) := by
    intro _
    rw [show (start s rest).moments = [] from rfl, books_nil]
    exact ⟨.nil, ⟨by simp [start, Site.fresh, new], by simp⟩, trivial⟩
  have kept : Keeping _ _ _ (history w rest turns) :=
    keeping.live (fun f hf a ha => ha.moved (pushes f hf a.world.rest) fun _ _ => trivial) _ first
  exact (kept handed).2.1.whole

theorem stands_history (civil : Civil s.processorName o) (rest : σ) (turns : List (Turn σ))
    (idle : (hostAfter (runner s o) rest turns).scheduling ≠ .working) :
    Stands (runner s o) rest turns (hostAfter (runner s o) rest turns)
      (changes (runner s o) rest launches turns) := by
  obtain ⟨r, a, ms, lived, caught, -, -, cut⟩ := live_spec civil turns (start s rest)
  have host : hostAfter (runner s o) rest turns = a.world.host := by
    rw [hostAfter, history]
    exact congrArg (fun e => e.2.world.host) lived
  refine ⟨⟨a, ?_, host.symm⟩, rfl⟩
  cases r with
  | done _ => exact lived
  | raised fault => exact absurd rfl (caught fault)
  | unfinished => exact absurd (cut rfl) (host ▸ idle)

theorem pass_arrives (civil : Civil s.processorName o) (loyal : o.Loyal)
    (stocked : Stocked o fun v => stock v.rest) {a : Site (Hosted σ)} {removed first : List Message}
    (accounts : (stock a.world.rest).Accounts removed first)
    (working : a.world.host.scheduling = .working) (active : a.world.host.deactivated = false)
    {delayDue : Bool} (worker : a.world.host.worker = .fresh delayDue) (fuel : Nat) :
    ∃ ms, (pass (runner s o) (fuel + 1) a).2.moments =
        a.moments ++ (entry a).moment .runBegun :: ms ∧
      (s.complaints = [] → Arrived stock removed first ms) := by
  have alive : a.world.host.scheduling.alive = true := by rw [working]; rfl
  have stocked := stocked_owned s.processorName stocked
  have guards : Guards s o a.world.host fun v =>
      Obeys a.world.host v.host ∧ (stock v.rest).Accounts removed first :=
    { civil, loyal, working, active
      live := by rw [worker]; rfl
      obeys := fun h => h.1
      moves := fun moves h =>
        ⟨obeys_of_moves civil alive moves h.1, h.2.grows (stocked.moves moves)⟩ }
  obtain ⟨r, t, ran, -, ended⟩ := pass_ended civil working (fuel + 1)
  have later : ∃ ns, (pass (runner s o) (fuel + 1) a).2.moments = t.moments ++ ns := by
    rcases ended with ⟨-, cut⟩ | ⟨-, b, ns, -, passed, moments, -⟩
    · exact ⟨[], by rw [cut, List.append_nil]⟩
    · exact ⟨ns, by rw [passed, moments]⟩
  obtain ⟨ns, later⟩ := later
  -- The run is marked when it begins, whether or not it comes to its end.
  have begins : ∃ ms, t.moments = a.moments ++ [(entry a).moment .runBegun] ++ ms := by
    obtain ⟨x, composed, begun⟩ := (runner s o).run_begins (fuel + 1)
    have kept := (Worker.Unmoved.of_moments (w := runner s o)
      (P := fun ms => ∃ ns, ms = a.moments ++ [(entry a).moment .runBegun] ++ ns)
      fun {_} ns ⟨ms, hms⟩ => ⟨ms ++ ns, by rw [hms, List.append_assoc]⟩).keeps composed
      ((entry a).note .runBegun) ⟨[], by simp [entry]⟩
    rw [begun, Act.bind_done (Act.note_apply _ _)] at ran
    rwa [ran] at kept
  obtain ⟨ms, begins⟩ := begins
  refine ⟨ms ++ ns, by simp [later, begins], fun valid => Arrived.append ?_ ns⟩
  obtain ⟨ms', there, arrived⟩ := there_run (a := entry a) guards stocked (fun h => h.2) valid
    (by simp [entry, worker, Status.fresh]) (by simp [entry, worker, Status.fresh])
    (by simp [entry, worker, Status.fresh]) ⟨.refl _, accounts⟩ fuel
  rw [ran, begins] at there
  rwa [List.append_cancel_left there]

/-- Whatever a host has been through, once its scheduler thread has ended it can be started again,
or activated: that launches one thread, with a worker that is as good as new. Unless the host is
stopped or deactivated again, its first pass runs the worker, which gets to the oldest message of
the store as long as nothing is in its way. -/
theorem never_wedged (s : Settings) (o : Outside (Hosted σ)) (civil : Civil s.processorName o)
    (loyal : o.Loyal) (stock : σ → Stock) (stocked : Stocked o fun v => stock v.rest) (rest : σ)
    (new : (stock rest).pushed = []) (turns up first : List (Turn σ))
    (pushes : ∀ f, .meanwhile f ∈ turns ++ up ++ first → ∀ v, (stock v).Grows (stock (f v)))
    (down : (hostAfter (runner s o) rest turns).scheduling.alive = false)
    (idle : (hostAfter (runner s o) rest turns).controlling = .idle)
    (summons : Summons (hostAfter (runner s o) rest turns) up) (leads : LeadsUp first)
    (fuel : Nat) :
    let b := hostAfter (runner s o) rest (turns ++ up)
    let c := history (runner s o) rest (turns ++ up ++ first)
    Launched b ∧ changes (runner s o) rest launches (turns ++ up) =
        changes (runner s o) rest launches turns + 1 ∧
      c.world.host = { b with scheduling := .working } ∧
      ∃ x ms, (history (runner s o) rest (turns ++ up ++ first ++ [.schedule (fuel + 1)])).moments =
          c.moments ++ x :: ms ∧ x.event = .runBegun ∧ x.status = b.worker ∧
        (s.complaints = [] →
          Arrived stock (books c.moments).removed (stock rest).pending ms) := by
  intro b c
  have sound : Sound (hostAfter (runner s o) rest turns) := sound_history civil rest turns
  obtain ⟨k, started, launched⟩ := summons.launched
    (stands_history civil rest turns (by intro now; simp [now, Scheduling.alive] at down)) sound
    down idle
  have working := leads.working started launched
  obtain ⟨a, lived, host⟩ := working.done
  have hc : c = a := congrArg Prod.snd lived
  have hb : b = k := started.host
  rw [hb, hc]
  refine ⟨launched, started.launched, host, ?_⟩
  obtain ⟨delayDue, worker⟩ := launched.worker
  have accounts := accounts_history (s := s) stocked rest new pushes
  rw [show history (runner s o) rest (turns ++ up ++ first) = a from hc] at accounts
  have now : a.world.host.scheduling = .working := by rw [host]
  obtain ⟨ms, moments, arrived⟩ := pass_arrives civil loyal stocked accounts now
    (by rw [host]; exact launched.deactivated)
    (show a.world.host.worker = .fresh delayDue by rw [host]; exact worker) fuel
  refine ⟨(entry a).moment .runBegun, ms, ?_, rfl, ?_, arrived⟩
  · rw [history, live_append, Act.bind_done lived, live_singleton, takeTurn_pass _ _ now, moments]
  · rw [Site.status_moment, entry, Site.status_withStatus, host]

theorem stocked_hosted {o : Outside σ} (stocked : Stocked o stock) :
    Stocked o.hosted fun v => stock v.rest where
  moves {v v'} moves := by
    cases moves with
    | deactivate => exact stocked.moves (.deactivate v.rest)
    | storeName => exact stocked.moves (.storeName v.rest)
    | createConsumer => exact stocked.moves (.createConsumer v.rest)
    | receive => exact stocked.moves (.receive v.rest)
    | send e m => exact stocked.moves (.send e m v.rest)
    | sleep ms up => exact stocked.moves (.sleep ms up v.rest)
    | interrupt => exact stocked.moves (.interrupt v.rest)
    | mediate m registered =>
      obtain ⟨g, found, rfl⟩ := Option.map_eq_some_iff.1 registered
      exact stocked.moves (.mediate m found)
  receive {v m} outcome := stocked.receive (v := v.rest) outcome
  accepted {v m rest} := stocked.accepted (v := v.rest)
  refused {v} := stocked.refused (v := v.rest)

theorem stocked_halting {o : Outside σ} (name : String) (stocked : Stocked o stock) :
    Stocked (o.halting name) fun v => stock v.rest where
  moves {v v'} moves := by
    obtain ⟨u, hosted, rest, -⟩ := moves_of_halting moves
    rw [← rest]
    exact (stocked_hosted stocked).moves hosted
  receive := (stocked_hosted stocked).receive
  accepted := (stocked_hosted stocked).accepted
  refused := (stocked_hosted stocked).refused

theorem never_wedged_halting :
    let s : Settings := { processorName := "shelf", targetEndpoint := "backend", throttle := false }
    let o := Shelf.outside.halting s.processorName
    let world : Shelf := ⟨⟨[⟨"1", ∅, .null⟩], []⟩, [false]⟩
    let turns : List (Turn Shelf) := [.order .start, .proceed, .proceed, .schedule 0, .schedule 0,
      .schedule 3, .schedule 0, .schedule 0, .order .deactivate]
    let up : List (Turn Shelf) := [.order .activate, .proceed, .proceed, .proceed]
    let first : List (Turn Shelf) := [.schedule 0, .schedule 0]
    let a := hostAfter (runner s o) world turns
    let b := hostAfter (runner s o) world (turns ++ up)
    a.deactivated = true ∧ a.worker.terminated = true ∧ Launched b ∧
      changes (runner s o) world launches (turns ++ up) =
        changes (runner s o) world launches turns + 1 ∧
      ∃ x ms,
        (history (runner s o) world (turns ++ up ++ first ++ [.schedule 1])).moments =
          (history (runner s o) world (turns ++ up ++ first)).moments ++ x :: ms ∧
        x.event = .runBegun ∧ x.status = b.worker ∧
        Arrived Shelf.stock
          (books (history (runner s o) world (turns ++ up ++ first)).moments).removed
          [⟨"1", ∅, .null⟩] ms := by
  intro s o world turns up first a b
  have civil : Civil s.processorName o := civil_halting _ _
  have loyal : o.Loyal := by
    have quiet {α : Type} (r : Reply (Hosted Shelf) α) (none : r.asides = []) : r.Loyal :=
      .inl (by simp [none])
    exact ⟨fun _ => quiet _ rfl, fun _ => quiet _ rfl, fun _ _ _ => quiet _ rfl⟩
  have stocked : Stocked o fun v => Shelf.stock v.rest := stocked_halting _ Shelf.stocked
  have down : a.scheduling.alive = false := by decide +kernel
  have idle : a.controlling = .idle := by decide +kernel
  have summons : Summons a up := .activate [] [] [] (by simp)
  have leads : LeadsUp first := .intro [] [] [] 0 0 (by simp)
  obtain ⟨launched, once, -, x, ms, moments, begun, status, arrived⟩ :=
    never_wedged s o civil loyal Shelf.stock stocked world rfl turns up first
      (by simp [turns, up, first]) down idle summons leads 0
  exact ⟨by decide +kernel, by decide +kernel, launched, once, x, ms, moments, begun, status,
    arrived (by decide +kernel)⟩

end Pass

end Host

end Courier
