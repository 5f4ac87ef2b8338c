import Courier.Proofs.Budget
import Courier.Proofs.Conduct
import Courier.Proofs.Dispatch
import Courier.Proofs.Retirement

namespace Courier

variable {σ : Type}

namespace Event

def replies : Event → Bool
  | .dispatching .reply _ => true
  | _ => false

def mute : Event → Bool
  | .sending _ _ | .dispatching _ _ => false
  | _ => true

theorem within_replies : Within .attempt replies := by
  intro e h
  unfold replies at h
  split at h
  · rfl
  · cases h

theorem mute_of_stage {e : Event} (attempt : e.stage ≠ .attempt)
    (retirement : e.stage ≠ .retirement) : e.mute = true := by
  cases e with
  | dispatching kind _ =>
    cases kind <;> first | exact absurd rfl attempt | exact absurd rfl retirement
  | sending => exact absurd rfl attempt
  | _ => rfl

end Event

def Mute (ms : List (Moment σ)) : Prop := ∀ x ∈ ms, x.event.mute = true

section Mute

variable {ms ns : List (Moment σ)} {x : Moment σ}

theorem Mute.nil : Mute ([] : List (Moment σ)) := by simp [Mute]

theorem Mute.append (h : Mute ms) (k : Mute ns) : Mute (ms ++ ns) := List.forall_mem_append.2 ⟨h, k⟩

theorem Mute.cons (hx : x.event.mute = true) (h : Mute ms) : Mute (x :: ms) :=
  List.forall_mem_cons.2 ⟨hx, h⟩

theorem Mute.of_staged {g : Stage} (h : Staged g ms) (attempt : g ≠ .attempt)
    (retirement : g ≠ .retirement) : Mute ms := by
  intro x hx
  rcases h x hx with h | h
  · exact Event.mute_of_stage (by simp [h]) (by simp [h])
  · exact Event.mute_of_stage (h ▸ attempt) (h ▸ retirement)

theorem Mute.of_incidental (h : ∀ x ∈ ms, x.event.incidental = true) : Mute ms :=
  .of_staged (g := .incidental) (.of_incidental h) (by decide) (by decide)

theorem Mute.tally {p : Event → Bool} (hp : ∀ e, e.mute = true → p e = false) (h : Mute ms) :
    tally p ms = 0 :=
  tally_eq_zero.2 fun x hx => hp _ (h x hx)

theorem Mute.sends (h : Mute ms) : Courier.tally Event.sends ms = 0 :=
  h.tally fun e he => by cases e <;> first | rfl | cases he

theorem Mute.dispatches (h : Mute ms) : Courier.tally Event.dispatches ms = 0 :=
  h.tally fun e he => by cases e <;> first | rfl | cases he

theorem Mute.replies (h : Mute ms) : Courier.tally Event.replies ms = 0 :=
  h.tally fun e he => by cases e <;> first | rfl | cases he

theorem Called.muted {begun ended : Event} (h : Called begun ended ms) (hb : begun.mute = true)
    (he : ended.mute = true) : Mute ms := by
  obtain ⟨x, as, y, rfl, rfl, has, rfl⟩ := h
  exact .cons hb ((Mute.of_incidental has).append (.cons he .nil))

theorem Dispatched.opened {kind : Sequence.Kind} {m : Message} {q : Except Fault Message}
    (h : Dispatched kind m q ms) :
    ∃ x rest, ms = x :: rest ∧ x.event = .dispatching kind m ∧ Mute rest := by
  cases h with
  | missing hx hy => exact ⟨_, _, rfl, hx, .cons (by rw [hy]; rfl) .nil⟩
  | mediated hx called => exact ⟨_, _, rfl, hx, called.muted rfl rfl⟩
  | failed hx called => exact ⟨_, _, rfl, hx, called.muted rfl rfl⟩

theorem Retired.sent {m : Message} {s' : Site σ} {q : Except Fault Unit}
    (h : Retired (some m) s' q ms) :
    ∃ p ds rest, ms = ds ++ rest ∧ Dispatched .deactivate m p ds ∧ Mute rest := by
  cases h with
  | @gone _ _ ns sent called _ =>
    have quiet : Mute ns := called.muted rfl (by cases q <;> rfl)
    cases sent with
    | sent dispatched => exact ⟨_, _, ns, rfl, dispatched, quiet⟩
    | @reported _ _ ds x _ dispatched _ hx =>
      exact ⟨_, ds, x :: ns, by simp, dispatched, quiet.cons (by rw [hx]; rfl)⟩
  | spoiled sent =>
    cases sent with
    | spoiled dispatched => exact ⟨_, _, [], by simp, dispatched, .nil⟩

end Mute

def Closing (x y : Moment σ) : Prop :=
  x.event.replies = true → y.event.sends = false ∧ y.event.replies = false

section Closing

variable {kind : Sequence.Kind} {m : Message} {q : Except Fault Message} {ms ns : List (Moment σ)}

theorem closing_of_none (none : tally Event.replies ms = 0) (ns : List (Moment σ)) :
    ∀ x ∈ ms, ∀ y ∈ ns, Closing x y := by
  intro x hx y _ replies
  simp [tally_eq_zero.1 none x hx] at replies

theorem closing_of_later (ms : List (Moment σ)) (sends : tally Event.sends ns = 0)
    (replies : tally Event.replies ns = 0) : ∀ x ∈ ms, ∀ y ∈ ns, Closing x y :=
  fun _ _ y hy _ => ⟨tally_eq_zero.1 sends y hy, tally_eq_zero.1 replies y hy⟩

theorem pairwise_of_none (none : tally Event.replies ms = 0) : ms.Pairwise Closing :=
  List.pairwise_of_forall_mem_list fun x hx y hy => closing_of_none none ms x hx y hy

theorem Dispatched.settled (h : Dispatched kind m q ms) :
    ms.Pairwise Closing := by
  obtain ⟨x, rest, rfl, -, mute⟩ := h.opened
  exact List.pairwise_cons.2 ⟨closing_of_later [x] mute.sends mute.replies x (by simp),
    pairwise_of_none mute.replies⟩

theorem Dispatched.replies (h : Dispatched kind m q ms)
    (other : kind ≠ .reply) : tally Event.replies ms = 0 := by
  obtain ⟨x, rest, rfl, hx, mute⟩ := h.opened
  rw [tally_cons, hx, mute.replies]
  cases kind <;> first | rfl | exact absurd rfl other

end Closing

namespace Worker

def Spent (w : Worker σ) (t : Status) : Prop :=
  t.terminated = false ∧ 0 < w.settings.maxAttempts ∧ w.settings.dropOnMaxAttempts = false ∧
    w.settings.maxAttempts ≤ t.progress.attempts + 1

/-- An exchange, and what the sequences make of it before anything else is done. If the last attempt
has failed, the deactivate sequence gets the working copy as that attempt has left it. -/
inductive Mediated (w : Worker σ) (e : Endpoint) (working : Message)
    (h : Handled σ (Option Message)) : List (Moment σ) → Prop
  | neither {ns} : w.Conversed e working h ns → w.owed h = none → Mediated w e working h ns
  | replied {ns m q ds} : w.Conversed e working h ns → w.owed h = some (.reply, m) →
      Dispatched .reply m q ds → Mediated w e working h (ns ++ ds)
  | blamed {ns m y r q ds} : w.Conversed e working h ns → w.owed h = some (.fault, m) →
      y.event = .log r → Dispatched .fault m q ds →
      (∀ m', q = .ok m' → ∀ z ∈ ds.getLast?, ¬w.Spent z.status) →
      Mediated w e working h (ns ++ y :: ds)
  | spent {ns m y r m' ds xs q rs} : w.Conversed e working h ns → w.owed h = some (.fault, m) →
      y.event = .log r → Dispatched .fault m (.ok m') ds → (∀ z ∈ ds.getLast?, w.Spent z.status) →
      (∀ x ∈ xs, x.event.incidental = true) → Dispatched .deactivate (h.leaves m') q rs →
      Mediated w e working h (ns ++ y :: ds ++ xs ++ rs)

/-- What a dispatch comes from, as the end of what has happened in the cycle of a stored message. -/
inductive Caused (w : Worker σ) (stored : Message) :
    Sequence.Kind → Message → List (Moment σ) → Prop
  | owed {older e h ns kind m xs} : w.Conversed e (w.workingCopy stored) h ns →
      w.owed h = some (kind, m) → (∀ x ∈ xs, x.event.incidental = true) →
      Caused w stored kind m (older ++ (ns ++ xs))
  | spent {older e h ns m y r m' ds xs} : w.Conversed e (w.workingCopy stored) h ns →
      w.owed h = some (.fault, m) → y.event = .log r → Dispatched .fault m (.ok m') ds →
      (∀ z ∈ ds.getLast?, w.Spent z.status) → (∀ x ∈ xs, x.event.incidental = true) →
      Caused w stored .deactivate (h.leaves m') (older ++ (ns ++ y :: ds ++ xs))
  | givenUp {older x fault y} : x.event = .givingUp fault → y.event.incidental = true →
      Caused w stored .deactivate stored (older ++ [x, y])

def Justified (w : Worker σ) (stored : Message) (before : List (Moment σ)) (x : Moment σ) : Prop :=
  ∀ kind m, x.event = .dispatching kind m → w.Caused stored kind m before

/-- What holds of the moments of a cycle: every exchange is followed by what the sequences are to
make of it, every dispatch comes from an exchange or from the worker's giving up, and a reply is the
last word. -/
structure Orderly (w : Worker σ) (stored : Message) (ms : List (Moment σ)) : Prop where
  exchanges : Begins Event.sends (fun ns => ∃ e h, w.Mediated e (w.workingCopy stored) h ns) ms
  dispatches : Always (w.Justified stored) [] ms
  settled : ms.Pairwise Closing

section Orderly

variable {w : Worker σ} {e : Endpoint} {stored working : Message} {h : Handled σ (Option Message)}
  {kind : Sequence.Kind} {m : Message} {x : Moment σ} {c ms ns : List (Moment σ)}

theorem Caused.after (cause : w.Caused stored kind m ms) (c : List (Moment σ)) :
    w.Caused stored kind m (c ++ ms) := by
  cases cause with
  | owed conversed owes quiet =>
    rw [← List.append_assoc]
    exact .owed conversed owes quiet
  | spent conversed owes hy dispatched spent quiet =>
    rw [← List.append_assoc]
    exact .spent conversed owes hy dispatched spent quiet
  | givenUp hx hy =>
    rw [← List.append_assoc]
    exact .givenUp hx hy

theorem justified_of_none (none : tally Event.dispatches ms = 0) :
    Always (w.Justified stored) c ms := by
  refine .of_forall fun before x hx kind m dispatching => ?_
  have := tally_eq_zero.1 none x hx
  simp [dispatching, Event.dispatches] at this

theorem justified_of_dispatched {q : Except Fault Message} (h : Dispatched kind m q ms)
    (cause : w.Caused stored kind m c) : Always (w.Justified stored) c ms := by
  obtain ⟨x, rest, rfl, hx, mute⟩ := h.opened
  refine .cons (fun kind' m' dispatching => ?_) (justified_of_none mute.dispatches)
  obtain ⟨rfl, rfl⟩ := Event.dispatching.inj (hx.symm.trans dispatching)
  exact cause

theorem orderly_of_mute (mute : Mute ms) : w.Orderly stored ms where
  exchanges := .of_none mute.sends
  dispatches := justified_of_none mute.dispatches
  settled := pairwise_of_none mute.replies

theorem Orderly.append (h : w.Orderly stored ms) (k : w.Orderly stored ns)
    (closing : ∀ x ∈ ms, ∀ y ∈ ns, Closing x y) : w.Orderly stored (ms ++ ns) where
  exchanges := h.exchanges.append k.exchanges
  dispatches := h.dispatches.append fun before x after hns kind m dispatching =>
    (k.dispatches before x after hns kind m dispatching).after ms
  settled := List.pairwise_append.2 ⟨h.settled, k.settled, closing⟩

theorem Orderly.mute (h : w.Orderly stored ms) (mute : Mute ns) : w.Orderly stored (ms ++ ns) :=
  h.append (orderly_of_mute mute) (closing_of_later ms mute.sends mute.replies)

theorem Orderly.before (h : w.Orderly stored ns) (mute : Mute ms) : w.Orderly stored (ms ++ ns) :=
  (orderly_of_mute mute).append h (closing_of_none mute.replies ns)

theorem Conversed.opened (conversed : w.Conversed e working h ms) :
    ∃ x rest, ms = x :: rest ∧ x.event = .sending e working ∧ Mute rest := by
  obtain ⟨x, as, y, rfl, hx, -, has, hy⟩ := conversed
  refine ⟨x, _, rfl, hx, (Mute.of_incidental has).append (.cons ?_ .nil)⟩
  rw [hy]
  cases h.outcome <;> rfl

theorem Conversed.dispatches (conversed : w.Conversed e working h ms) :
    tally Event.dispatches ms = 0 := by
  obtain ⟨x, rest, rfl, hx, mute⟩ := conversed.opened
  rw [tally_cons, hx, mute.dispatches]
  rfl

theorem Conversed.replies (conversed : w.Conversed e working h ms) :
    tally Event.replies ms = 0 := by
  obtain ⟨x, rest, rfl, hx, mute⟩ := conversed.opened
  rw [tally_cons, hx, mute.replies]
  rfl

theorem Mediated.exchanges (mediated : w.Mediated e working h ms) :
    Begins Event.sends (fun ns => ∃ e h, w.Mediated e working h ns) ms := by
  have begins {ns ds : List (Moment σ)} (conversed : w.Conversed e working h ns)
      (quiet : tally Event.sends ds = 0) (mediated : w.Mediated e working h (ns ++ ds)) :
      Begins Event.sends (fun ns => ∃ e h, w.Mediated e working h ns) (ns ++ ds) := by
    obtain ⟨x, rest, rfl, -, mute⟩ := conversed.opened
    have rest : tally Event.sends (rest ++ ds) = 0 := by rw [tally_append, mute.sends, quiet]
    exact .single ⟨e, h, mediated⟩ rest
  cases mediated with
  | neither conversed owes =>
    have own : w.Mediated e working h (ms ++ []) := by simpa using .neither conversed owes
    simpa using begins conversed rfl own
  | replied conversed owes dispatched =>
    exact begins conversed dispatched.sends (.replied conversed owes dispatched)
  | blamed conversed owes hy dispatched unspent =>
    refine begins conversed ?_ (.blamed conversed owes hy dispatched unspent)
    rw [tally_cons, hy, dispatched.sends]
    rfl
  | @spent ns m y r m' ds xs q rs conversed owes hy dispatched spent quiet deactivate =>
    have whole : ns ++ y :: ds ++ xs ++ rs = ns ++ (y :: ds ++ xs ++ rs) := by simp
    rw [whole]
    refine begins conversed ?_
      (whole ▸ .spent conversed owes hy dispatched spent quiet deactivate)
    rw [tally_append, tally_append, tally_cons, hy, dispatched.sends,
      tally_incidental Event.sober_sends quiet, deactivate.sends]
    rfl

theorem Mediated.dispatches (mediated : w.Mediated e (w.workingCopy stored) h ms) :
    Always (w.Justified stored) [] ms := by
  have blamed {ns ds : List (Moment σ)} {m : Message} {y : Moment σ} {r : Record}
      {q : Except Fault Message} (conversed : w.Conversed e (w.workingCopy stored) h ns)
      (owes : w.owed h = some (.fault, m)) (hy : y.event = .log r)
      (dispatched : Dispatched .fault m q ds) :
      Always (w.Justified stored) [] (ns ++ y :: ds) := by
    have logged : Event.incidental y.event = true := by rw [hy, Event.incidental]
    refine (justified_of_none conversed.dispatches).append
      (.cons ?_ (justified_of_dispatched dispatched ?_))
    · intro kind m dispatching
      simp [hy] at dispatching
    · have cause : w.Caused stored .fault m ([] ++ (ns ++ [y])) :=
        .owed conversed owes (by simpa using logged)
      simpa using cause
  cases mediated with
  | neither conversed owes => exact justified_of_none conversed.dispatches
  | replied conversed owes dispatched =>
    refine (justified_of_none conversed.dispatches).append (justified_of_dispatched dispatched ?_)
    have cause : w.Caused stored .reply _ ([] ++ (_ ++ [])) := .owed conversed owes (by simp)
    simpa using cause
  | blamed conversed owes hy dispatched _ => exact blamed conversed owes hy dispatched
  | spent conversed owes hy dispatched spent quiet deactivate =>
    refine ((blamed conversed owes hy dispatched).append
      (justified_of_none (Mute.of_incidental quiet).dispatches)).append
        (justified_of_dispatched deactivate ?_)
    rw [List.nil_append, ← List.nil_append (_ ++ _ :: _ ++ _)]
    exact .spent conversed owes hy dispatched spent quiet

theorem Mediated.settled (mediated : w.Mediated e working h ms) : ms.Pairwise Closing := by
  have blamed {ns ds : List (Moment σ)} {m : Message} {y : Moment σ} {r : Record}
      {q : Except Fault Message} (conversed : w.Conversed e working h ns) (hy : y.event = .log r)
      (dispatched : Dispatched .fault m q ds) : tally Event.replies (ns ++ y :: ds) = 0 := by
    rw [tally_append, tally_cons, conversed.replies, hy, dispatched.replies (by decide)]
    rfl
  cases mediated with
  | neither conversed owes => exact pairwise_of_none conversed.replies
  | replied conversed owes dispatched =>
    exact List.pairwise_append.2 ⟨pairwise_of_none conversed.replies, dispatched.settled,
      closing_of_none conversed.replies _⟩
  | blamed conversed owes hy dispatched _ => exact pairwise_of_none (blamed conversed hy dispatched)
  | spent conversed owes hy dispatched spent quiet deactivate =>
    apply pairwise_of_none
    rw [tally_append, tally_append, blamed conversed hy dispatched,
      (Mute.of_incidental quiet).replies, deactivate.replies (by decide)]

theorem Mediated.orderly (mediated : w.Mediated e (w.workingCopy stored) h ms) :
    w.Orderly stored ms :=
  ⟨mediated.exchanges, mediated.dispatches, mediated.settled⟩

end Orderly

section Passes

variable {w : Worker σ} {e : Endpoint} {stored working : Message} {finding : Finding}
  {h : Handled σ (Option Message)} {s s' : Site σ} {ms ns : List (Moment σ)} {r : Ending Unit}

theorem Followed.mute (followed : w.Followed finding s s' ms r) (final : finding.final) :
    Mute ms := by
  cases followed with
  | delivered settled => exact .of_staged settled.staged (by decide) (by decide)
  | turnedDown settled => exact .of_staged settled.staged (by decide) (by decide)
  | broken => exact .nil
  | ended => exact absurd rfl (final _)
  | again => exact absurd rfl (final _)
  | dropped => exact absurd rfl (final _)
  | exhausted => exact absurd rfl (final _)

theorem Followed.settles (followed : w.Followed finding s s' ms (.done ()))
    (final : finding.final) : s'.status.progress.succeeded = true := by
  generalize hr : Ending.done () = r at followed
  cases followed with
  | delivered settled => simp [settled.status]
  | turnedDown settled => simp [settled.status]
  | broken => cases hr
  | ended => exact absurd rfl (final _)
  | again => exact absurd rfl (final _)
  | dropped => exact absurd rfl (final _)
  | exhausted => exact absurd rfl (final _)

theorem Exhausted.sent {q : Except Fault Unit} (exhausted : Exhausted working s s' q ms) :
    ∃ xs q ds rest, ms = xs ++ ds ++ rest ∧ (∀ x ∈ xs, x.event.incidental = true) ∧
      Dispatched .deactivate working q ds ∧ Mute rest := by
  obtain ⟨xs, ns, ys, rfl, hxs, retired, hys⟩ := exhausted.retired
  obtain ⟨q, ds, rest, rfl, dispatched, mute⟩ := retired.sent
  exact ⟨xs, q, ds, rest ++ ys, by simp, hxs, dispatched, mute.append (.of_incidental hys)⟩

theorem Followed.orderly {m m' : Message} {y : Moment σ} {record : Record} {ds : List (Moment σ)}
    (conversed : w.Conversed e (w.workingCopy stored) h ns) (owes : w.owed h = some (.fault, m))
    (hy : y.event = .log record) (dispatched : Dispatched .fault m (.ok m') ds)
    (last : ∀ z ∈ ds.getLast?, z.status = s.status)
    (followed : w.Followed (.failed (h.leaves m')) s s' ms r) :
    w.Orderly stored (ns ++ y :: ds ++ ms) := by
  have unspent (not : ¬w.Spent s.status) (mute : Mute ms) :
      w.Orderly stored (ns ++ y :: ds ++ ms) := by
    have mediated : w.Mediated e (w.workingCopy stored) h (ns ++ y :: ds) :=
      .blamed conversed owes hy dispatched fun _ _ z hz => by rwa [last z hz]
    exact mediated.orderly.mute mute
  cases followed with
  | ended up => exact unspent (fun ⟨running, _⟩ => by simp [up] at running) .nil
  | again _ retrying =>
    refine unspent (fun ⟨_, limited, _, reached⟩ => ?_)
      (.of_staged retrying.staged (by decide) (by decide))
    obtain ⟨left, -⟩ := retrying.counted (bounded_of_pos limited)
    exact absurd left (Int.not_lt.2 reached)
  | dropped _ _ drops _ settled _ =>
    refine unspent (fun ⟨_, _, keeps, _⟩ => ?_) (.of_staged settled.staged (by decide) (by decide))
    simp [Settings.retryPolicy, RetryPolicy.of, keeps] at drops
  | exhausted running bounded drops reached exhausted =>
    obtain ⟨xs, q, rs, rest, rfl, hxs, deactivate, mute⟩ := exhausted.sent
    have limited : 0 < w.settings.maxAttempts := of_decide_eq_true bounded
    have keeps : w.settings.dropOnMaxAttempts = false := by
      simpa [Settings.retryPolicy, RetryPolicy.of, limited] using drops
    have spent : w.Spent s.status := ⟨running, limited, keeps, reached⟩
    have mediated : w.Mediated e (w.workingCopy stored) h (ns ++ y :: ds ++ xs ++ rs) :=
      .spent conversed owes hy dispatched (fun z hz => by rwa [last z hz]) hxs deactivate
    have whole : ns ++ y :: ds ++ (xs ++ rs ++ rest) = ns ++ y :: ds ++ xs ++ rs ++ rest := by simp
    rw [whole]
    exact mediated.orderly.mute mute

theorem Conducted.orderly (conducted : w.Conducted e stored finding ns)
    (last : ∀ working, finding = .failed working → ∀ z ∈ ns.getLast?, z.status = s.status)
    (followed : w.Followed finding s s' ms r) : w.Orderly stored (ns ++ ms) := by
  have asked {x : Moment σ} (hx : x.event = .consumerAsked true) : Mute [x] :=
    .cons (by rw [hx]; rfl) .nil
  cases conducted with
  | gone hx hy =>
    have mute : Mute [_, _] := .cons (by rw [hx]; rfl) (.cons (by rw [hy]; rfl) .nil)
    exact orderly_of_mute (mute.append (followed.mute (by simp [Finding.final])))
  | neither hx conversed owes final =>
    have mediated : w.Mediated e (w.workingCopy stored) _ _ := .neither conversed owes
    exact (mediated.orderly.before (asked hx)).mute (followed.mute final)
  | replied hx conversed owes dispatched final =>
    have mediated : w.Mediated e (w.workingCopy stored) _ _ := .replied conversed owes dispatched
    exact (mediated.orderly.before (asked hx)).mute (followed.mute final)
  | @blamed x h ns m y record q ds hx conversed owes hy dispatched =>
    cases q with
    | error fault =>
      have mediated : w.Mediated e (w.workingCopy stored) h (ns ++ y :: ds) :=
        .blamed conversed owes hy dispatched (by simp)
      exact (mediated.orderly.before (asked hx)).mute
        (followed.mute (by simp [Finding.final, Finding.blamed]))
    | ok m' =>
      -- whether the attempts are used up shows at the end of the dispatch
      have last : ∀ z ∈ ds.getLast?, z.status = s.status := by
        obtain ⟨d, rest, rfl, -, -⟩ := dispatched.opened
        have whole : x :: (ns ++ y :: d :: rest) = (x :: ns ++ [y]) ++ d :: rest := by simp
        have last := last _ rfl
        rwa [whole, List.getLast?_append_of_ne_nil _ (List.cons_ne_nil d rest)] at last
      have orderly : w.Orderly stored (ns ++ y :: ds ++ ms) :=
        Followed.orderly conversed owes hy dispatched last followed
      exact orderly.before (asked hx)

theorem Conducted.replies (conducted : w.Conducted e stored finding ms) :
    finding.final ∨ tally Event.replies ms = 0 := by
  cases conducted with
  | gone => exact .inl (by simp [Finding.final])
  | neither _ _ _ final => exact .inl final
  | replied _ _ _ _ final => exact .inl final
  | blamed hx conversed _ hy dispatched =>
    right
    rw [tally_cons, hx, tally_append, conversed.replies, tally_cons, hy,
      dispatched.replies (by decide)]
    rfl

end Passes

section Cycles

variable (w : Worker σ)

theorem deliver_settled (e : Endpoint) (stored : Message) (fuel : Nat) {s : Site σ}
    (settled : s.status.progress.succeeded = true) : (w.deliver e stored fuel s).2 = s := by
  cases fuel with
  | zero => rfl
  | succ fuel =>
    rw [deliver, Act.bind_done (Act.status_apply s), Act.onlyIf_apply, if_neg (by simp [settled])]

theorem deliver_orderly (e : Endpoint) (stored : Message) (fuel : Nat) (s : Site σ) :
    ∃ ms, (w.deliver e stored fuel s).2.moments = s.moments ++ ms ∧ w.Orderly stored ms := by
  induction fuel generalizing s with
  | zero => exact ⟨[], by simp [deliver], orderly_of_mute .nil⟩
  | succ fuel ih =>
    rw [deliver, Act.bind_done (Act.status_apply s), Act.onlyIf_apply]
    split
    case isFalse => exact ⟨[], by simp, orderly_of_mute .nil⟩
    case isTrue =>
      obtain ⟨finding, t, ms, once, moments, conducted, last⟩ := w.conducts_deliverOnce e stored s
      rw [List.nil_append] at conducted last
      obtain ⟨r, u, ns, follow, followed, -⟩ := w.follow_spec e stored finding t
      have pass : u.moments = s.moments ++ (ms ++ ns) := by
        rw [followed.grows.moments, moments, List.append_assoc]
      have orderly := conducted.orderly last followed
      have once := once.trans follow
      cases r with
      | unfinished => exact absurd rfl followed.finished
      | raised fault => exact ⟨ms ++ ns, by rw [Act.bind_raised once, pass], orderly⟩
      | done _ =>
        rw [Act.bind_done once]
        rcases conducted.replies with final | none
        · -- there is no further pass
          exact ⟨ms ++ ns, by rw [w.deliver_settled e stored fuel (followed.settles final), pass],
            orderly⟩
        · obtain ⟨later, moments', orderly'⟩ := ih u
          have quiet : tally Event.replies (ms ++ ns) = 0 := by
            rw [tally_append, none, followed.tally_eq_zero Event.within_replies (.inr rfl)]
          exact ⟨ms ++ ns ++ later, by rw [moments', pass, List.append_assoc],
            orderly.append orderly' (closing_of_none quiet later)⟩

theorem forward_orderly (stored : Message) (fuel : Nat) (s : Site σ) :
    ∃ ms, (w.forward stored fuel s).2.moments = s.moments ++ ms ∧ w.Orderly stored ms := by
  rw [forward, Act.bind_done (w.log_apply _ _ s)]
  generalize told : w.logged .debug ("Sending message " ++ stored.id ++ " to the endpoint") s = t
  obtain ⟨x, begun, hx⟩ : ∃ x : Moment σ, t.moments = s.moments ++ [x] ∧ x.event.mute = true := by
    rw [← told]
    exact ⟨_, Site.moments_note .., rfl⟩
  have first : Mute [x] := .cons hx .nil
  obtain ⟨u, xs, resolve, spell, -, incidental, -⟩ := w.resolveTarget_spec stored t
  have mute : Mute (x :: xs) := first.append (.of_incidental incidental)
  have moments : u.moments = s.moments ++ x :: xs := by
    rw [spell.moments, begun, List.append_assoc, List.singleton_append]
  rw [Act.bind_done resolve]
  cases w.target? stored t.world with
  | some e =>
    obtain ⟨ms, deliver, orderly⟩ := w.deliver_orderly e stored fuel u
    exact ⟨x :: xs ++ ms, by rw [deliver, moments, List.append_assoc], orderly.before mute⟩
  | none =>
    generalize lost : w.logged .warn ("Property " ++ Property.targetEndpoint ++
      " not found for message " ++ stored.id ++ ", hence removing the message") u = v
    obtain ⟨z, warned, hz⟩ :
        ∃ z : Moment σ, v.moments = u.moments ++ [z] ∧ z.event.mute = true := by
      rw [← lost]
      exact ⟨_, Site.moments_note .., rfl⟩
    obtain ⟨accepted, s', y, ys, acknowledge, settled, hy, hys, -⟩ :=
      w.acknowledge_spec stored.id (v.counted Counter.undeliverable)
    have last : Mute (z :: y :: ys) :=
      .cons hz (.cons (by rw [hy]; rfl) (.of_incidental hys))
    refine ⟨x :: xs ++ z :: y :: ys, ?_, orderly_of_mute (mute.append last)⟩
    dsimp only
    rw [Act.bind_done (w.log_apply _ _ u), lost, Act.bind_done (Act.count_apply _ v), acknowledge,
      settled.moments, Site.moments_counted, warned, moments]
    simp

theorem orderly_of_givenUp {stored : Message} {fault : Fault} {s s' : Site σ}
    {ms : List (Moment σ)} {r : Except Fault Unit}
    (given : GivenUp fault (some stored) s s' ms r) : w.Orderly stored ms where
  exchanges := .of_none (given.staged.tally Event.within_sends (by decide))
  dispatches := by
    obtain ⟨x, y, ns, rfl, hx, hy, retired⟩ := given.retired
    obtain ⟨q, ds, rest, rfl, dispatched, mute⟩ := retired.sent
    have begun : tally Event.dispatches [x, y] = 0 := by
      rw [tally_cons, hx, tally_incidental Event.sober_dispatches (by simpa using hy)]
      rfl
    have cause : w.Caused stored .deactivate stored ([] ++ [x, y]) := .givenUp hx hy
    exact (justified_of_none begun).append
      ((justified_of_dispatched dispatched cause).append (justified_of_none mute.dispatches))
  settled := pairwise_of_none (given.staged.tally Event.within_replies (by decide))

theorem cycle_parts (m : Message) (fuel : Nat) {s t : Site σ} {r : Ending Unit}
    {ms : List (Moment σ)}
    (forward : w.forward (unmarked m) fuel (s.counted Counter.fetched) = (r, t))
    (moments : t.moments = s.moments ++ ms) :
    ∃ ns, (w.cycle m fuel s).2.moments = s.moments ++ (ms ++ ns) ∧
      (ns = [] ∧ (∀ fault, r ≠ .raised fault) ∨
        ∃ fault t' q, r = .raised fault ∧ GivenUp fault (some (unmarked m)) t t' ns q) := by
  rw [cycle, Act.bind_done (Act.count_apply _ s)]
  cases r with
  | done _ =>
    rw [Act.bind_done (Act.catching_done forward)]
    exact ⟨[], by rwa [List.append_nil], .inl ⟨rfl, by simp⟩⟩
  | unfinished =>
    rw [Act.bind_unfinished (Act.catching_unfinished forward)]
    exact ⟨[], by rwa [List.append_nil], .inl ⟨rfl, by simp⟩⟩
  | raised fault =>
    rw [Act.bind_done (Act.catching_raised forward)]
    obtain ⟨t', ns, q, giveUp, given⟩ := w.giveUp_spec _ _ fault (some (unmarked m)) t
    have whole : t'.moments = s.moments ++ (ms ++ ns) := by
      rw [given.moments, moments, List.append_assoc]
    exact ⟨ns, (congrArg (fun ended => ended.2.moments) giveUp).trans whole,
      .inr ⟨fault, t', q, rfl, given⟩⟩

theorem cycle_orderly (m : Message) (fuel : Nat) (s : Site σ) :
    ∃ ms, (w.cycle m fuel s).2.moments = s.moments ++ ms ∧ w.Orderly (unmarked m) ms := by
  obtain ⟨ms, moments, orderly⟩ := w.forward_orderly (unmarked m) fuel (s.counted Counter.fetched)
  rw [Site.moments_counted] at moments
  obtain ⟨ns, whole, ⟨rfl, -⟩ | ⟨fault, t', q, -, given⟩⟩ := w.cycle_parts m fuel rfl moments
  · exact ⟨_, whole, by rwa [List.append_nil]⟩
  · exact ⟨_, whole, orderly.append (w.orderly_of_givenUp given) (closing_of_later ms
      (given.staged.tally Event.within_sends (by decide))
      (given.staged.tally Event.within_replies (by decide)))⟩

end Cycles

end Worker

end Courier
