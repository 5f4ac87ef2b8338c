import Courier.Proofs.Balance
import Courier.Proofs.Stock

namespace Courier

variable {σ : Type}

def Event.accepted : Event → Bool
  | .acknowledged true => true
  | _ => false

theorem Event.eq_of_accepted {e : Event} (h : e.accepted = true) : e = .acknowledged true := by
  unfold Event.accepted at h
  split at h
  · rfl
  · cases h

namespace Worker

/-- A message that has been delivered is acknowledged once, and not at all if the reply sequence has
failed. -/
def Credited (w : Worker σ) (ms : List (Moment σ)) : Prop :=
  tally w.delivers ms ≠ 0 →
    tally Event.acknowledges ms = if tally Event.unreplied ms = 0 then 1 else 0

section

variable {w : Worker σ} {e : Endpoint} {stored : Message} {s s' : Site σ} {ms ns : List (Moment σ)}

theorem Credited.of_undelivered (h : tally w.delivers ms = 0) : w.Credited ms :=
  fun delivered => absurd h delivered

theorem Credited.append (h : w.Credited ms) (delivers : tally w.delivers ns = 0)
    (acknowledges : tally Event.acknowledges ns = 0) (unreplied : tally Event.unreplied ns = 0) :
    w.Credited (ms ++ ns) := by
  simpa [Credited, delivers, acknowledges, unreplied] using h

theorem Credited.after (h : w.Credited ns) (delivers : tally w.delivers ms = 0)
    (acknowledges : tally Event.acknowledges ms = 0) (unreplied : tally Event.unreplied ms = 0) :
    w.Credited (ms ++ ns) := by
  simpa [Credited, delivers, acknowledges, unreplied] using h

theorem Tried.credited {t : Try σ} {r : Ending Unit} (tried : w.Tried e stored t s s' r) :
    w.Credited t.moments := by
  obtain ⟨finding, found, aftermath⟩ := t
  obtain ⟨mid, assessed, followed⟩ : ∃ mid, w.Assessed e stored finding s mid found ∧
    w.Followed finding mid s' aftermath r := tried.course
  obtain ⟨-, -, -, delivers_le, quiet⟩ := assessed.found.figures
  have le := unreplied_le found
  change w.Credited (found ++ aftermath)
  rw [Credited, tally_append, tally_append, tally_append,
    followed.tally_eq_zero w.within_delivers (.inr rfl),
    followed.tally_eq_zero Event.within_unreplied (.inr rfl), followed.acknowledges,
    assessed.found.staged.tally Event.within_acknowledges (by decide)]
  intro delivered
  cases finding with
  | delivered =>
    rw [quiet (by simp)] at le
    rw [if_pos (by omega)]
    rfl
  | broken fault =>
    simp only [Finding.delivers, Bool.toNat_false] at delivers_le
    rw [if_neg (by omega)]
    rfl
  | _ =>
    -- neither a failure nor a refusal delivers
    rw [quiet (by simp)] at le
    simp only [Finding.delivers, Bool.toNat_false] at delivers_le
    omega

theorem Untouched.tally_eq_zero (h : w.Untouched ms) :
    tally w.delivers ms = 0 ∧ tally Event.acknowledges ms = 0 :=
  ⟨Courier.tally_eq_zero.2 fun x hx => (h x hx).2.2,
    Courier.tally_eq_zero.2 fun x hx => (h x hx).2.1⟩

theorem Tries.credited {ts : List (Try σ)} {r : Ending Unit} (tries : w.Tries e stored ts s s' r) :
    w.Credited (ts.flatMap Try.moments) := by
  induction tries with
  | ended => exact .of_undelivered rfl
  | stalled => exact .of_undelivered rfl
  | broken tried => simpa using tried.credited
  | @more t ts _ _ _ _ tried tries ih =>
    rw [List.flatMap_cons]
    cases ts with
    | nil => simpa using tried.credited
    | cons _ _ =>
      obtain ⟨retried, -⟩ := tries.retried (by simp) tried
      obtain ⟨delivers, acknowledges⟩ := retried.untouched.tally_eq_zero
      have breaks := tried.quiet (by simp)
      exact ih.after delivers acknowledges (Nat.le_zero.1 (breaks ▸ unreplied_le _))

theorem Forwarded.credited {r : Ending Unit} (h : w.Forwarded stored s s' ms r) :
    w.Credited ms := by
  cases h with
  | untargeted hx _ hxs hy hys _ _ =>
    apply Credited.of_undelivered
    rw [tally_untargeted (w.within_delivers.sober (by decide)) hx hxs hy hys]
    rfl
  | @targeted _ _ _ _ x _ _ hx _ _ _ _ tries =>
    have quiet {p : Event → Bool} (hp : Event.Sober p) : tally p [x] = 0 := by
      simp [hp _ hx]
    exact tries.credited.after (quiet (w.within_delivers.sober (by decide)))
      (quiet Event.sober_acknowledges) (quiet (Event.within_unreplied.sober (by decide)))

theorem Cycled.credited {r : Ending Unit} (h : w.Cycled stored s s' ms r) : w.Credited ms := by
  cases h with
  | forwarded h => exact h.credited
  | givenUp h given =>
    have staged := given.staged
    exact h.credited.append (staged.tally w.within_delivers (by decide))
      (staged.tally Event.within_acknowledges (by decide))
      (staged.tally Event.within_unreplied (by decide))

end

section

variable {w : Worker σ} {stock : σ → Stock} {world : σ} {terms : List (List (Visit σ))}
  {before rest as bs : List (Moment σ)} {start : Moment σ} {m : Message}

theorem succession_credited (h : (w.succession world terms).moments = before ++ start :: rest)
    (hs : start.event = .received (some m)) : w.Credited (sameCycle rest) := by
  obtain ⟨body, tail, whole, credited, idle⟩ :=
    succession_eachCycle (P := fun _ => w.Credited) world terms (fun h _ => h.credited)
      before start m rest h hs
  rw [whole]
  exact credited.append (idle.tally_within w.within_delivers)
    (idle.tally_eq_zero fun _ => not_acknowledges_of_idle)
    (idle.tally_within Event.within_unreplied)

theorem prefix_sameCycle {x : Moment σ} (hx : x.event.opens = true) :
    sameCycle (as ++ x :: bs) <+: as := by
  induction as with
  | nil => simp [sameCycle, hx]
  | cons a as ih =>
    rw [List.cons_append, sameCycle, List.takeWhile_cons]
    split
    · exact List.cons_prefix_cons.2 ⟨rfl, ih⟩
    · exact List.nil_prefix

theorem eq_of_last_opens {older c : List (Moment σ)} {y : Moment σ}
    (h : older ++ y :: c = before ++ start :: as) (hy : y.event.opens = true)
    (hs : start.event.opens = true) (hc : tally Event.opens c = 0)
    (has : tally Event.opens as = 0) : c = as := by
  have := congrArg (since Event.opens) h
  rwa [since_cons hy hc, since_cons hs has] at this

theorem inHand_of_acknowledged {z : Moment σ}
    (h : (w.succession world terms).moments = before ++ start :: (as ++ z :: bs))
    (hs : start.event = .received (some m)) (has : tally Event.opens as = 0)
    (hz : z.event.acknowledges = true) :
    books (before ++ start :: as) = ⟨(books before).removed, some m⟩ := by
  obtain ⟨older, y, xs, first, n, c, split, -, -, -, hf, pending, -⟩ :=
    succession_lawful (w := w) world terms (before ++ start :: as) z bs (by simp [h]) hz
  have closed : tally Event.opens c = 0 := tally_eq_zero.2 fun x hx => (pending x hx).1
  have same : (older ++ y :: xs) ++ first :: c = before ++ start :: as := by simpa using split.symm
  obtain rfl : c = as :=
    eq_of_last_opens same (by rw [hf, Event.opens]) (by rw [hs, Event.opens]) closed has
  exact books_pending hs pending

theorem removed_of_accepted
    (h : (w.succession world terms).moments = before ++ start :: (as ++ bs))
    (hs : start.event = .received (some m)) (whole : sameCycle (as ++ bs) <+: as)
    (accepted : ∃ x ∈ sameCycle (as ++ bs), x.event = .acknowledged true) :
    (books before).removed ++ [m] <+: (books (before ++ start :: as)).removed := by
  obtain ⟨z, hz, accepted⟩ := accepted
  obtain ⟨zs, more, split⟩ := List.append_of_mem hz
  have closed : tally Event.opens zs = 0 := by
    rw [tally_eq_zero]
    intro x hx
    have : x ∈ sameCycle (as ++ bs) := by simp [split, hx]
    simpa using List.mem_takeWhile_imp this
  obtain ⟨later, parts⟩ := whole
  rw [split] at parts
  subst parts
  have reached : (w.succession world terms).moments =
      before ++ start :: (zs ++ z :: (more ++ later ++ bs)) := by simpa using h
  have inHand := inHand_of_acknowledged reached hs closed (by rw [accepted, Event.acknowledges])
  have removed :
      (books (before ++ start :: zs ++ [z])).removed = (books before).removed ++ [m] := by
    rw [books_concat, inHand, accepted, Books.enter]
    rfl
  rw [← removed]
  convert prefix_removed (before ++ start :: zs ++ [z]) (more ++ later) using 3
  simp

theorem cycle_over {mid gap after : List (Moment σ)} {x y : Moment σ}
    (h : (w.succession world terms).moments =
      before ++ start :: (mid ++ x :: gap ++ y :: after))
    (hs : start.event = .received (some m)) (hx : w.delivers x.event = true)
    (hy : y.event.sends = true) :
    sameCycle (mid ++ x :: gap ++ y :: after) <+: mid ++ x :: gap := by
  by_cases open_ : tally Event.opens (mid ++ x :: gap) = 0
  · obtain ⟨older, first, n, c, e, split, hf, untouched, -⟩ := succession_conveyed (w := w) world
      terms (before ++ start :: (mid ++ x :: gap)) y after (by simpa using h) hy
    have closed : tally Event.opens c = 0 := tally_eq_zero.2 fun z hz => (untouched z hz).1
    obtain rfl : c = mid ++ x :: gap := eq_of_last_opens split.symm (by rw [hf, Event.opens])
      (by rw [hs, Event.opens]) closed open_
    simp [(untouched x (by simp)).2.2] at hx
  · obtain ⟨z, hz, opens⟩ : ∃ z ∈ mid ++ x :: gap, z.event.opens = true := by
      by_contra none
      exact open_ (tally_eq_zero.2 fun z hz => Bool.eq_false_iff.2 fun opens => none ⟨z, hz, opens⟩)
    obtain ⟨zs, more, split⟩ := List.append_of_mem hz
    rw [split, List.append_assoc, List.cons_append]
    exact (prefix_sameCycle opens).trans (List.prefix_append _ _)

/-- A message that has been delivered is acknowledged once in its cycle, unless the reply sequence
fails: then it is not acknowledged at all. Once that is accepted, whatever any worker sends comes
after that message in the store. -/
theorem delivered_once (w : Worker σ) (world : σ) (terms : List (List (Visit σ)))
    {before rest : List (Moment σ)} {start : Moment σ} {m : Message}
    (h : (w.succession world terms).moments = before ++ start :: rest)
    (hs : start.event = .received (some m))
    (hd : ∃ x ∈ sameCycle rest, w.delivers x.event = true) :
    tally Event.acknowledges (sameCycle rest) =
      ((sameCycle rest).all fun x => !x.event.unreplied).toNat ∧
    ∀ stock : σ → Stock, Stocked w.outside stock → (stock world).pushed = [] →
      (∀ visits ∈ terms, ∀ f, .meanwhile f ∈ visits → ∀ v, (stock v).Grows (stock (f v))) →
      (∃ x ∈ sameCycle rest, x.event = .acknowledged true) →
      ∀ mid x gap y after e n, rest = mid ++ x :: gap ++ y :: after →
        w.delivers x.event = true → y.event = .sending e n →
        ∃ stored later, n = w.workingCopy (unmarked stored) ∧
          (stock world).pending ++ (stock y.world).pushed =
            (books (before ++ start :: (mid ++ x :: gap))).removed ++ stored :: later ∧
          (books before).removed ++ [m] <+:
            (books (before ++ start :: (mid ++ x :: gap))).removed := by
  constructor
  · have delivered : tally w.delivers (sameCycle rest) ≠ 0 := by
      simpa [tally_eq_zero] using hd
    rw [succession_credited h hs delivered]
    by_cases replied : tally Event.unreplied (sameCycle rest) = 0
    · rw [if_pos replied, List.all_eq_true.2]
      · rfl
      · simpa using tally_eq_zero.1 replied
    · rw [if_neg replied, List.all_eq_false.2]
      · rfl
      · simpa [tally_eq_zero] using replied
  · rintro stock stocked new pushes accepted mid x gap y after e n rfl hx hy
    obtain ⟨faithful, -⟩ := succession_faithful stocked new pushes
    have split : (w.succession world terms).moments =
        (before ++ start :: (mid ++ x :: gap)) ++ y :: after := by simpa using h
    obtain ⟨stored, later, -, sent, place, -⟩ := sending_first faithful split hy
    exact ⟨stored, later, sent, place, removed_of_accepted h hs
      (cycle_over h hs hx (by rw [hy, Event.sends])) accepted⟩

end

/-- The first message has been delivered and removed when another worker sends the second. -/
theorem delivered_once_shelf :
    let settings : Settings :=
      { processorName := "shelf", targetEndpoint := "backend", throttle := false }
    let w : Worker Shelf := ⟨settings, Shelf.outside⟩
    let world : Shelf := ⟨⟨[⟨"1", ∅, .null⟩], []⟩, []⟩
    let s := w.succession world [[.run 3], [.run 3]]
    ∃ before start rest m, s.moments = before ++ start :: rest ∧
      start.event = .received (some m) ∧ tally Event.sends rest = 2 ∧
      (∃ x ∈ sameCycle rest, w.delivers x.event = true) ∧
      (∃ x ∈ sameCycle rest, x.event = .acknowledged true) ∧
      tally Event.acknowledges (sameCycle rest) =
        ((sameCycle rest).all fun x => !x.event.unreplied).toNat ∧
      ∀ mid x gap y after e n, rest = mid ++ x :: gap ++ y :: after →
        w.delivers x.event = true → y.event = .sending e n →
        ∃ stored later, n = w.workingCopy (unmarked stored) ∧
          (Shelf.stock world).pending ++ (Shelf.stock y.world).pushed =
            (books (before ++ start :: (mid ++ x :: gap))).removed ++ stored :: later ∧
          (books before).removed ++ [m] <+:
            (books (before ++ start :: (mid ++ x :: gap))).removed := by
  intro settings w world s
  obtain ⟨start, m, received, split⟩ := first_received s.moments (by decide +kernel)
  have delivered : ∃ x ∈ sameCycle (s.moments.dropWhile fun x => !x.event.brings).tail,
      w.delivers x.event = true := by decide +kernel
  have accepted : ∃ x ∈ sameCycle (s.moments.dropWhile fun x => !x.event.brings).tail,
      x.event = .acknowledged true := by
    obtain ⟨x, hx, accepted⟩ : ∃ x ∈ sameCycle (s.moments.dropWhile fun x => !x.event.brings).tail,
      x.event.accepted = true := by decide +kernel
    exact ⟨x, hx, Event.eq_of_accepted accepted⟩
  obtain ⟨once, never⟩ := delivered_once w world [[.run 3], [.run 3]] split received delivered
  exact ⟨_, start, _, m, split, received, by decide +kernel, delivered, accepted, once,
    never Shelf.stock Shelf.stocked rfl (by simp) accepted⟩

def speechless : Worker (List Message) :=
  let delivered : Except Fault (Option Message) := .ok (some ⟨"r", ∅, .null⟩)
  { plain { replySequence := "reply", throttle := false } delivered with
    outside :=
      { Outside.plain delivered [] with
        sequence? _ _ := some fun m v => ⟨⟨.error (.runtime "no reply"), v, []⟩, m⟩ } }

/-- A message that has been delivered is not acknowledged, and another worker sends it again. -/
theorem delivered_twice :
    let s := speechless.succession [⟨"m1", ∅, .null⟩] [[.run 2], [.run 2]]
    (∃ before start rest m, s.moments = before ++ start :: rest ∧
      start.event = .received (some m) ∧
      (∃ x ∈ sameCycle rest, speechless.delivers x.event = true) ∧
      tally Event.acknowledges (sameCycle rest) ≠ 1) ∧
    tally Event.sends s.moments = 2 ∧ tally speechless.delivers s.moments = 2 := by
  intro s
  obtain ⟨start, m, received, split⟩ := first_received s.moments (by decide +kernel)
  exact ⟨⟨_, start, _, m, split, received, by decide +kernel, by decide +kernel⟩,
    by decide +kernel, by decide +kernel⟩

end Worker

end Courier
