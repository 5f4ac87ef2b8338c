import Courier.Proofs.Succession

/-!
A store that keeps its messages in order. The worker never says which message it acknowledges: it
is the one in front, and that is the one in hand, whatever goes wrong and whoever has fetched it.
-/

namespace Courier

variable {σ : Type}

structure Stock where
  pending : List Message
  pushed : List Message

def Stock.Grows (k k' : Stock) : Prop :=
  ∃ ms, k'.pending = k.pending ++ ms ∧ k'.pushed = k.pushed ++ ms

theorem Stock.Grows.refl (k : Stock) : k.Grows k := ⟨[], by simp⟩

/-- The collaborators share a store that keeps its messages in order. A fetch returns the first
one, an acknowledgement that is accepted removes it, and at any time messages may be pushed. -/
structure Stocked (o : Outside σ) (stock : σ → Stock) : Prop where
  moves : ∀ {v v'}, o.Moves v v' → (stock v).Grows (stock v')
  receive : ∀ {v m}, (o.receive v).outcome = .ok m →
    ∃ k, (stock v).Grows k ∧ m = k.pending.head? ∧ k.Grows (stock (o.receive v).world)
  accepted : ∀ {v m rest}, (stock v).pending = m :: rest → (o.acknowledge v).1 = true →
    Stock.Grows ⟨rest, (stock v).pushed⟩ (stock (o.acknowledge v).2)
  refused : ∀ {v}, (o.acknowledge v).1 = false → (stock v).Grows (stock (o.acknowledge v).2)

/-- What has been removed from a store, and the message that has been fetched but not removed. -/
structure Books where
  removed : List Message
  inHand : Option Message

namespace Books

def enter (b : Books) : Event → Books
  | .received m => ⟨b.removed, m⟩
  | .acknowledged true => ⟨b.removed ++ b.inHand.toList, none⟩
  | _ => b

theorem enter_of_not_answers {e : Event} (h : e.answers = false) (b : Books) : b.enter e = b := by
  unfold enter
  split <;> first | rfl | cases h

theorem removed_enter (b : Books) (e : Event) : b.removed <+: (b.enter e).removed := by
  unfold enter
  split
  · exact List.prefix_rfl
  · exact List.prefix_append _ _
  · exact List.prefix_rfl

end Books

def books (ms : List (Moment σ)) : Books := ms.foldl (fun b x => b.enter x.event) ⟨[], none⟩

section books

variable {ms ns : List (Moment σ)} {x : Moment σ}

@[simp] theorem books_nil : books ([] : List (Moment σ)) = ⟨[], none⟩ := rfl

theorem books_concat : books (ms ++ [x]) = (books ms).enter x.event := by
  simp [books]

theorem prefix_removed (ms ns : List (Moment σ)) :
    (books ms).removed <+: (books (ms ++ ns)).removed := by
  induction ns using List.reverseRecOn with
  | nil => simp
  | append_singleton ns x ih =>
    rw [← List.append_assoc, books_concat]
    exact ih.trans (Books.removed_enter _ _)

theorem books_received {older c : List (Moment σ)} {start : Moment σ} {m : Option Message}
    (hs : start.event = .received m)
    (hc : ∀ y ∈ c, y.event ≠ .acknowledged true ∧ ∀ r, y.event ≠ .received r) :
    books (older ++ start :: c) = ⟨(books older).removed, m⟩ := by
  induction c using List.reverseRecOn with
  | nil => rw [books_concat, hs, Books.enter]
  | append_singleton c y ih =>
    obtain ⟨unaccepted, unreceived⟩ := hc y (by simp)
    have same (b : Books) : b.enter y.event = b := by
      unfold Books.enter
      split
      case h_1 r h => exact absurd h (unreceived r)
      case h_2 h => exact absurd h unaccepted
      case h_3 => rfl
    rw [← List.cons_append, ← List.append_assoc, books_concat, same]
    exact ih fun z hz => hc z (by simp [hz])

end books

structure Tidy (stock : σ → Stock) (first : List Message) (b : Books) (v : σ) : Prop where
  whole : b.removed ++ (stock v).pending = first ++ (stock v).pushed
  head : ∀ m ∈ b.inHand, (stock v).pending.head? = some m

def Handed (before : List (Moment σ)) (x : Moment σ) : Prop :=
  x.event = .acknowledged true → (books before).inHand.isSome = true

structure Faithful (stock : σ → Stock) (first : List Message) (before : List (Moment σ))
    (x : Moment σ) : Prop where
  tidy : Tidy stock first (books (before ++ [x])) x.world
  again : ∀ r, x.event = .received r → ∀ m ∈ (books before).inHand, r = some m

section Tidy

variable {stock : σ → Stock} {first : List Message} {b : Books} {v v' : σ}

theorem head_append {as bs : List Message} {m : Message} (h : as.head? = some m) :
    (as ++ bs).head? = some m := by
  rw [List.head?_append, h]
  rfl

theorem Tidy.grows (h : Tidy stock first b v) (k : (stock v).Grows (stock v')) :
    Tidy stock first b v' := by
  obtain ⟨ms, pending, pushed⟩ := k
  refine ⟨?_, fun m hm => ?_⟩
  · rw [pending, pushed, ← List.append_assoc, h.whole, List.append_assoc]
  · rw [pending]
    exact head_append (h.head m hm)

theorem Tidy.accepted {o : Outside σ} (stocked : Stocked o stock) (h : Tidy stock first b v)
    (inHand : b.inHand.isSome = true) (accepted : (o.acknowledge v).1 = true) :
    Tidy stock first (b.enter (.acknowledged true)) (o.acknowledge v).2 := by
  obtain ⟨m, hm⟩ := Option.isSome_iff_exists.1 inHand
  obtain ⟨rest, front⟩ := List.head?_eq_some_iff.1 (h.head m hm)
  obtain ⟨ms, pending, pushed⟩ := stocked.accepted front accepted
  refine ⟨?_, by simp [Books.enter]⟩
  rw [Books.enter, pending, pushed, hm]
  have whole := h.whole
  rw [front] at whole
  rw [← List.append_assoc first, ← whole]
  simp

end Tidy

def Keeping (stock : σ → Stock) (first : List Message) (Q : Books → σ → Prop) (s : Site σ) : Prop :=
  Always Handed [] s.moments → Always (Faithful stock first) [] s.moments ∧
    Tidy stock first (books s.moments) s.world ∧ Q (books s.moments) s.world

section Keeping

variable {w : Worker σ} {stock : σ → Stock} {first : List Message} {Q R : Books → σ → Prop}
  {s : Site σ}

theorem Keeping.noted {e : Event} {v : σ} (h : Keeping stock first Q s)
    (tidy : (e = .acknowledged true → (books s.moments).inHand.isSome = true) →
      Tidy stock first (books s.moments) s.world → Q (books s.moments) s.world →
      Tidy stock first ((books s.moments).enter e) v ∧ R ((books s.moments).enter e) v)
    (again : Q (books s.moments) s.world →
      ∀ r, e = .received r → ∀ m ∈ (books s.moments).inHand, r = some m) :
    Keeping stock first R ((s.withWorld v).note e) := by
  intro handed
  rw [Site.moments_note, Site.moments_withWorld] at handed
  obtain ⟨faithful, before, q⟩ := h handed.init
  obtain ⟨after, r⟩ := tidy handed.last before q
  rw [Site.moments_note, Site.moments_withWorld, books_concat]
  refine ⟨faithful.append (Always.cons ⟨?_, again q⟩ .nil), after, r⟩
  rw [List.nil_append, books_concat]
  exact after

theorem Keeping.note {e : Event} (h : Keeping stock first Q s) (he : e.answers = false) :
    Keeping stock first Q (s.note e) := by
  refine h.noted (v := s.world) (fun _ tidy q => ?_) fun _ r hr => ?_
  · rw [Books.enter_of_not_answers he]
    exact ⟨tidy, q⟩
  · simp [hr, Event.answers] at he

theorem Keeping.moved {v : σ} (h : Keeping stock first Q s)
    (grows : (stock s.world).Grows (stock v))
    (q : Tidy stock first (books s.moments) s.world → Q (books s.moments) s.world →
      R (books s.moments) v) : Keeping stock first R (s.withWorld v) := by
  intro handed
  obtain ⟨faithful, tidy, kept⟩ := h handed
  exact ⟨faithful, tidy.grows grows, q tidy kept⟩

theorem patient_keeping (first : List Message) (stocked : Stocked w.outside stock)
    (hQ : ∀ {b v v'}, Q b v → (stock v).Grows (stock v') → Q b v') :
    w.Patient (Keeping stock first Q) where
  heard he h := h.note (Worker.not_answers_of_incidental he)
  status _ h := h
  interrupted h := h.moved (stocked.moves (.interrupt _)) fun _ q =>
    hQ q (stocked.moves (.interrupt _))

def Received (stock : σ → Stock) (r : Option Message) (b : Books) (v : σ) : Prop :=
  (∀ m ∈ b.inHand, r = some m) ∧ ∀ m ∈ r, (stock v).pending.head? = some m

theorem received_keeping (stocked : Stocked w.outside stock) :
    Act.Keeps (Keeping stock first fun _ _ => True) w.receive := by
  intro s hs
  rw [Worker.receive, Act.bind_done (Act.note_apply _ s)]
  replace hs := hs.note (e := .receiving) rfl
  generalize s.note .receiving = t at hs
  have moves := stocked.moves (.receive t.world)
  obtain ⟨u, ms, call, -, -⟩ := w.call_spec w.outside.receive t
  cases outcome : (w.outside.receive t.world).outcome with
  | error fault =>
    rw [outcome] at call
    have patient := (patient_keeping first (Q := fun _ _ => True) stocked
      (fun _ _ => trivial)).call (hs.moved moves fun _ _ => trivial)
    rw [call] at patient
    rw [Worker.ask, bind_assoc, Act.bind_done (Act.catching_raised call)]
    exact patient.note rfl
  | ok r =>
    rw [outcome] at call
    obtain ⟨k, before, rfl, after⟩ := stocked.receive outcome
    have received : Keeping stock first (Received stock k.pending.head?)
        (t.withWorld (w.outside.receive t.world).world) := by
      refine hs.moved moves fun tidy _ => ⟨fun m hm => ?_, fun m hm => ?_⟩
      · obtain ⟨ns, pending, -⟩ := before
        rw [pending]
        exact head_append (tidy.head m hm)
      · obtain ⟨ns, pending, -⟩ := after
        rw [pending]
        exact head_append hm
    have patient := (patient_keeping first stocked fun h grows => by
      obtain ⟨ns, pending, -⟩ := grows
      exact ⟨h.1, fun m hm => pending ▸ head_append (h.2 m hm)⟩).call received
    rw [call] at patient
    rw [Worker.ask, bind_assoc, Act.bind_done (Act.catching_done call), pure_bind,
      Act.bind_done (Act.note_apply _ u)]
    exact patient.noted (v := u.world)
      (fun _ tidy fetched => ⟨⟨tidy.whole, fetched.2⟩, trivial⟩) fun fetched r hr m hm => by
        cases hr
        exact fetched.1 m hm

theorem unmoved_keeping (stocked : Stocked w.outside stock) :
    w.Unmoved (Keeping stock first fun _ _ => True) where
  note he h := h.note he
  status _ h := h
  counted _ h := h
  moved hv h := h.moved (stocked.moves hv) fun _ _ => trivial
  receive := received_keeping stocked
  acknowledged {s} h := by
    refine h.noted (fun handed tidy _ => ⟨?_, trivial⟩) fun _ r hr => nomatch hr
    cases accepted : (w.outside.acknowledge s.world).1 with
    | true => exact tidy.accepted stocked (handed (by rw [accepted])) accepted
    | false => exact tidy.grows (stocked.refused accepted)

end Keeping

namespace Worker

theorem Pending.unanswered {c : List (Moment σ)} (h : Pending c) :
    ∀ y ∈ c, y.event ≠ .acknowledged true ∧ ∀ r, y.event ≠ .received r := by
  intro y hy
  obtain ⟨opens, acknowledges⟩ := h y hy
  constructor
  · intro hy
    simp [hy, Event.acknowledges] at acknowledges
  · intro r hy
    simp [hy, Event.opens] at opens

theorem books_pending {older c : List (Moment σ)} {start : Moment σ} {m : Message}
    (hs : start.event = .received (some m)) (hc : Pending c) :
    books (older ++ start :: c) = ⟨(books older).removed, some m⟩ :=
  books_received hs hc.unanswered

variable {w : Worker σ} {stock : σ → Stock} {world : σ} {terms : List (List (Visit σ))}

theorem handed_of_lawful {ms : List (Moment σ)} (h : Always w.Lawful [] ms) :
    Always Handed [] ms := by
  intro before x after hx accepted
  obtain ⟨older, y, as, start, m, c, split, -, -, -, hs, pending, -⟩ :=
    h before x after hx (by rw [accepted, Event.acknowledges])
  have whole : before = (older ++ y :: as) ++ start :: c := by simpa using split
  rw [List.nil_append, whole, books_pending hs pending]
  rfl

theorem succession_handed : Always Handed [] (w.succession world terms).moments :=
  handed_of_lawful (succession_lawful world terms)

theorem succession_faithful (stocked : Stocked w.outside stock) (new : (stock world).pushed = [])
    (pushes : ∀ visits ∈ terms, ∀ f, .meanwhile f ∈ visits → ∀ v, (stock v).Grows (stock (f v))) :
    Always (Faithful stock (stock world).pending) [] (w.succession world terms).moments ∧
      Tidy stock (stock world).pending (books (w.succession world terms).moments)
        (w.succession world terms).world := by
  have start : Keeping stock (stock world).pending (fun _ _ => True) (w.fresh world) := by
    exact fun _ => ⟨.nil, ⟨by simp [new], by simp⟩, trivial⟩
  have kept := (unmoved_keeping stocked).serve terms (fun visits hv f hf s hs =>
    hs.moved (pushes visits hv f hf s.world) fun _ _ => trivial) _ start
  obtain ⟨faithful, tidy, -⟩ := kept succession_handed
  exact ⟨faithful, tidy⟩

section

variable {before after : List (Moment σ)} {x : Moment σ}

theorem removed_accepted (h : (w.succession world terms).moments = before ++ x :: after)
    (hx : x.event = .acknowledged true) :
    ∃ m, (books before).inHand = some m ∧
      (books (before ++ [x])).removed = (books before).removed ++ [m] := by
  obtain ⟨m, hm⟩ := Option.isSome_iff_exists.1 (succession_handed before x after h hx)
  rw [List.nil_append] at hm
  refine ⟨m, hm, ?_⟩
  rw [books_concat, hx, Books.enter, hm]
  rfl

theorem sending_first (faithful : Always (Faithful stock (stock world).pending) []
      (w.succession world terms).moments)
    (h : (w.succession world terms).moments = before ++ x :: after) {e : Endpoint} {m : Message}
    (hx : x.event = .sending e m) :
    ∃ stored rest, (stock x.world).pending = stored :: rest ∧
      m = w.workingCopy (unmarked stored) ∧
      (stock world).pending ++ (stock x.world).pushed =
        (books before).removed ++ stored :: rest ∧
      ∀ older y c, before = older ++ y :: c → y.event = .acknowledged true →
        (books older).removed.length < (books before).removed.length := by
  have same : books (before ++ [x]) = books before := by
    rw [books_concat, hx, Books.enter_of_not_answers rfl]
  obtain ⟨older, start, stored, c, e', split, hs, untouched, sending⟩ :=
    succession_conveyed world terms before x after h (by rw [hx, Event.sends])
  rw [List.nil_append] at split
  have pending : Pending c := fun y hy => ⟨(untouched y hy).1, (untouched y hy).2.1⟩
  have tidy := (faithful before x after h).tidy
  rw [List.nil_append, same] at tidy
  obtain ⟨rest, front⟩ := List.head?_eq_some_iff.1
    (tidy.head stored (by rw [split, books_pending hs pending]; rfl))
  obtain ⟨rfl, rfl⟩ : e = e' ∧ m = w.workingCopy (unmarked stored) := by
    simpa [hx] using sending
  refine ⟨stored, rest, front, rfl, by rw [← tidy.whole, front], ?_⟩
  rintro older y c rfl hy
  have split : (w.succession world terms).moments = older ++ y :: (c ++ x :: after) := by
    simpa using h
  obtain ⟨removed, -, accepted⟩ := removed_accepted split hy
  have le := (prefix_removed (older ++ [y]) c).length_le
  rw [accepted, List.length_append, ← List.append_cons] at le
  exact le

theorem acknowledged_first (faithful : Always (Faithful stock (stock world).pending) []
      (w.succession world terms).moments)
    (h : (w.succession world terms).moments = before ++ x :: after)
    (hx : x.event = .acknowledged true) :
    ∃ older start m c, before = older ++ start :: c ∧ start.event = .received (some m) ∧
      (∀ y ∈ c, y.event.opens = false ∧ y.event.acknowledges = false) ∧
      (∀ y ∈ before.getLast?, (stock y.world).pending.head? = some m) ∧
      (books (before ++ [x])).removed = (books before).removed ++ [m] := by
  obtain ⟨older, y, as, start, m, c, split, -, -, -, hs, pending, -⟩ :=
    succession_lawful world terms before x after h (by rw [hx, Event.acknowledges])
  have whole : before = (older ++ y :: as) ++ start :: c := by simpa using split
  have inHand : (books before).inHand = some m := by rw [whole, books_pending hs pending]
  obtain ⟨m', hm', removed⟩ := removed_accepted h hx
  obtain rfl : m = m' := Option.some.inj (inHand.symm.trans hm')
  refine ⟨_, start, m, c, whole, hs, pending, fun z hz => ?_, removed⟩
  obtain ⟨init, rfl⟩ := List.getLast?_eq_some_iff.1 hz
  exact (faithful init z (x :: after) (by simp [h])).tidy.head m inHand

theorem received_again (faithful : Always (Faithful stock (stock world).pending) []
      (w.succession world terms).moments)
    (h : (w.succession world terms).moments = before ++ x :: after) {r : Option Message}
    (hx : x.event = .received r) {older c : List (Moment σ)} {start : Moment σ} {m : Message}
    (split : before = older ++ start :: c) (hs : start.event = .received (some m))
    (hc : ∀ y ∈ c, y.event ≠ .acknowledged true ∧ ∀ q, y.event ≠ .received q) : r = some m := by
  apply (faithful before x after h).again r hx m
  rw [List.nil_append, split, books_received hs hc]
  rfl

end

/-- The messages of a store are removed in their order, and none of them is lost. -/
structure InOrder (w : Worker σ) (stock : σ → Stock) (world : σ) (s : Site σ) : Prop where
  whole : (books s.moments).removed ++ (stock s.world).pending =
    (stock world).pending ++ (stock s.world).pushed
  always : ∀ before x after, s.moments = before ++ x :: after →
    (books (before ++ [x])).removed ++ (stock x.world).pending =
      (stock world).pending ++ (stock x.world).pushed
  /-- What is sent is the first message that is pending; whatever comes before it has been removed,
  and it comes after all that has been acknowledged. -/
  sent : ∀ before x after e m, s.moments = before ++ x :: after → x.event = .sending e m →
    ∃ stored rest, (stock x.world).pending = stored :: rest ∧
      m = w.workingCopy (unmarked stored) ∧
      (stock world).pending ++ (stock x.world).pushed = (books before).removed ++ stored :: rest ∧
      ∀ older y c, before = older ++ y :: c → y.event = .acknowledged true →
        (books older).removed.length < (books before).removed.length
  acknowledged : ∀ before x after, s.moments = before ++ x :: after →
    x.event = .acknowledged true → ∃ older start m c, before = older ++ start :: c ∧
      start.event = .received (some m) ∧
      (∀ y ∈ c, y.event.opens = false ∧ y.event.acknowledges = false) ∧
      (∀ y ∈ before.getLast?, (stock y.world).pending.head? = some m) ∧
      (books (before ++ [x])).removed = (books before).removed ++ [m]
  fetched : ∀ older start m c x after r, s.moments = older ++ start :: c ++ x :: after →
    start.event = .received (some m) →
    (∀ y ∈ c, y.event ≠ .acknowledged true ∧ ∀ q, y.event ≠ .received q) →
    x.event = .received r → r = some m

/-- Whatever happens to the workers, they deal with the messages of a store in their order and lose
none. -/
theorem nothing_lost (w : Worker σ) (stock : σ → Stock) (world : σ)
    (terms : List (List (Visit σ))) (stocked : Stocked w.outside stock)
    (new : (stock world).pushed = [])
    (pushes : ∀ visits ∈ terms, ∀ f, .meanwhile f ∈ visits → ∀ v, (stock v).Grows (stock (f v))) :
    w.InOrder stock world (w.succession world terms) := by
  obtain ⟨faithful, tidy⟩ := succession_faithful stocked new pushes
  exact
    { whole := tidy.whole
      always := fun before x after h => (faithful before x after h).tidy.whole
      sent := fun _ _ _ _ _ h => sending_first faithful h
      acknowledged := fun _ _ _ h => acknowledged_first faithful h
      fetched := fun _ _ _ _ _ _ _ h hs hc hx => received_again faithful h hx rfl hs hc }

end Worker

structure Shelf where
  stock : Stock
  answers : List Bool

/-- Collaborators with such a shelf. Another message is pushed during every exchange. -/
def Shelf.outside : Outside Shelf where
  ownerName _ := "shelf"
  isDeactivated _ := false
  deactivate v := ⟨.ok (), v, []⟩
  storeName v := ⟨.ok "store", v, []⟩
  createConsumer v := ⟨.ok true, v, []⟩
  receive v := ⟨.ok v.stock.pending.head?, v, []⟩
  acknowledge v := match v.answers with
    | false :: answers => (false, ⟨v.stock, answers⟩)
    | answers => (true, ⟨⟨v.stock.pending.tail, v.stock.pushed⟩, answers.tail⟩)
  isAlive _ := true
  endpoints _ := .ofList [⟨"backend", "there"⟩]
  send _ m v := ⟨⟨.ok none, ⟨⟨v.stock.pending ++ [⟨"2", ∅, .null⟩],
    v.stock.pushed ++ [⟨"2", ∅, .null⟩]⟩, v.answers⟩, []⟩, m⟩
  sequence? _ _ := none
  now _ := 0
  sleep _ _ v := ⟨.ok true, v, []⟩
  interrupt v := v

theorem Shelf.stocked : Stocked Shelf.outside Shelf.stock where
  moves h := by
    cases h with
    | send _ _ v => exact ⟨[⟨"2", ∅, .null⟩], rfl, rfl⟩
    | mediate _ h => cases h
    | _ => exact .refl _
  receive {v m} h := ⟨v.stock, .refl _, by cases h; rfl, .refl _⟩
  accepted {v m rest} front accepted := by
    revert accepted
    simp only [outside]
    split
    · simp
    · simp only [front, List.tail_cons]
      exact fun _ => .refl _
  refused {v} h := by
    revert h
    simp only [outside]
    split
    · exact fun _ => .refl _
    · simp

theorem Worker.nothing_lost_shelf :
    let settings : Settings :=
      { processorName := "shelf", targetEndpoint := "backend", throttle := false }
    let w : Worker Shelf := ⟨settings, Shelf.outside⟩
    let world : Shelf := ⟨⟨[⟨"1", ∅, .null⟩], []⟩, [false]⟩
    let s := w.succession world [[.run 3], [.run 3]]
    Stocked w.outside Shelf.stock ∧ (Shelf.stock world).pushed = [] ∧
      (∀ visits ∈ [[Visit.run 3], [Visit.run 3]], ∀ f, .meanwhile f ∈ visits →
        ∀ v, (Shelf.stock v).Grows (Shelf.stock (f v))) ∧
      tally Event.sends s.moments = 2 ∧ (books s.moments).removed.map Message.id = ["1"] ∧
      s.world.stock.pending.map Message.id = ["2", "2"] ∧
      w.InOrder Shelf.stock world s := by
  refine ⟨Shelf.stocked, rfl, by simp, by decide +kernel, by decide +kernel, by decide +kernel, ?_⟩
  exact nothing_lost _ _ _ _ Shelf.stocked rfl (by simp)

end Courier
