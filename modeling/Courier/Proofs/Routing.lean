import Courier.Proofs.Defects
import Courier.Proofs.Ledger
import Courier.Proofs.Likeness
import Courier.Proofs.Succession

namespace Courier

namespace Endpoint.Registry

variable {es es' : List Endpoint} {name : String}

theorem ofList_concat (es : List Endpoint) (e : Endpoint) :
    ofList (es ++ [e]) = (ofList es).add e := by
  rw [ofList, ofList, List.foldl_append, List.foldl_cons, List.foldl_nil]

theorem resolve_ofList (es : List Endpoint) (name : String) :
    (ofList es).resolve name = es.reverse.find? (·.name = name) := by
  induction es using List.reverseRecOn with
  | nil => rfl
  | append_singleton es e ih =>
    rw [ofList_concat, resolve_add, ih, List.reverse_concat, List.find?_cons]
    by_cases same : e.name = name <;> simp [same]

theorem resolve_of_mem (distinct : (es.map Endpoint.name).Nodup) {e : Endpoint} (h : e ∈ es) :
    (ofList es).resolve e.name = some e := by
  induction es using List.reverseRecOn with
  | nil => cases h
  | append_singleton es f ih =>
    rw [List.map_append, List.nodup_append] at distinct
    obtain ⟨before, -, apart⟩ := distinct
    rw [ofList_concat, resolve_add]
    rcases List.mem_append.1 h with h | h
    · rw [if_neg (apart e.name (List.mem_map_of_mem h) f.name (by simp)).symm, ih before h]
    · rw [List.mem_singleton.1 h, if_pos rfl]

theorem mem_of_resolve {e : Endpoint} (h : (ofList es).resolve name = some e) :
    e ∈ es ∧ e.name = name := by
  rw [resolve_ofList] at h
  exact ⟨List.mem_reverse.1 (List.mem_of_find?_eq_some h), by simpa using List.find?_some h⟩

theorem resolve_eq_none_iff : (ofList es).resolve name = none ↔ name ∉ es.map Endpoint.name := by
  rw [resolve_ofList, List.find?_eq_none]
  simp

theorem size_ofList (distinct : (es.map Endpoint.name).Nodup) :
    (ofList es).size = es.length := by
  induction es using List.reverseRecOn with
  | nil => rfl
  | append_singleton es e ih =>
    rw [List.map_append, List.nodup_append] at distinct
    obtain ⟨before, -, apart⟩ := distinct
    have new : e.name ∉ es.map Endpoint.name := fun h => apart e.name h e.name (by simp) rfl
    have unnamed : (ofList es)[e.name]? = none := resolve_eq_none_iff.2 new
    have absent : Std.ExtTreeMap.contains (ofList es) e.name = false := by
      rw [Std.ExtTreeMap.contains_eq_isSome_getElem?, unnamed, Option.isSome_none]
    rw [ofList_concat, add, Std.ExtTreeMap.size_insert, absent, if_neg Bool.false_ne_true,
      ih before, List.length_append, List.length_singleton]

theorem ofList_perm (distinct : (es.map Endpoint.name).Nodup) (h : es'.Perm es) :
    ofList es' = ofList es := by
  apply Std.ExtTreeMap.ext_getElem?
  intro name
  change (ofList es').resolve name = (ofList es).resolve name
  by_cases listed : name ∈ es.map Endpoint.name
  · obtain ⟨e, he, rfl⟩ := List.mem_map.1 listed
    have distinct' := ((h.map Endpoint.name).nodup_iff).2 distinct
    rw [resolve_of_mem distinct he, resolve_of_mem distinct' (h.mem_iff.2 he)]
  · rw [resolve_eq_none_iff.2 listed,
      resolve_eq_none_iff.2 fun listed' => listed ((h.map _).mem_iff.1 listed')]

end Endpoint.Registry

variable {σ : Type}

namespace Worker

open Site (Enters)

variable {w : Worker σ} {stored : Message} {s s' : Site σ} {ms : List (Moment σ)} {r : Ending Unit}

theorem targetName_unmarked (w : Worker σ) (m : Message) :
    w.targetName (unmarked m) = w.targetName m := by
  have other : (unmarked m).property Property.targetEndpoint =
      m.property Property.targetEndpoint := by
    rw [Message.property, Message.property, unmarked, Message.property?_removeProperty,
      if_neg (by decide)]
  rw [targetName, targetName, other]

/-- What becomes of a message, as there is an endpoint to send it to or none. -/
inductive Routed (w : Worker σ) (stored : Message) (s s' : Site σ) (ms : List (Moment σ)) : Prop
  | unsent {x} : ms.head? = some x → w.target? stored x.world = none →
      tally Event.sends ms = 0 → tally Event.acknowledges ms = 1 →
      s'.counters.value Counter.undeliverable = s.counters.value Counter.undeliverable + 1 →
      Routed w stored s s' ms
  | sent {x e} : ms.head? = some x → w.target? stored x.world = some e →
      s'.counters.value Counter.undeliverable = s.counters.value Counter.undeliverable →
      Routed w stored s s' ms

theorem Tries.undeliverable {e : Endpoint} {ts : List (Try σ)} (h : w.Tries e stored ts s s' r) :
    s'.counters.value Counter.undeliverable = s.counters.value Counter.undeliverable := by
  have none : Counter.undeliverable ∉ ts.flatMap Try.entries := by
    intro counted
    obtain ⟨⟨finding, found, aftermath⟩, -, counted⟩ := List.mem_flatMap.1 counted
    cases finding <;> simp [Try.entries, blamed, Finding.entries, Counter.undeliverable,
      Counter.failures, Counter.delivered, Counter.nonRetry, Counter.dropped] at counted
  rw [h.entered Counter.undeliverable (by decide), List.count_eq_zero.2 none]
  exact Int.add_zero _

theorem Forwarded.routed (h : w.Forwarded stored s s' ms r) : w.Routed stored s s' ms := by
  cases h with
  | untargeted hx target hxs hy hys _ entered =>
    exact .unsent rfl target (tally_untargeted Event.sober_sends hx hxs hy hys)
      (tally_untargeted Event.sober_acknowledges hx hxs hy hys)
      (entered Counter.undeliverable (by decide))
  | targeted _ target _ _ entered tries =>
    refine .sent rfl target ?_
    rw [tries.undeliverable, entered Counter.undeliverable (by decide)]
    exact Int.add_zero _

theorem Routed.append {t : Site σ} {ns : List (Moment σ)} (h : w.Routed stored s s' ms)
    (staged : Staged .retirement ns) (entered : Enters [] s' t) :
    w.Routed stored s t (ms ++ ns) := by
  have sends : tally Event.sends ns = 0 := staged.tally Event.within_sends (by decide)
  have acknowledges : tally Event.acknowledges ns = 0 :=
    staged.tally Event.within_acknowledges (by decide)
  have counted : t.counters.value Counter.undeliverable =
      s'.counters.value Counter.undeliverable := by
    rw [entered Counter.undeliverable (by decide)]
    exact Int.add_zero _
  cases h with
  | unsent head target quiet once count =>
    exact .unsent (by rw [List.head?_append, head]; rfl) target
      (by rw [tally_append, quiet, sends]) (by rw [tally_append, once, acknowledges])
      (counted.trans count)
  | sent head target count =>
    exact .sent (by rw [List.head?_append, head]; rfl) target (counted.trans count)

theorem Cycled.routed (h : w.Cycled stored s s' ms r) : w.Routed stored s s' ms := by
  cases h with
  | forwarded h => exact h.routed
  | givenUp h given => exact h.routed.append given.staged given.entered

section History

variable {es : List Endpoint} {x : Moment σ} {a : Site σ}

theorem target?_eq_none_iff (h : w.outside.endpoints x.world = .ofList es) (m : Message) :
    w.target? (unmarked m) x.world = none ↔
      w.targetName m = "" ∨ w.targetName m ∉ es.map Endpoint.name := by
  rw [target?, targetName_unmarked, h]
  split
  case isTrue unnamed => simp [unnamed]
  case isFalse named => rw [Endpoint.Registry.resolve_eq_none_iff, or_iff_right named]

theorem of_target? (h : w.outside.endpoints x.world = .ofList es) {m : Message} {e : Endpoint}
    (target : w.target? (unmarked m) x.world = some e) : e ∈ es ∧ e.name = w.targetName m := by
  rw [target?, targetName_unmarked, h] at target
  split at target
  · cases target
  · exact Endpoint.Registry.mem_of_resolve target

/-- Whether a message comes in whose target none of the endpoints has for a name. -/
def strands (w : Worker σ) (es : List Endpoint) : Event → Bool
  | .received (some m) => w.targetName m = "" ∨ w.targetName m ∉ es.map Endpoint.name
  | _ => false

theorem strands_iff {e : Event} : w.strands es e = true ↔ ∃ m, e = .received (some m) ∧
    (w.targetName m = "" ∨ w.targetName m ∉ es.map Endpoint.name) := by
  constructor
  · intro h
    unfold strands at h
    split at h
    · exact ⟨_, rfl, of_decide_eq_true h⟩
    · cases h
  · rintro ⟨m, rfl, stranded⟩
    exact decide_eq_true stranded

theorem within_strands (w : Worker σ) (es : List Endpoint) :
    Event.Within .opening (w.strands es) := by
  intro e h
  obtain ⟨m, rfl, -⟩ := strands_iff.1 h
  rfl

theorem not_strands_of_idle {e : Event} (h : e.idle = true) : w.strands es e = false := by
  rw [← Bool.not_eq_true, strands_iff]
  rintro ⟨m, rfl, -⟩
  cases h

theorem Routed.undeliverable {m : Message} (h : w.Routed (unmarked m) s s' ms)
    (endpoints : ∀ x ∈ ms, w.outside.endpoints x.world = .ofList es) :
    s'.counters.value Counter.undeliverable = s.counters.value Counter.undeliverable +
      (w.strands es (.received (some m))).toNat := by
  cases h with
  | unsent head target _ _ count =>
    have stranded := (target?_eq_none_iff (endpoints _ (List.mem_of_mem_head? head)) m).1 target
    rw [count, strands, decide_eq_true stranded]
    rfl
  | sent head target count =>
    have known := (target?_eq_none_iff (endpoints _ (List.mem_of_mem_head? head)) m).not.1
      (by rw [target]; exact Option.some_ne_none _)
    rw [count, strands, decide_eq_false known]
    exact (Int.add_zero _).symm

theorem Taken.undeliverable {m : Message} {t : Site σ} {xs : List (Moment σ)} {start : Moment σ}
    (h : w.Taken m s t s' xs start ms r)
    (endpoints : ∀ x ∈ ms, w.outside.endpoints x.world = .ofList es) :
    s'.counters.value Counter.undeliverable = s.counters.value Counter.undeliverable +
      tally (w.strands es) (xs ++ start :: ms) := by
  have fetched : (t.counted Counter.fetched).counters.value Counter.undeliverable =
      s.counters.value Counter.undeliverable := by
    rw [Site.counters_counted, Counters.count, Counters.value_add, if_neg (by decide),
      h.fetched.counters]
    exact Int.add_zero _
  have quiet : tally (w.strands es) ms = 0 :=
    h.cycled.tally_of_precedes (w.within_strands es) rfl
  rw [h.cycled.routed.undeliverable endpoints, fetched, tally_append, tally_cons, h.received, quiet,
    h.idle.tally_eq_zero fun _ => not_strands_of_idle, Nat.zero_add, Nat.add_zero]

theorem Passed.undeliverable {complete : Bool} (h : Passed w a complete s) (es : List Endpoint) :
    ∃ ms, s.moments = a.moments ++ ms ∧
      ((∀ x ∈ ms, w.outside.endpoints x.world = .ofList es) →
        s.counters.value Counter.undeliverable =
          a.counters.value Counter.undeliverable + tally (w.strands es) ms) := by
  induction h with
  | begun => exact ⟨[], by simp, fun _ => (Int.add_zero _).symm⟩
  | idle _ steady idle entered ih =>
    obtain ⟨ms, moments, counted⟩ := ih
    refine ⟨_, by rw [steady.moments, moments, List.append_assoc], fun endpoints => ?_⟩
    rw [entered Counter.undeliverable (by decide),
      counted fun x hx => endpoints x (List.mem_append_left _ hx), tally_append,
      idle.tally_eq_zero fun _ => not_strands_of_idle]
    exact Int.add_zero _
  | reset _ _ ih => exact ih
  | @cycle s t m fuel _ _ running receive ih =>
    obtain ⟨ms, moments, counted⟩ := ih
    obtain ⟨s', xs, start, ns, r, cycle, taken⟩ := w.taken_spec fuel running receive
    rw [cycle]
    refine ⟨_, by rw [taken.grows.moments, moments, List.append_assoc], fun endpoints => ?_⟩
    rw [taken.undeliverable fun x hx => endpoints x (by simp [hx]),
      counted fun x hx => endpoints x (List.mem_append_left _ hx), Int.add_assoc,
      ← Int.natCast_add, ← tally_append]
  | cut _ ih => exact ih

theorem Reached.sent_to_target {world : σ} (h : Reached w (w.fresh world) s)
    (endpoints : ∀ x ∈ s.moments, w.outside.endpoints x.world = .ofList es)
    {before after : List (Moment σ)} (split : s.moments = before ++ x :: after) {e : Endpoint}
    {n : Message} (sending : x.event = .sending e n) :
    ∃ earlier start mid m, before = earlier ++ start :: mid ∧
      start.event = .received (some m) ∧ (∀ y ∈ mid, y.event.opens = false) ∧
      e ∈ es ∧ e.name = w.targetName m := by
  have sends : x.event.sends = true := by rw [sending, Event.sends]
  obtain ⟨earlier, start, m, mid, -, rfl, received, untouched, -⟩ :=
    h.conveyed .nil before x after split sends
  have closed : ∀ y ∈ mid, y.event.opens = false := fun y hy => (untouched y hy).1
  rw [List.append_assoc, List.cons_append] at split
  have same : x ∈ sameCycle (mid ++ x :: after) := by
    rw [sameCycle, List.takeWhile_append_of_pos (by simpa using closed), List.takeWhile_cons,
      if_pos (by simp [sending, Event.opens])]
    simp
  obtain ⟨body, tail, whole, oneTarget, idle⟩ :=
    h.eachCycle (P := fun m ms => w.OneTarget (unmarked m) ms) (fun cycled _ => cycled.oneTarget)
      earlier start m _ split received
  obtain ⟨first, e', head, target, sending'⟩ :=
    oneTarget.append idle.sends x (whole ▸ same) sends
  obtain ⟨rfl, -⟩ := Event.sending.inj (sending.symm.trans sending')
  have mem : first ∈ s.moments := by
    have := (List.takeWhile_sublist _).mem (whole ▸ List.mem_of_mem_head? head)
    rw [split]
    exact List.mem_append_right _ (List.mem_cons_of_mem _ this)
  exact ⟨earlier, start, mid, m, rfl, received, closed, of_target? (endpoints first mem) target⟩

theorem Reached.stranded_unsent {world : σ} (h : Reached w (w.fresh world) s)
    (endpoints : ∀ x ∈ s.moments, w.outside.endpoints x.world = .ofList es)
    {before rest : List (Moment σ)} {m : Message} (split : s.moments = before ++ x :: rest)
    (received : x.event = .received (some m))
    (stranded : w.targetName m = "" ∨ w.targetName m ∉ es.map Endpoint.name) :
    tally Event.sends (sameCycle rest) = 0 ∧ tally Event.acknowledges (sameCycle rest) = 1 := by
  have each := h.eachCycle (P := fun m ms => ∃ a b, w.Routed (unmarked m) a b ms)
    fun cycled _ => ⟨_, _, cycled.routed⟩
  obtain ⟨body, tail, whole, ⟨a, b, routed⟩, idle⟩ := each before x m rest split received
  have within : ∀ y ∈ body, y ∈ s.moments := by
    intro y hy
    have : y ∈ rest := (List.takeWhile_sublist _).mem (whole ▸ List.mem_append_left _ hy)
    simp [split, this]
  rw [whole, tally_append, tally_append, idle.sends,
    idle.tally_eq_zero fun _ => not_acknowledges_of_idle]
  cases routed with
  | unsent _ _ quiet once _ => exact ⟨quiet, once⟩
  | sent head target _ =>
    have none := (target?_eq_none_iff
      (endpoints _ (within _ (List.mem_of_mem_head? head))) m).2 stranded
    rw [none] at target
    cases target

end History

end Worker

namespace Configuration

variable {c : Configuration}

theorem wellFormed_of_accepted (h : c.validate.outcome = .ok ()) : c.WellFormed := by
  have none : c.defects = [] := by
    by_contra some
    rw [validate_rejected some] at h
    cases h
  exact (none ▸ c.fullReport).wellFormed

open Worker

/-- The endpoints of an accepted configuration are found by their names, each of them and nothing
else, whatever their order. A worker among these endpoints sends a message to the one that the
message's target names. A message whose target names none of them is not sent but removed, once,
and the messages removed in this way are counted. -/
theorem endpoints_resolve (accepted : c.validate.outcome = .ok ()) :
    let names := c.endpoints.map Endpoint.name
    let registry := Endpoint.Registry.ofList c.endpoints
    registry.size = c.endpoints.length ∧
    (∀ e ∈ c.endpoints, registry.resolve e.name = some e) ∧
    (∀ name ∉ names, registry.resolve name = none) ∧
    (∀ es, es.Perm c.endpoints → ∀ name,
      (Endpoint.Registry.ofList es).resolve name = registry.resolve name) ∧
    ∀ (w : Worker σ) world visits,
      (∀ x ∈ (w.history world visits).moments, w.outside.endpoints x.world = registry) →
      (∀ before x after e n, (w.history world visits).moments = before ++ x :: after →
        x.event = .sending e n → ∃ earlier start mid m, before = earlier ++ start :: mid ∧
          start.event = .received (some m) ∧ (∀ y ∈ mid, y.event.opens = false) ∧
          e ∈ c.endpoints ∧ e.name = w.targetName m) ∧
      (∀ before start m rest, (w.history world visits).moments = before ++ start :: rest →
        start.event = .received (some m) → w.targetName m = "" ∨ w.targetName m ∉ names →
        tally Event.sends (sameCycle rest) = 0 ∧ tally Event.acknowledges (sameCycle rest) = 1) ∧
      (w.history world visits).counters.value Counter.undeliverable =
        tally (w.strands c.endpoints) (w.history world visits).moments := by
  intro names registry
  have distinct := (wellFormed_of_accepted accepted).endpointsDistinct
  refine ⟨Endpoint.Registry.size_ofList distinct,
    fun e he => Endpoint.Registry.resolve_of_mem distinct he,
    fun name unlisted => Endpoint.Registry.resolve_eq_none_iff.2 unlisted,
    fun es perm name => by rw [Endpoint.Registry.ofList_perm distinct perm],
    fun w world visits endpoints => ⟨?_, ?_, ?_⟩⟩
  · intro before x after e n split sending
    exact (w.reached_history world visits).sent_to_target endpoints split sending
  · intro before start m rest split received stranded
    exact (w.reached_history world visits).stranded_unsent endpoints split received stranded
  · obtain ⟨ms, moments, counted⟩ :=
      (w.passed_history world visits).undeliverable c.endpoints
    rw [moments_fresh, List.nil_append] at moments
    rw [counted (moments ▸ endpoints), value_fresh, moments]
    exact Int.zero_add _

theorem endpoints_resolve_pair :
    let c : Configuration := { endpoints := [⟨"backend", "there"⟩, ⟨"archive", "here"⟩] }
    let registry := Endpoint.Registry.ofList c.endpoints
    let w : Worker (List Message) := { plain { throttle := false } (.ok none) with
      outside := { Outside.plain (.ok none) [] with endpoints _ := registry } }
    let message := Message.setProperty ⟨"1", ∅, .null⟩ Property.targetEndpoint
    let s := w.history [message "nowhere", message "archive"] [.run 2, .run 2]
    c.validate.outcome = .ok () ∧ registry.size = 2 ∧
    registry.resolve "archive" = some ⟨"archive", "here"⟩ ∧ registry.resolve "nowhere" = none ∧
    (Endpoint.Registry.ofList c.endpoints.reverse).resolve "archive" = registry.resolve "archive" ∧
    (∀ x ∈ s.moments, w.outside.endpoints x.world = registry) ∧
    (∃ before x after e n, s.moments = before ++ x :: after ∧ x.event = .sending e n ∧
      ∃ earlier start mid m, before = earlier ++ start :: mid ∧
        start.event = .received (some m) ∧ (∀ y ∈ mid, y.event.opens = false) ∧
        e ∈ c.endpoints ∧ e.name = w.targetName m) ∧
    (∃ before start m rest, s.moments = before ++ start :: rest ∧
      start.event = .received (some m) ∧
      (w.targetName m = "" ∨ w.targetName m ∉ c.endpoints.map Endpoint.name) ∧
      tally Event.sends (sameCycle rest) = 0 ∧ tally Event.acknowledges (sameCycle rest) = 1) ∧
    s.counters.value Counter.undeliverable = 1 := by
  intro c registry w message s
  have accepted : c.validate.outcome = .ok () := by decide +kernel
  obtain ⟨size, found, lost, order, runs⟩ := endpoints_resolve (σ := List Message) accepted
  obtain ⟨sent, removed, counted⟩ := runs w [message "nowhere", message "archive"]
    [.run 2, .run 2] fun _ _ => rfl
  obtain ⟨x, hx, sends⟩ : ∃ x ∈ s.moments, x.event.sends = true := by decide +kernel
  obtain ⟨before, after, split⟩ := List.append_of_mem hx
  obtain ⟨_, _, _, _, e, _, _, _, sending⟩ :=
    (w.reached_history _ _).conveyed .nil before x after split sends
  obtain ⟨start, hs, strands⟩ : ∃ x ∈ s.moments, w.strands c.endpoints x.event = true := by
    decide +kernel
  obtain ⟨m, received, stranded⟩ := strands_iff.1 strands
  obtain ⟨before', rest, split'⟩ := List.append_of_mem hs
  have one : tally (w.strands c.endpoints) s.moments = 1 := by decide +kernel
  exact ⟨accepted, size, found ⟨"archive", "here"⟩ (by decide), lost "nowhere" (by decide),
    order _ (List.reverse_perm _) _, fun _ _ => rfl,
    ⟨before, x, after, e, _, split, sending, sent before x after e _ split sending⟩,
    ⟨before', start, m, rest, split', received, stranded,
      removed before' start m rest split' received stranded⟩,
    counted.trans (congrArg Nat.cast one)⟩

end Configuration

end Courier
