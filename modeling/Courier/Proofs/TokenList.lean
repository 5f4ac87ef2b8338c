import Courier.Proofs.Additions

namespace Courier

namespace Text

theorem items_of_texts {texts : List String} (h : ∀ t ∈ texts, ',' ∉ t.toList) :
    texts.flatMap items = (texts.map trim).filter (· != "") := by
  induction texts with
  | nil => rfl
  | cons t texts ih =>
    obtain ⟨first, rest⟩ := List.forall_mem_cons.1 h
    rw [List.flatMap_cons, items_of_not_mem first, ih rest, List.map_cons, List.filter_cons,
      List.filter_cons]
    split <;> rfl

theorem items_of_texts_iff (texts : List String) :
    texts.flatMap items = (texts.map trim).filter (· != "") ↔ ∀ t ∈ texts, ',' ∉ t.toList := by
  refine ⟨fun same t ht comma => ?_, items_of_texts⟩
  have kept : ',' ∈ (trim t).toList := mem_trim comma (by decide)
  have nonempty : trim t ≠ "" := by
    intro empty
    rw [empty] at kept
    exact absurd kept (by decide)
  have listed : trim t ∈ (texts.map trim).filter (· != "") :=
    List.mem_filter.2 ⟨List.mem_map_of_mem ht, by simpa using nonempty⟩
  obtain ⟨u, -, item⟩ := List.mem_flatMap.1 (same ▸ listed)
  exact (of_mem_items item).2.2 kept

end Text

namespace Configuration

open Document Logged

variable {d d' : Document} {items : List Document} {texts : List String} {i : Nat}

theorem items_of_joinItems (scalars : items.map scalar? = texts.map some) {joined text : String}
    (h : joinItems joined items = .ok text) :
    Text.items text = Text.items joined ++ texts.flatMap Text.items := by
  induction items generalizing joined texts with
  | nil =>
    obtain rfl : texts = [] := by simpa using scalars.symm
    cases h
    simp
  | cons d items ih =>
    cases texts with
    | nil => cases scalars
    | cons t texts =>
      obtain ⟨first, rest⟩ := List.cons.inj scalars
      rw [joinItems, scalar, first] at h
      rw [ih rest h, List.flatMap_cons, ← List.append_assoc]
      congr 1
      split
      next empty =>
        rw [empty, String.empty_append]
        rfl
      next => exact Text.items_append_comma joined t

section Collect

variable {p q : Parameters} {key : String} {before after : List (String × Document)}

theorem collect_of_not_mem (absent : key ∉ after.map Prod.fst) (h : collect p after = .ok q) :
    q[key]? = p[key]? := by
  induction after generalizing p with
  | nil =>
    cases h
    rfl
  | cons e after ih =>
    obtain ⟨ne, absent⟩ := not_or.1 (List.mem_cons.not.1 absent)
    rw [collect, bind_eq_ok] at h
    obtain ⟨text, -, h⟩ := h
    rw [ih absent h, Std.ExtTreeMap.getElem?_insert, if_neg (by simpa using Ne.symm ne)]

theorem collect_last (last : key ∉ after.map Prod.fst)
    (h : collect p (before ++ (key, d) :: after) = .ok q) :
    ∃ text, parameterText key d = .ok text ∧ q[key]? = some text := by
  rw [collect_append, bind_eq_ok] at h
  obtain ⟨p', -, h⟩ := h
  rw [collect, bind_eq_ok] at h
  obtain ⟨text, found, h⟩ := h
  exact ⟨text, found, by rw [collect_of_not_mem last h, Std.ExtTreeMap.getElem?_insert_self]⟩

end Collect

/-- What counts as the non-retry tokens among the parameters of the processor at that place. -/
inductive GivesTokens (d : Document) (i : Nat) (value : Document) : Prop
  | last (before after : List (String × Document)) :
      Parametrised d i (before ++ ("nonRetryStatusCodes", value) :: after) →
      "nonRetryStatusCodes" ∉ after.map Prod.fst → GivesTokens d i value

inductive ListsTokens (d : Document) (i : Nat) (texts : List String) : Prop
  | list {items : List Document} : GivesTokens d i (.list items) →
      items.map scalar? = texts.map some → ListsTokens d i texts

variable {source : Source} {c : Configuration} {value : Document}

theorem tokens_of_load (h : (load source (.ok d)).outcome = .ok c) (given : GivesTokens d i value) :
    ∃ s text, parameterText "nonRetryStatusCodes" value = .ok text ∧ c.processors[i]? = some s ∧
      s.nonRetryTokens = Text.items text := by
  obtain ⟨before, after, given, last⟩ := given
  obtain ⟨p, name, s, storeName, collected, settled, found⟩ := settings_of_load h given
  obtain ⟨text, said, there⟩ := collect_last last collected
  refine ⟨_, text, said, found, ?_⟩
  change s.nonRetryTokens = _
  rw [Parameters.tokens_of_settings settled, Parameters.tokens, there, Option.map_some,
    Option.getD_some]

theorem tokens_of_list (h : (load source (.ok d)).outcome = .ok c)
    (listing : ListsTokens d i texts) :
    ∃ s, c.processors[i]? = some s ∧ s.nonRetryTokens = texts.flatMap Text.items := by
  obtain ⟨given, scalars⟩ := listing
  obtain ⟨s, text, joined, found, tokens⟩ := tokens_of_load h given
  refine ⟨s, found, ?_⟩
  rw [tokens, items_of_joinItems scalars joined]
  rfl

def withTokens (i : Nat) (tokens : List String) (c : Configuration) : Configuration :=
  { c with processors := c.processors.modify i (Settings.withTokens tokens) }

theorem withTokens_of_likewise {c c' : Configuration}
    (h : Likewise (Apart Settings.LikeButTokens i) c c') :
    ∃ tokens, c' = c.withTokens i tokens := by
  obtain ⟨tokens, same⟩ := Settings.modify_of_apart h.processors
  exact ⟨tokens, by rw [h.rest, same, withTokens]⟩

theorem ofDocument_tokens (h : Within "processors" (At i (Within "parameters"
      (Gains Parameters.knownButTokens Plain))) d d') :
    Agrees (Likewise (Apart Settings.LikeButTokens i)) (ofDocument d) (ofDocument d') := by
  have congruent := Settings.congruent_likeButTokens
  refine ofDocument_agree (logging_of_field (field_of_within h (by decide)) _)
    (listed_agree (field_of_within h (by decide)) _) ?_
  refine listed_within (Apart.refl congruent.refl i) h fun v v' here => ?_
  refine each_at here fun p p' block => processor_agree congruent ?_ block
  exact fun name _ _ enlarged => Parameters.settings_agree_tokens enlarged name

/-- A plain value for the non-retry tokens of a processor, such as a list of scalars, is never a
reason not to load, and decides about nothing but the tokens of that processor. Those of a list are
what stands between the commas of its items, in their order, trimmed and without what is empty then;
so they are just the trimmed items where no item has a comma in it, and nowhere else. A text is cut
as the items of a list are. -/
theorem listed_tokens (source : Source) :
    (∀ i d d', Within "processors" (At i (Within "parameters"
        (Gains Parameters.knownButTokens Plain))) d d' →
      Agrees (fun c c' => ∃ tokens, c' = c.withTokens i tokens)
        (load source (.ok d)) (load source (.ok d'))) ∧
    (∀ d c i texts, (load source (.ok d)).outcome = .ok c → ListsTokens d i texts →
      ∃ s, c.processors[i]? = some s ∧ s.nonRetryTokens = texts.flatMap Text.items ∧
        (s.nonRetryTokens = (texts.map Text.trim).filter (· != "") ↔
          ∀ t ∈ texts, ',' ∉ t.toList)) ∧
    ∀ d c i text, (load source (.ok d)).outcome = .ok c → GivesTokens d i (.text text) →
      ∃ s, c.processors[i]? = some s ∧ s.nonRetryTokens = Text.items text := by
  refine ⟨fun i d d' given => ?_, fun d c i texts loaded listing => ?_,
    fun d c i text loaded given => ?_⟩
  · have agree := load_agree (processorsDefects_of_apart Settings.congruent_likeButTokens)
      (ofDocument_tokens given) source
    exact agree.mono fun _ _ => withTokens_of_likewise
  · obtain ⟨s, found, tokens⟩ := tokens_of_list loaded listing
    exact ⟨s, found, tokens, by rw [tokens, Text.items_of_texts_iff]⟩
  · obtain ⟨s, _, said, found, tokens⟩ := tokens_of_load loaded given
    cases said
    exact ⟨s, found, tokens⟩

/-- The processor next to it keeps the tokens it has. -/
theorem listed_tokens_trimmed :
    let document (parameters : List (String × Document)) : Document :=
      .map [("processors", .list [
        .map [("name", .text "p"), ("parameters", .map parameters)],
        .map [("name", .text "q"), ("parameters", .map [("nonRetryStatusCodes", .text "7")])]])]
    let d := document [("interval", .number "50")]
    let d' := document [("interval", .number "50"),
      ("nonRetryStatusCodes", .list [.text " ", .number "400", .text " Connection refused"])]
    let p : Settings := { processorName := "p", pollIntervalMs := 50 }
    let q : Settings := { processorName := "q", nonRetryTokens := ["7"] }
    (load .text (.ok d)).outcome = .ok { processors := [p, q] } ∧
      (load .text (.ok d')).outcome =
        .ok { processors := [{ p with nonRetryTokens := ["400", "Connection refused"] }, q] } ∧
      Warned (load .text (.ok d)).records (load .text (.ok d')).records := by
  intro document d d' p q
  obtain ⟨agreeing, reading, -⟩ := listed_tokens .text
  have given : Within "processors" (At 0 (Within "parameters"
      (Gains Parameters.knownButTokens Plain))) d d' :=
    .entry [] _ (.element [] _ rfl (.entry [_] _ (.entry [_] [] (by decide) (.list (by decide)))))
  have listing : ListsTokens d' 0 [" ", "400", " Connection refused"] :=
    .list (.last [_] [] (.processor rfl rfl rfl) (by decide)) rfl
  have loads : (load .text (.ok d)).outcome = .ok { processors := [p, q] } := by rfl
  obtain ⟨outcome, warned⟩ := agreeing 0 d d' given
  rw [loads] at outcome
  generalize loads' : (load .text (.ok d')).outcome = loaded at outcome ⊢
  cases outcome with
  | ok changed =>
    obtain ⟨tokens, rfl⟩ := changed
    obtain ⟨s, found, -, trimmed⟩ := reading d' _ 0 _ loads' listing
    cases found
    obtain rfl : tokens = ["400", "Connection refused"] := (trimmed.2 (by decide)).trans (by decide)
    exact ⟨loads, rfl, warned⟩

/-- An item with a comma in it comes back as two tokens. -/
theorem listed_tokens_cut :
    let d := lone [("nonRetryStatusCodes", .list [.text "a,b"])]
    ListsTokens d 0 ["a,b"] ∧ ∃ c s, (load .text (.ok d)).outcome = .ok c ∧
      c.processors[0]? = some s ∧ s.nonRetryTokens = ["a", "b"] ∧
      s.nonRetryTokens ≠ (["a,b"].map Text.trim).filter (· != "") := by
  intro d
  refine ⟨.list (.last [] [] (.processor rfl rfl rfl) (by decide)) rfl, ?_⟩
  exact ⟨_, { processorName := "p", nonRetryTokens := ["a", "b"] }, by rfl, rfl, rfl, by decide⟩

end Configuration

end Courier
