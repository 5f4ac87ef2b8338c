import Courier.Proofs.Agreement
import Mathlib.Data.List.Forall2

namespace Courier

namespace Document

inductive Plain : Document → Prop
  | scalar {d : Document} : d.scalar?.isSome → Plain d
  | list {items : List Document} : (∀ d ∈ items, d.scalar?.isSome) → Plain (.list items)

/-- The second document is a map with one entry more than the first one, under a new key. To begin
with there may be nothing but an empty block. -/
inductive Gains (keys : List String) (fits : Document → Prop) : Document → Document → Prop
  | first {key : String} {value : Document} : key ∉ keys → fits value →
      Gains keys fits .null (.map [(key, value)])
  | entry (before after : List (String × Document)) {key : String} {value : Document} :
      key ∉ keys → fits value →
      Gains keys fits (.map (before ++ after)) (.map (before ++ (key, value) :: after))

inductive Within (key : String) (R : Document → Document → Prop) : Document → Document → Prop
  | entry (before after : List (String × Document)) {d d' : Document} : R d d' →
      Within key R (.map (before ++ (key, d) :: after)) (.map (before ++ (key, d') :: after))

inductive Among (R : Document → Document → Prop) : Document → Document → Prop
  | element (before after : List Document) {d d' : Document} : R d d' →
      Among R (.list (before ++ d :: after)) (.list (before ++ d' :: after))

inductive At (i : Nat) (R : Document → Document → Prop) : Document → Document → Prop
  | element (before after : List Document) {d d' : Document} : before.length = i → R d d' →
      At i R (.list (before ++ d :: after)) (.list (before ++ d' :: after))

end Document

namespace Settings

structure Congruent (Q : Settings → Settings → Prop) : Prop where
  refl : ∀ s, Q s s
  store : ∀ {s s'}, Q s s' → s'.storeName = s.storeName
  stored : ∀ {s s'}, Q s s' → ∀ storeName, Q { s with storeName } { s' with storeName }
  name : ∀ {s s'}, Q s s' → s'.processorName = s.processorName
  defects : ∀ {s s'}, Q s s' → s'.defects = s.defects

theorem congruent_eq : Congruent Eq where
  refl _ := rfl
  store h := by rw [h]
  stored h storeName := by rw [h]
  name h := by rw [h]
  defects h := by rw [h]

theorem congruent_likeButTokens : Congruent LikeButTokens where
  refl _ := rfl
  store h := by
    rw [h]
    rfl
  stored h storeName := by
    rw [h]
    rfl
  name h := by
    rw [h]
    rfl
  defects h := by
    rw [h]
    rfl

end Settings

namespace Configuration

open Document Logged

variable {keys : List String} {fits : Document → Prop} {R : Document → Document → Prop}
  {key other : String} {d d' : Document}

/-! ## Looking up a key -/

theorem lookup_append_of_ne (before after : List (String × Document)) (ne : other ≠ key)
    (d : Document) :
    (before ++ (key, d) :: after).lookup other = (before ++ after).lookup other := by
  have different : (other == key) = false := by simpa using ne
  rw [List.lookup_append, List.lookup_append, List.lookup_cons, different]

theorem field_of_gains (h : Gains keys fits d d') (asked : other ∈ keys) :
    field other d' = field other d := by
  have ne {key : String} (new : key ∉ keys) : other ≠ key := by
    rintro rfl
    exact new asked
  cases h with
  | first new _ => exact congrArg Except.ok (lookup_append_of_ne [] [] (ne new) _)
  | entry before after new _ => rw [field, field, lookup_append_of_ne before after (ne new)]

theorem field_of_within (h : Within key R d d') (ne : other ≠ key) :
    field other d' = field other d := by
  obtain ⟨before, after, -⟩ := h
  rw [field, field, lookup_append_of_ne before after ne, lookup_append_of_ne before after ne]

theorem field_within (h : Within key R d d') : field key d' = field key d ∨
    ∃ v v', R v v' ∧ field key d = .ok (some v) ∧ field key d' = .ok (some v') := by
  obtain @⟨before, after, v, v', related⟩ := h
  simp only [field, List.lookup_append, List.lookup_cons_self]
  cases before.lookup key with
  | some hidden => exact .inl rfl
  | none => exact .inr ⟨v, v', related, rfl, rfl⟩

/-! ## Reading lists -/

section Listed

variable {α : Type} {Q : α → α → Prop} {S : List α → List α → Prop}
  {read : Document → Logged LoadError α} {i : Nat}

theorem each_at (h : At i R d d') (reads : ∀ e e', R e e' → Agrees Q (read e) (read e')) :
    Agrees (Apart Q i) (each read d) (each read d') := by
  obtain ⟨before, after, rfl, related⟩ := h
  refine .mapM (.element (Q := fun e e' => Agrees Q (read e) (read e')) ?_ before after)
  exact reads _ _ related

theorem each_among (h : Among R d d') (reads : ∀ e e', R e e' → Agrees Eq (read e) (read e')) :
    Agrees Eq (each read d) (each read d') := by
  obtain ⟨before, after, related⟩ := h
  exact (each_at (.element before after rfl related) reads).mono fun _ _ apart => apart.eq.symm

theorem listed_of_field (h : field key d' = field key d) (read : Document → Logged LoadError α) :
    listed key read d' = listed key read d := by
  rw [listed, listed, h]

theorem listed_within (refl : ∀ as, S as as) (h : Within key R d d')
    (reads : ∀ v v', R v v' → Agrees S (each read v) (each read v')) :
    Agrees S (listed key read d) (listed key read d') := by
  rcases field_within h with same | ⟨v, v', related, found, found'⟩
  · rw [listed_of_field same]
    exact .refl refl _
  · rw [listed, listed, found, found']
    exact reads v v' related

end Listed

/-! ## Reading a processor -/

theorem collect_append (p : Parameters) (es fs : List (String × Document)) :
    collect p (es ++ fs) = collect p es >>= fun q => collect q fs := by
  induction es generalizing p with
  | nil => rfl
  | cons e es ih =>
    rw [List.cons_append, collect, collect]
    cases parameterText e.1 e.2 with
    | error e => rfl
    | ok text => exact ih _

theorem collect_enlarged {p q : Parameters} (h : p.Enlarged keys q)
    (es : List (String × Document)) :
    Matches (Parameters.Enlarged keys) (collect p es) (collect q es) := by
  induction es generalizing p q with
  | nil => exact .ok h
  | cons e es ih =>
    rw [collect, collect]
    cases parameterText e.1 e.2 with
    | error e => exact .error e
    | ok text => exact ih (h.insert_both _ _)

theorem joinItems_ok_iff {items : List Document} {joined : String} :
    (∃ text, joinItems joined items = .ok text) ↔ ∀ d ∈ items, d.scalar?.isSome := by
  induction items generalizing joined with
  | nil => simp [joinItems]
  | cons d items ih =>
    rw [List.forall_mem_cons, joinItems, scalar]
    cases d.scalar? with
    | none => exact ⟨by rintro ⟨_, ⟨⟩⟩, by rintro ⟨⟨⟩, _⟩⟩
    | some item => exact ih.trans (by simp)

theorem parameterText_ok_iff : (∃ text, parameterText key d = .ok text) ↔ Plain d := by
  constructor
  · rintro ⟨text, found⟩
    cases d with
    | null => cases found
    | map entries => cases found
    | list items => exact .list (joinItems_ok_iff.1 ⟨text, found⟩)
    | flag value => exact .scalar (by cases value <;> rfl)
    | number literal => exact .scalar rfl
    | text value => exact .scalar rfl
  · rintro (some | all)
    · obtain ⟨text, found⟩ := Option.isSome_iff_exists.1 some
      cases d <;> simp_all [parameterText, scalar, scalar?]
    · exact joinItems_ok_iff.2 all

theorem collect_gains (new : key ∉ keys) (plain : Plain d) (p : Parameters)
    (before after : List (String × Document)) :
    Matches (Parameters.Enlarged keys) (collect p (before ++ after))
      (collect p (before ++ (key, d) :: after)) := by
  obtain ⟨text, found⟩ := parameterText_ok_iff.2 plain
  rw [collect_append, collect_append]
  refine Matches.after (collect p before) fun q => ?_
  rw [collect, found]
  exact collect_enlarged ((Parameters.Enlarged.refl keys q).insert new text) after

theorem parameters_agree (h : Within "parameters" (Gains keys Plain) d d') :
    Matches (Parameters.Enlarged keys) (field "parameters" d >>= parameters)
      (field "parameters" d' >>= parameters) := by
  rcases field_within h with same | ⟨v, v', gains, found, found'⟩
  · rw [same]
    exact .refl (Parameters.Enlarged.refl keys) _
  · rw [found, found']
    cases gains with
    | first new plain => exact collect_gains new plain ∅ [] []
    | entry before after new plain => exact collect_gains new plain ∅ before after

theorem fieldOr_congr {α : Type} {absent : α} {read : Document → Except LoadError α}
    (h : field key d' = field key d) : fieldOr absent read key d' = fieldOr absent read key d := by
  rw [fieldOr, fieldOr, h]

theorem processor_agree {Q : Settings → Settings → Prop} (congruent : Settings.Congruent Q)
    (reads : ∀ name {p q : Parameters}, p.Enlarged keys q →
      Agrees Q (p.settings name) (q.settings name))
    (h : Within "parameters" (Gains keys Plain) d d') : Agrees Q (processor d) (processor d') := by
  have named : fieldOr "" scalar "name" d' = fieldOr "" scalar "name" d :=
    fieldOr_congr (field_of_within h (by decide))
  rw [processor, processor, named]
  refine Agrees.after _ fun name => ?_
  refine Agrees.bind (.ofExcept (parameters_agree h)) fun p q enlarged => ?_
  refine Agrees.bind ((reads name enlarged).mapError _) fun s s' related => ?_
  have stored : fieldOr s'.storeName scalar "store" d' = fieldOr s.storeName scalar "store" d := by
    rw [congruent.store related, fieldOr_congr (field_of_within h (by decide))]
  rw [stored]
  exact Agrees.after _ fun store => .pure (congruent.stored related store)

/-! ## Loading -/

structure Likewise (S : List Settings → List Settings → Prop) (c c' : Configuration) : Prop where
  rest : c' = { c with processors := c'.processors }
  processors : S c.processors c'.processors

section Load

variable {S : List Settings → List Settings → Prop}

theorem ofDocument_agree (logged : logging d' {} = logging d {})
    (endpoints : Agrees Eq (listed "endpoints" (fun e => .ofExcept (endpoint e)) d)
      (listed "endpoints" (fun e => .ofExcept (endpoint e)) d'))
    (processors : Agrees S (listed "processors" processor d) (listed "processors" processor d')) :
    Agrees (Likewise S) (ofDocument d) (ofDocument d') := by
  rw [ofDocument, ofDocument, logged]
  refine Agrees.after _ fun c => endpoints.bind fun es es' same => ?_
  subst same
  exact processors.bind fun ss ss' related => .pure ⟨rfl, related⟩

theorem processorsDefects_of_apart {Q : Settings → Settings → Prop}
    (congruent : Settings.Congruent Q) {i : Nat} {ss ss' : List Settings} (h : Apart Q i ss ss')
    (seen : List String) : processorsDefects seen ss' = processorsDefects seen ss := by
  induction h generalizing seen with
  | beyond => rfl
  | here ss related =>
    rw [processorsDefects, processorsDefects, processorDefects, processorDefects,
      congruent.name related, congruent.defects related]
  | there s _ ih => rw [processorsDefects, processorsDefects, ih]

theorem validate_congr
    (alike : ∀ {ss ss'}, S ss ss' → ∀ seen, processorsDefects seen ss' = processorsDefects seen ss)
    {c c' : Configuration} (h : Likewise S c c') : c'.validate = c.validate := by
  have same : c'.defects = c.defects := by
    rw [h.rest, defects, alike h.processors]
    rfl
  rw [validate, validate, same]

theorem reported_agree {α : Type} {Q : α → α → Prop} {x y : Logged LoadError α} (h : Agrees Q x y)
    (source : Source) : Agrees Q (reported source x) (reported source y) := by
  obtain ⟨rs, outcome⟩ := x
  obtain ⟨rs', outcome'⟩ := y
  obtain ⟨matching, records⟩ := h
  cases matching with
  | ok related => exact ⟨.ok related, records⟩
  | error e => exact ⟨.error e, records.append (.refl _)⟩

theorem load_agree
    (alike : ∀ {ss ss'}, S ss ss' → ∀ seen, processorsDefects seen ss' = processorsDefects seen ss)
    (h : Agrees (Likewise S) (ofDocument d) (ofDocument d')) (source : Source) :
    Agrees (Likewise S) (load source (.ok d)) (load source (.ok d')) := by
  rw [load_eq, load_eq]
  refine (reported_agree h source).bind fun c c' likewise => ?_
  rw [validate_congr alike likewise]
  exact Agrees.after _ fun _ => .pure likewise

end Load

/-! ## What has been loaded -/

section Loaded

variable {source : Source} {c : Configuration} {i : Nat} {entries : List (String × Document)}

theorem plain_of_collect {p q : Parameters} (h : collect p entries = .ok q) :
    ∀ e ∈ entries, Plain e.2 := by
  induction entries generalizing p with
  | nil => exact nofun
  | cons e entries ih =>
    rw [collect, bind_eq_ok] at h
    obtain ⟨text, found, rest⟩ := h
    exact List.forall_mem_cons.2 ⟨parameterText_ok_iff.1 ⟨text, found⟩, ih rest⟩

theorem ofDocument_of_load (h : (load source (.ok d)).outcome = .ok c) :
    (ofDocument d).outcome = .ok c := by
  change (unvalidated (.ok d)).outcome = .ok c
  rcases read : unvalidated (.ok d) with ⟨rs, e | c'⟩
  · rw [load_unread read] at h
    cases h
  · by_cases valid : c'.defects = []
    · rwa [load_accepted read valid] at h
    · rw [load_rejected read valid] at h
      cases h

theorem forall₂_of_mapM {α β : Type} {f : α → Logged LoadError β} {as : List α} {bs : List β}
    (h : (as.mapM f).outcome = .ok bs) : List.Forall₂ (fun a b => (f a).outcome = .ok b) as bs := by
  induction as generalizing bs with
  | nil =>
    cases h
    exact .nil
  | cons a as ih =>
    simp only [List.mapM_cons, outcome_bind, bind_eq_ok] at h
    obtain ⟨b, first, bs', rest, h⟩ := h
    cases h
    exact .cons first (ih rest)

inductive Parametrised (d : Document) (i : Nat) (entries : List (String × Document)) : Prop
  | processor {ps : List Document} {p : Document} :
      field "processors" d = .ok (some (.list ps)) → ps[i]? = some p →
      field "parameters" p = .ok (some (.map entries)) → Parametrised d i entries

theorem outcome_of_mapError {ε ε' α : Type} {f : ε → ε'} {x : Logged ε α} {a : α}
    (h : (x.mapError f).outcome = .ok a) : x.outcome = .ok a := by
  obtain ⟨rs, outcome⟩ := x
  cases outcome with
  | error e => cases h
  | ok a => cases h; rfl

theorem settings_of_processor {s : Settings} (h : (processor d).outcome = .ok s)
    (given : field "parameters" d = .ok (some (.map entries))) :
    ∃ p name s' storeName, collect ∅ entries = .ok p ∧ (p.settings name).outcome = .ok s' ∧
      s = { s' with storeName } := by
  simp only [processor, given, outcome_bind, bind_eq_ok] at h
  obtain ⟨name, -, p, collected, s', read, storeName, -, h⟩ := h
  cases h
  exact ⟨p, name, s', storeName, collected, outcome_of_mapError read, rfl⟩

theorem settings_of_load (h : (load source (.ok d)).outcome = .ok c)
    (given : Parametrised d i entries) :
    ∃ p name s storeName, collect ∅ entries = .ok p ∧ (p.settings name).outcome = .ok s ∧
      c.processors[i]? = some { s with storeName } := by
  obtain @⟨ps, d', listing, found, block⟩ := given
  have read := ofDocument_of_load h
  simp only [ofDocument, listed, listing, outcome_bind, bind_eq_ok] at read
  obtain ⟨_, -, _, -, ss, ⟨_, ⟨⟩, read⟩, whole⟩ := read
  cases whole
  have each := forall₂_of_mapM read
  obtain ⟨inside, rfl⟩ := List.getElem?_eq_some_iff.1 found
  have inside' : i < ss.length := each.length_eq ▸ inside
  obtain ⟨p, name, s, storeName, collected, settled, same⟩ :=
    settings_of_processor (each.get inside inside') block
  refine ⟨p, name, s, storeName, collected, settled, ?_⟩
  rw [← same]
  exact List.getElem?_eq_getElem inside'

end Loaded

/-! ## Keys that nobody looks up -/

/-- The second document has one entry more than the first one, under a key that is not looked up
where it stands. If that is among the parameters of a processor, the value has to fit. -/
inductive Widened (fits : Document → Prop) (d d' : Document) : Prop
  | root (h : Gains ["logging", "endpoints", "processors"] (fun _ => True) d d')
  | logging (h : Within "logging"
      (Gains ["file", "level", "max_size_mb", "max_files"] fun _ => True) d d')
  | endpoint (h : Within "endpoints" (Among (Gains ["name", "address"] fun _ => True)) d d')
  | processor (h : Within "processors"
      (Among (Gains ["name", "store", "parameters"] fun _ => True)) d d')
  | parameter (h : Within "processors" (Among (Within "parameters"
      (Gains Parameters.known fits))) d d')

theorem logging_of_field (h : field "logging" d' = field "logging" d) (c : Configuration) :
    logging d' c = logging d c := by
  rw [logging, logging, h]

theorem logging_of_within
    (h : Within "logging" (Gains ["file", "level", "max_size_mb", "max_files"] fits) d d')
    (c : Configuration) : logging d' c = logging d c := by
  rcases field_within h with same | ⟨l, l', gains, found, found'⟩
  · exact logging_of_field same c
  · have enter (block : Document) (f : Option Document → Except LoadError Configuration) :
        (Except.ok (some block) >>= f) = f (some block) := rfl
    simp (disch := decide) only [logging, found, found', enter, fieldOr, field_of_gains gains]

theorem endpoint_of_gains (h : Gains ["name", "address"] fits d d') :
    endpoint d' = endpoint d := by
  simp (disch := decide) only [endpoint, fieldOr, field_of_gains h]

theorem processor_of_gains (h : Gains ["name", "store", "parameters"] fits d d') :
    processor d' = processor d := by
  simp (disch := decide) only [processor, fieldOr, field_of_gains h]

theorem listed_agree {α : Type} (h : field key d' = field key d)
    (read : Document → Logged LoadError α) :
    Agrees Eq (listed key read d) (listed key read d') := by
  rw [listed_of_field h]
  exact .refl (fun _ => rfl) _

theorem ofDocument_widened (h : Widened Plain d d') :
    Agrees (Likewise Eq) (ofDocument d) (ofDocument d') := by
  cases h with
  | root gains =>
    exact ofDocument_agree (logging_of_field (field_of_gains gains (by decide)) _)
      (listed_agree (field_of_gains gains (by decide)) _)
      (listed_agree (field_of_gains gains (by decide)) _)
  | logging within =>
    exact ofDocument_agree (logging_of_within within _)
      (listed_agree (field_of_within within (by decide)) _)
      (listed_agree (field_of_within within (by decide)) _)
  | endpoint within =>
    refine ofDocument_agree (logging_of_field (field_of_within within (by decide)) _) ?_
      (listed_agree (field_of_within within (by decide)) _)
    exact listed_within (fun _ => rfl) within fun _ _ among => each_among among fun e e' gains =>
      endpoint_of_gains gains ▸ .refl (fun _ => rfl) _
  | processor within =>
    refine ofDocument_agree (logging_of_field (field_of_within within (by decide)) _)
      (listed_agree (field_of_within within (by decide)) _) ?_
    exact listed_within (fun _ => rfl) within fun _ _ among => each_among among fun p p' gains =>
      processor_of_gains gains ▸ .refl (fun _ => rfl) _
  | parameter within =>
    refine ofDocument_agree (logging_of_field (field_of_within within (by decide)) _)
      (listed_agree (field_of_within within (by decide)) _) ?_
    exact listed_within (fun _ => rfl) within fun _ _ among => each_among among fun p p' block =>
      processor_agree Settings.congruent_eq
        (fun name _ _ enlarged => Parameters.settings_agree enlarged name) block

theorem Likewise.eq {c c' : Configuration} (h : Likewise Eq c c') : c' = c := by
  rw [h.rest, ← h.processors]

/-- Where nobody looks its key up, a further entry changes neither the configuration nor the error,
and nothing but warnings is logged beyond what is logged without it. Among the parameters of a
processor it has to be plain, though, whether somebody looks its key up or not: a document that
loads has nothing else there. -/
theorem unknown_keys_ignored (source : Source) :
    (∀ d d', Widened Plain d d' →
      (load source (.ok d')).outcome = (load source (.ok d)).outcome ∧
        Warned (load source (.ok d)).records (load source (.ok d')).records) ∧
    ∀ d c, (load source (.ok d)).outcome = .ok c → ∀ i entries, Parametrised d i entries →
      ∀ e ∈ entries, Plain e.2 := by
  refine ⟨fun d d' widened => ?_, fun d c loaded i entries given => ?_⟩
  · have agree := load_agree (fun same _ => by rw [same]) (ofDocument_widened widened) source
    exact ⟨(agree.outcome.mono fun _ _ alike => alike.eq.symm).eq, agree.records⟩
  · obtain ⟨p, _, _, _, collected, -⟩ := settings_of_load loaded given
    exact plain_of_collect collected

def lone (parameters : List (String × Document)) : Document :=
  .map [("processors", .list [.map [("name", .text "p"), ("parameters", .map parameters)]])]

theorem unknown_keys_ignored_list :
    let d := lone [("interval", .number "50")]
    let d' := lone [("interval", .number "50"), ("extra", .list [.text "a", .flag true])]
    let loaded : Configuration := { processors := [{ processorName := "p", pollIntervalMs := 50 }] }
    (load .text (.ok d)).outcome = .ok loaded ∧ (load .text (.ok d')).outcome = .ok loaded ∧
      Warned (load .text (.ok d)).records (load .text (.ok d')).records ∧
      ∀ i entries, Parametrised d' i entries → ∀ e ∈ entries, Plain e.2 := by
  intro d d' loaded
  obtain ⟨ignored, plain⟩ := unknown_keys_ignored .text
  have widened : Widened Plain d d' :=
    .parameter (.entry [] _ (.element [] _ (.entry [_] _
      (.entry [_] [] (by decide) (.list (by decide))))))
  have first : (load .text (.ok d)).outcome = .ok loaded := by rfl
  obtain ⟨same, warned⟩ := ignored d d' widened
  exact ⟨first, same.trans first, warned, plain d' loaded (same.trans first)⟩

/-- A null under a key that nobody looks up is too much for a parameter. -/
theorem unknown_null_parameter_refused :
    Widened (fun _ => True) (lone []) (lone [("extra", .null)]) ∧
      (load .text (.ok (lone []))).outcome =
        .ok { processors := [{ processorName := "p" }] } ∧
      (load .text (.ok (lone [("extra", .null)]))).outcome = .error (.parameterShape "extra") := by
  refine ⟨.parameter (.entry [] _ (.element [] _ (.entry [_] _ ?_))), by rfl, by rfl⟩
  exact .entry [] [] (by decide) trivial

end Configuration

end Courier
