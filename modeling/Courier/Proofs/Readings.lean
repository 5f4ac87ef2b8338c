import Courier.Configuration.Parameters
import Courier.Proofs.Loading
import Courier.Proofs.Numerals

namespace Courier.Parameters

open Numeral Logged

inductive Shape
  | integer (w : Width)
  | boolean
  deriving DecidableEq, Repr

def Shape.noun : Shape → String
  | .integer _ => "numeric"
  | .boolean => "boolean"

structure Reading where
  key : String
  raw : String
  shape : Shape
  deriving DecidableEq, Repr

namespace Reading

def Proper (r : Reading) : Prop :=
  match r.shape with
  | .integer w => ∃ n, Written r.raw n ∧ w.low ≤ n ∧ n ≤ w.high
  | .boolean => Text.lower (Text.trim r.raw) ∈ ["true", "yes", "1", "false", "no", "0"]

theorem proper_integer {key raw : String} {w : Width} :
    Proper ⟨key, raw, .integer w⟩ ↔ (ofText? w raw).isSome = true := by
  simp only [Proper, ← ofText?_eq_some_iff, Option.isSome_iff_exists]

instance : DecidablePred Proper
  | ⟨_, _, .integer _⟩ => decidable_of_iff _ proper_integer.symm
  | ⟨_, _, .boolean⟩ => List.instDecidableMemOfLawfulBEq _ _

def error (r : Reading) : Error :=
  match r.shape with
  | .integer _ => .number r.key r.raw
  | .boolean => .boolean r.key r.raw

theorem message_error (r : Reading) : r.error.message =
    "Invalid " ++ r.shape.noun ++ " value for parameter " ++ r.key ++ ": '" ++ r.raw ++ "'" := by
  obtain ⟨key, raw, _ | _⟩ := r <;> rfl

inductive Fails : List Reading → Reading → Prop
  | here {r rs} : ¬ r.Proper → Fails (r :: rs) r
  | there {q r rs} : q.Proper → Fails rs r → Fails (q :: rs) r

variable {rs rs' : List Reading} {r : Reading}

theorem fails_or (rs : List Reading) : (∀ r ∈ rs, r.Proper) ∨ ∃ r, Fails rs r := by
  induction rs with
  | nil => exact .inl nofun
  | cons r rs ih =>
    by_cases proper : r.Proper
    · rcases ih with all | ⟨q, first⟩
      · exact .inl (List.forall_mem_cons.2 ⟨proper, all⟩)
      · exact .inr ⟨q, .there proper first⟩
    · exact .inr ⟨r, .here proper⟩

theorem fails_append : Fails (rs ++ rs') r ↔ Fails rs r ∨ (∀ q ∈ rs, q.Proper) ∧ Fails rs' r := by
  constructor
  · intro h
    induction rs with
    | nil => exact .inr ⟨nofun, h⟩
    | cons q rs ih =>
      cases h with
      | here improper => exact .inl (.here improper)
      | there proper h =>
        rcases ih h with first | ⟨all, later⟩
        · exact .inl (.there proper first)
        · exact .inr ⟨List.forall_mem_cons.2 ⟨proper, all⟩, later⟩
  · rintro (first | ⟨all, later⟩)
    · induction first with
      | here improper => exact .here improper
      | there proper _ ih => exact .there proper ih
    · induction rs with
      | nil => exact later
      | cons q rs ih =>
        obtain ⟨proper, all⟩ := List.forall_mem_cons.1 all
        exact .there proper (ih all)

end Reading

def given (p : Parameters) (key : String) (shape : Shape) : List Reading :=
  (p[key]?.map fun raw => ⟨key, raw, shape⟩).toList

def givenEither (p : Parameters) (key other : String) (shape : Shape) : List Reading :=
  if key ∈ p then p.given key shape else p.given other shape

def separate (p : Parameters) : List Reading :=
  p.given "maxDeliveryAttempts" (.integer .int32) ++
    p.givenEither "retryInterval" "retryIntervalMs" (.integer .int32) ++
    p.givenEither "interval" "pollInterval" (.integer .int64) ++
    p.given "startupDelay" (.integer .int64) ++
    p.given "throttle" .boolean ++
    p.given "deactivatedAtStartup" .boolean

def readings (p : Parameters) : List Reading :=
  p.separate ++
    if p.trimmed "cronExpression" = "" then [] else p.given "throttleInterval" (.integer .int64)

/-- A computation that fails over the first of the readings that is not proper, and over nothing
else. -/
structure Heeds {α : Type} (rs : List Reading) (x : Except Error α) : Prop where
  accepted : (∀ r ∈ rs, r.Proper) → ∃ a, x = .ok a
  refused : ∀ r, Reading.Fails rs r → x = .error r.error

namespace Heeds

variable {α β : Type} {rs rs' : List Reading} {x : Except Error α}

theorem ok (a : α) : Heeds [] (.ok a) := ⟨fun _ => ⟨a, rfl⟩, nofun⟩

theorem single {r : Reading} (accepted : r.Proper → ∃ a, x = .ok a)
    (refused : ¬ r.Proper → x = .error r.error) : Heeds [r] x where
  accepted all := accepted (all r List.mem_cons_self)
  refused := by
    rintro _ (improper | ⟨_, ⟨⟩⟩)
    exact refused improper

theorem bind {f : α → Except Error β} (hx : Heeds rs x)
    (hf : ∀ a, x = .ok a → Heeds rs' (f a)) : Heeds (rs ++ rs') (x >>= f) where
  accepted all := by
    obtain ⟨first, later⟩ := List.forall_mem_append.1 all
    obtain ⟨a, done⟩ := hx.accepted first
    rw [done]
    exact (hf a done).accepted later
  refused r h := by
    rcases Reading.fails_append.1 h with first | ⟨first, later⟩
    · rw [hx.refused r first]
      rfl
    · obtain ⟨a, done⟩ := hx.accepted first
      rw [done]
      exact (hf a done).refused r later

theorem map (hx : Heeds rs x) (f : α → β) : Heeds rs (x.map f) where
  accepted all := by
    obtain ⟨a, done⟩ := hx.accepted all
    exact ⟨f a, by rw [done]; rfl⟩
  refused r h := by
    rw [hx.refused r h]
    rfl

end Heeds

theorem heeds_number (w : Width) (key raw : String) :
    Heeds [⟨key, raw, .integer w⟩] (number w key raw) := by
  refine .single (fun proper => ?_) (fun improper => ?_)
  · obtain ⟨n, found⟩ := Option.isSome_iff_exists.1 (Reading.proper_integer.1 proper)
    exact ⟨n, by rw [number, found]⟩
  · rw [number]
    split
    next n found => exact absurd (Reading.proper_integer.2 (by rw [found]; rfl)) improper
    next => rfl

theorem ofWord_isSome (word : String) :
    (ofWord word).isSome = true ↔ word ∈ ["true", "yes", "1", "false", "no", "0"] := by
  rw [ofWord.eq_def]
  split <;> simp_all

theorem heeds_boolean (key raw : String) : Heeds [⟨key, raw, .boolean⟩] (boolean key raw) := by
  have word := ofWord_isSome (Text.lower (Text.trim raw))
  refine .single (fun proper => ?_) (fun improper => ?_)
  · obtain ⟨b, found⟩ := Option.isSome_iff_exists.1 (word.2 proper)
    exact ⟨b, by rw [boolean, found]⟩
  · rw [boolean]
    split
    next b found => exact absurd (word.1 (by rw [found]; rfl)) improper
    next => rfl

section Given

variable {p : Parameters} {key other : String}

theorem given_of_none (h : p[key]? = none) (shape : Shape) : p.given key shape = [] := by
  rw [given, h]
  rfl

theorem given_of_some {raw : String} (h : p[key]? = some raw) (shape : Shape) :
    p.given key shape = [⟨key, raw, shape⟩] := by
  rw [given, h]
  rfl

theorem givenEither_of_none (h : p[key]? = none) (other : String) (shape : Shape) :
    p.givenEither key other shape = p.given other shape :=
  if_neg fun there => by simpa [h] using Std.ExtTreeMap.mem_iff_isSome_getElem?.1 there

theorem givenEither_of_some {raw : String} (h : p[key]? = some raw) (other : String)
    (shape : Shape) : p.givenEither key other shape = [⟨key, raw, shape⟩] := by
  rw [givenEither, if_pos (Std.ExtTreeMap.mem_iff_isSome_getElem?.2 (by simp [h])),
    given_of_some h]

theorem givenEither_self (p : Parameters) (key : String) (shape : Shape) :
    p.givenEither key key shape = p.given key shape :=
  ite_self _

end Given

theorem heeds_numberOr (absent : Int) (w : Width) (p : Parameters) (key other : String) :
    Heeds (p.givenEither key other (.integer w)) (numberOr absent w (p.either key other)) := by
  rw [either]
  cases first : p[key]? with
  | some raw =>
    rw [givenEither_of_some first]
    exact heeds_number w key raw
  | none =>
    rw [givenEither_of_none first]
    cases second : p[other]? with
    | some raw =>
      rw [given_of_some second]
      exact heeds_number w other raw
    | none =>
      rw [given_of_none second]
      exact .ok absent

theorem heeds_booleanOr (absent : Bool) (p : Parameters) (key : String) :
    Heeds (p.given key .boolean) (booleanOr absent p key) := by
  rw [booleanOr]
  cases found : p[key]? with
  | some raw =>
    rw [given_of_some found]
    exact heeds_boolean key raw
  | none =>
    rw [given_of_none found]
    exact .ok absent

theorem heeds_independent (name : String) (p : Parameters) :
    Heeds p.separate (independent name p) := by
  have one (absent : Int) (w : Width) (key : String) :
      Heeds (p.given key (.integer w)) (numberOr absent w (p.either key key)) :=
    p.givenEither_self key _ ▸ heeds_numberOr absent w p key key
  rw [independent, separate]
  simp only [List.append_assoc]
  refine (one ..).bind fun _ _ => ?_
  refine (heeds_numberOr ..).bind fun _ _ => ?_
  refine (heeds_numberOr ..).bind fun _ _ => ?_
  refine (one ..).bind fun _ _ => ?_
  refine (heeds_booleanOr ..).bind fun _ _ => ?_
  exact (heeds_booleanOr ..).map _

theorem cronExpression_of_independent {name : String} {p : Parameters} {s : Settings}
    (h : independent name p = .ok s) : s.cronExpression = p.trimmed "cronExpression" := by
  simp only [independent, bind_eq_ok] at h
  obtain ⟨_, -, _, -, _, -, _, -, _, -, _, -, h⟩ := h
  cases h
  rfl

theorem outcome_throttleInterval (p : Parameters) (s : Settings) :
    (p.throttleInterval s).outcome =
      if s.cronExpression = "" then .ok s
      else match p["throttleInterval"]? with
        | none => .ok s
        | some raw => (number .int64 "throttleInterval" raw).map fun n =>
          { s with throttleIntervalMs := n } := by
  cases found : p["throttleInterval"]? with
  | none =>
    simp only [throttleInterval, found, Logged.pure_eq]
    exact (ite_self _).symm
  | some raw =>
    simp only [throttleInterval, found]
    split
    · rfl
    · cases number .int64 "throttleInterval" raw <;> rfl

theorem heeds_throttleInterval (p : Parameters) (s : Settings) :
    Heeds (if s.cronExpression = "" then [] else p.given "throttleInterval" (.integer .int64))
      (p.throttleInterval s).outcome := by
  rw [outcome_throttleInterval]
  split
  · exact .ok s
  · cases found : p["throttleInterval"]? with
    | none =>
      rw [given_of_none found]
      exact .ok s
    | some raw =>
      rw [given_of_some found]
      exact (heeds_number .int64 "throttleInterval" raw).map _

theorem outcome_drop (p : Parameters) (s : Settings) :
    (p.drop s).outcome = .ok (if p.trimmed "maxDeliveryDrop" = "Enabled" ∧ 0 < s.maxAttempts
      then { s with dropOnMaxAttempts := true } else s) := by
  by_cases enabled : p.trimmed "maxDeliveryDrop" = "Enabled" <;>
    by_cases bounded : 0 < s.maxAttempts <;>
    simp only [drop, enabled, bounded, and_self, and_true, and_false, if_true, if_false] <;> rfl

theorem outcome_settings (name : String) (p : Parameters) :
    (p.settings name).outcome =
      independent name p >>= fun s => (p.throttleInterval s).outcome >>= fun s =>
        (p.drop s).outcome := by
  simp only [settings, Logged.outcome_bind]
  rfl

theorem heeds_settings (name : String) (p : Parameters) :
    Heeds p.readings (p.settings name).outcome := by
  rw [outcome_settings, readings]
  refine (heeds_independent name p).bind fun s hs => ?_
  rw [← cronExpression_of_independent hs]
  simp only [outcome_drop]
  exact (heeds_throttleInterval p s).map _

/-! ## What makes no difference -/

/-- The keys that are looked at: of two spellings the second one only where the first is not
there, and a throttle interval only in company of a cron expression. -/
structure Counts (p : Parameters) (key : String) : Prop where
  known : key ∈ known
  retry : key = "retryIntervalMs" → "retryInterval" ∉ p
  poll : key = "pollInterval" → "interval" ∉ p
  throttle : key = "throttleInterval" → p.trimmed "cronExpression" ≠ ""

instance (p : Parameters) : DecidablePred p.Counts := fun key =>
  decidable_of_iff (key ∈ Parameters.known ∧ (key = "retryIntervalMs" → "retryInterval" ∉ p) ∧
    (key = "pollInterval" → "interval" ∉ p) ∧
      (key = "throttleInterval" → p.trimmed "cronExpression" ≠ ""))
    ⟨fun ⟨known, retry, poll, throttle⟩ => ⟨known, retry, poll, throttle⟩,
      fun ⟨known, retry, poll, throttle⟩ => ⟨known, retry, poll, throttle⟩⟩

section Congruence

variable {p q : Parameters} {key other : String}

theorem either_congr (first : q[key]? = p[key]?) (second : key ∉ p → q[other]? = p[other]?) :
    q.either key other = p.either key other := by
  rw [either, either, first]
  cases found : p[key]? with
  | some raw => rfl
  | none =>
    have absent : key ∉ p := fun there => by
      simpa [found] using Std.ExtTreeMap.mem_iff_isSome_getElem?.1 there
    rw [second absent]

theorem outcome_congr (name : String) (same : ∀ key, p.Counts key → q[key]? = p[key]?) :
    (q.settings name).outcome = (p.settings name).outcome := by
  have plain (key : String) (k : key ∈ Parameters.known) (retry : key ≠ "retryIntervalMs")
      (poll : key ≠ "pollInterval") (throttle : key ≠ "throttleInterval") : q[key]? = p[key]? :=
    same key ⟨k, fun h => absurd h retry, fun h => absurd h poll, fun h => absurd h throttle⟩
  have retry : q.either "retryInterval" "retryIntervalMs" =
      p.either "retryInterval" "retryIntervalMs" :=
    either_congr (plain _ (by decide) (by decide) (by decide) (by decide)) fun absent =>
      same _ ⟨by decide, fun _ => absent, by simp, by simp⟩
  have poll : q.either "interval" "pollInterval" = p.either "interval" "pollInterval" :=
    either_congr (plain _ (by decide) (by decide) (by decide) (by decide)) fun absent =>
      same _ ⟨by decide, by simp, fun _ => absent, by simp⟩
  have separately : independent name q = independent name p := by
    rw [independent, independent, retry, poll]
    simp (disch := decide) only [either, trimmed, booleanOr, plain]
  have dropping : q.trimmed "maxDeliveryDrop" = p.trimmed "maxDeliveryDrop" := by
    simp (disch := decide) only [trimmed, plain]
  rw [outcome_settings, outcome_settings, separately]
  cases found : independent name p with
  | error e => rfl
  | ok s =>
    change (q.throttleInterval s).outcome >>= _ = (p.throttleInterval s).outcome >>= _
    have throttling : (q.throttleInterval s).outcome = (p.throttleInterval s).outcome := by
      rw [outcome_throttleInterval, outcome_throttleInterval, cronExpression_of_independent found]
      by_cases unscheduled : p.trimmed "cronExpression" = ""
      · rw [if_pos unscheduled, if_pos unscheduled]
      · rw [same "throttleInterval" ⟨by decide, by simp, by simp, fun _ => unscheduled⟩]
    simp only [throttling, outcome_drop, dropping]

end Congruence

theorem map_eq_ok {α β : Type} {x : Except Error α} {f : α → β} {b : β} :
    x.map f = .ok b ↔ ∃ a, x = .ok a ∧ f a = b := by
  cases x with
  | error e => exact ⟨by rintro ⟨⟩, by rintro ⟨_, ⟨⟩, _⟩⟩
  | ok a => exact ⟨fun h => ⟨a, rfl, Except.ok.inj h⟩, by rintro ⟨_, ⟨⟩, rfl⟩; rfl⟩

def tokens (p : Parameters) : List String := (p["nonRetryStatusCodes"]?.map Text.items).getD []

theorem tokens_of_settings {name : String} {p : Parameters} {s : Settings}
    (h : (p.settings name).outcome = .ok s) : s.nonRetryTokens = p.tokens := by
  simp only [outcome_settings, outcome_drop, bind_eq_ok] at h
  obtain ⟨s₁, separately, s₂, throttled, dropped⟩ := h
  have first : s₁.nonRetryTokens = p.tokens := by
    simp only [independent, bind_eq_ok] at separately
    obtain ⟨_, -, _, -, _, -, _, -, _, -, _, -, separately⟩ := separately
    cases separately
    rfl
  have second : s₂.nonRetryTokens = s₁.nonRetryTokens := by
    rw [outcome_throttleInterval] at throttled
    split at throttled
    · cases throttled
      rfl
    · split at throttled
      · cases throttled
        rfl
      · obtain ⟨n, -, rfl⟩ := map_eq_ok.1 throttled
        rfl
  have third : s.nonRetryTokens = s₂.nonRetryTokens := by
    cases dropped
    split <;> rfl
  rw [third, second, first]

/-- Settings are read if, and only if, every parameter that is looked at is proper; the error
names the first one that is not, under the spelling it was found. Nothing but the parameters that
count makes a difference, and what is read fits together. -/
theorem settings_determined (name : String) (p : Parameters) :
    ((∃ s, (p.settings name).outcome = .ok s) ↔ ∀ r ∈ p.readings, r.Proper) ∧
    (∀ e, (p.settings name).outcome = .error e ↔ ∃ r, Reading.Fails p.readings r ∧ r.error = e ∧
      e.message = "Invalid " ++ r.shape.noun ++ " value for parameter " ++ r.key ++ ": '" ++
        r.raw ++ "'") ∧
    (∀ q : Parameters, (∀ key, p.Counts key → q[key]? = p[key]?) →
      (q.settings name).outcome = (p.settings name).outcome) ∧
    ∀ s, (p.settings name).outcome = .ok s → s.Coherent ∧
      ∀ token ∈ s.nonRetryTokens, token ≠ "" ∧ Text.trim token = token ∧ ',' ∉ token.toList := by
  have heeds := heeds_settings name p
  refine ⟨⟨?_, heeds.accepted⟩, fun e => ⟨fun failed => ?_, ?_⟩,
    fun q => outcome_congr name, fun s read => ⟨(p.settings_gives name).result s read, ?_⟩⟩
  · rintro ⟨s, read⟩
    rcases Reading.fails_or p.readings with all | ⟨r, first⟩
    · exact all
    · cases read.symm.trans (heeds.refused r first)
  · rcases Reading.fails_or p.readings with all | ⟨r, first⟩
    · obtain ⟨s, read⟩ := heeds.accepted all
      cases read.symm.trans failed
    · obtain rfl := Except.error.inj ((heeds.refused r first).symm.trans failed)
      exact ⟨r, first, rfl, r.message_error⟩
  · rintro ⟨r, first, rfl, -⟩
    exact heeds.refused r first
  · rw [tokens_of_settings read, tokens]
    cases p["nonRetryStatusCodes"]? with
    | none => exact nofun
    | some text => exact fun token => Text.of_mem_items

/-- The retry interval is bad under its short spelling, which counts, and the delay after it is
bad too. A bad long spelling, a throttle interval without a cron expression and a parameter nobody
knows may come in addition. -/
theorem settings_determined_spellings :
    let p : Parameters := .ofList [("retryInterval", "10s"), ("retryIntervalMs", "5"),
      ("interval", " +300 "), ("startupDelay", "")]
    let q : Parameters := .ofList [("retryInterval", "10s"), ("retryIntervalMs", "x"),
      ("interval", " +300 "), ("pollInterval", "y"), ("startupDelay", ""),
      ("throttleInterval", "z"), ("retryIntervl", "50")]
    let mended : Parameters := .ofList [("maxDeliveryAttempts", "3"), ("retryInterval", " +10\n"),
      ("maxDeliveryDrop", "Enabled"), ("nonRetryStatusCodes", "404, ,400 ")]
    (∀ key, p.Counts key → q[key]? = p[key]?) ∧
      Reading.Fails p.readings ⟨"retryInterval", "10s", .integer .int32⟩ ∧
      (p.settings "p").outcome = .error (.number "retryInterval" "10s") ∧
      (q.settings "p").outcome = .error (.number "retryInterval" "10s") ∧
      (∀ r ∈ mended.readings, r.Proper) ∧
      ∃ s, (mended.settings "p").outcome = .ok s ∧ s.Coherent ∧
        ∀ token ∈ s.nonRetryTokens, token ≠ "" ∧ Text.trim token = token ∧ ',' ∉ token.toList := by
  intro p q mended
  have counting : ∀ key ∈ known, p.Counts key → q[key]? = p[key]? := by decide +kernel
  have same (key : String) (h : p.Counts key) : q[key]? = p[key]? := counting key h.known h
  have found : p.readings = [⟨"retryInterval", "10s", .integer .int32⟩,
      ⟨"interval", " +300 ", .integer .int64⟩, ⟨"startupDelay", "", .integer .int64⟩] := by
    decide +kernel
  have first : Reading.Fails p.readings ⟨"retryInterval", "10s", .integer .int32⟩ := by
    rw [found]
    exact .here (by decide)
  have proper : ∀ r ∈ mended.readings, r.Proper := by decide +kernel
  obtain ⟨-, errors, agreeing, -⟩ := settings_determined "p" p
  have refused : (p.settings "p").outcome = .error (.number "retryInterval" "10s") :=
    (errors _).2 ⟨_, first, rfl, rfl⟩
  obtain ⟨accepting, -, -, fitting⟩ := settings_determined "p" mended
  obtain ⟨s, read⟩ := accepting.2 proper
  exact ⟨same, first, refused, (agreeing q same).trans refused, proper, s, read, fitting s read⟩

end Courier.Parameters
