import Courier.Configuration.Loading
import Courier.Proofs.Calls
import Courier.Worker.Run

namespace Courier

namespace Record

def shown (threshold severity : Severity) (rs : List Record) : Nat :=
  rs.countP fun r => r.visible threshold && r.severity == severity

variable {threshold severity : Severity} {rs rs' : List Record}

@[simp] theorem shown_nil : shown threshold severity [] = 0 := rfl

@[simp] theorem shown_append :
    shown threshold severity (rs ++ rs') =
      shown threshold severity rs + shown threshold severity rs' :=
  List.countP_append ..

theorem shown_eq_zero (h : ∀ r ∈ rs, r.severity ≠ severity) : shown threshold severity rs = 0 := by
  rw [shown, List.countP_eq_zero]
  intro r hr
  simp [h r hr]

end Record

namespace Logged

variable {ε ε' α β : Type} {Q : α → Prop} {R : β → Prop}

theorem bind_eq_ok {x : Except ε α} {f : α → Except ε β} {b : β} :
    (x >>= f) = .ok b ↔ ∃ a, x = .ok a ∧ f a = .ok b := by
  cases x with
  | error e => exact ⟨by rintro ⟨⟩, by rintro ⟨_, ⟨⟩, _⟩⟩
  | ok a => exact ⟨fun h => ⟨a, rfl, h⟩, by rintro ⟨_, ⟨⟩, h⟩; exact h⟩

structure Gives (Q : α → Prop) (x : Logged ε α) : Prop where
  records : ∀ r ∈ x.records, r.severity = .warn
  result : ∀ a, x.outcome = .ok a → Q a

theorem Gives.pure {a : α} (h : Q a) : Gives Q (Pure.pure a : Logged ε α) where
  records := by simp [pure_eq]
  result := by
    rintro a ⟨⟩
    exact h

theorem Gives.ofExcept {outcome : Except ε α} (h : ∀ a, outcome = .ok a → Q a) :
    Gives Q (.ofExcept outcome) where
  records := by simp [Logged.ofExcept]
  result := h

theorem Gives.fail (e : ε) : Gives Q (.fail e) where
  records := by simp [Logged.fail]
  result := by rintro a ⟨⟩

theorem Gives.warning (text : String) :
    Gives (fun _ => True) (.log .warn text : Logged ε Unit) where
  records := by simp [Logged.log]
  result _ _ := trivial

theorem Gives.bind {x : Logged ε α} {f : α → Logged ε β} (hx : x.Gives Q)
    (hf : ∀ a, Q a → (f a).Gives R) : (x >>= f).Gives R := by
  obtain ⟨rs, outcome⟩ := x
  cases outcome with
  | error e => exact ⟨hx.records, by rintro b ⟨⟩⟩
  | ok a =>
    have next := hf a (hx.result a rfl)
    rw [ok_bind]
    refine ⟨fun r hr => ?_, next.result⟩
    rcases List.mem_append.1 hr with first | second
    · exact hx.records r first
    · exact next.records r second

theorem Gives.mapError {x : Logged ε α} (hx : x.Gives Q) (f : ε → ε') : (x.mapError f).Gives Q := by
  obtain ⟨rs, outcome⟩ := x
  cases outcome with
  | error e => exact ⟨hx.records, by rintro a ⟨⟩⟩
  | ok a =>
    refine ⟨hx.records, ?_⟩
    rintro _ ⟨⟩
    exact hx.result a rfl

theorem Gives.mapM {f : α → Logged ε β} (hf : ∀ a, (f a).Gives R) (as : List α) :
    (as.mapM f).Gives fun bs => ∀ b ∈ bs, R b := by
  induction as with
  | nil => exact .pure (by simp)
  | cons a as ih =>
    rw [List.mapM_cons]
    refine (hf a).bind fun b hb => ih.bind fun bs hbs => .pure ?_
    exact List.forall_mem_cons.2 ⟨hb, hbs⟩

end Logged

/-- No setting relies on another one that is missing. -/
structure Settings.Coherent (s : Settings) : Prop where
  bounded : s.dropOnMaxAttempts = true → 0 < s.maxAttempts
  scheduled : s.throttleIntervalMs ≠ -1 → s.cronExpression ≠ ""

namespace Parameters

open Logged

theorem coherent_of_independent {name : String} {p : Parameters} {s : Settings}
    (h : independent name p = .ok s) : s.Coherent := by
  simp only [independent, bind_eq_ok] at h
  obtain ⟨_, -, _, -, _, -, _, -, _, -, _, -, h⟩ := h
  cases h
  exact ⟨by rintro ⟨⟩, fun h => absurd rfl h⟩

theorem throttleInterval_gives (p : Parameters) {s : Settings} (h : s.Coherent) :
    (p.throttleInterval s).Gives Settings.Coherent := by
  rw [throttleInterval]
  split
  · exact .pure h
  · split
    · exact (Gives.warning _).bind fun _ _ => .pure h
    · next scheduled =>
      exact (Gives.ofExcept fun _ _ => trivial).bind fun _ _ =>
        .pure ⟨h.bounded, fun _ => scheduled⟩

theorem drop_gives (p : Parameters) {s : Settings} (h : s.Coherent) :
    (p.drop s).Gives Settings.Coherent := by
  rw [drop]
  split
  · split
    · next bounded => exact .pure ⟨fun _ => bounded, h.scheduled⟩
    · exact (Gives.warning _).bind fun _ _ => .pure h
  · exact .pure h

theorem warnUnknown_gives (name : String) (p : Parameters) :
    (warnUnknown name p).Gives fun _ => True where
  records r hr := by
    obtain ⟨key, -, rfl⟩ := List.mem_map.1 hr
    rfl
  result _ _ := trivial

theorem settings_gives (name : String) (p : Parameters) :
    (p.settings name).Gives Settings.Coherent :=
  (warnUnknown_gives name p).bind fun _ _ =>
    (Gives.ofExcept fun _ => coherent_of_independent).bind fun _ hs =>
      (p.throttleInterval_gives hs).bind fun _ hs => p.drop_gives hs

end Parameters

namespace Configuration

open Logged

theorem processor_gives (d : Document) : (processor d).Gives Settings.Coherent :=
  (Gives.ofExcept fun _ _ => trivial).bind fun name _ =>
    (Gives.ofExcept fun _ _ => trivial).bind fun p _ =>
      ((p.settings_gives name).mapError _).bind fun _ hs =>
        (Gives.ofExcept fun _ _ => trivial).bind fun _ _ => .pure ⟨hs.bounded, hs.scheduled⟩

section Listed

variable {α : Type} {Q : α → Prop} {read : Document → Logged LoadError α}

theorem each_gives (h : ∀ d, (read d).Gives Q) (d : Document) :
    (each read d).Gives fun as => ∀ a ∈ as, Q a := by
  rw [each.eq_def]
  split
  · exact .mapM h _
  · exact .fail _
  · exact .pure (by simp)

theorem listed_gives (key : String) (h : ∀ d, (read d).Gives Q) (d : Document) :
    (listed key read d).Gives fun as => ∀ a ∈ as, Q a := by
  refine (Gives.ofExcept fun _ _ => trivial).bind fun found _ => ?_
  cases found with
  | none => exact .pure (by simp)
  | some items => exact each_gives h items

end Listed

theorem ofDocument_gives (d : Document) :
    (ofDocument d).Gives fun c => ∀ s ∈ c.processors, s.Coherent :=
  (Gives.ofExcept fun _ _ => trivial).bind fun _ _ =>
    (listed_gives "endpoints" (fun _ => .ofExcept fun _ _ => trivial) d).bind fun _ _ =>
      (listed_gives "processors" processor_gives d).bind fun _ hs => .pure hs

end Configuration

/-! ## What is accepted -/

namespace Worker

variable {σ : Type} {w : Worker σ}

theorem acquire_done_iff (valid : w.settings.complaints = [])
    (named : ∀ v, ∃ name, (w.outside.storeName v).outcome = .ok name) (s : Site σ) :
    (w.acquire s).1 = .done () ↔ (w.outside.createConsumer s.world).outcome = .ok true := by
  have created := w.createConsumer_apply s
  simp only [acquire, valid]
  cases outcome : (w.outside.createConsumer s.world).outcome with
  | error fault =>
    rw [outcome] at created
    rw [Act.bind_raised created]
    simp
  | ok given =>
    rw [outcome] at created
    rw [Act.bind_done created]
    generalize w.answered .. = t
    have naming (u : Site σ) : ∃ name u', w.storeName u = (.done name, u') := by
      obtain ⟨name, found⟩ := named u.world
      have := w.storeName_apply u
      rw [found] at this
      exact ⟨name, _, this⟩
    cases given with
    | false =>
      obtain ⟨name, u, naming⟩ := naming t
      rw [if_neg Bool.false_ne_true, Act.bind_done naming]
      simp
    | true =>
      obtain ⟨name, u, naming⟩ := naming (t.withStatus { t.status with holdsConsumer := true })
      rw [if_pos rfl, Act.bind_done (Act.setStatus_apply _ t), Act.bind_done naming]
      simp [log, Act.bind_apply]

end Worker

namespace Settings

variable {s : Settings}

theorem complaints_eq_nil (h : s.defects = []) : s.complaints = [] := by
  rw [complaints, h, List.map_nil]

theorem retryIntervalMs_nonneg (h : s.defects = []) : 0 ≤ s.retryIntervalMs := by
  have kept := List.filter_eq_nil_iff.1 h .retryIntervalNegative (by decide)
  simpa [breaks] using kept

theorem retryPolicy_eq (h : s.defects = []) (coherent : s.Coherent) :
    s.retryPolicy = ⟨s.maxAttempts, s.retryIntervalMs, s.dropOnMaxAttempts⟩ := by
  have interval : max s.retryIntervalMs 0 = s.retryIntervalMs :=
    Int.max_eq_left (retryIntervalMs_nonneg h)
  have drop : (s.dropOnMaxAttempts && 0 < s.maxAttempts) = s.dropOnMaxAttempts := by
    cases drops : s.dropOnMaxAttempts with
    | false => rfl
    | true => simpa using coherent.bounded drops
  rw [retryPolicy, RetryPolicy.of, interval, drop]

def Acquires (s : Settings) : Prop :=
  ∀ {σ : Type} (o : Outside σ) (t : Site σ), (∀ v, ∃ name, (o.storeName v).outcome = .ok name) →
    ((Worker.acquire ⟨s, o⟩ t).1 = .done () ↔ (o.createConsumer t.world).outcome = .ok true)

structure Sound (s : Settings) : Prop extends s.Coherent where
  accepted : s.complaints = []
  acquires : s.Acquires
  policy : s.retryPolicy = ⟨s.maxAttempts, s.retryIntervalMs, s.dropOnMaxAttempts⟩

theorem Coherent.sound (coherent : s.Coherent) (h : s.defects = []) : s.Sound where
  toCoherent := coherent
  accepted := complaints_eq_nil h
  acquires _ t named := Worker.acquire_done_iff (complaints_eq_nil h) named t
  policy := retryPolicy_eq h coherent

end Settings

namespace Configuration

open Logged

variable {c : Configuration}

theorem defects_of_processorsDefects {seen : List String} {ss : List Settings}
    (h : processorsDefects seen ss = []) : ∀ s ∈ ss, s.defects = [] := by
  induction ss generalizing seen with
  | nil => simp
  | cons s ss ih =>
    rw [processorsDefects, List.append_eq_nil_iff] at h
    refine List.forall_mem_cons.2 ⟨?_, ih h.2⟩
    rw [processorDefects, List.append_eq_nil_iff] at h
    simpa using h.1.1

theorem processor_defects (h : c.defects = []) : ∀ s ∈ c.processors, s.defects = [] := by
  rw [defects, List.append_eq_nil_iff] at h
  exact defects_of_processorsDefects h.2

theorem validate_accepted (h : c.defects = []) :
    c.validate = ⟨[⟨.info, "Configuration validation passed"⟩], .ok ()⟩ := by
  rw [validate, if_pos h]
  rfl

theorem validate_rejected (h : c.defects ≠ []) :
    c.validate = ⟨[⟨.error, report c.defects⟩], .error c.defects⟩ := by
  rw [validate, if_neg h]
  rfl

structure Valid (c : Configuration) : Prop where
  accepted : c.validate.outcome = .ok ()
  workers : ∀ s ∈ c.processors, s.Sound

def unvalidated (found : Except LoadError Document) : Logged LoadError Configuration := do
  ofDocument (← .ofExcept found)

theorem unvalidated_gives (found : Except LoadError Document) :
    (unvalidated found).Gives fun c => ∀ s ∈ c.processors, s.Coherent :=
  (Gives.ofExcept fun _ _ => trivial).bind fun d _ => ofDocument_gives d

section Ways

variable {found : Except LoadError Document} {rs : List Record}

theorem load_eq (source : Source) (found : Except LoadError Document) :
    load source found = (do
      let c ← reported source (unvalidated found)
      c.validate.mapError .invalid
      return c) := rfl

theorem load_unread {e : LoadError} (h : unvalidated found = ⟨rs, .error e⟩) (source : Source) :
    load source found =
      ⟨rs ++ [⟨.error, source.failure ++ Text.beforeNul e.message⟩], .error e⟩ := by
  rw [load_eq, h]
  rfl

theorem load_rejected (h : unvalidated found = ⟨rs, .ok c⟩) (h' : c.defects ≠ [])
    (source : Source) :
    load source found = ⟨rs ++ [⟨.error, report c.defects⟩], .error (.invalid c.defects)⟩ := by
  rw [load_eq, h, reported, ok_bind, validate_rejected h']
  rfl

theorem load_accepted (h : unvalidated found = ⟨rs, .ok c⟩) (h' : c.defects = [])
    (source : Source) :
    load source found = ⟨rs ++ [⟨.info, "Configuration validation passed"⟩], .ok c⟩ := by
  rw [load_eq, h, reported, ok_bind, validate_accepted h']
  rfl

end Ways

theorem shown_warned {rs : List Record} (h : ∀ r ∈ rs, r.severity = .warn) (r : Record)
    {severity : Severity} (other : severity ≠ .warn) :
    Record.shown .debug severity (rs ++ [r]) = Record.shown .debug severity [r] := by
  have none : Record.shown .debug severity rs = 0 :=
    Record.shown_eq_zero fun r hr => by
      rw [h r hr]
      exact other.symm
  rw [Record.shown_append, none, Nat.zero_add]

/-- Loading is all or nothing: it either gives a valid configuration and logs that, or fails and
logs that, once each. Where the document came from changes at most how a failure is worded. -/
theorem load_all_or_nothing (found : Except LoadError Document) :
    (∀ source : Source,
      (∃ c, (load source found).outcome = .ok c ∧ c.Valid ∧
        Record.shown .debug .info (load source found).records = 1 ∧
        Record.shown .debug .error (load source found).records = 0) ∨
      (∃ e, (load source found).outcome = .error e ∧
        Record.shown .debug .info (load source found).records = 0 ∧
        Record.shown .debug .error (load source found).records = 1)) ∧
    (load .file found = load .text found ∨
      ∃ rs cause e,
        load .text found = ⟨rs ++ [⟨.error, Source.text.failure ++ cause⟩], .error e⟩ ∧
        load .file found = ⟨rs ++ [⟨.error, Source.file.failure ++ cause⟩], .error e⟩) := by
  have gives := unvalidated_gives found
  rcases read : unvalidated found with ⟨rs, e | c⟩
  · rw [read] at gives
    refine ⟨fun source => .inr ⟨e, ?_⟩, .inr ⟨rs, Text.beforeNul e.message, e, ?_⟩⟩
    · rw [load_unread read, shown_warned gives.records _ (by decide),
        shown_warned gives.records _ (by decide)]
      exact ⟨rfl, rfl, rfl⟩
    · exact ⟨load_unread read _, load_unread read _⟩
  · rw [read] at gives
    by_cases valid : c.defects = []
    · have workers (s) (hs : s ∈ c.processors) : s.Sound :=
        (gives.result c rfl s hs).sound (processor_defects valid s hs)
      refine ⟨fun source => .inl ⟨c, ?_⟩, .inl ?_⟩
      · rw [load_accepted read valid, shown_warned gives.records _ (by decide),
          shown_warned gives.records _ (by decide)]
        exact ⟨rfl, ⟨by rw [validate_accepted valid], workers⟩, rfl, rfl⟩
      · rw [load_accepted read valid, load_accepted read valid]
    · refine ⟨fun source => .inr ⟨.invalid c.defects, ?_⟩, .inl ?_⟩
      · rw [load_rejected read valid, shown_warned gives.records _ (by decide),
          shown_warned gives.records _ (by decide)]
        exact ⟨rfl, rfl, rfl⟩
      · rw [load_rejected read valid, load_rejected read valid]

/-- A document that says nothing gives the configuration that has every default. -/
example : (load .text (.ok .null)).outcome = .ok {} := by rfl

end Configuration

end Courier
