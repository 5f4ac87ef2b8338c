import Courier.Proofs.Loading
import Mathlib.Data.List.Count
import Mathlib.Data.List.Nodup

namespace Courier

namespace Settings

variable {s : Settings}

structure WellFormed (s : Settings) : Prop where
  attempts : -1 ≤ s.maxAttempts
  retryInterval : 0 ≤ s.retryIntervalMs
  pollInterval : 0 ≤ s.pollIntervalMs
  startupDelay : 0 ≤ s.startupDelayMs
  throttleInterval : s.cronExpression ≠ "" → -1 ≤ s.throttleIntervalMs

theorem kept_iff : (∀ d, s.breaks d = false) ↔ s.processorName ≠ "" ∧ s.WellFormed := by
  constructor
  · intro kept
    exact ⟨by simpa [breaks] using kept .nameMissing,
      { attempts := by simpa [breaks] using kept .attemptsTooLow
        retryInterval := by simpa [breaks] using kept .retryIntervalNegative
        pollInterval := by simpa [breaks] using kept .pollIntervalNegative
        startupDelay := by simpa [breaks] using kept .startupDelayNegative
        throttleInterval := by simpa [breaks] using kept .throttleIntervalTooLow }⟩
  · rintro ⟨named, attempts, retryInterval, pollInterval, startupDelay, throttleInterval⟩ d
    cases d <;> simpa [breaks]

theorem mem_defects {d : Defect} : d ∈ s.defects ↔ s.breaks d = true := by
  have mentioned : d ∈ Defect.all := by cases d <;> decide
  rw [defects, List.mem_filter, and_iff_right mentioned]

theorem nodup_defects (s : Settings) : s.defects.Nodup :=
  List.Nodup.filter _ (by decide)

theorem defects_eq_nil : s.defects = [] ↔ s.processorName ≠ "" ∧ s.WellFormed := by
  simp only [← kept_iff, List.eq_nil_iff_forall_not_mem, mem_defects, Bool.not_eq_true]

theorem count_defects (d : Defect) : s.defects.count d = if s.breaks d then 1 else 0 := by
  split
  case isTrue broken => exact List.count_eq_one_of_mem s.nodup_defects (mem_defects.2 broken)
  case isFalse kept => exact List.count_eq_zero.2 (mt mem_defects.1 kept)

theorem review_eq (found : List String) (s : Settings) : s.review found = found ++ s.complaints := by
  have any (rules : List Defect) :
      rules.foldl (fun found d => if s.breaks d then found ++ [d.message s.processorName] else found)
        found = found ++ (rules.filter s.breaks).map (Defect.message s.processorName) := by
    induction rules generalizing found with
    | nil => simp
    | cons d rules ih => cases broken : s.breaks d <;> simp [broken, ih]
  exact any Defect.all

end Settings

namespace Configuration

variable {c : Configuration} {ds : List Defect} {seen : List String}

def repeated (seen : List String) : List String → List String
  | [] => []
  | name :: names =>
    (if name ≠ "" ∧ name ∈ seen then [name] else []) ++ repeated (name :: seen) names

theorem count_repeated (seen names : List String) (name : String) :
    (repeated seen names).count name =
      if name = "" then 0 else if name ∈ seen then names.count name else names.count name - 1 := by
  induction names generalizing seen with
  | nil => simp [repeated]
  | cons n names ih =>
    rw [repeated, List.count_append, ih, List.count_cons]
    by_cases same : n = name
    · subst same
      by_cases unnamed : n = "" <;> by_cases before : n ∈ seen <;> simp [unnamed, before]
      omega
    · have other : ¬ name = n := Ne.symm same
      split <;> simp [same, other]

def Defect.part : Defect → Nat
  | .logLevelUnknown => 0
  | .logSizeNotPositive => 0
  | .logFilesTooFew => 0
  | .endpointNameMissing => 1
  | .endpointDuplicate _ => 1
  | .endpointAddressMissing _ => 1
  | .worker _ _ => 2
  | .processorDuplicate _ => 2

theorem count_of_part {n : Nat} (h : ∀ d ∈ ds, d.part = n) {d : Defect} (other : d.part ≠ n) :
    ds.count d = 0 :=
  List.count_eq_zero.2 fun hd => other (h d hd)

theorem part_loggingDefects (c : Configuration) : ∀ d ∈ c.loggingDefects, d.part = 0 := by
  intro d hd
  simp only [loggingDefects, List.mem_append] at hd
  rcases hd with (hd | hd) | hd
  all_goals
    split at hd
    · cases hd
    · rw [List.mem_singleton.1 hd]
      rfl

theorem part_endpointsDefects (seen : List String) (es : List Endpoint) :
    ∀ d ∈ endpointsDefects seen es, d.part = 1 := by
  induction es generalizing seen with
  | nil => simp [endpointsDefects]
  | cons e es ih =>
    intro d hd
    rcases List.mem_append.1 hd with first | later
    · simp only [endpointDefects, List.mem_append] at first
      grind [Defect.part]
    · exact ih _ d later

theorem part_processorsDefects (seen : List String) (ss : List Settings) :
    ∀ d ∈ processorsDefects seen ss, d.part = 2 := by
  induction ss generalizing seen with
  | nil => simp [processorsDefects]
  | cons s ss ih =>
    intro d hd
    rcases List.mem_append.1 hd with first | later
    · simp only [processorDefects, List.mem_append, List.mem_map] at first
      grind [Defect.part]
    · exact ih _ d later

theorem count_loggingDefects (c : Configuration) :
    c.loggingDefects.count .logLevelUnknown = (if c.logLevel ∈ levels then 0 else 1) ∧
      c.loggingDefects.count .logSizeNotPositive = (if 0 < c.logMaxSizeMb then 0 else 1) ∧
      c.loggingDefects.count .logFilesTooFew = if 1 ≤ c.logMaxFiles then 0 else 1 := by
  by_cases level : c.logLevel ∈ levels <;> by_cases size : 0 < c.logMaxSizeMb <;>
    by_cases files : 1 ≤ c.logMaxFiles <;> simp [loggingDefects, level, size, files]

theorem count_endpointNameMissing (seen : List String) (es : List Endpoint) :
    (endpointsDefects seen es).count .endpointNameMissing = es.countP (·.name = "") := by
  induction es generalizing seen with
  | nil => rfl
  | cons e es ih =>
    rw [endpointsDefects, endpointDefects, List.count_append, List.count_append, ih,
      List.countP_cons]
    grind

theorem count_endpointAddressMissing (seen : List String) (es : List Endpoint) (name : String) :
    (endpointsDefects seen es).count (.endpointAddressMissing name) =
      es.countP fun e => e.name = name && e.address = "" := by
  induction es generalizing seen with
  | nil => rfl
  | cons e es ih =>
    rw [endpointsDefects, endpointDefects, List.count_append, List.count_append, ih,
      List.countP_cons]
    grind

theorem count_endpointDuplicate (seen : List String) (es : List Endpoint) (name : String) :
    (endpointsDefects seen es).count (.endpointDuplicate name) =
      (repeated seen (es.map Endpoint.name)).count name := by
  induction es generalizing seen with
  | nil => rfl
  | cons e es ih =>
    rw [endpointsDefects, endpointDefects, List.map_cons, repeated, List.count_append,
      List.count_append, List.count_append, ih]
    grind

theorem count_worker_defects (s : Settings) (name : String) (d : Settings.Defect) :
    (s.defects.map (Defect.worker s.processorName)).count (.worker name d) =
      if s.processorName = name && s.breaks d then 1 else 0 := by
  by_cases named : s.processorName = name
  · subst named
    have injective : Function.Injective (Defect.worker s.processorName) := by
      rintro _ _ ⟨⟩
      rfl
    simp [List.count_map_of_injective _ _ injective, Settings.count_defects]
  · have absent : .worker name d ∉ s.defects.map (Defect.worker s.processorName) := by
      simp [named]
    simp [List.count_eq_zero.2 absent, named]

theorem count_worker (seen : List String) (ss : List Settings) (name : String)
    (d : Settings.Defect) :
    (processorsDefects seen ss).count (.worker name d) =
      ss.countP fun s => s.processorName = name && s.breaks d := by
  induction ss generalizing seen with
  | nil => rfl
  | cons s ss ih =>
    rw [processorsDefects, processorDefects, List.count_append, List.count_append, ih,
      List.countP_cons, count_worker_defects]
    grind

theorem count_processorDuplicate (seen : List String) (ss : List Settings) (name : String) :
    (processorsDefects seen ss).count (.processorDuplicate name) =
      (repeated seen (ss.map Settings.processorName)).count name := by
  induction ss generalizing seen with
  | nil => rfl
  | cons s ss ih =>
    have none : (s.defects.map (Defect.worker s.processorName)).count (.processorDuplicate name) =
        0 := List.count_eq_zero.2 (by simp)
    rw [processorsDefects, processorDefects, List.map_cons, repeated, List.count_append,
      List.count_append, List.count_append, ih, none]
    grind

/-- A report with an entry for every rule and every element that breaks it, part by part. Of the
elements that share a name, each one after the first breaks a rule. -/
structure FullReport (c : Configuration) (ds : List Defect) : Prop where
  level : ds.count .logLevelUnknown =
    if c.logLevel ∈ ["debug", "info", "warn", "warning", "error", "fatal"] then 0 else 1
  size : ds.count .logSizeNotPositive = if 0 < c.logMaxSizeMb then 0 else 1
  files : ds.count .logFilesTooFew = if 1 ≤ c.logMaxFiles then 0 else 1
  endpointsUnnamed : ds.count .endpointNameMissing = c.endpoints.countP (·.name = "")
  endpointsRepeated (name : String) : ds.count (.endpointDuplicate name) =
    if name = "" then 0 else (c.endpoints.map Endpoint.name).count name - 1
  endpointsUnaddressed (name : String) : ds.count (.endpointAddressMissing name) =
    c.endpoints.countP fun e => e.name = name && e.address = ""
  workersUnnamed (name : String) : ds.count (.worker name .nameMissing) =
    c.processors.countP fun s => s.processorName = name && s.processorName = ""
  attempts (name : String) : ds.count (.worker name .attemptsTooLow) =
    c.processors.countP fun s => s.processorName = name && s.maxAttempts < -1
  retryIntervals (name : String) : ds.count (.worker name .retryIntervalNegative) =
    c.processors.countP fun s => s.processorName = name && s.retryIntervalMs < 0
  pollIntervals (name : String) : ds.count (.worker name .pollIntervalNegative) =
    c.processors.countP fun s => s.processorName = name && s.pollIntervalMs < 0
  startupDelays (name : String) : ds.count (.worker name .startupDelayNegative) =
    c.processors.countP fun s => s.processorName = name && s.startupDelayMs < 0
  throttleIntervals (name : String) : ds.count (.worker name .throttleIntervalTooLow) =
    c.processors.countP fun s =>
      s.processorName = name && (s.cronExpression != "" && s.throttleIntervalMs < -1)
  processorsRepeated (name : String) : ds.count (.processorDuplicate name) =
    if name = "" then 0 else (c.processors.map Settings.processorName).count name - 1
  ordered : ds.Pairwise fun d d' => d.part ≤ d'.part

theorem pairwise_part : c.defects.Pairwise fun d d' => d.part ≤ d'.part := by
  have level {ds : List Defect} {n : Nat} (h : ∀ d ∈ ds, d.part = n) :
      ds.Pairwise fun d d' => d.part ≤ d'.part :=
    List.pairwise_of_forall_mem_list fun d hd d' hd' =>
      Nat.le_of_eq ((h d hd).trans (h d' hd').symm)
  have first := c.part_loggingDefects
  have second := part_endpointsDefects [] c.endpoints
  have third := part_processorsDefects [] c.processors
  rw [defects, List.append_assoc]
  refine List.pairwise_append.2 ⟨level first, List.pairwise_append.2 ⟨level second, level third,
    fun d hd d' hd' => ?_⟩, fun d hd d' _ => ?_⟩
  · rw [second d hd, third d' hd']
    decide
  · rw [first d hd]
    exact Nat.zero_le _

theorem fullReport (c : Configuration) : c.FullReport c.defects := by
  have first := c.part_loggingDefects
  have second := part_endpointsDefects [] c.endpoints
  have third := part_processorsDefects [] c.processors
  have logging {d : Defect} (h : d.part = 0) : c.defects.count d = c.loggingDefects.count d := by
    rw [defects, List.count_append, List.count_append, count_of_part second (by rw [h]; decide),
      count_of_part third (by rw [h]; decide)]
    rfl
  have endpoints {d : Defect} (h : d.part = 1) :
      c.defects.count d = (endpointsDefects [] c.endpoints).count d := by
    rw [defects, List.count_append, List.count_append, count_of_part first (by rw [h]; decide),
      count_of_part third (by rw [h]; decide), Nat.zero_add]
    rfl
  have processors {d : Defect} (h : d.part = 2) :
      c.defects.count d = (processorsDefects [] c.processors).count d := by
    rw [defects, List.count_append, List.count_append, count_of_part first (by rw [h]; decide),
      count_of_part second (by rw [h]; decide), Nat.zero_add]
  have worker (name : String) (d : Settings.Defect) : c.defects.count (.worker name d) =
      c.processors.countP fun s => s.processorName = name && s.breaks d :=
    (processors rfl).trans (count_worker [] c.processors name d)
  exact
    { level := (logging rfl).trans c.count_loggingDefects.1
      size := (logging rfl).trans c.count_loggingDefects.2.1
      files := (logging rfl).trans c.count_loggingDefects.2.2
      endpointsUnnamed := by rw [endpoints rfl, count_endpointNameMissing]
      endpointsRepeated := fun name => by
        rw [endpoints rfl, count_endpointDuplicate, count_repeated, if_neg List.not_mem_nil]
      endpointsUnaddressed := fun name => by rw [endpoints rfl, count_endpointAddressMissing]
      workersUnnamed := fun name => worker name _
      attempts := fun name => worker name _
      retryIntervals := fun name => worker name _
      pollIntervals := fun name => worker name _
      startupDelays := fun name => worker name _
      throttleIntervals := fun name => worker name _
      processorsRepeated := fun name => by
        rw [processors rfl, count_processorDuplicate, count_repeated, if_neg List.not_mem_nil]
      ordered := pairwise_part }

structure WellFormed (c : Configuration) : Prop where
  level : c.logLevel ∈ ["debug", "info", "warn", "warning", "error", "fatal"]
  size : 0 < c.logMaxSizeMb
  files : 1 ≤ c.logMaxFiles
  endpointsNamed : ∀ e ∈ c.endpoints, e.name ≠ ""
  endpointsDistinct : (c.endpoints.map Endpoint.name).Nodup
  endpointsAddressed : ∀ e ∈ c.endpoints, e.address ≠ ""
  processorsNamed : ∀ s ∈ c.processors, s.processorName ≠ ""
  processorsDistinct : (c.processors.map Settings.processorName).Nodup
  workers : ∀ s ∈ c.processors, s.WellFormed

theorem nodup_iff_unrepeated {names : List String} (named : "" ∉ names) :
    names.Nodup ↔ ∀ name, 0 = if name = "" then 0 else names.count name - 1 := by
  rw [List.nodup_iff_count_le_one]
  refine forall_congr' fun name => ?_
  by_cases empty : name = ""
  · simp [empty, List.count_eq_zero.2 named]
  · rw [if_neg empty]
    omega

namespace FullReport

theorem workers (h : c.FullReport ds) (name : String) (d : Settings.Defect) :
    ds.count (.worker name d) = c.processors.countP fun s => s.processorName = name && s.breaks d := by
  cases d with
  | nameMissing => exact h.workersUnnamed name
  | attemptsTooLow => exact h.attempts name
  | retryIntervalNegative => exact h.retryIntervals name
  | pollIntervalNegative => exact h.pollIntervals name
  | startupDelayNegative => exact h.startupDelays name
  | throttleIntervalTooLow => exact h.throttleIntervals name

theorem wellFormed (h : c.FullReport []) : c.WellFormed := by
  have workers (s : Settings) (hs : s ∈ c.processors) : s.processorName ≠ "" ∧ s.WellFormed :=
    Settings.kept_iff.1 fun d => by
      simpa using List.countP_eq_zero.1 (h.workers s.processorName d).symm s hs
  have endpointsNamed : ∀ e ∈ c.endpoints, e.name ≠ "" := by
    simpa using List.countP_eq_zero.1 h.endpointsUnnamed.symm
  have processorsNamed (s : Settings) (hs : s ∈ c.processors) := (workers s hs).1
  exact
    { level := by
        by_contra unknown
        simpa [unknown] using h.level
      size := by simpa using h.size
      files := by simpa using h.files
      endpointsNamed
      endpointsDistinct :=
        (nodup_iff_unrepeated (by simpa using endpointsNamed)).2 h.endpointsRepeated
      endpointsAddressed := fun e he => by
        simpa using List.countP_eq_zero.1 (h.endpointsUnaddressed e.name).symm e he
      processorsNamed
      processorsDistinct :=
        (nodup_iff_unrepeated (by simpa using processorsNamed)).2 h.processorsRepeated
      workers := fun s hs => (workers s hs).2 }

theorem eq_nil (h : c.FullReport ds) (wellFormed : c.WellFormed) : ds = [] := by
  refine List.eq_nil_iff_forall_not_mem.2 fun d => List.count_eq_zero.1 ?_
  cases d with
  | logLevelUnknown => rw [h.level, if_pos wellFormed.level]
  | logSizeNotPositive => rw [h.size, if_pos wellFormed.size]
  | logFilesTooFew => rw [h.files, if_pos wellFormed.files]
  | endpointNameMissing =>
    rw [h.endpointsUnnamed, List.countP_eq_zero]
    simpa using wellFormed.endpointsNamed
  | endpointDuplicate name =>
    rw [h.endpointsRepeated]
    exact ((nodup_iff_unrepeated (by simpa using wellFormed.endpointsNamed)).1
      wellFormed.endpointsDistinct name).symm
  | endpointAddressMissing name =>
    rw [h.endpointsUnaddressed, List.countP_eq_zero]
    intro e he
    simp [wellFormed.endpointsAddressed e he]
  | worker name d =>
    rw [h.workers, List.countP_eq_zero]
    intro s hs
    simp [Settings.kept_iff.2 ⟨wellFormed.processorsNamed s hs, wellFormed.workers s hs⟩ d]
  | processorDuplicate name =>
    rw [h.processorsRepeated]
    exact ((nodup_iff_unrepeated (by simpa using wellFormed.processorsNamed)).1
      wellFormed.processorsDistinct name).symm

end FullReport

/-- Validation accepts the well-formed configurations and no others. It rejects another one with
a single error, whose report is full. What has been found before a worker is looked at stays in
front, and behind it comes one message for each rule the worker breaks. -/
theorem accepts_wellFormed (c : Configuration) :
    (c.validate.outcome = .ok () ↔ c.WellFormed) ∧
    (¬ c.WellFormed → ∃ ds, ds ≠ [] ∧ c.FullReport ds ∧
      c.validate = ⟨[⟨.error, report ds⟩], .error ds⟩) ∧
    ∀ (found : List String) (s : Settings),
      (s.review found = found ↔ s.processorName ≠ "" ∧ s.WellFormed) ∧
      ∃ ds : List Settings.Defect, ds.Nodup ∧ (∀ d, d ∈ ds ↔ s.breaks d = true) ∧
        s.review found = found ++ ds.map (Settings.Defect.message s.processorName) := by
  have none_iff : c.defects = [] ↔ c.WellFormed :=
    ⟨fun none => (none ▸ c.fullReport).wellFormed, c.fullReport.eq_nil⟩
  refine ⟨?_, fun flawed => ?_, fun found s => ⟨?_, s.defects, s.nodup_defects, ?_, ?_⟩⟩
  · rw [← none_iff]
    by_cases none : c.defects = []
    · simp [none, validate_accepted none]
    · simp [none, validate_rejected none]
  · have some : c.defects ≠ [] := mt none_iff.1 flawed
    exact ⟨c.defects, some, c.fullReport, validate_rejected some⟩
  · rw [s.review_eq, List.append_right_eq_self, Settings.complaints, List.map_eq_nil_iff,
      Settings.defects_eq_nil]
  · exact fun d => Settings.mem_defects
  · exact s.review_eq found

theorem accepts_wellFormed_flawed :
    let s : Settings := { retryIntervalMs := -10 }
    let c : Configuration := {
      logLevel := "loud"
      endpoints := [⟨"a", "x"⟩, ⟨"a", ""⟩, ⟨"a", "y"⟩]
      processors := [s] }
    ¬ c.WellFormed ∧ (∃ ds, ds ≠ [] ∧ c.FullReport ds ∧ ds.count (.endpointDuplicate "a") = 2 ∧
      c.validate = ⟨[⟨.error, report ds⟩], .error ds⟩) ∧
    s.review ["before"] = ["before", "processor name is required",
      "processor []: retryInterval must not be negative"] := by
  intro s c
  have flawed : ¬ c.WellFormed := fun h => absurd h.level (by decide)
  obtain ⟨ds, some, full, rejected⟩ := (accepts_wellFormed c).2.1 flawed
  refine ⟨flawed, ⟨ds, some, full, ?_, rejected⟩, by decide⟩
  rw [full.endpointsRepeated]
  decide

end Configuration

end Courier
