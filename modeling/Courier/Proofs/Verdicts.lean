import Courier.Retry
import Mathlib.Data.List.Induction

/-!
The history behind a verdict. A policy keeps nothing, and the progress of a message holds one
number; yet the verdict on a failed attempt is a matter of all that came up before it. It depends on
how many attempts have failed since the last new start or the last message that was dropped.
-/

namespace Courier.RetryPolicy

inductive Occasion
  | failure (terminated : Bool)
  | reset

inductive Entry
  | failure (terminated : Bool) (decision : Decision)
  | reset

namespace Entry

def counts : Entry → Bool
  | .failure terminated _ => !terminated
  | .reset => false

def resets : Entry → Bool
  | .failure _ _ => false
  | .reset => true

def drops : Entry → Bool
  | .failure _ decision => decision.verdict = .dropped
  | .reset => false

end Entry

/-- How many attempts count since the last entry of some kind, in a history that has its latest
entry first. -/
def countedSince (ends : Entry → Bool) (past : List Entry) : Nat :=
  (past.takeWhile fun e => !ends e).countP Entry.counts

section Counting

variable {ends : Entry → Bool} {e : Entry} {past : List Entry}

theorem countedSince_of_ends (h : ends e = true) : countedSince ends (e :: past) = 0 := by
  simp [countedSince, h]

theorem countedSince_cons (h : ends e = false) :
    countedSince ends (e :: past) = countedSince ends past + e.counts.toNat := by
  cases counts : e.counts <;> simp [countedSince, h, counts]

end Counting

def respond (p : RetryPolicy) (s : Progress) : Occasion → Entry × Progress
  | .failure terminated =>
    (.failure terminated (p.onFailure terminated s).1, (p.onFailure terminated s).2)
  | .reset => (.reset, .fresh)

def history (p : RetryPolicy) (os : List Occasion) : List Entry × Progress :=
  os.foldl (fun (past, s) o => ((p.respond s o).1 :: past, (p.respond s o).2)) ([], .fresh)

theorem history_concat (p : RetryPolicy) (os : List Occasion) (o : Occasion) :
    p.history (os ++ [o]) =
      ((p.respond (p.history os).2 o).1 :: (p.history os).1, (p.respond (p.history os).2 o).2) := by
  simp [history]

variable {n interval : Int} {drop : Bool} {s : Progress} {o : Occasion}

theorem onFailure_of (n interval : Int) (drop : Bool) (s : Progress) :
    (RetryPolicy.of n interval drop).onFailure false s =
      if n ≤ 0 then (⟨.willRetry, max interval 0⟩, s)
      else if s.attempts + 1 < n then
        (⟨.willRetry, max interval 0⟩, ⟨s.attempts + 1, s.succeeded⟩)
      else if drop then (⟨.dropped, 0⟩, ⟨0, true⟩)
      else (⟨.deactivated, 0⟩, ⟨s.attempts + 1, s.succeeded⟩) := by
  by_cases unbounded : n ≤ 0
  · have bound : (RetryPolicy.of n interval drop).bounded = false :=
      decide_eq_false (Int.not_lt.2 unbounded)
    rw [if_pos unbounded, onFailure_unbounded bound]
    rfl
  · have positive : 0 < n := Int.not_le.1 unbounded
    have bound : (RetryPolicy.of n interval drop).bounded = true := decide_eq_true positive
    have drops : (RetryPolicy.of n interval drop).drops = drop := by
      simp [RetryPolicy.of, positive]
    rw [if_neg unbounded]
    by_cases within : s.attempts + 1 < n
    · rw [if_pos within, onFailure_within bound within]
      rfl
    · rw [if_neg within]
      cases drop with
      | true => exact onFailure_dropped bound (Int.not_lt.1 within) drops
      | false => exact onFailure_deactivated bound (Int.not_lt.1 within) drops

theorem onFailure_dropped_iff :
    ((RetryPolicy.of n interval drop).onFailure false s).1.verdict = .dropped ↔
      0 < n ∧ drop = true ∧ n ≤ s.attempts + 1 := by
  rw [onFailure_of]
  split_ifs with unbounded within drops
  · simp [Int.not_lt.2 unbounded]
  · simp [Int.not_le.2 within]
  · simp [Int.not_le.1 unbounded, Int.not_lt.1 within, drops]
  · simp [drops]

/-- All that a policy can make of what comes up. -/
inductive Responds (n interval : Int) (drop : Bool) (s : Progress) :
    Occasion → Entry → Progress → Prop
  | reset : Responds n interval drop s .reset .reset .fresh
  | skipped : Responds n interval drop s (.failure true) (.failure true ⟨.skipped, 0⟩) s
  | unbounded : n ≤ 0 → Responds n interval drop s (.failure false)
      (.failure false ⟨.willRetry, max interval 0⟩) s
  | again : 0 < n → s.attempts + 1 < n → Responds n interval drop s (.failure false)
      (.failure false ⟨.willRetry, max interval 0⟩) ⟨s.attempts + 1, s.succeeded⟩
  | dropped : 0 < n → n ≤ s.attempts + 1 → drop = true → Responds n interval drop s (.failure false)
      (.failure false ⟨.dropped, 0⟩) ⟨0, true⟩
  | deactivated : 0 < n → n ≤ s.attempts + 1 → drop = false →
      Responds n interval drop s (.failure false)
        (.failure false ⟨.deactivated, 0⟩) ⟨s.attempts + 1, s.succeeded⟩

theorem responds (n interval : Int) (drop : Bool) (s : Progress) (o : Occasion) :
    Responds n interval drop s o ((RetryPolicy.of n interval drop).respond s o).1
      ((RetryPolicy.of n interval drop).respond s o).2 := by
  cases o with
  | reset => exact .reset
  | failure terminated =>
    cases terminated with
    | true => exact .skipped
    | false =>
      rw [respond, onFailure_of]
      split_ifs with unbounded within drops
      · exact .unbounded unbounded
      · exact .again (Int.not_le.1 unbounded) within
      · exact .dropped (Int.not_le.1 unbounded) (Int.not_lt.1 within) drops
      · exact .deactivated (Int.not_le.1 unbounded) (Int.not_lt.1 within)
          (Bool.eq_false_iff.2 drops)

/-- What every response preserves holds of every history. -/
theorem history_rule (n interval : Int) (drop : Bool) {P : List Entry → Progress → Prop}
    (start : P [] .fresh)
    (step : ∀ {past s o e s'}, P past s → Responds n interval drop s o e s' → P (e :: past) s')
    (os : List Occasion) :
    P ((RetryPolicy.of n interval drop).history os).1
      ((RetryPolicy.of n interval drop).history os).2 := by
  induction os using List.reverseRecOn with
  | nil => exact start
  | append_singleton os o ih =>
    rw [history_concat]
    exact step ih (responds n interval drop _ o)

theorem attempts_le_length (n interval : Int) (drop : Bool) (os : List Occasion) :
    0 ≤ ((RetryPolicy.of n interval drop).history os).2.attempts ∧
      ((RetryPolicy.of n interval drop).history os).2.attempts ≤ os.length := by
  have length : ((RetryPolicy.of n interval drop).history os).1.length = os.length := by
    induction os using List.reverseRecOn with
    | nil => rfl
    | append_singleton os o ih => simp [history_concat, ih]
  rw [← length]
  refine history_rule n interval drop
    (P := fun past s => 0 ≤ s.attempts ∧ s.attempts ≤ past.length) (by decide) ?_ os
  intro past s o e s' ih responds
  rw [List.length_cons]
  cases responds <;> grind [Progress.fresh]

theorem attempts_history (bounded : 0 < n) (interval : Int) (drop : Bool) (os : List Occasion) :
    ((RetryPolicy.of n interval drop).history os).2.attempts =
      countedSince (fun e => e.resets || e.drops)
        ((RetryPolicy.of n interval drop).history os).1 := by
  refine history_rule n interval drop
    (P := fun past s => s.attempts = countedSince (fun e => e.resets || e.drops) past) rfl ?_ os
  intro past s o e s' ih responds
  cases responds with
  | reset =>
    rw [countedSince_of_ends rfl]
    rfl
  | skipped =>
    rw [countedSince_cons rfl, ih]
    rfl
  | unbounded unbounded => exact absurd bounded (Int.not_lt.2 unbounded)
  | again =>
    rw [countedSince_cons rfl]
    exact congrArg (· + 1) ih
  | dropped =>
    rw [countedSince_of_ends rfl]
    rfl
  | deactivated =>
    rw [countedSince_cons rfl]
    exact congrArg (· + 1) ih

theorem emod_add_one (bounded : 0 < n) (k : Int) :
    (k % n + 1 < n → (k + 1) % n = k % n + 1) ∧ (n ≤ k % n + 1 → (k + 1) % n = 0) := by
  have low := Int.emod_nonneg k (Int.ne_of_gt bounded)
  have high := Int.emod_lt_of_pos k bounded
  rw [← Int.emod_add_emod]
  refine ⟨fun within => Int.emod_eq_of_lt (by omega) within, fun reached => ?_⟩
  have whole : k % n + 1 = n := by omega
  rw [whole, Int.emod_self]

theorem le_emod_add_one_iff (bounded : 0 < n) (k : Int) : n ≤ k % n + 1 ↔ n ∣ k + 1 := by
  obtain ⟨within, reached⟩ := emod_add_one bounded k
  have low := Int.emod_nonneg k (Int.ne_of_gt bounded)
  refine ⟨fun last => Int.dvd_of_emod_eq_zero (reached last), fun divides => ?_⟩
  by_contra fewer
  have := within (Int.not_le.1 fewer)
  rw [Int.emod_eq_zero_of_dvd divides] at this
  omega

theorem attempts_history_emod (bounded : 0 < n) (interval : Int) (os : List Occasion) :
    ((RetryPolicy.of n interval true).history os).2.attempts =
      countedSince Entry.resets ((RetryPolicy.of n interval true).history os).1 % n := by
  refine history_rule n interval true
    (P := fun past s => s.attempts = countedSince Entry.resets past % n) rfl ?_ os
  intro past s o e s' ih responds
  obtain ⟨within, reached⟩ := emod_add_one bounded (countedSince Entry.resets past)
  cases responds with
  | reset =>
    rw [countedSince_of_ends rfl]
    rfl
  | skipped =>
    rw [countedSince_cons rfl, ih]
    rfl
  | unbounded unbounded => exact absurd bounded (Int.not_lt.2 unbounded)
  | again _ fewer =>
    rw [ih] at fewer
    rw [countedSince_cons rfl]
    exact (congrArg (· + 1) ih).trans (within fewer).symm
  | dropped _ last _ =>
    rw [ih] at last
    rw [countedSince_cons rfl]
    exact (reached last).symm
  | deactivated _ _ kept => cases kept

/-- What is decided on a failed attempt, after any history. An attempt of a terminated worker
changes nothing. Any other one is counted, together with those since the last new start or drop:
without a bound it is tried again and nothing changes; below the bound it is tried again; at the
bound the message is dropped, where messages are, and else the worker is deactivated. A drop is every
`n`-th failure since the last new start. The count is at most the number of what has come up, so that
it needs no more than a word for a history a word can count. -/
theorem verdict_of_history (n interval : Int) (drop : Bool) (os : List Occasion) :
    let p := RetryPolicy.of n interval drop
    let past := (p.history os).1
    let s := (p.history os).2
    let c := countedSince (fun e => e.resets || e.drops) past + 1
    p.onFailure true s = (⟨.skipped, 0⟩, s) ∧
    p.onFailure false s =
      (if n ≤ 0 then (⟨.willRetry, max interval 0⟩, s)
      else if c < n then (⟨.willRetry, max interval 0⟩, ⟨c, s.succeeded⟩)
      else if drop then (⟨.dropped, 0⟩, ⟨0, true⟩)
      else (⟨.deactivated, 0⟩, ⟨c, s.succeeded⟩)) ∧
    ((p.onFailure false s).1.verdict = .dropped ↔
      0 < n ∧ drop = true ∧ n ∣ countedSince Entry.resets past + 1) ∧
    0 ≤ s.attempts ∧ s.attempts ≤ os.length := by
  intro p past s c
  refine ⟨rfl, ?_, ?_, attempts_le_length n interval drop os⟩
  · rw [onFailure_of]
    by_cases unbounded : n ≤ 0
    · rw [if_pos unbounded, if_pos unbounded]
    · have count : s.attempts + 1 = c :=
        congrArg (· + 1) (attempts_history (Int.not_le.1 unbounded) interval drop os)
      rw [count]
  · rw [onFailure_dropped_iff]
    refine and_congr_right fun bounded => and_congr_right fun drops => ?_
    subst drops
    have remainder : s.attempts = _ := attempts_history_emod bounded interval os
    rw [remainder, le_emod_add_one_iff bounded]

end Courier.RetryPolicy
