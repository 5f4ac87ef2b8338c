namespace Courier

structure Progress where
  attempts : Int
  succeeded : Bool
  deriving DecidableEq, Repr

def Progress.fresh : Progress := ⟨0, false⟩

inductive RetryVerdict
  | willRetry
  | dropped
  | deactivated
  | skipped
  deriving DecidableEq, Repr

namespace RetryVerdict

def name : RetryVerdict → String
  | .willRetry => "WillRetry"
  | .dropped => "Dropped"
  | .deactivated => "Deactivated"
  | .skipped => "Skipped"

def ofRank : Int → Option RetryVerdict
  | 0 => some .willRetry
  | 1 => some .dropped
  | 2 => some .deactivated
  | 3 => some .skipped
  | _ => none

end RetryVerdict

structure RetryPolicy where
  maxAttempts : Int
  intervalMs : Int
  drops : Bool
  deriving DecidableEq, Repr

namespace RetryPolicy

def of (maxAttempts intervalMs : Int) (drop : Bool) : RetryPolicy :=
  ⟨maxAttempts, max intervalMs 0, drop && 0 < maxAttempts⟩

def bounded (p : RetryPolicy) : Bool := 0 < p.maxAttempts

structure Decision where
  verdict : RetryVerdict
  delayMs : Int
  deriving DecidableEq, Repr

def onFailure (p : RetryPolicy) (terminated : Bool) (s : Progress) : Decision × Progress :=
  if terminated then (⟨.skipped, 0⟩, s)
  else if !p.bounded then (⟨.willRetry, p.intervalMs⟩, s)
  else if s.attempts + 1 < p.maxAttempts then
    (⟨.willRetry, p.intervalMs⟩, { s with attempts := s.attempts + 1 })
  else if p.drops then (⟨.dropped, 0⟩, ⟨0, true⟩)
  else (⟨.deactivated, 0⟩, { s with attempts := s.attempts + 1 })

theorem onFailure_terminated (p : RetryPolicy) (s : Progress) :
    p.onFailure true s = (⟨.skipped, 0⟩, s) := rfl

theorem onFailure_unbounded {p : RetryPolicy} (h : p.bounded = false) (s : Progress) :
    p.onFailure false s = (⟨.willRetry, p.intervalMs⟩, s) := by
  simp [onFailure, h]

theorem onFailure_within {p : RetryPolicy} {s : Progress} (h : p.bounded = true)
    (h' : s.attempts + 1 < p.maxAttempts) :
    p.onFailure false s = (⟨.willRetry, p.intervalMs⟩, { s with attempts := s.attempts + 1 }) := by
  simp [onFailure, h, h']

theorem onFailure_dropped {p : RetryPolicy} {s : Progress} (h : p.bounded = true)
    (h' : p.maxAttempts ≤ s.attempts + 1) (hd : p.drops = true) :
    p.onFailure false s = (⟨.dropped, 0⟩, ⟨0, true⟩) := by
  simp [onFailure, h, hd, Int.not_lt.2 h']

theorem onFailure_deactivated {p : RetryPolicy} {s : Progress} (h : p.bounded = true)
    (h' : p.maxAttempts ≤ s.attempts + 1) (hd : p.drops = false) :
    p.onFailure false s = (⟨.deactivated, 0⟩, { s with attempts := s.attempts + 1 }) := by
  simp [onFailure, h, hd, Int.not_lt.2 h']

end RetryPolicy

end Courier
