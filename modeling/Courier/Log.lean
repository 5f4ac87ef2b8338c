namespace Courier

abbrev Severity := Int

namespace Severity

def debug : Severity := 0

def info : Severity := 1

def warn : Severity := 2

def error : Severity := 3

def fatal : Severity := 4

def ofName : String → Severity
  | "debug" => debug
  | "info" => info
  | "warn" => warn
  | "warning" => warn
  | "error" => error
  | "fatal" => fatal
  | _ => info

def tag : Severity → String
  | 0 => "DEBUG"
  | 1 => "INFO"
  | 2 => "WARN"
  | 3 => "ERROR"
  | 4 => "FATAL"
  | _ => "UNKNOWN"

end Severity

structure Record where
  severity : Severity
  text : String
  deriving DecidableEq, Repr

namespace Record

def line (r : Record) : String := "[" ++ Severity.tag r.severity ++ "] " ++ r.text

def visible (threshold : Severity) (r : Record) : Bool := threshold ≤ r.severity

end Record

/-- What a computation came to, and the records it logged on the way there. -/
structure Logged (ε α : Type) where
  records : List Record
  outcome : Except ε α

namespace Logged

variable {ε ε' α β : Type}

def pure (a : α) : Logged ε α := ⟨[], .ok a⟩

def bind (x : Logged ε α) (f : α → Logged ε β) : Logged ε β :=
  match x.outcome with
  | .error e => ⟨x.records, .error e⟩
  | .ok a => ⟨x.records ++ (f a).records, (f a).outcome⟩

instance : Monad (Logged ε) where
  pure := Logged.pure
  bind := Logged.bind

theorem pure_eq (a : α) : (Pure.pure a : Logged ε α) = ⟨[], .ok a⟩ := rfl

@[simp] theorem ok_bind (rs : List Record) (a : α) (f : α → Logged ε β) :
    (⟨rs, .ok a⟩ >>= f) = ⟨rs ++ (f a).records, (f a).outcome⟩ := rfl

@[simp] theorem error_bind (rs : List Record) (e : ε) (f : α → Logged ε β) :
    (⟨rs, .error e⟩ >>= f) = ⟨rs, .error e⟩ := rfl

theorem outcome_bind (x : Logged ε α) (f : α → Logged ε β) :
    (x >>= f).outcome = x.outcome >>= fun a => (f a).outcome := by
  rcases x with ⟨_, _ | _⟩ <;> rfl

instance : LawfulMonad (Logged ε) := LawfulMonad.mk' _
  (fun ⟨_, outcome⟩ => by cases outcome <;> simp [Functor.map, Logged.bind, Logged.pure])
  (fun _ _ => rfl)
  (fun ⟨_, outcome⟩ f _ => by
    cases outcome with
    | error e => rfl
    | ok a =>
      rw [ok_bind, ok_bind]
      rcases f a with ⟨_, _ | _⟩
      · rfl
      · simp)

def ofExcept (outcome : Except ε α) : Logged ε α := ⟨[], outcome⟩

def fail (e : ε) : Logged ε α := ⟨[], .error e⟩

def log (severity : Severity) (text : String) : Logged ε Unit := ⟨[⟨severity, text⟩], .ok ()⟩

def mapError (f : ε → ε') (x : Logged ε α) : Logged ε' α := ⟨x.records, x.outcome.mapError f⟩

end Logged

end Courier
