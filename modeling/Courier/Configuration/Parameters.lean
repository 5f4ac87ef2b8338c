import Courier.Configuration
import Courier.Log
import Courier.Numeral
import Std.Data.ExtTreeMap

/-!
Reads a worker's settings from its parameters, a table of texts. Of two spellings of one parameter
the first wins; of several bad values the first in reading order is the one reported.
-/

namespace Courier

abbrev Parameters := Std.ExtTreeMap String String

namespace Parameters

inductive Error
  | number (key raw : String)
  | boolean (key raw : String)
  deriving DecidableEq, Repr

def Error.message : Error → String
  | .number key raw => "Invalid numeric value for parameter " ++ key ++ ": '" ++ raw ++ "'"
  | .boolean key raw => "Invalid boolean value for parameter " ++ key ++ ": '" ++ raw ++ "'"

def known : List String :=
  ["maxDeliveryAttempts", "retryInterval", "retryIntervalMs", "interval", "pollInterval",
    "startupDelay", "replySequence", "faultSequence", "deactivateSequence", "targetEndpoint",
    "throttle", "deactivatedAtStartup", "cronExpression", "throttleInterval",
    "nonRetryStatusCodes", "maxDeliveryDrop"]

def number (w : Numeral.Width) (key raw : String) : Except Error Int :=
  match Numeral.ofText? w raw with
  | some n => .ok n
  | none => .error (.number key raw)

def ofWord : String → Option Bool
  | "true" => some true
  | "yes" => some true
  | "1" => some true
  | "false" => some false
  | "no" => some false
  | "0" => some false
  | _ => none

def boolean (key raw : String) : Except Error Bool :=
  match ofWord (Text.lower (Text.trim raw)) with
  | some b => .ok b
  | none => .error (.boolean key raw)

def either (p : Parameters) (key other : String) : Option (String × String) :=
  match p[key]? with
  | some raw => some (key, raw)
  | none => p[other]?.map fun raw => (other, raw)

def numberOr (absent : Int) (w : Numeral.Width) : Option (String × String) → Except Error Int
  | none => .ok absent
  | some (key, raw) => number w key raw

def booleanOr (absent : Bool) (p : Parameters) (key : String) : Except Error Bool :=
  match p[key]? with
  | none => .ok absent
  | some raw => boolean key raw

def trimmed (p : Parameters) (key : String) : String := (p[key]?.map Text.trim).getD ""

def independent (processorName : String) (p : Parameters) : Except Error Settings := do
  let absent : Settings := {}
  let maxAttempts ← numberOr absent.maxAttempts .int32
    (p.either "maxDeliveryAttempts" "maxDeliveryAttempts")
  let retryIntervalMs ← numberOr absent.retryIntervalMs .int32
    (p.either "retryInterval" "retryIntervalMs")
  let pollIntervalMs ← numberOr absent.pollIntervalMs .int64 (p.either "interval" "pollInterval")
  let startupDelayMs ← numberOr absent.startupDelayMs .int64
    (p.either "startupDelay" "startupDelay")
  let throttle ← booleanOr absent.throttle p "throttle"
  let deactivatedAtStartup ← booleanOr absent.deactivatedAtStartup p "deactivatedAtStartup"
  return {
    processorName, maxAttempts, retryIntervalMs, pollIntervalMs, startupDelayMs, throttle,
    deactivatedAtStartup
    replySequence := p.trimmed "replySequence"
    faultSequence := p.trimmed "faultSequence"
    deactivateSequence := p.trimmed "deactivateSequence"
    targetEndpoint := p.trimmed "targetEndpoint"
    cronExpression := p.trimmed "cronExpression"
    nonRetryTokens := (p["nonRetryStatusCodes"]?.map Text.items).getD [] }

def warn (processorName text : String) : Logged Error Unit :=
  .log .warn ("Processor [" ++ processorName ++ "]: " ++ text)

def warnUnknown (processorName : String) (p : Parameters) : Logged Error Unit :=
  ⟨(p.keys.filter fun key => !known.contains key).map fun key =>
    ⟨.warn, "Processor [" ++ processorName ++ "]: unknown parameter " ++ key ++ " ignored"⟩, .ok ()⟩

def throttleInterval (p : Parameters) (s : Settings) : Logged Error Settings :=
  match p["throttleInterval"]? with
  | none => return s
  | some raw =>
    if s.cronExpression = "" then do
      warn s.processorName "throttleInterval ignored without cronExpression"
      return s
    else do
      let throttleIntervalMs ← .ofExcept (number .int64 "throttleInterval" raw)
      return { s with throttleIntervalMs }

def drop (p : Parameters) (s : Settings) : Logged Error Settings :=
  if p.trimmed "maxDeliveryDrop" = "Enabled" then
    if 0 < s.maxAttempts then return { s with dropOnMaxAttempts := true }
    else do
      warn s.processorName "maxDeliveryDrop requires a bounded maxDeliveryAttempts"
      return s
  else return s

def settings (processorName : String) (p : Parameters) : Logged Error Settings := do
  warnUnknown processorName p
  let s ← .ofExcept (independent processorName p)
  let s ← p.throttleInterval s
  p.drop s

end Parameters

end Courier
