import Courier.Configuration
import Courier.Log

namespace Courier

namespace Settings

inductive Defect
  | nameMissing
  | attemptsTooLow
  | retryIntervalNegative
  | pollIntervalNegative
  | startupDelayNegative
  | throttleIntervalTooLow
  deriving DecidableEq, Repr

def Defect.message (processorName : String) : Defect → String
  | .nameMissing => "processor name is required"
  | .attemptsTooLow => tagged "maxDeliveryAttempts must be -1 or greater"
  | .retryIntervalNegative => tagged "retryInterval must not be negative"
  | .pollIntervalNegative => tagged "interval must not be negative"
  | .startupDelayNegative => tagged "startupDelay must not be negative"
  | .throttleIntervalTooLow => tagged "throttleInterval must be -1 or greater"
where
  tagged (rule : String) : String := "processor [" ++ processorName ++ "]: " ++ rule

def breaks (s : Settings) : Defect → Bool
  | .nameMissing => s.processorName = ""
  | .attemptsTooLow => s.maxAttempts < -1
  | .retryIntervalNegative => s.retryIntervalMs < 0
  | .pollIntervalNegative => s.pollIntervalMs < 0
  | .startupDelayNegative => s.startupDelayMs < 0
  | .throttleIntervalTooLow => s.cronExpression != "" && s.throttleIntervalMs < -1

def Defect.all : List Defect :=
  [.nameMissing, .attemptsTooLow, .retryIntervalNegative, .pollIntervalNegative,
    .startupDelayNegative, .throttleIntervalTooLow]

def defects (s : Settings) : List Defect := Defect.all.filter s.breaks

def complaints (s : Settings) : List String := s.defects.map (Defect.message s.processorName)

def review (found : List String) (s : Settings) : List String :=
  Defect.all.foldl
    (fun found d => if s.breaks d then found ++ [d.message s.processorName] else found) found

end Settings

namespace Configuration

inductive Defect
  | logLevelUnknown
  | logSizeNotPositive
  | logFilesTooFew
  | endpointNameMissing
  | endpointDuplicate (name : String)
  | endpointAddressMissing (name : String)
  | worker (processorName : String) (defect : Settings.Defect)
  | processorDuplicate (name : String)
  deriving DecidableEq, Repr

def Defect.message : Defect → String
  | .logLevelUnknown => "logging.level must be one of: debug, info, warn, error, fatal"
  | .logSizeNotPositive => "logging.max_size_mb must be positive"
  | .logFilesTooFew => "logging.max_files must be at least 1"
  | .endpointNameMissing => "endpoint name is required"
  | .endpointDuplicate name => "duplicate endpoint name: " ++ name
  | .endpointAddressMissing name => "endpoint [" ++ name ++ "]: address is required"
  | .worker processorName defect => defect.message processorName
  | .processorDuplicate name => "duplicate processor name: " ++ name

def levels : List String := ["debug", "info", "warn", "warning", "error", "fatal"]

def loggingDefects (c : Configuration) : List Defect :=
  (if levels.contains c.logLevel then [] else [.logLevelUnknown]) ++
    (if 0 < c.logMaxSizeMb then [] else [.logSizeNotPositive]) ++
    (if 1 ≤ c.logMaxFiles then [] else [.logFilesTooFew])

def endpointDefects (seen : List String) (e : Endpoint) : List Defect :=
  (if e.name = "" then [.endpointNameMissing]
    else if seen.contains e.name then [.endpointDuplicate e.name] else []) ++
    (if e.address = "" then [.endpointAddressMissing e.name] else [])

def endpointsDefects (seen : List String) : List Endpoint → List Defect
  | [] => []
  | e :: es => endpointDefects seen e ++ endpointsDefects (e.name :: seen) es

def processorDefects (seen : List String) (s : Settings) : List Defect :=
  s.defects.map (.worker s.processorName) ++
    (if s.processorName != "" && seen.contains s.processorName then
      [.processorDuplicate s.processorName] else [])

def processorsDefects (seen : List String) : List Settings → List Defect
  | [] => []
  | s :: ss => processorDefects seen s ++ processorsDefects (s.processorName :: seen) ss

def defects (c : Configuration) : List Defect :=
  c.loggingDefects ++ endpointsDefects [] c.endpoints ++ processorsDefects [] c.processors

def report (defects : List Defect) : String :=
  "Configuration validation failed:\n" ++
    String.join (defects.map fun d => "  - " ++ d.message ++ "\n")

def validate (c : Configuration) : Logged (List Defect) Unit :=
  if c.defects = [] then .log .info "Configuration validation passed"
  else do
    .log .error (report c.defects)
    .fail c.defects

def rejection (defects : List Defect) : String := "Invalid configuration: " ++ report defects

end Configuration

end Courier
