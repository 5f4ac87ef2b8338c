import Courier.Endpoint

namespace Courier

structure Settings where
  processorName : String := ""
  storeName : String := ""
  maxAttempts : Int := -1
  retryIntervalMs : Int := 1000
  pollIntervalMs : Int := 1000
  throttle : Bool := true
  cronExpression : String := ""
  throttleIntervalMs : Int := -1
  nonRetryTokens : List String := []
  dropOnMaxAttempts : Bool := false
  targetEndpoint : String := ""
  replySequence : String := ""
  faultSequence : String := ""
  deactivateSequence : String := ""
  deactivatedAtStartup : Bool := false
  startupDelayMs : Int := 5000
  deriving DecidableEq, Repr

def Settings.cronMode (s : Settings) : Bool := s.cronExpression != "" && -1 < s.throttleIntervalMs

structure Configuration where
  logFile : String := ""
  logLevel : String := "info"
  logMaxSizeMb : Int := 100
  logMaxFiles : Int := 6
  endpoints : List Endpoint := []
  processors : List Settings := []
  deriving DecidableEq, Repr

end Courier
