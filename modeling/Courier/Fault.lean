import Courier.Text

namespace Courier

inductive Fault
  | delivery (what cause : String)
  | runtime (what : String)
  | invalidArgument (what : String)
  | unknown
  deriving DecidableEq, Repr

def Fault.describe? : Fault → Option String
  | .delivery what _ => some (Text.beforeNul what)
  | .runtime what => some (Text.beforeNul what)
  | .invalidArgument what => some (Text.beforeNul what)
  | .unknown => none

end Courier
