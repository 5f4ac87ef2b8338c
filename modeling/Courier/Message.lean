import Courier.Document
import Std.Data.ExtTreeMap

namespace Courier

abbrev Properties := Std.ExtTreeMap String String

structure Message where
  id : String
  properties : Properties
  body : Document

namespace Property

def targetEndpoint : String := "TARGET_ENDPOINT"

/-- Set to `true` on a response by a transport that failed without raising a failure. -/
def blockingSenderError : String := "BLOCKING_SENDER_ERROR"

def errorMessage : String := "ERROR_MESSAGE"

def httpStatus : String := "HTTP_SC"

def nonErrorHttpStatusCodes : String := "NON_ERROR_HTTP_STATUS_CODES"

end Property

namespace Message

def property? (m : Message) (key : String) : Option String := m.properties[key]?

def property (m : Message) (key : String) : String := (m.property? key).getD ""

def setProperty (m : Message) (key value : String) : Message :=
  { m with properties := m.properties.insert key value }

def removeProperty (m : Message) (key : String) : Message :=
  { m with properties := m.properties.erase key }

theorem property?_setProperty (m : Message) (key value other : String) :
    (m.setProperty key value).property? other =
      if key = other then some value else m.property? other := by
  simp [property?, setProperty, Std.ExtTreeMap.getElem?_insert]

theorem property?_removeProperty (m : Message) (key other : String) :
    (m.removeProperty key).property? other = if key = other then none else m.property? other := by
  simp [property?, removeProperty, Std.ExtTreeMap.getElem?_erase]

end Message

end Courier
