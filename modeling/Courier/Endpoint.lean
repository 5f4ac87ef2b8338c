import Std.Data.ExtTreeMap

namespace Courier

structure Endpoint where
  name : String
  address : String
  deriving DecidableEq, Repr

namespace Endpoint

abbrev Registry := Std.ExtTreeMap String Endpoint

def Registry.add (r : Registry) (e : Endpoint) : Registry := r.insert e.name e

def Registry.ofList (es : List Endpoint) : Registry := es.foldl Registry.add ∅

def Registry.resolve (r : Registry) (name : String) : Option Endpoint := r[name]?

theorem Registry.resolve_add (r : Registry) (e : Endpoint) (name : String) :
    (r.add e).resolve name = if e.name = name then some e else r.resolve name := by
  simp [resolve, add, Std.ExtTreeMap.getElem?_insert]

end Endpoint

end Courier
