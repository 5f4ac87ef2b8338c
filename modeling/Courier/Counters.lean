import Std.Data.ExtTreeMap

namespace Courier

abbrev Counters := Std.ExtTreeMap String Int

namespace Counters

def value (c : Counters) (name : String) : Int := c.getD name 0

def add (c : Counters) (name : String) (amount : Int) : Counters :=
  c.insert name (c.value name + amount)

def count (c : Counters) (name : String) : Counters := c.add name 1

def assign (c : Counters) (name : String) (value : Int) : Counters := c.insert name value

theorem value_add (c : Counters) (name other : String) (amount : Int) :
    (c.add name amount).value other = c.value other + if name = other then amount else 0 := by
  simp only [value, add, Std.ExtTreeMap.getD_insert]
  grind

theorem value_assign (c : Counters) (name other : String) (n : Int) :
    (c.assign name n).value other = if name = other then n else c.value other := by
  simp [value, assign, Std.ExtTreeMap.getD_insert]

def line (entry : String × Int) : String := entry.1 ++ " " ++ toString entry.2 ++ "\n"

def render (c : Counters) : String := String.join (c.toList.map line)

end Counters

end Courier
