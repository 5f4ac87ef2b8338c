import Courier.Text

namespace Courier.Numeral

inductive Width
  | int32
  | int64
  deriving DecidableEq, Repr

def Width.low : Width → Int
  | .int32 => -2147483648
  | .int64 => -9223372036854775808

def Width.high : Width → Int
  | .int32 => 2147483647
  | .int64 => 9223372036854775807

def Width.fits (w : Width) (n : Int) : Bool := w.low ≤ n && n ≤ w.high

def digit (c : Char) : Option Nat :=
  if '0' ≤ c ∧ c ≤ '9' then some (c.toNat - '0'.toNat)
  else if 'a' ≤ c ∧ c ≤ 'f' then some (c.toNat - 'a'.toNat + 10)
  else if 'A' ≤ c ∧ c ≤ 'F' then some (c.toNat - 'A'.toNat + 10)
  else none

def digitBelow (base : Nat) (c : Char) : Option Nat := (digit c).filter (· < base)

def magnitudeFrom (base acc : Nat) : List Char → Option Nat
  | [] => some acc
  | c :: cs => (digitBelow base c).bind fun d => magnitudeFrom base (base * acc + d) cs

def magnitude (base : Nat) : List Char → Option Nat
  | [] => none
  | c :: cs => magnitudeFrom base 0 (c :: cs)

def signed (read : List Char → Option Nat) : List Char → Option Int
  | '-' :: cs => (read cs).map fun n => -(n : Int)
  | '+' :: cs => (read cs).map fun n => (n : Int)
  | cs => (read cs).map fun n => (n : Int)

def decimal? (cs : List Char) : Option Int := signed (magnitude 10) cs

def basedMagnitude : List Char → Option Nat
  | '0' :: 'x' :: cs => magnitude 16 cs
  | '0' :: 'X' :: cs => magnitude 16 cs
  | '0' :: cs => magnitude 8 ('0' :: cs)
  | cs => magnitude 10 cs

def based? (cs : List Char) : Option Int :=
  signed basedMagnitude (cs.reverse.dropWhile Text.isBlank).reverse

def Width.narrow (w : Width) (n : Option Int) : Option Int := n.filter (w.fits ·)

/-- A decimal integer in the given range, with blanks around it. -/
def ofText? (w : Width) (s : String) : Option Int :=
  w.narrow (decimal? (Text.strip Text.isBlank s.toList))

/-- An integer of a document's scalar: any of the three bases, and no blanks in front. -/
def ofScalar? (w : Width) (s : String) : Option Int := w.narrow (based? s.toList)

end Courier.Numeral
