namespace Courier

abbrev Bytes := List UInt8

namespace Bytes

def ofText (s : String) : Bytes := s.toUTF8.toList

structure Partial where
  code : Nat
  more : Nat
  low : Nat
  high : Nat

def begin? (b : Nat) : Option Partial :=
  if b < 0xC2 then none
  else if b < 0xE0 then some ⟨b - 0xC0, 0, 0x80, 0xBF⟩
  else if b = 0xE0 then some ⟨0, 1, 0xA0, 0xBF⟩
  else if b = 0xED then some ⟨0xD, 1, 0x80, 0x9F⟩
  else if b < 0xF0 then some ⟨b - 0xE0, 1, 0x80, 0xBF⟩
  else if b = 0xF0 then some ⟨0, 2, 0x90, 0xBF⟩
  else if b < 0xF4 then some ⟨b - 0xF0, 2, 0x80, 0xBF⟩
  else if b = 0xF4 then some ⟨4, 2, 0x80, 0x8F⟩
  else none

def first (b : Nat) : List Char × Option Partial :=
  if b < 0x80 then ([Char.ofNat b], none)
  else
    match begin? b with
    | some p => ([], some p)
    | none => (['\ufffd'], none)

def next (pending : Option Partial) (b : Nat) : List Char × Option Partial :=
  match pending with
  | none => first b
  | some p =>
    if p.low ≤ b ∧ b ≤ p.high then
      match p.more with
      | 0 => ([Char.ofNat (p.code * 64 + b % 64)], none)
      | more + 1 => ([], some ⟨p.code * 64 + b % 64, more, 0x80, 0xBF⟩)
    else ('\ufffd' :: (first b).1, (first b).2)

def decode (pending : Option Partial) : Bytes → List Char
  | [] => if pending.isSome then ['\ufffd'] else []
  | b :: bs => (next pending b.toNat).1 ++ decode (next pending b.toNat).2 bs

def toText (bs : Bytes) : String := String.ofList (decode none bs)

end Bytes

end Courier
