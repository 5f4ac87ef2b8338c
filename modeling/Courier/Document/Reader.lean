import Courier.Document
import Courier.Numeral

namespace Courier.Document.Reader

def isSpace (c : Char) : Bool := c = ' ' || c = '\t' || c = '\n' || c = '\r'

def skip (cs : List Char) : List Char := cs.dropWhile isSpace

def hexUnit (a b c d : Char) : Option Nat := Numeral.magnitude 16 [a, b, c, d]

def shortEscape : Char → Option Char
  | '\x22' => some '\x22'
  | '\\' => some '\\'
  | '/' => some '/'
  | 'b' => some '\x08'
  | 'f' => some '\x0c'
  | 'n' => some '\n'
  | 'r' => some '\r'
  | 't' => some '\t'
  | _ => none

def units : List Char → Option (List Nat × List Char)
  | '\x22' :: cs => some ([], cs)
  | '\\' :: 'u' :: a :: b :: c :: d :: cs => do
    let unit ← hexUnit a b c d
    let (rest, cs) ← units cs
    return (unit :: rest, cs)
  | '\\' :: e :: cs => do
    let c ← shortEscape e
    let (rest, cs) ← units cs
    return (c.toNat :: rest, cs)
  | c :: cs => do
    if c.toNat < 32 then none
    let (rest, cs) ← units cs
    return (c.toNat :: rest, cs)
  | [] => none

def characters : List Nat → List Char
  | high :: low :: rest =>
    if 0xD800 ≤ high ∧ high < 0xDC00 ∧ 0xDC00 ≤ low ∧ low < 0xE000 then
      Char.ofNat (0x10000 + (high - 0xD800) * 0x400 + (low - 0xDC00)) :: characters rest
    else single high :: characters (low :: rest)
  | [unit] => [single unit]
  | [] => []
where
  single (unit : Nat) : Char :=
    if 0xD800 ≤ unit ∧ unit < 0xE000 then '\ufffd' else Char.ofNat unit

def quoted (cs : List Char) : Option (String × List Char) :=
  (units cs).map fun (us, cs) => (String.ofList (characters us), cs)

def isDigit (c : Char) : Bool := '0' ≤ c && c ≤ '9'

def digits (cs : List Char) : Option (List Char × List Char) :=
  if (cs.takeWhile isDigit).isEmpty then none
  else some (cs.takeWhile isDigit, cs.dropWhile isDigit)

def whole : List Char → Option (List Char × List Char)
  | '0' :: cs => some (['0'], cs)
  | cs => digits cs

def fraction : List Char → Option (List Char × List Char)
  | '.' :: cs => (digits cs).map fun (ds, cs) => ('.' :: ds, cs)
  | cs => some ([], cs)

def exponentSign : List Char → List Char × List Char
  | '+' :: cs => (['+'], cs)
  | '-' :: cs => (['-'], cs)
  | cs => ([], cs)

def exponent : List Char → Option (List Char × List Char)
  | c :: cs =>
    if c = 'e' ∨ c = 'E' then
      let (sign, cs) := exponentSign cs
      (digits cs).map fun (ds, cs) => (c :: sign ++ ds, cs)
    else some ([], c :: cs)
  | [] => some ([], [])

def unsignedNumber (cs : List Char) : Option (List Char × List Char) := do
  let (n, cs) ← whole cs
  let (f, cs) ← fraction cs
  let (e, cs) ← exponent cs
  return (n ++ f ++ e, cs)

def numeral : List Char → Option (List Char × List Char)
  | '-' :: cs => (unsignedNumber cs).map fun (n, cs) => ('-' :: n, cs)
  | cs => unsignedNumber cs

mutual

def value : Nat → List Char → Option (Document × List Char)
  | 0, _ => none
  | fuel + 1, cs =>
    match skip cs with
    | 'n' :: 'u' :: 'l' :: 'l' :: cs => some (.null, cs)
    | 't' :: 'r' :: 'u' :: 'e' :: cs => some (.flag true, cs)
    | 'f' :: 'a' :: 'l' :: 's' :: 'e' :: cs => some (.flag false, cs)
    | '\x22' :: cs => (quoted cs).map fun (s, cs) => (.text s, cs)
    | '[' :: cs =>
      match skip cs with
      | ']' :: cs => some (.list [], cs)
      | cs => (elements fuel cs).map fun (vs, cs) => (.list vs, cs)
    | '\x7b' :: cs =>
      match skip cs with
      | '\x7d' :: cs => some (.map [], cs)
      | cs => (members fuel cs).map fun (es, cs) => (.map es, cs)
    | cs => (numeral cs).map fun (n, cs) => (.number (String.ofList n), cs)

def elements : Nat → List Char → Option (List Document × List Char)
  | 0, _ => none
  | fuel + 1, cs => do
    let (v, cs) ← value fuel cs
    match skip cs with
    | ',' :: cs => (elements fuel cs).map fun (vs, cs) => (v :: vs, cs)
    | ']' :: cs => some ([v], cs)
    | _ => none

def members : Nat → List Char → Option (List (String × Document) × List Char)
  | 0, _ => none
  | fuel + 1, cs =>
    match skip cs with
    | '\x22' :: cs => do
      let (key, cs) ← quoted cs
      match skip cs with
      | ':' :: cs => do
        let (v, cs) ← value fuel cs
        match skip cs with
        | ',' :: cs => (members fuel cs).map fun (es, cs) => ((key, v) :: es, cs)
        | '\x7d' :: cs => some ([(key, v)], cs)
        | _ => none
      | _ => none
    | _ => none

end

end Reader

/-- The tree a text holds, if it holds one and nothing else. Every level of the reader's recursion
takes at least one character per two units of fuel, so the fuel never runs out first. -/
def read? (s : String) : Option Document :=
  match Reader.value (2 * s.toList.length + 2) s.toList with
  | some (tree, rest) => if (Reader.skip rest).isEmpty then some tree else none
  | none => none

end Courier.Document
