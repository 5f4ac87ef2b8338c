import Courier.Document

namespace Courier.Document

def hexDigit (n : Nat) : Char :=
  if n < 10 then Char.ofNat ('0'.toNat + n) else Char.ofNat ('a'.toNat + (n - 10))

def escape (c : Char) : List Char :=
  if c = '\x22' then ['\\', '\x22']
  else if c = '\\' then ['\\', '\\']
  else if c.toNat < 32 then
    ['\\', 'u', '0', '0', hexDigit (c.toNat / 16), hexDigit (c.toNat % 16)]
  else [c]

def quote (s : String) : String := "\"" ++ String.ofList (s.toList.flatMap escape) ++ "\""

mutual

def render : Document → String
  | .null => "null"
  | .flag true => "true"
  | .flag false => "false"
  | .number literal => literal
  | .text value => quote value
  | .list items => "[" ++ ",".intercalate (renderItems items) ++ "]"
  | .map entries => "\x7b" ++ ",".intercalate (renderEntries entries) ++ "\x7d"

def renderItems : List Document → List String
  | [] => []
  | item :: items => item.render :: renderItems items

def renderEntries : List (String × Document) → List String
  | [] => []
  | (key, value) :: entries => (quote key ++ ":" ++ value.render) :: renderEntries entries

end

end Courier.Document
