/-!
Trees of maps, lists and scalars: the form of configuration documents and of message bodies. A
number stays the text it was written as, so that passing a tree on changes nothing in it.
-/

namespace Courier

inductive Document
  | null
  | flag (value : Bool)
  | number (literal : String)
  | text (value : String)
  | list (items : List Document)
  | map (entries : List (String × Document))
  deriving Repr, Inhabited, BEq

namespace Document

def scalar? : Document → Option String
  | .flag true => some "true"
  | .flag false => some "false"
  | .number literal => some literal
  | .text value => some value
  | _ => none

def find? (key : String) : Document → Option Document
  | .map entries => entries.lookup key
  | _ => none

def ofInt (n : Int) : Document := .number (toString n)

def ofStrings (texts : List String) : Document := .list (texts.map .text)

end Document

end Courier
