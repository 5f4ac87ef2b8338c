import Courier.Configuration.Parameters
import Courier.Configuration.Validation
import Courier.Document.Reader

/-!
Loads a configuration from a document. A document that has been read is turned into a
configuration part by part, and the result is validated; only a valid configuration is returned.
-/

namespace Courier.Configuration

inductive LoadError
  | syntaxError
  | badFile
  | badSubscript
  | invalidNode
  | badConversion
  | parameterShape (key : String)
  | parameter (error : Parameters.Error)
  | invalid (defects : List Defect)

def LoadError.message : LoadError → String
  | .syntaxError => "syntax error"
  | .badFile => "bad file"
  | .badSubscript => "bad subscript"
  | .invalidNode => "invalid node"
  | .badConversion => "bad conversion"
  | .parameterShape key => "Parameter " ++ key ++ " must be a scalar or a list"
  | .parameter error => error.message
  | .invalid defects => rejection defects

def field (key : String) : Document → Except LoadError (Option Document)
  | .map entries => .ok (entries.lookup key)
  | .null => .ok none
  | .list _ => .ok none
  | _ => .error .badSubscript

def scalar (d : Document) : Except LoadError String :=
  match d.scalar? with
  | some s => .ok s
  | none => .error .badConversion

def integer (w : Numeral.Width) (d : Document) : Except LoadError Int :=
  match (d.scalar?.bind (Numeral.ofScalar? w)) with
  | some n => .ok n
  | none => .error .badConversion

def fieldOr {α : Type} (absent : α) (read : Document → Except LoadError α) (key : String)
    (d : Document) : Except LoadError α := do
  match ← field key d with
  | some v => read v
  | none => return absent

def each {α : Type} (read : Document → Logged LoadError α) : Document → Logged LoadError (List α)
  | .list items => items.mapM read
  | .map (_ :: _) => .fail .invalidNode
  | _ => return []

def logging (d : Document) (c : Configuration) : Except LoadError Configuration := do
  match ← field "logging" d with
  | none => return c
  | some l => return { c with
      logFile := ← fieldOr c.logFile scalar "file" l
      logLevel := ← fieldOr c.logLevel scalar "level" l
      logMaxSizeMb := ← fieldOr c.logMaxSizeMb (integer .int64) "max_size_mb" l
      logMaxFiles := ← fieldOr c.logMaxFiles (integer .int32) "max_files" l }

def endpoint (d : Document) : Except LoadError Endpoint := do
  return { name := ← fieldOr "" scalar "name" d, address := ← fieldOr "" scalar "address" d }

def joinItems (joined : String) : List Document → Except LoadError String
  | [] => .ok joined
  | d :: ds => do
    let item ← scalar d
    joinItems ((if joined = "" then "" else joined ++ ",") ++ item) ds

def parameterText (key : String) : Document → Except LoadError String
  | .list items => joinItems "" items
  | .map _ => .error (.parameterShape key)
  | .null => .error (.parameterShape key)
  | d => scalar d

def collect (p : Parameters) : List (String × Document) → Except LoadError Parameters
  | [] => .ok p
  | (key, d) :: entries => do
    let text ← parameterText key d
    collect (p.insert key text) entries

def parameters : Option Document → Except LoadError Parameters
  | some (.map entries) => collect ∅ entries
  | _ => .ok ∅

def processor (d : Document) : Logged LoadError Settings := do
  let name ← .ofExcept (fieldOr "" scalar "name" d)
  let p ← .ofExcept (do parameters (← field "parameters" d))
  let s ← (p.settings name).mapError .parameter
  let storeName ← .ofExcept (fieldOr s.storeName scalar "store" d)
  return { s with storeName }

def listed {α : Type} (key : String) (read : Document → Logged LoadError α) (d : Document) :
    Logged LoadError (List α) := do
  match ← .ofExcept (field key d) with
  | none => return []
  | some items => each read items

def ofDocument (d : Document) : Logged LoadError Configuration := do
  let c ← .ofExcept (logging d {})
  let endpoints ← listed "endpoints" (fun e => .ofExcept (endpoint e)) d
  let processors ← listed "processors" processor d
  return { c with endpoints, processors }

inductive Source
  | text
  | file
  deriving DecidableEq, Repr

def Source.failure : Source → String
  | .text => "Failed to parse config: "
  | .file => "Failed to load config: "

def reported {α : Type} (source : Source) (x : Logged LoadError α) : Logged LoadError α :=
  match x.outcome with
  | .ok _ => x
  | .error e =>
    ⟨x.records ++ [⟨.error, source.failure ++ Text.beforeNul e.message⟩], .error e⟩

def load (source : Source) (found : Except LoadError Document) : Logged LoadError Configuration := do
  let c ← reported source (do ofDocument (← .ofExcept found))
  c.validate.mapError .invalid
  return c

def parse (text : String) : Except LoadError Document :=
  match Document.read? text with
  | some d => .ok d
  | none => .error .syntaxError

end Courier.Configuration
