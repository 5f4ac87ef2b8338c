import Courier.Message
import Courier.Numeral

namespace Courier

inductive Outcome
  | success
  | retryable
  | nonRetryable
  deriving DecidableEq, Repr

namespace Outcome

def name : Outcome → String
  | .success => "Success"
  | .retryable => "RetryableFailure"
  | .nonRetryable => "NonRetryableFailure"

def ofRank : Int → Option Outcome
  | 0 => some .success
  | 1 => some .retryable
  | 2 => some .nonRetryable
  | _ => none

end Outcome

structure Verdict where
  outcome : Outcome
  reason : String
  deriving DecidableEq, Repr

/-- The statuses that count as errors in addition to those that begin with 4 or 5. -/
def Outcome.usualErrorStatuses : List String := ["301"]

structure Classifier where
  tokens : List String
  errorStatuses : List String

namespace Classifier

def ofTokens (tokens errorStatuses : List String) : Classifier :=
  ⟨tokens.filter (· != ""), errorStatuses⟩

def isNonRetryable (c : Classifier) (errorText : String) : Bool :=
  c.tokens.any fun token => Text.contains errorText token

def isErrorStatus (c : Classifier) (status : String) : Bool :=
  status.toList.head? == some '4' || status.toList.head? == some '5' ||
    c.errorStatuses.contains status

def isMargin (c : Char) : Bool := c = ' ' || c = '\t' || c = '\r' || c = '\n'

def statusCode? (token : String) : Option Int :=
  Numeral.Width.int32.narrow
    (Numeral.decimal? ((Text.strip isMargin token.toList).dropWhile Text.isBlank))

def place (n : Int) : List Int → List Int
  | [] => [n]
  | m :: ms => if n < m then n :: m :: ms else if n = m then m :: ms else m :: place n ms

theorem mem_place {n k : Int} {ns : List Int} : k ∈ place n ns ↔ k = n ∨ k ∈ ns := by
  induction ns with
  | nil => simp [place]
  | cons m ms ih => grind [place]

theorem pairwise_place {n : Int} {ns : List Int} (h : ns.Pairwise (· < ·)) :
    (place n ns).Pairwise (· < ·) := by
  induction ns with
  | nil => simp [place]
  | cons m ms ih => grind [place, mem_place, List.pairwise_cons]

def nonErrorStatusCodes (c : Classifier) : List Int :=
  (c.tokens.filterMap statusCode?).foldr place []

def nonErrorStatusText (c : Classifier) : String :=
  ",".intercalate (c.nonErrorStatusCodes.map toString)

def classifyError (c : Classifier) (errorText : String) : Verdict :=
  if c.isNonRetryable errorText then ⟨.nonRetryable, errorText⟩ else ⟨.retryable, errorText⟩

def classifyResponse (c : Classifier) (response : Message) : Verdict :=
  if response.property Property.blockingSenderError = "true" then
    c.classifyError (response.property Property.errorMessage)
  else if c.isErrorStatus (response.property Property.httpStatus) then
    ⟨.retryable, "HTTP status " ++ response.property Property.httpStatus⟩
  else ⟨.success, response.property Property.httpStatus⟩

end Classifier

end Courier
