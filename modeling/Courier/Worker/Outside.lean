import Courier.Endpoint
import Courier.Fault
import Courier.Log
import Courier.Message

/-!
What a worker runs against: a store, a sender, sequences, endpoints, an owner and a clock, which
act on a world of any type. A call changes the world and may fail, and while it is going on the
worker can be told to terminate; what is only looked up does none of this.
-/

namespace Courier

inductive Aside
  /-- The collaborator, or somebody it calls, terminates the worker. -/
  | terminate
  /-- Another thread raises the flag of termination. -/
  | raise
  | log (record : Record)
  deriving DecidableEq, Repr

structure Reply (σ α : Type) where
  outcome : Except Fault α
  world : σ
  asides : List Aside

/-- The reply of a call that may have changed the message it was given, also where it fails. -/
structure Handled (σ α : Type) extends Reply σ α where
  message : Message

abbrev Call (σ α : Type) := σ → Reply σ α

structure Outside (σ : Type) where
  ownerName : σ → String
  isDeactivated : σ → Bool
  deactivate : Call σ Unit
  storeName : Call σ String
  createConsumer : Call σ Bool
  receive : Call σ (Option Message)
  /-- Removes the message received last from the store, or answers that it could not. -/
  acknowledge : σ → Bool × σ
  isAlive : σ → Bool
  endpoints : σ → Endpoint.Registry
  /-- One blocking exchange. No response means that a one-way exchange is complete. -/
  send : Endpoint → Message → σ → Handled σ (Option Message)
  sequence? : String → σ → Option (Message → σ → Handled σ Unit)
  now : σ → Int
  /-- Sleeps for some milliseconds; told whether the flag of termination is up already. Answers
  whether the sleep was completed. -/
  sleep : Int → Bool → Call σ Bool
  interrupt : σ → σ

end Courier
