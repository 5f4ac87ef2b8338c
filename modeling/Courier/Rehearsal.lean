import Courier.Host
import Courier.Worker

/-!
Scripted collaborators, to try settings out without a store, a transport or a clock of the real
kind. A script says what each call does, call by call; the `Stand` is the state they share.
-/

namespace Courier.Rehearsal

inductive Action
  | fail (fault : Fault)
  | setProperty (key value : String)
  | removeProperty (key : String)
  | setId (id : String)
  | setBody (body : Document)
  | terminate
  | order (o : Order)
  | setDeactivated (value : Bool)
  | setAlive (value : Bool)
  | advance (ms : Int)
  | push (message : Message)
  | addSequence (name : String) (actions : List Action)
  | removeSequence (name : String)
  | addEndpoint (endpoint : Endpoint)

inductive Opening
  | refused
  | opened (actions : List Action)

structure Response where
  id : Option String
  properties : Properties
  body : Document

structure Exchange where
  actions : List Action
  response : Option Response

structure Rest where
  actions : List Action
  completes : Bool

/-- What each collaborator does, call by call. Where a list is at its end a call takes its usual
course; the last exchange is repeated. -/
structure Script where
  ownerName : String
  storeName : String
  openings : List Opening
  receipts : List (List Action)
  receiptMs : Int
  receiptLimit : Option Nat
  acknowledgements : List Bool
  exchanges : List Exchange
  rests : List Rest
  onDeactivate : List Action

structure Stand where
  pending : List Message
  acknowledged : List String
  alive : Bool
  deactivated : Bool
  now : Int
  endpoints : Endpoint.Registry
  sequences : Sequence.Registry (List Action)
  openings : Nat
  receipts : Nat
  acknowledgements : Nat
  exchanges : Nat
  rests : Nat

def Stand.fresh (pending : List Message) (endpoints : Endpoint.Registry)
    (sequences : Sequence.Registry (List Action)) (alive deactivated : Bool) : Stand :=
  ⟨pending, [], alive, deactivated, 0, endpoints, sequences, 0, 0, 0, 0, 0⟩

structure Setting (σ : Type) where
  get : σ → Stand
  set : Stand → σ → σ
  movesClock : Bool
  terminate : List Aside
  order : Order → σ → Except Fault Unit × σ × List Aside

structure Scene (σ : Type) where
  world : σ
  message : Option Message
  asides : List Aside

namespace Setting

variable {σ : Type} (t : Setting σ)

def modify (f : Stand → Stand) (w : σ) : σ := t.set (f (t.get w)) w

def onMessage (f : Message → Message) (c : Scene σ) : Except Fault Unit × Scene σ :=
  (.ok (), { c with message := c.message.map f })

def onStand (f : Stand → Stand) (c : Scene σ) : Except Fault Unit × Scene σ :=
  (.ok (), { c with world := t.modify f c.world })

def perform (c : Scene σ) : Action → Except Fault Unit × Scene σ
  | .fail fault => (.error fault, c)
  | .setProperty key value => onMessage (·.setProperty key value) c
  | .removeProperty key => onMessage (·.removeProperty key) c
  | .setId id => onMessage (fun m => { m with id }) c
  | .setBody body => onMessage (fun m => { m with body }) c
  | .terminate => (.ok (), { c with asides := c.asides ++ t.terminate })
  | .order o =>
    let (outcome, world, asides) := t.order o c.world
    (outcome, { c with world, asides := c.asides ++ asides })
  | .setDeactivated value => t.onStand (fun s => { s with deactivated := value }) c
  | .setAlive value => t.onStand (fun s => { s with alive := value }) c
  | .advance ms =>
    t.onStand (fun s => { s with now := if t.movesClock then s.now + ms else s.now }) c
  | .push m => t.onStand (fun s => { s with pending := s.pending ++ [m] }) c
  | .addSequence name actions =>
    t.onStand (fun s => { s with sequences := s.sequences.insert name actions }) c
  | .removeSequence name => t.onStand (fun s => { s with sequences := s.sequences.remove name }) c
  | .addEndpoint e => t.onStand (fun s => { s with endpoints := s.endpoints.add e }) c

def performAll (c : Scene σ) : List Action → Except Fault Unit × Scene σ
  | [] => (.ok (), c)
  | a :: as =>
    match t.perform c a with
    | (.ok _, c) => performAll c as
    | (.error fault, c) => (.error fault, c)

def scripted {α : Type} (actions : List Action) (course : Scene σ → α × σ) : Call σ α := fun w =>
  match t.performAll ⟨w, none, []⟩ actions with
  | (.error fault, c) => ⟨.error fault, c.world, c.asides⟩
  | (.ok _, c) => ⟨.ok (course c).1, (course c).2, c.asides⟩

def mediated (actions : List Action) (m : Message) (w : σ) : Handled σ Message :=
  match t.performAll ⟨w, some m, []⟩ actions with
  | (outcome, c) =>
    ⟨⟨outcome.map fun _ => c.message.getD m, c.world, c.asides⟩, c.message.getD m⟩

end Setting

namespace Script

variable {σ : Type} (script : Script) (t : Setting σ)

def createConsumer : Call σ Bool := fun w =>
  let opening := script.openings[(t.get w).openings]?
  let w := t.modify (fun s => { s with openings := s.openings + 1 }) w
  match opening with
  | some .refused => ⟨.ok false, w, []⟩
  | some (.opened actions) => t.scripted actions (fun c => (true, c.world)) w
  | none => ⟨.ok true, w, []⟩

def receive : Call σ (Option Message) := fun w =>
  let n := (t.get w).receipts
  let w := t.modify (fun s => { s with receipts := n + 1 }) w
  if script.receiptLimit.any (· ≤ n) then ⟨.error (.runtime "receive limit reached"), w, []⟩
  else t.scripted (script.receipts.getD n []) (fun c =>
    let w := t.modify (fun s => { s with now := s.now + script.receiptMs }) c.world
    ((t.get w).pending.head?, w)) w

def acknowledge (w : σ) : Bool × σ :=
  let n := (t.get w).acknowledgements
  let w := t.modify (fun s => { s with acknowledgements := n + 1 }) w
  match script.acknowledgements.getD n true, (t.get w).pending with
  | true, m :: rest =>
    (true, t.modify (fun s => { s with pending := rest, acknowledged := s.acknowledged ++ [m.id] }) w)
  | _, _ => (false, w)

def exchange (n : Nat) : Exchange :=
  (script.exchanges[n]? <|> script.exchanges.getLast?).getD ⟨[], none⟩

def Response.message (r : Response) (sent : Message) : Message :=
  ⟨r.id.getD sent.id, r.properties, r.body⟩

def sendLimit : Nat := 200

def send (_ : Endpoint) (m : Message) (w : σ) : Handled σ (Option Message) :=
  let n := (t.get w).exchanges
  let w := t.modify (fun s => { s with exchanges := n + 1 }) w
  if sendLimit ≤ n then ⟨⟨.error .unknown, w, []⟩, m⟩
  else
    let handled := t.mediated (script.exchange n).actions m w
    { handled with
      outcome := handled.outcome.map fun m =>
        (script.exchange n).response.map (Response.message · m) }

def sequence? (name : String) (w : σ) : Option (Message → σ → Handled σ Unit) :=
  ((t.get w).sequences.find name).map fun actions m w =>
    let handled := t.mediated actions m w
    { handled with outcome := handled.outcome.map fun _ => () }

def sleep (ms : Int) (cancelled : Bool) : Call σ Bool := fun w =>
  let rest := script.rests.getD (t.get w).rests ⟨[], true⟩
  let w := t.modify (fun s => { s with rests := s.rests + 1 }) w
  t.scripted rest.actions (fun c =>
    if cancelled || c.asides.any (· matches .terminate) || !rest.completes then (false, c.world)
    else (true, t.modify (fun s => { s with now := s.now + ms }) c.world)) w

def deactivate : Call σ Unit := fun w =>
  t.scripted script.onDeactivate (fun c => ((), c.world))
    (t.modify (fun s => { s with deactivated := true }) w)

def outside : Outside σ where
  ownerName _ := script.ownerName
  isDeactivated w := (t.get w).deactivated
  deactivate := script.deactivate t
  storeName w := ⟨.ok script.storeName, w, []⟩
  createConsumer := script.createConsumer t
  receive := script.receive t
  acknowledge := script.acknowledge t
  isAlive w := (t.get w).alive
  endpoints w := (t.get w).endpoints
  send := script.send t
  sequence? := Script.sequence? t
  now w := (t.get w).now
  sleep := script.sleep t
  interrupt w := w

end Script

def act {σ : Type} (t : Setting σ) (w : Worker σ) (a : Action) (m : Option Message) :
    Act σ (Except Fault Unit × Option Message) := do
  let (outcome, c) ← Act.look fun world => t.perform ⟨world, m, []⟩ a
  return (← w.take ⟨outcome, c.world, c.asides⟩, c.message)

def alone (hasWorker : Bool) : Setting Stand where
  get s := s
  set s _ := s
  movesClock := true
  terminate := if hasWorker then [.terminate] else []
  order _ s := (.ok (), s, [])

end Courier.Rehearsal
