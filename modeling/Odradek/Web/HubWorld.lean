import Odradek.Web.Hub

/-!
What the hub's operations do: the lock, the pump tasks behind their command
channels, and the round trips under way. A pump answers its commands in order;
it may exit at any time, and whoever waits on it then learns that it is closed.
-/

namespace Odradek.Web

open Library

inductive PumpCommand
  | subscribe (request : Nat)
  | shutdown
  deriving DecidableEq

/-- `mpsc::channel(16)`. -/
def commandCapacity : Nat := 16

/-- A pump task as its handles see it: the receiving end of its channel. -/
structure PumpTask where
  isOpen : Bool
  commands : List PumpCommand
  deriving DecidableEq

inductive RequestState
  | unsent
  | queued
  | served
  | dropped
  deriving DecidableEq

structure Request where
  handle : PumpHandle
  position : Position
  filter : Filter
  state : RequestState
  deriving DecidableEq

/-- What an exiting pump leaves of a request: its queue is dropped. -/
def Request.atExit (channel : Nat) (r : Request) : Request :=
  if r.handle.channel = channel ∧ r.state = .queued then { r with state := .dropped } else r

structure HubWorld where
  hub : Hub
  holder : Option Nat
  pumps : List PumpTask
  requests : List Request
  calls : List HubCall
  log : List (Nat × HubEvent)
  outcomes : List (Nat × Outcome)

inductive HubChoice
  | go
  | gate (approves : Bool)
  | partitions (answer : Except SourceError (List Int))
  | source (answer : Except SourceError Unit)

inductive Weather
  | send (request : Nat)
  | serve (channel : Nat)
  | die (channel : Nat)

namespace HubWorld

def fresh (hub : Hub) : HubWorld :=
  { hub, holder := none, pumps := [], requests := [], calls := [], log := [], outcomes := [] }

def isOpen (w : HubWorld) (channel : Nat) : Bool :=
  match w.pumps[channel]? with
  | some pump => pump.isOpen
  | none => false

def note (w : HubWorld) (i : Nat) (event : HubEvent) : HubWorld :=
  { w with log := w.log ++ [(i, event)] }

def shutdownRan (w : HubWorld) : Bool := w.outcomes.any fun o => o.2 == .shutDown

def setPump (w : HubWorld) (channel : Nat) (pump : PumpTask) : HubWorld :=
  { w with pumps := w.pumps.set channel pump }

def setRequest (w : HubWorld) (request : Nat) (r : Request) : HubWorld :=
  { w with requests := w.requests.set request r }

def exit (w : HubWorld) (channel : Nat) : HubWorld :=
  { w with
    pumps := w.pumps.set channel { isOpen := false, commands := [] }
    requests := w.requests.map (Request.atExit channel) }

/-- `commands.send(command).await`, when there is room for it. -/
def enqueue (w : HubWorld) (channel : Nat) (command : PumpCommand) : Option HubWorld :=
  match w.pumps[channel]? with
  | some pump =>
    if pump.isOpen ∧ pump.commands.length < commandCapacity then
      some (w.setPump channel { pump with commands := pump.commands ++ [command] })
    else none
  | none => none

def ifHolder {α : Type} (w : HubWorld) (i : Nat) (out : α) : Option α :=
  if w.holder = some i then some out else none

def subscription (request : Nat) (r : Request) : Subscription :=
  { topic := r.handle.topic, partition := r.handle.partition, request }

def act (i : Nat) : (op : HubOp) → HubChoice → HubWorld → Option (op.Res × HubWorld)
  | .lock, .go, w => if w.holder = none then some ((), { w with holder := some i }) else none
  | .unlock, .go, w => w.ifHolder i ((), { w with holder := none })
  | .read, .go, w => w.ifHolder i (w.hub, w)
  | .write hub, .go, w => w.ifHolder i ((), { w with hub })
  | .askGate topic, .gate approves, w =>
    some (approves, if approves then w.note i (.approved topic) else w)
  | .listPartitions topic, .partitions answer, w => some (answer, w.note i (.listed topic answer))
  | .create _ _, .source answer, w => some (answer, w)
  | .spawn _ topic partition, .go, w =>
    let handle : PumpHandle := { topic, partition, channel := w.pumps.length }
    some (handle,
      ({ w with pumps := w.pumps ++ [{ isOpen := true, commands := [] }] } : HubWorld).note i
        (.started handle))
  | .isDead handle, .go, w => some (!w.isOpen handle.channel, w)
  | .subscribe handle position filter, .go, w =>
    some (w.requests.length,
      ({ w with
        requests := w.requests ++
          [{ handle, position, filter, state := .unsent }] } : HubWorld).note i
        (.registering handle))
  | .reply request, .go, w =>
    match w.requests[request]? with
    | some r =>
      match r.state with
      | .served => some (.ok (subscription request r), w)
      | .dropped => some (.error .pumpClosed, w)
      | _ => none
    | none => none
  | .shutdown handle, .go, w =>
    if w.isOpen handle.channel then
      (w.enqueue handle.channel .shutdown).map fun w => ((), w.note i (.told handle))
    else some ((), w.note i (.told handle))
  | .answer outcome, .go, w => some ((), { w with outcomes := w.outcomes ++ [(i, outcome)] })
  | .note event, .go, w => some ((), w.note i event)
  | _, _, _ => none

/-- Only a call that has begun acts. -/
def exec (i : Nat) (op : HubOp) (c : HubChoice) (w : HubWorld) : Option (op.Res × HubWorld) :=
  if i < w.calls.length then act i op c w else none

/-- A command on its way reaches the channel, or finds it closed. -/
def send (w : HubWorld) (request : Nat) : Option HubWorld :=
  match w.requests[request]? with
  | some r =>
    if r.state = .unsent then
      if w.isOpen r.handle.channel then
        (w.enqueue r.handle.channel (.subscribe request)).map fun w =>
          w.setRequest request { r with state := .queued }
      else some (w.setRequest request { r with state := .dropped })
    else none
  | none => none

/-- The pump takes its next command. -/
def serve (w : HubWorld) (channel : Nat) : Option HubWorld :=
  match w.pumps[channel]? with
  | some pump =>
    if pump.isOpen then
      match pump.commands with
      | .subscribe request :: rest =>
        match w.requests[request]? with
        | some r =>
          some ((w.setPump channel { pump with commands := rest }).setRequest request
            { r with state := .served })
        | none => none
      | .shutdown :: _ => some (w.exit channel)
      | [] => none
    else none
  | none => none

def idle : Weather → HubWorld → Option HubWorld
  | .send request, w => w.send request
  | .serve channel, w => w.serve channel
  | .die channel, w => if w.isOpen channel then some (w.exit channel) else none

def begin (i : Nat) (call : HubCall) (w : HubWorld) : Option HubWorld :=
  if w.calls.length = i then some { w with calls := w.calls ++ [call] } else none

end HubWorld

abbrev HubMachine := Machine HubWorld HubOp HubOp.Res HubChoice HubCall Weather

/-- The machine of a hub. A call that is dropped is not modelled. -/
def hubMachine : HubMachine :=
  { exec := HubWorld.exec
    drop := fun _ _ _ => none
    idle := HubWorld.idle
    begin := HubWorld.begin
    body := HubCall.body }

def HubWorld.Initial (w : HubWorld) : Prop :=
  ∃ gate maxPumps, w = .fresh (.new gate maxPumps)

end Odradek.Web
