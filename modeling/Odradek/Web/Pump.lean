import Odradek.Web.Event

/-!
The partition pump (`pump.rs`). `run_pump` is a loop over awaits; its control
point is `Pc` and its locals are `Pump`. Readers, the source, the senders of
commands and the tasks that carry terminal errors move between its steps. The
pump touches a channel one `try_send` at a time, so one `Action.tick` is at
most one `try_send` on each channel.
-/

namespace Odradek.Web

structure PumpConfig where
  ringCapacity : Nat
  queueCapacity : Nat
  maxConsecutiveErrors : Nat
  /-- `None` keeps an idle pump alive forever; the length of the wait is not modelled. -/
  idleShutdown : Bool
  deriving DecidableEq

structure StreamError where
  kind : SourceErrorKind
  message : String
  deriving DecidableEq

def StreamError.from (e : SourceError) : StreamError :=
  { kind := e.kind, message := e.message }

/-- What a subscriber's channel carries: `Result<SharedEvent, StreamError>`. -/
inductive StreamItem
  | event (event : Event)
  | error (error : StreamError)
  deriving DecidableEq

def StreamItem.event? : StreamItem → Option Event
  | .event e => some e
  | .error _ => none

/-- A bounded `mpsc` channel. `sent` is everything ever put into it, of which
the last `queued` items are still in the queue; `parked` are the spawned tasks
waiting to send a terminal error. -/
structure Channel where
  capacity : Nat
  sent : List StreamItem
  queued : Nat
  receiverOpen : Bool
  parked : List StreamError
  deriving DecidableEq

def Channel.new (capacity : Nat) : Channel :=
  { capacity, sent := [], queued := 0, receiverOpen := true, parked := [] }

inductive TrySend
  | ok (channel : Channel)
  | full
  | closed

def Channel.put (channel : Channel) (item : StreamItem) : Channel :=
  { channel with sent := channel.sent ++ [item], queued := channel.queued + 1 }

def Channel.trySend (channel : Channel) (item : StreamItem) : TrySend :=
  if channel.receiverOpen = false then .closed
  else if channel.capacity ≤ channel.queued then .full
  else .ok (channel.put item)

/-- `Sender::capacity`: the room left in the queue. -/
def Channel.room (channel : Channel) : Nat := channel.capacity - channel.queued

def Channel.receive (channel : Channel) : Channel :=
  { channel with queued := channel.queued - 1 }

def Channel.dropReceiver (channel : Channel) : Channel :=
  { channel with receiverOpen := false, queued := 0 }

/-- A parked task's `send` completes: with the item in the queue, or with the
error of a closed channel. It waits while the queue is full. -/
def Channel.unpark (channel : Channel) : Channel :=
  match channel.parked with
  | [] => channel
  | e :: rest =>
    match channel.trySend (.error e) with
    | .ok next => { next with parked := rest }
    | .closed => { channel with parked := rest }
    | .full => channel

inductive Mode
  | catchingUp
  | live
  deriving DecidableEq

inductive LiveEdge
  | unknown
  | at (position : Cursor)
  deriving DecidableEq

def cursorCoveredBy (cursor ringFloor : Cursor) : Bool := decide (ringFloor ≤ cursor)

structure Ring where
  events : List Event
  floor : Cursor
  capacity : Nat
  deriving DecidableEq

def Ring.new (capacity : Nat) : Ring := { events := [], floor := ⊥, capacity }

def Ring.rebase (ring : Ring) (start : Cursor) : Ring := { ring with floor := start }

/-- The `while` of `Ring::push`: pop until the window fits. -/
def Ring.evict (capacity : Nat) : List Event → Cursor → List Event × Cursor
  | [], floor => ([], floor)
  | dropped :: rest, floor =>
    if capacity < (dropped :: rest).length then Ring.evict capacity rest dropped.offset
    else (dropped :: rest, floor)

def Ring.push (ring : Ring) (event : Event) : Ring :=
  let kept := Ring.evict ring.capacity (ring.events ++ [event]) ring.floor
  { ring with events := kept.1, floor := kept.2 }

def Ring.covers (ring : Ring) (cursor : Cursor) : Bool := decide (ring.floor ≤ cursor)

/-- The events left of what `partition_point` finds at or before `cursor`. -/
def skipSeen (events : List Event) (cursor : Cursor) : List Event :=
  events.dropWhile fun event => (event.offset : Cursor) ≤ cursor

def Ring.after (ring : Ring) (cursor : Cursor) : List Event := skipSeen ring.events cursor

structure SubState where
  id : Nat
  sender : Channel
  filter : Filter
  mode : Mode
  cursor : Cursor
  closed : Bool
  catchUpErrors : Nat
  deriving DecidableEq

def SubState.pushLive (sub : SubState) (event : Event) : SubState :=
  if sub.mode ≠ .live ∨ sub.closed then sub
  else if sub.filter.matchesEvent event = false then { sub with cursor := event.offset }
  else
    match sub.sender.trySend (.event event) with
    | .ok sender => { sub with sender, cursor := event.offset }
    | .full => { sub with mode := .catchingUp }
    | .closed => { sub with closed := true }

def SubState.needsFetch (sub : SubState) (ringFloor liveEdge : Cursor) : Bool :=
  if sub.closed || sub.sender.room == 0 then false
  else
    match sub.mode with
    | .live => false
    | .catchingUp => decide (sub.cursor < liveEdge) && !cursorCoveredBy sub.cursor ringFloor

/-- `fail_one`, and what `fail_subs` does to each open subscriber. -/
def SubState.fail (sub : SubState) (error : SourceError) : SubState :=
  { sub with
    closed := true
    sender := { sub.sender with parked := sub.sender.parked ++ [StreamError.from error] } }

/-- A subscriber and what its subscription was opened with: the position it
asked for, the live edge and the log at that moment. The pump reads `state`
only. -/
structure Subscriber where
  state : SubState
  position : Position
  edge : LiveEdge
  held : List Event
  deriving DecidableEq

structure Subscribers where
  list : List Subscriber
  nextId : Nat
  rotor : Nat
  deriving DecidableEq

/-- The order of turns from `rotor` on: the key `(id < rotor, id)`. -/
def turnBefore (rotor a b : Nat) : Bool :=
  if decide (a < rotor) = decide (b < rotor) then decide (a < b) else decide (b < rotor)

/-- `min_by_key` over the subscribers owed a fetch: the first of the least. -/
def pickTurn (rotor : Nat) (ringFloor liveEdge : Cursor) :
    List Subscriber → Nat → Option (Nat × Nat) → Option (Nat × Nat)
  | [], _, best => best
  | sub :: rest, index, best =>
    pickTurn rotor ringFloor liveEdge rest (index + 1) <|
      if sub.state.needsFetch ringFloor liveEdge then
        match best with
        | none => some (index, sub.state.id)
        | some b =>
          if turnBefore rotor sub.state.id b.2 then some (index, sub.state.id) else some b
      else best

def Subscribers.nextFetch (subs : Subscribers) (ringFloor liveEdge : Cursor) :
    Option (Nat × Subscribers) :=
  (pickTurn subs.rotor ringFloor liveEdge subs.list 0 none).map fun b =>
    (b.1, { subs with rotor := b.2 + 1 })

/-- One turn of `push_run`'s loop, or why the run stopped. -/
inductive PushStep
  | shown (sub : SubState)
  | stalled
  | closed

def SubState.pushRunStep (sub : SubState) (event : Event) : PushStep :=
  if sub.filter.matchesEvent event then
    match sub.sender.trySend (.event event) with
    | .ok sender => .shown { sub with sender, cursor := event.offset }
    | .full => .stalled
    | .closed => .closed
  else .shown { sub with cursor := event.offset }

/-- `advance_from_ring` up to its `push_run`, and the run it pushes if any. -/
def SubState.advanceFromRing (sub : SubState) (ring : Ring) (liveEdge : Cursor) :
    SubState × Option (List Event) :=
  if sub.mode ≠ .catchingUp ∨ sub.closed then (sub, none)
  else if liveEdge ≤ sub.cursor then
    (if sub.cursor = liveEdge then { sub with mode := .live } else sub, none)
  else if ring.covers sub.cursor = false then (sub, none)
  else (sub, some (ring.after sub.cursor))

/-- A transient catch-up error against this subscriber's own budget. -/
def SubState.catchUpFailed (config : PumpConfig) (sub : SubState) (e : SourceError) : SubState :=
  let sub := { sub with catchUpErrors := sub.catchUpErrors + 1 }
  if config.maxConsecutiveErrors < sub.catchUpErrors then sub.fail e else sub

inductive Command
  | subscribe (position : Position) (filter : Filter)
  | shutdown
  deriving DecidableEq

/-- The control points of `run_pump`. `pushed` are the events of the batch
already fanned out, `index` the subscriber being served. -/
inductive Pc
  | loopHead
  | idle
  | draining
  | awaitLiveStart
  | awaitLiveFetch (cursor : Cursor)
  | fanningOut (cursor : Cursor) (pushed rest : List Event) (nextAfter : Cursor)
  | servingRing (index : Nat)
  | replayingRing (index : Nat) (rest : List Event)
  | choosing
  | awaitCatchUp (index : Nat)
  | replayingFetch (index : Nat) (rest : List Event) (nextAfter : Cursor)
  | exited
  deriving DecidableEq

structure Pump where
  ring : Ring
  subs : Subscribers
  liveEdge : LiveEdge
  consecutiveErrors : Nat
  pc : Pc
  deriving DecidableEq

/-- The pump in its surroundings. `settled` is the furthest position the log
has reached, with an entry or with a `next_after` its source handed out;
`liveStart` is the answer the source gave to `live_start`; `ended` are the
subscribers the pump has let go of. -/
structure World where
  log : List Event
  settled : Cursor
  liveStart : LiveEdge
  pump : Pump
  ended : List Subscriber
  deriving DecidableEq

inductive Action
  | append (event : Event)
  | receive (id : Nat)
  | dropReceiver (id : Nat)
  | unpark (id : Nat)
  | command (command : Command)
  | commandsClosed
  | noCommand
  | idleTimeout
  | liveStart (answer : Except SourceError Cursor)
  | fetched (answer : Except SourceError SourceBatch)
  | tick

namespace World

/-- Act on the channel of every subscription with this id; ids are not reused. -/
def onChannel (w : World) (id : Nat) (f : Channel → Channel) : World :=
  let act := fun s : Subscriber =>
    if s.state.id = id then { s with state := { s.state with sender := f s.state.sender } } else s
  { w with
    pump := { w.pump with subs := { w.pump.subs with list := w.pump.subs.list.map act } }
    ended := w.ended.map act }

def goto (w : World) (pc : Pc) : World := { w with pump := { w.pump with pc } }

def withList (w : World) (list : List Subscriber) : World :=
  { w with pump := { w.pump with subs := { w.pump.subs with list } } }

def onSub (w : World) (index : Nat) (f : SubState → SubState) : World :=
  w.withList (w.pump.subs.list.modify index fun s => { s with state := f s.state })

/-- The subscribers leave the pump with their senders dropped. -/
def exit (w : World) : World :=
  { (w.withList []).goto .exited with ended := w.ended ++ w.pump.subs.list }

def failSubs (w : World) (e : SourceError) : World :=
  (w.withList (w.pump.subs.list.map fun s =>
    if s.state.closed then s else { s with state := s.state.fail e })).exit

/-- `retain_live`, and the choice between idling and draining commands. -/
def retainLive (w : World) : World :=
  let live := fun s : Subscriber => !s.state.closed && s.state.sender.receiverOpen
  let kept := w.pump.subs.list.filter live
  let gone := w.pump.subs.list.filter fun s => !live s
  { (w.withList kept).goto (if kept.isEmpty then .idle else .draining) with
    ended := w.ended ++ gone }

/-- `handle_command` for a subscribe. -/
def subscribe (config : PumpConfig) (w : World) (position : Position) (filter : Filter) : World :=
  let start := match position with
    | .latest => (Mode.live, (⊥ : Cursor))
    | .after offset => (Mode.catchingUp, (offset : Cursor))
    | .earliest => (Mode.catchingUp, (⊥ : Cursor))
  let sub : SubState :=
    { id := w.pump.subs.nextId, sender := Channel.new config.queueCapacity, filter
      mode := start.1, cursor := start.2, closed := false, catchUpErrors := 0 }
  let subs := w.pump.subs
  { w with pump := { w.pump with subs := { subs with
      nextId := subs.nextId + 1
      list := subs.list ++
        [{ state := sub, position, edge := w.pump.liveEdge, held := w.log }] } } }

/-- A transient error on the live path goes to `retry`; a permanent one, or one
too many, ends the pump. -/
def liveError (config : PumpConfig) (w : World) (e : SourceError) (retry : Pc) : World :=
  let errors := w.pump.consecutiveErrors + 1
  let w := { w with pump := { w.pump with consecutiveErrors := errors } }
  if e.isPermanent ∨ config.maxConsecutiveErrors < errors then w.failSubs e else w.goto retry

/-- The steps the pump takes without waiting for anybody. -/
def tick (w : World) : Option World :=
  match w.pump.pc, w.pump.liveEdge with
  | .loopHead, _ => some w.retainLive
  | .fanningOut cursor pushed (event :: rest) nextAfter, _ =>
    let list := w.pump.subs.list.map fun s => { s with state := s.state.pushLive event }
    let w := (w.withList list).goto (.fanningOut cursor (pushed ++ [event]) rest nextAfter)
    some { w with pump := { w.pump with ring := w.pump.ring.push event } }
  | .fanningOut cursor _ [] nextAfter, _ =>
    some ({ w with pump := { w.pump with liveEdge := .at (max nextAfter cursor) } }.goto
      (.servingRing 0))
  | .servingRing index, .at edge =>
    match w.pump.subs.list[index]? with
    | none => some (w.goto .choosing)
    | some s =>
      match s.state.advanceFromRing w.pump.ring edge with
      | (sub, none) => some ((w.onSub index fun _ => sub).goto (.servingRing (index + 1)))
      | (_, some run) => some (w.goto (.replayingRing index run))
  | .replayingRing index (event :: rest), _ =>
    (w.pump.subs.list[index]?).map fun s =>
      match s.state.pushRunStep event with
      | .shown sub => (w.onSub index fun _ => sub).goto (.replayingRing index rest)
      | .stalled => w.goto (.servingRing (index + 1))
      | .closed =>
        (w.onSub index fun sub => { sub with closed := true }).goto (.servingRing (index + 1))
  | .replayingRing index [], _ =>
    some ((w.onSub index fun sub => { sub with mode := .live }).goto (.servingRing (index + 1)))
  | .choosing, .at edge =>
    match w.pump.subs.nextFetch w.pump.ring.floor edge with
    | none => some (w.goto .loopHead)
    | some (index, subs) =>
      some ({ w with pump := { w.pump with subs } }.goto (.awaitCatchUp index))
  | .replayingFetch index (event :: rest) nextAfter, _ =>
    (w.pump.subs.list[index]?).map fun s =>
      match s.state.pushRunStep event with
      | .shown sub => (w.onSub index fun _ => sub).goto (.replayingFetch index rest nextAfter)
      | .stalled => w.goto .loopHead
      | .closed => (w.onSub index fun sub => { sub with closed := true }).goto .loopHead
  | .replayingFetch index [] nextAfter, _ =>
    some ((w.onSub index fun sub =>
      { sub with cursor := max sub.cursor nextAfter }).goto .loopHead)
  | _, _ => none

/-- The position the pump has asked its source to fetch after. -/
def asked (w : World) : Option Cursor :=
  match w.pump.pc with
  | .awaitLiveFetch cursor => some cursor
  | .awaitCatchUp index => (w.pump.subs.list[index]?).map fun s => s.state.cursor
  | _ => none

def fetched (config : PumpConfig) (w : World) : Except SourceError SourceBatch → Option World
  | .ok batch =>
    let w := { w with settled := max w.settled batch.nextAfter }
    match w.pump.pc with
    | .awaitLiveFetch cursor =>
      some ({ w with pump := { w.pump with consecutiveErrors := 0 } }.goto
        (.fanningOut cursor [] batch.events batch.nextAfter))
    | .awaitCatchUp index =>
      (w.pump.subs.list[index]?).map fun s =>
        (w.onSub index fun sub => { sub with catchUpErrors := 0 }).goto
          (.replayingFetch index (skipSeen batch.events s.state.cursor) batch.nextAfter)
    | _ => none
  | .error e =>
    match w.pump.pc with
    | .awaitLiveFetch _ => some (w.liveError config e (.servingRing 0))
    | .awaitCatchUp index =>
      if e.isPermanent then some (w.failSubs e)
      else some ((w.onSub index (·.catchUpFailed config e)).goto .loopHead)
    | _ => none

def step (config : PumpConfig) (w : World) : Action → Option World
  | .append event => some { w with log := w.log ++ [event], settled := event.offset }
  | .receive id => some (w.onChannel id Channel.receive)
  | .dropReceiver id => some (w.onChannel id Channel.dropReceiver)
  | .unpark id => some (w.onChannel id Channel.unpark)
  | .command (.subscribe position filter) =>
    match w.pump.pc with
    | .idle | .draining => some ((w.subscribe config position filter).goto .draining)
    | _ => none
  | .command .shutdown =>
    match w.pump.pc with
    | .idle | .draining => some w.exit
    | _ => none
  | .commandsClosed => if w.pump.pc = .idle then some w.exit else none
  | .idleTimeout => if w.pump.pc = .idle ∧ config.idleShutdown then some w.exit else none
  | .noCommand =>
    match w.pump.pc, w.pump.liveEdge with
    | .draining, .unknown => some (w.goto .awaitLiveStart)
    | .draining, .at edge => some (w.goto (.awaitLiveFetch edge))
    | _, _ => none
  | .liveStart (.ok start) =>
    if w.pump.pc = .awaitLiveStart then
      some { w with
        liveStart := .at start
        pump := { w.pump with
          liveEdge := .at start
          ring := w.pump.ring.rebase start
          pc := .awaitLiveFetch start } }
    else none
  | .liveStart (.error e) =>
    if w.pump.pc = .awaitLiveStart then some (w.liveError config e .loopHead) else none
  | .fetched answer => w.fetched config answer
  | .tick => w.tick

/-- A pump just spawned over a log that may already hold records. -/
def start (config : PumpConfig) (log : List Event) (settled : Cursor) : World :=
  { log, settled, liveStart := .unknown, ended := []
    pump :=
      { ring := Ring.new config.ringCapacity
        subs := { list := [], nextId := 0, rotor := 0 }
        liveEdge := .unknown
        consecutiveErrors := 0
        pc := .loopHead } }

end World
end Odradek.Web
