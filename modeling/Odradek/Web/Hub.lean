import Mathlib.Data.List.AList
import Odradek.Library.Pool
import Odradek.Library.SortedMap
import Odradek.Web.Event

/-!
The hub (`hub.rs`): its map of pumps, the gate, the partition cache, and the
subscribe paths of `Hub` and `SharedHub`. A method is a program over the
operations another task can observe or interrupt; what runs between two of them
is one `read` or `write` of the hub. A `HashMap` is an `AList`.
-/

namespace Odradek.Web

open Library

inductive HubError
  | source (error : SourceError)
  | pumpClosed
  | shutDown
  | denied (topic : String)
  | atCapacity
  deriving DecidableEq

inductive TopicPosition
  | earliest
  | latest
  | after (cursor : SortedMap Int Int)
  deriving DecidableEq

inductive Gate
  | denyAll
  | any
  | predicate
  deriving DecidableEq

/-- A handle names the task behind it by its command channel. -/
structure PumpHandle where
  topic : String
  partition : Int
  channel : Nat
  deriving DecidableEq

def PumpHandle.samePump (handle other : PumpHandle) : Bool := handle.channel == other.channel

abbrev PumpKey := String × Int

def PumpHandle.key (handle : PumpHandle) : PumpKey := (handle.topic, handle.partition)

structure Hub where
  pumps : AList fun _ : PumpKey => PumpHandle
  topics : AList fun _ : String => List Int
  gate : Gate
  maxPumps : Nat
  shutDown : Bool
  deriving DecidableEq

def Hub.new (gate : Gate) (maxPumps : Nat) : Hub :=
  { pumps := ∅, topics := ∅, gate, maxPumps, shutDown := false }

/-- A subscription is known by the request that created it. -/
structure Subscription where
  topic : String
  partition : Int
  request : Nat
  deriving DecidableEq

/-- The subscriptions `merge` forwards into one stream. -/
structure TopicSubscription where
  topic : String
  partitions : List Int
  merged : List Subscription
  deriving DecidableEq

/-- What a finished call hands its caller. -/
inductive Outcome
  | subscribed (sub : Subscription)
  | subscribedTopic (sub : TopicSubscription)
  | reaped (count : Nat)
  | forgotTopics
  | shutDown
  | failed (error : HubError)
  deriving DecidableEq

/-- Which function starts a pump. -/
inductive Site
  | acquire
  | respawn
  deriving DecidableEq

/-- What the record of a run keeps, for the proofs only. -/
inductive HubEvent
  | approved (topic : String)
  | listed (topic : String) (answer : Except SourceError (List Int))
  | started (handle : PumpHandle)
  | registering (handle : PumpHandle)
  | told (handle : PumpHandle)
  /-- What a topic subscribe took down as already running. -/
  | before (running : List Int)
  /-- A reap, a respawn or a forget gave up on a pump. -/
  | gone (handle : PumpHandle)
  | released (handle : PumpHandle)
  | drained (handle : PumpHandle)
  deriving DecidableEq

inductive HubOp
  | lock
  | unlock
  | read
  | write (hub : Hub)
  | askGate (topic : String)
  | listPartitions (topic : String)
  | create (topic : String) (partition : Int)
  | spawn (site : Site) (topic : String) (partition : Int)
  | isDead (handle : PumpHandle)
  | subscribe (handle : PumpHandle) (position : Position) (filter : Filter)
  | reply (request : Nat)
  | shutdown (handle : PumpHandle)
  | answer (outcome : Outcome)
  /-- Nothing in the source: an entry of the record. -/
  | note (event : HubEvent)

@[reducible] def HubOp.Res : HubOp → Type
  | .lock | .unlock | .write _ | .shutdown _ | .answer _ | .note _ => Unit
  | .read => Hub
  | .askGate _ | .isDead _ => Bool
  | .listPartitions _ => Except SourceError (List Int)
  | .create _ _ => Except SourceError Unit
  | .spawn _ _ _ => PumpHandle
  | .subscribe _ _ _ => Nat
  | .reply _ => Except HubError Subscription

abbrev HubProgram := Program HubOp HubOp.Res

abbrev HubTry := ExceptT HubError HubProgram

def perform (op : HubOp) : HubProgram op.Res := Program.perform op

def readHub : HubProgram Hub := perform .read

def modifyHub (f : Hub → Hub) : HubProgram Unit := do
  let hub ← readHub
  perform (.write (f hub))

/-- `?` on a source call. -/
def fromSource {α : Type} (call : HubProgram (Except SourceError α)) : HubTry α :=
  ExceptT.mk do
    let answer ← call
    pure (answer.mapError .source)

/-- A result to match on, where `?` is not used. -/
def caught {α : Type} (call : HubTry α) : HubTry (Except HubError α) :=
  ExceptT.mk do
    let result ← call.run
    pure (.ok result)

def awaitReply (request : Nat) : HubTry Subscription := ExceptT.mk (perform (.reply request))

/-- `PumpHandle::subscribe`: the command goes out and its reply comes back. -/
def PumpHandle.subscribe (handle : PumpHandle) (position : Position) (filter : Filter) :
    HubTry Subscription := do
  let request ← perform (.subscribe handle position filter)
  awaitReply request

def partitionPosition (position : TopicPosition) (partition : Int) : Position :=
  match position with
  | .earliest => .earliest
  | .latest => .latest
  | .after cursor =>
    match cursor.lookup partition with
    | some seen => .after seen
    | none => .earliest

namespace Hub

def checkTopic (topic : String) : HubTry Unit := do
  let hub ← readHub
  if hub.shutDown then throw .shutDown
  else
    match hub.gate with
    | .any => pure ()
    | .predicate =>
      let approved ← perform (.askGate topic)
      if approved then pure () else throw (.denied topic)
    | .denyAll => throw (.denied topic)

def knownPartitions (topic : String) : HubTry (List Int) := do
  checkTopic topic
  let hub ← readHub
  match hub.topics.lookup topic with
  | some partitions => pure partitions
  | none =>
    let partitions ← fromSource (perform (.listPartitions topic))
    modifyHub fun hub => { hub with topics := hub.topics.insert topic partitions }
    pure partitions

def partitionsOf (topic : String) : HubTry (List Int) := knownPartitions topic

/-- `SourceError::not_found` of `check_partition`. -/
def noPartition (topic : String) (partition : Int) : SourceError :=
  { kind := .notFound, message := s!"topic {topic.quote} has no partition {partition}" }

def checkPartition (topic : String) (partition : Int) : HubTry Unit := do
  let partitions ← knownPartitions topic
  if partition ∈ partitions then pure () else throw (.source (noPartition topic partition))

def exitedKeys : List (Sigma fun _ : PumpKey => PumpHandle) → HubProgram (List PumpKey)
  | [] => pure []
  | entry :: rest => do
    let dead ← perform (.isDead entry.2)
    if dead then
      perform (.note (.gone entry.2))
      let keys ← exitedKeys rest
      pure (entry.1 :: keys)
    else exitedKeys rest

def eraseAll (hub : Hub) (keys : List PumpKey) : Hub :=
  { hub with pumps := keys.foldl (fun pumps key => pumps.erase key) hub.pumps }

def reapExitedPumps : HubProgram Nat := do
  let hub ← readHub
  let keys ← exitedKeys hub.pumps.entries
  perform (.write (hub.eraseAll keys))
  pure keys.length

def forgetTopics : HubProgram Unit := modifyHub fun hub => { hub with topics := ∅ }

def spawnPump (site : Site) (topic : String) (partition : Int) : HubTry PumpHandle := do
  fromSource (perform (.create topic partition))
  perform (.spawn site topic partition)

def insertPump (hub : Hub) (key : PumpKey) (handle : PumpHandle) : Hub :=
  { hub with pumps := hub.pumps.insert key handle }

def removePump (hub : Hub) (key : PumpKey) : Hub := { hub with pumps := hub.pumps.erase key }

/-- The entry `acquire` hands out: one whose pump has not exited. -/
def livePump (key : PumpKey) : HubProgram (Option PumpHandle) := do
  let hub ← readHub
  match hub.pumps.lookup key with
  | some handle =>
    let dead ← perform (.isDead handle)
    pure (if dead then none else some handle)
  | none => pure none

def acquire (topic : String) (partition : Int) : HubTry (PumpHandle × Bool) := do
  checkTopic topic
  match ← livePump (topic, partition) with
  | some handle => pure (handle, false)
  | none =>
    checkPartition topic partition
    let _ ← reapExitedPumps
    let hub ← readHub
    if hub.maxPumps ≤ hub.pumps.entries.length ∧ (topic, partition) ∉ hub.pumps then
      throw .atCapacity
    else
      let handle ← spawnPump .acquire topic partition
      modifyHub fun hub => hub.insertPump (topic, partition) handle
      pure (handle, true)

/-- The second half of `respawn`: the map still holds the stale pump, or none. -/
def replacePump (topic : String) (partition : Int) : HubTry PumpHandle := do
  match ← caught (spawnPump .respawn topic partition) with
  | .ok handle =>
    modifyHub fun hub => hub.insertPump (topic, partition) handle
    pure handle
  | .error e =>
    modifyHub fun hub => hub.removePump (topic, partition)
    throw e

def respawn (topic : String) (partition : Int) (stale : PumpHandle) : HubTry PumpHandle := do
  perform (.note (.gone stale))
  let hub ← readHub
  match hub.pumps.lookup (topic, partition) with
  | some current => if current.samePump stale then replacePump topic partition else pure current
  | none => replacePump topic partition

def forget (topic : String) (partition : Int) (stale : PumpHandle) : HubProgram Unit := do
  perform (.note (.gone stale))
  let hub ← readHub
  match hub.pumps.lookup (topic, partition) with
  | some current =>
    if current.samePump stale then perform (.write (hub.removePump (topic, partition)))
    else pure ()
  | none => pure ()

def subscribe (topic : String) (partition : Int) (position : Position) (filter : Filter) :
    HubTry Subscription := do
  let (handle, created) ← acquire topic partition
  match ← caught (handle.subscribe position filter) with
  | .ok sub => pure sub
  | .error e =>
    if e = .pumpClosed ∧ created = false then
      let handle ← respawn topic partition handle
      match ← caught (handle.subscribe position filter) with
      | .ok sub => pure sub
      | .error e =>
        forget topic partition handle
        throw e
    else if created then
      forget topic partition handle
      perform (.shutdown handle)
      throw e
    else throw e

def runningPartitions (topic : String) (partitions : List Int) : HubProgram (List Int) := do
  let hub ← readHub
  let running := partitions.filter fun partition => (topic, partition) ∈ hub.pumps
  perform (.note (.before running))
  pure running

def releaseNew (topic : String) (before : List Int) : List Int → HubProgram Unit
  | [] => pure ()
  | partition :: rest => do
    if partition ∈ before then releaseNew topic before rest
    else
      let hub ← readHub
      match hub.pumps.lookup (topic, partition) with
      | some handle =>
        perform (.write (hub.removePump (topic, partition)))
        perform (.shutdown handle)
        perform (.note (.released handle))
        releaseNew topic before rest
      | none => releaseNew topic before rest

def merge (topic : String) (partitions : List Int) (subscriptions : List Subscription) :
    TopicSubscription :=
  { topic, partitions, merged := subscriptions }

/-- The loop of `Hub::subscribe_topic`. -/
def subscribeEach (topic : String) (position : TopicPosition) (filter : Filter) :
    List Int → HubTry (List Subscription)
  | [] => pure []
  | partition :: rest => do
    let sub ← subscribe topic partition (partitionPosition position partition) filter
    let subs ← subscribeEach topic position filter rest
    pure (sub :: subs)

def subscribeTopic (topic : String) (position : TopicPosition) (filter : Filter) :
    HubTry TopicSubscription := do
  let partitions ← partitionsOf topic
  let before ← runningPartitions topic partitions
  match ← caught (subscribeEach topic position filter partitions) with
  | .ok subscriptions => pure (merge topic partitions subscriptions)
  | .error e =>
    releaseNew topic before partitions
    throw e

/-- The loop of `shutdown` over the drained map. -/
def tellAll : List (Sigma fun _ : PumpKey => PumpHandle) → HubProgram Unit
  | [] => pure ()
  | entry :: rest => do
    perform (.shutdown entry.2)
    perform (.note (.drained entry.2))
    tellAll rest

def shutdown : HubProgram Unit := do
  let hub ← readHub
  perform (.write { hub with shutDown := true, pumps := ∅ })
  tellAll hub.pumps.entries
  modifyHub fun hub => { hub with topics := ∅ }

end Hub

/-- The lock held over one body. -/
def locked {α : Type} (body : HubProgram α) : HubProgram α := do
  perform .lock
  let result ← body
  perform .unlock
  pure result

def lockedTry {α : Type} (body : HubTry α) : HubTry α := ExceptT.mk (locked body.run)

namespace SharedHub

/-- `SharedHub::subscribe`: the round trips run unlocked. -/
def subscribe (topic : String) (partition : Int) (position : Position) (filter : Filter) :
    HubTry Subscription := do
  let (handle, created) ← lockedTry (Hub.acquire topic partition)
  match ← caught (handle.subscribe position filter) with
  | .ok sub => pure sub
  | .error e =>
    if e = .pumpClosed ∧ created = false then
      let handle ← lockedTry (Hub.respawn topic partition handle)
      match ← caught (handle.subscribe position filter) with
      | .ok sub => pure sub
      | .error e =>
        (locked (Hub.forget topic partition handle) : HubProgram Unit)
        throw e
    else if created then
      (locked (Hub.forget topic partition handle) : HubProgram Unit)
      perform (.shutdown handle)
      throw e
    else throw e

def acquireEach (topic : String) : List Int → HubTry (List (PumpHandle × Bool))
  | [] => pure []
  | partition :: rest => do
    let entry ← Hub.acquire topic partition
    let entries ← acquireEach topic rest
    pure (entry :: entries)

/-- The locked phase of `SharedHub::subscribe_topic`. -/
def acquireAll (topic : String) (partitions : List Int) :
    HubTry (List (PumpHandle × Bool)) := do
  let before ← Hub.runningPartitions topic partitions
  match ← caught (acquireEach topic partitions) with
  | .ok handles => pure handles
  | .error e =>
    Hub.releaseNew topic before partitions
    throw e

/-- One spawned round trip of `SharedHub::subscribe_topic`. -/
structure Pending where
  partition : Int
  created : Bool
  handle : PumpHandle
  request : Nat
  deriving DecidableEq

def startAll (position : TopicPosition) (filter : Filter) :
    List ((PumpHandle × Bool) × Int) → HubProgram (List Pending)
  | [] => pure []
  | ((handle, created), partition) :: rest => do
    let request ← perform (.subscribe handle (partitionPosition position partition) filter)
    let pending ← startAll position filter rest
    pure ({ partition, created, handle, request } :: pending)

/-- The subscriptions that came back, and the partitions to try again. -/
def joinAll (topic : String) : List Pending → HubTry (List Subscription × List Int)
  | [] => pure ([], [])
  | task :: rest => do
    match ← caught (awaitReply task.request) with
    | .ok sub =>
      let (subscriptions, retry) ← joinAll topic rest
      pure (sub :: subscriptions, retry)
    | .error e =>
      if task.created then
        (locked (Hub.forget topic task.partition task.handle) : HubProgram Unit)
        perform (.shutdown task.handle)
        throw e
      else if e = .pumpClosed then
        let (subscriptions, retry) ← joinAll topic rest
        pure (subscriptions, task.partition :: retry)
      else throw e

def retryAll (topic : String) (position : TopicPosition) (filter : Filter) :
    List Int → HubTry (List Subscription)
  | [] => pure []
  | partition :: rest => do
    let sub ← subscribe topic partition (partitionPosition position partition) filter
    let subs ← retryAll topic position filter rest
    pure (sub :: subs)

def subscribeTopic (topic : String) (position : TopicPosition) (filter : Filter) :
    HubTry TopicSubscription := do
  let partitions ← lockedTry (Hub.partitionsOf topic)
  let handles ← lockedTry (acquireAll topic partitions)
  let pending ← startAll position filter (handles.zip partitions)
  let (subscriptions, retry) ← joinAll topic pending
  let retried ← retryAll topic position filter retry
  pure (Hub.merge topic partitions (subscriptions ++ retried))

end SharedHub

inductive HubRequest
  | subscribe (topic : String) (partition : Int) (position : Position) (filter : Filter)
  | subscribeTopic (topic : String) (position : TopicPosition) (filter : Filter)
  | reapExitedPumps
  | forgetTopics
  | shutdown

/-- A call through a `SharedHub`, or through a `Hub` its caller has to itself. -/
inductive HubCall
  | shared (request : HubRequest)
  | owned (request : HubRequest)

def Outcome.ofTry {α : Type} (ok : α → Outcome) : Except HubError α → Outcome
  | .ok a => ok a
  | .error e => .failed e

/-- What a call does with the whole hub to itself. -/
def HubRequest.owned : HubRequest → HubProgram Outcome
  | .subscribe topic partition position filter => do
    let result ← (Hub.subscribe topic partition position filter).run
    pure (.ofTry .subscribed result)
  | .subscribeTopic topic position filter => do
    let result ← (Hub.subscribeTopic topic position filter).run
    pure (.ofTry .subscribedTopic result)
  | .reapExitedPumps => do
    let count ← Hub.reapExitedPumps
    pure (.reaped count)
  | .forgetTopics => do
    Hub.forgetTopics
    pure .forgotTopics
  | .shutdown => do
    Hub.shutdown
    pure .shutDown

def HubRequest.shared : HubRequest → HubProgram Outcome
  | .subscribe topic partition position filter => do
    let result ← (SharedHub.subscribe topic partition position filter).run
    pure (.ofTry .subscribed result)
  | .subscribeTopic topic position filter => do
    let result ← (SharedHub.subscribeTopic topic position filter).run
    pure (.ofTry .subscribedTopic result)
  | request => locked request.owned

def HubCall.outcome : HubCall → HubProgram Outcome
  | .shared request => request.shared
  | .owned request => locked request.owned

def HubCall.body (call : HubCall) : HubProgram Unit := do
  let outcome ← call.outcome
  perform (.answer outcome)

end Odradek.Web
