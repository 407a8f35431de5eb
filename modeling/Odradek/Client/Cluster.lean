import Odradek.Client.Retry
import Odradek.Library.AssocMap

/-!
The caches of a cluster handle (`cluster.rs`): the control connection, one connection a
broker, the pools of blocking ones, and where metadata and discovery last said things
are. What a dial or an exchange comes to is the network's to say; the versions a broker
speaks and the topic ids of metadata are left out.
-/

namespace Odradek.Client

section Routed

/-- Fallible, and changing the caches either way. -/
abbrev Routed (σ α : Type) := EStateM ClientError σ α

namespace Routed

variable {σ α β : Type} {x : Routed σ α} {f : α → Routed σ β} {s t : σ} {a : α} {e : ClientError}

/-- The value of an `Except`, as `?` takes it. -/
def lift (r : Except ClientError α) : Routed σ α := fun s =>
  match r with
  | .ok a => .ok a s
  | .error e => .error e s

def tried (x : Routed σ α) : Routed σ (Except ClientError α) := fun s =>
  match x s with
  | .ok a t => .ok (.ok a) t
  | .error e t => .ok (.error e) t

theorem bind_ok (h : x s = .ok a t) : (x >>= f) s = f a t := by
  show EStateM.bind x f s = _
  unfold EStateM.bind
  rw [h]

theorem bind_error (h : x s = .error e t) : (x >>= f) s = .error e t := by
  show EStateM.bind x f s = _
  unfold EStateM.bind
  rw [h]

theorem lift_ok {r : Except ClientError α} (h : r = .ok a) : lift r s = .ok a s := by
  rw [h]
  rfl

theorem lift_error {r : Except ClientError α} (h : r = .error e) : lift r s = .error e s := by
  rw [h]
  rfl

theorem modify_apply (g : σ → σ) : (modify g : Routed σ PUnit) s = .ok ⟨⟩ (g s) := rfl

theorem tried_ok (h : x s = .ok a t) : tried x s = .ok (.ok a) t := by
  unfold tried
  rw [h]

theorem tried_error (h : x s = .error e t) : tried x s = .ok (.error e) t := by
  unfold tried
  rw [h]

end Routed

end Routed

section State

/-- A negotiated connection. -/
structure Link where
  id : Nat
  deriving DecidableEq

structure BrokerInfo where
  nodeId : Int32
  host : String
  port : Int32
  deriving DecidableEq

def BrokerInfo.addr (info : BrokerInfo) : String := info.host ++ ":" ++ toString info.port

structure PartitionInfo where
  index : Int32
  leaderId : Int32
  error : ErrorCode
  deriving DecidableEq

structure BlockingPool where
  idle : List Link
  outstanding : Nat
  peak : Nat
  deriving DecidableEq

def BlockingPool.default : BlockingPool := { idle := [], outstanding := 0, peak := 0 }

inductive CoordinatorKind
  | group
  | transaction
  deriving DecidableEq

abbrev Cache (κ β : Type) := AList fun _ : κ => β

structure ClusterState where
  control : Option Link
  brokers : Cache Int32 BrokerInfo
  topics : Cache String (List PartitionInfo)
  conns : Cache Int32 Link
  blocking : Cache Int32 BlockingPool
  controller : Option Int32
  coordinators : Cache (CoordinatorKind × String) Int32

structure ClusterConfig where
  bootstrapServers : List String
  blockingIdleMax : Nat

structure MetadataTopic where
  name : Option String
  errorCode : ErrorCode
  partitions : List PartitionInfo

structure MetadataResponse where
  brokers : List BrokerInfo
  controllerId : Int32
  topics : List MetadataTopic

structure FindCoordinatorResponse where
  errorCode : ErrorCode
  info : BrokerInfo

/-- The other requests, as far as they are told apart here. -/
inductive ApiRequest
  | produce (topic : String) (partition : Int32)
  | fetch (topic : String) (partition : Int32)
  | listOffsets (topic : String) (partition : Int32)
  | offsetCommit (group topic : String) (partition : Int32)
  | offsetFetch (group topic : String) (partition : Int32)
  | initProducerId (transactionalId : Option String)
  | addPartitionsToTxn (transactionalId : String)
  | addOffsetsToTxn (transactionalId group : String)
  | txnOffsetCommit (group : String)
  | endTxn (transactionalId : String) (committed : Bool)
  | joinGroup (group : String)
  | syncGroup (group : String)
  | heartbeat (group : String)
  | consumerGroupHeartbeat (group : String)
  | createTopics (topic : String)
  | deleteTopics (topics : List String)
  deriving DecidableEq

/-- What the network does while one attempt lasts. A request that is answered still
fails where the answer carries an error or does not decode. -/
structure Network where
  dial : String → Except ClientError Link
  metadata : Link → List String → Except ClientError MetadataResponse
  findCoordinator : Link → CoordinatorKind → String → Except ClientError FindCoordinatorResponse
  request : Link → ApiRequest → Except ClientError (Except ClientError Unit)

/-- `is_control_failure`: the connection failed, not the request. -/
def isControlFailure : ClientError → Bool
  | .connectionClosed => true
  | .io => true
  | .timeout _ => true
  | _ => false

def isControlRedirect (e : ClientError) : Bool :=
  isControlFailure e || e == .broker .notController

end State

section Caches

namespace ClusterState

variable (s : ClusterState)

def leaderId (topic : String) (partition : Int32) : Option Int32 :=
  ((s.topics.lookup topic).bind fun partitions =>
    partitions.find? fun info => info.index = partition).bind fun info =>
      if info.leaderId ≥ 0 then some info.leaderId else none

def partitions (topic : String) : Option (List PartitionInfo) := s.topics.lookup topic

def partitionCount (topic : String) : Option Nat := (s.topics.lookup topic).map List.length

/-- `mark_partition_stale`: -1 where the partition is known, else the whole topic. -/
def markPartitionStale (topic : String) (partition : Int32) : ClusterState :=
  match s.topics.lookup topic with
  | none => s
  | some partitions =>
    match partitions.findIdx? fun info => info.index = partition with
    | some i =>
      { s with topics :=
          s.topics.insert topic (partitions.modify i fun info => { info with leaderId := -1 }) }
    | none => { s with topics := s.topics.erase topic }

def clearIdle (nodeId : Int32) : ClusterState :=
  match s.blocking.lookup nodeId with
  | none => s
  | some pool => { s with blocking := s.blocking.insert nodeId { pool with idle := [] } }

def forgetBroker (nodeId : Int32) : ClusterState :=
  ClusterState.clearIdle { s with conns := s.conns.erase nodeId } nodeId

def forgetControl : ClusterState := { s with control := none }

/-- `forget_coordinator_of`. -/
def forgetCoordinator (kind : CoordinatorKind) (key : String) : ClusterState :=
  match s.coordinators.lookup (kind, key) with
  | none => s
  | some nodeId =>
    ClusterState.forgetBroker { s with coordinators := s.coordinators.erase (kind, key) } nodeId

end ClusterState

end Caches

namespace Cluster

variable (config : ClusterConfig) (net : Network)

abbrev ClusterM (α : Type) := Routed ClusterState α

def firstDialed (addrs : List String) : Option Link :=
  addrs.findSome? fun addr => (net.dial addr).toOption

def controlBroker : ClusterM Link := do
  let s ← get
  match s.control with
  | some conn => pure conn
  | none =>
    let candidates := config.bootstrapServers ++ s.brokers.entries.map fun e => e.2.addr
    match firstDialed net candidates.eraseDups with
    | some conn =>
      set { s with control := some conn }
      pure conn
    | none => throw .bootstrap

/-- The topics of a metadata answer, up to the first that carries an error. -/
def refreshedTopics : List MetadataTopic → Except ClientError (List (String × List PartitionInfo))
  | [] => .ok []
  | topic :: rest =>
    match topic.name with
    | none => refreshedTopics rest
    | some name =>
      if !topic.errorCode.isOk then .error (.broker topic.errorCode)
      else (refreshedTopics rest).map fun topics => (name, topic.partitions) :: topics

def collect {κ β : Type} [DecidableEq κ] (entries : List (κ × β)) : Cache κ β :=
  entries.foldl (fun cache e => cache.insert e.1 e.2) ∅

def refreshMetadataVia (conn : Link) (topics : List String) : ClusterM Unit := do
  let response ← Routed.lift (net.metadata conn topics)
  let refreshed ← Routed.lift (refreshedTopics response.topics)
  modify fun s =>
    { s with
      brokers := collect (response.brokers.map fun info => (info.nodeId, info))
      controller := if response.controllerId ≥ 0 then some response.controllerId else s.controller
      topics := refreshed.foldl (fun cache topic => cache.insert topic.1 topic.2) s.topics }

/-- `refresh_metadata`: a dead control connection fails over, once. -/
def refreshMetadata (topics : List String) : ClusterM Unit := do
  let conn ← controlBroker config net
  let result ← Routed.tried (refreshMetadataVia net conn topics)
  match result with
  | .ok () => pure ()
  | .error e =>
    if isControlFailure e then do
      modify ClusterState.forgetControl
      let conn ← controlBroker config net
      refreshMetadataVia net conn topics
    else throw e

def unknownBroker (nodeId : Int32) : ClientError :=
  .unknownLeader ("<broker " ++ toString nodeId ++ ">") (-1)

/-- `broker`: the cached connection, or a dial. -/
def broker (nodeId : Int32) : ClusterM Link := do
  let s ← get
  match s.conns.lookup nodeId with
  | some conn => pure conn
  | none =>
    match s.brokers.lookup nodeId with
    | none => throw (unknownBroker nodeId)
    | some info =>
      let conn ← Routed.lift (net.dial info.addr)
      modify fun s => { s with conns := s.conns.insert nodeId conn }
      pure conn

def controller : ClusterM Link := do
  let s ← get
  match s.controller with
  | none => controlBroker config net
  | some nodeId =>
    let result ← Routed.tried (broker net nodeId)
    match result with
    | .ok conn => pure conn
    | .error _ => controlBroker config net

def rediscoverController : ClusterM Link := do
  modify fun s => ClusterState.forgetControl { s with controller := none }
  refreshMetadata config net []
  controller config net

/-- The leader of a partition, with a refresh where it is not known. -/
def leaderOf (topic : String) (partition : Int32) : ClusterM Int32 := do
  let s ← get
  match s.leaderId topic partition with
  | some _ => pure ()
  | none => refreshMetadata config net [topic]
  let s ← get
  match s.leaderId topic partition with
  | some nodeId => pure nodeId
  | none => throw (.unknownLeader topic partition)

def partitionLeader (topic : String) (partition : Int32) : ClusterM Link := do
  let nodeId ← leaderOf config net topic partition
  broker net nodeId

structure Lease where
  conn : Link
  nodeId : Int32

/-- The checkout is counted once the connection is in hand. -/
def checkOut (pool : BlockingPool) : BlockingPool :=
  { pool with
    outstanding := pool.outstanding + 1
    peak := max pool.peak (pool.outstanding + 1) }

/-- `blocking_broker`: an idle connection, or a dial. -/
def blockingBroker (nodeId : Int32) : ClusterM Lease := do
  let s ← get
  let pool := (s.blocking.lookup nodeId).getD .default
  match pool.idle.getLast? with
  | some conn =>
    set { s with
      blocking := s.blocking.insert nodeId (checkOut { pool with idle := pool.idle.dropLast }) }
    pure { conn, nodeId }
  | none =>
    match s.brokers.lookup nodeId with
    | none => throw (unknownBroker nodeId)
    | some info =>
      let conn ← Routed.lift (net.dial info.addr)
      set { s with blocking := s.blocking.insert nodeId (checkOut pool) }
      pure { conn, nodeId }

/-- A lease is dropped, and its connection with it. -/
def dropLease (lease : Lease) (s : ClusterState) : ClusterState :=
  match s.blocking.lookup lease.nodeId with
  | none => s
  | some pool =>
    { s with
      blocking := s.blocking.insert lease.nodeId { pool with outstanding := pool.outstanding - 1 } }

/-- `release`, and the drop of the lease. -/
def release (lease : Lease) (s : ClusterState) : ClusterState :=
  let pool := (s.blocking.lookup lease.nodeId).getD .default
  dropLease lease { s with
    blocking := s.blocking.insert lease.nodeId
      (if pool.idle.length < min pool.peak config.blockingIdleMax then
        { pool with idle := pool.idle ++ [lease.conn] }
      else pool) }

def blockingPartitionLeader (topic : String) (partition : Int32) : ClusterM Lease := do
  let nodeId ← leaderOf config net topic partition
  blockingBroker net nodeId

def findCoordinator (conn : Link) (kind : CoordinatorKind) (key : String) : ClusterM Int32 := do
  let response ← Routed.lift (net.findCoordinator conn kind key)
  if !response.errorCode.isOk then throw (.broker response.errorCode)
  else
    modify fun s =>
      { s with
        brokers := s.brokers.insert response.info.nodeId response.info
        coordinators := s.coordinators.insert (kind, key) response.info.nodeId }
    pure response.info.nodeId

/-- The node that coordinates `key`, discovered where it is not known. A dead control
connection fails over, once. -/
def coordinatorNode (kind : CoordinatorKind) (key : String) : ClusterM Int32 := do
  let s ← get
  match s.coordinators.lookup (kind, key) with
  | some nodeId => pure nodeId
  | none =>
    let conn ← controlBroker config net
    let result ← Routed.tried (findCoordinator net conn kind key)
    match result with
    | .ok nodeId => pure nodeId
    | .error e =>
      if isControlFailure e then do
        modify ClusterState.forgetControl
        let conn ← controlBroker config net
        findCoordinator net conn kind key
      else throw e

def coordinatorOf (kind : CoordinatorKind) (key : String) : ClusterM Link := do
  let nodeId ← coordinatorNode config net kind key
  broker net nodeId

def blockingCoordinator (group : String) : ClusterM Lease := do
  let _ ← coordinatorOf config net .group group
  let s ← get
  match s.coordinators.lookup (.group, group) with
  | none => throw (.protocolViolation "coordinator vanished after discovery")
  | some nodeId => blockingBroker net nodeId

end Cluster

end Odradek.Client
