import Odradek.Client.Cluster

/-!
The operations that are tried again (`producer.rs`, `consumer.rs`, `offsets.rs`,
`txn.rs`, `group.rs`, `consumer_group.rs`, `admin.rs`), as far as the caches go: which
connection each takes, and what its classification of a failure drops. What they send,
and what they read out of an answer, is left out.
-/

namespace Odradek.Client.Cluster

section Classification

/-- An attempt's result classified; what a retriable failure invalidates differs. -/
def settle (invalidate : ClusterState → ClusterState) (x : ClusterM Unit) (s : ClusterState) :
    Attempt Unit × ClusterState :=
  match x s with
  | .ok () t => (.done (), t)
  | .error e t => if e.isRetriable then (.retry e, invalidate t) else (.fatal e, t)

def orMarkStale (topic : String) (partition : Int32) :
    ClusterM Unit → ClusterState → Attempt Unit × ClusterState :=
  settle fun s => s.markPartitionStale topic partition

def orForgetCoordinator (group : String) :
    ClusterM Unit → ClusterState → Attempt Unit × ClusterState :=
  settle fun s => s.forgetCoordinator .group group

def orForgetTxnCoordinator (transactionalId : String) :
    ClusterM Unit → ClusterState → Attempt Unit × ClusterState :=
  settle fun s => s.forgetCoordinator .transaction transactionalId

end Classification

section Attempts

variable (config : ClusterConfig) (net : Network)

/-- A request, and what is made of its answer. -/
def ask (conn : Link) (request : ApiRequest) : ClusterM Unit := do
  let answer ← Routed.lift (net.request conn request)
  Routed.lift answer

/-- A failed connection to the partition's leader is dropped. -/
def forgetLeader (leader : Option Int32) (e : ClientError) (s : ClusterState) : ClusterState :=
  match leader with
  | some nodeId => if isControlFailure e then s.forgetBroker nodeId else s
  | none => s

def tryOnce (topic : String) (partition : Int32) : ClusterM Unit := do
  let conn ← partitionLeader config net topic partition
  let s ← get
  let leader := s.leaderId topic partition
  match net.request conn (.produce topic partition) with
  | .ok answer => Routed.lift answer
  | .error e =>
    modify (forgetLeader leader e)
    throw e

def fetchOnce (topic : String) (partition : Int32) : ClusterM Unit := do
  let lease ← blockingPartitionLeader config net topic partition
  let s ← get
  let leader := s.leaderId topic partition
  match net.request lease.conn (.fetch topic partition) with
  | .ok answer =>
    modify (release config lease)
    Routed.lift answer
  | .error e =>
    modify fun s => dropLease lease (forgetLeader leader e s)
    throw e

def listOffsetOnce (topic : String) (partition : Int32) : ClusterM Unit := do
  let conn ← partitionLeader config net topic partition
  ask net conn (.listOffsets topic partition)

def askCoordinator (kind : CoordinatorKind) (key : String) (request : ApiRequest) :
    ClusterM Unit := do
  let conn ← coordinatorOf config net kind key
  ask net conn request

def commitOnce (group topic : String) (partition : Int32) : ClusterM Unit :=
  askCoordinator config net .group group (.offsetCommit group topic partition)

def committedOnce (group topic : String) (partition : Int32) : ClusterM Unit :=
  askCoordinator config net .group group (.offsetFetch group topic partition)

def addPartitionsOnce (transactionalId : String) : ClusterM Unit :=
  askCoordinator config net .transaction transactionalId (.addPartitionsToTxn transactionalId)

def addOffsetsOnce (transactionalId group : String) : ClusterM Unit :=
  askCoordinator config net .transaction transactionalId (.addOffsetsToTxn transactionalId group)

/-- `offset_commit_once`: the group's coordinator, not the transaction's. -/
def offsetCommitOnce (group : String) : ClusterM Unit :=
  askCoordinator config net .group group (.txnOffsetCommit group)

def endTxnOnce (transactionalId : String) (committed : Bool) : ClusterM Unit :=
  askCoordinator config net .transaction transactionalId (.endTxn transactionalId committed)

def initProducerIdOnce (transactionalId : Option String) : ClusterM Unit := do
  let conn ← match transactionalId with
    | some id => coordinatorOf config net .transaction id
    | none => controlBroker config net
  ask net conn (.initProducerId transactionalId)

/-- The second JoinGroup, where an id had to be minted first. -/
def joinAgain (conn : Link) (group : String) (again : Bool) : ClusterM Unit :=
  if again then ask net conn (.joinGroup group) else pure ()

def refreshLed (leads : Option (List String)) : ClusterM Unit :=
  match leads with
  | some topics => refreshMetadata config net topics
  | none => pure ()

/-- What is sent over the lease of a join round. -/
def joinAndSync (conn : Link) (group : String) (again : Bool) (leads : Option (List String)) :
    ClusterM Unit := do
  ask net conn (.joinGroup group)
  joinAgain net conn group again
  refreshLed config net leads
  ask net conn (.syncGroup group)

def joinRoundOnce (group : String) (again : Bool) (leads : Option (List String)) :
    ClusterM Unit := do
  let lease ← blockingCoordinator config net group
  let result ← Routed.tried (joinAndSync config net lease.conn group again leads)
  match result with
  | .ok () => modify (release config lease)
  | .error e =>
    modify (dropLease lease)
    throw e

/-- What `rejoin` makes of a round; the member's own part is left out. -/
def joinAttempt (group : String) (again : Bool) (leads : Option (List String)) (s : ClusterState) :
    Attempt Unit × ClusterState :=
  match joinRoundOnce config net group again leads s with
  | .ok () t => (.done (), t)
  | .error e t =>
    if e.isRetriable then (.retry e, t.forgetCoordinator .group group)
    else if e = .broker .rebalanceInProgress ∨ e = .broker .illegalGeneration ∨
        e = .broker .unknownMemberId then (.retry e, t)
    else (.fatal e, t)

/-- `heartbeat_attempt` of a KIP-848 member whose target has to be named after a refresh
of `resolves`. -/
def consumerGroupHeartbeatAttempt (group : String) (resolves : Option (List String))
    (s : ClusterState) : Attempt Unit × ClusterState :=
  match orForgetCoordinator group
      (askCoordinator config net .group group (.consumerGroupHeartbeat group)) s with
  | (.done (), t) =>
    match resolves with
    | none => (.done (), t)
    | some topics =>
      match refreshMetadata config net topics t with
      | .ok () t => (.done (), t)
      | .error e t => (.fatal e, t)
  | out => out

/-- A request of the controller, with one redirect. -/
def redirecting (via : Link → ClusterM Unit) : ClusterM Unit := do
  let conn ← controller config net
  let result ← Routed.tried (via conn)
  match result with
  | .ok () => pure ()
  | .error e =>
    if isControlRedirect e then do
      let conn ← rediscoverController config net
      via conn
    else throw e

def createTopic (topic : String) : ClusterM Unit :=
  redirecting config net fun conn => ask net conn (.createTopics topic)

/-- `delete_topics_via`: a failed refresh afterwards is ignored. -/
def deleteTopicsVia (topics : List String) (conn : Link) : ClusterM Unit := do
  ask net conn (.deleteTopics topics)
  let _ ← Routed.tried (refreshMetadata config net topics)
  pure ()

def deleteTopics (topics : List String) : ClusterM Unit :=
  redirecting config net (deleteTopicsVia config net topics)

end Attempts

section Operations

inductive Operation
  | produce (topic : String) (partition : Int32)
  | fetch (topic : String) (partition : Int32)
  | listOffset (topic : String) (partition : Int32)
  | commitOffset (group topic : String) (partition : Int32)
  | committedOffset (group topic : String) (partition : Int32)
  | initProducerId (transactionalId : Option String)
  | addPartitions (transactionalId : String)
  | addOffsets (transactionalId group : String)
  | txnOffsetCommit (group : String)
  | endTxn (transactionalId : String) (committed : Bool)
  | join (group : String) (again : Bool) (leads : Option (List String))
  | heartbeat (group : String)
  | consumerGroupHeartbeat (group : String) (resolves : Option (List String))
  | createTopic (topic : String)
  | deleteTopics (topics : List String)

variable (config : ClusterConfig) (net : Network)

/-- One attempt of an operation. `create_topic` and `delete_topics` have a single one. -/
def Operation.attempt : Operation → ClusterState → Attempt Unit × ClusterState
  | .produce topic partition => orMarkStale topic partition (tryOnce config net topic partition)
  | .fetch topic partition => orMarkStale topic partition (fetchOnce config net topic partition)
  | .listOffset topic partition =>
    orMarkStale topic partition (listOffsetOnce config net topic partition)
  | .commitOffset group topic partition =>
    orForgetCoordinator group (commitOnce config net group topic partition)
  | .committedOffset group topic partition =>
    orForgetCoordinator group (committedOnce config net group topic partition)
  | .initProducerId transactionalId => settle id (initProducerIdOnce config net transactionalId)
  | .addPartitions id => orForgetTxnCoordinator id (addPartitionsOnce config net id)
  | .addOffsets id group => orForgetTxnCoordinator id (addOffsetsOnce config net id group)
  | .txnOffsetCommit group => orForgetCoordinator group (offsetCommitOnce config net group)
  | .endTxn id committed => orForgetTxnCoordinator id (endTxnOnce config net id committed)
  | .join group again leads => joinAttempt config net group again leads
  | .heartbeat group =>
    orForgetCoordinator group (askCoordinator config net .group group (.heartbeat group))
  | .consumerGroupHeartbeat group resolves =>
    consumerGroupHeartbeatAttempt config net group resolves
  | .createTopic topic => settle id (Cluster.createTopic config net topic)
  | .deleteTopics topics => settle id (Cluster.deleteTopics config net topics)

/-- How often it is tried where `maxAttempts` is configured. -/
def Operation.attempts (maxAttempts : Nat) : Operation → Nat
  | .createTopic _ | .deleteTopics _ => 1
  | _ => maxAttempts

/-- An operation, over what the network does during each of its attempts. -/
def Operation.run (op : Operation) (maxAttempts : Nat) (nets : Nat → Network) (s : ClusterState) :
    Except ClientError Unit × ClusterState :=
  retryOver (fun net s => op.attempt config net s) (op.attempts maxAttempts) none nets s

end Operations

end Odradek.Client.Cluster
