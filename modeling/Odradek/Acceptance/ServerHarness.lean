import Odradek.Client.Error
import Odradek.Library.Transcript
import Odradek.Protocol.ApiVersions
import Odradek.Protocol.Header
import Odradek.Protocol.Records

/-!
The acceptance suite as the client of a server under test (`checks/server.rs`):
verdicts and the two kinds of trouble behind them, the run's configuration, what
it sends and the part of the answers it reads. Whether a connection opens, what a
request is answered and what the clock says is the environment's. An answer that
is not a response of its api is an error of the call; none of the requests is
too long to encode.
-/

namespace Odradek.Acceptance.Server

open Library Odradek.Protocol Odradek.Client

inductive Verdict
  | pass
  | fail (details : String)
  | skipped (reason : String)
  | error (details : String)
  deriving DecidableEq

/-- `infra`: the suite could not run the exchange; `violation`: the subject
misbehaved in it. -/
inductive CheckError
  | infra (details : String)
  | violation (details : String)
  deriving DecidableEq

namespace CheckError

def context (what : String) : CheckError → CheckError
  | .infra d => .infra s!"{what}: {d}"
  | .violation d => .violation s!"{what}: {d}"

def details : CheckError → String
  | .infra d | .violation d => d

def intoVerdict : CheckError → Verdict
  | .infra details => .error details
  | .violation details => .fail details

end CheckError

def Verdict.atVersion (version : Int16) : Verdict → Verdict
  | .fail details => .fail s!"v{version}: {details}"
  | .error details => .error s!"v{version}: {details}"
  | other => other

section Codes

def codeName (code : ErrorCode) : Option String :=
  match code.code.toInt with
  | -1 => some "UNKNOWN_SERVER_ERROR"
  | 0 => some "NONE"
  | 1 => some "OFFSET_OUT_OF_RANGE"
  | 2 => some "CORRUPT_MESSAGE"
  | 3 => some "UNKNOWN_TOPIC_OR_PARTITION"
  | 4 => some "INVALID_FETCH_SIZE"
  | 5 => some "LEADER_NOT_AVAILABLE"
  | 6 => some "NOT_LEADER_OR_FOLLOWER"
  | 7 => some "REQUEST_TIMED_OUT"
  | 8 => some "BROKER_NOT_AVAILABLE"
  | 9 => some "REPLICA_NOT_AVAILABLE"
  | 10 => some "MESSAGE_TOO_LARGE"
  | 13 => some "NETWORK_EXCEPTION"
  | 14 => some "COORDINATOR_LOAD_IN_PROGRESS"
  | 15 => some "COORDINATOR_NOT_AVAILABLE"
  | 16 => some "NOT_COORDINATOR"
  | 17 => some "INVALID_TOPIC_EXCEPTION"
  | 18 => some "RECORD_LIST_TOO_LARGE"
  | 19 => some "NOT_ENOUGH_REPLICAS"
  | 20 => some "NOT_ENOUGH_REPLICAS_AFTER_APPEND"
  | 21 => some "INVALID_REQUIRED_ACKS"
  | 22 => some "ILLEGAL_GENERATION"
  | 23 => some "INCONSISTENT_GROUP_PROTOCOL"
  | 24 => some "INVALID_GROUP_ID"
  | 25 => some "UNKNOWN_MEMBER_ID"
  | 26 => some "INVALID_SESSION_TIMEOUT"
  | 27 => some "REBALANCE_IN_PROGRESS"
  | 29 => some "TOPIC_AUTHORIZATION_FAILED"
  | 30 => some "GROUP_AUTHORIZATION_FAILED"
  | 31 => some "CLUSTER_AUTHORIZATION_FAILED"
  | 33 => some "UNSUPPORTED_SASL_MECHANISM"
  | 34 => some "ILLEGAL_SASL_STATE"
  | 35 => some "UNSUPPORTED_VERSION"
  | 36 => some "TOPIC_ALREADY_EXISTS"
  | 37 => some "INVALID_PARTITIONS"
  | 38 => some "INVALID_REPLICATION_FACTOR"
  | 41 => some "NOT_CONTROLLER"
  | 42 => some "INVALID_REQUEST"
  | 43 => some "UNSUPPORTED_FOR_MESSAGE_FORMAT"
  | 44 => some "POLICY_VIOLATION"
  | 45 => some "OUT_OF_ORDER_SEQUENCE_NUMBER"
  | 46 => some "DUPLICATE_SEQUENCE_NUMBER"
  | 47 => some "INVALID_PRODUCER_EPOCH"
  | 48 => some "INVALID_TXN_STATE"
  | 49 => some "INVALID_PRODUCER_ID_MAPPING"
  | 50 => some "INVALID_TRANSACTION_TIMEOUT"
  | 51 => some "CONCURRENT_TRANSACTIONS"
  | 52 => some "TRANSACTION_COORDINATOR_FENCED"
  | 53 => some "TRANSACTIONAL_ID_AUTHORIZATION_FAILED"
  | 55 => some "OPERATION_NOT_ATTEMPTED"
  | 56 => some "KAFKA_STORAGE_ERROR"
  | 58 => some "SASL_AUTHENTICATION_FAILED"
  | 59 => some "UNKNOWN_PRODUCER_ID"
  | 73 => some "TOPIC_DELETION_DISABLED"
  | 76 => some "UNSUPPORTED_COMPRESSION_TYPE"
  | 79 => some "MEMBER_ID_REQUIRED"
  | 81 => some "GROUP_MAX_SIZE_REACHED"
  | 90 => some "PRODUCER_FENCED"
  | 100 => some "UNKNOWN_TOPIC_ID"
  | 105 => some "TRANSACTIONAL_ID_NOT_FOUND"
  | 110 => some "FENCED_MEMBER_EPOCH"
  | 111 => some "UNRELEASED_INSTANCE_ID"
  | 112 => some "UNSUPPORTED_ASSIGNOR"
  | 113 => some "STALE_MEMBER_EPOCH"
  | 120 => some "TRANSACTION_ABORTABLE"
  | _ => none

def codeText (code : ErrorCode) : String :=
  match codeName code with
  | some name => s!"{name} ({code.code})"
  | none => s!"unknown error code {code.code}"

/-- The topic or its leadership is still materializing. -/
def retriable (code : ErrorCode) : Bool :=
  code == .unknownTopicOrPartition || code == .leaderNotAvailable ||
    code == .notLeaderOrFollower || code == .unknownTopicId

/-- Ask again shortly, not no. -/
def isCoordinatorSettling (code : ErrorCode) : Bool :=
  code == .coordinatorNotAvailable || code == .coordinatorLoadInProgress

end Codes

section Configuration

structure Duration where
  millis : Nat
  text : String
  deriving DecidableEq

/-- `control` and `credentials`: whether there are any. -/
structure ProbeConfig where
  settleBudget : Duration
  settleDelay : Duration
  recoveryBudget : Duration
  control : Bool
  credentials : Bool
  tls : Bool
  deriving DecidableEq

namespace ProbeConfig

def attempts (budget delay : Duration) : Nat :=
  max (min (budget.millis / max delay.millis 1) (2 ^ 32 - 1)) 1

def settleAttempts (config : ProbeConfig) : Nat := attempts config.settleBudget config.settleDelay

def recoveryAttempts (config : ProbeConfig) : Nat :=
  attempts config.recoveryBudget config.settleDelay

end ProbeConfig

/-- What a run knows of its subject. `runId`, `pid` and `startedAt` are the suite's
process: what it stamps names and probe records with. -/
structure ServerCtx where
  addr : String
  discovery : Except String (List ApiVersion)
  config : ProbeConfig
  saslAddr : Option String
  runId : String
  pid : Nat
  startedAt : Int64

def advertisedRange (keys : List ApiVersion) (apiKey : Int16) : Option (Int16 × Int16) :=
  (keys.find? fun v => v.apiKey == apiKey).map fun v => (v.minVersion, v.maxVersion)

def ServerCtx.range (ctx : ServerCtx) (apiKey : Int16) : Except Verdict (Option (Int16 × Int16)) :=
  match ctx.discovery with
  | .ok keys => .ok (advertisedRange keys apiKey)
  | .error details => .error (.error details)

def negotiate (api : String) (advertised : Option (Int16 × Int16)) (checkMin checkMax : Int16) :
    Except Verdict Int16 :=
  match advertised with
  | none => .error (.skipped
      s!"server does not advertise the {api} api (or discovery failed)")
  | some (low, high) =>
    let version := if high ≤ checkMax then high else checkMax
    if version < low ∨ version < checkMin then
      .error (.skipped (s!"no usable {api} version: server speaks {low}-{high}, check needs " ++
        s!"{checkMin}-{checkMax}"))
    else .ok version

/-- `lowest..=highest`. -/
def versionsFrom (lowest highest : Int16) : List Int16 :=
  (List.range (highest.toInt - lowest.toInt + 1).toNat).map fun i : Nat =>
    Int16.ofInt (lowest.toInt + i)

def negotiateAll (api : String) (advertised : Option (Int16 × Int16)) (checkMin checkMax : Int16) :
    Except Verdict (List Int16) := do
  let highest ← negotiate api advertised checkMin checkMax
  let low := (advertised.map (·.1)).getD checkMin
  return versionsFrom (if low ≤ checkMin then checkMin else low) highest

def checkGroup (ctx : ServerCtx) (tag : String) : String :=
  s!"{tag}-odradek-acceptance-{ctx.runId}"

end Configuration

section Wire

abbrev Uuid := Bytes

def zeroUuid : Uuid := List.replicate 16 0

structure ProduceStamp where
  producerId : Int64
  producerEpoch : Int16
  baseSequence : Int32
  transactionalId : Option String
  deriving DecidableEq

def ProduceStamp.plain : ProduceStamp :=
  { producerId := -1, producerEpoch := -1, baseSequence := -1, transactionalId := none }

/-- What the checks send, by the function that sends it: the fields it does not leave
at a constant. -/
inductive Request
  | metadata (topic : Option String)
  | createTopics (topic : String) (replicationFactor : Int16) (validateOnly : Bool)
  | produce (topic : String) (sent : Bytes)
  | produceStamped (topic : String) (partition : Int32) (transactionalId : Option String)
      (sent : Bytes)
  | listOffsets (topic : String) (timestamp : Int64)
  | findCoordinator (group : String)
  | offsetCommit (group topic : String) (topicId : Uuid) (offset : Int64)
  | offsetFetch (group topic : String) (topicId : Uuid)
  | sweepFetchById (topicId : Uuid)
  | sweepOffsetCommit (group topic : String) (topicId : Uuid)
  | sweepJoinGroup (group : String)
  | sweepSyncGroup (group : String)
  | sweepHeartbeat (group : String)
  | sweepLeaveGroup (group : String)
  | sweepConsumerGroupHeartbeat (group : String)
  | sweepAddOffsetsToTxn (group : String)
  | sweepEndTxn
  | sweepTxnOffsetCommit (group topic : String)
  | sweepSaslHandshake
  | sweepSaslAuthenticate
  deriving DecidableEq

def Request.apiKey : Request → Int16
  | .produce _ _ | .produceStamped _ _ _ _ => 0
  | .sweepFetchById _ => 1
  | .listOffsets _ _ => 2
  | .metadata _ => 3
  | .offsetCommit _ _ _ _ | .sweepOffsetCommit _ _ _ => 8
  | .offsetFetch _ _ _ => 9
  | .findCoordinator _ => 10
  | .sweepJoinGroup _ => 11
  | .sweepHeartbeat _ => 12
  | .sweepLeaveGroup _ => 13
  | .sweepSyncGroup _ => 14
  | .sweepSaslHandshake => 17
  | .createTopics _ _ _ => 19
  | .sweepAddOffsetsToTxn _ => 25
  | .sweepEndTxn => 26
  | .sweepTxnOffsetCommit _ _ => 28
  | .sweepSaslAuthenticate => 36
  | .sweepConsumerGroupHeartbeat _ => 68

structure MetadataBroker where
  nodeId : Int32
  host : String
  port : Int32
  deriving DecidableEq

structure MetadataPartition where
  errorCode : ErrorCode
  partitionIndex : Int32
  leaderId : Int32
  replicaNodes : List Int32
  isrNodes : List Int32
  deriving DecidableEq

structure MetadataTopic where
  errorCode : ErrorCode
  name : Option String
  partitions : List MetadataPartition
  deriving DecidableEq

structure MetadataResponse where
  brokers : List MetadataBroker
  controllerId : Int32
  topics : List MetadataTopic
  deriving DecidableEq

structure CreatableTopicResult where
  errorCode : ErrorCode
  errorMessage : Option String
  topicId : Uuid
  deriving DecidableEq

structure CreateTopicsResponse where
  topics : List CreatableTopicResult
  deriving DecidableEq

structure PartitionProduceResponse where
  errorCode : ErrorCode
  baseOffset : Int64
  deriving DecidableEq

structure ProduceResponse where
  responses : List (List PartitionProduceResponse)
  deriving DecidableEq

structure ListOffsetsPartitionResponse where
  errorCode : ErrorCode
  offset : Int64
  deriving DecidableEq

structure ListOffsetsTopicResponse where
  name : String
  partitions : List ListOffsetsPartitionResponse
  deriving DecidableEq

structure ListOffsetsResponse where
  topics : List ListOffsetsTopicResponse
  deriving DecidableEq

structure Coordinator where
  errorCode : ErrorCode
  key : String
  host : String
  port : Int32
  deriving DecidableEq

structure FindCoordinatorResponse where
  errorCode : ErrorCode
  host : String
  port : Int32
  coordinators : List Coordinator
  deriving DecidableEq

structure OffsetCommitTopicResponse where
  name : String
  topicId : Uuid
  partitions : List ErrorCode
  deriving DecidableEq

structure OffsetCommitResponse where
  topics : List OffsetCommitTopicResponse
  deriving DecidableEq

structure OffsetFetchPartition where
  errorCode : ErrorCode
  committedOffset : Int64
  deriving DecidableEq

structure OffsetFetchTopic where
  name : String
  topicId : Uuid
  partitions : List OffsetFetchPartition
  deriving DecidableEq

structure OffsetFetchGroup where
  groupId : String
  errorCode : ErrorCode
  topics : List OffsetFetchTopic
  deriving DecidableEq

structure OffsetFetchResponse where
  topics : List OffsetFetchTopic
  groups : List OffsetFetchGroup
  deriving DecidableEq

/-- The part of the answer a check reads; of a sweep's answer, only that there is one. -/
abbrev Request.Response : Request → Type
  | .metadata _ => MetadataResponse
  | .createTopics _ _ _ => CreateTopicsResponse
  | .produce _ _ | .produceStamped _ _ _ _ => ProduceResponse
  | .listOffsets _ _ => ListOffsetsResponse
  | .findCoordinator _ => FindCoordinatorResponse
  | .offsetCommit _ _ _ _ => OffsetCommitResponse
  | .offsetFetch _ _ _ => OffsetFetchResponse
  | _ => Unit

/-- A `RawConnection`: the address it was opened to. -/
structure Conn where
  peer : String
  deriving DecidableEq

structure Call where
  conn : Conn
  version : Int16
  correlation : Int32
  request : Request
  deriving DecidableEq

/-- Whose connection it is: one that a check cannot do without, or one whose trouble
the version sweep writes down and goes on. -/
inductive Site
  | needed
  | recorded
  deriving DecidableEq

inductive Op
  | connect (site : Site) (addr : String)
  | authenticate (site : Site) (conn : Conn)
  | call (call : Call)
  | sleep
  | clock
  deriving DecidableEq

/-- `authenticate` is a SCRAM exchange as a whole: a violation where one of its requests
was answered by something else, any other trouble as `infra`. -/
abbrev Op.Res : Op → Type
  | .connect _ _ => Except String Unit
  | .authenticate _ _ => Except CheckError Unit
  | .call c => Except CheckError c.request.Response
  | .sleep => Unit
  | .clock => Nat

abbrev Run := Program Op Op.Res

abbrev Checked := ExceptT CheckError Run

abbrev Judged := ExceptT Verdict Run

def sleep : Run Unit := Program.perform Op.sleep

def clock : Run Nat := Program.perform Op.clock

def dial (site : Site) (addr : String) : Run (Except String Unit) :=
  Program.perform (Op.connect site addr)

def logIn (site : Site) (conn : Conn) : Run (Except CheckError Unit) :=
  Program.perform (Op.authenticate site conn)

def send (call : Call) : Run (Except CheckError call.request.Response) :=
  Program.perform (Op.call call)

def connect (ctx : ServerCtx) (site : Site) (addr : String) : Checked Conn :=
  ExceptT.mk (Program.bind (dial site addr) fun r =>
    match r with
    | .ok () => .done (.ok { peer := addr })
    | .error e =>
      if ctx.config.tls then .done (.error (.infra s!"connect {addr} over tls: {e}"))
      else .done (.error (.infra s!"connect {addr}: {e}")))

def openConn (ctx : ServerCtx) (site : Site) (addr : String) : Checked Conn := do
  let conn ← connect ctx site addr
  if ctx.config.credentials then
    ExceptT.mk (Program.bind (logIn site conn) fun r => .done (r.map fun _ => conn))
  else pure conn

def apiCall (conn : Conn) (version : Int16) (correlation : Int32) (request : Request) :
    Checked request.Response :=
  match requestHeaderVersion request.apiKey version with
  | none => throw (.infra s!"no header version known for api {request.apiKey} v{version}")
  | some _ => ExceptT.mk (send { conn, version, correlation, request })

def attemptId (attempt : Nat) : Int32 := if attempt < 2 ^ 31 then Int32.ofNat attempt else 0

def uniqueTopic (ctx : ServerCtx) (tag : String) : Run String :=
  Program.bind clock fun nanos =>
    .done s!"odradek-accept-{tag}-{ctx.pid}-{nanos}"

end Wire

end Odradek.Acceptance.Server
