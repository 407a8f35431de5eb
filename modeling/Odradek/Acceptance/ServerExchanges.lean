import Odradek.Acceptance.ServerHarness
import Mathlib.Data.List.Infix

/-!
The exchanges the server checks share (`checks/server.rs`): where the coordinator,
the controller and a partition's leader are, a topic created and produced to, an
offset committed and read back.
-/

namespace Odradek.Acceptance.Server

open Library Odradek.Protocol Odradek.Client

section Coordinators

def findCoordinatorBatched : Int16 := 4

def coordinatorError (resp : FindCoordinatorResponse) (version : Int16) : ErrorCode :=
  if version ≥ findCoordinatorBatched then (resp.coordinators.head?.map (·.errorCode)).getD ⟨0⟩
  else resp.errorCode

def plausibleAddress (host : String) (port : Int32) : Bool :=
  host ≠ "" && decide (1 ≤ port) && decide (port ≤ 65535)

def coordinatorEndpoint (resp : FindCoordinatorResponse) (version : Int16) : Option String := do
  let (host, port) ←
    if version ≥ findCoordinatorBatched then resp.coordinators.head?.map fun c => (c.host, c.port)
    else some (resp.host, resp.port)
  if plausibleAddress host port then some s!"{host}:{port}" else none

def findCoordinatorRange (ctx : ServerCtx) : Except Verdict Int16 := do
  negotiate "FindCoordinator" (← ctx.range 10) 0 6

/-- One attempt of `await_coordinator_at`. -/
def askCoordinator (conn : Conn) (version : Int16) (group : String) (attempt : Nat) :
    Checked (Unit ⊕ Option String) := do
  let resp ← apiCall conn version (80 + attemptId attempt) (.findCoordinator group)
  pure (if isCoordinatorSettling (coordinatorError resp version) then .inl ()
    else .inr (coordinatorEndpoint resp version))

def awaitCoordinatorAt (ctx : ServerCtx) (addr group : String) : Checked (Option String) :=
  match findCoordinatorRange ctx with
  | .error _ => pure none
  | .ok version => do
    let conn ← openConn ctx .needed addr
    let out ← Program.attempts sleep (fun attempt () => askCoordinator conn version group attempt)
      ctx.config.settleAttempts 0 ()
    match out with
    | .inl () => pure none
    | .inr endpoint => pure endpoint

def awaitCoordinator (ctx : ServerCtx) (group : String) : Checked (Option String) :=
  awaitCoordinatorAt ctx ctx.addr group

def coordinatorConn (ctx : ServerCtx) (group : String) : Checked Conn := do
  let addr ← awaitCoordinator ctx group
  openConn ctx .needed (addr.getD ctx.addr)

end Coordinators

section Metadata

def metadataRange (ctx : ServerCtx) : Except Verdict Int16 := do
  negotiate "Metadata" (← ctx.range 3) 1 13

def metadataOfTopic (conn : Conn) (version : Int16) (topic : String) (correlation : Int32) :
    Checked MetadataResponse :=
  apiCall conn version correlation (.metadata (some topic))

def brokerAddress (resp : MetadataResponse) (nodeId : Int32) : Option String :=
  ((resp.brokers.find? fun b => b.nodeId == nodeId).filter fun b =>
    plausibleAddress b.host b.port).map
    fun b => s!"{b.host}:{b.port}"

/-- Partition 0 of a topic that is there without an error. -/
def settledPartition (resp : MetadataResponse) (topic : String) : Option MetadataPartition := do
  let entry ← resp.topics.find? fun t => t.name == some topic
  if entry.errorCode.isOk then
    (entry.partitions.find? fun p => p.partitionIndex == 0).filter fun p => p.errorCode.isOk
  else none

def leaderEndpoint (conn : Conn) (version : Int16) (topic : String) (correlation : Int32) :
    Checked (Option String) := do
  let resp ← metadataOfTopic conn version topic correlation
  pure ((settledPartition resp topic).bind fun p => brokerAddress resp p.leaderId)

def controllerEndpoint (conn : Conn) (version : Int16) (correlation : Int32) :
    Checked (Option String) := do
  let resp ← apiCall conn version correlation (.metadata none)
  pure (brokerAddress resp resp.controllerId)

def connectToController (ctx : ServerCtx) (site : Site) (bootstrap : Conn) (version : Int16)
    (correlation : Int32) : Checked Conn := do
  let located ← controllerEndpoint bootstrap version correlation
  openConn ctx site (located.getD ctx.addr)

def adminConn (ctx : ServerCtx) (site : Site) (bootstrap : Conn) (correlation : Int32) :
    Checked Conn :=
  match metadataRange ctx with
  | .error _ => openConn ctx site ctx.addr
  | .ok version => connectToController ctx site bootstrap version correlation

/-- What a CreateTopics answer says of its first topic, if it says anything. -/
def createdCode (resp : CreateTopicsResponse) : ErrorCode :=
  (resp.topics.head?.map (·.errorCode)).getD ⟨0⟩

/-- One attempt of `create_topics_at_controller`. -/
def createAtController (ctx : ServerCtx) (site : Site) (bootstrap : Conn) (version : Int16)
    (topic : String) (replicas : Int16) (validateOnly : Bool) (correlation : Int32) :
    Checked (ErrorCode ⊕ CreateTopicsResponse) := do
  let controller ← adminConn ctx site bootstrap (correlation - 1)
  let resp ← apiCall controller version correlation (.createTopics topic replicas validateOnly)
  pure (if createdCode resp = .notController then .inl (createdCode resp) else .inr resp)

def createTopicsAtController (ctx : ServerCtx) (site : Site) (bootstrap : Conn) (version : Int16)
    (topic : String) (replicas : Int16) (validateOnly : Bool) (correlation : Int32) :
    Checked CreateTopicsResponse := do
  let out ← Program.attempts sleep
    (fun _ _ =>
    createAtController ctx site bootstrap version topic replicas validateOnly correlation)
    ctx.config.settleAttempts 0 ErrorCode.notController
  match out with
  | .inr resp => pure resp
  | .inl last => throw (.violation (s!"CreateTopics still answers {codeText last} after " ++
      s!"{ctx.config.settleBudget.text} of following the controller Metadata names"))

def createTopicCall (ctx : ServerCtx) (site : Site) (conn : Conn) (version : Int16)
    (topic : String) (validateOnly : Bool) (correlation : Int32) : Checked (ErrorCode × Uuid) := do
  let resp ← createTopicsAtController ctx site conn version topic 1 validateOnly correlation
  match resp.topics.head? with
  | none => throw (.violation "CreateTopics response names no topics")
  | some result => pure (result.errorCode, result.topicId)

/-- One attempt of `connect_to_leader`. -/
def askLeader (ctx : ServerCtx) (bootstrap : Conn) (version : Int16) (topic : String)
    (correlationBase : Int32) (attempt : Nat) : Checked (Unit ⊕ Conn) := do
  let located ← leaderEndpoint bootstrap version topic (correlationBase + attemptId attempt)
  match located with
  | none => pure (.inl ())
  | some addr => do
    let conn ← openConn ctx .needed addr
    pure (.inr conn)

def connectToLeader (ctx : ServerCtx) (bootstrap : Conn) (version : Int16) (topic : String)
    (correlationBase : Int32) : Checked Conn := do
  let out ← Program.attempts sleep
    (fun attempt () => askLeader ctx bootstrap version topic correlationBase attempt)
    ctx.config.settleAttempts 0 ()
  match out with
  | .inr conn => pure conn
  | .inl () => openConn ctx .needed ctx.addr

end Metadata

section Producing

def probeRecords : List Record :=
  [{ attributes := 0, timestampDelta := 0, offsetDelta := 0, key := some (utf8 "probe-key"),
     value := some (utf8 "odradek conformance probe"),
     headers := [{ key := "origin", value := some (utf8 "odradek-accept") }] },
   { attributes := 0, timestampDelta := 1, offsetDelta := 1, key := some (utf8 "probe-tombstone"),
     value := none, headers := [] }]

def probeBatch (ctx : ServerCtx) : RecordBatch :=
  { baseOffset := 0, partitionLeaderEpoch := -1, attributes := 0, lastOffsetDelta := 1
    baseTimestamp := ctx.startedAt, maxTimestamp := ctx.startedAt + 1, producerId := -1
    producerEpoch := -1, baseSequence := -1, records := .plain probeRecords }

structure ProducedTopic where
  conn : Conn
  addr : String
  topic : String
  topicId : Uuid
  sent : Bytes
  baseOffset : Int64
  deriving DecidableEq

def encodeText : EncodeError → String
  | .tooLong len max => s!"value of length {len} exceeds the wire format limit of {max}"
  | .nullField name => s!"field {name} may not be null in this message version"

/-- The versions `produce_flow` settles on, addressing the topic by name. -/
structure FlowVersions where
  create : Int16
  produce : Int16
  metadata : Int16
  deriving DecidableEq

def flowVersions (ctx : ServerCtx) : Except Verdict FlowVersions := do
  let create ← negotiate "CreateTopics" (← ctx.range 19) 2 7
  let produce ← negotiate "Produce" (← ctx.range 0) 3 12
  let metadata ← metadataRange ctx
  return { create, produce, metadata }

def createForFlow (ctx : ServerCtx) (bootstrap : Conn) (version : Int16) (topic : String) :
    Judged Uuid := do
  let resp ← Program.mapError (fun e => (e.context "CreateTopics").intoVerdict)
    (createTopicsAtController ctx .needed bootstrap version topic 1 false 10)
  match resp.topics.head? with
  | none => throw (.fail "CreateTopics response names no topics")
  | some result =>
    if result.errorCode.isOk then pure result.topicId
    else throw (.fail (s!"CreateTopics failed with {codeText result.errorCode}" ++
      match result.errorMessage with
      | some m => s!": {m}"
      | none => ""))

/-- One attempt of `produce_flow`'s loop, with the connection to produce on. -/
def produceAttempt (ctx : ServerCtx) (bootstrap : Conn) (versions : FlowVersions) (topic : String)
    (topicId : Uuid) (sent : Bytes) (state : Conn × ErrorCode) :
    Judged ((Conn × ErrorCode) ⊕ ProducedTopic) := do
  let resp ← Program.mapError (fun e => (e.context "Produce").intoVerdict)
    (apiCall state.1 versions.produce 11 (.produce topic sent))
  match resp.responses.head?.bind List.head? with
  | none => throw (.fail "Produce response names no partitions")
  | some partition =>
    if partition.errorCode.isOk then
      pure (.inr
        { conn := state.1, addr := state.1.peer, topic, topicId, sent
          baseOffset := partition.baseOffset })
    else if !retriable partition.errorCode then
      throw (.fail s!"Produce failed with {codeText partition.errorCode}")
    else do
      liftM sleep
      let conn ← Program.mapError
        (fun e => (e.context "relocating the partition leader").intoVerdict)
        (connectToLeader ctx bootstrap versions.metadata topic 13)
      pure (.inl (conn, partition.errorCode))

/-- The end of `produce_flow`, from a record set it has encoded. -/
def produceSet (ctx : ServerCtx) (bootstrap : Conn) (versions : FlowVersions) (topic : String)
    (topicId : Uuid) (sent : Bytes) : Judged ProducedTopic := do
  let conn ← Program.mapError (fun e => (e.context "locating the partition leader").intoVerdict)
    (connectToLeader ctx bootstrap versions.metadata topic 12)
  -- The pause is the body's own: it stands before the leader is located again.
  let out ← Program.attempts (.done ())
    (fun _ state => produceAttempt ctx bootstrap versions topic topicId sent state)
    ctx.config.settleAttempts 0 (conn, ⟨0⟩)
  match out with
  | .inr produced => pure produced
  | .inl (_, last) => throw (.fail (s!"topic never became producible: still {codeText last} " ++
      s!"after {ctx.config.settleAttempts} attempts over {ctx.config.settleBudget.text}"))

/-- `produce_flow`, addressing by name. -/
def produceFlow (ctx : ServerCtx) (tag : String) : Judged ProducedTopic := do
  let versions ← Program.given (flowVersions ctx)
  let bootstrap ← Program.mapError CheckError.intoVerdict (openConn ctx .needed ctx.addr)
  let topic ← liftM (uniqueTopic ctx tag)
  let topicId ← createForFlow ctx bootstrap versions.create topic
  let sent ← Program.given ((probeBatch ctx).encode.mapError fun e => .error (encodeText e))
  produceSet ctx bootstrap versions topic topicId sent

def transactionalAttr : Int16 := (1 : Int16) <<< 4

def stampedBatch (ctx : ServerCtx) (stamp : ProduceStamp) : RecordBatch :=
  let batch := probeBatch ctx
  { batch with
    attributes := if stamp.transactionalId.isSome then batch.attributes ||| transactionalAttr
      else batch.attributes
    producerId := stamp.producerId
    producerEpoch := stamp.producerEpoch
    baseSequence := stamp.baseSequence }

def produceStamped (ctx : ServerCtx) (conn : Conn) (version : Int16) (stamp : ProduceStamp)
    (topic : String) (partition : Int32) (correlation : Int32) : Checked (ErrorCode × Int64) := do
  let sent ← Program.given ((stampedBatch ctx stamp).encode.mapError fun e =>
    .infra s!"encoding transactional batch: {encodeText e}")
  let resp ← apiCall conn version correlation
    (.produceStamped topic partition stamp.transactionalId sent)
  match resp.responses.head?.bind List.head? with
  | none => throw (.violation "Produce response names no partitions")
  | some entry => pure (entry.errorCode, entry.baseOffset)

end Producing

section Offsets

def offsetFetchBatched : Int16 := 8
def offsetsByTopicId : Int16 := 10

def offsetsVersions (ctx : ServerCtx) : Except Verdict (Int16 × Int16) := do
  let commit ← negotiate "OffsetCommit" (← ctx.range 8) 2 10
  let fetch ← negotiate "OffsetFetch" (← ctx.range 9) 1 10
  return (commit, fetch)

def skipWithoutTopicId (produced : ProducedTopic) (version : Int16) : Option Verdict :=
  if version ≥ offsetsByTopicId ∧ produced.topicId = zeroUuid then
    some (.skipped
      (s!"offsets v{version} addresses topics by id, and CreateTopics returned none " ++
      s!"for {produced.topic}"))
  else none

/-- Whether an entry of an offsets response is about the topic. -/
def namesTopic (version : Int16) (topic : String) (topicId : Uuid) (name : String) (id : Uuid) :
    Bool :=
  if version ≥ offsetsByTopicId then id == topicId else name == topic

/-- What an OffsetCommit answer says of the topic's partition. -/
def committedCode (resp : OffsetCommitResponse) (version : Int16) (topic : String)
    (topicId : Uuid) : Option ErrorCode :=
  (resp.topics.find? fun t => namesTopic version topic topicId t.name t.topicId).bind
    fun t => t.partitions.head?

def commitOffset (conn : Conn) (version : Int16) (group topic : String) (topicId : Uuid)
    (offset : Int64) (correlation : Int32) : Checked Unit := do
  let resp ← apiCall conn version correlation (.offsetCommit group topic topicId offset)
  match committedCode resp version topic topicId with
  | none => throw (.violation s!"OffsetCommit response omits {topic}[0]")
  | some code =>
    if code.isOk then pure ()
    else throw (.violation s!"committing {offset} for {topic}[0] failed: {codeText code}")

def knowsTopic (resp : MetadataResponse) (topic : String) : Bool :=
  (resp.topics.find? fun t => t.name == some topic).any fun t =>
    t.errorCode.isOk && !t.partitions.isEmpty

/-- One attempt of `await_topic_known`. -/
def askTopic (conn : Conn) (version : Int16) (topic : String) (correlationBase : Int32)
    (attempt : Nat) : Checked (Unit ⊕ Unit) := do
  let resp ← metadataOfTopic conn version topic (correlationBase + attemptId attempt)
  pure (if knowsTopic resp topic then .inr () else .inl ())

def awaitTopicKnown (ctx : ServerCtx) (conn : Conn) (topic : String) (correlationBase : Int32) :
    Checked Unit :=
  match metadataRange ctx with
  | .error _ => pure ()
  | .ok version => do
    let _ ← Program.attempts sleep
      (fun attempt () => askTopic conn version topic correlationBase attempt)
      ctx.config.settleAttempts 0 ()
    pure ()

def containsText (text pattern : String) : Bool := decide (pattern.toList <:+: text.toList)

/-- A violation that says another broker coordinates the group. -/
def redirected : CheckError → Bool
  | .infra _ => false
  | .violation details => containsText details (codeText .notCoordinator)

/-- One attempt of `commit_offset_settled`. -/
def commitAttempt (ctx : ServerCtx) (group : String) (produced : ProducedTopic) (offset : Int64)
    (version : Int16) (correlation : Int32) : Checked (CheckError ⊕ Conn) := do
  let conn ← coordinatorConn ctx group
  awaitTopicKnown ctx conn produced.topic correlation
  let committed ← Program.caught (commitOffset conn version group produced.topic produced.topicId
    offset (correlation + 1))
  match committed with
  | .ok () => pure (.inr conn)
  | .error e => if redirected e then pure (.inl e) else throw e

def commitOffsetSettled (ctx : ServerCtx) (group : String) (produced : ProducedTopic)
    (offset : Int64) (version : Int16) (correlation : Int32) : Checked Conn := do
  let out ← Program.attempts sleep
    (fun _ _ => commitAttempt ctx group produced offset version correlation)
    ctx.config.settleAttempts 0 (CheckError.infra "no commit attempts were made")
  match out with
  | .inr conn => pure conn
  | .inl last => throw last

/-- What an OffsetFetch answer says of the topic's partition: its code and its offset. -/
def fetchedOffset (resp : OffsetFetchResponse) (version : Int16) (group topic : String)
    (topicId : Uuid) : Except String (ErrorCode × Int64) :=
  if version ≥ offsetFetchBatched then
    match resp.groups.find? fun g => g.groupId == group with
    | none => .error s!"OffsetFetch response omits group {group.quote}"
    | some g =>
      match (g.topics.find? fun t => namesTopic version topic topicId t.name t.topicId).bind
          fun t => t.partitions.head? with
      | none => .error s!"OffsetFetch response omits {topic}[0]"
      | some partition =>
        .ok (if g.errorCode.isOk then partition.errorCode else g.errorCode,
          partition.committedOffset)
  else
    match (resp.topics.find? fun t => t.name == topic).bind fun t => t.partitions.head? with
    | none => .error s!"OffsetFetch response omits {topic}[0]"
    | some partition => .ok (partition.errorCode, partition.committedOffset)

def fetchCommitted (conn : Conn) (version : Int16) (group topic : String) (topicId : Uuid)
    (correlation : Int32) : Checked Int64 := do
  let resp ← apiCall conn version correlation (.offsetFetch group topic topicId)
  match fetchedOffset resp version group topic topicId with
  | .error details => throw (.violation details)
  | .ok (code, committed) =>
    if code.isOk then pure committed
    else throw (.violation
      s!"reading the committed offset for {topic}[0] failed: {codeText code}")

end Offsets

end Odradek.Acceptance.Server
