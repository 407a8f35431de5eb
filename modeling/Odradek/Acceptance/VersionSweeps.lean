import Odradek.Acceptance.RecoveryChecks

/-!
The checks that sweep versions (`checks/server.rs`): one question asked at every
version of an api that both sides speak. Each folds what became of its exchanges
into one verdict in its own way.
-/

namespace Odradek.Acceptance.Server

open Library Odradek.Protocol Odradek.Client

section ListOffsets

def earliestTimestamp : Int64 := -2
def latestTimestamp : Int64 := -1

/-- What a ListOffsets answer says of the topic's first partition. -/
def listedPartition (resp : ListOffsetsResponse) (topic : String) :
    Option ListOffsetsPartitionResponse :=
  (resp.topics.find? fun t => t.name == topic).bind fun t => t.partitions.head?

def listOffsetsAt (conn : Conn) (version : Int16) (topic : String) (timestamp : Int64)
    (correlation : Int32) : Checked Int64 := do
  let resp ← apiCall conn version correlation (.listOffsets topic timestamp)
  match listedPartition resp topic with
  | none => throw (.violation s!"ListOffsets response omits {topic}[0]")
  | some partition =>
    if partition.errorCode.isOk then pure partition.offset
    else throw (.violation (s!"ListOffsets for {topic}[0] at timestamp {timestamp} failed: " ++
      codeText partition.errorCode))

def batchRecordCount (batch : RecordBatch) : Int64 :=
  match batch.records with
  | .plain records => Int64.ofNat records.length
  | .compressed count _ => count.toInt64

/-- What a decoder's error prints is left out. -/
def sentRecords (produced : ProducedTopic) : Except Verdict Int64 :=
  match runDecode .default decodeSet produced.sent with
  | .ok (batches, _) => .ok (batches.map batchRecordCount).sum
  | .error _ => .error (.error "suite produced a record set it cannot decode")

/-- The log at one version, the `i`th swept. -/
def spanAt (produced : ProducedTopic) (records : Int64) (swept : Int16 × Nat) : Judged Unit := do
  let version := swept.1
  let base := 41 + attemptId swept.2 * 2
  let earliest ← Program.mapError (fun e => e.intoVerdict.atVersion version)
    (listOffsetsAt produced.conn version produced.topic earliestTimestamp base)
  let latest ← Program.mapError (fun e => e.intoVerdict.atVersion version)
    (listOffsetsAt produced.conn version produced.topic latestTimestamp (base + 1))
  if earliest ≠ 0 then
    throw (.fail (s!"v{version}: log start of a freshly created topic is {earliest}, " ++
      "expected 0"))
  else if latest - earliest ≠ records then
    throw (.fail (s!"v{version}: log spans {latest - earliest} offset(s) " ++
      s!"({earliest}..{latest}) after producing {records} record(s)"))
  else pure ()

def listOffsetsEarliestLatest (ctx : ServerCtx) : Run Verdict := judge do
  let versions ← Program.given (do negotiateAll "ListOffsets" (← ctx.range 2) 1 10)
  let produced ← produceFlow ctx "listoffsets"
  let records ← Program.given (sentRecords produced)
  Program.each (fun swept () => spanAt produced records swept) versions.zipIdx ()
  pure .pass

end ListOffsets

section FindCoordinator

/-- One attempt of `find_coordinator_at`. -/
def askForGroup (conn : Conn) (version : Int16) (group : String) (correlationBase : Int32)
    (attempt : Nat) : Checked (ErrorCode ⊕ FindCoordinatorResponse) := do
  let resp ← apiCall conn version (correlationBase + attemptId attempt) (.findCoordinator group)
  let last := coordinatorError resp version
  pure (if isCoordinatorSettling last then .inl last else .inr resp)

/-- A coordinator's code, the key it answers for where the shape has one, its host
and port. -/
def judgeEndpoint (group : String) (code : ErrorCode) (key : Option String) (host : String)
    (port : Int32) : Verdict :=
  if !code.isOk then .fail s!"no coordinator for group {group.quote}: {codeText code}"
  else if key.any fun key => key != group then
    .fail (s!"asked about group {group.quote}, response answers for " ++
      (key.getD "").quote)
  else if !plausibleAddress host port then
    .fail s!"coordinator endpoint is implausible: {host.quote}:{port}"
  else .pass

/-- The two shapes are different messages wearing one name. -/
def judgeCoordinator (version : Int16) (group : String) (resp : FindCoordinatorResponse) :
    Verdict :=
  if version ≥ findCoordinatorBatched then
    match resp.coordinators with
    | [c] => judgeEndpoint group c.errorCode (some c.key) c.host c.port
    | coordinators =>
      .fail s!"asked about 1 coordinator key, response carries {coordinators.length}"
  else judgeEndpoint group resp.errorCode none resp.host resp.port

def findCoordinatorAt (ctx : ServerCtx) (version : Int16) (group : String)
    (correlationBase : Int32) : Run Verdict := judge do
  let conn ← Program.mapError CheckError.intoVerdict (openConn ctx .needed ctx.addr)
  let out ← Program.mapError CheckError.intoVerdict (Program.attempts sleep
    (fun attempt _ => askForGroup conn version group correlationBase attempt)
    ctx.config.settleAttempts 0 ⟨0⟩)
  match out with
  | .inl last => throw (.fail (s!"coordinator for {group.quote} still {codeText last} after " ++
      ctx.config.settleBudget.text))
  | .inr resp => pure (judgeCoordinator version group resp)

def coordinatorAt (ctx : ServerCtx) (group : String) (swept : Int16 × Nat) : Judged Unit := do
  let verdict ← liftM (findCoordinatorAt ctx swept.1 group (51 + attemptId swept.2 * 32))
  match verdict with
  | .fail details => throw (.fail s!"v{swept.1}: {details}")
  -- Nothing but a failure ends the sweep, and nothing else is kept of a version.
  | _ => pure ()

def findCoordinatorGroup (ctx : ServerCtx) : Run Verdict := judge do
  let versions ← Program.given (do negotiateAll "FindCoordinator" (← ctx.range 10) 0 6)
  let group := checkGroup ctx "find-coordinator"
  Program.each (fun swept () => coordinatorAt ctx group swept) versions.zipIdx ()
  pure .pass

end FindCoordinator

section RoundTrip

def offsetsCommitAndFetchVersions (ctx : ServerCtx) : Except Verdict (Int16 × List Int16) := do
  let commit ← negotiate "OffsetCommit" (← ctx.range 8) 2 10
  let fetch ← negotiateAll "OffsetFetch" (← ctx.range 9) 1 10
  return (commit, fetch)

def committedInRoundTrip : Int64 := 7

def readBackAt (conn : Conn) (produced : ProducedTopic) (group : String) (swept : Int16 × Nat) :
    Judged Unit :=
  if swept.1 ≥ offsetsByTopicId ∧ produced.topicId = zeroUuid then pure ()
  else do
    let got ← Program.mapError (fun e => e.intoVerdict.atVersion swept.1)
      (fetchCommitted conn swept.1 group produced.topic produced.topicId (62 + attemptId swept.2))
    if got = committedInRoundTrip then pure ()
    else throw (.fail
      s!"v{swept.1}: committed offset {committedInRoundTrip}, read back {got}")

def offsetsCommitFetchRoundtrip (ctx : ServerCtx) : Run Verdict := judge do
  let versions ← Program.given (offsetsCommitAndFetchVersions ctx)
  let produced ← produceFlow ctx "offsets"
  Program.given (unlessSkipped (skipWithoutTopicId produced versions.1))
  let group := checkGroup ctx produced.topic
  let conn ← Program.mapError CheckError.intoVerdict
    (commitOffsetSettled ctx group produced committedInRoundTrip versions.1 55)
  Program.each (fun swept () => readBackAt conn produced group swept) versions.2.zipIdx ()
  pure .pass

end RoundTrip

section Exchanges

def decoded (conn : Conn) (version : Int16) (correlation : Int32) (request : Request) :
    Checked Unit := do
  let _ ← apiCall conn version correlation request
  pure ()

def sweepFetchById (conn : Conn) (version : Int16) (topicId : Uuid) (correlation : Int32) :
    Checked Unit := decoded conn version correlation (.sweepFetchById topicId)

def sweepOffsetCommit (conn : Conn) (version : Int16) (group topic : String) (topicId : Uuid)
    (correlation : Int32) : Checked Unit :=
  decoded conn version correlation (.sweepOffsetCommit group topic topicId)

def sweepJoinGroup (group : String) (conn : Conn) (version : Int16) (correlation : Int32) :
    Checked Unit := decoded conn version correlation (.sweepJoinGroup group)

def sweepSyncGroup (group : String) (conn : Conn) (version : Int16) (correlation : Int32) :
    Checked Unit := decoded conn version correlation (.sweepSyncGroup group)

def sweepHeartbeat (group : String) (conn : Conn) (version : Int16) (correlation : Int32) :
    Checked Unit := decoded conn version correlation (.sweepHeartbeat group)

def sweepLeaveGroup (group : String) (conn : Conn) (version : Int16) (correlation : Int32) :
    Checked Unit := decoded conn version correlation (.sweepLeaveGroup group)

def sweepConsumerGroupHeartbeat (group : String) (conn : Conn) (version : Int16)
    (correlation : Int32) : Checked Unit :=
  decoded conn version correlation (.sweepConsumerGroupHeartbeat group)

def sweepAddOffsetsToTxn (group : String) (conn : Conn) (version : Int16) (correlation : Int32) :
    Checked Unit := decoded conn version correlation (.sweepAddOffsetsToTxn group)

def sweepEndTxn (conn : Conn) (version : Int16) (correlation : Int32) : Checked Unit :=
  decoded conn version correlation .sweepEndTxn

def sweepTxnOffsetCommit (group topic : String) (conn : Conn) (version : Int16)
    (correlation : Int32) : Checked Unit :=
  decoded conn version correlation (.sweepTxnOffsetCommit group topic)

def sweepSaslHandshake (conn : Conn) (version : Int16) (correlation : Int32) : Checked Unit :=
  decoded conn version correlation .sweepSaslHandshake

def sweepSaslAuthenticate (conn : Conn) (version : Int16) (correlation : Int32) : Checked Unit :=
  decoded conn version correlation .sweepSaslAuthenticate

end Exchanges

section Speakable

/-- What `versions_advertised_are_speakable` keeps of its sweeps. -/
structure Tally where
  swept : List String
  failures : List String
  deriving DecidableEq

def Tally.note {α : Type} (tally : Tally) (what : String) : Except CheckError α → Tally
  | .ok _ => tally
  | .error e => { tally with failures := tally.failures ++ [s!"{what}: {e.details}"] }

def versionsOf (ctx : ServerCtx) (apiKey : Int16) (api : String) (min max : Int16) :
    Except Verdict (List Int16) := do
  negotiateAll api (← ctx.range apiKey) min max

/-- `v0-12`, or `v7` when there is only one. -/
def span (versions : List Int16) : String :=
  match versions.head?, versions.getLast? with
  | some first, some last => if first ≠ last then s!"v{first}-{last}" else s!"v{first}"
  | some only, _ => s!"v{only}"
  | none, _ => "none"

/-- An exchange whose error is written down and no more. -/
def noted {α : Type} (what : String) (exchange : Checked α) (tally : Tally) : Judged Tally := do
  let r ← Program.caught exchange
  pure (tally.note what r)

/-- A sweep of the versions there are, if any. -/
def overVersions (versions : Except Verdict (List Int16)) (label : String)
    (sweepAt : Int16 → Tally → Judged Tally) (tally : Tally) : Judged Tally :=
  match versions with
  | .error _ => pure tally
  | .ok versions => do
    let tally ← Program.each sweepAt versions tally
    pure { tally with swept := tally.swept ++ [s!"{label} {span versions}"] }

def sweepProduce (ctx : ServerCtx) (produced : ProducedTopic) : Tally → Judged Tally :=
  overVersions (versionsOf ctx 0 "Produce" 3 12) "Produce" fun version tally => do
    let conn ← Program.mapError CheckError.intoVerdict (openConn ctx .needed produced.addr)
    noted s!"Produce v{version}"
      (produceStamped ctx conn version .plain produced.topic 0 (1600 + version.toInt32)) tally

def sweepFetch (ctx : ServerCtx) (produced : ProducedTopic) (tally : Tally) : Judged Tally :=
  if produced.topicId = zeroUuid then pure tally
  else
    overVersions (versionsOf ctx 1 "Fetch" 13 18) "Fetch-by-id" (fun version tally => do
      let conn ← Program.mapError CheckError.intoVerdict (openConn ctx .needed produced.addr)
      noted s!"Fetch v{version} (by id)"
        (sweepFetchById conn version produced.topicId (1640 + version.toInt32)) tally) tally

def sweepCommits (ctx : ServerCtx) (produced : ProducedTopic) : Tally → Judged Tally :=
  let commitMax := if produced.topicId = zeroUuid then offsetsByTopicId - 1 else 10
  let group := checkGroup ctx "sweep"
  overVersions (versionsOf ctx 8 "OffsetCommit" 2 commitMax) "OffsetCommit" fun version tally => do
    let conn ← Program.mapError
      (fun e => (e.context "locating the group coordinator").intoVerdict)
        (coordinatorConn ctx group)
    noted s!"OffsetCommit v{version}"
      (sweepOffsetCommit conn version group produced.topic produced.topicId
        (1680 + version.toInt32)) tally

def validateTopic (ctx : ServerCtx) (conn : Conn) (version : Int16) :
    Checked (ErrorCode × Uuid) := do
  let name ← liftM (uniqueTopic ctx s!"sweepct{version}")
  createTopicCall ctx .recorded conn version name true (1720 + version.toInt32 * 4)

def sweepCreateTopics (ctx : ServerCtx) : Tally → Judged Tally :=
  overVersions (versionsOf ctx 19 "CreateTopics" 2 7) "CreateTopics" fun version tally => do
    let conn ← Program.mapError CheckError.intoVerdict (openConn ctx .needed ctx.addr)
    noted s!"CreateTopics v{version}" (validateTopic ctx conn version) tally

/-- One api to sweep across its whole advertised range. -/
structure SequenceSweep where
  apiKey : Int16
  name : String
  min : Int16
  max : Int16
  base : Int32

/-- The connection is the exchange's: one that fails is written down with it. -/
def sweepSequence (ctx : ServerCtx) (addr : String) (api : SequenceSweep)
    (exchange : Conn → Int16 → Int32 → Checked Unit) : Tally → Judged Tally :=
  overVersions (versionsOf ctx api.apiKey api.name api.min api.max) api.name fun version tally =>
    noted s!"{api.name} v{version}" (do
      let conn ← openConn ctx .recorded addr
      exchange conn version (api.base + version.toInt32)) tally

def sweepSequences (ctx : ServerCtx) (produced : ProducedTopic) (tally : Tally) :
    Judged Tally := do
  let group := checkGroup ctx "sweepseq"
  let tally ← sweepSequence ctx produced.addr
    { apiKey := 11, name := "JoinGroup", min := 0, max := 9, base := 1700 }
    (sweepJoinGroup group) tally
  let tally ← sweepSequence ctx produced.addr
    { apiKey := 14, name := "SyncGroup", min := 0, max := 5, base := 1720 }
    (sweepSyncGroup group) tally
  let tally ← sweepSequence ctx produced.addr
    { apiKey := 12, name := "Heartbeat", min := 0, max := 4, base := 1740 }
    (sweepHeartbeat group) tally
  let tally ← sweepSequence ctx produced.addr
    { apiKey := 13, name := "LeaveGroup", min := 0, max := 5, base := 1760 }
    (sweepLeaveGroup group) tally
  let tally ← sweepSequence ctx produced.addr
    { apiKey := 68, name := "ConsumerGroupHeartbeat", min := 0, max := 1, base := 1780 }
    (sweepConsumerGroupHeartbeat group) tally
  let tally ← sweepSequence ctx produced.addr
    { apiKey := 25, name := "AddOffsetsToTxn", min := 0, max := 4, base := 1800 }
    (sweepAddOffsetsToTxn group) tally
  let tally ← sweepSequence ctx produced.addr
    { apiKey := 26, name := "EndTxn", min := 0, max := 5, base := 1820 } sweepEndTxn tally
  let tally ← sweepSequence ctx produced.addr
    { apiKey := 28, name := "TxnOffsetCommit", min := 0, max := 5, base := 1840 }
    (sweepTxnOffsetCommit group produced.topic) tally
  let tally ← sweepSequence ctx (ctx.saslAddr.getD ctx.addr)
    { apiKey := 17, name := "SaslHandshake", min := 0, max := 1, base := 1860 }
    sweepSaslHandshake tally
  sweepSequence ctx ctx.addr
    { apiKey := 36, name := "SaslAuthenticate", min := 0, max := 2, base := 1880 }
    sweepSaslAuthenticate tally

def Tally.verdict (tally : Tally) : Verdict :=
  if tally.swept.isEmpty then .skipped "the subject advertises none of the apis this sweeps"
  else if tally.failures.isEmpty then .pass
  else .fail (s!"{tally.failures.length} advertised version(s) could not be spoken. Swept " ++
    ", ".intercalate tally.swept ++ ". " ++ "; ".intercalate tally.failures)

def versionsAdvertisedAreSpeakable (ctx : ServerCtx) : Run Verdict := judge do
  let produced ← produceFlow ctx "sweep"
  let tally ← sweepProduce ctx produced { swept := [], failures := [] }
  let tally ← sweepFetch ctx produced tally
  let tally ← sweepCommits ctx produced tally
  let tally ← sweepCreateTopics ctx tally
  let tally ← sweepSequences ctx produced tally
  pure tally.verdict

end Speakable

end Odradek.Acceptance.Server
