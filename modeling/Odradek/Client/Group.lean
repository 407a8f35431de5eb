import Mathlib.Data.List.Sort
import Mathlib.Data.String.Basic
import Odradek.Client.Retry
import Odradek.Library.SortedMap
import Odradek.Protocol.ConsumerProtocol

/-!
Membership in a classic group (`group.rs`): the round of JoinGroup and SyncGroup, the
leader's assignment of the whole group, heartbeats, and the identity a commit goes
under. What a broker answers comes with the round; the versions it speaks are answers
too, and an `expect` that fails ends the caller: such a round has no result.
-/

namespace Odradek.Client

open Library Protocol

section Messages

structure JoinGroupRequest where
  groupId : String
  sessionTimeoutMs : Int32
  rebalanceTimeoutMs : Int32
  memberId : String
  groupInstanceId : Option String
  protocolType : String
  protocols : List (String × Bytes)
  deriving DecidableEq

structure JoinGroupResponse where
  errorCode : ErrorCode
  generationId : Int32
  leader : String
  memberId : String
  members : List (String × Bytes)
  deriving DecidableEq

structure SyncGroupRequest where
  groupId : String
  generationId : Int32
  memberId : String
  groupInstanceId : Option String
  protocolType : Option String
  protocolName : Option String
  assignments : List (String × Bytes)
  deriving DecidableEq

structure SyncGroupResponse where
  errorCode : ErrorCode
  assignment : Bytes
  deriving DecidableEq

inductive GroupRequest
  | join (request : JoinGroupRequest)
  | sync (request : SyncGroupRequest)
  deriving DecidableEq

end Messages

section Range

/-- `per` partitions to each member, one more to each of the first `extra`. -/
def splitRange (per extra : Nat) : (i next : Nat) → List String → List (String × List Int32)
  | _, _, [] => []
  | i, next, member :: rest =>
    let take := per + if i < extra then 1 else 0
    if take = 0 then splitRange per extra (i + 1) next rest
    else
      (member, (List.range' next take).map Int32.ofNat) ::
        splitRange per extra (i + 1) (next + take) rest

/-- `range_assign`. A topic's count is an `i32` that is not negative. -/
def rangeAssign (topicPartitions : List (String × Nat))
    (subscriptions : List (String × List String)) : SortedMap String (List (String × List Int32)) :=
  topicPartitions.foldl
    (fun out (topic, count) =>
      let members := ((subscriptions.filter fun s => topic ∈ s.2).map (·.1)).insertionSort (· ≤ ·)
      let n := min members.length i32Max
      (splitRange (count / n) (count % n) 0 0 members).foldl
        (fun out (member, parts) =>
          out.insert member ((out.lookup member).getD [] ++ [(topic, parts)]))
        out)
    (subscriptions.foldl (fun out s => out.insert s.1 []) .empty)

end Range

section Member

structure GroupConfig where
  sessionTimeoutMs : Int32
  rebalanceTimeoutMs : Int32
  maxAttempts : Nat

def GroupConfig.default : GroupConfig :=
  { sessionTimeoutMs := 30000
    rebalanceTimeoutMs := 60000
    maxAttempts := 20 }

def protocolType : String := "consumer"
def assignor : String := "range"

structure GroupMember where
  groupId : String
  topics : List String
  memberId : String
  generationId : Int32
  isLeader : Bool
  assignment : List (String × List Int32)
  deriving DecidableEq

/-- What the cluster answers during one round. -/
structure RoundAnswers where
  lease : Except ClientError Unit
  joinVersion : Except ClientError Int16
  join : Except ClientError JoinGroupResponse
  joinAgain : Except ClientError JoinGroupResponse
  refreshMetadata : Except ClientError Unit
  partitionCount : String → Option Nat
  syncVersion : Except ClientError Int16
  sync : Except ClientError SyncGroupResponse

structure HeartbeatAnswers where
  coordinator : Except ClientError Unit
  response : Except ClientError ErrorCode

inductive HeartbeatStatus
  | stable
  | rebalanceInProgress
  | evicted
  deriving DecidableEq

structure CommitIdentity where
  generationId : Int32
  memberId : String
  deriving DecidableEq

abbrev Outcome (α : Type) := Option (Except ClientError α)

def Outcome.ofDecode {α : Type} : Except Halt α → Outcome α
  | .ok value => some (.ok value)
  | .error (.error e) => some (.error (.decode e))
  | .error .panic => none

def Outcome.ofEncode {α : Type} : Except EncodeError α → Outcome α
  | .ok value => some (.ok value)
  | .error _ => none

def Outcome.andThen {α β : Type} : Outcome α → (α → Outcome β) → Outcome β
  | none, _ => none
  | some (.error e), _ => some (.error e)
  | some (.ok value), f => f value

def Outcome.all {α β : Type} (f : α → Outcome β) : List α → Outcome (List β)
  | [] => some (.ok [])
  | a :: rest => Outcome.andThen (f a) fun b =>
    Outcome.andThen (Outcome.all f rest) fun bs => some (.ok (b :: bs))

def leaderAssignments (answers : RoundAnswers) (members : List (String × Bytes)) :
    Outcome (List (String × Bytes)) :=
  Outcome.andThen (Outcome.all (fun m => Outcome.andThen (Outcome.ofDecode (decodeSubscription m.2))
      fun topics => some (.ok (m.1, topics))) members) fun subscriptions =>
    Outcome.andThen (some answers.refreshMetadata) fun _ =>
      let allTopics := (subscriptions.foldl
        (fun set s => s.2.foldl (fun set topic => set.insert topic ()) set)
        (SortedMap.empty : SortedMap String Unit)).keys
      let counts := allTopics.map fun topic =>
        (topic, (answers.partitionCount topic).elim 0 fun count => min count i32Max)
      Outcome.all (fun entry => Outcome.andThen (Outcome.ofEncode (encodeAssignment entry.2))
        fun assignment => some (.ok (entry.1, assignment)))
          (rangeAssign counts subscriptions).entries

namespace GroupMember

def new (groupId : String) (topics : List String) : GroupMember :=
  { groupId
    topics
    memberId := ""
    generationId := -1
    isLeader := false
    assignment := [] }

def commitIdentity (m : GroupMember) : CommitIdentity :=
  { generationId := m.generationId, memberId := m.memberId }

def joinRequest (config : GroupConfig) (m : GroupMember) (subscription : Bytes) :
    JoinGroupRequest :=
  { groupId := m.groupId
    sessionTimeoutMs := config.sessionTimeoutMs
    rebalanceTimeoutMs := config.rebalanceTimeoutMs
    memberId := m.memberId
    groupInstanceId := none
    protocolType
    protocols := [(assignor, subscription)] }

def syncRequest (m : GroupMember) (assignments : List (String × Bytes)) : SyncGroupRequest :=
  { groupId := m.groupId
    generationId := m.generationId
    memberId := m.memberId
    groupInstanceId := none
    protocolType := some protocolType
    protocolName := some assignor
    assignments }

/-- Where a round has come to: what it has sent, and the member as it is by now. -/
structure Round where
  outcome : Outcome Unit
  member : GroupMember
  sent : List GroupRequest
  deriving DecidableEq

def syncRound (answers : RoundAnswers) (m : GroupMember) (sent : List GroupRequest)
    (assignments : List (String × Bytes)) : Round :=
  match answers.syncVersion with
  | .error e => { outcome := some (.error e), member := m, sent }
  | .ok _ =>
    let sent := sent ++ [.sync (m.syncRequest assignments)]
    match answers.sync with
    | .error e => { outcome := some (.error e), member := m, sent }
    | .ok response =>
      if !response.errorCode.isOk then
        { outcome := some (.error (.broker response.errorCode)), member := m, sent }
      else
        match Outcome.ofDecode (decodeAssignment response.assignment) with
        | none => { outcome := none, member := m, sent }
        | some (.error e) => { outcome := some (.error e), member := m, sent }
        | some (.ok assignment) =>
          { outcome := some (.ok ()), member := { m with assignment }, sent }

/-- From the last JoinGroup answer on. -/
def joinedRound (answers : RoundAnswers) (m : GroupMember) (sent : List GroupRequest)
    (response : JoinGroupResponse) : Round :=
  if !response.errorCode.isOk then
    { outcome := some (.error (.broker response.errorCode)), member := m, sent }
  else
    let m := { m with
      memberId := response.memberId
      generationId := response.generationId
      isLeader := response.leader = response.memberId }
    match if m.isLeader then leaderAssignments answers response.members else some (.ok []) with
    | none => { outcome := none, member := m, sent }
    | some (.error e) => { outcome := some (.error e), member := m, sent }
    | some (.ok assignments) => syncRound answers m sent assignments

def joinRound (config : GroupConfig) (answers : RoundAnswers) (m : GroupMember) : Round :=
  match encodeSubscription m.topics with
  | .error _ => { outcome := none, member := m, sent := [] }
  | .ok subscription =>
    match answers.lease, answers.joinVersion with
    | .error e, _ => { outcome := some (.error e), member := m, sent := [] }
    | _, .error e => { outcome := some (.error e), member := m, sent := [] }
    | .ok (), .ok _ =>
      let sent := [.join (m.joinRequest config subscription)]
      match answers.join with
      | .error e => { outcome := some (.error e), member := m, sent }
      | .ok response =>
        if response.errorCode = .memberIdRequired then
          let m := { m with memberId := response.memberId }
          let sent := sent ++ [.join (m.joinRequest config subscription)]
          match answers.joinAgain with
          | .error e => { outcome := some (.error e), member := m, sent }
          | .ok response => joinedRound answers m sent response
        else joinedRound answers m sent response

def attempt (config : GroupConfig) (answers : RoundAnswers) (m : GroupMember) :
    Attempt Unit × GroupMember :=
  let round := m.joinRound config answers
  match round.outcome with
  | none => (.fatal .connectionClosed, round.member)
  | some (.ok ()) => (.done (), round.member)
  | some (.error e) =>
    if e.isRetriable then (.retry e, round.member)
    else if e = .broker .rebalanceInProgress ∨ e = .broker .illegalGeneration then
      (.retry e, round.member)
    else if e = .broker .unknownMemberId then (.retry e, { round.member with memberId := "" })
    else (.fatal e, round.member)

def returns (config : GroupConfig) (answers : RoundAnswers) (m : GroupMember) : Bool :=
  (m.joinRound config answers).outcome.isSome

def heartbeatAttempt (answers : HeartbeatAnswers) (m : GroupMember) :
    Attempt HeartbeatStatus × GroupMember :=
  match answers.coordinator, answers.response with
  | .error e, _ => (classified (.error e), m)
  | _, .error e => (classified (.error e), m)
  | .ok (), .ok code =>
    if code.isOk then (.done .stable, m)
    else if code = .rebalanceInProgress then (.done .rebalanceInProgress, m)
    else if code = .unknownMemberId ∨ code = .illegalGeneration then
      (.done .evicted, { m with memberId := "" })
    else (classified (.error (.broker code)), m)

end GroupMember

end Member

end Odradek.Client
