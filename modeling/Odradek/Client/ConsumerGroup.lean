import Mathlib.Data.List.Sort
import Odradek.Client.Retry
import Odradek.Protocol.Wire

/-!
Membership in a KIP-848 group (`consumer_group.rs`): heartbeats from epoch 0 on, the
target the coordinator hands down, and its resolution from topic ids to names. What
the cluster answers during one attempt comes with the attempt; a caller's schedule
and the versions a broker speaks are left out.
-/

namespace Odradek.Client

open Odradek.Protocol

section Messages

abbrev TopicId := { bytes : Bytes // bytes.length = 16 }

abbrev Partitions (κ : Type) := κ × List Int32

instance : DecidableEq (Partitions TopicId) := inferInstance

structure ConsumerGroupHeartbeatRequest where
  groupId : String
  memberId : String
  memberEpoch : Int32
  rebalanceTimeoutMs : Int32 := -1
  subscribedTopicNames : Option (List String) := none
  serverAssignor : Option String := none
  topicPartitions : Option (List (Partitions TopicId)) := none
  deriving DecidableEq

structure ConsumerGroupHeartbeatResponse where
  errorCode : ErrorCode
  memberId : Option String
  memberEpoch : Int32
  heartbeatIntervalMs : Int32
  assignment : Option (List (Partitions TopicId))
  deriving DecidableEq

end Messages

section Sorting

/-- Lexicographic, as tuples and vectors are. -/
def Partitions.le {κ : Type} [DecidableEq κ] [LT κ] [DecidableLT κ] (a b : Partitions κ) : Bool :=
  decide (a.1 < b.1) || (a.1 == b.1 && decide (a.2 ≤ b.2))

instance : LT TopicId := ⟨fun a b => a.1 < b.1⟩

instance : DecidableLT TopicId := fun a b => inferInstanceAs (Decidable (a.1 < b.1))

def sortPartitions {κ : Type} [DecidableEq κ] [LT κ] [DecidableLT κ]
    (partitions : List (Partitions κ)) : List (Partitions κ) :=
  partitions.insertionSort fun a b => Partitions.le a b = true

end Sorting

section Member

structure ConsumerGroupConfig where
  rebalanceTimeoutMs : Int32
  serverAssignor : Option String
  maxAttempts : Nat

def ConsumerGroupConfig.default : ConsumerGroupConfig :=
  { rebalanceTimeoutMs := 60000
    serverAssignor := none
    maxAttempts := 20 }

inductive GroupEvent
  | stable
  | assignmentChanged
  | rejoined
  deriving DecidableEq

structure ConsumerGroupMember where
  groupId : String
  topics : List String
  memberId : String
  memberEpoch : Int32
  heartbeatInterval : Nat
  owned : List (Partitions TopicId)
  assignment : List (Partitions String)
  ackPending : Bool
  deriving DecidableEq

/-- What the cluster answers during one attempt. Names are looked up in its cached
metadata, before and after they are refreshed. -/
structure GroupAnswers where
  coordinator : Except ClientError Unit
  response : Except ClientError ConsumerGroupHeartbeatResponse
  known : TopicId → Option String
  refresh : Except ClientError Unit
  refreshed : TopicId → Option String

namespace ConsumerGroupMember

def new (groupId : String) (topics : List String) (memberId : String) : ConsumerGroupMember :=
  { groupId
    topics
    memberId
    memberEpoch := 0
    heartbeatInterval := 500
    owned := []
    assignment := []
    ackPending := false }

/-- `{:02x}`. -/
def hexByte (b : UInt8) : String :=
  let digit (n : Nat) : Char := "0123456789abcdef".toList.getD n '0'
  String.ofList [digit (b.toNat / 16), digit (b.toNat % 16)]

def unresolved (topicId : TopicId) : ClientError :=
  .protocolViolation ("assigned topic id [" ++ ", ".intercalate (topicId.1.map hexByte) ++
    "] resolves to no subscribed topic")

/-- `topic_name_by_id`, then once for all topics a refresh. -/
def nameOf (answers : GroupAnswers) (refreshed : Bool) (topicId : TopicId) :
    Except ClientError (String × Bool) :=
  match if refreshed then answers.refreshed topicId else answers.known topicId with
  | some name => .ok (name, refreshed)
  | none =>
    if refreshed then .error (unresolved topicId)
    else
      match answers.refresh with
      | .error e => .error e
      | .ok () =>
        match answers.refreshed topicId with
        | some name => .ok (name, true)
        | none => .error (unresolved topicId)

def resolveAll (answers : GroupAnswers) :
    (refreshed : Bool) → List (Partitions TopicId) → Except ClientError (List (Partitions String))
  | _, [] => .ok []
  | refreshed, (topicId, partitions) :: rest =>
    match nameOf answers refreshed topicId with
    | .error e => .error e
    | .ok (name, refreshed) =>
      (resolveAll answers refreshed rest).map fun named => (name, partitions) :: named

def resolve (answers : GroupAnswers) (owned : List (Partitions TopicId)) :
    Except ClientError (List (Partitions String)) :=
  (resolveAll answers false owned).map sortPartitions

/-- The request of a heartbeat: the whole subscription at epoch 0, the adopted target
where it has yet to be acknowledged. -/
def request (config : ConsumerGroupConfig) (m : ConsumerGroupMember) :
    ConsumerGroupHeartbeatRequest :=
  let request : ConsumerGroupHeartbeatRequest :=
    { groupId := m.groupId
      memberId := m.memberId
      memberEpoch := m.memberEpoch }
  if m.memberEpoch = 0 then
    { request with
      rebalanceTimeoutMs := config.rebalanceTimeoutMs
      subscribedTopicNames := some m.topics
      serverAssignor := config.serverAssignor
      topicPartitions := some [] }
  else if m.ackPending then { request with topicPartitions := some m.owned }
  else request

/-- Back to epoch 0, with the same member id. -/
def fenced (m : ConsumerGroupMember) : ConsumerGroupMember :=
  { m with
    memberEpoch := 0
    owned := []
    assignment := []
    ackPending := false }

/-- What a response without an error updates before its assignment is looked at. -/
def accepted (m : ConsumerGroupMember) (response : ConsumerGroupHeartbeatResponse) :
    ConsumerGroupMember :=
  { m with
    memberId :=
      match response.memberId with
      | some id => if id ≠ "" then id else m.memberId
      | none => m.memberId
    memberEpoch := response.memberEpoch
    heartbeatInterval :=
      if response.heartbeatIntervalMs > 0 then response.heartbeatIntervalMs.toInt.toNat
      else m.heartbeatInterval
    ackPending := false }

def event (rejoining : Bool) (m : ConsumerGroupMember) (changed : Bool) : GroupEvent :=
  if rejoining && m.memberEpoch > 0 then .rejoined
  else if changed then .assignmentChanged
  else .stable

/-- The assignment of a response, `None` where nothing changed. -/
def adopt (answers : GroupAnswers) (rejoining : Bool) (m : ConsumerGroupMember) :
    Option (List (Partitions TopicId)) → Attempt GroupEvent × ConsumerGroupMember
  | none => (.done (event rejoining m false), m)
  | some target =>
    let owned := sortPartitions target
    if owned = m.owned then (.done (event rejoining m false), m)
    else
      match resolve answers owned with
      | .error e => (.fatal e, m)
      | .ok assignment =>
        (.done (event rejoining m true), { m with assignment, owned, ackPending := true })

def heartbeatAttempt (answers : GroupAnswers) (m : ConsumerGroupMember) :
    Attempt GroupEvent × ConsumerGroupMember :=
  match answers.coordinator with
  | .error e => (classified (.error e), m)
  | .ok () =>
    match answers.response with
    | .error e => (classified (.error e), m)
    | .ok response =>
      let code := response.errorCode
      if code = .fencedMemberEpoch ∨ code = .unknownMemberId then (.retry (.broker code), m.fenced)
      else if !code.isOk then (classified (.error (.broker code)), m)
      else (m.accepted response).adopt answers (m.memberEpoch = 0) response.assignment

end ConsumerGroupMember

end Member

end Odradek.Client
