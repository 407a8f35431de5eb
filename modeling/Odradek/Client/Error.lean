import Odradek.Protocol.Error

/-!
The client's errors (`error.rs`), as far as a producer or a consumer raises or
inspects them. An `io::Error` carries nothing that is looked at, nor does the last dial
error in a `Bootstrap`.
-/

namespace Odradek.Client

open Odradek.Protocol

structure ErrorCode where
  code : Int16
  deriving DecidableEq

namespace ErrorCode

def unknownTopicOrPartition : ErrorCode := ⟨3⟩
def leaderNotAvailable : ErrorCode := ⟨5⟩
def notLeaderOrFollower : ErrorCode := ⟨6⟩
def requestTimedOut : ErrorCode := ⟨7⟩
def coordinatorLoadInProgress : ErrorCode := ⟨14⟩
def coordinatorNotAvailable : ErrorCode := ⟨15⟩
def notCoordinator : ErrorCode := ⟨16⟩
def illegalGeneration : ErrorCode := ⟨22⟩
def unknownMemberId : ErrorCode := ⟨25⟩
def rebalanceInProgress : ErrorCode := ⟨27⟩
def unsupportedVersion : ErrorCode := ⟨35⟩
def notController : ErrorCode := ⟨41⟩
def invalidProducerEpoch : ErrorCode := ⟨47⟩
def invalidTxnState : ErrorCode := ⟨48⟩
def concurrentTransactions : ErrorCode := ⟨51⟩
def transactionalIdAuthorizationFailed : ErrorCode := ⟨53⟩
def kafkaStorageError : ErrorCode := ⟨56⟩
def memberIdRequired : ErrorCode := ⟨79⟩
def producerFenced : ErrorCode := ⟨90⟩
def unknownTopicId : ErrorCode := ⟨100⟩
def fencedMemberEpoch : ErrorCode := ⟨110⟩

def isOk (code : ErrorCode) : Bool := code.code == 0

end ErrorCode

inductive ClientError
  | io
  | encode (error : EncodeError)
  | decode (error : DecodeError)
  | unsupportedApi (key : Int16)
  | noCommonVersion (key : Int16)
  | connectionClosed
  | timeout (what : String)
  | protocolViolation (message : String)
  | broker (code : ErrorCode)
  | unknownLeader (topic : String) (partition : Int32)
  | bootstrap
  | unsupportedCompression (codec : String)
  | config (message : String)
  | transaction (message : String)
  deriving DecidableEq

def ClientError.isRetriable : ClientError → Bool
  | .connectionClosed => true
  | .io => true
  | .timeout _ => true
  | .broker code =>
    code == .notLeaderOrFollower || code == .leaderNotAvailable ||
      code == .unknownTopicOrPartition || code == .unknownTopicId ||
      code == .coordinatorLoadInProgress || code == .coordinatorNotAvailable ||
      code == .notCoordinator || code == .notController || code == .requestTimedOut ||
      code == .kafkaStorageError || code == .concurrentTransactions
  | _ => false

def liftEncode {α : Type} : Except EncodeError α → Except ClientError α
  | .ok value => .ok value
  | .error e => .error (.encode e)

end Odradek.Client
