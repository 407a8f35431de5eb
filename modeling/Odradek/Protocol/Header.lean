import Odradek.Protocol.Wire

/-!
Request and response headers, which version of them a message takes
(`header.rs`), and the frame around both (`frame.rs`).
-/

namespace Odradek.Protocol

/-- `messages::request_is_flexible`, the generated match. -/
def requestIsFlexible (apiKey apiVersion : Int16) : Option Bool :=
  match apiKey.toInt with
  | 25 => some (apiVersion ≥ 3)
  | 24 => some (apiVersion ≥ 3)
  | 18 => some (apiVersion ≥ 3)
  | 68 => some true
  | 19 => some (apiVersion ≥ 5)
  | 20 => some (apiVersion ≥ 4)
  | 32 => some (apiVersion ≥ 4)
  | 15 => some (apiVersion ≥ 5)
  | 26 => some (apiVersion ≥ 3)
  | 1 => some (apiVersion ≥ 12)
  | 10 => some (apiVersion ≥ 3)
  | 12 => some (apiVersion ≥ 4)
  | 22 => some (apiVersion ≥ 2)
  | 11 => some (apiVersion ≥ 6)
  | 13 => some (apiVersion ≥ 4)
  | 16 => some (apiVersion ≥ 3)
  | 2 => some (apiVersion ≥ 6)
  | 3 => some (apiVersion ≥ 9)
  | 8 => some (apiVersion ≥ 8)
  | 9 => some (apiVersion ≥ 6)
  | 0 => some (apiVersion ≥ 9)
  | 36 => some (apiVersion ≥ 2)
  | 17 => some false
  | 14 => some (apiVersion ≥ 4)
  | 28 => some (apiVersion ≥ 3)
  | _ => none

def apiVersionsKey : Int16 := 18

def requestHeaderVersion (apiKey apiVersion : Int16) : Option Int16 :=
  (requestIsFlexible apiKey apiVersion).map fun flexible => if flexible then 2 else 1

def responseHeaderVersion (apiKey apiVersion : Int16) : Option Int16 :=
  if apiKey = apiVersionsKey then some 0
  else (requestIsFlexible apiKey apiVersion).map fun flexible => if flexible then 1 else 0

structure RequestHeader where
  requestApiKey : Int16
  requestApiVersion : Int16
  correlationId : Int32
  clientId : Option String
  unknownTaggedFields : List RawTaggedField
  deriving DecidableEq

namespace RequestHeader

def isFlexible (version : Int16) : Bool := version ≥ 2

def encode (header : RequestHeader) (version : Int16) : Except EncodeError Bytes := do
  let clientId ← putNullableString header.clientId
  pure (putI16 header.requestApiKey ++ putI16 header.requestApiVersion ++
    putI32 header.correlationId ++ clientId ++
    if isFlexible version then putTaggedFields header.unknownTaggedFields else [])

def decode (version : Int16) : Decode RequestHeader := do
  let requestApiKey ← getI16
  let requestApiVersion ← getI16
  let correlationId ← getI32
  let clientId ← getNullableString
  let unknownTaggedFields ← (if isFlexible version then getTaggedFields else pure [])
  pure { requestApiKey, requestApiVersion, correlationId, clientId, unknownTaggedFields }

end RequestHeader

structure ResponseHeader where
  correlationId : Int32
  unknownTaggedFields : List RawTaggedField
  deriving DecidableEq

namespace ResponseHeader

def isFlexible (version : Int16) : Bool := version ≥ 1

def decode (version : Int16) : Decode ResponseHeader := do
  let correlationId ← getI32
  if isFlexible version then
    let unknownTaggedFields ← getTaggedFields
    pure { correlationId, unknownTaggedFields }
  else pure { correlationId, unknownTaggedFields := [] }

end ResponseHeader

/-- `frame`, into a buffer of its own: the length of a payload before it. -/
def frame (payload : Except EncodeError Bytes) : Except EncodeError Bytes := do
  let payload ← payload
  if i32Max < payload.length then .error (.tooLong payload.length i32Max)
  else pure (putI32 (Int32.ofNat payload.length) ++ payload)

theorem length_frame {payload : Except EncodeError Bytes} {f : Bytes} (h : frame payload = .ok f) :
    4 ≤ f.length := by
  cases payload with
  | error e => cases h
  | ok payload =>
      have hframe : (if i32Max < payload.length then .error (.tooLong payload.length i32Max)
          else .ok (putI32 (Int32.ofNat payload.length) ++ payload) : Except EncodeError Bytes)
            = .ok f := h
      split at hframe
      next => cases hframe
      next =>
          cases hframe
          rw [List.length_append, putI32, Library.length_toBigEndian]
          exact Nat.le_add_right _ _

def peekCorrelationId (payload : Bytes) : Except DecodeError Int32 :=
  if payload.length < 4 then .error (.truncated (4 - payload.length))
  else .ok (Int32.ofBitVec (BitVec.ofNat 32 (Library.ofBigEndian (payload.take 4))))

end Odradek.Protocol
