import Odradek.Protocol.ConsumerProtocol
import Odradek.Protocol.WireSafety

/-!
The messages of an authentication: SaslHandshake, versions 0 and 1, never
flexible, and SaslAuthenticate, versions 0 to 2 (`sasl_handshake_*.rs`,
`sasl_authenticate_*.rs`).
-/

namespace Odradek.Protocol

open Library Library.Decoder

structure SaslHandshakeRequest where
  mechanism : String
  deriving DecidableEq

def SaslHandshakeRequest.apiKey : Int16 := 17

def SaslHandshakeRequest.encode (request : SaslHandshakeRequest) : Except EncodeError Bytes :=
  putString request.mechanism

def SaslHandshakeRequest.decode : Decode SaslHandshakeRequest := do
  let mechanism ← getString
  pure { mechanism }

structure SaslHandshakeResponse where
  errorCode : Int16
  mechanisms : List String
  deriving DecidableEq

def SaslHandshakeResponse.encode (response : SaslHandshakeResponse) : Except EncodeError Bytes := do
  let mechanisms ← putArray putString response.mechanisms
  pure (putI16 response.errorCode ++ mechanisms)

def SaslHandshakeResponse.decode : Decode SaslHandshakeResponse := do
  let errorCode ← getI16
  let mechanisms ← getArray stringSize getString
  pure { errorCode, mechanisms }

def saslFlexible (version : Int16) : Bool := version ≥ 2

section Bytes

variable (flexible : Bool)

def putFlexBytes (value : Bytes) : Except EncodeError Bytes :=
  if flexible then .ok (putCompactBytes value) else putBytes value

def getFlexBytes : Decode Bytes := do
  let raw ← (if flexible then getCompactNullableBytes else getNullableBytes)
  notNull raw

def putFlexNullableString (value : Option String) : Except EncodeError Bytes :=
  if flexible then .ok (putCompactNullableString value) else putNullableString value

def getFlexNullableString : Decode (Option String) :=
  if flexible then getCompactNullableString else getNullableString

end Bytes

structure SaslAuthenticateRequest where
  authBytes : Bytes
  unknownTaggedFields : List RawTaggedField := []
  deriving DecidableEq

def SaslAuthenticateRequest.apiKey : Int16 := 36

def SaslAuthenticateRequest.minVersion : Int16 := 0

def SaslAuthenticateRequest.maxVersion : Int16 := 2

def SaslAuthenticateRequest.encode (request : SaslAuthenticateRequest) (version : Int16) :
    Except EncodeError Bytes := do
  let authBytes ← putFlexBytes (saslFlexible version) request.authBytes
  pure (authBytes ++
    if saslFlexible version then putTaggedFields request.unknownTaggedFields else [])

def SaslAuthenticateRequest.decode (version : Int16) : Decode SaslAuthenticateRequest := do
  let authBytes ← getFlexBytes (saslFlexible version)
  let unknownTaggedFields ← (if saslFlexible version then getTaggedFields else pure [])
  pure { authBytes, unknownTaggedFields }

structure SaslAuthenticateResponse where
  errorCode : Int16
  errorMessage : Option String
  authBytes : Bytes
  sessionLifetimeMs : Int64 := 0
  unknownTaggedFields : List RawTaggedField := []
  deriving DecidableEq

def SaslAuthenticateResponse.encode (response : SaslAuthenticateResponse) (version : Int16) :
    Except EncodeError Bytes := do
  let errorMessage ← putFlexNullableString (saslFlexible version) response.errorMessage
  let authBytes ← putFlexBytes (saslFlexible version) response.authBytes
  pure (putI16 response.errorCode ++ (errorMessage ++ (authBytes ++
    ((if version ≥ 1 then putI64 response.sessionLifetimeMs else []) ++
      if saslFlexible version then putTaggedFields response.unknownTaggedFields else []))))

def SaslAuthenticateResponse.decode (version : Int16) : Decode SaslAuthenticateResponse := do
  let errorCode ← getI16
  let errorMessage ← getFlexNullableString (saslFlexible version)
  let authBytes ← getFlexBytes (saslFlexible version)
  let sessionLifetimeMs ← (if version ≥ 1 then getI64 else pure 0)
  let unknownTaggedFields ← (if saslFlexible version then getTaggedFields else pure [])
  pure { errorCode, errorMessage, authBytes, sessionLifetimeMs, unknownTaggedFields }

section Safety

variable {α : Type} {n : Nat}

theorem getString_safe : Safe getString :=
  Frugal.bind getNullableString_safe notNull_safe

theorem getFlexBytes_safe (flexible : Bool) : Safe (getFlexBytes flexible) :=
  Frugal.bind (safe_ite getCompactNullableBytes_safe getNullableBytes_safe) notNull_safe

theorem getFlexNullableString_safe (flexible : Bool) : Safe (getFlexNullableString flexible) :=
  safe_ite getCompactNullableString_safe getNullableString_safe

theorem SaslHandshakeResponse.decode_breaksEven : BreaksEvenTo n SaslHandshakeResponse.decode :=
  ThriftyTo.bind getI16_safe.upTo.thrifty fun _ =>
    ThriftyTo.bind (ThriftyTo.bind getArrayLen_safe.upTo.thrifty fun len =>
      ThriftyTo.bind (notNull_safe len).upTo.thrifty fun count =>
        ThriftyTo.bind (getItems_breaksEven stringSize count getString_safe.upTo
          getString_rewrites.consumes (Vec.new stringSize)) fun _ => (Frugal.pure _).upTo.thrifty)
      fun _ => (Frugal.pure _).upTo.thrifty

theorem SaslAuthenticateResponse.decode_breaksEven (version : Int16) :
    BreaksEvenTo n (SaslAuthenticateResponse.decode version) := by
  have hsafe : Safe (SaslAuthenticateResponse.decode version) :=
    Frugal.bind getI16_safe fun _ => Frugal.bind (getFlexNullableString_safe _) fun _ =>
      Frugal.bind (getFlexBytes_safe _) fun _ =>
        Frugal.bind (safe_ite (Frugal.bind (getFixed_safe 8) fun _ => .pure _) (.pure _)) fun _ =>
          Frugal.bind (safe_ite getTaggedFields_safe (.pure _)) fun _ => .pure _
  exact hsafe.upTo.thrifty

/-- A decoder that breaks even on every input panics on none. -/
theorem runDecode_ne_panic {d : Decode α} (h : ∀ n, BreaksEvenTo n d) (limits : Limits)
    (bytes : Bytes) : runDecode limits d bytes ≠ .error .panic := by
  intro hpanic
  have hrun := h bytes.length ⟨bytes, { budget := limits.budget bytes.length, decoded := 0 }⟩
    (Nat.le_refl _)
  unfold runDecode at hpanic
  cases hresult : d ⟨bytes, { budget := limits.budget bytes.length, decoded := 0 }⟩ with
  | ok a t =>
      rw [hresult] at hpanic
      cases hpanic
  | error e t =>
      rw [hresult] at hrun hpanic
      cases hpanic
      exact hrun.1 rfl

end Safety

section RoundTrip

variable {bytes : Bytes} {flexible : Bool}

/-- What still fits after a message's other fields. -/
def Short (value : Bytes) : Prop := value.length ≤ i32Max

theorem putFlexBytes_ok (flexible : Bool) {value : Bytes} (h : Short value) :
    ∃ bytes, putFlexBytes flexible value = .ok bytes := by
  cases flexible with
  | true => exact ⟨_, rfl⟩
  | false => exact ⟨_, if_neg (Nat.not_lt.mpr h)⟩

theorem getFlexBytes_reads {value : Bytes} (h : putFlexBytes flexible value = .ok bytes)
    (hshort : Short value) : Reads (getFlexBytes flexible) bytes value := by
  cases flexible with
  | true =>
      cases h
      have hread : Reads getCompactNullableBytes (putCompactNullableBytes (some value))
          (some value) :=
        getCompactNullableBytes_reads fun v hv => by
          cases hv
          exact Nat.lt_of_le_of_lt hshort (by decide)
      exact notNull_reads hread
  | false => exact notNull_reads (getNullableBytes_reads h)

theorem getFlexNullableString_reads {value : Option String}
    (h : putFlexNullableString flexible value = .ok bytes)
    (hshort : ∀ v, value = some v → Short (utf8 v)) :
    Reads (getFlexNullableString flexible) bytes value := by
  cases flexible with
  | true =>
      cases h
      exact getCompactNullableString_reads fun v hv =>
        Nat.lt_of_le_of_lt (hshort v hv) (by decide)
  | false => exact getNullableString_reads h

/-- The section of a message that keeps no tagged fields. -/
theorem getNoTaggedFields_reads (flexible : Bool) :
    Reads (if flexible then getTaggedFields else pure [])
      (if flexible then putTaggedFields [] else []) [] := by
  cases flexible with
  | true => exact getTaggedFields_decodes (by decide) trivial
  | false => exact .pure

theorem SaslAuthenticateRequest.encode_ok {token : Bytes} (h : Short token) (version : Int16) :
    ∃ bytes, SaslAuthenticateRequest.encode { authBytes := token } version = .ok bytes := by
  obtain ⟨bytes, hbytes⟩ := putFlexBytes_ok (saslFlexible version) h
  exact ⟨_, except_bind_eq_ok.mpr ⟨bytes, hbytes, rfl⟩⟩

theorem SaslAuthenticateRequest.decode_reads {token : Bytes} {version : Int16}
    (h : SaslAuthenticateRequest.encode { authBytes := token } version = .ok bytes)
    (hshort : Short token) :
    Reads (SaslAuthenticateRequest.decode version) bytes { authBytes := token } := by
  obtain ⟨front, hfront, h⟩ := except_bind_eq_ok.mp h
  cases h
  exact (getFlexBytes_reads hfront hshort).bind_free
    ((getNoTaggedFields_reads (saslFlexible version)).bind_pure
      fun fields => ({ authBytes := token, unknownTaggedFields := fields } :
        SaslAuthenticateRequest))

theorem SaslHandshakeRequest.decode_reads {request : SaslHandshakeRequest}
    (h : request.encode = .ok bytes) : Reads SaslHandshakeRequest.decode bytes request :=
  (getString_reads h).bind_pure SaslHandshakeRequest.mk

theorem sessionLifetime_reads (version : Int16) :
    Reads (if version ≥ 1 then getI64 else pure 0) (if version ≥ 1 then putI64 0 else []) 0 := by
  by_cases h : version ≥ 1
  · rw [if_pos h, if_pos h]
    exact getI64_reads 0
  · rw [if_neg h, if_neg h]
    exact .pure

theorem SaslAuthenticateResponse.decode_reads {code : Int16} {message : Option String}
    {token : Bytes} {version : Int16}
    (h : SaslAuthenticateResponse.encode
      { errorCode := code, errorMessage := message, authBytes := token } version = .ok bytes)
    (hmessage : ∀ v, message = some v → Short (utf8 v)) (htoken : Short token) :
    Reads (SaslAuthenticateResponse.decode version) bytes
      { errorCode := code, errorMessage := message, authBytes := token } := by
  obtain ⟨messageBytes, hmessageBytes, h⟩ := except_bind_eq_ok.mp h
  obtain ⟨tokenBytes, htokenBytes, h⟩ := except_bind_eq_ok.mp h
  cases h
  exact (getI16_reads code).bind_free
    ((getFlexNullableString_reads hmessageBytes hmessage).bind_free
      ((getFlexBytes_reads htokenBytes htoken).bind_free
        ((sessionLifetime_reads version).bind_free
          ((getNoTaggedFields_reads (saslFlexible version)).bind_pure fun fields =>
            ({ errorCode := code, errorMessage := message, authBytes := token
               unknownTaggedFields := fields } : SaslAuthenticateResponse)))))

end RoundTrip

end Odradek.Protocol
