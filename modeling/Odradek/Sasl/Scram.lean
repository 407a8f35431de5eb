import Odradek.Library.Text
import Odradek.Protocol.Error

/-!
Both roles of a SCRAM exchange (`scram.rs`, with `prep.rs` and the limits of
`lib.rs`). The digests, PBKDF2, the Unicode tables and the base64 engine are
parameters; a nonce is whatever its side was given.
-/

namespace Odradek.Sasl

open Library

/-- The digest a mechanism names, with the HMAC and PBKDF2 built on it. -/
structure Digest where
  outputSize : Nat
  digest : Bytes → Bytes
  hmac : Bytes → Bytes → Bytes
  pbkdf2 : (password salt : Bytes) → (iterations : Nat) → Bytes
  length_digest : ∀ message, (digest message).length = outputSize
  length_hmac : ∀ key message, (hmac key message).length = outputSize

/-- `STANDARD` of the base64 crate. -/
structure Base64Engine where
  encode : Bytes → Text
  decode : Text → Option Bytes
  decode_encode : ∀ raw, decode (encode raw) = some raw
  comma_not_mem : ∀ raw, ',' ∉ encode raw
  encode_header : encode (Text.utf8 "n,,".toList) = "biws".toList

structure Crates where
  sha256 : Digest
  sha512 : Digest
  base64 : Base64Engine
  stringprep : Text → Option Text

inductive Mechanism
  | plain
  | scramSha256
  | scramSha512
  | oauthBearer
  | awsMskIam
  deriving DecidableEq

inductive SaslError
  | unpreparable
  | malformed (what : String)
  | outOfSequence
  | nonceNotExtended
  | iterationsTooLow (asked floor : Nat)
  | iterationsTooHigh (asked ceiling : Nat)
  | noServerSignature
  | serverSignatureMismatch
  | badClientProof
  | channelBindingMismatch
  | unknownUser
  | serverRejected (error : Text)
  | notScram
  deriving DecidableEq

structure Limits where
  minIterations : Nat
  maxIterations : Nat
  deriving DecidableEq

def Limits.check (limits : Limits) (iterations : Nat) : Except SaslError Unit :=
  if iterations < limits.minIterations then
    .error (.iterationsTooLow iterations limits.minIterations)
  else if limits.maxIterations < iterations then
    .error (.iterationsTooHigh iterations limits.maxIterations)
  else .ok ()

def u32Max : Nat := 2 ^ 32 - 1

def okOr {α : Type} (value : Option α) (error : SaslError) : Except SaslError α :=
  match value with
  | some a => .ok a
  | none => .error error

def gs2Header : Text := "n,,".toList

def gs2HeaderB64 : Text := "biws".toList

def field (key : Char) (value : Text) : Text := key :: '=' :: value

def attrPart (key : Char) : Text → Option Text
  | found :: '=' :: rest => if found = key then some rest else none
  | _ => none

def attr (message : Text) (key : Char) : Option Text :=
  (message.splitOn ',').findSome? (attrPart key)

/-- The client's escapes: `=` first, then the comma. -/
def escape (username : Text) : Text :=
  (username.flatMap fun c => if c = '=' then "=3D".toList else [c]).flatMap fun c =>
    if c = ',' then "=2C".toList else [c]

def unescape (name : Text) : Text :=
  Text.replace "=3D".toList ['='] (Text.replace "=2C".toList [','] name)

def xor (a b : Bytes) : Bytes := List.zipWith (· ^^^ ·) a b

/-- `Keys`, each cut to the digest's width. -/
structure Keys where
  clientKey : Bytes
  storedKey : Bytes
  serverKey : Bytes
  len : Nat
  deriving DecidableEq

def Keys.derive (d : Digest) (password : Text) (salt : Bytes) (iterations : Nat) : Keys :=
  let salted := d.pbkdf2 (Text.utf8 password) salt iterations
  let clientKey := d.hmac salted (Text.utf8 "Client Key".toList)
  { clientKey
    storedKey := d.digest clientKey
    serverKey := d.hmac salted (Text.utf8 "Server Key".toList)
    len := d.outputSize }

section Roles

variable (crates : Crates)

def saslprep (value : Text) : Except SaslError Text :=
  if value.all fun c => 0x20 ≤ c.toNat ∧ c.toNat ≤ 0x7e then .ok value
  else okOr (crates.stringprep value) .unpreparable

def withDigest : Mechanism → Except SaslError Digest
  | .scramSha256 => .ok crates.sha256
  | .scramSha512 => .ok crates.sha512
  | .plain | .oauthBearer | .awsMskIam => .error .notScram

def serverSignature (d : Digest) (serverKey : Bytes) (authMessage : Text) : Text :=
  crates.base64.encode (d.hmac serverKey (Text.utf8 authMessage))

def clientProof (d : Digest) (keys : Keys) (authMessage : Text) : Text :=
  crates.base64.encode (xor keys.clientKey (d.hmac keys.storedKey (Text.utf8 authMessage)))

def decodeB64 (value : Text) : Except SaslError Bytes :=
  okOr (crates.base64.decode value) (.malformed "base64")

/-- What the client and the server each take for the first three messages. -/
structure Transcript where
  clientFirstBare : Text
  serverFirst : Text
  withoutProof : Text
  deriving DecidableEq

def Transcript.authMessage (t : Transcript) : Text :=
  t.clientFirstBare ++ ',' :: (t.serverFirst ++ ',' :: t.withoutProof)

structure ScramCredential where
  mechanism : Mechanism
  salt : Bytes
  iterations : Nat
  storedKey : Bytes
  serverKey : Bytes
  len : Nat
  deriving DecidableEq

namespace ScramCredential

def derive (mechanism : Mechanism) (password : Text) (salt : Bytes) (iterations : Nat)
    (limits : Limits) : Except SaslError ScramCredential := do
  limits.check iterations
  let password ← saslprep crates password
  let d ← withDigest crates mechanism
  let keys := Keys.derive d password salt iterations
  pure { mechanism, salt, iterations, storedKey := keys.storedKey, serverKey := keys.serverKey,
         len := keys.len }

def keys (credential : ScramCredential) : Bytes × Bytes :=
  (credential.storedKey.take credential.len, credential.serverKey.take credential.len)

def fromStored (mechanism : Mechanism) (salt : Bytes) (iterations : Nat)
    (storedKey serverKey : Bytes) : Except SaslError ScramCredential := do
  let d ← withDigest crates mechanism
  if storedKey.length ≠ d.outputSize ∨ serverKey.length ≠ d.outputSize then
    .error (.malformed "stored key width")
  else pure { mechanism, salt, iterations, storedKey, serverKey, len := d.outputSize }

end ScramCredential

/-- `Pending` of the client; the transcript is what its `auth_message` joins. -/
structure Pending where
  transcript : Transcript
  keys : Keys
  deriving DecidableEq

structure ScramClient where
  mechanism : Mechanism
  username : Text
  password : Text
  nonce : Text
  limits : Limits
  clientFirstBare : Option Text
  pending : Option Pending
  deriving DecidableEq

namespace ScramClient

def new (mechanism : Mechanism) (username password nonce : Text) (limits : Limits) :
    Except SaslError ScramClient := do
  let username ← saslprep crates username
  let password ← saslprep crates password
  pure { mechanism, username, password, nonce, limits, clientFirstBare := none, pending := none }

def bare (client : ScramClient) : Text :=
  field 'n' (escape client.username) ++ ',' :: field 'r' client.nonce

def clientFirst (client : ScramClient) : ScramClient × Text :=
  ({ client with clientFirstBare := some client.bare }, gs2Header ++ client.bare)

def clientFinal (client : ScramClient) (serverFirst : Text) :
    Except SaslError (ScramClient × Text) := do
  let clientFirstBare ← okOr client.clientFirstBare .outOfSequence
  let serverNonce ← okOr (attr serverFirst 'r') (.malformed "nonce")
  if !client.nonce.isPrefixOf serverNonce || serverNonce == client.nonce then
    .error .nonceNotExtended
  else
    let salt ← okOr (attr serverFirst 's') (.malformed "salt")
    let salt ← decodeB64 crates salt
    let iterations ← okOr (attr serverFirst 'i') (.malformed "iterations")
    let iterations ← okOr (Text.readNat u32Max iterations) (.malformed "iterations")
    client.limits.check iterations
    let withoutProof := field 'c' gs2HeaderB64 ++ ',' :: field 'r' serverNonce
    let transcript := { clientFirstBare, serverFirst, withoutProof : Transcript }
    let d ← withDigest crates client.mechanism
    let keys := Keys.derive d client.password salt iterations
    let proof := clientProof crates d keys transcript.authMessage
    pure ({ client with pending := some { transcript, keys } },
      withoutProof ++ ',' :: field 'p' proof)

def verifyServerFinal (client : ScramClient) (serverFinal : Text) : Except SaslError Unit := do
  let pending ← okOr client.pending .outOfSequence
  match attr serverFinal 'e' with
  | some error => .error (.serverRejected error)
  | none =>
    let signature ← okOr (attr serverFinal 'v') .noServerSignature
    let d ← withDigest crates client.mechanism
    if serverSignature crates d pending.keys.serverKey pending.transcript.authMessage = signature
    then .ok ()
    else .error .serverSignatureMismatch

end ScramClient

structure ServerPending where
  clientFirstBare : Text
  serverFirst : Text
  expectedBinding : Text
  deriving DecidableEq

structure ScramServer where
  username : Text
  credential : ScramCredential
  nonce : Text
  pending : Option ServerPending
  deriving DecidableEq

/-- Up to the second comma, and after it. -/
def splitHeader (clientFirst : Text) : Option (Text × Text) := do
  let (flag, rest) ← Text.splitOnce ',' clientFirst
  let (authzid, bare) ← Text.splitOnce ',' rest
  some (flag ++ ',' :: (authzid ++ [',']), bare)

namespace ScramServer

def new (username : Text) (credential : ScramCredential) (nonce : Text) :
    Except SaslError ScramServer := do
  let username ← saslprep crates username
  pure { username, credential, nonce, pending := none }

/-- `server-first` for a nonce the client sent. -/
def challenge (server : ScramServer) (clientNonce : Text) : Text :=
  field 'r' (clientNonce ++ server.nonce) ++ ',' ::
    (field 's' (crates.base64.encode server.credential.salt) ++ ',' ::
      field 'i' (Nat.toDigits 10 server.credential.iterations))

/-- The name a client claims, its escapes undone. -/
def claimedName (bare : Text) : Option Text := (attr bare 'n').map unescape

def serverFirst (server : ScramServer) (clientFirst : Text) :
    Except SaslError (ScramServer × Text) := do
  let (header, bare) ← okOr (splitHeader clientFirst) (.malformed "gs2 header")
  let expectedBinding := crates.base64.encode (Text.utf8 header)
  let clientNonce ← okOr (attr bare 'r') (.malformed "nonce")
  let user ← okOr (claimedName bare) (.malformed "username")
  let user ← saslprep crates user
  if user ≠ server.username then .error .unknownUser
  else
    let serverFirst := server.challenge crates clientNonce
    pure ({ server with pending := some { clientFirstBare := bare, serverFirst, expectedBinding } },
      serverFirst)

def transcript (pending : ServerPending) (withoutProof : Text) : Transcript :=
  { clientFirstBare := pending.clientFirstBare, serverFirst := pending.serverFirst, withoutProof }

def serverFinal (server : ScramServer) (clientFinal : Text) : Except SaslError Text := do
  let pending ← okOr server.pending .outOfSequence
  let binding ← okOr (attr clientFinal 'c') (.malformed "channel binding")
  if binding ≠ pending.expectedBinding then .error .channelBindingMismatch
  else
    let proof ← okOr (attr clientFinal 'p') (.malformed "proof")
    let (withoutProof, _) ← okOr (Text.rsplitOnce ",p=".toList clientFinal) (.malformed "proof")
    let authMessage := (transcript pending withoutProof).authMessage
    let proof ← decodeB64 crates proof
    let credential := server.credential
    if proof.length ≠ credential.len then .error .badClientProof
    else
      let d ← withDigest crates credential.mechanism
      let signature := d.hmac credential.storedKey (Text.utf8 authMessage)
      if d.digest (xor proof signature) ≠ credential.storedKey then .error .badClientProof
      else pure (field 'v' (serverSignature crates d credential.serverKey authMessage))

end ScramServer

end Roles

end Odradek.Sasl
