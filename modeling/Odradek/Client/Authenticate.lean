import Odradek.Client.Negotiate
import Odradek.Library.Conversation
import Odradek.Protocol.SaslMessages
import Odradek.Sasl.OauthBearer
import Odradek.Sasl.Plain

/-!
SASL authentication right after a connection is made (`sasl.rs`): SaslHandshake
names the mechanism, then each of its messages rides in a SaslAuthenticate
request. The broker is whoever answers: it may say anything, from all it was told
so far.
-/

namespace Odradek.Sasl

open Library

def Mechanism.name : Mechanism → String
  | .plain => "PLAIN"
  | .scramSha256 => "SCRAM-SHA-256"
  | .scramSha512 => "SCRAM-SHA-512"
  | .oauthBearer => "OAUTHBEARER"
  | .awsMskIam => "AWS_MSK_IAM"

/-- Does the mechanism need an encrypted transport? -/
def Mechanism.sendsPassword : Mechanism → Bool
  | .plain | .oauthBearer => true
  | .awsMskIam => false
  | .scramSha256 | .scramSha512 => false

def oauthbearerFailureAck : Bytes := [kvsep]

end Odradek.Sasl

namespace Odradek.Client

open Library Library.Conversation Odradek.Protocol Odradek.Sasl

/-- What `Connection::request` is given. -/
structure SaslRequest where
  apiKey : Int16
  version : Int16
  body : Bytes
  deriving DecidableEq

/-- What comes back for the last request of a connection: a body, or the error
the connection failed with. -/
abbrev Peer := List SaslRequest → Except ClientError Bytes

/-- The texts of `ClientError::Sasl`, before they are printed. -/
inductive SaslFailure
  | mechanismRejected (mechanism : Mechanism) (code : ErrorCode) (offered : List String)
  | refused (code : ErrorCode) (message : Option String)
  | exchange (error : SaslError)
  | notUtf8 (message : String)
  | bearerRejected (reported : Text)
  | unspoken (mechanism : Mechanism)
  deriving DecidableEq

/-- The errors of an authentication: those of any request, and the variants only
it raises. `violation` is a `ProtocolViolation` that prints a `SaslError`. -/
inductive AuthError
  | client (error : ClientError)
  | sasl (failure : SaslFailure)
  | violation (error : SaslError)
  | insecureCredentials (mechanism : Mechanism)
  | panic
  deriving DecidableEq

abbrev Talk := Conversation SaslRequest AuthError

def minScramIterations : Nat := 4096

structure SaslConfig where
  mechanism : Mechanism
  username : Text
  password : Text
  token : Option Text
  extensions : List (Text × Text)
  deriving DecidableEq

structure ClientConfig where
  sasl : Option SaslConfig
  allowPlaintextCredentials : Bool
  scramMaxIterations : Nat
  deriving DecidableEq

def ClientConfig.limits (config : ClientConfig) : Sasl.Limits :=
  { minIterations := minScramIterations, maxIterations := config.scramMaxIterations }

section Errors

variable {α : Type}

def ofClient : Except ClientError α → Except AuthError α
  | .ok a => .ok a
  | .error e => .error (.client e)

/-- The bounds of an iteration count are the peer's to keep, the rest is about
credentials. -/
def scramError : SaslError → AuthError
  | .iterationsTooLow asked floor => .violation (.iterationsTooLow asked floor)
  | .iterationsTooHigh asked ceiling => .violation (.iterationsTooHigh asked ceiling)
  | .nonceNotExtended => .violation .nonceNotExtended
  | other => .sasl (.exchange other)

/-- `map_err(scram_error)`. -/
def ofSasl : Except SaslError α → Except AuthError α
  | .ok a => .ok a
  | .error e => .error (scramError e)

/-- `map_err` to a `Sasl` error, whatever it is. -/
def ofExchange : Except SaslError α → Except AuthError α
  | .ok a => .ok a
  | .error e => .error (.sasl (.exchange e))

def textOf (bytes : Bytes) (message : String) : Except AuthError Text :=
  match Text.fromUtf8 bytes with
  | some text => .ok text
  | none => .error (.sasl (.notUtf8 message))

def decodeBody (request : SaslRequest) (d : Decode α) (body : Bytes) : Except AuthError α :=
  match runDecode .default d body with
  | .ok (message, []) => .ok message
  | .ok (_, left) => .error (.client (.protocolViolation
      (s!"api key {request.apiKey} v{request.version} response leaves " ++
        s!"{left.length} undecoded byte(s)")))
  | .error (.error e) => .error (.client (.decode e))
  | .error .panic => .error .panic

end Errors

section Rounds

variable (peer : Peer) (ranges : ApiVersionRanges)

def ask {α : Type} (request : SaslRequest) (d : Decode α) : Talk α := do
  let body ← say (fun said => ofClient (peer said)) request
  lift (decodeBody request d body)

/-- SaslHandshake at version 1: version 0 predates SaslAuthenticate. -/
def handshakeRequest (mechanism : Mechanism) : Except AuthError SaslRequest := do
  let version ← ofClient (ranges.pick SaslHandshakeRequest.apiKey (1, 1))
  let body ← ofClient (liftEncode (SaslHandshakeRequest.encode { mechanism := mechanism.name }))
  pure { apiKey := SaslHandshakeRequest.apiKey, version, body }

def tokenRequest (token : Bytes) : Except AuthError SaslRequest := do
  let version ← ofClient (ranges.pick SaslAuthenticateRequest.apiKey
    (SaslAuthenticateRequest.minVersion, SaslAuthenticateRequest.maxVersion))
  let body ← ofClient (liftEncode
    (SaslAuthenticateRequest.encode { authBytes := token } version))
  pure { apiKey := SaslAuthenticateRequest.apiKey, version, body }

def handshake (mechanism : Mechanism) : Talk Unit := do
  let request ← lift (handshakeRequest ranges mechanism)
  let response ← ask peer request SaslHandshakeResponse.decode
  let code : ErrorCode := ⟨response.errorCode⟩
  if code.isOk then pure ()
  else fail (.sasl (.mechanismRejected mechanism code response.mechanisms))

def saslRound (token : Bytes) : Talk SaslAuthenticateResponse := do
  let request ← lift (tokenRequest ranges token)
  ask peer request (SaslAuthenticateResponse.decode request.version)

def checkAuth (response : SaslAuthenticateResponse) : Except AuthError Unit :=
  let code : ErrorCode := ⟨response.errorCode⟩
  if code.isOk then .ok () else .error (.sasl (.refused code response.errorMessage))

variable (crates : Crates) (sasl : SaslConfig)

def plain : Talk Unit := do
  let token ← lift (ofSasl (plainToken crates sasl.username sasl.password))
  let response ← saslRound peer ranges token
  lift (checkAuth response)

/-- The nonce is drawn by `ScramClient::new`. -/
def scram (limits : Sasl.Limits) (nonce : Text) : Talk Unit := do
  let client ← lift (ofExchange
    (ScramClient.new crates sasl.mechanism sasl.username sasl.password nonce limits))
  let (client, first) := client.clientFirst
  let response ← saslRound peer ranges (Text.utf8 first)
  lift (checkAuth response)
  let serverFirst ← lift (textOf response.authBytes "server-first message is not utf-8")
  let (client, final) ← lift (ofSasl (client.clientFinal crates serverFirst))
  let response ← saslRound peer ranges (Text.utf8 final)
  lift (checkAuth response)
  let serverFinal ← lift (textOf response.authBytes "server-final message is not utf-8")
  lift (ofSasl (client.verifyServerFinal crates serverFinal))

/-- A rejected token comes back without an error code, with a description of what
was wrong, and is acknowledged before the failure is reported. -/
def bearer : Talk Unit := do
  match sasl.token with
  | none => fail (.client (.config
      "OAUTHBEARER needs a token; build the config with SaslConfig::oauthbearer"))
  | some token => do
    let message ← lift (ofSasl (oauthbearerToken token sasl.extensions))
    let response ← saslRound peer ranges message
    lift (checkAuth response)
    if response.authBytes = [] then pure ()
    else do
      let acknowledged ← attempt (saslRound peer ranges oauthbearerFailureAck)
      match acknowledged with
      | .error .panic => fail .panic
      | _ => fail (.sasl (.bearerRejected (Text.fromUtf8Lossy response.authBytes)))

end Rounds

/-- `authenticate`, over a connection that is `encrypted` or not. -/
def authenticate (peer : Peer) (ranges : ApiVersionRanges) (crates : Crates)
    (config : ClientConfig) (encrypted : Bool) (nonce : Text) : Talk Unit :=
  match config.sasl with
  | none => pure ()
  | some sasl =>
    if sasl.mechanism.sendsPassword && !encrypted && !config.allowPlaintextCredentials then
      fail (.insecureCredentials sasl.mechanism)
    else do
      handshake peer ranges sasl.mechanism
      match sasl.mechanism with
      | .plain => plain peer ranges crates sasl
      | .scramSha256 | .scramSha512 => scram peer ranges crates sasl config.limits nonce
      | .oauthBearer => bearer peer ranges sasl
      | .awsMskIam => fail (.sasl (.unspoken sasl.mechanism))

end Odradek.Client
