import Mathlib.Data.Nat.Digits.Defs
import Odradek.Client.Authentication

/-!
The SASL exchange of the suite's reference broker (`subject.rs`), with the faults
that touch it, and a client of this repository at the other end of the
connection. Framing and headers are the connection's.
-/

namespace Odradek.Acceptance.Subject

open Library Odradek.Protocol Odradek.Sasl Odradek.Client

def unsupportedSaslMechanism : Int16 := 33
def illegalSaslState : Int16 := 34
def saslAuthenticationFailed : Int16 := 58

/-- The faults the two exchanges look at. -/
inductive SaslFault
  | scramNonceReplacesClients
  | scramWeakIterations
  | scramSkipsServerSignature
  | saslHandshakeHidesMechanisms
  | saslAuthenticateWithoutHandshake
  deriving DecidableEq

/-- How far along a connection's exchange is. -/
inductive SaslState
  | unstarted
  | negotiated (mechanism : String)
  | scramPending (server : ScramServer)
  | authenticated
  deriving DecidableEq

def saslMechanisms : List String := ["SCRAM-SHA-256", "PLAIN"]

def scramUser : Text := "conformance".toList
def scramPassword : Text := "conformance".toList
def scramIterations : Nat := 4096
def scramSalt : Bytes := Text.utf8 "odradek-acceptance-salt".toList

def saslErrorText : SaslError → String
  | .unpreparable => "credential cannot be normalized (RFC 4013 saslprep)"
  | .malformed what => s!"malformed SASL message: bad {what}"
  | .outOfSequence => "SASL steps taken out of order"
  | .nonceNotExtended =>
    "server nonce does not extend the client's, so the answer may be a replay"
  | .iterationsTooLow asked floor =>
    s!"server asks for {asked} iterations, below this client's floor of {floor}"
  | .iterationsTooHigh asked ceiling =>
    s!"server asks for {asked} iterations, above this client's ceiling of {ceiling}"
  | .noServerSignature => "server did not sign the exchange"
  | .serverSignatureMismatch => "server signature mismatch: it does not know this password"
  | .badClientProof => "client proof does not verify"
  | .channelBindingMismatch =>
    "channel-binding field does not match the header this exchange began with"
  | .unknownUser => "no such user"
  | .serverRejected error => s!"server rejected the exchange: {String.ofList error}"
  | .notScram => "not a SCRAM mechanism"

section Exchanges

variable (crates : Crates) (faults : List SaslFault)

def offeredIterations : Nat :=
  if faults.contains .scramWeakIterations then 1 else scramIterations

/-- A server for the one account, with the nonce it draws. -/
def scramServer (nonce : Text) : Except SaslError ScramServer := do
  let credential ← ScramCredential.derive crates .scramSha256 scramPassword scramSalt
    (offeredIterations faults) { minIterations := 1, maxIterations := 1000000 }
  ScramServer.new crates scramUser credential nonce

def scramFirst (nonce token : Text) : Except SaslError (ScramServer × Text) := do
  let server ← scramServer crates faults nonce
  server.serverFirst crates token

/-- Our nonce alone: the client's contribution is gone. -/
def replaceNonce (part : Text) : Text :=
  if "r=".toList.isPrefixOf part then "r=odradek-server-nonce".toList else part

def mangleServerFirst (serverFirst : Text) : Text :=
  if faults.contains .scramNonceReplacesClients then
    List.intercalate [','] ((serverFirst.splitOn ',').map replaceNonce)
  else serverFirst

def saslHandshakeExchange (version : Int16) (body : Bytes) (sasl : SaslState) :
    Option Bytes × SaslState :=
  if version < 0 ∨ 1 < version then (none, sasl)
  else
    match runDecode .default SaslHandshakeRequest.decode body with
    | .error _ => (none, sasl)
    | .ok (request, _) =>
      let mechanisms :=
        if faults.contains .saslHandshakeHidesMechanisms then [] else saslMechanisms
      if saslMechanisms.contains request.mechanism then
        ((SaslHandshakeResponse.encode { errorCode := 0, mechanisms }).toOption,
          .negotiated request.mechanism)
      else
        ((SaslHandshakeResponse.encode
          { errorCode := unsupportedSaslMechanism, mechanisms }).toOption, sasl)

def accepting (authBytes : Bytes) : SaslAuthenticateResponse :=
  { errorCode := 0, errorMessage := none, authBytes }

def refusing (errorCode : Int16) (message : String) : SaslAuthenticateResponse :=
  { errorCode, errorMessage := some message, authBytes := [] }

def answerToken (nonce : Text) (authBytes : Bytes) (sasl : SaslState) :
    SaslAuthenticateResponse × SaslState :=
  let token := Text.fromUtf8Lossy authBytes
  match sasl with
  | .unstarted =>
    if faults.contains .saslAuthenticateWithoutHandshake then (accepting [], .authenticated)
    else (refusing illegalSaslState "no mechanism negotiated", sasl)
  | .negotiated mechanism =>
    if mechanism = "SCRAM-SHA-256" then
      match scramFirst crates faults nonce token with
      | .ok (server, serverFirst) =>
        (accepting (Text.utf8 (mangleServerFirst faults serverFirst)), .scramPending server)
      | .error e => (refusing saslAuthenticationFailed (saslErrorText e), sasl)
    else (accepting [], .authenticated)
  | .scramPending server =>
    match server.serverFinal crates token with
    | .ok serverFinal =>
      let authBytes :=
        if faults.contains .scramSkipsServerSignature then [] else Text.utf8 serverFinal
      (accepting authBytes, .authenticated)
    | .error e => (refusing saslAuthenticationFailed (saslErrorText e), sasl)
  | .authenticated => (accepting [], .authenticated)

def saslAuthenticateExchange (nonce : Text) (version : Int16) (body : Bytes) (sasl : SaslState) :
    Option Bytes × SaslState :=
  if version < SaslAuthenticateRequest.minVersion ∨
    SaslAuthenticateRequest.maxVersion < version then
    (none, sasl)
  else
    match runDecode .default (SaslAuthenticateRequest.decode version) body with
    | .error _ => (none, sasl)
    | .ok (request, _) =>
      let (response, sasl) := answerToken crates faults nonce request.authBytes sasl
      ((response.encode version).toOption, sasl)

/-- The exchanges of the cluster. They do not see this state: what they answer to a
request, by its number on the connection, is the cluster's. -/
abbrev ClusterAnswers := Nat → SaslRequest → Option Bytes

/-- The apis of the cluster, as `handle_connection` lists them. -/
def clusterApis : List Int16 :=
  [18, 3, 19, 0, 1, 2, 10, 8, 9, 11, 14, 12, 13, 68, 15, 20, 22, 24, 26, 25, 28]

/-- What `handle_connection` does with a request. -/
def answerRequest (nonce : Text) (cluster : SaslRequest → Option Bytes) (request : SaslRequest)
    (sasl : SaslState) : Option Bytes × SaslState :=
  if request.apiKey = SaslHandshakeRequest.apiKey then
    saslHandshakeExchange faults request.version request.body sasl
  else if request.apiKey = SaslAuthenticateRequest.apiKey then
    saslAuthenticateExchange crates faults nonce request.version request.body sasl
  else if clusterApis.contains request.apiKey then (cluster request, sasl)
  else (none, sasl)

/-- A connection that has taken these requests: its state, or `none` when it was
closed. `nonces` are those its servers draw, by the number of the request. That the
broker may be stopped meanwhile, which closes it too, is not modelled. -/
def connection (nonces : Nat → Text) (cluster : ClusterAnswers) (requests : List SaslRequest) :
    Option SaslState :=
  requests.zipIdx.foldl (fun state (request, i) =>
    state.bind fun sasl =>
      let (answer, sasl) := answerRequest crates faults (nonces i) (cluster i) request sasl
      answer.map fun _ => sasl) (some .unstarted)

def subjectPeer (nonces : Nat → Text) (cluster : ClusterAnswers) : Peer := fun said =>
  match said.getLast?, connection crates faults nonces cluster said.dropLast with
  | some request, some sasl =>
    (answerRequest crates faults (nonces (said.length - 1)) (cluster (said.length - 1))
    request sasl).1.elim
      (.error .connectionClosed) .ok
  | _, _ => .error .connectionClosed

end Exchanges

section Connection

variable {crates : Crates} {faults : List SaslFault} {nonces : Nat → Text}
  {cluster : ClusterAnswers}
  {requests : List SaslRequest} {request : SaslRequest} {sasl after : SaslState}

theorem connection_append (requests : List SaslRequest) (request : SaslRequest) :
    connection crates faults nonces cluster (requests ++ [request]) =
      (connection crates faults nonces cluster requests).bind fun sasl =>
        let (answer, sasl) := answerRequest crates faults (nonces requests.length)
          (cluster requests.length) request sasl
        answer.map fun _ => sasl := by
  unfold connection
  rw [List.zipIdx_append, List.foldl_append, Nat.zero_add]
  rfl

theorem connection_append_eq_some :
    connection crates faults nonces cluster (requests ++ [request]) = some after ↔
      ∃ sasl answer, connection crates faults nonces cluster requests = some sasl ∧
        answerRequest crates faults (nonces requests.length)
          (cluster requests.length) request sasl =
          (some answer, after) := by
  rw [connection_append, Option.bind_eq_some_iff]
  constructor
  · rintro ⟨sasl, hsasl, h⟩
    obtain ⟨answer, hanswer, hafter⟩ := Option.map_eq_some_iff.mp h
    exact ⟨sasl, answer, hsasl, Prod.ext hanswer hafter⟩
  · rintro ⟨sasl, answer, hsasl, h⟩
    exact ⟨sasl, hsasl, by rw [h]; rfl⟩

/-- What the client hears is what the exchange answers. -/
theorem subjectPeer_eq_ok {answer : Bytes}
    (hsasl : connection crates faults nonces cluster requests = some sasl)
    (h : answerRequest crates faults (nonces requests.length) (cluster requests.length) request
      sasl = (some answer, after)) :
    subjectPeer crates faults nonces cluster (requests ++ [request]) = .ok answer ∧
      connection crates faults nonces cluster (requests ++ [request]) = some after := by
  refine ⟨?_, connection_append_eq_some.mpr ⟨sasl, answer, hsasl, h⟩⟩
  unfold subjectPeer
  rw [List.getLast?_concat, List.dropLast_concat, List.length_append, hsasl]
  show (answerRequest crates faults (nonces requests.length) (cluster requests.length) request
    sasl).1.elim _ Except.ok = _
  rw [h]
  rfl

end Connection

section Rounds

variable {crates : Crates} {faults : List SaslFault} {nonces : Nat → Text}
  {cluster : ClusterAnswers} {nonce : Text} {version : Int16} {sasl : SaslState}

theorem toOption_eq_some {ε α : Type} {x : Except ε α} {a : α} :
    x.toOption = some a ↔ x = .ok a := by
  cases x <;> simp [Except.toOption]

theorem runDecode_reads {α : Type} {d : Decode α} {body : Bytes} {a : α} (h : Reads d body a) :
    runDecode .default d body = .ok (a, []) :=
  runDecode_fits h (Nat.zero_le _)

/-- A list of mechanisms, whole or hidden, comes over. -/
theorem mechanisms_read (hidden : Bool) : ∃ answer,
    SaslHandshakeResponse.encode
        { errorCode := 0, mechanisms := if hidden then [] else saslMechanisms } = .ok answer ∧
      runDecode .default SaslHandshakeResponse.decode answer =
        .ok ({ errorCode := 0, mechanisms := if hidden then [] else saslMechanisms }, []) := by
  have hread : ∀ hidden : Bool, (SaslHandshakeResponse.encode
      { errorCode := 0, mechanisms := if hidden then [] else saslMechanisms }).toOption.bind
        (fun answer => (runDecode .default SaslHandshakeResponse.decode answer).toOption) =
      some ({ errorCode := 0, mechanisms := if hidden then [] else saslMechanisms }, []) := by
    decide +kernel
  obtain ⟨answer, hencode, hdecode⟩ := Option.bind_eq_some_iff.mp (hread hidden)
  exact ⟨answer, toOption_eq_some.mp hencode, toOption_eq_some.mp hdecode⟩

theorem saslHandshakeExchange_scram {body : Bytes} (hversion : ¬ (version < 0 ∨ 1 < version))
    (hbody : SaslHandshakeRequest.encode { mechanism := Mechanism.scramSha256.name } = .ok body)
    (sasl : SaslState) :
    ∃ answer mechanisms,
      saslHandshakeExchange faults version body sasl =
        (some answer, .negotiated Mechanism.scramSha256.name) ∧
      runDecode .default SaslHandshakeResponse.decode answer =
        .ok ({ errorCode := 0, mechanisms }, []) := by
  obtain ⟨answer, hencode, hdecode⟩ :=
    mechanisms_read (faults.contains .saslHandshakeHidesMechanisms)
  refine ⟨answer, _, ?_, hdecode⟩
  unfold saslHandshakeExchange
  rw [if_neg hversion, runDecode_reads (SaslHandshakeRequest.decode_reads hbody)]
  show (if saslMechanisms.contains Mechanism.scramSha256.name = true then _ else _) = _
  rw [if_pos (by decide), hencode]
  rfl

theorem saslAuthenticateExchange_token {token body : Bytes}
    (hversion : ¬ (version < SaslAuthenticateRequest.minVersion ∨
      SaslAuthenticateRequest.maxVersion < version))
    (hbody : SaslAuthenticateRequest.encode { authBytes := token } version = .ok body)
    (hshort : Short token) :
    saslAuthenticateExchange crates faults nonce version body sasl =
      (((answerToken crates faults nonce token sasl).1.encode version).toOption,
        (answerToken crates faults nonce token sasl).2) := by
  unfold saslAuthenticateExchange
  rw [if_neg hversion, runDecode_reads (SaslAuthenticateRequest.decode_reads hbody hshort)]

/-- An answer without an error comes over. -/
theorem taken_read {answer : Bytes} (hshort : Short answer) (version : Int16) : ∃ body,
    (accepting answer).encode version = .ok body ∧
      runDecode .default (SaslAuthenticateResponse.decode version) body =
        .ok (accepting answer, []) := by
  obtain ⟨bytes, hbytes⟩ := putFlexBytes_ok (saslFlexible version) hshort
  obtain ⟨message, hmessage⟩ : ∃ message, putFlexNullableString (saslFlexible version) none =
      .ok message := by
    cases saslFlexible version with
    | true => exact ⟨_, rfl⟩
    | false => exact ⟨_, rfl⟩
  obtain ⟨body, hencode⟩ : ∃ body, (accepting answer).encode version = .ok body :=
    ⟨_, except_bind_eq_ok.mpr ⟨message, hmessage, except_bind_eq_ok.mpr ⟨bytes, hbytes, rfl⟩⟩⟩
  exact ⟨body, hencode, runDecode_reads
    (SaslAuthenticateResponse.decode_reads hencode (fun _ h => by cases h) hshort)⟩

end Rounds

section Client

variable {crates : Crates} {faults : List SaslFault} {nonces : Nat → Text}
  {cluster : ClusterAnswers} {ranges : ApiVersionRanges}
  {named : List SaslRequest} {sasl after : SaslState} {version : Int16}

/-- A version is picked from what we speak. -/
theorem pick_within {key : Int16} {ours : Int16 × Int16} (h : ranges.pick key ours = .ok version) :
    ¬ (version < ours.1 ∨ ours.2 < version) := by
  have hle : ∀ {a b : Int16}, ¬ a ≤ b → b ≤ a := fun h => Int16.le_of_lt (Int16.not_le.mp h)
  unfold ApiVersionRanges.pick at h
  cases hrange : ranges.range key with
  | none =>
      rw [hrange] at h
      cases h
  | some theirs =>
      obtain ⟨theirMin, theirMax⟩ := theirs
      simp only [hrange] at h
      by_cases hspoken : (if ours.2 ≤ theirMax then ours.2 else theirMax) ≥
          (if theirMin ≤ ours.1 then ours.1 else theirMin)
      · rw [if_pos hspoken] at h
        obtain rfl := Except.ok.inj h
        have hlow : ours.1 ≤ if theirMin ≤ ours.1 then ours.1 else theirMin := by
          split
          · exact Int16.le_refl _
          · exact hle ‹_›
        have hhigh : (if ours.2 ≤ theirMax then ours.2 else theirMax) ≤ ours.2 := by
          split
          · exact Int16.le_refl _
          · exact hle ‹_›
        rw [not_or, Int16.not_lt, Int16.not_lt]
        exact ⟨Int16.le_trans hlow hspoken, hhigh⟩
      · rw [if_neg hspoken] at h
        cases h

/-- The client and the broker agree on SCRAM-SHA-256. -/
theorem agrees_subject (hpick : ranges.pick SaslHandshakeRequest.apiKey (1, 1) = .ok version) :
    ∃ named, Agreed (subjectPeer crates faults nonces cluster) ranges .scramSha256 named ∧
      named.length = 1 ∧
      connection crates faults nonces cluster named =
        some (.negotiated Mechanism.scramSha256.name) := by
  have hencoded : (SaslHandshakeRequest.encode
      { mechanism := Mechanism.scramSha256.name }).toOption.isSome = true := by decide +kernel
  obtain ⟨body, hsome⟩ := Option.isSome_iff_exists.mp hencoded
  have hbody := toOption_eq_some.mp hsome
  have hversion : ¬ (version < 0 ∨ 1 < version) := by
    have hwithin := not_or.mp (pick_within hpick)
    rintro (h | h)
    · exact hwithin.1 (Int16.lt_trans h (by decide))
    · exact hwithin.2 h
  obtain ⟨answer, mechanisms, hexchange, hdecode⟩ :=
    @saslHandshakeExchange_scram faults version body hversion hbody .unstarted
  have hrequest : handshakeRequest ranges .scramSha256 =
      .ok { apiKey := SaslHandshakeRequest.apiKey, version, body } := by
    unfold handshakeRequest
    rw [hpick, hbody]
    rfl
  have hserved : answerRequest crates faults (nonces ([] : List SaslRequest).length)
      (cluster ([] : List SaslRequest).length)
      { apiKey := SaslHandshakeRequest.apiKey, version, body } .unstarted =
        (some answer, .negotiated Mechanism.scramSha256.name) := by
    unfold answerRequest
    rw [if_pos rfl]
    exact hexchange
  have hunstarted : connection crates faults nonces cluster [] = some .unstarted := rfl
  obtain ⟨hpeer, hconnection⟩ := subjectPeer_eq_ok hunstarted hserved
  exact ⟨_, ⟨_, mechanisms, hrequest, rfl, answer, hpeer, hdecode⟩, rfl, hconnection⟩

/-- The broker takes a token that its state answers without an error. -/
theorem takes_subject {token answer : Bytes}
    (hpick : ranges.pick SaslAuthenticateRequest.apiKey
      (SaslAuthenticateRequest.minVersion, SaslAuthenticateRequest.maxVersion) = .ok version)
    (hsasl : connection crates faults nonces cluster named = some sasl)
    (hanswer : answerToken crates faults (nonces named.length) token sasl =
      (accepting answer, after))
    (htoken : Short token) (hshort : Short answer) :
    ∃ more, Takes (subjectPeer crates faults nonces cluster) ranges named token more
        (accepting answer) ∧
      connection crates faults nonces cluster more = some after := by
  obtain ⟨body, hbody⟩ := SaslAuthenticateRequest.encode_ok htoken version
  obtain ⟨response, hencode, hdecode⟩ := taken_read hshort version
  have hrequest : tokenRequest ranges token =
      .ok { apiKey := SaslAuthenticateRequest.apiKey, version, body } := by
    unfold tokenRequest
    rw [hpick]
    show (ofClient (liftEncode (SaslAuthenticateRequest.encode _ version)) >>= _) = _
    rw [hbody]
    rfl
  have hserved : answerRequest crates faults (nonces named.length) (cluster named.length)
      { apiKey := SaslAuthenticateRequest.apiKey, version, body } sasl =
        (some response, after) := by
    unfold answerRequest
    rw [if_neg (show SaslAuthenticateRequest.apiKey ≠ SaslHandshakeRequest.apiKey
      by decide), if_pos rfl,
      saslAuthenticateExchange_token (pick_within hpick) hbody htoken, hanswer, hencode]
    rfl
  obtain ⟨hpeer, hconnection⟩ := subjectPeer_eq_ok hsasl hserved
  exact ⟨_, ⟨_, hrequest, rfl, ⟨response, hpeer, hdecode⟩, rfl⟩, hconnection⟩

end Client

section Account

variable {crates : Crates} {faults : List SaslFault} {limits : Sasl.Limits}
  {clientNonce serverNonce : Text} {iterations : Nat}

/-- What the base64 engine and SHA-256 are known for. -/
structure Standard (crates : Crates) : Prop where
  length_encode : ∀ raw, (crates.base64.encode raw).length = (raw.length + 2) / 3 * 4
  outputSize_le : crates.sha256.outputSize ≤ 64

/-- A nonce as `fresh_nonce` makes it. -/
def Fresh (crates : Crates) (nonce : Text) : Prop :=
  ∃ raw : Bytes, raw.length = 18 ∧ nonce = crates.base64.encode raw

theorem Fresh.comma (h : Fresh crates clientNonce) : ',' ∉ clientNonce := by
  obtain ⟨raw, _, rfl⟩ := h
  exact crates.base64.comma_not_mem raw

theorem Fresh.length (hstandard : Standard crates) (h : Fresh crates clientNonce) :
    clientNonce.length = 24 := by
  obtain ⟨raw, hraw, rfl⟩ := h
  rw [hstandard.length_encode, hraw]

def accountClient (limits : Sasl.Limits) (nonce : Text) : ScramClient :=
  { mechanism := .scramSha256, username := scramUser, password := scramPassword, nonce, limits
    clientFirstBare := none, pending := none }

def accountKeys (crates : Crates) (iterations : Nat) : Keys :=
  Keys.derive crates.sha256 scramPassword scramSalt iterations

def accountServer (crates : Crates) (iterations : Nat) (nonce : Text) : ScramServer :=
  { username := scramUser
    credential :=
      { mechanism := .scramSha256, salt := scramSalt, iterations
        storedKey := (accountKeys crates iterations).storedKey
        serverKey := (accountKeys crates iterations).serverKey
        len := crates.sha256.outputSize }
    nonce, pending := none }

theorem offeredIterations_bounds (faults : List SaslFault) :
    1 ≤ offeredIterations faults ∧ offeredIterations faults ≤ 4096 := by
  unfold offeredIterations
  split <;> decide

theorem saslprep_account : saslprep crates scramUser = .ok scramUser := if_pos (by decide)

theorem scramServer_eq (crates : Crates) (faults : List SaslFault) (nonce : Text) :
    scramServer crates faults nonce =
      .ok (accountServer crates (offeredIterations faults) nonce) := by
  obtain ⟨hlow, hhigh⟩ := offeredIterations_bounds faults
  have hlimits : Limits.check { minIterations := 1, maxIterations := 1000000 }
      (offeredIterations faults) = .ok () :=
    check_eq_ok.mpr ⟨hlow, Nat.le_trans hhigh (by decide)⟩
  have hpassword : saslprep crates scramPassword = .ok scramPassword := if_pos (by decide)
  unfold scramServer ScramCredential.derive
  rw [hlimits, hpassword]
  show ScramServer.new crates scramUser _ nonce = _
  rw [ScramServer.new, saslprep_account]
  rfl

def accountChallenge (crates : Crates) (iterations : Nat) (clientNonce serverNonce : Text) : Text :=
  (accountServer crates iterations serverNonce).challenge crates clientNonce

def askedServer (crates : Crates) (iterations : Nat) (limits : Sasl.Limits)
    (clientNonce serverNonce : Text) : ScramServer :=
  (accountServer crates iterations serverNonce).asked crates (accountClient limits clientNonce)

theorem scramFirst_account (limits : Sasl.Limits) (hclient : ',' ∉ clientNonce) :
    scramFirst crates faults serverNonce (gs2Header ++ firstBare scramUser clientNonce) =
      .ok (askedServer crates (offeredIterations faults) limits clientNonce serverNonce,
        accountChallenge crates (offeredIterations faults) clientNonce serverNonce) := by
  rw [scramFirst, scramServer_eq]
  exact @serverFirst_clientFirst crates (accountClient limits clientNonce)
    (accountServer crates (offeredIterations faults) serverNonce) hclient saslprep_account

/-- The broker's answer to a first message. -/
theorem answerToken_first (hclient : ',' ∉ clientNonce) :
    answerToken crates faults serverNonce
        (Text.utf8 (gs2Header ++ firstBare scramUser clientNonce))
        (.negotiated Mechanism.scramSha256.name) =
      (accepting (Text.utf8 (mangleServerFirst faults
          (accountChallenge crates (offeredIterations faults) clientNonce serverNonce))),
        .scramPending (askedServer crates (offeredIterations faults) limits clientNonce
          serverNonce)) := by
  unfold answerToken
  simp only [Text.fromUtf8Lossy_utf8, Mechanism.name, if_true,
    scramFirst_account limits hclient]

/-- A challenge whose nonce is shorter than the client's does not extend it. -/
theorem clientFinal_replaced {challenge nonce : Text} (hr : attr challenge 'r' = some nonce)
    (hshort : nonce.length < clientNonce.length) :
    (asking .scramSha256 scramUser scramPassword clientNonce limits).clientFinal crates challenge =
      .error .nonceNotExtended := by
  have hstart : clientNonce.isPrefixOf nonce = false := by
    refine Bool.eq_false_iff.mpr fun h => ?_
    have := (List.isPrefixOf_iff_prefix.mp h).length_le
    omega
  unfold ScramClient.clientFinal
  rw [hr]
  show (if (!clientNonce.isPrefixOf nonce || nonce == clientNonce) = true then _ else _) = _
  rw [hstart]
  rfl

/-- A count out of bounds is refused before any key is derived. -/
theorem clientFinal_refused {challenge nonce saltText text : Text} {salt : Bytes} {e : SaslError}
    (hr : attr challenge 'r' = some nonce) (hstart : clientNonce.isPrefixOf nonce = true)
    (hne : nonce ≠ clientNonce) (hs : attr challenge 's' = some saltText)
    (hsalt : crates.base64.decode saltText = some salt) (hi : attr challenge 'i' = some text)
    (hcount : Text.readNat Sasl.u32Max text = some iterations)
    (hcheck : limits.check iterations = .error e) :
    (asking .scramSha256 scramUser scramPassword clientNonce limits).clientFinal crates challenge =
      .error e := by
  have hextends : (!clientNonce.isPrefixOf nonce || nonce == clientNonce) = false := by
    simp [hstart, hne]
  simp only [ScramClient.clientFinal, asking, hr, hs, hi, okOr, decodeB64, bind, Except.bind,
    hextends, hsalt, hcount, hcheck, Bool.false_eq_true, if_false]

theorem clientFinal_weak (hclient : ',' ∉ clientNonce) (hserver : ',' ∉ serverNonce)
    (hne : serverNonce ≠ []) (hfloor : 1 < limits.minIterations) :
    (asking .scramSha256 scramUser scramPassword clientNonce limits).clientFinal crates
        (accountChallenge crates 1 clientNonce serverNonce) =
      .error (.iterationsTooLow 1 limits.minIterations) := by
  have hnonce : ',' ∉ clientNonce ++ serverNonce := by simp [hclient, hserver]
  obtain ⟨hr, hs, hi⟩ :=
    @attr_challenge (accountServer crates 1 serverNonce) crates clientNonce hnonce
  have hcount : Text.readNat Sasl.u32Max (Nat.toDigits 10 1) = some 1 :=
    Text.readNat_toDigits (by decide)
  exact clientFinal_refused hr (by simp [accountServer]) (by simpa [accountServer] using hne) hs
    (crates.base64.decode_encode _) hi hcount (if_pos hfloor)

theorem short_of_length {text : Text} (h : text.length ≤ 200) : Short (Text.utf8 text) := by
  have hbytes := Text.length_utf8_le text
  unfold Short
  exact Nat.le_trans hbytes (Nat.le_trans (Nat.mul_le_mul_left 4 h) (by decide))

theorem length_field (key : Char) (value : Text) :
    (field key value).length = value.length + 2 := rfl

theorem length_digits (h : iterations ≤ 4096) : (Nat.toDigits 10 iterations).length ≤ 4 :=
  Nat.toDigits_length 10 iterations 4 (by decide) (by omega)

theorem length_first (hstandard : Standard crates) (hfresh : Fresh crates clientNonce) :
    (gs2Header ++ firstBare scramUser clientNonce).length ≤ 200 := by
  have hname : (escape scramUser).length = 11 := by decide
  have hheader : gs2Header.length = 3 := rfl
  simp only [firstBare, List.length_append, List.length_cons, length_field, hname, hheader,
    hfresh.length hstandard]
  decide

theorem length_challenge (hstandard : Standard crates) (hclient : Fresh crates clientNonce)
    (hserver : Fresh crates serverNonce) (hiterations : iterations ≤ 4096) :
    (accountChallenge crates iterations clientNonce serverNonce).length ≤ 200 := by
  have hdigits := length_digits hiterations
  have hsalt : scramSalt.length = 23 := by decide +kernel
  simp only [accountChallenge, ScramServer.challenge, accountServer, List.length_append,
    List.length_cons, length_field, hclient.length hstandard, hserver.length hstandard,
    hstandard.length_encode, hsalt]
  omega

/-- The broker's challenge makes a proof that fits a request. -/
theorem length_final (hstandard : Standard crates) (hclient : Fresh crates clientNonce)
    (hserver : Fresh crates serverNonce)
    (a : Answerable crates limits .scramSha256 scramUser scramPassword clientNonce
      (accountChallenge crates iterations clientNonce serverNonce)) : a.final.length ≤ 200 := by
  have hnonce : ',' ∉ clientNonce ++ serverNonce := by simp [hclient.comma, hserver.comma]
  obtain ⟨hr, _, _⟩ :=
    @attr_challenge (accountServer crates iterations serverNonce) crates clientNonce hnonce
  have hcombined : a.serverNonce = clientNonce ++ serverNonce :=
    Option.some.inj (a.combined.symm.trans hr)
  have hdigest : a.d = crates.sha256 := (Except.ok.inj a.digest).symm
  have hproof : (Sasl.xor a.keys.clientKey (a.d.hmac a.keys.storedKey
      (Text.utf8 a.transcript.authMessage))).length ≤ 64 := by
    rw [Sasl.xor, List.length_zipWith, a.d.length_hmac, hdigest]
    exact Nat.le_trans (Nat.min_le_right _ _) hstandard.outputSize_le
  have hheader : gs2HeaderB64.length = 4 := rfl
  simp only [Answerable.final, Answerable.transcript, clientTranscript, clientProof, hcombined,
    List.length_append, List.length_cons, length_field, hclient.length hstandard,
    hserver.length hstandard, hstandard.length_encode, hheader] at hproof ⊢
  omega

def replacementNonce : Text := "odradek-server-nonce".toList

theorem field_replacementNonce :
    "r=odradek-server-nonce".toList = field 'r' replacementNonce := by decide +kernel

theorem length_replacementNonce : replacementNonce.length = 20 := by decide +kernel

theorem comma_not_mem_replacementNonce : ',' ∉ replacementNonce := by decide +kernel

def replacedChallenge (crates : Crates) (iterations : Nat) : Text :=
  field 'r' replacementNonce ++ ',' :: (field 's' (crates.base64.encode scramSalt) ++ ',' ::
    field 'i' (Nat.toDigits 10 iterations))

theorem length_replaced (hstandard : Standard crates) (hiterations : iterations ≤ 4096) :
    (replacedChallenge crates iterations).length ≤ 200 := by
  have hdigits := length_digits hiterations
  have hsalt : scramSalt.length = 23 := by decide +kernel
  simp only [replacedChallenge, List.length_append, List.length_cons, length_field,
    hstandard.length_encode, hsalt, length_replacementNonce]
  omega

theorem attr_replaced (crates : Crates) (iterations : Nat) :
    attr (replacedChallenge crates iterations) 'r' = some replacementNonce := by
  rw [replacedChallenge, attr_append, attr_field (by decide) comma_not_mem_replacementNonce,
    if_pos rfl, Option.some_or]

/-- The fault leaves a nonce of the broker's own. -/
theorem mangleServerFirst_replaced (hfault : faults.contains .scramNonceReplacesClients = true)
    (hnonce : ',' ∉ clientNonce ++ serverNonce) :
    mangleServerFirst faults (accountChallenge crates iterations clientNonce serverNonce) =
      replacedChallenge crates iterations := by
  have hr : ',' ∉ field 'r' (clientNonce ++ serverNonce) := by
    simpa [field] using hnonce
  have hs : ',' ∉ field 's' (crates.base64.encode scramSalt) := by
    simpa [field] using crates.base64.comma_not_mem scramSalt
  have hi : ',' ∉ field 'i' (Nat.toDigits 10 iterations) := by
    simpa [field] using comma_not_mem_iterations iterations
  have hsplit : (accountChallenge crates iterations clientNonce serverNonce).splitOn ',' =
      [field 'r' (clientNonce ++ serverNonce), field 's' (crates.base64.encode scramSalt),
        field 'i' (Nat.toDigits 10 iterations)] := by
    show (field 'r' (clientNonce ++ serverNonce) ++ ',' ::
      (field 's' (crates.base64.encode scramSalt) ++ ',' ::
        field 'i' (Nat.toDigits 10 iterations)) :
        Text).splitOn ',' = _
    rw [List.splitOn_append_cons_self, List.splitOn_append_cons_self, List.splitOn_eq_singleton hr,
      List.splitOn_eq_singleton hs, List.splitOn_eq_singleton hi]
    rfl
  rw [mangleServerFirst, if_pos hfault, hsplit]
  show List.intercalate [','] ["r=odradek-server-nonce".toList, field 's' _, field 'i' _] = _
  rw [field_replacementNonce]
  simp [List.intercalate, replacedChallenge]

/-- The client's answer to an honest challenge, and the broker's answer to that. -/
theorem exchange_signed (hclient : ',' ∉ clientNonce) (hserver : ',' ∉ serverNonce)
    (hne : serverNonce ≠ []) (hiterations : iterations ≤ Sasl.u32Max)
    (hlimits : limits.check iterations = .ok ()) :
    ∃ (a : Answerable crates limits .scramSha256 scramUser scramPassword clientNonce
        (accountChallenge crates iterations clientNonce serverNonce)) (signed : Text),
      (askedServer crates iterations limits clientNonce serverNonce).serverFinal crates a.final =
        .ok signed ∧
      ((asking .scramSha256 scramUser scramPassword clientNonce limits).awaiting
        { transcript := a.transcript, keys := a.keys }).verifyServerFinal crates
          signed = .ok () := by
  have hrun : Sasl.exchange crates (accountClient limits clientNonce)
      (accountServer crates iterations serverNonce) = .ok () :=
    exchange_ok rfl rfl rfl ⟨rfl, rfl, rfl⟩ saslprep_account hclient hserver hne hiterations hlimits
  have hfirst : (accountServer crates iterations serverNonce).serverFirst crates
      (accountClient limits clientNonce).clientFirst.2 =
        .ok (askedServer crates iterations limits clientNonce serverNonce,
          accountChallenge crates iterations clientNonce serverNonce) :=
    serverFirst_clientFirst hclient saslprep_account
  unfold Sasl.exchange at hrun
  obtain ⟨_, hasked, hrun⟩ := except_bind_eq_ok.mp hrun
  obtain rfl := Except.ok.inj (hfirst.symm.trans hasked)
  obtain ⟨⟨client, final⟩, hfinal, hrun⟩ := except_bind_eq_ok.mp hrun
  obtain ⟨signed, hsigned, hverified⟩ := except_bind_eq_ok.mp hrun
  obtain ⟨a, rfl, rfl⟩ := clientFinal_answered.mp hfinal
  exact ⟨a, signed, hsigned, hverified⟩

end Account

section Verdict

variable {crates : Crates} {faults : List SaslFault} {nonces : Nat → Text}
  {cluster : ClusterAnswers} {ranges : ApiVersionRanges}
  {config : ClientConfig} {sasl : SaslConfig} {encrypted : Bool} {clientNonce : Text}
  {named : List SaslRequest}

/-- What the account's client makes of a broker with these faults. -/
def scramVerdict (faults : List SaslFault) : Except AuthError Unit :=
  if faults.contains .scramNonceReplacesClients then .error (.violation .nonceNotExtended)
  else if faults.contains .scramWeakIterations then
    .error (.violation (.iterationsTooLow 1 minScramIterations))
  else if faults.contains .scramSkipsServerSignature then
    .error (.sasl (.exchange .noServerSignature))
  else .ok ()

structure ForAccount (sasl : SaslConfig) : Prop where
  mechanism : sasl.mechanism = .scramSha256
  username : sasl.username = scramUser
  password : sasl.password = scramPassword

theorem answerToken_final {server : ScramServer} {final signed : Text}
    (h : server.serverFinal crates final = .ok signed) (nonce : Text) :
    answerToken crates faults nonce (Text.utf8 final) (.scramPending server) =
      (accepting (Text.utf8 (if faults.contains .scramSkipsServerSignature then [] else signed)),
        .authenticated) := by
  unfold answerToken
  simp only [Text.fromUtf8Lossy_utf8, h]
  cases faults.contains .scramSkipsServerSignature <;> rfl

theorem length_signed {server : ScramServer} {final signed : Text} (hstandard : Standard crates)
    (hmechanism : server.credential.mechanism = .scramSha256)
    (h : server.serverFinal crates final = .ok signed) : signed.length ≤ 200 := by
  obtain ⟨_, _, _, _, _, d, _, _, _, _, _, _, hdigest, _, rfl⟩ := serverFinal_eq_ok.mp h
  rw [hmechanism] at hdigest
  obtain rfl := Except.ok.inj hdigest
  have hsize := hstandard.outputSize_le
  rw [length_field, serverSignature, hstandard.length_encode, crates.sha256.length_hmac]
  omega

/-- The exchange after the handshake. -/
theorem scram_subject {version : Int16} (hstandard : Standard crates) (haccount : ForAccount sasl)
    (hceiling : minScramIterations ≤ config.scramMaxIterations)
    (hclient : Fresh crates clientNonce) (hserver : ∀ i, Fresh crates (nonces i))
    (hpick : ranges.pick SaslAuthenticateRequest.apiKey
      (SaslAuthenticateRequest.minVersion, SaslAuthenticateRequest.maxVersion) = .ok version)
    (hnamed : connection crates faults nonces cluster named =
      some (.negotiated Mechanism.scramSha256.name)) :
    (scram (subjectPeer crates faults nonces cluster) ranges crates sasl config.limits clientNonce
      named).1 =
      scramVerdict faults := by
  have hserverNonce := hserver named.length
  have hnonce : ',' ∉ clientNonce ++ nonces named.length := by
    simp [hclient.comma, hserverNonce.comma]
  have hne : nonces named.length ≠ [] := List.ne_nil_of_length_pos (by
    rw [hserverNonce.length hstandard]
    decide)
  have hiterations := (offeredIterations_bounds faults).2
  have hname : saslprep crates sasl.username = .ok scramUser := by
    rw [haccount.username]
    exact saslprep_account
  have hsecret : saslprep crates sasl.password = .ok scramPassword := by
    rw [haccount.password]
    exact saslprep_account
  have hfirst := @answerToken_first crates faults config.limits clientNonce (nonces named.length)
    hclient.comma
  have hshortFirst := short_of_length (length_first hstandard hclient)
  unfold scramVerdict
  by_cases hreplaces : faults.contains .scramNonceReplacesClients = true
  · -- the nonce is looked at before anything else
    rw [if_pos hreplaces]
    have hmangled := @mangleServerFirst_replaced crates faults clientNonce (nonces named.length)
      (offeredIterations faults) hreplaces hnonce
    rw [hmangled] at hfirst
    obtain ⟨mid, hasked, _⟩ := takes_subject hpick hnamed hfirst hshortFirst
      (short_of_length (length_replaced hstandard hiterations))
    have hlength : replacementNonce.length < clientNonce.length := by
      rw [hclient.length hstandard, length_replacementNonce]
      decide
    have hrefused := @clientFinal_replaced crates config.limits clientNonce _ _
      (attr_replaced crates (offeredIterations faults)) hlength
    rw [← haccount.mechanism] at hrefused
    rw [scram_refused hname hsecret hasked rfl hrefused]
    rfl
  · rw [if_neg hreplaces]
    have hkept : mangleServerFirst faults (accountChallenge crates (offeredIterations faults)
        clientNonce (nonces named.length)) = accountChallenge crates (offeredIterations faults)
          clientNonce (nonces named.length) := if_neg hreplaces
    rw [hkept] at hfirst
    obtain ⟨mid, hasked, hpending⟩ := takes_subject hpick hnamed hfirst hshortFirst
      (short_of_length (length_challenge hstandard hclient hserverNonce hiterations))
    by_cases hweak : faults.contains .scramWeakIterations = true
    · rw [if_pos hweak]
      have hone : offeredIterations faults = 1 := if_pos hweak
      rw [hone] at hasked
      have hrefused := @clientFinal_weak crates config.limits clientNonce (nonces named.length)
        hclient.comma hserverNonce.comma hne (show 1 < minScramIterations by decide)
      rw [← haccount.mechanism] at hrefused
      rw [scram_refused hname hsecret hasked rfl hrefused]
      rfl
    · rw [if_neg hweak]
      have hoffered : offeredIterations faults = 4096 := if_neg hweak
      have hlimits : config.limits.check (offeredIterations faults) = .ok () := by
        rw [hoffered]
        exact check_eq_ok.mpr ⟨Nat.le_refl _, hceiling⟩
      have hexchange := @exchange_signed crates config.limits clientNonce (nonces named.length)
        (offeredIterations faults) hclient.comma hserverNonce.comma hne
        (Nat.le_trans hiterations (by decide)) hlimits
      have hfinals := @length_final crates config.limits clientNonce (nonces named.length)
        (offeredIterations faults) hstandard hclient hserverNonce
      rw [← haccount.mechanism] at hexchange hfinals
      obtain ⟨a, signed, hsigned, hverified⟩ := hexchange
      have hanswer := @answerToken_final crates faults _ _ _ hsigned (nonces mid.length)
      have hshortFinal := short_of_length (hfinals a)
      have hlength := length_signed hstandard rfl hsigned
      have hshort : Short (Text.utf8
          (if faults.contains .scramSkipsServerSignature then [] else signed)) := by
        refine short_of_length ?_
        cases faults.contains .scramSkipsServerSignature with
        | true => exact Nat.zero_le 200
        | false => exact hlength
      obtain ⟨more, hproved, _⟩ := takes_subject hpick hpending hanswer hshortFinal hshort
      rw [scram_answered hname hsecret hasked rfl a hproved rfl]
      by_cases hskips : faults.contains .scramSkipsServerSignature = true
      · rw [if_pos hskips, if_pos hskips]
        rfl
      · rw [if_neg hskips, if_neg hskips, hverified]
        rfl

/-- Against the reference broker the account's client ends with the verdict, at
every version the two may speak: it notices each fault of the exchange itself, and
no other keeps it from finishing. -/
theorem authenticate_subject {handshakeVersion version : Int16} (hstandard : Standard crates)
    (hsasl : config.sasl = some sasl) (haccount : ForAccount sasl)
    (hceiling : minScramIterations ≤ config.scramMaxIterations)
    (hclient : Fresh crates clientNonce) (hserver : ∀ i, Fresh crates (nonces i))
    (hhandshake : ranges.pick SaslHandshakeRequest.apiKey (1, 1) = .ok handshakeVersion)
    (hpick : ranges.pick SaslAuthenticateRequest.apiKey
      (SaslAuthenticateRequest.minVersion, SaslAuthenticateRequest.maxVersion) = .ok version) :
    (authenticate (subjectPeer crates faults nonces cluster) ranges crates config
    encrypted clientNonce
      []).1 = scramVerdict faults := by
  obtain ⟨named, hagrees, _, hnamed⟩ :=
    @agrees_subject crates faults nonces cluster ranges handshakeVersion hhandshake
  rw [← haccount.mechanism] at hagrees
  have hsecure : Secure config encrypted sasl.mechanism := by
    rw [haccount.mechanism]
    intro h
    cases h
  have hexchange : exchangeOf (subjectPeer crates faults nonces cluster) ranges crates config
      clientNonce sasl =
      scram (subjectPeer crates faults nonces cluster) ranges crates sasl config.limits
        clientNonce := by
    unfold exchangeOf
    rw [haccount.mechanism]
  rw [authenticate_of_agrees hsasl hsecure hagrees, hexchange]
  exact scram_subject hstandard haccount hceiling hclient hserver hpick hnamed

def sampleRanges : ApiVersionRanges :=
  { ranges := [(SaslHandshakeRequest.apiKey, 0, 1), (SaslAuthenticateRequest.apiKey, 0, 2)] }

def sampleSasl : SaslConfig :=
  { mechanism := .scramSha256, username := scramUser, password := scramPassword, token := none
    extensions := [] }

def sampleConfig : ClientConfig :=
  { sasl := some sampleSasl, allowPlaintextCredentials := false, scramMaxIterations := 1000000 }

def sampleNonce (first : UInt8) : Text := Base64.encode (first :: List.replicate 17 0)

/-- A broker without faults, and one that asks for a single iteration. -/
theorem authenticate_subject_sample :
    (authenticate (subjectPeer sampleCrates [] (fun _ => sampleNonce 2) fun _ _ => none)
      sampleRanges sampleCrates sampleConfig false (sampleNonce 1) []).1 = .ok () ∧
    (authenticate (subjectPeer sampleCrates [.scramWeakIterations] (fun _ => sampleNonce 2)
      fun _ _ => none) sampleRanges sampleCrates sampleConfig false (sampleNonce 1) []).1 =
        .error (.violation (.iterationsTooLow 1 4096)) := by
  have hstandard : Standard sampleCrates := ⟨Base64.length_encode, by decide⟩
  have hfresh : ∀ first, Fresh sampleCrates (sampleNonce first) := fun first =>
    ⟨first :: List.replicate 17 0, rfl, rfl⟩
  exact ⟨authenticate_subject hstandard rfl ⟨rfl, rfl, rfl⟩ (by decide) (hfresh 1)
      (fun _ => hfresh 2) rfl rfl,
    authenticate_subject hstandard rfl ⟨rfl, rfl, rfl⟩ (by decide) (hfresh 1)
      (fun _ => hfresh 2) rfl rfl⟩

end Verdict

section Authenticated

variable {crates : Crates} {faults : List SaslFault} {nonces : Nat → Text}
  {cluster : ClusterAnswers}
  {requests : List SaslRequest} {request : SaslRequest} {sasl after : SaslState} {nonce : Text}

/-- The broker reads this token from a request. -/
def Carries (request : SaslRequest) (token : Text) : Prop :=
  request.apiKey = SaslAuthenticateRequest.apiKey ∧
    ∃ read, runDecode .default (SaslAuthenticateRequest.decode request.version) request.body =
      .ok read ∧ Text.fromUtf8Lossy read.1.authBytes = token

def Names (request : SaslRequest) (mechanism : String) : Prop :=
  request.apiKey = SaslHandshakeRequest.apiKey ∧
    ∃ read, runDecode .default SaslHandshakeRequest.decode request.body = .ok read ∧
      read.1.mechanism = mechanism

/-- Where a server in mid-exchange comes from: it drew its nonce for a first
message of this connection. -/
def Challenged (crates : Crates) (faults : List SaslFault) (nonces : Nat → Text)
    (requests : List SaslRequest) (server : ScramServer) : Prop :=
  ∃ before opening rest token challenge, requests = before ++ opening :: rest ∧
    Carries opening token ∧
    scramFirst crates faults (nonces before.length) token = .ok (server, challenge)

inductive Earned (crates : Crates) (faults : List SaslFault) (nonces : Nat → Text)
    (requests : List SaslRequest) : Prop
  | plain (request : SaslRequest) (sent : request ∈ requests) (named : Names request "PLAIN")
  | proof (before rest : List SaslRequest) (request : SaslRequest) (token signed : Text)
      (server : ScramServer) (sent : requests = before ++ request :: rest)
      (challenged : Challenged crates faults nonces before server)
      (carried : Carries request token) (verified : server.serverFinal crates token = .ok signed)

/-- What a state says about the requests so far. -/
def Accounts (crates : Crates) (faults : List SaslFault) (nonces : Nat → Text)
    (requests : List SaslRequest) : SaslState → Prop
  | .unstarted => True
  | .negotiated mechanism => mechanism ∈ saslMechanisms ∧ ∃ request ∈ requests,
    Names request mechanism
  | .scramPending server => Challenged crates faults nonces requests server
  | .authenticated => Earned crates faults nonces requests

theorem Challenged.more {server : ScramServer} (h : Challenged crates faults nonces requests server)
    (request : SaslRequest) : Challenged crates faults nonces (requests ++ [request]) server := by
  obtain ⟨before, opening, rest, token, challenge, rfl, hcarries, hfirst⟩ := h
  exact ⟨before, opening, rest ++ [request], token, challenge, by simp, hcarries, hfirst⟩

theorem Accounts.more (h : Accounts crates faults nonces requests sasl) (request : SaslRequest) :
    Accounts crates faults nonces (requests ++ [request]) sasl := by
  cases sasl with
  | unstarted => trivial
  | negotiated mechanism =>
      obtain ⟨hmechanism, named, hmem, hnames⟩ := h
      exact ⟨hmechanism, named, List.mem_append_left _ hmem, hnames⟩
  | scramPending server => exact Challenged.more h request
  | authenticated =>
      cases h with
      | plain named hmem hnames => exact .plain named (List.mem_append_left _ hmem) hnames
      | proof before rest proving token signed server hsent hchallenged hcarries hverified =>
          exact .proof before (rest ++ [request]) proving token signed server (by simp [hsent])
            hchallenged hcarries hverified

/-- A handshake that is answered names a mechanism we offer, or changes nothing. -/
theorem saslHandshakeExchange_cases {version : Int16} {body answer : Bytes}
    (h : saslHandshakeExchange faults version body sasl = (some answer, after)) :
    after = sasl ∨ ∃ read, runDecode .default SaslHandshakeRequest.decode body = .ok read ∧
      read.1.mechanism ∈ saslMechanisms ∧ after = .negotiated read.1.mechanism := by
  unfold saslHandshakeExchange at h
  split at h
  · cases h
  · cases hread : runDecode .default SaslHandshakeRequest.decode body with
    | error e =>
        rw [hread] at h
        cases h
    | ok read =>
        rw [hread] at h
        by_cases hoffered : saslMechanisms.contains read.1.mechanism = true
        · simp only [if_pos hoffered] at h
          exact .inr ⟨read, rfl, List.contains_iff_mem.mp hoffered, (Prod.mk.inj h).2.symm⟩
        · simp only [if_neg hoffered] at h
          exact .inl (Prod.mk.inj h).2.symm

theorem saslAuthenticateExchange_cases {version : Int16} {body answer : Bytes}
    (h : saslAuthenticateExchange crates faults nonce version body sasl = (some answer, after)) :
    ∃ read, runDecode .default (SaslAuthenticateRequest.decode version) body = .ok read ∧
      after = (answerToken crates faults nonce read.1.authBytes sasl).2 := by
  unfold saslAuthenticateExchange at h
  split at h
  · cases h
  · cases hread : runDecode .default (SaslAuthenticateRequest.decode version) body with
    | error e =>
        rw [hread] at h
        cases h
    | ok read =>
        rw [hread] at h
        exact ⟨read, rfl, (Prod.mk.inj h).2.symm⟩

/-- A token keeps the account: it is refused, opens an exchange, or is checked. -/
theorem answerToken_accounts (hfault : faults.contains .saslAuthenticateWithoutHandshake = false)
    {authBytes : Bytes} (hcarries : Carries request (Text.fromUtf8Lossy authBytes))
    (h : Accounts crates faults nonces requests sasl) :
    Accounts crates faults nonces (requests ++ [request])
      (answerToken crates faults (nonces requests.length) authBytes sasl).2 := by
  cases sasl with
  | unstarted =>
      simp only [answerToken, hfault, Bool.false_eq_true, if_false]
      trivial
  | negotiated mechanism =>
      by_cases hscram : mechanism = "SCRAM-SHA-256"
      · simp only [answerToken, if_pos hscram]
        cases hfirst : scramFirst crates faults (nonces requests.length)
            (Text.fromUtf8Lossy authBytes) with
        | ok opened => exact ⟨requests, request, [], _, opened.2, rfl, hcarries, hfirst⟩
        | error e => exact h.more request
      · simp only [answerToken, if_neg hscram]
        obtain ⟨hmechanism, named, hmem, hnames⟩ := h
        have hplain : mechanism = "PLAIN" := by
          simpa [saslMechanisms, hscram] using hmechanism
        exact .plain named (List.mem_append_left _ hmem) (hplain ▸ hnames)
  | scramPending server =>
      cases hfinal : server.serverFinal crates (Text.fromUtf8Lossy authBytes) with
      | ok signed =>
          simp only [answerToken, hfinal]
          exact .proof requests [] request _ signed server rfl h hcarries hfinal
      | error e =>
          simp only [answerToken, hfinal]
          exact h.more request
  | authenticated => exact h.more request

/-- The state after a request is accounted for by the requests up to it. -/
theorem answerRequest_accounts (hfault : faults.contains .saslAuthenticateWithoutHandshake = false)
    {answer : Bytes} (h : Accounts crates faults nonces requests sasl)
    (hrun : answerRequest crates faults (nonces requests.length) (cluster requests.length) request
      sasl = (some answer, after)) :
    Accounts crates faults nonces (requests ++ [request]) after := by
  unfold answerRequest at hrun
  by_cases hhandshake : request.apiKey = SaslHandshakeRequest.apiKey
  · rw [if_pos hhandshake] at hrun
    rcases saslHandshakeExchange_cases hrun with rfl | ⟨read, hread, hoffered, rfl⟩
    · exact h.more request
    · exact ⟨hoffered, request, List.mem_append_right _ List.mem_cons_self, hhandshake, read, hread,
        rfl⟩
  · rw [if_neg hhandshake] at hrun
    by_cases hauthenticate : request.apiKey = SaslAuthenticateRequest.apiKey
    · rw [if_pos hauthenticate] at hrun
      obtain ⟨read, hread, rfl⟩ := saslAuthenticateExchange_cases hrun
      exact answerToken_accounts hfault ⟨hauthenticate, read, hread, rfl⟩ h
    · rw [if_neg hauthenticate] at hrun
      split at hrun
      · obtain rfl := (Prod.mk.inj hrun).2
        exact h.more request
      · cases hrun

theorem connection_accounts (hfault : faults.contains .saslAuthenticateWithoutHandshake = false)
    (h : connection crates faults nonces cluster requests = some after) :
    Accounts crates faults nonces requests after := by
  induction requests using List.reverseRecOn generalizing after with
  | nil =>
      cases h
      trivial
  | append_singleton requests request ih =>
      obtain ⟨sasl, answer, hsasl, hrun⟩ := connection_append_eq_some.mp h
      exact answerRequest_accounts hfault (ih hsasl) hrun

/-- Whatever a peer sends on a connection, and in whatever order, the broker takes
it for authenticated only after it named PLAIN, or sent a proof that checks against
the challenge this connection was given. -/
theorem connection_authenticated
    (hfault : faults.contains .saslAuthenticateWithoutHandshake = false)
    (h : connection crates faults nonces cluster requests = some .authenticated) :
    Earned crates faults nonces requests :=
  connection_accounts hfault h

def plainRequests : List SaslRequest :=
  [{ apiKey := 3, version := 1, body := [255, 255, 255, 255] },
    { apiKey := SaslHandshakeRequest.apiKey, version := 1, body := [0, 5, 80, 76, 65, 73, 78] },
    { apiKey := SaslAuthenticateRequest.apiKey, version := 0, body := [0, 0, 0, 0] }]

theorem connection_authenticated_plain :
    connection sampleCrates [.scramWeakIterations] (fun _ => [])
      (fun _ _ => some []) plainRequests =
        some .authenticated ∧
      Earned sampleCrates [.scramWeakIterations] (fun _ => []) plainRequests := by
  have hrun : connection sampleCrates [.scramWeakIterations] (fun _ => []) (fun _ _ => some [])
      plainRequests = some .authenticated := by decide +kernel
  exact ⟨hrun, connection_authenticated rfl hrun⟩

end Authenticated

end Odradek.Acceptance.Subject
