import Odradek.Client.Authenticate
import Odradek.Sasl.ScramExchange

/-!
An authentication with any peer. What the client says is bounded by what the peer
has taken so far: nothing on a connection that does not protect a password, the
mechanism's name first, a proof only for a challenge it may answer. It returns
exactly when the mechanism's last message was taken, for SCRAM with the signature
only who knows the password's keys can make.
-/

namespace Odradek.Client

open Library Library.Conversation Odradek.Protocol Odradek.Sasl

section Rounds

variable {α : Type} {peer : Peer} {ranges : ApiVersionRanges} {said more : List SaslRequest}

/-- What the peer answers to the last request decodes to this, with nothing left. -/
def Hears (peer : Peer) (said : List SaslRequest) (d : Decode α) (a : α) : Prop :=
  ∃ body, peer said = .ok body ∧ runDecode .default d body = .ok (a, [])

def Agreed (peer : Peer) (ranges : ApiVersionRanges) (mechanism : Mechanism)
    (said : List SaslRequest) : Prop :=
  ∃ request mechanisms, handshakeRequest ranges mechanism = .ok request ∧ said = [request] ∧
    Hears peer said SaslHandshakeResponse.decode { errorCode := 0, mechanisms }

/-- The peer takes a token, and says so. -/
def Takes (peer : Peer) (ranges : ApiVersionRanges) (said : List SaslRequest) (token : Bytes)
    (more : List SaslRequest) (response : SaslAuthenticateResponse) : Prop :=
  ∃ request, tokenRequest ranges token = .ok request ∧ more = said ++ [request] ∧
    Hears peer more (SaslAuthenticateResponse.decode request.version) response ∧
    response.errorCode = 0

theorem decodeBody_eq_ok {request : SaslRequest} {d : Decode α} {body : Bytes} {a : α} :
    decodeBody request d body = .ok a ↔ runDecode .default d body = .ok (a, []) := by
  unfold decodeBody
  cases runDecode .default d body with
  | ok read =>
      obtain ⟨message, left⟩ := read
      cases left with
      | nil => simp
      | cons b left => simp
  | error e => cases e <;> simp

theorem decodeBody_ne_panic {request : SaslRequest} {d : Decode α} {body : Bytes}
    (h : runDecode .default d body ≠ .error .panic) :
    decodeBody request d body ≠ .error .panic := by
  unfold decodeBody
  cases hrun : runDecode .default d body with
  | ok read =>
      obtain ⟨message, left⟩ := read
      cases left <;> simp
  | error e =>
      cases e with
      | error e => simp
      | panic => exact absurd hrun h

theorem ofClient_eq_ok {x : Except ClientError α} {a : α} : ofClient x = .ok a ↔ x = .ok a := by
  cases x <;> simp [ofClient]

theorem ofSasl_eq_ok {x : Except SaslError α} {a : α} : ofSasl x = .ok a ↔ x = .ok a := by
  cases x <;> simp [ofSasl]

theorem ofExchange_eq_ok {x : Except SaslError α} {a : α} : ofExchange x = .ok a ↔ x = .ok a := by
  cases x <;> simp [ofExchange]

theorem textOf_eq_ok {bytes : Bytes} {message : String} {text : Text} :
    textOf bytes message = .ok text ↔ bytes = Text.utf8 text := by
  unfold textOf
  constructor
  · intro h
    cases hread : Text.fromUtf8 bytes with
    | none =>
        rw [hread] at h
        cases h
    | some found =>
        rw [hread] at h
        cases h
        exact (Text.utf8_of_fromUtf8 hread).symm
  · rintro rfl
    rw [Text.fromUtf8_utf8]

theorem isOk_iff {code : Int16} : (ErrorCode.mk code).isOk = true ↔ code = 0 := beq_iff_eq

theorem checkAuth_eq_ok {response : SaslAuthenticateResponse} :
    checkAuth response = .ok () ↔ response.errorCode = 0 := by
  rw [checkAuth, ← isOk_iff]
  cases (ErrorCode.mk response.errorCode).isOk <;> simp

theorem ask_eq_ok {request : SaslRequest} {d : Decode α} {a : α} :
    ask peer request d said = (.ok a, more) ↔
      more = said ++ [request] ∧ Hears peer more d a := by
  rw [ask, bind_eq_ok]
  constructor
  · rintro ⟨body, mid, hbody, h⟩
    obtain ⟨hdecode, rfl⟩ := lift_eq_ok.mp h
    obtain ⟨hpeer, rfl⟩ := Prod.mk.inj hbody
    exact ⟨rfl, body, ofClient_eq_ok.mp hpeer, decodeBody_eq_ok.mp hdecode⟩
  · rintro ⟨rfl, body, hpeer, hdecode⟩
    exact ⟨body, _, congrArg (·, _) (ofClient_eq_ok.mpr hpeer),
      lift_eq_ok.mpr ⟨decodeBody_eq_ok.mpr hdecode, rfl⟩⟩

theorem saslRound_eq_ok {token : Bytes} {response : SaslAuthenticateResponse} :
    saslRound peer ranges token said = (.ok response, more) ↔
      ∃ request, tokenRequest ranges token = .ok request ∧ more = said ++ [request] ∧
        Hears peer more (SaslAuthenticateResponse.decode request.version) response := by
  rw [saslRound, lift_bind_eq_ok]
  constructor
  · rintro ⟨request, hrequest, h⟩
    exact ⟨request, hrequest, ask_eq_ok.mp h⟩
  · rintro ⟨request, hrequest, h⟩
    exact ⟨request, hrequest, ask_eq_ok.mpr h⟩

/-- A round and the check of its code, as every mechanism makes them. -/
theorem checkedRound_eq_ok {token : Bytes} {f : SaslAuthenticateResponse → Talk α} {a : α} :
    (do let response ← saslRound peer ranges token
        lift (checkAuth response)
        f response : Talk α) said = (.ok a, more) ↔
      ∃ response mid, Takes peer ranges said token mid response ∧
        f response mid = (.ok a, more) := by
  rw [bind_eq_ok]
  constructor
  · rintro ⟨response, mid, hround, h⟩
    obtain ⟨request, hrequest, hmid, hhears⟩ := saslRound_eq_ok.mp hround
    obtain ⟨_, hcode, hrest⟩ := lift_bind_eq_ok.mp h
    exact ⟨response, mid, ⟨request, hrequest, hmid, hhears, checkAuth_eq_ok.mp hcode⟩, hrest⟩
  · rintro ⟨response, mid, ⟨request, hrequest, hmid, hhears, hcode⟩, hrest⟩
    exact ⟨response, mid, saslRound_eq_ok.mpr ⟨request, hrequest, hmid, hhears⟩,
      lift_bind_eq_ok.mpr ⟨(), checkAuth_eq_ok.mpr hcode, hrest⟩⟩

theorem checkedRound_of_takes {token : Bytes} {f : SaslAuthenticateResponse → Talk α}
    {response : SaslAuthenticateResponse} (h : Takes peer ranges said token more response) :
    (do let response ← saslRound peer ranges token
        lift (checkAuth response)
        f response : Talk α) said = f response more := by
  obtain ⟨request, hrequest, hmore, hhears, hcode⟩ := h
  rw [bind_of_ok (saslRound_eq_ok.mpr ⟨request, hrequest, hmore, hhears⟩)]
  exact lift_bind_of_ok (checkAuth_eq_ok.mpr hcode)

theorem lastRound_eq_ok {token : Bytes} :
    (do let response ← saslRound peer ranges token
        lift (checkAuth response) : Talk Unit) said = (.ok (), more) ↔
      ∃ response, Takes peer ranges said token more response := by
  rw [bind_eq_ok]
  constructor
  · rintro ⟨response, mid, hround, h⟩
    obtain ⟨hcode, rfl⟩ := lift_eq_ok.mp h
    obtain ⟨request, hrequest, hmid, hhears⟩ := saslRound_eq_ok.mp hround
    exact ⟨response, request, hrequest, hmid, hhears, checkAuth_eq_ok.mp hcode⟩
  · rintro ⟨response, request, hrequest, hmore, hhears, hcode⟩
    exact ⟨response, more, saslRound_eq_ok.mpr ⟨request, hrequest, hmore, hhears⟩,
      lift_eq_ok.mpr ⟨checkAuth_eq_ok.mpr hcode, rfl⟩⟩

/-- The handshake comes through exactly when the peer takes the mechanism's name. -/
theorem handshake_eq_ok {mechanism : Mechanism} :
    handshake peer ranges mechanism [] = (.ok (), more) ↔ Agreed peer ranges mechanism more := by
  rw [handshake, lift_bind_eq_ok]
  constructor
  · rintro ⟨request, hrequest, h⟩
    obtain ⟨response, mid, hask, h⟩ := bind_eq_ok.mp h
    obtain ⟨hmid, hhears⟩ := ask_eq_ok.mp hask
    by_cases hcode : (ErrorCode.mk response.errorCode).isOk = true
    · rw [if_pos hcode] at h
      cases h
      obtain ⟨code, mechanisms⟩ := response
      obtain rfl : code = 0 := isOk_iff.mp hcode
      exact ⟨request, mechanisms, hrequest, hmid, hhears⟩
    · rw [if_neg hcode] at h
      cases h
  · rintro ⟨request, mechanisms, hrequest, hmore, hhears⟩
    exact ⟨request, hrequest, bind_eq_ok.mpr ⟨_, more, ask_eq_ok.mpr ⟨hmore, hhears⟩, rfl⟩⟩

end Rounds

section Exchange

variable {crates : Crates} {limits : Sasl.Limits} {mechanism : Mechanism}
  {name secret nonce challenge : Text}

/-- The text of a `client-first` after its header. -/
def firstBare (name nonce : Text) : Text := field 'n' (escape name) ++ ',' :: field 'r' nonce

structure Answerable (crates : Crates) (limits : Sasl.Limits) (mechanism : Mechanism)
    (name secret nonce challenge : Text) where
  d : Digest
  serverNonce : Text
  saltText : Text
  salt : Bytes
  iterationsText : Text
  iterations : Nat
  digest : withDigest crates mechanism = .ok d
  combined : attr challenge 'r' = some serverNonce
  extended : nonce.isPrefixOf serverNonce = true ∧ serverNonce ≠ nonce
  salted : attr challenge 's' = some saltText ∧ crates.base64.decode saltText = some salt
  counted : attr challenge 'i' = some iterationsText ∧
    Text.readNat Sasl.u32Max iterationsText = some iterations
  bounded : limits.minIterations ≤ iterations ∧ iterations ≤ limits.maxIterations

namespace Answerable

variable (a : Answerable crates limits mechanism name secret nonce challenge)

def keys : Keys := Keys.derive a.d secret a.salt a.iterations

def transcript : Transcript := clientTranscript (firstBare name nonce) challenge a.serverNonce

def final : Text :=
  a.transcript.withoutProof ++ ',' ::
    field 'p' (clientProof crates a.d a.keys a.transcript.authMessage)

/-- What only a server with the same keys is expected to say. -/
def signature : Text := serverSignature crates a.d a.keys.serverKey a.transcript.authMessage

end Answerable

theorem check_eq_ok {iterations : Nat} : limits.check iterations = .ok () ↔
    limits.minIterations ≤ iterations ∧ iterations ≤ limits.maxIterations := by
  unfold Limits.check
  split
  · simp only [reduceCtorEq, false_iff]
    omega
  · split
    · simp only [reduceCtorEq, false_iff]
      omega
    · simp only [true_iff]
      omega

def asking (mechanism : Mechanism) (name secret nonce : Text) (limits : Sasl.Limits) :
    ScramClient :=
  { mechanism, username := name, password := secret, nonce, limits
    clientFirstBare := some (firstBare name nonce), pending := none }

theorem clientFinal_answered {client : ScramClient} {final : Text} :
    (asking mechanism name secret nonce limits).clientFinal crates challenge =
        .ok (client, final) ↔
      ∃ a : Answerable crates limits mechanism name secret nonce challenge,
        client = (asking mechanism name secret nonce limits).awaiting
          { transcript := a.transcript, keys := a.keys } ∧ final = a.final := by
  rw [clientFinal_eq_ok]
  constructor
  · rintro ⟨_, serverNonce, saltText, salt, text, iterations, d, ⟨⟩, hnonce,
      hextends, hne, hsaltText,
      hsalt, htext, hiterations, hlimits, hdigest, hclient, hfinal⟩
    exact ⟨{ d, serverNonce, saltText, salt, iterationsText := text, iterations, digest := hdigest
             combined := hnonce, extended := ⟨hextends, hne⟩, salted := ⟨hsaltText, hsalt⟩
             counted := ⟨htext, hiterations⟩, bounded := check_eq_ok.mp hlimits }, hclient, hfinal⟩
  · rintro ⟨a, hclient, hfinal⟩
    exact ⟨_, a.serverNonce, a.saltText, a.salt, a.iterationsText, a.iterations, a.d,
      rfl, a.combined,
      a.extended.1, a.extended.2, a.salted.1, a.salted.2, a.counted.1, a.counted.2,
      check_eq_ok.mpr a.bounded, a.digest, hclient, hfinal⟩

theorem verifyServerFinal_answered {signed : Text}
    (a : Answerable crates limits mechanism name secret nonce challenge) :
    ((asking mechanism name secret nonce limits).awaiting
        { transcript := a.transcript, keys := a.keys }).verifyServerFinal crates signed = .ok () ↔
      attr signed 'e' = none ∧ attr signed 'v' = some a.signature := by
  rw [verifyServerFinal_eq_ok]
  constructor
  · rintro ⟨_, d, ⟨⟩, herror, hdigest, hsignature⟩
    obtain rfl : a.d = d := Except.ok.inj (a.digest.symm.trans hdigest)
    exact ⟨herror, hsignature⟩
  · rintro ⟨herror, hsignature⟩
    exact ⟨_, a.d, rfl, herror, a.digest, hsignature⟩

theorem new_eq_ok {username password : Text} {client : ScramClient} :
    ScramClient.new crates mechanism username password nonce limits = .ok client ↔
      ∃ name secret, saslprep crates username = .ok name ∧ saslprep crates password = .ok secret ∧
        client = { mechanism, username := name, password := secret, nonce, limits
                   clientFirstBare := none, pending := none } := by
  unfold ScramClient.new
  simp only [except_bind_eq_ok]
  constructor
  · rintro ⟨name, hname, secret, hsecret, h⟩
    cases h
    exact ⟨name, secret, hname, hsecret, rfl⟩
  · rintro ⟨name, secret, hname, hsecret, rfl⟩
    exact ⟨name, hname, secret, hsecret, rfl⟩

end Exchange

section Success

variable {peer : Peer} {ranges : ApiVersionRanges} {crates : Crates} {sasl : SaslConfig}
  {limits : Sasl.Limits} {nonce : Text} {said more : List SaslRequest}

theorem plain_eq_ok : plain peer ranges crates sasl said = (.ok (), more) ↔
    ∃ token response, plainToken crates sasl.username sasl.password = .ok token ∧
      Takes peer ranges said token more response := by
  rw [plain, lift_bind_eq_ok]
  constructor
  · rintro ⟨token, htoken, h⟩
    obtain ⟨response, htakes⟩ := lastRound_eq_ok.mp h
    exact ⟨token, response, ofSasl_eq_ok.mp htoken, htakes⟩
  · rintro ⟨token, response, htoken, htakes⟩
    exact ⟨token, ofSasl_eq_ok.mpr htoken, lastRound_eq_ok.mpr ⟨response, htakes⟩⟩

/-- A bearer token is accepted with an empty answer. -/
theorem bearer_eq_ok : bearer peer ranges sasl said = (.ok (), more) ↔
    ∃ token message response, sasl.token = some token ∧
      oauthbearerToken token sasl.extensions = .ok message ∧
      Takes peer ranges said message more response ∧ response.authBytes = [] := by
  unfold bearer
  cases htoken : sasl.token with
  | none =>
      constructor
      · intro h
        cases h
      · rintro ⟨_, _, _, h, _⟩
        cases h
  | some token =>
      rw [lift_bind_eq_ok]
      constructor
      · rintro ⟨message, hmessage, h⟩
        obtain ⟨response, mid, htakes, h⟩ := checkedRound_eq_ok.mp h
        by_cases hempty : response.authBytes = []
        · rw [if_pos hempty] at h
          cases h
          exact ⟨token, message, response, rfl, ofSasl_eq_ok.mp hmessage, htakes, hempty⟩
        · rw [if_neg hempty] at h
          obtain ⟨acknowledged, _, _, h⟩ := bind_eq_ok.mp h
          cases acknowledged with
          | ok response => cases h
          | error e => cases e <;> cases h
      · rintro ⟨_, message, response, ⟨⟩, hmessage, htakes, hempty⟩
        exact ⟨message, ofSasl_eq_ok.mpr hmessage,
          checkedRound_eq_ok.mpr ⟨response, more, htakes, congrFun (if_pos hempty) more⟩⟩

/-- SCRAM returns when both its messages were taken and the second was answered
with the signature of the whole exchange. -/
theorem scram_eq_ok : scram peer ranges crates sasl limits nonce said = (.ok (), more) ↔
    ∃ name secret first challenge mid last signed,
      saslprep crates sasl.username = .ok name ∧ saslprep crates sasl.password = .ok secret ∧
      Takes peer ranges said (Text.utf8 (gs2Header ++ firstBare name nonce)) mid first ∧
      first.authBytes = Text.utf8 challenge ∧
      ∃ a : Answerable crates limits sasl.mechanism name secret nonce challenge,
        Takes peer ranges mid (Text.utf8 a.final) more last ∧
        last.authBytes = Text.utf8 signed ∧ attr signed 'e' = none ∧
        attr signed 'v' = some a.signature := by
  rw [scram, lift_bind_eq_ok]
  constructor
  · rintro ⟨client, hnew, h⟩
    obtain ⟨name, secret, hname, hsecret, rfl⟩ := new_eq_ok.mp (ofExchange_eq_ok.mp hnew)
    obtain ⟨first, mid, htakesFirst, h⟩ := checkedRound_eq_ok.mp h
    obtain ⟨challenge, hchallenge, h⟩ := lift_bind_eq_ok.mp h
    obtain ⟨⟨client, final⟩, hfinal, h⟩ := lift_bind_eq_ok.mp h
    obtain ⟨a, rfl, rfl⟩ := clientFinal_answered.mp (ofSasl_eq_ok.mp hfinal)
    obtain ⟨last, mid', htakesLast, h⟩ := checkedRound_eq_ok.mp h
    obtain ⟨signed, hsigned, h⟩ := lift_bind_eq_ok.mp h
    obtain ⟨hverified, rfl⟩ := lift_eq_ok.mp h
    obtain ⟨herror, hsignature⟩ := (verifyServerFinal_answered a).mp (ofSasl_eq_ok.mp hverified)
    exact ⟨name, secret, first, challenge, mid, last, signed, hname, hsecret, htakesFirst,
      textOf_eq_ok.mp hchallenge, a, htakesLast, textOf_eq_ok.mp hsigned, herror, hsignature⟩
  · rintro ⟨name, secret, first, challenge, mid, last, signed, hname, hsecret, htakesFirst,
      hchallenge, a, htakesLast, hsigned, herror, hsignature⟩
    refine ⟨_, ofExchange_eq_ok.mpr (new_eq_ok.mpr ⟨name, secret, hname, hsecret, rfl⟩), ?_⟩
    refine checkedRound_eq_ok.mpr ⟨first, mid, htakesFirst, ?_⟩
    refine lift_bind_eq_ok.mpr ⟨challenge, textOf_eq_ok.mpr hchallenge, ?_⟩
    refine lift_bind_eq_ok.mpr ⟨_, ofSasl_eq_ok.mpr (clientFinal_answered.mpr ⟨a, rfl, rfl⟩), ?_⟩
    refine checkedRound_eq_ok.mpr ⟨last, more, htakesLast, ?_⟩
    refine lift_bind_eq_ok.mpr ⟨signed, textOf_eq_ok.mpr hsigned, ?_⟩
    exact lift_eq_ok.mpr ⟨ofSasl_eq_ok.mpr
      ((verifyServerFinal_answered a).mpr ⟨herror, hsignature⟩), rfl⟩

section Scram

variable {name secret challenge signed : Text} {mid : List SaslRequest}
  {first last : SaslAuthenticateResponse} {client : ScramClient} {e : SaslError}

/-- A challenge that is not answered ends the exchange. -/
theorem scram_refused (hname : saslprep crates sasl.username = .ok name)
    (hsecret : saslprep crates sasl.password = .ok secret)
    (hasked : Takes peer ranges said (Text.utf8 (gs2Header ++ firstBare name nonce)) mid first)
    (hchallenge : first.authBytes = Text.utf8 challenge)
    (hrefused : (asking sasl.mechanism name secret nonce limits).clientFinal crates challenge =
      .error e) :
    scram peer ranges crates sasl limits nonce said = (.error (scramError e), mid) := by
  have hfinal : ofSasl ((asking sasl.mechanism name secret nonce limits).clientFinal crates
      challenge) = .error (scramError e) := by
    rw [hrefused]
    rfl
  rw [scram, lift_bind_of_ok
    (ofExchange_eq_ok.mpr (new_eq_ok.mpr ⟨name, secret, hname, hsecret, rfl⟩))]
  refine (checkedRound_of_takes hasked).trans ?_
  rw [lift_bind_of_ok (textOf_eq_ok.mpr hchallenge)]
  exact lift_bind_of_error hfinal

/-- After both rounds what is left is the signature. -/
theorem scram_answered (hname : saslprep crates sasl.username = .ok name)
    (hsecret : saslprep crates sasl.password = .ok secret)
    (hasked : Takes peer ranges said (Text.utf8 (gs2Header ++ firstBare name nonce)) mid first)
    (hchallenge : first.authBytes = Text.utf8 challenge)
    (a : Answerable crates limits sasl.mechanism name secret nonce challenge)
    (hproved : Takes peer ranges mid (Text.utf8 a.final) more last)
    (hsigned : last.authBytes = Text.utf8 signed) :
    scram peer ranges crates sasl limits nonce said =
      (ofSasl (((asking sasl.mechanism name secret nonce limits).awaiting
        { transcript := a.transcript, keys := a.keys }).verifyServerFinal crates
          signed), more) := by
  rw [scram, lift_bind_of_ok
    (ofExchange_eq_ok.mpr (new_eq_ok.mpr ⟨name, secret, hname, hsecret, rfl⟩))]
  refine (checkedRound_of_takes hasked).trans ?_
  rw [lift_bind_of_ok (textOf_eq_ok.mpr hchallenge)]
  refine (lift_bind_of_ok (ofSasl_eq_ok.mpr (clientFinal_answered.mpr ⟨a, rfl, rfl⟩))).trans ?_
  refine (checkedRound_of_takes hproved).trans ?_
  rw [lift_bind_of_ok (textOf_eq_ok.mpr hsigned)]
  rfl

end Scram

end Success

section Completion

variable {peer : Peer} {ranges : ApiVersionRanges} {crates : Crates} {config : ClientConfig}
  {encrypted : Bool} {nonce : Text} {sasl : SaslConfig} {named said : List SaslRequest}

/-- A connection may carry what the mechanism sends. -/
def Secure (config : ClientConfig) (encrypted : Bool) (mechanism : Mechanism) : Prop :=
  mechanism.sendsPassword = true → encrypted = true ∨ config.allowPlaintextCredentials = true

/-- How a mechanism ends well after the peer has agreed to it. -/
inductive Completes (peer : Peer) (ranges : ApiVersionRanges) (crates : Crates)
    (config : ClientConfig) (nonce : Text) (sasl : SaslConfig) (named said : List SaslRequest) :
    Prop
  | plain (token : Bytes) (response : SaslAuthenticateResponse)
      (mechanism : sasl.mechanism = .plain)
      (message : plainToken crates sasl.username sasl.password = .ok token)
      (taken : Takes peer ranges named token said response)
  | bearer (token : Text) (message : Bytes) (response : SaslAuthenticateResponse)
      (mechanism : sasl.mechanism = .oauthBearer) (credential : sasl.token = some token)
      (carried : oauthbearerToken token sasl.extensions = .ok message)
      (taken : Takes peer ranges named message said response) (accepted : response.authBytes = [])
  | scram (name secret challenge signed : Text) (first last : SaslAuthenticateResponse)
      (mid : List SaslRequest)
      (a : Answerable crates config.limits sasl.mechanism name secret nonce challenge)
      (user : saslprep crates sasl.username = .ok name)
      (password : saslprep crates sasl.password = .ok secret)
      (asked : Takes peer ranges named (Text.utf8 (gs2Header ++ firstBare name nonce)) mid first)
      (challenged : first.authBytes = Text.utf8 challenge)
      (proved : Takes peer ranges mid (Text.utf8 a.final) said last)
      (answered : last.authBytes = Text.utf8 signed) (unrefused : attr signed 'e' = none)
      (genuine : attr signed 'v' = some a.signature)

theorem Answerable.scramOnly {limits : Sasl.Limits} {mechanism : Mechanism}
    {name secret challenge : Text}
    (a : Answerable crates limits mechanism name secret nonce challenge) :
    mechanism = .scramSha256 ∨ mechanism = .scramSha512 := by
  have h := a.digest
  cases mechanism with
  | scramSha256 => exact .inl rfl
  | scramSha512 => exact .inr rfl
  | plain | oauthBearer | awsMskIam => cases h

theorem completes_scram
    (h : scram peer ranges crates sasl config.limits nonce named = (.ok (), said)) :
    Completes peer ranges crates config nonce sasl named said := by
  obtain ⟨name, secret, first, challenge, mid, last, signed, hname, hsecret, htakesFirst,
    hchallenge, a, htakesLast, hsigned, herror, hsignature⟩ := scram_eq_ok.mp h
  exact .scram name secret challenge signed first last mid a hname hsecret htakesFirst hchallenge
    htakesLast hsigned herror hsignature

/-- What follows the handshake, as `authenticate` chooses it. -/
def exchangeOf (peer : Peer) (ranges : ApiVersionRanges) (crates : Crates) (config : ClientConfig)
    (nonce : Text) (sasl : SaslConfig) : Talk Unit :=
  match sasl.mechanism with
  | .plain => plain peer ranges crates sasl
  | .scramSha256 | .scramSha512 => scram peer ranges crates sasl config.limits nonce
  | .oauthBearer => bearer peer ranges sasl
  | .awsMskIam => fail (.sasl (.unspoken sasl.mechanism))

/-- An exchange comes through exactly when the mechanism ends well. -/
theorem exchangeOf_eq_ok : exchangeOf peer ranges crates config nonce sasl named = (.ok (), said) ↔
    Completes peer ranges crates config nonce sasl named said := by
  constructor
  · intro h
    unfold exchangeOf at h
    cases hmechanism : sasl.mechanism with
    | plain =>
        rw [hmechanism] at h
        obtain ⟨token, response, htoken, htakes⟩ := plain_eq_ok.mp h
        exact .plain token response hmechanism htoken htakes
    | scramSha256 =>
        rw [hmechanism] at h
        exact completes_scram h
    | scramSha512 =>
        rw [hmechanism] at h
        exact completes_scram h
    | oauthBearer =>
        rw [hmechanism] at h
        obtain ⟨token, message, response, htoken, hmessage, htakes, hempty⟩ := bearer_eq_ok.mp h
        exact .bearer token message response hmechanism htoken hmessage htakes hempty
    | awsMskIam =>
        rw [hmechanism] at h
        cases h
  · intro h
    unfold exchangeOf
    cases h with
    | plain token response hmechanism htoken htakes =>
        rw [hmechanism]
        exact plain_eq_ok.mpr ⟨token, response, htoken, htakes⟩
    | bearer token message response hmechanism htoken hmessage htakes hempty =>
        rw [hmechanism]
        exact bearer_eq_ok.mpr ⟨token, message, response, htoken, hmessage, htakes, hempty⟩
    | scram name secret challenge signed first last mid a hname hsecret htakesFirst hchallenge
        htakesLast hsigned herror hsignature =>
        have hscram : scram peer ranges crates sasl config.limits nonce named = (.ok (), said) :=
          scram_eq_ok.mpr ⟨name, secret, first, challenge, mid, last, signed, hname, hsecret,
            htakesFirst, hchallenge, a, htakesLast, hsigned, herror, hsignature⟩
        rcases a.scramOnly with hmechanism | hmechanism
        · simp only [hmechanism]
          exact hscram
        · simp only [hmechanism]
          exact hscram

theorem secure_iff {mechanism : Mechanism} : Secure config encrypted mechanism ↔
    ¬ (mechanism.sendsPassword && !encrypted && !config.allowPlaintextCredentials) = true := by
  unfold Secure
  cases mechanism.sendsPassword <;> cases encrypted <;> cases config.allowPlaintextCredentials <;>
    decide

/-- What is left of an authentication the peer has agreed to. -/
theorem authenticate_of_agrees (hsasl : config.sasl = some sasl)
    (hsecure : Secure config encrypted sasl.mechanism)
    (hagrees : Agreed peer ranges sasl.mechanism named) :
    authenticate peer ranges crates config encrypted nonce [] =
      exchangeOf peer ranges crates config nonce sasl named := by
  unfold authenticate
  rw [hsasl]
  simp only [if_neg (secure_iff.mp hsecure)]
  exact bind_of_ok (handshake_eq_ok.mpr hagrees)

/-- An authentication returns exactly when there is nothing to authenticate, or
the peer has agreed to the mechanism and taken it to its end. -/
theorem authenticate_eq_ok :
    authenticate peer ranges crates config encrypted nonce [] = (.ok (), said) ↔
      (config.sasl = none ∧ said = []) ∨
        ∃ sasl named, config.sasl = some sasl ∧ Secure config encrypted sasl.mechanism ∧
          Agreed peer ranges sasl.mechanism named ∧
          Completes peer ranges crates config nonce sasl named said := by
  unfold authenticate
  cases hsasl : config.sasl with
  | none =>
      constructor
      · intro h
        cases h
        exact .inl ⟨rfl, rfl⟩
      · rintro (⟨_, rfl⟩ | ⟨_, _, h, _⟩)
        · rfl
        · cases h
  | some sasl =>
      by_cases hsecure : Secure config encrypted sasl.mechanism
      · simp only [if_neg (secure_iff.mp hsecure)]
        show (handshake peer ranges sasl.mechanism >>= fun _ =>
          exchangeOf peer ranges crates config nonce sasl) [] = _ ↔ _
        rw [bind_eq_ok]
        constructor
        · rintro ⟨_, named, hnamed, h⟩
          exact .inr ⟨sasl, named, rfl, hsecure, handshake_eq_ok.mp hnamed, exchangeOf_eq_ok.mp h⟩
        · rintro (⟨h, _⟩ | ⟨_, named, ⟨⟩, _, hnamed, h⟩)
          · cases h
          · exact ⟨(), named, handshake_eq_ok.mpr hnamed, exchangeOf_eq_ok.mpr h⟩
      · simp only [if_pos (not_not.mp fun h => hsecure (secure_iff.mpr h))]
        constructor
        · intro h
          cases h
        · rintro (⟨h, _⟩ | ⟨_, _, ⟨⟩, h, _⟩)
          · cases h
          · exact absurd h hsecure

end Completion

section Silence

variable {α : Type} {peer : Peer} {ranges : ApiVersionRanges} {crates : Crates}
  {config : ClientConfig} {encrypted : Bool} {nonce : Text} {sasl : SaslConfig}
  {said named : List SaslRequest}

/-- The first token of a mechanism. That of SCRAM has no trace of the password. -/
inductive Opening (crates : Crates) (nonce : Text) (sasl : SaslConfig) : Bytes → Prop
  | plain (token : Bytes) (mechanism : sasl.mechanism = .plain)
      (message : plainToken crates sasl.username sasl.password = .ok token) :
      Opening crates nonce sasl token
  | bearer (token : Text) (message : Bytes) (mechanism : sasl.mechanism = .oauthBearer)
      (credential : sasl.token = some token)
      (carried : oauthbearerToken token sasl.extensions = .ok message) :
      Opening crates nonce sasl message
  | scram (name : Text) (mechanism : sasl.mechanism = .scramSha256 ∨ sasl.mechanism = .scramSha512)
      (user : saslprep crates sasl.username = .ok name) :
      Opening crates nonce sasl (Text.utf8 (gs2Header ++ firstBare name nonce))

/-- The second token, which depends on the answer to the first. -/
inductive Reply (crates : Crates) (config : ClientConfig) (nonce : Text) (sasl : SaslConfig)
    (answer : Bytes) : Bytes → Prop
  | proof (name secret challenge : Text)
      (a : Answerable crates config.limits sasl.mechanism name secret nonce challenge)
      (user : saslprep crates sasl.username = .ok name)
      (password : saslprep crates sasl.password = .ok secret)
      (challenged : answer = Text.utf8 challenge) :
      Reply crates config nonce sasl answer (Text.utf8 a.final)
  | ack (mechanism : sasl.mechanism = .oauthBearer) (rejected : answer ≠ []) :
      Reply crates config nonce sasl answer oauthbearerFailureAck

/-- All that is ever said: the name, and each token only after what precedes it
was taken. -/
inductive Said (peer : Peer) (ranges : ApiVersionRanges) (crates : Crates) (config : ClientConfig)
    (nonce : Text) (sasl : SaslConfig) : List SaslRequest → Prop
  | silent : Said peer ranges crates config nonce sasl []
  | named (request : SaslRequest) (name : handshakeRequest ranges sasl.mechanism = .ok request) :
      Said peer ranges crates config nonce sasl [request]
  | opened (named : List SaslRequest) (token : Bytes) (request : SaslRequest)
      (agreed : Agreed peer ranges sasl.mechanism named) (opening : Opening crates nonce sasl token)
      (carried : tokenRequest ranges token = .ok request) :
      Said peer ranges crates config nonce sasl (named ++ [request])
  | replied (named mid : List SaslRequest) (token reply : Bytes) (first : SaslAuthenticateResponse)
      (request : SaslRequest) (agreed : Agreed peer ranges sasl.mechanism named)
      (opening : Opening crates nonce sasl token) (taken : Takes peer ranges named token mid first)
      (answering : Reply crates config nonce sasl first.authBytes reply)
      (carried : tokenRequest ranges reply = .ok request) :
      Said peer ranges crates config nonce sasl (mid ++ [request])

/-- A step fails without a panic, after nothing that must not be said. -/
def Fails (S : List SaslRequest → Prop) (e : AuthError) (said : List SaslRequest) : Prop :=
  e ≠ .panic ∧ S said

theorem ofClient_ne_panic {x : Except ClientError α} : ofClient x ≠ .error .panic := by
  cases x <;> simp [ofClient]

theorem ofExchange_ne_panic {x : Except SaslError α} : ofExchange x ≠ .error .panic := by
  cases x <;> simp [ofExchange]

theorem ofSasl_ne_panic {x : Except SaslError α} : ofSasl x ≠ .error .panic := by
  cases x with
  | ok a => simp [ofSasl]
  | error e => cases e <;> simp [ofSasl, scramError]

theorem textOf_ne_panic {bytes : Bytes} {message : String} :
    textOf bytes message ≠ .error .panic := by
  unfold textOf
  cases Text.fromUtf8 bytes <;> simp

theorem checkAuth_ne_panic {response : SaslAuthenticateResponse} :
    checkAuth response ≠ .error .panic := by
  unfold checkAuth
  dsimp only
  split <;> simp

theorem ok_ne_error {a : α} {e : AuthError} : (Except.ok a : Except AuthError α) ≠ .error e := by
  intro h
  cases h

theorem bind_ne_panic {β : Type} {x : Except AuthError α} {f : α → Except AuthError β}
    (hx : x ≠ .error .panic) (hf : ∀ a, f a ≠ .error .panic) : (x >>= f) ≠ .error .panic := by
  cases x with
  | ok a => exact hf a
  | error e => exact fun h => hx (congrArg _ (Except.error.inj h))

theorem handshakeRequest_ne_panic {mechanism : Mechanism} :
    handshakeRequest ranges mechanism ≠ .error .panic :=
  bind_ne_panic ofClient_ne_panic fun _ => bind_ne_panic ofClient_ne_panic fun _ =>
    ok_ne_error

theorem tokenRequest_ne_panic {token : Bytes} : tokenRequest ranges token ≠ .error .panic :=
  bind_ne_panic ofClient_ne_panic fun _ => bind_ne_panic ofClient_ne_panic fun _ =>
    ok_ne_error

variable {β : Type} {S : List SaslRequest → Prop} {Q : β → List SaslRequest → Prop}

/-- A step without a word, before the rest. -/
theorem lift_then {x : Except AuthError α} {f : α → Talk β} (hx : x ≠ .error .panic)
    (hsaid : S said) (hf : ∀ a, x = .ok a → Triple (· = said) (f a) Q (Fails S)) :
    Triple (· = said) (lift x >>= f) Q (Fails S) := by
  refine Triple.bind (Q := fun a more => x = .ok a ∧ more = said)
    (.lift (fun a ha _ h => ⟨ha, h⟩) fun e he _ h => ⟨fun hpanic => hx (hpanic ▸ he), h ▸ hsaid⟩) ?_
  intro a more ⟨ha, hmore⟩
  exact hf a ha more hmore

theorem ask_triple {request : SaslRequest} {d : Decode α} (hd : ∀ n, BreaksEvenTo n d)
    (hsaid : S (said ++ [request])) :
    Triple (· = said) (ask peer request d)
      (fun a more => more = said ++ [request] ∧ Hears peer more d a) (Fails S) := by
  refine Triple.bind (Q := fun body more => more = said ++ [request] ∧ peer more = .ok body) ?_ ?_
  · refine .say (fun more body hmore hanswer => ?_) fun more e hmore hanswer => ?_
    · subst hmore
      exact ⟨rfl, ofClient_eq_ok.mp hanswer⟩
    · subst hmore
      exact ⟨fun hpanic => ofClient_ne_panic (hpanic ▸ hanswer), hsaid⟩
  · refine fun body => .lift (fun a ha more h => ?_) fun e he more h => ?_
    · exact ⟨h.1, body, h.2, decodeBody_eq_ok.mp ha⟩
    · exact ⟨fun hpanic => decodeBody_ne_panic (runDecode_ne_panic hd _ _) (hpanic ▸ he),
        h.1 ▸ hsaid⟩

/-- A token is said, if it can be. -/
theorem saslRound_triple {token : Bytes} (hsaid : S said)
    (hnext : ∀ request, tokenRequest ranges token = .ok request → S (said ++ [request])) :
    Triple (· = said) (saslRound peer ranges token)
      (fun response more => ∃ request, tokenRequest ranges token = .ok request ∧
        more = said ++ [request] ∧
        Hears peer more (SaslAuthenticateResponse.decode request.version) response) (Fails S) :=
  lift_then tokenRequest_ne_panic hsaid fun request hrequest =>
    (ask_triple (fun _ => SaslAuthenticateResponse.decode_breaksEven request.version)
      (hnext request hrequest)).conseq (fun _ h => h) (fun _ _ h => ⟨request, hrequest, h⟩)
        fun _ _ h => h

/-- Every mechanism checks the code of a round, and goes on when its token was
taken. -/
theorem checkedRound_then {token : Bytes} {f : SaslAuthenticateResponse → Talk β} (hsaid : S said)
    (hnext : ∀ request, tokenRequest ranges token = .ok request → S (said ++ [request]))
    (hf : ∀ response mid, Takes peer ranges said token mid response →
      Triple (· = mid) (f response) Q (Fails S)) :
    Triple (· = said) (do
      let response ← saslRound peer ranges token
      lift (checkAuth response)
      f response) Q (Fails S) := by
  refine .bind (saslRound_triple hsaid hnext) fun response mid hround => ?_
  obtain ⟨request, hrequest, rfl, hhears⟩ := hround
  exact lift_then checkAuth_ne_panic (hnext request hrequest) (fun _ hcode =>
    hf response _ ⟨request, hrequest, rfl, hhears, checkAuth_eq_ok.mp hcode⟩) _ rfl

/-- The last round of a mechanism, with nothing after its check. -/
theorem lastRound_then {token : Bytes} (hsaid : S said)
    (hnext : ∀ request, tokenRequest ranges token = .ok request → S (said ++ [request])) :
    Triple (· = said) (do
      let response ← saslRound peer ranges token
      lift (checkAuth response)) (fun _ more => S more) (Fails S) := by
  refine .bind (saslRound_triple hsaid hnext) fun response => .lift (fun _ _ more h => ?_)
    fun _ he more h => ⟨fun hpanic => checkAuth_ne_panic (hpanic ▸ he), ?_⟩
  all_goals
    obtain ⟨request, hrequest, rfl, _⟩ := h
    exact hnext request hrequest

theorem fail_then {e : AuthError} (he : e ≠ .panic) (hsaid : S said) :
    Triple (· = said) (fail e : Talk β) Q (Fails S) :=
  .fail fun _ h => ⟨he, h ▸ hsaid⟩

variable (hagrees : Agreed peer ranges sasl.mechanism named)

include hagrees in
theorem said_named : Said peer ranges crates config nonce sasl named := by
  obtain ⟨request, _, hrequest, rfl, _⟩ := hagrees
  exact .named request hrequest

include hagrees in
theorem plain_said (hmechanism : sasl.mechanism = .plain) :
    Triple (· = named) (plain peer ranges crates sasl)
      (fun _ more => Said peer ranges crates config nonce sasl more)
      (Fails (Said peer ranges crates config nonce sasl)) :=
  lift_then ofSasl_ne_panic (said_named hagrees) fun token htoken =>
    lastRound_then (said_named hagrees) fun request hrequest =>
      .opened named token request hagrees
        (.plain token hmechanism (ofSasl_eq_ok.mp htoken)) hrequest

include hagrees in
/-- All that a SCRAM exchange says. -/
theorem scram_said (hmechanism : sasl.mechanism = .scramSha256 ∨ sasl.mechanism = .scramSha512) :
    Triple (· = named) (scram peer ranges crates sasl config.limits nonce)
      (fun _ more => Said peer ranges crates config nonce sasl more)
      (Fails (Said peer ranges crates config nonce sasl)) := by
  refine lift_then ofExchange_ne_panic (said_named hagrees) fun client hnew => ?_
  obtain ⟨name, secret, hname, hsecret, rfl⟩ := new_eq_ok.mp (ofExchange_eq_ok.mp hnew)
  have hopening : Opening crates nonce sasl (Text.utf8 (gs2Header ++ firstBare name nonce)) :=
    .scram name hmechanism hname
  have hopened : ∀ request, tokenRequest ranges (Text.utf8 (gs2Header ++ firstBare name nonce)) =
      .ok request → Said peer ranges crates config nonce sasl (named ++ [request]) :=
    fun request hrequest => .opened named _ request hagrees hopening hrequest
  refine checkedRound_then (said_named hagrees) hopened fun first mid hasked => ?_
  have hmid : Said peer ranges crates config nonce sasl mid := by
    obtain ⟨request, hrequest, rfl, _⟩ := hasked
    exact hopened request hrequest
  refine lift_then textOf_ne_panic hmid fun challenge hchallenge => ?_
  refine lift_then ofSasl_ne_panic hmid fun answered hfinal => ?_
  obtain ⟨client, final⟩ := answered
  obtain ⟨a, rfl, rfl⟩ := clientFinal_answered.mp (ofSasl_eq_ok.mp hfinal)
  have hreplied : ∀ request, tokenRequest ranges (Text.utf8 a.final) = .ok request →
      Said peer ranges crates config nonce sasl (mid ++ [request]) :=
    fun request hrequest => .replied named mid _ _ first request hagrees hopening hasked
      (.proof name secret challenge a hname hsecret (textOf_eq_ok.mp hchallenge)) hrequest
  refine checkedRound_then hmid hreplied fun last more hproved => ?_
  have hmore : Said peer ranges crates config nonce sasl more := by
    obtain ⟨request, hrequest, rfl, _⟩ := hproved
    exact hreplied request hrequest
  refine lift_then textOf_ne_panic hmore fun signed _ => ?_
  exact .lift (fun _ _ _ h => h ▸ hmore)
    fun e he _ h => ⟨fun hpanic => ofSasl_ne_panic (hpanic ▸ he), h ▸ hmore⟩

include hagrees in
/-- All that a bearer exchange says. -/
theorem bearer_said (hmechanism : sasl.mechanism = .oauthBearer) :
    Triple (· = named) (bearer peer ranges sasl)
      (fun _ more => Said peer ranges crates config nonce sasl more)
      (Fails (Said peer ranges crates config nonce sasl)) := by
  unfold bearer
  cases htoken : sasl.token with
  | none => exact fail_then (by simp) (said_named hagrees)
  | some token =>
      refine lift_then ofSasl_ne_panic (said_named hagrees) fun message hmessage => ?_
      have hopening : Opening crates nonce sasl message :=
        .bearer token message hmechanism htoken (ofSasl_eq_ok.mp hmessage)
      have hopened : ∀ request, tokenRequest ranges message = .ok request →
          Said peer ranges crates config nonce sasl (named ++ [request]) :=
        fun request hrequest => .opened named _ request hagrees hopening hrequest
      refine checkedRound_then (said_named hagrees) hopened fun first mid hasked => ?_
      have hmid : Said peer ranges crates config nonce sasl mid := by
        obtain ⟨request, hrequest, rfl, _⟩ := hasked
        exact hopened request hrequest
      by_cases hempty : first.authBytes = []
      · rw [if_pos hempty]
        exact .pure fun more h => h ▸ hmid
      · rw [if_neg hempty]
        have hacked : ∀ request, tokenRequest ranges oauthbearerFailureAck = .ok request →
            Said peer ranges crates config nonce sasl (mid ++ [request]) :=
          fun request hrequest => .replied named mid _ _ first request hagrees hopening hasked
            (.ack hmechanism hempty) hrequest
        refine .bind (.attempt (saslRound_triple hmid hacked)) fun acknowledged more hresult => ?_
        cases acknowledged with
        | ok response =>
            obtain ⟨request, hrequest, rfl, _⟩ := hresult
            exact fail_then (by simp) (hacked request hrequest) _ rfl
        | error e =>
            obtain ⟨hpanic, hsaid⟩ := hresult
            cases e with
            | panic => exact absurd rfl hpanic
            | client | sasl | violation | insecureCredentials =>
                exact fail_then (by simp) hsaid more rfl

theorem handshake_triple : Triple (· = []) (handshake peer ranges sasl.mechanism)
    (fun _ more => Agreed peer ranges sasl.mechanism more)
    (Fails (Said peer ranges crates config nonce sasl)) := by
  refine lift_then handshakeRequest_ne_panic .silent fun request hrequest => ?_
  refine .bind (ask_triple (fun _ => SaslHandshakeResponse.decode_breaksEven)
    (.named request hrequest)) fun response more hasked => ?_
  obtain ⟨rfl, hhears⟩ := hasked
  by_cases hcode : (ErrorCode.mk response.errorCode).isOk = true
  · rw [if_pos hcode]
    obtain ⟨code, mechanisms⟩ := response
    obtain rfl : code = 0 := isOk_iff.mp hcode
    exact ⟨request, mechanisms, hrequest, rfl, hhears⟩
  · rw [if_neg hcode]
    exact fail_then (by simp) (.named request hrequest) _ rfl

theorem exchangeOf_said (hagrees : Agreed peer ranges sasl.mechanism named) :
    Triple (· = named) (exchangeOf peer ranges crates config nonce sasl)
      (fun _ more => Said peer ranges crates config nonce sasl more)
      (Fails (Said peer ranges crates config nonce sasl)) := by
  unfold exchangeOf
  cases hmechanism : sasl.mechanism with
  | plain => exact plain_said hagrees hmechanism
  | scramSha256 => exact scram_said hagrees (.inl hmechanism)
  | scramSha512 => exact scram_said hagrees (.inr hmechanism)
  | oauthBearer => exact bearer_said hagrees hmechanism
  | awsMskIam => exact fail_then (by simp) (said_named hagrees)

theorem Agreed.length (h : Agreed peer ranges sasl.mechanism named) : named.length = 1 := by
  obtain ⟨_, _, _, rfl, _⟩ := h
  rfl

theorem Said.length_le (h : Said peer ranges crates config nonce sasl said) : said.length ≤ 3 := by
  cases h with
  | silent => exact Nat.zero_le 3
  | named => exact Nat.succ_le_succ (Nat.zero_le 2)
  | opened named token request hagreed =>
      rw [List.length_append, hagreed.length]
      exact Nat.le_succ 2
  | replied named mid token reply first request hagreed _ htaken =>
      obtain ⟨_, _, rfl, _⟩ := htaken
      rw [List.length_append, List.length_append, hagreed.length]
      exact Nat.le_refl 3

def Guarded (peer : Peer) (ranges : ApiVersionRanges) (crates : Crates) (config : ClientConfig)
    (encrypted : Bool) (nonce : Text) (said : List SaslRequest) : Prop :=
  said ≠ [] → ∃ sasl, config.sasl = some sasl ∧ Secure config encrypted sasl.mechanism ∧
    Said peer ranges crates config nonce sasl said

/-- Whatever the settings, an authentication says what its mechanism allows. -/
theorem authenticate_triple :
    Triple (· = []) (authenticate peer ranges crates config encrypted nonce)
      (fun _ more => Guarded peer ranges crates config encrypted nonce more)
      (Fails (Guarded peer ranges crates config encrypted nonce)) := by
  have hsilent : Guarded peer ranges crates config encrypted nonce [] := fun h => absurd rfl h
  unfold authenticate
  cases hsasl : config.sasl with
  | none => exact .pure fun more h => h ▸ hsilent
  | some sasl =>
      by_cases hsecure : Secure config encrypted sasl.mechanism
      · simp only [if_neg (secure_iff.mp hsecure)]
        have hguarded : ∀ more, Said peer ranges crates config nonce sasl more →
            Guarded peer ranges crates config encrypted nonce more :=
          fun more h _ => ⟨sasl, hsasl, hsecure, h⟩
        have hrun : Triple (· = []) (handshake peer ranges sasl.mechanism >>= fun _ =>
            exchangeOf peer ranges crates config nonce sasl)
            (fun _ more => Said peer ranges crates config nonce sasl more)
            (Fails (Said peer ranges crates config nonce sasl)) :=
          .bind handshake_triple fun _ named hagrees => exchangeOf_said hagrees named rfl
        exact hrun.conseq (fun _ h => h) (fun _ more => hguarded more)
          fun e more h => ⟨h.1, hguarded more h.2⟩
      · simp only [if_pos (not_not.mp fun h => hsecure (secure_iff.mpr h))]
        exact fail_then (by simp) hsilent

/-- Whatever the peer answers, an authentication does not panic, and says three
messages at most: none on a connection that does not protect a password, and no
proof but for a nonce that extends the client's and a count within its limits. -/
theorem authenticate_said (peer : Peer) (ranges : ApiVersionRanges) (crates : Crates)
    (config : ClientConfig) (encrypted : Bool) (nonce : Text) :
    (authenticate peer ranges crates config encrypted nonce []).1 ≠ .error .panic ∧
      (authenticate peer ranges crates config encrypted nonce []).2.length ≤ 3 ∧
      Guarded peer ranges crates config encrypted nonce
        (authenticate peer ranges crates config encrypted nonce []).2 := by
  have hlength : ∀ said, Guarded peer ranges crates config encrypted nonce said →
      said.length ≤ 3 := by
    intro said hguarded
    by_cases hnil : said = []
    · rw [hnil]
      exact Nat.zero_le 3
    · obtain ⟨_, _, _, hsaid⟩ := hguarded hnil
      exact hsaid.length_le
  have hrun : Conversation.Outcome
      (fun _ more => Guarded peer ranges crates config encrypted nonce more)
      (Fails (Guarded peer ranges crates config encrypted nonce))
      (authenticate peer ranges crates config encrypted nonce []) := authenticate_triple [] rfl
  revert hrun
  generalize authenticate peer ranges crates config encrypted nonce [] = run
  obtain ⟨result, said⟩ := run
  cases result with
  | ok done => exact fun hrun => ⟨ok_ne_error, hlength said hrun, hrun⟩
  | error e =>
      exact fun hrun => ⟨fun h => hrun.1 (Except.error.inj h), hlength said hrun.2, hrun.2⟩

end Silence

end Odradek.Client
