import Odradek.Library.Base64
import Odradek.Library.Results
import Odradek.Library.Separated
import Odradek.Sasl.Scram

/-!
An exchange between a client and the server that holds its credential. Every
message one side writes reads back on the other as it was meant, so both compute
the same `AuthMessage`, the proof gives the client key back and the signature
verifies.
-/

namespace Odradek.Sasl

open Library

section Attributes

variable {key : Char} {value : Text}

/-- An attribute is looked for on the left of a comma first. -/
theorem attr_append (a b : Text) (key : Char) :
    attr (a ++ ',' :: b) key = (attr a key).or (attr b key) := by
  unfold attr
  rw [List.splitOn_append_cons_self, List.findSome?_append]

theorem attr_field {k : Char} (hk : k ≠ ',') (hvalue : ',' ∉ value) :
    attr (field k value) key = if k = key then some value else none := by
  have hpart : ',' ∉ field k value := by
    simp [field, Ne.symm hk, hvalue]
  unfold attr
  rw [List.splitOn_eq_singleton hpart, List.findSome?_singleton]
  rfl

/-- No attribute has a comma in its value. -/
theorem comma_not_mem_attr {message : Text} (h : attr message key = some value) :
    ',' ∉ value := by
  obtain ⟨part, hpart, hvalue⟩ := List.exists_of_findSome?_eq_some h
  have hcomma := not_mem_of_mem_splitOn hpart
  unfold attrPart at hvalue
  split at hvalue
  · split at hvalue
    · cases hvalue
      exact fun hmem => hcomma (List.mem_cons_of_mem _ (List.mem_cons_of_mem _ hmem))
    · cases hvalue
  · cases hvalue

theorem comma_not_mem_escape (username : Text) : ',' ∉ escape username := by
  unfold escape
  intro h
  obtain ⟨c, _, hc⟩ := List.mem_flatMap.mp h
  split at hc
  · exact absurd hc (by decide)
  · exact absurd (List.mem_singleton.mp hc).symm ‹_›

/-- What is left of an escaped name once its commas are back. -/
def escapeEquals (username : Text) : Text :=
  username.flatMap fun c => if c = '=' then "=3D".toList else [c]

theorem escape_cons (c : Char) (username : Text) :
    escape (c :: username) =
      (if c = '=' then "=3D".toList else if c = ',' then "=2C".toList else [c]) ++
        escape username := by
  unfold escape
  rw [List.flatMap_cons, List.flatMap_append]
  by_cases heq : c = '='
  · rw [if_pos heq, if_pos heq]
    rfl
  · rw [if_neg heq, if_neg heq, List.flatMap_singleton]

theorem replace_comma_escape (username : Text) :
    Text.replace "=2C".toList [','] (escape username) = escapeEquals username := by
  induction username with
  | nil => rfl
  | cons c username ih =>
      rw [escape_cons, escapeEquals, List.flatMap_cons, ← escapeEquals, ← ih]
      by_cases heq : c = '='
      · subst heq
        simp [Text.replace, Text.replaceFrom]
      · rw [if_neg heq, if_neg heq]
        by_cases hcomma : c = ','
        · subst hcomma
          exact Text.replace_match '=' ['2', 'C'] [','] (escape username)
        · rw [if_neg hcomma]
          exact Text.replace_cons_of_ne heq

theorem replace_equals_escape (username : Text) :
    Text.replace "=3D".toList ['='] (escapeEquals username) = username := by
  induction username with
  | nil => rfl
  | cons c username ih =>
      rw [escapeEquals, List.flatMap_cons, ← escapeEquals]
      by_cases heq : c = '='
      · subst heq
        exact (Text.replace_match '=' ['3', 'D'] ['='] _).trans (congrArg _ ih)
      · rw [if_neg heq]
        exact (Text.replace_cons_of_ne heq).trans (congrArg _ ih)

/-- The server reads back any name a client escaped. -/
theorem unescape_escape (username : Text) : unescape (escape username) = username := by
  rw [unescape, replace_comma_escape, replace_equals_escape]

end Attributes

section Specs

def ScramServer.awaiting (server : ScramServer) (pending : ServerPending) : ScramServer :=
  { server with pending := some pending }

def ScramClient.awaiting (client : ScramClient) (pending : Pending) : ScramClient :=
  { client with pending := some pending }

def clientTranscript (clientFirstBare serverFirst serverNonce : Text) : Transcript :=
  { clientFirstBare
    serverFirst
    withoutProof := field 'c' gs2HeaderB64 ++ ',' :: field 'r' serverNonce }

variable {crates : Crates} {client client' : ScramClient} {server server' : ScramServer}

theorem okOr_eq_ok {α : Type} {value : Option α} {error : SaslError} {a : α} :
    okOr value error = .ok a ↔ value = some a := by
  cases value <;> simp [okOr]

/-- When a server accepts a `client-first`. -/
theorem serverFirst_eq_ok {clientFirst challenge : Text} :
    server.serverFirst crates clientFirst = .ok (server', challenge) ↔
      ∃ header bare clientNonce name,
        splitHeader clientFirst = some (header, bare) ∧ attr bare 'r' = some clientNonce ∧
        ScramServer.claimedName bare = some name ∧ saslprep crates name = .ok server.username ∧
        challenge = server.challenge crates clientNonce ∧
        server' = server.awaiting
          { clientFirstBare := bare
            serverFirst := challenge
            expectedBinding := crates.base64.encode (Text.utf8 header) } := by
  unfold ScramServer.serverFirst
  simp only [except_bind_eq_ok, okOr_eq_ok]
  constructor
  · rintro ⟨⟨header, bare⟩, hsplit, clientNonce, hnonce, name, hname, user, hprep, h⟩
    by_cases huser : user = server.username
    · rw [if_neg (not_not_intro huser)] at h
      cases h
      exact ⟨header, bare, clientNonce, name, hsplit, hnonce, hname, huser ▸ hprep, rfl, rfl⟩
    · rw [if_pos huser] at h
      cases h
  · rintro ⟨header, bare, clientNonce, name, hsplit, hnonce, hname, hprep, rfl, rfl⟩
    refine ⟨(header, bare), hsplit, clientNonce, hnonce, name, hname, _, hprep, ?_⟩
    rw [if_neg (not_not_intro rfl)]
    rfl

/-- When a client answers a challenge. -/
theorem clientFinal_eq_ok {serverFirst final : Text} :
    client.clientFinal crates serverFirst = .ok (client', final) ↔
      ∃ bare serverNonce saltText salt iterationsText iterations d,
        client.clientFirstBare = some bare ∧ attr serverFirst 'r' = some serverNonce ∧
        client.nonce.isPrefixOf serverNonce = true ∧ serverNonce ≠ client.nonce ∧
        attr serverFirst 's' = some saltText ∧ crates.base64.decode saltText = some salt ∧
        attr serverFirst 'i' = some iterationsText ∧
        Text.readNat u32Max iterationsText = some iterations ∧
        client.limits.check iterations = .ok () ∧ withDigest crates client.mechanism = .ok d ∧
        client' = client.awaiting
          { transcript := clientTranscript bare serverFirst serverNonce
            keys := Keys.derive d client.password salt iterations } ∧
        final = (clientTranscript bare serverFirst serverNonce).withoutProof ++ ',' ::
          field 'p' (clientProof crates d (Keys.derive d client.password salt iterations)
            (clientTranscript bare serverFirst serverNonce).authMessage) := by
  unfold ScramClient.clientFinal
  simp only [except_bind_eq_ok, okOr_eq_ok]
  constructor
  · rintro ⟨bare, hbare, serverNonce, hnonce, h⟩
    by_cases hextends : (!client.nonce.isPrefixOf serverNonce || serverNonce == client.nonce) = true
    · rw [if_pos hextends] at h
      cases h
    · rw [if_neg hextends] at h
      simp only [except_bind_eq_ok, okOr_eq_ok, decodeB64] at h
      obtain ⟨saltText, hsaltText, salt, hsalt, text, htext, iterations, hiterations, ⟨⟩, hlimits,
        d, hdigest, h⟩ := h
      cases h
      rw [Bool.or_eq_true, not_or, Bool.not_eq_true', Bool.not_eq_false, beq_iff_eq] at hextends
      exact ⟨bare, serverNonce, saltText, salt, text, iterations, d, hbare, hnonce, hextends.1,
        hextends.2, hsaltText, hsalt, htext, hiterations, hlimits, hdigest, rfl, rfl⟩
  · rintro ⟨bare, serverNonce, saltText, salt, text, iterations, d, hbare, hnonce, hextends, hne,
      hsaltText, hsalt, htext, hiterations, hlimits, hdigest, rfl, rfl⟩
    refine ⟨bare, hbare, serverNonce, hnonce, ?_⟩
    rw [if_neg (by simp [hextends, hne])]
    simp only [except_bind_eq_ok, okOr_eq_ok, decodeB64]
    exact ⟨saltText, hsaltText, salt, hsalt, text, htext, iterations, hiterations, (), hlimits, d,
      hdigest, rfl⟩

/-- When a server accepts a proof, and what it signs. -/
theorem serverFinal_eq_ok {clientFinal signed : Text} :
    server.serverFinal crates clientFinal = .ok signed ↔
      ∃ pending proofText proof withoutProof rest d,
        server.pending = some pending ∧ attr clientFinal 'c' = some pending.expectedBinding ∧
        attr clientFinal 'p' = some proofText ∧
        Text.rsplitOnce ",p=".toList clientFinal = some (withoutProof, rest) ∧
        crates.base64.decode proofText = some proof ∧ proof.length = server.credential.len ∧
        withDigest crates server.credential.mechanism = .ok d ∧
        d.digest (xor proof (d.hmac server.credential.storedKey
          (Text.utf8 (ScramServer.transcript pending withoutProof).authMessage))) =
            server.credential.storedKey ∧
        signed = field 'v' (serverSignature crates d server.credential.serverKey
          (ScramServer.transcript pending withoutProof).authMessage) := by
  unfold ScramServer.serverFinal
  simp only [except_bind_eq_ok, okOr_eq_ok]
  constructor
  · rintro ⟨pending, hpending, binding, hbinding, h⟩
    by_cases hsame : binding = pending.expectedBinding
    · rw [if_neg (not_not_intro hsame)] at h
      simp only [except_bind_eq_ok, okOr_eq_ok, decodeB64] at h
      obtain ⟨proofText, hproofText, ⟨withoutProof, rest⟩, hsplit, proof, hproof, h⟩ := h
      by_cases hlen : proof.length = server.credential.len
      · rw [if_neg (not_not_intro hlen)] at h
        obtain ⟨d, hdigest, h⟩ := except_bind_eq_ok.mp h
        by_cases hkey : d.digest (xor proof (d.hmac server.credential.storedKey
            (Text.utf8 (ScramServer.transcript pending withoutProof).authMessage))) =
              server.credential.storedKey
        · rw [if_neg (not_not_intro hkey)] at h
          cases h
          exact ⟨pending, proofText, proof, withoutProof, rest, d, hpending, hsame ▸ hbinding,
            hproofText, hsplit, hproof, hlen, hdigest, hkey, rfl⟩
        · rw [if_pos hkey] at h
          cases h
      · rw [if_pos hlen] at h
        cases h
    · rw [if_pos hsame] at h
      cases h
  · rintro ⟨pending, proofText, proof, withoutProof, rest, d, hpending, hbinding, hproofText,
      hsplit, hproof, hlen, hdigest, hkey, rfl⟩
    refine ⟨pending, hpending, _, hbinding, ?_⟩
    rw [if_neg (not_not_intro rfl)]
    simp only [except_bind_eq_ok, okOr_eq_ok, decodeB64]
    refine ⟨proofText, hproofText, (withoutProof, rest), hsplit, proof, hproof, ?_⟩
    rw [if_neg (not_not_intro hlen)]
    refine except_bind_eq_ok.mpr ⟨d, hdigest, ?_⟩
    rw [if_neg (not_not_intro hkey)]
    rfl

/-- When a client takes the server for the one it asked for. -/
theorem verifyServerFinal_eq_ok {serverFinal : Text} :
    client.verifyServerFinal crates serverFinal = .ok () ↔
      ∃ pending d, client.pending = some pending ∧ attr serverFinal 'e' = none ∧
        withDigest crates client.mechanism = .ok d ∧
        attr serverFinal 'v' = some (serverSignature crates d pending.keys.serverKey
          pending.transcript.authMessage) := by
  unfold ScramClient.verifyServerFinal
  simp only [except_bind_eq_ok, okOr_eq_ok]
  constructor
  · rintro ⟨pending, hpending, h⟩
    cases herror : attr serverFinal 'e' with
    | some error =>
        simp only [herror] at h
        cases h
    | none =>
        simp only [herror, except_bind_eq_ok, okOr_eq_ok] at h
        obtain ⟨signature, hsignature, d, hdigest, h⟩ := h
        by_cases hsame : serverSignature crates d pending.keys.serverKey
            pending.transcript.authMessage = signature
        · exact ⟨pending, d, hpending, rfl, hdigest, hsame ▸ hsignature⟩
        · rw [if_neg hsame] at h
          cases h
  · rintro ⟨pending, d, hpending, herror, hdigest, hsignature⟩
    refine ⟨pending, hpending, ?_⟩
    simp only [herror, except_bind_eq_ok, okOr_eq_ok]
    exact ⟨_, hsignature, d, hdigest, if_pos rfl⟩

end Specs

section Exchange

def exchange (crates : Crates) (client : ScramClient) (server : ScramServer) :
    Except SaslError Unit := do
  let (client, first) := client.clientFirst
  let (server, challenge) ← server.serverFirst crates first
  let (client, final) ← client.clientFinal crates challenge
  let signed ← server.serverFinal crates final
  client.verifyServerFinal crates signed

variable {crates : Crates} {client : ScramClient} {server : ScramServer} {d : Digest}

theorem splitHeader_bare (bare : Text) :
    splitHeader (gs2Header ++ bare) = some (gs2Header, bare) := by
  simp [splitHeader, gs2Header, Text.splitOnce]

theorem claimedName_bare (client : ScramClient) :
    ScramServer.claimedName client.bare = some client.username := by
  rw [ScramServer.claimedName, ScramClient.bare, attr_append,
    attr_field (by decide) (comma_not_mem_escape _), if_pos rfl, Option.some_or, Option.map_some,
    unescape_escape]

theorem nonce_bare (hnonce : ',' ∉ client.nonce) : attr client.bare 'r' = some client.nonce := by
  rw [ScramClient.bare, attr_append, attr_field (by decide) (comma_not_mem_escape _),
    if_neg (by decide), Option.none_or, attr_field (by decide) hnonce, if_pos rfl]

theorem comma_not_mem_combined (hclient : ',' ∉ client.nonce) (hserver : ',' ∉ server.nonce) :
    ',' ∉ client.nonce ++ server.nonce := by
  simp [hclient, hserver]

theorem comma_not_mem_iterations (n : Nat) : ',' ∉ Nat.toDigits 10 n :=
  Text.not_mem_toDigits (by decide) n

/-- The three attributes of a challenge, as the client looks them up. -/
theorem attr_challenge (crates : Crates) {nonce : Text} (hnonce : ',' ∉ nonce ++ server.nonce) :
    attr (server.challenge crates nonce) 'r' = some (nonce ++ server.nonce) ∧
      attr (server.challenge crates nonce) 's' =
        some (crates.base64.encode server.credential.salt) ∧
      attr (server.challenge crates nonce) 'i' =
        some (Nat.toDigits 10 server.credential.iterations) := by
  have hsalt := crates.base64.comma_not_mem server.credential.salt
  have hiterations := comma_not_mem_iterations server.credential.iterations
  unfold ScramServer.challenge
  simp only [attr_append, attr_field (k := 'r') (by decide) hnonce,
    attr_field (k := 's') (by decide) hsalt, attr_field (k := 'i') (by decide) hiterations]
  exact ⟨rfl, rfl, rfl⟩

/-- The three attributes of a `client-final`, and where its proof begins. -/
theorem attr_clientFinal {bare challenge nonce proof : Text} (hnonce : ',' ∉ nonce)
    (hproof : ',' ∉ proof) :
    attr ((clientTranscript bare challenge nonce).withoutProof ++ ',' :: field 'p' proof) 'c' =
        some gs2HeaderB64 ∧
      attr ((clientTranscript bare challenge nonce).withoutProof ++ ',' :: field 'p' proof) 'p' =
        some proof ∧
      Text.rsplitOnce ",p=".toList
          ((clientTranscript bare challenge nonce).withoutProof ++ ',' :: field 'p' proof) =
        some ((clientTranscript bare challenge nonce).withoutProof, proof) := by
  have hbiws : ',' ∉ gs2HeaderB64 := by decide
  refine ⟨?_, ?_, Text.rsplitOnce_append _ (by decide) hproof⟩
  · simp only [clientTranscript, attr_append, attr_field (k := 'c') (by decide) hbiws, if_true,
      Option.some_or]
  · simp only [clientTranscript, attr_append, attr_field (k := 'c') (by decide) hbiws,
      attr_field (k := 'r') (by decide) hnonce, attr_field (k := 'p') (by decide) hproof]
    rfl

theorem xor_cancel {a b : Bytes} (h : a.length = b.length) : xor (xor a b) b = a := by
  induction a generalizing b with
  | nil => rfl
  | cons x a ih =>
      cases b with
      | nil => cases h
      | cons y b =>
          rw [xor, xor, List.zipWith_cons_cons, List.zipWith_cons_cons, UInt8.xor_assoc,
            UInt8.xor_self, UInt8.xor_zero, ← xor, ← xor, ih (Nat.succ.inj h)]

/-- A proof made with a credential's keys gives the client key back. -/
theorem proof_checks {keys : Keys} (hclientKey : keys.clientKey.length = d.outputSize)
    (hstored : d.digest keys.clientKey = keys.storedKey) (authMessage : Bytes) :
    (xor keys.clientKey (d.hmac keys.storedKey authMessage)).length = d.outputSize ∧
      d.digest (xor (xor keys.clientKey (d.hmac keys.storedKey authMessage))
        (d.hmac keys.storedKey authMessage)) = keys.storedKey := by
  have hlen : keys.clientKey.length = (d.hmac keys.storedKey authMessage).length := by
    rw [hclientKey, d.length_hmac]
  refine ⟨?_, ?_⟩
  · rw [xor, List.length_zipWith, ← hlen, Nat.min_self, hclientKey]
  · rw [xor_cancel hlen, hstored]

/-- A credential that holds what its server needs of some keys. -/
structure ScramCredential.Of (credential : ScramCredential) (d : Digest) (keys : Keys) : Prop where
  len : credential.len = d.outputSize
  storedKey : credential.storedKey = keys.storedKey
  serverKey : credential.serverKey = keys.serverKey

/-- The server's state after it was asked by this client. -/
def ScramServer.asked (crates : Crates) (server : ScramServer) (client : ScramClient) :
    ScramServer :=
  server.awaiting
    { clientFirstBare := client.bare
      serverFirst := server.challenge crates client.nonce
      expectedBinding := gs2HeaderB64 }

/-- What both sides take the first three messages to be. -/
def agreedTranscript (crates : Crates) (client : ScramClient) (server : ScramServer) :
    Transcript :=
  clientTranscript client.bare (server.challenge crates client.nonce)
    (client.nonce ++ server.nonce)

theorem serverFirst_clientFirst (hclient : ',' ∉ client.nonce)
    (hprep : saslprep crates client.username = .ok server.username) :
    server.serverFirst crates client.clientFirst.2 =
      .ok (server.asked crates client, server.challenge crates client.nonce) :=
  serverFirst_eq_ok.mpr ⟨gs2Header, client.bare, client.nonce, client.username,
    splitHeader_bare _, nonce_bare hclient, claimedName_bare client, hprep, rfl,
    by rw [gs2Header, crates.base64.encode_header]; rfl⟩

theorem clientFinal_challenge {keys : Keys}
    (hmechanism : withDigest crates client.mechanism = .ok d)
    (hkeys : keys = Keys.derive d client.password server.credential.salt
      server.credential.iterations)
    (hnonce : ',' ∉ client.nonce ++ server.nonce) (hne : server.nonce ≠ [])
    (hu32 : server.credential.iterations ≤ u32Max)
    (hlimits : client.limits.check server.credential.iterations = .ok ()) :
    client.clientFirst.1.clientFinal crates (server.challenge crates client.nonce) =
      .ok (client.clientFirst.1.awaiting
          { transcript := agreedTranscript crates client server, keys },
        (agreedTranscript crates client server).withoutProof ++ ',' ::
          field 'p' (clientProof crates d keys
            (agreedTranscript crates client server).authMessage)) := by
  obtain ⟨hr, hs, hi⟩ := attr_challenge crates hnonce
  have hextends : client.nonce.isPrefixOf (client.nonce ++ server.nonce) = true := by simp
  have hnew : client.nonce ++ server.nonce ≠ client.nonce := by simpa using hne
  subst hkeys
  exact clientFinal_eq_ok.mpr ⟨client.bare, client.nonce ++ server.nonce, _, _, _, _, d, rfl, hr,
    hextends, hnew, hs, crates.base64.decode_encode _, hi, Text.readNat_toDigits hu32, hlimits,
    hmechanism, rfl, rfl⟩

/-- An honest exchange is one both sides accept. -/
theorem exchange_ok {keys : Keys} (hmechanism : withDigest crates client.mechanism = .ok d)
    (hsame : server.credential.mechanism = client.mechanism)
    (hkeys : keys = Keys.derive d client.password server.credential.salt
      server.credential.iterations)
    (hcredential : server.credential.Of d keys)
    (hprep : saslprep crates client.username = .ok server.username)
    (hclient : ',' ∉ client.nonce) (hserver : ',' ∉ server.nonce) (hne : server.nonce ≠ [])
    (hu32 : server.credential.iterations ≤ u32Max)
    (hlimits : client.limits.check server.credential.iterations = .ok ()) :
    exchange crates client server = .ok () := by
  have hnonce := comma_not_mem_combined hclient hserver
  have hclientKey : keys.clientKey.length = d.outputSize := by
    rw [hkeys, Keys.derive, d.length_hmac]
  have hstored : d.digest keys.clientKey = keys.storedKey := by
    rw [hkeys, Keys.derive]
  obtain ⟨hlen, hdigest⟩ := proof_checks hclientKey hstored
    (Text.utf8 (agreedTranscript crates client server).authMessage)
  obtain ⟨hc, hp, hsplit⟩ := @attr_clientFinal client.bare
    (server.challenge crates client.nonce) (client.nonce ++ server.nonce)
    (clientProof crates d keys (agreedTranscript crates client server).authMessage) hnonce
    (crates.base64.comma_not_mem _)
  have hsigned : (server.asked crates client).serverFinal crates
      ((agreedTranscript crates client server).withoutProof ++ ',' ::
        field 'p' (clientProof crates d keys
          (agreedTranscript crates client server).authMessage)) =
      .ok (field 'v' (serverSignature crates d keys.serverKey
        (agreedTranscript crates client server).authMessage)) :=
    serverFinal_eq_ok.mpr ⟨_, _, _, _, _, d, rfl, hc, hp, hsplit, crates.base64.decode_encode _,
      hlen.trans hcredential.len.symm, (congrArg _ hsame).trans hmechanism, by
        rw [show (server.asked crates client).credential.storedKey = keys.storedKey from
          hcredential.storedKey]
        exact hdigest, by
        rw [show (server.asked crates client).credential.serverKey = keys.serverKey from
          hcredential.serverKey]
        rfl⟩
  have hverified : (client.clientFirst.1.awaiting
      { transcript := agreedTranscript crates client server, keys }).verifyServerFinal crates
        (field 'v' (serverSignature crates d keys.serverKey
          (agreedTranscript crates client server).authMessage)) = .ok () := by
    have hcomma := crates.base64.comma_not_mem (d.hmac keys.serverKey
      (Text.utf8 (agreedTranscript crates client server).authMessage))
    rw [← serverSignature] at hcomma
    exact verifyServerFinal_eq_ok.mpr ⟨_, d, rfl, attr_field (by decide) hcomma, hmechanism,
      attr_field (by decide) hcomma⟩
  unfold exchange
  simp only [except_bind_eq_ok]
  exact ⟨_, serverFirst_clientFirst hclient hprep, _,
    clientFinal_challenge hmechanism hkeys hnonce hne hu32 hlimits, _, hsigned, hverified⟩

/-- Both sides of a SCRAM exchange finish, whichever names, passwords, salts,
counts and nonces they use; the server has read the client's prepared name, and
a credential put back from its stored keys is the one that was derived. -/
theorem exchange_complete {mechanism : Mechanism}
    (hmechanism : mechanism = .scramSha256 ∨ mechanism = .scramSha512)
    (hidempotent : ∀ value prepared, saslprep crates value = .ok prepared →
      saslprep crates prepared = .ok prepared)
    {username name password secret clientNonce serverNonce : Text} {salt : Bytes}
    {iterations : Nat} {limits : Limits}
    (huser : saslprep crates username = .ok name)
    (hpassword : saslprep crates password = .ok secret)
    (hu32 : iterations ≤ u32Max) (hlimits : limits.check iterations = .ok ())
    (hclient : ',' ∉ clientNonce) (hserver : ',' ∉ serverNonce) (hne : serverNonce ≠ []) :
    ∃ client credential server,
      ScramClient.new crates mechanism username password clientNonce limits = .ok client ∧
      ScramCredential.derive crates mechanism password salt iterations limits = .ok credential ∧
      ScramServer.new crates username credential serverNonce = .ok server ∧
      exchange crates client server = .ok () ∧
      ScramServer.claimedName client.bare = some name ∧
      ScramCredential.fromStored crates mechanism salt iterations credential.keys.1
        credential.keys.2 = .ok credential := by
  obtain ⟨d, hd⟩ : ∃ d, withDigest crates mechanism = .ok d := by
    rcases hmechanism with rfl | rfl
    · exact ⟨_, rfl⟩
    · exact ⟨_, rfl⟩
  have hclientNew : ScramClient.new crates mechanism username password clientNonce limits =
      .ok { mechanism, username := name, password := secret, nonce := clientNonce, limits
            clientFirstBare := none, pending := none } := by
    rw [ScramClient.new, huser, hpassword]
    rfl
  have hderive : ScramCredential.derive crates mechanism password salt iterations limits =
      .ok { mechanism, salt, iterations
            storedKey := (Keys.derive d secret salt iterations).storedKey
            serverKey := (Keys.derive d secret salt iterations).serverKey
            len := d.outputSize } := by
    rw [ScramCredential.derive, hlimits, hpassword, hd]
    rfl
  refine ⟨_, _, _, hclientNew, hderive, by rw [ScramServer.new, huser]; rfl, ?_,
    claimedName_bare _, ?_⟩
  · exact exchange_ok hd rfl rfl ⟨rfl, rfl, rfl⟩ (hidempotent _ _ huser) hclient hserver hne hu32
      hlimits
  · have hstored : (Keys.derive d secret salt iterations).storedKey.length = d.outputSize :=
      d.length_digest _
    have hserverKey : (Keys.derive d secret salt iterations).serverKey.length = d.outputSize :=
      d.length_hmac _ _
    rw [ScramCredential.keys, List.take_of_length_le (Nat.le_of_eq hstored),
      List.take_of_length_le (Nat.le_of_eq hserverKey), ScramCredential.fromStored, hd]
    exact if_neg (by simp [hstored, hserverKey])

end Exchange

section Sample

def shortHash (start : Nat) (bytes : Bytes) : Bytes :=
  let n := bytes.foldl (fun n b => (n * 31 + b.toNat) % 2 ^ 32) start
  [UInt8.ofNat (n / 2 ^ 24), UInt8.ofNat (n / 2 ^ 16), UInt8.ofNat (n / 2 ^ 8), UInt8.ofNat n]

def shortDigest : Digest where
  outputSize := 4
  digest := shortHash 5
  hmac key message := shortHash 7 (key ++ message)
  pbkdf2 password salt iterations := shortHash iterations (password ++ salt)
  length_digest _ := rfl
  length_hmac _ _ := rfl

def sampleCrates : Crates where
  sha256 := shortDigest
  sha512 := shortDigest
  base64 :=
    { encode := Base64.encode
      decode := Base64.decode
      decode_encode := Base64.decode_encode
      comma_not_mem := Base64.comma_not_mem_encode
      encode_header := by decide }
  stringprep _ := none

/-- Without Unicode tables only printable ASCII is accepted, as it stands. -/
theorem saslprep_sample (value prepared : Text)
    (h : saslprep sampleCrates value = .ok prepared) :
    saslprep sampleCrates prepared = .ok prepared := by
  unfold saslprep at h
  split at h
  · cases h
    exact if_pos ‹_›
  · cases h

/-- A name with both characters that are escaped. -/
theorem exchange_complete_escaped :
    ∃ client credential server,
      ScramClient.new sampleCrates .scramSha256 "a=,b".toList "pencil".toList "rOprNGfw".toList
        ⟨4096, 1000000⟩ = .ok client ∧
      ScramCredential.derive sampleCrates .scramSha256 "pencil".toList [1, 2, 3] 4096
        ⟨4096, 1000000⟩ = .ok credential ∧
      ScramServer.new sampleCrates "a=,b".toList credential "hvYDpWUa".toList = .ok server ∧
      exchange sampleCrates client server = .ok () ∧
      ScramServer.claimedName client.bare = some "a=,b".toList ∧
      ScramCredential.fromStored sampleCrates .scramSha256 [1, 2, 3] 4096 credential.keys.1
        credential.keys.2 = .ok credential :=
  exchange_complete (.inl rfl) saslprep_sample rfl rfl (by decide) rfl (by decide) (by decide)
    (by decide)

/-- A server that adds nothing to the client's nonce is refused. -/
theorem exchange_emptyNonce :
    ∃ client credential server,
      ScramClient.new sampleCrates .scramSha256 "user".toList "pencil".toList "rOprNGfw".toList
        ⟨4096, 1000000⟩ = .ok client ∧
      ScramCredential.derive sampleCrates .scramSha256 "pencil".toList [1, 2, 3] 4096
        ⟨4096, 1000000⟩ = .ok credential ∧
      ScramServer.new sampleCrates "user".toList credential [] = .ok server ∧
      exchange sampleCrates client server = .error .nonceNotExtended :=
  ⟨_, _, _, rfl, rfl, rfl, rfl⟩

end Sample

end Odradek.Sasl
