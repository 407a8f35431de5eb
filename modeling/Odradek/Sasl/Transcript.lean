import Odradek.Sasl.ScramExchange

/-!
What an exchange in which both sides finish says about the messages in between.
Each side authenticates the three of them joined by commas; the joined texts are
the same, but an extra attribute may stand on either side of a joint, so the
parts are the same only when no message was delivered with extra ones.
-/

namespace Odradek.Sasl

open Library

/-- The messages as they were delivered, whoever wrote them. -/
structure Delivered where
  clientFirst : Text
  serverFirst : Text
  clientFinal : Text
  serverFinal : Text

/-- The transcript a server checks a `client-final` against. -/
def ScramServer.finalTranscript (server : ScramServer) (clientFinal : Text) :
    Option Transcript := do
  let pending ← server.pending
  let (withoutProof, _) ← Text.rsplitOnce ",p=".toList clientFinal
  some (ScramServer.transcript pending withoutProof)

/-- Both sides take every message they are delivered. -/
structure Run (crates : Crates) (client : ScramClient) (server : ScramServer)
    (delivered : Delivered) where
  asked : ScramServer
  challenge : Text
  answered : ScramClient
  final : Text
  signed : Text
  serverFirst : server.serverFirst crates delivered.clientFirst = .ok (asked, challenge)
  clientFinal : client.clientFirst.1.clientFinal crates delivered.serverFirst =
    .ok (answered, final)
  serverFinal : asked.serverFinal crates delivered.clientFinal = .ok signed
  verified : answered.verifyServerFinal crates delivered.serverFinal = .ok ()

namespace Run

variable {crates : Crates} {client : ScramClient} {server : ScramServer} {delivered : Delivered}

/-- Nobody but the server makes the signature that the client waits for. -/
def Unforged (run : Run crates client server delivered) : Prop :=
  attr delivered.serverFinal 'v' = attr run.signed 'v'

/-- The two signatures are no HMAC collision. -/
def CollisionFree (run : Run crates client server delivered) : Prop :=
  ∀ d d' pending t, withDigest crates client.mechanism = .ok d →
    withDigest crates server.credential.mechanism = .ok d' →
    run.answered.pending = some pending →
    run.asked.finalTranscript delivered.clientFinal = some t →
    d.hmac pending.keys.serverKey (Text.utf8 pending.transcript.authMessage) =
      d'.hmac server.credential.serverKey (Text.utf8 t.authMessage) →
    Text.utf8 pending.transcript.authMessage = Text.utf8 t.authMessage

/-- Both sides hold the same three messages, and with them the same name, nonce,
salt and iteration count. -/
structure Agrees (run : Run crates client server delivered) : Prop where
  transcript : run.answered.pending.map (·.transcript) =
    run.asked.finalTranscript delivered.clientFinal
  username : saslprep crates client.username = .ok server.username
  nonce : attr delivered.serverFirst 'r' = some (client.nonce ++ server.nonce)
  salt : (attr delivered.serverFirst 's').bind crates.base64.decode = some server.credential.salt
  iterations : (attr delivered.serverFirst 'i').bind (Text.readNat u32Max) =
    some server.credential.iterations

end Run

section Counting

variable {crates : Crates} {client : ScramClient} {server : ScramServer}

theorem count_field {k : Char} {value : Text} (hk : k ≠ ',') (hvalue : ',' ∉ value) :
    (field k value).count ',' = 0 := by
  refine List.count_eq_zero.mpr ?_
  simp [field, Ne.symm hk, hvalue]

theorem count_bare (hclient : ',' ∉ client.nonce) : client.bare.count ',' = 1 := by
  rw [ScramClient.bare, List.count_append, List.count_cons_self,
    count_field (by decide) (comma_not_mem_escape _), count_field (by decide) hclient]

theorem count_challenge (crates : Crates) {nonce : Text} (hnonce : ',' ∉ nonce ++ server.nonce) :
    (server.challenge crates nonce).count ',' = 2 := by
  rw [ScramServer.challenge, List.count_append, List.count_cons_self, List.count_append,
    List.count_cons_self, count_field (by decide) hnonce,
    count_field (by decide) (crates.base64.comma_not_mem _),
    count_field (by decide) (comma_not_mem_iterations _)]

theorem splitOnce_count {text head rest : Text} (h : Text.splitOnce ',' text = some (head, rest)) :
    text.count ',' = rest.count ',' + 1 := by
  induction text generalizing head with
  | nil => cases h
  | cons c text ih =>
      rw [Text.splitOnce] at h
      by_cases hc : c = ','
      · rw [if_pos hc] at h
        cases h
        rw [hc, List.count_cons_self]
      · rw [if_neg hc] at h
        obtain ⟨⟨head', rest'⟩, hsplit, h⟩ := Option.map_eq_some_iff.mp h
        cases h
        rw [List.count_cons_of_ne hc, ih hsplit]

/-- The header ends at the second comma. -/
theorem splitHeader_count {clientFirst header bare : Text}
    (h : splitHeader clientFirst = some (header, bare)) :
    clientFirst.count ',' = bare.count ',' + 2 := by
  unfold splitHeader at h
  obtain ⟨⟨flag, rest⟩, hflag, h⟩ := Option.bind_eq_some_iff.mp h
  obtain ⟨⟨authzid, bare'⟩, hauthzid, h⟩ := Option.bind_eq_some_iff.mp h
  cases h
  rw [splitOnce_count hflag, splitOnce_count hauthzid]

end Counting

section Agreement

variable {crates : Crates} {client : ScramClient} {server : ScramServer} {delivered : Delivered}

theorem encode_injective {a b : Bytes} (h : crates.base64.encode a = crates.base64.encode b) :
    a = b := by
  have hdecode := congrArg crates.base64.decode h
  rw [crates.base64.decode_encode, crates.base64.decode_encode] at hdecode
  exact Option.some.inj hdecode

theorem comma_not_mem_signature {d : Digest} {key : Bytes} {message : Text} :
    ',' ∉ serverSignature crates d key message :=
  crates.base64.comma_not_mem _

/-- Equal signatures sign equal messages. -/
theorem Run.authMessage_eq (run : Run crates client server delivered) (hunforged : run.Unforged)
    (hcollision : run.CollisionFree) {pending : Pending} {t : Transcript}
    (hpending : run.answered.pending = some pending)
    (ht : run.asked.finalTranscript delivered.clientFinal = some t) :
    pending.transcript.authMessage = t.authMessage := by
  obtain ⟨_, _, _, _, _, _, _, _, _, hasked⟩ := serverFirst_eq_ok.mp run.serverFirst
  obtain ⟨_, _, _, _, _, _, _, _, _, _, _, _, _, _, _, _, _, hanswered, _⟩ :=
    clientFinal_eq_ok.mp run.clientFinal
  obtain ⟨pending', d, hpending', _, hd, hverified⟩ := verifyServerFinal_eq_ok.mp run.verified
  obtain ⟨awaited, _, _, withoutProof, _, d', hawaited, _, _, hsplit, _, _, hd', _, hsigned⟩ :=
    serverFinal_eq_ok.mp run.serverFinal
  have hcredential : run.asked.credential = server.credential := by
    rw [hasked]
    rfl
  have hmechanism : run.answered.mechanism = client.mechanism := by
    rw [hanswered]
    rfl
  rw [hpending] at hpending'
  cases hpending'
  rw [hcredential] at hd' hsigned
  rw [hmechanism] at hd
  have htranscript : run.asked.finalTranscript delivered.clientFinal =
      some (ScramServer.transcript awaited withoutProof) := by
    rw [ScramServer.finalTranscript, hawaited, hsplit]
    rfl
  rw [htranscript] at ht
  cases ht
  have hsame : serverSignature crates d pending.keys.serverKey pending.transcript.authMessage =
      serverSignature crates d' server.credential.serverKey
        (ScramServer.transcript awaited withoutProof).authMessage := by
    have hv := hunforged
    unfold Run.Unforged at hv
    rw [hverified, hsigned, attr_field (by decide) comma_not_mem_signature, if_pos rfl] at hv
    exact Option.some.inj hv
  exact Text.utf8_injective (hcollision d d' pending _ hd hd' hpending htranscript
    (encode_injective hsame))

/-- Both sides hold the same messages exactly when the client's first message
was delivered with two attributes behind its header and the challenge with three. -/
theorem Run.agrees_iff (run : Run crates client server delivered) (hclient : ',' ∉ client.nonce)
    (hserver : ',' ∉ server.nonce) (hunforged : run.Unforged) (hcollision : run.CollisionFree) :
    run.Agrees ↔
      delivered.clientFirst.count ',' = 3 ∧ delivered.serverFirst.count ',' = 2 := by
  obtain ⟨header, bare, clientNonce, name, hheader, hnonce, hname, hprep, hchallenge, hasked⟩ :=
    serverFirst_eq_ok.mp run.serverFirst
  obtain ⟨bare', serverNonce, saltText, salt, iterationsText, iterations, d, hbare, hserverNonce,
    _, _, hsaltText, hsalt, hiterationsText, hiterations, _, _, hanswered, _⟩ :=
    clientFinal_eq_ok.mp run.clientFinal
  obtain ⟨awaited, _, _, withoutProof, _, d', hawaited, _, _, hsplit, _, _, _, _, _⟩ :=
    serverFinal_eq_ok.mp run.serverFinal
  obtain rfl : client.bare = bare' := Option.some.inj hbare
  have hpending : run.answered.pending = some
      { transcript := clientTranscript client.bare delivered.serverFirst serverNonce
        keys := Keys.derive d client.clientFirst.1.password salt iterations } := by
    rw [hanswered]
    rfl
  have htranscript : run.asked.finalTranscript delivered.clientFinal =
      some { clientFirstBare := bare, serverFirst := run.challenge, withoutProof } := by
    rw [ScramServer.finalTranscript, hsplit, hasked]
    rfl
  have hauth := run.authMessage_eq hunforged hcollision hpending htranscript
  have hcount := splitHeader_count hheader
  have hcombined : ',' ∉ clientNonce ++ server.nonce := by
    simp [comma_not_mem_attr hnonce, hserver]
  have hthree := count_challenge crates hcombined
  have htwo := count_bare hclient
  constructor
  · intro h
    have hsame := h.transcript
    rw [hpending, htranscript] at hsame
    simp only [Option.map_some, clientTranscript, Option.some.injEq, Transcript.mk.injEq] at hsame
    obtain ⟨hbare, hfirst, _⟩ := hsame
    rw [hcount, ← hbare, htwo, hfirst, hchallenge, hthree]
    exact ⟨rfl, rfl⟩
  · rintro ⟨hfirst, hsecond⟩
    obtain ⟨hsame, hrest⟩ : client.bare = bare ∧
        delivered.serverFirst ++ ',' :: (field 'c' gs2HeaderB64 ++ ',' :: field 'r' serverNonce) =
          run.challenge ++ ',' :: withoutProof :=
      Text.append_sep_inj hauth (show client.bare.count ',' = bare.count ',' by omega)
    obtain ⟨hserverFirst, hproof⟩ := Text.append_sep_inj hrest
      (show delivered.serverFirst.count ',' = run.challenge.count ',' by
        rw [hsecond, hchallenge, hthree])
    have hclientNonce : client.nonce = clientNonce := by
      rw [← hsame, nonce_bare hclient] at hnonce
      exact Option.some.inj hnonce
    have hclientName : client.username = name := by
      rw [← hsame, claimedName_bare] at hname
      exact Option.some.inj hname
    obtain ⟨hr, hs, hi⟩ := attr_challenge crates hcombined
    rw [← hchallenge, ← hserverFirst] at hr hs hi
    refine ⟨?_, hclientName ▸ hprep, hclientNonce ▸ hr, ?_, ?_⟩
    · rw [hpending, htranscript, Option.map_some, clientTranscript, hsame, hserverFirst, hproof]
    · rw [hs, Option.bind_some, crates.base64.decode_encode]
    · rw [hi] at hiterationsText
      rw [← Option.some.inj hiterationsText] at hiterations
      rw [hi, Option.bind_some, hiterations, Text.eq_of_readNat_toDigits hiterations]

end Agreement

section Altered

def sampleClient : ScramClient :=
  { mechanism := .scramSha256
    username := "user".toList
    password := "pencil".toList
    nonce := "rOprNGfw".toList
    limits := ⟨4096, 1000000⟩
    clientFirstBare := none
    pending := none }

def sampleKeys : Keys := Keys.derive shortDigest "pencil".toList [1, 2, 3] 4096

def sampleServer : ScramServer :=
  { username := "user".toList
    credential :=
      { mechanism := .scramSha256
        salt := [1, 2, 3]
        iterations := 4096
        storedKey := sampleKeys.storedKey
        serverKey := sampleKeys.serverKey
        len := 4 }
    nonce := "hvYDpWUa".toList
    pending := none }

def sampleChallenge : Text := "r=rOprNGfwhvYDpWUa,s=AQID,i=4096".toList

def faithful : Delivered :=
  { clientFirst := "n,,n=user,r=rOprNGfw".toList
    serverFirst := sampleChallenge
    clientFinal := "c=biws,r=rOprNGfwhvYDpWUa,p=GtWGQQ==".toList
    serverFinal := "v=EvpP8g==".toList }

/-- An attribute added behind the client's first message, and the same one put
in front of the challenge. -/
def altered : Delivered :=
  { clientFirst := "n,,n=user,r=rOprNGfw,x=1".toList
    serverFirst := "x=1,".toList ++ sampleChallenge
    clientFinal := "c=biws,r=rOprNGfwhvYDpWUa,p=V1aBoQ==".toList
    serverFinal := "v=mSgsEg==".toList }

/-- The run in which the server has read `bare` and the client `serverFirst`. -/
def sampleAsked (bare : Text) : ScramServer :=
  sampleServer.awaiting
    { clientFirstBare := bare, serverFirst := sampleChallenge, expectedBinding := "biws".toList }

def sampleAnswered (serverFirst : Text) : ScramClient :=
  sampleClient.clientFirst.1.awaiting
    { transcript := clientTranscript "n=user,r=rOprNGfw".toList serverFirst
        "rOprNGfwhvYDpWUa".toList
      keys := sampleKeys }

set_option maxRecDepth 4000 in
def faithfulRun : Run sampleCrates sampleClient sampleServer faithful where
  asked := sampleAsked "n=user,r=rOprNGfw".toList
  challenge := sampleChallenge
  answered := sampleAnswered sampleChallenge
  final := faithful.clientFinal
  signed := faithful.serverFinal
  serverFirst := rfl
  clientFinal := rfl
  serverFinal := rfl
  verified := rfl

set_option maxRecDepth 4000 in
def alteredRun : Run sampleCrates sampleClient sampleServer altered where
  asked := sampleAsked "n=user,r=rOprNGfw,x=1".toList
  challenge := sampleChallenge
  answered := sampleAnswered ("x=1,".toList ++ sampleChallenge)
  final := altered.clientFinal
  signed := altered.serverFinal
  serverFirst := rfl
  clientFinal := rfl
  serverFinal := rfl
  verified := rfl

theorem Run.agrees_iff_faithful : faithfulRun.Agrees :=
  (faithfulRun.agrees_iff (by decide) (by decide) rfl (fun _ _ _ _ hd hd' hpending ht _ => by
    cases hd
    cases hd'
    cases hpending
    cases ht
    rfl)).mpr ⟨by decide, by decide⟩

/-- The attribute that moved over the joint goes unnoticed: both sides finish
over one joined text, with neither a forged signature nor a collision, and hold
different messages. -/
theorem alteredRun_disagrees :
    alteredRun.Unforged ∧ alteredRun.CollisionFree ∧ ¬ alteredRun.Agrees := by
  refine ⟨rfl, fun _ _ _ _ hd hd' hpending ht _ => ?_, fun h => ?_⟩
  · cases hd
    cases hd'
    cases hpending
    cases ht
    rfl
  · have hsame := h.transcript
    exact absurd hsame (by decide)

end Altered

end Odradek.Sasl
