import Odradek.Sasl.Transcript

/-!
What a server has checked when it accepts a `client-final`, after any messages a
client sent before. It compares the binding and verifies the proof of the
client-first it answered last, but it never reads the nonce of the `client-final`
and takes no notice of what follows the proof.
-/

namespace Odradek.Sasl

open Library

inductive ClientMessage
  | first (text : Text)
  | final (text : Text)
  deriving DecidableEq

/-- A client-first as the server read it. -/
structure Answered where
  header : Text
  bare : Text
  clientNonce : Text
  deriving DecidableEq

namespace ScramServer

section Run

variable (crates : Crates) (server : ScramServer)

/-- A call leaves the server as it was when it fails. -/
def take (server : ScramServer) : ClientMessage → ScramServer
  | .first text =>
    match server.serverFirst crates text with
    | .ok (server, _) => server
    | .error _ => server
  | .final _ => server

def run (messages : List ClientMessage) : ScramServer := messages.foldl (take crates) server

def answer (clientFirst : Text) : Option Answered :=
  match server.serverFirst crates clientFirst with
  | .ok _ => do
    let (header, bare) ← splitHeader clientFirst
    let clientNonce ← attr bare 'r'
    some { header, bare, clientNonce }
  | .error _ => none

def answerNext (last : Option Answered) : ClientMessage → Option Answered
  | .first text => (server.answer crates text).or last
  | .final _ => last

def lastAnswered (messages : List ClientMessage) : Option Answered :=
  messages.foldl (answerNext crates server) none

def combinedNonce (answered : Answered) : Text := answered.clientNonce ++ server.nonce

def pendingOf (answered : Answered) : ServerPending :=
  { clientFirstBare := answered.bare
    serverFirst := server.challenge crates answered.clientNonce
    expectedBinding := crates.base64.encode (Text.utf8 answered.header) }

def holding (last : Option Answered) : ScramServer :=
  { server with pending := last.map (server.pendingOf crates) }

end Run

section Checks

variable (crates : Crates) (server : ScramServer)

/-- A proof that gives a key of the stored digest over these three messages. -/
def Verifies (answered : Answered) (withoutProof proofText : Text) : Prop :=
  ∃ d proof, withDigest crates server.credential.mechanism = .ok d ∧
    crates.base64.decode proofText = some proof ∧ proof.length = server.credential.len ∧
    d.digest (xor proof (d.hmac server.credential.storedKey (Text.utf8
      (transcript (server.pendingOf crates answered) withoutProof).authMessage))) =
        server.credential.storedKey

/-- What a `client-final` is checked for. -/
structure Checked (answered : Answered) (clientFinal : Text) : Prop where
  binding : attr clientFinal 'c' = some (crates.base64.encode (Text.utf8 answered.header))
  proof : ∃ proofText withoutProof rest, attr clientFinal 'p' = some proofText ∧
    Text.rsplitOnce ",p=".toList clientFinal = some (withoutProof, rest) ∧
    server.Verifies crates answered withoutProof proofText

/-- What acceptance should mean: the binding is the header's, the nonce is the
issued one, and the proof verifies over all that stands in front of it. -/
structure Sound (answered : Answered) (clientFinal : Text) : Prop where
  binding : attr clientFinal 'c' = some (crates.base64.encode (Text.utf8 answered.header))
  nonce : attr clientFinal 'r' = some (server.combinedNonce answered)
  proof : ∃ proofText withoutProof, attr clientFinal 'p' = some proofText ∧
    clientFinal = withoutProof ++ ",p=".toList ++ proofText ∧
    server.Verifies crates answered withoutProof proofText

end Checks

/-- The text ends with the value of its proof attribute. -/
def EndsWithProof (clientFinal : Text) : Prop :=
  ∃ proofText withoutProof, attr clientFinal 'p' = some proofText ∧
    clientFinal = withoutProof ++ ",p=".toList ++ proofText

section Acceptance

variable {crates : Crates} {server : ScramServer} {messages : List ClientMessage}
  {clientFinal : Text}

/-- What a server answers does not depend on what it answered before. -/
theorem serverFirst_holding (last : Option Answered) (clientFirst : Text) :
    (server.holding crates last).serverFirst crates clientFirst =
      server.serverFirst crates clientFirst := rfl

theorem take_holding (last : Option Answered) (message : ClientMessage) :
    take crates (server.holding crates last) message =
      server.holding crates (server.answerNext crates last message) := by
  cases message with
  | final text => rfl
  | first text =>
      rw [take, answerNext, serverFirst_holding, answer]
      cases hfirst : server.serverFirst crates text with
      | error e => rfl
      | ok result =>
          obtain ⟨server', challenge⟩ := result
          obtain ⟨header, bare, clientNonce, name, hsplit, hnonce, _, _, rfl, rfl⟩ :=
            serverFirst_eq_ok.mp hfirst
          simp only [hsplit, Option.bind_eq_bind, Option.bind_some, hnonce, Option.some_or]
          rfl

theorem run_holding (last : Option Answered) (messages : List ClientMessage) :
    (server.holding crates last).run crates messages =
      server.holding crates (messages.foldl (answerNext crates server) last) := by
  induction messages generalizing last with
  | nil => rfl
  | cons message messages ih =>
      rw [run, List.foldl_cons, List.foldl_cons, take_holding, ← run, ih]

/-- A server holds the client-first it answered last, whatever came in between. -/
theorem run_eq_holding (hnew : server.pending = none) (messages : List ClientMessage) :
    server.run crates messages = server.holding crates (server.lastAnswered crates messages) := by
  have hself : server.holding crates none = server := by
    rw [holding, Option.map_none, ← hnew]
  rw [lastAnswered, ← run_holding, hself]

theorem serverFinal_holding {answered : Answered} :
    (∃ signed, (server.holding crates (some answered)).serverFinal crates clientFinal =
      .ok signed) ↔ server.Checked crates answered clientFinal := by
  simp only [serverFinal_eq_ok]
  constructor
  · rintro ⟨_, _, proofText, proof, withoutProof, rest, d, hpending, hbinding, hproofText, hsplit,
      hproof, hlen, hdigest, hkey, _⟩
    cases hpending
    exact ⟨hbinding, proofText, withoutProof, rest, hproofText, hsplit, d, proof, hdigest, hproof,
      hlen, hkey⟩
  · rintro ⟨hbinding, proofText, withoutProof, rest, hproofText, hsplit, d, proof, hdigest, hproof,
      hlen, hkey⟩
    exact ⟨_, _, proofText, proof, withoutProof, rest, d, rfl, hbinding, hproofText, hsplit, hproof,
      hlen, hdigest, hkey, rfl⟩

/-- When a server accepts a `client-final` after these messages. -/
theorem accepts_iff (hnew : server.pending = none) :
    (∃ signed, (server.run crates messages).serverFinal crates clientFinal = .ok signed) ↔
      ∃ answered, server.lastAnswered crates messages = some answered ∧
        server.Checked crates answered clientFinal := by
  rw [run_eq_holding hnew]
  cases server.lastAnswered crates messages with
  | none =>
      constructor
      · rintro ⟨signed, h⟩
        cases h
      · rintro ⟨answered, h, _⟩
        cases h
  | some answered =>
      rw [serverFinal_holding]
      constructor
      · exact fun h => ⟨answered, rfl, h⟩
      · rintro ⟨_, h, hchecked⟩
        cases h
        exact hchecked

/-- No later proof attribute is found in a value. -/
theorem rsplitOnce_proof {proofText withoutProof : Text}
    (h : attr clientFinal 'p' = some proofText)
    (hends : clientFinal = withoutProof ++ ",p=".toList ++ proofText) :
    Text.rsplitOnce ",p=".toList clientFinal = some (withoutProof, proofText) := by
  have hpattern : ',' ∉ "p=".toList := by decide
  rw [hends, List.append_assoc]
  exact Text.rsplitOnce_append withoutProof hpattern (comma_not_mem_attr h)

/-- A checked message is sound when it repeats the nonce and ends with its proof. -/
theorem sound_iff {answered : Answered} (hchecked : server.Checked crates answered clientFinal) :
    server.Sound crates answered clientFinal ↔
      attr clientFinal 'r' = some (server.combinedNonce answered) ∧ EndsWithProof clientFinal := by
  constructor
  · rintro ⟨_, hnonce, proofText, withoutProof, hproof, hends, _⟩
    exact ⟨hnonce, proofText, withoutProof, hproof, hends⟩
  · rintro ⟨hnonce, proofText, withoutProof, hproof, hends⟩
    obtain ⟨hbinding, proofText', withoutProof', rest, hproof', hsplit, hverifies⟩ := hchecked
    rw [rsplitOnce_proof hproof hends] at hsplit
    rw [hproof] at hproof'
    cases hsplit
    cases hproof'
    exact ⟨hbinding, hnonce, proofText, withoutProof, hproof, hends, hverifies⟩

/-- After any messages of a client, acceptance means what it should of exactly
the `client-final` texts that repeat the issued nonce and end with their proof,
or that fail a check which is made. -/
theorem serverFinal_sound_iff {username nonce : Text} {credential : ScramCredential}
    (hnew : ScramServer.new crates username credential nonce = .ok server)
    (messages : List ClientMessage) (clientFinal : Text) :
    ((∃ signed, (server.run crates messages).serverFinal crates clientFinal = .ok signed) →
        ∃ answered, server.lastAnswered crates messages = some answered ∧
          server.Sound crates answered clientFinal) ↔
      ∀ answered, server.lastAnswered crates messages = some answered →
        server.Checked crates answered clientFinal →
          attr clientFinal 'r' = some (server.combinedNonce answered) ∧
            EndsWithProof clientFinal := by
  have hpending : server.pending = none := by
    obtain ⟨name, _, hserver⟩ := except_bind_eq_ok.mp hnew
    cases hserver
    rfl
  rw [accepts_iff hpending]
  constructor
  · intro h answered hlast hchecked
    obtain ⟨_, hlast', hsound⟩ := h ⟨answered, hlast, hchecked⟩
    rw [hlast] at hlast'
    cases hlast'
    exact (sound_iff hchecked).mp hsound
  · rintro h ⟨answered, hlast, hchecked⟩
    exact ⟨answered, hlast, (sound_iff hchecked).mpr (h answered hlast hchecked)⟩

end Acceptance

section Sample

def sampleMessages : List ClientMessage := [.first "n,,n=user,r=rOprNGfw".toList]

def sampleFirst : Answered :=
  { header := "n,,".toList
    bare := "n=user,r=rOprNGfw".toList
    clientNonce := "rOprNGfw".toList }

theorem lastAnswered_sample :
    sampleServer.lastAnswered sampleCrates sampleMessages = some sampleFirst := by
  decide

set_option maxRecDepth 4000 in
theorem serverFinal_sound_iff_faithful :
    (∃ signed, (sampleServer.run sampleCrates sampleMessages).serverFinal sampleCrates
        faithful.clientFinal = .ok signed) ∧
      ∃ answered, sampleServer.lastAnswered sampleCrates sampleMessages = some answered ∧
        sampleServer.Sound sampleCrates answered faithful.clientFinal := by
  have haccepts : ∃ signed, (sampleServer.run sampleCrates sampleMessages).serverFinal sampleCrates
      faithful.clientFinal = .ok signed := ⟨faithful.serverFinal, rfl⟩
  have hnew : ScramServer.new sampleCrates "user".toList sampleServer.credential
      "hvYDpWUa".toList = .ok sampleServer := rfl
  refine ⟨haccepts, (serverFinal_sound_iff hnew _ _).mpr ?_ haccepts⟩
  intro answered hlast _
  rw [lastAnswered_sample] at hlast
  cases hlast
  exact ⟨by decide, "GtWGQQ==".toList, "c=biws,r=rOprNGfwhvYDpWUa".toList, by decide, by decide⟩

set_option maxRecDepth 4000 in
/-- Who holds the password is accepted with a nonce that lacks the server's
part, and with an attribute behind the proof. -/
theorem serverFinal_unsound :
    ¬ ((∃ signed, (sampleServer.run sampleCrates sampleMessages).serverFinal sampleCrates
          "c=biws,r=rOprNGfw,p=+uj4LQ==".toList = .ok signed) →
        ∃ answered, sampleServer.lastAnswered sampleCrates sampleMessages = some answered ∧
          sampleServer.Sound sampleCrates answered "c=biws,r=rOprNGfw,p=+uj4LQ==".toList) ∧
      ¬ ((∃ signed, (sampleServer.run sampleCrates sampleMessages).serverFinal sampleCrates
          (faithful.clientFinal ++ ",x=1".toList) = .ok signed) →
        ∃ answered, sampleServer.lastAnswered sampleCrates sampleMessages = some answered ∧
          sampleServer.Sound sampleCrates answered
            (faithful.clientFinal ++ ",x=1".toList)) := by
  refine ⟨fun h => ?_, fun h => ?_⟩
  · obtain ⟨answered, hlast, hsound⟩ := h ⟨"v=6AdjBg==".toList, rfl⟩
    rw [lastAnswered_sample] at hlast
    cases hlast
    exact absurd hsound.nonce (by decide)
  · obtain ⟨answered, _, hsound⟩ := h ⟨faithful.serverFinal, rfl⟩
    obtain ⟨proofText, withoutProof, hproof, hends, _⟩ := hsound.proof
    have hvalue : attr (faithful.clientFinal ++ ",x=1".toList) 'p' =
        some "GtWGQQ==".toList := by decide
    rw [hvalue] at hproof
    cases hproof
    have hsuffix : "GtWGQQ==".toList <:+ faithful.clientFinal ++ ",x=1".toList :=
      ⟨_, hends.symm⟩
    exact absurd hsuffix (by decide)

end Sample

end ScramServer

end Odradek.Sasl
