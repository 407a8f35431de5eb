import Odradek.Sasl.ScramExchange

/-!
PLAIN (`plain.rs`): an empty authorization identity, the username and the
password, prepared and separated by NUL bytes. Preparation leaves no NUL, so the
verifier splits a token where it was joined.
-/

namespace Odradek.Sasl

open Library

section Roles

variable (crates : Crates)

def plainToken (username password : Text) : Except SaslError Bytes := do
  let username ← saslprep crates username
  let password ← saslprep crates password
  pure (0 :: (Text.utf8 username ++ 0 :: Text.utf8 password))

/-- A token against one account. A request to act as someone else is not one. -/
def verifyPlainToken (token : Bytes) (username password : Text) : Except SaslError Bool := do
  let parts := splitN 0 3 token
  let authzid ← okOr parts[0]? (.malformed "plain token")
  if !authzid.isEmpty then pure false
  else
    let authcid ← okOr parts[1]? (.malformed "plain token")
    let supplied ← okOr parts[2]? (.malformed "plain token")
    let expectedUser ← saslprep crates username
    let expectedPass ← saslprep crates password
    pure (authcid == Text.utf8 expectedUser && supplied == Text.utf8 expectedPass)

end Roles

/-- The Unicode tables prohibit U+0000. -/
def Crates.ProhibitsNul (crates : Crates) : Prop :=
  ∀ value prepared, crates.stringprep value = some prepared → '\x00' ∉ prepared

section Verification

variable {crates : Crates} {username password name secret : Text}

theorem nul_not_mem_prepared (h : crates.ProhibitsNul) {value prepared : Text}
    (hprep : saslprep crates value = .ok prepared) : (0 : UInt8) ∉ Text.utf8 prepared := by
  refine Text.not_mem_utf8 (c := '\x00') rfl (by decide) ?_
  unfold saslprep at hprep
  split at hprep
  · cases hprep
    rename_i hprintable
    intro hmem
    exact absurd (List.all_eq_true.mp hprintable _ hmem) (by decide)
  · exact h _ _ (okOr_eq_ok.mp hprep)

theorem plainToken_eq_ok {token : Bytes} :
    plainToken crates username password = .ok token ↔
      ∃ name secret, saslprep crates username = .ok name ∧
        saslprep crates password = .ok secret ∧
        0 :: (Text.utf8 name ++ 0 :: Text.utf8 secret) = token := by
  simp only [plainToken, except_bind_eq_ok]
  constructor
  · rintro ⟨name, hname, secret, hsecret, ⟨⟩⟩
    exact ⟨name, secret, hname, hsecret, rfl⟩
  · rintro ⟨name, secret, hname, hsecret, rfl⟩
    exact ⟨name, hname, secret, hsecret, rfl⟩

/-- A token is split where it was joined, whatever follows the second NUL. -/
theorem splitN_token (hname : (0 : UInt8) ∉ Text.utf8 name) (secret : Text) :
    splitN 0 3 (0 :: (Text.utf8 name ++ 0 :: Text.utf8 secret)) =
      [[], Text.utf8 name, Text.utf8 secret] := by
  have hfirst := splitN_append 1 (Text.utf8 name ++ 0 :: Text.utf8 secret)
    (List.not_mem_nil : (0 : UInt8) ∉ [])
  rw [List.nil_append] at hfirst
  rw [hfirst, splitN_append 0 _ hname]
  rfl

theorem verifyPlainToken_token (hname : (0 : UInt8) ∉ Text.utf8 name) :
    verifyPlainToken crates (0 :: (Text.utf8 name ++ 0 :: Text.utf8 secret)) username password =
        .ok true ↔
      saslprep crates username = .ok name ∧ saslprep crates password = .ok secret := by
  rw [verifyPlainToken, splitN_token hname]
  show (saslprep crates username >>= fun expectedUser =>
    saslprep crates password >>= fun expectedPass =>
      (pure (Text.utf8 name == Text.utf8 expectedUser &&
        Text.utf8 secret == Text.utf8 expectedPass) : Except SaslError Bool)) = .ok true ↔ _
  simp only [except_bind_eq_ok]
  constructor
  · rintro ⟨user, huser, pass, hpass, hsame⟩
    have heq : (Text.utf8 name == Text.utf8 user && Text.utf8 secret == Text.utf8 pass) = true :=
      Except.ok.inj hsame
    rw [Bool.and_eq_true, beq_iff_eq, beq_iff_eq] at heq
    rw [Text.utf8_injective heq.1, Text.utf8_injective heq.2]
    exact ⟨huser, hpass⟩
  · rintro ⟨huser, hpass⟩
    exact ⟨name, huser, secret, hpass, by rw [beq_self_eq_true, beq_self_eq_true]; rfl⟩

/-- The token of one pair of credentials verifies against another exactly when
both sides prepare to the same username and the same password. -/
theorem plainToken_verifies_iff (hnul : crates.ProhibitsNul)
    (username password username' password' : Text) :
    (plainToken crates username password >>= fun token =>
        verifyPlainToken crates token username' password') = .ok true ↔
      ∃ name secret, saslprep crates username = .ok name ∧ saslprep crates username' = .ok name ∧
        saslprep crates password = .ok secret ∧ saslprep crates password' = .ok secret := by
  simp only [except_bind_eq_ok, plainToken_eq_ok]
  constructor
  · rintro ⟨_, ⟨name, secret, hname, hsecret, rfl⟩, hverify⟩
    obtain ⟨hname', hsecret'⟩ :=
      (verifyPlainToken_token (nul_not_mem_prepared hnul hname)).mp hverify
    exact ⟨name, secret, hname, hname', hsecret, hsecret'⟩
  · rintro ⟨name, secret, hname, hname', hsecret, hsecret'⟩
    exact ⟨_, ⟨name, secret, hname, hsecret, rfl⟩,
      (verifyPlainToken_token (nul_not_mem_prepared hnul hname)).mpr ⟨hname', hsecret'⟩⟩

/-- Tables that map the non-break space to an ordinary one. -/
def spacedCrates : Crates :=
  { sampleCrates with
    stringprep := fun value =>
      if value.all fun c => c = '\xa0' ∨ 0x20 ≤ c.toNat ∧ c.toNat ≤ 0x7e then
        some (value.map fun c => if c = '\xa0' then ' ' else c)
      else none }

theorem spacedCrates_prohibitsNul : spacedCrates.ProhibitsNul := by
  intro value prepared h hnul
  obtain ⟨hall, hprepared⟩ := Option.ite_none_right_eq_some.mp h
  cases hprepared
  obtain ⟨c, hc, hmapped⟩ := List.mem_map.mp hnul
  have hallowed := of_decide_eq_true (List.all_eq_true.mp hall c hc)
  split at hmapped
  · exact absurd hmapped (by decide)
  · rcases hallowed with hspace | hprintable
    · exact absurd hspace ‹_›
    · rw [hmapped] at hprintable
      exact absurd hprintable (by decide)

/-- A password typed with a non-break space is the one with a space. -/
theorem plainToken_verifies_spaced :
    (plainToken spacedCrates "user".toList "pa\xa0ss".toList >>= fun token =>
        verifyPlainToken spacedCrates token "user".toList "pa ss".toList) = .ok true :=
  (plainToken_verifies_iff spacedCrates_prohibitsNul _ _ _ _).mpr
    ⟨"user".toList, "pa ss".toList, by decide, by decide, by decide, by decide⟩

end Verification

end Odradek.Sasl
