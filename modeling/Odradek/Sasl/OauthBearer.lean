import Odradek.Sasl.ScramExchange

/-!
OAUTHBEARER (`oauthbearer.rs`): one message of a token and extensions, each ended
by the byte 0x01. Nothing is escaped, so the builder refuses what would end a
field early, and what it accepts is read back field by field.
-/

namespace Odradek.Sasl

open Library

section Roles

def kvsep : UInt8 := 0x01

def bearer : Text := "auth=Bearer ".toList

def checkExtension (extension : Text × Text) : Except SaslError Unit :=
  if kvsep ∈ Text.utf8 extension.1 ++ Text.utf8 extension.2 then .error (.malformed "extension")
  else if '=' ∈ extension.1 then .error (.malformed "extension")
  else .ok ()

def checkExtensions : List (Text × Text) → Except SaslError Unit
  | [] => .ok ()
  | extension :: extensions => do
    checkExtension extension
    checkExtensions extensions

def putExtension (extension : Text × Text) : Bytes :=
  Text.utf8 extension.1 ++ 0x3d :: (Text.utf8 extension.2 ++ [kvsep])

/-- What is written once nothing was refused. -/
def oauthbearerMessage (token : Text) (extensions : List (Text × Text)) : Bytes :=
  Text.utf8 gs2Header ++ kvsep :: (Text.utf8 bearer ++ (Text.utf8 token ++ kvsep ::
    (extensions.flatMap putExtension ++ [kvsep])))

def oauthbearerToken (token : Text) (extensions : List (Text × Text)) :
    Except SaslError Bytes :=
  if kvsep ∈ Text.utf8 token ∨ token = [] then .error (.malformed "bearer token")
  else do
    checkExtensions extensions
    pure (oauthbearerMessage token extensions)

def stripPrefix (start text : Text) : Option Text :=
  if start.isPrefixOf text then some (text.drop start.length) else none

def readExtension (part : Bytes) : Except SaslError (Text × Text) := do
  let part ← okOr (Text.fromUtf8 part) (.malformed "extension")
  okOr (Text.splitOnce '=' part) (.malformed "extension")

def readExtensions : List Bytes → Except SaslError (List (Text × Text))
  | [] => .ok []
  | part :: parts =>
    if part.isEmpty then readExtensions parts
    else do
      let extension ← readExtension part
      let extensions ← readExtensions parts
      pure (extension :: extensions)

def isGs2Header (gs2 : Bytes) : Bool :=
  (Text.utf8 "n,".toList).isPrefixOf gs2 || (Text.utf8 "y,".toList).isPrefixOf gs2 ||
    (Text.utf8 "p=".toList).isPrefixOf gs2

def parseOauthbearerToken (message : Bytes) : Except SaslError (Text × List (Text × Text)) := do
  let parts := message.splitOn kvsep
  let gs2 ← okOr parts[0]? (.malformed "gs2 header")
  if !isGs2Header gs2 then .error (.malformed "gs2 header")
  else
    let auth ← okOr parts[1]? (.malformed "auth")
    let auth ← okOr (Text.fromUtf8 auth) (.malformed "auth")
    let token ← okOr (stripPrefix bearer auth) (.malformed "auth")
    if token.isEmpty then .error (.malformed "bearer token")
    else
      let extensions ← readExtensions (parts.drop 2)
      pure (token, extensions)

end Roles

/-- An empty token, a separator anywhere, or an `=` in a key. -/
def Refused (token : Text) (extensions : List (Text × Text)) : Prop :=
  token = [] ∨ kvsep ∈ Text.utf8 token ∨
    ∃ extension ∈ extensions, kvsep ∈ Text.utf8 extension.1 ∨ kvsep ∈ Text.utf8 extension.2 ∨
      '=' ∈ extension.1

/-- A key and a value that fit between two separators. -/
def Carries (extension : Text × Text) : Prop :=
  kvsep ∉ Text.utf8 extension.1 ∧ kvsep ∉ Text.utf8 extension.2 ∧ '=' ∉ extension.1

variable {token : Text} {extensions : List (Text × Text)} {extension : Text × Text}

theorem not_refused_iff : ¬ Refused token extensions ↔
    token ≠ [] ∧ kvsep ∉ Text.utf8 token ∧ ∀ extension ∈ extensions, Carries extension := by
  unfold Refused Carries
  simp only [not_or, not_exists, not_and]

section Builds

theorem checkExtension_ok : checkExtension extension = .ok () ↔ Carries extension := by
  have hmem : kvsep ∈ Text.utf8 extension.1 ++ Text.utf8 extension.2 ↔
      kvsep ∈ Text.utf8 extension.1 ∨ kvsep ∈ Text.utf8 extension.2 := List.mem_append
  unfold checkExtension Carries
  by_cases hsep : kvsep ∈ Text.utf8 extension.1 ++ Text.utf8 extension.2
  · rw [if_pos hsep]
    exact ⟨fun h => (by cases h), fun h => absurd (hmem.mp hsep) (not_or.mpr ⟨h.1, h.2.1⟩)⟩
  · rw [if_neg hsep]
    rw [hmem, not_or] at hsep
    by_cases heq : '=' ∈ extension.1
    · rw [if_pos heq]
      exact ⟨fun h => (by cases h), fun h => absurd heq h.2.2⟩
    · rw [if_neg heq]
      exact ⟨fun _ => ⟨hsep.1, hsep.2, heq⟩, fun _ => rfl⟩

theorem checkExtensions_ok :
    checkExtensions extensions = .ok () ↔ ∀ extension ∈ extensions, Carries extension := by
  induction extensions with
  | nil => exact ⟨fun _ extension h => (by cases h), fun _ => rfl⟩
  | cons extension extensions ih =>
      rw [checkExtensions, except_bind_eq_ok, List.forall_mem_cons, ← ih, ← checkExtension_ok]
      exact ⟨fun ⟨_, hfirst, hrest⟩ => ⟨hfirst, hrest⟩,
        fun ⟨hfirst, hrest⟩ => ⟨(), hfirst, hrest⟩⟩

/-- The builder refuses exactly what it says, and writes everything else as it is. -/
theorem oauthbearerToken_eq_ok {message : Bytes} :
    oauthbearerToken token extensions = .ok message ↔
      ¬ Refused token extensions ∧ oauthbearerMessage token extensions = message := by
  rw [not_refused_iff, oauthbearerToken]
  by_cases htoken : kvsep ∈ Text.utf8 token ∨ token = []
  · rw [if_pos htoken]
    refine ⟨fun h => (by cases h), fun h => ?_⟩
    exact absurd htoken (not_or.mpr ⟨h.1.2.1, h.1.1⟩)
  · rw [if_neg htoken, except_bind_eq_ok, ← checkExtensions_ok]
    rw [not_or] at htoken
    constructor
    · rintro ⟨_, hextensions, ⟨⟩⟩
      exact ⟨⟨htoken.2, htoken.1, hextensions⟩, rfl⟩
    · rintro ⟨⟨_, _, hextensions⟩, rfl⟩
      exact ⟨(), hextensions, rfl⟩

end Builds

section Reads

theorem stripPrefix_eq_some {start text rest : Text} :
    stripPrefix start text = some rest ↔ start ++ rest = text := by
  unfold stripPrefix
  rw [Option.ite_none_right_eq_some, List.isPrefixOf_iff_prefix]
  constructor
  · rintro ⟨⟨tail, rfl⟩, hrest⟩
    rw [List.drop_left] at hrest
    rw [Option.some.inj hrest]
  · rintro rfl
    exact ⟨List.prefix_append _ _, by rw [List.drop_left]⟩

def extensionText (extension : Text × Text) : Text := extension.1 ++ '=' :: extension.2

theorem putExtension_eq (extension : Text × Text) :
    putExtension extension = Text.utf8 (extensionText extension) ++ [kvsep] := by
  rw [putExtension, extensionText, Text.utf8_append, Text.utf8_cons, List.append_assoc,
    List.append_assoc]
  rfl

theorem kvsep_not_mem_extensionText :
    kvsep ∉ Text.utf8 (extensionText extension) ↔
      kvsep ∉ Text.utf8 extension.1 ∧ kvsep ∉ Text.utf8 extension.2 := by
  rw [extensionText, Text.utf8_append, Text.utf8_cons, List.mem_append, List.mem_append, not_or,
    not_or]
  exact ⟨fun h => ⟨h.1, h.2.2⟩, fun h => ⟨h.1, by decide, h.2⟩⟩

/-- A part reads as an extension when it is the text of one whose key has no `=`. -/
theorem readExtension_eq_ok {part : Bytes} :
    readExtension part = .ok extension ↔
      Text.utf8 (extensionText extension) = part ∧ '=' ∉ extension.1 := by
  rw [readExtension, except_bind_eq_ok]
  constructor
  · rintro ⟨text, htext, hsplit⟩
    obtain ⟨rfl, hkey⟩ := Text.splitOnce_eq_some (okOr_eq_ok.mp hsplit)
    exact ⟨Text.utf8_of_fromUtf8 (okOr_eq_ok.mp htext), hkey⟩
  · rintro ⟨rfl, hkey⟩
    exact ⟨_, okOr_eq_ok.mpr (Text.fromUtf8_utf8 _),
      okOr_eq_ok.mpr (Text.splitOnce_append extension.2 hkey)⟩

theorem readExtensions_texts (h : ∀ extension ∈ extensions, '=' ∉ extension.1) :
    readExtensions (extensions.map (fun extension => Text.utf8 (extensionText extension)) ++
      [[], []]) = .ok extensions := by
  induction extensions with
  | nil => rfl
  | cons extension extensions ih =>
      have hne : (Text.utf8 (extensionText extension)).isEmpty = false := by
        rw [List.isEmpty_eq_false_iff]
        exact Text.utf8_ne_nil (List.append_ne_nil_of_right_ne_nil _ (List.cons_ne_nil _ _))
      have hfirst : readExtension (Text.utf8 (extensionText extension)) = .ok extension :=
        readExtension_eq_ok.mpr ⟨rfl, h extension List.mem_cons_self⟩
      have hrest := ih fun other hother => h other (List.mem_cons_of_mem _ hother)
      rw [List.map_cons, List.cons_append, readExtensions, hne, hfirst, hrest]
      rfl

/-- Whatever is read as an extension lay between two separators. -/
theorem readExtensions_carries {parts : List Bytes} (hparts : ∀ part ∈ parts, kvsep ∉ part)
    (h : readExtensions parts = .ok extensions) : ∀ extension ∈ extensions, Carries extension := by
  induction parts generalizing extensions with
  | nil =>
      cases h
      exact fun _ hmem => by cases hmem
  | cons part parts ih =>
      rw [List.forall_mem_cons] at hparts
      rw [readExtensions] at h
      split at h
      · exact ih hparts.2 h
      · obtain ⟨extension, hfirst, h⟩ := except_bind_eq_ok.mp h
        obtain ⟨rest, hrest, ⟨⟩⟩ := except_bind_eq_ok.mp h
        obtain ⟨rfl, hkey⟩ := readExtension_eq_ok.mp hfirst
        obtain ⟨hname, hvalue⟩ := kvsep_not_mem_extensionText.mp hparts.1
        exact List.forall_mem_cons.mpr ⟨⟨hname, hvalue, hkey⟩, ih hparts.2 hrest⟩

/-- The fields of a message, when none of them has a separator in it. -/
theorem splitOn_message (h : ¬ Refused token extensions) :
    (oauthbearerMessage token extensions).splitOn kvsep =
      Text.utf8 gs2Header :: Text.utf8 (bearer ++ token) ::
        (extensions.map (fun extension => Text.utf8 (extensionText extension)) ++ [[], []]) := by
  obtain ⟨_, htoken, hextensions⟩ := not_refused_iff.mp h
  have hauth : kvsep ∉ Text.utf8 (bearer ++ token) := by
    rw [Text.utf8_append, List.mem_append, not_or]
    exact ⟨by decide, htoken⟩
  have htail : (extensions.flatMap putExtension ++ [kvsep]).splitOn kvsep =
      extensions.map (fun extension => Text.utf8 (extensionText extension)) ++ [[], []] := by
    rw [funext putExtension_eq, splitOn_flatMap_append (fun extension hmem =>
      kvsep_not_mem_extensionText.mpr ⟨(hextensions _ hmem).1, (hextensions _ hmem).2.1⟩)]
    rfl
  rw [oauthbearerMessage, ← List.append_assoc (Text.utf8 bearer), ← Text.utf8_append,
    List.splitOn_append_cons_self_of_not_mem (by decide),
    List.splitOn_append_cons_self_of_not_mem hauth, htail]

/-- What the parser accepts, and how the token and the extensions stand in it. -/
theorem parseOauthbearerToken_eq_ok {message : Bytes} :
    parseOauthbearerToken message = .ok (token, extensions) ↔
      ∃ gs2 auth, (message.splitOn kvsep)[0]? = some gs2 ∧ isGs2Header gs2 = true ∧
        (message.splitOn kvsep)[1]? = some auth ∧
        Text.fromUtf8 auth = some (bearer ++ token) ∧ token ≠ [] ∧
        readExtensions ((message.splitOn kvsep).drop 2) = .ok extensions := by
  simp only [parseOauthbearerToken, except_bind_eq_ok, okOr_eq_ok]
  constructor
  · rintro ⟨gs2, hgs2, h⟩
    split at h
    · cases h
    · rename_i hheader
      obtain ⟨auth, hauth, h⟩ := except_bind_eq_ok.mp h
      obtain ⟨text, htext, h⟩ := except_bind_eq_ok.mp h
      obtain ⟨found, hfound, h⟩ := except_bind_eq_ok.mp h
      split at h
      · cases h
      · obtain ⟨read, hread, ⟨⟩⟩ := except_bind_eq_ok.mp h
        rename_i hne
        rw [okOr_eq_ok, stripPrefix_eq_some] at hfound
        rw [okOr_eq_ok, ← hfound] at htext
        exact ⟨gs2, auth, hgs2, by simpa using hheader, okOr_eq_ok.mp hauth, htext,
          fun hnil => hne (List.isEmpty_iff.mpr hnil), hread⟩
  · rintro ⟨gs2, auth, hgs2, hheader, hauth, htext, hne, hread⟩
    refine ⟨gs2, hgs2, ?_⟩
    rw [hheader, hauth]
    refine except_bind_eq_ok.mpr ⟨auth, rfl, except_bind_eq_ok.mpr ⟨_, okOr_eq_ok.mpr htext,
      except_bind_eq_ok.mpr ⟨token, okOr_eq_ok.mpr (stripPrefix_eq_some.mpr rfl), ?_⟩⟩⟩
    rw [if_neg fun hempty => hne (List.isEmpty_iff.mp hempty), hread]
    rfl

theorem parseOauthbearerToken_message (h : ¬ Refused token extensions) :
    parseOauthbearerToken (oauthbearerMessage token extensions) = .ok (token, extensions) := by
  obtain ⟨hne, _, hextensions⟩ := not_refused_iff.mp h
  rw [parseOauthbearerToken_eq_ok, splitOn_message h]
  exact ⟨_, _, rfl, rfl, rfl, Text.fromUtf8_utf8 _, hne,
    readExtensions_texts fun extension hmem => (hextensions extension hmem).2.2⟩

/-- What any message is read as could have been built. -/
theorem not_refused_of_parse {message : Bytes}
    (h : parseOauthbearerToken message = .ok (token, extensions)) :
    ¬ Refused token extensions := by
  have hpieces : ∀ part ∈ message.splitOn kvsep, kvsep ∉ part := fun _ =>
    not_mem_of_mem_splitOn
  obtain ⟨_, auth, _, _, hauth, htext, hne, hread⟩ := parseOauthbearerToken_eq_ok.mp h
  have hsep : kvsep ∉ Text.utf8 (bearer ++ token) := by
    rw [Text.utf8_of_fromUtf8 htext]
    exact hpieces auth (List.mem_of_getElem? hauth)
  rw [Text.utf8_append, List.mem_append, not_or] at hsep
  exact not_refused_iff.mpr ⟨hne, hsep.2,
    readExtensions_carries (fun part hmem => hpieces part (List.mem_of_mem_drop hmem)) hread⟩

end Reads

/-- The builder refuses exactly the tokens and extensions that no message could
carry; everything else it writes, and what it writes is read back as it was. -/
theorem oauthbearerToken_exact (token : Text) (extensions : List (Text × Text)) :
    (Refused token extensions ↔ ∃ error, oauthbearerToken token extensions = .error error) ∧
      (Refused token extensions ↔
        ∀ message, parseOauthbearerToken message ≠ .ok (token, extensions)) ∧
      (Refused token extensions ↔
        parseOauthbearerToken (oauthbearerMessage token extensions) ≠ .ok (token, extensions)) ∧
      (¬ Refused token extensions ↔ ∃ message, oauthbearerToken token extensions = .ok message ∧
        parseOauthbearerToken message = .ok (token, extensions)) := by
  by_cases h : Refused token extensions
  · have hnone : ∀ message, parseOauthbearerToken message ≠ .ok (token, extensions) :=
      fun message hparse => not_refused_of_parse hparse h
    have hbuild : ∃ error, oauthbearerToken token extensions = .error error := by
      cases hresult : oauthbearerToken token extensions with
      | error error => exact ⟨error, rfl⟩
      | ok message => exact absurd h (oauthbearerToken_eq_ok.mp hresult).1
    exact ⟨iff_of_true h hbuild, iff_of_true h hnone, iff_of_true h (hnone _),
      iff_of_false (not_not_intro h) fun ⟨message, _, hparse⟩ => hnone message hparse⟩
  · have hbuild := oauthbearerToken_eq_ok.mpr ⟨h, rfl⟩
    have hparse := parseOauthbearerToken_message h
    refine ⟨iff_of_false h ?_, iff_of_false h fun hnone => hnone _ hparse,
      iff_of_false h fun hnone => hnone hparse, iff_of_true h ⟨_, hbuild, hparse⟩⟩
    rintro ⟨error, herror⟩
    rw [hbuild] at herror
    cases herror

/-- A value may hold an `=`, and a key or a value may be empty. -/
example : (oauthbearerToken "tok".toList [("a".toList, "1=2".toList), ([], [])]).bind
    parseOauthbearerToken = .ok ("tok".toList, [("a".toList, "1=2".toList), ([], [])]) := by
  rfl

end Odradek.Sasl
