import Odradek.Client.Consumer
import Odradek.Protocol.ApiVersionsRoundTrip
import Odradek.Protocol.Header

/-!
The first exchange on a connection (`negotiate.rs`). An answer is read at the
version that was asked for and, when that leaves bytes over or fails, at version
0: a broker that does not know the version answers at 0. The two layouts are
never taken for one another while the list of ranges is shorter than 2^24.
-/

namespace Odradek.Client

open Library Library.Decoder Odradek.Protocol

/-- `Connection::request` for ApiVersions: a version and a body in, the
response's body out. -/
abbrev ApiVersionsExchange := Int16 → Bytes → Except ClientError Bytes

/-- `ApiVersionRanges`; a later entry of a key replaces an earlier one. -/
structure ApiVersionRanges where
  ranges : List (Int16 × Int16 × Int16)
  deriving DecidableEq

namespace ApiVersionRanges

def fromResponse (response : ApiVersionsResponse) : ApiVersionRanges :=
  { ranges := response.apiKeys.map fun v => (v.apiKey, v.minVersion, v.maxVersion) }

def range (ranges : ApiVersionRanges) (apiKey : Int16) : Option (Int16 × Int16) :=
  (ranges.ranges.reverse.find? fun entry => entry.1 = apiKey).map (·.2)

def pick (ranges : ApiVersionRanges) (apiKey : Int16) (ours : Int16 × Int16) :
    Except ClientError Int16 :=
  match ranges.range apiKey with
  | none => .error (.noCommonVersion apiKey)
  | some (theirMin, theirMax) =>
    let version := if ours.2 ≤ theirMax then ours.2 else theirMax
    let lowest := if theirMin ≤ ours.1 then ours.1 else theirMin
    if version ≥ lowest then .ok version else .error (.noCommonVersion apiKey)

end ApiVersionRanges

/-- The end of `api_versions_at`: which version a body was written at. -/
def readApiVersions (version : Int16) (body : Bytes) : Fetch ApiVersionsResponse :=
  match runDecode .default (ApiVersionsResponse.decode version) body with
  | .ok (response, []) => .ok response
  | .error .panic => .error .panic
  | _ => (liftDecode (runDecode .default (ApiVersionsResponse.decode 0) body)).map (·.1)

def apiVersionsAt (exchange : ApiVersionsExchange) (request : ApiVersionsRequest)
  (version : Int16) :
    Fetch ApiVersionsResponse := do
  let body ← liftClient (liftEncode (request.encode version))
  let answer ← liftClient (exchange version body)
  readApiVersions version answer

def negotiate (exchange : ApiVersionsExchange) (clientVersion : String) :
  Fetch ApiVersionRanges := do
  let request : ApiVersionsRequest :=
    { clientSoftwareName := "odradek", clientSoftwareVersion := clientVersion }
  let response ← apiVersionsAt exchange request ApiVersionsRequest.maxVersion
  let code : ErrorCode := ⟨response.errorCode⟩
  if code.isOk then pure (.fromResponse response)
  else if code ≠ .unsupportedVersion then .error (.error (.broker code))
  else
    let version ← liftClient ((ApiVersionRanges.fromResponse response).pick apiVersionsKey
      (ApiVersionsRequest.minVersion, ApiVersionsRequest.maxVersion))
    let response ← apiVersionsAt exchange request version
    let code : ErrorCode := ⟨response.errorCode⟩
    if code.isOk then pure (.fromResponse response) else .error (.error (.broker code))

section Exact

variable {version written : Int16} {response : ApiVersionsResponse} {body : Bytes}

/-- The default budget covers the decode of a response from a body this long. -/
def FitsBudget (version : Int16) (response : ApiVersionsResponse) (length : Nat) : Prop :=
  peak 0 (response.charges version) ≤ Limits.default.allocBytesFor length

theorem runDecode_fits {α : Type} {d : Decode α} {a : α} {cs : List Charge}
    (h : Decodes Ledger.charge d body a cs)
    (hfits : peak 0 cs ≤ Limits.default.allocBytesFor body.length) :
    runDecode .default d body = .ok (a, []) := by
  have hbytes := List.append_nil body
  have hrun := runDecode_decodes (h []) (by rwa [hbytes])
  rwa [hbytes] at hrun

/-- A body is read back at its own version. -/
theorem runDecode_written (hwf : (response.carried version).WellFormed)
    (hbody : response.encode version = .ok body) (hsize : body.length ≤ i64Max)
    (hfits : FitsBudget version (response.carried version) body.length) :
    runDecode .default (ApiVersionsResponse.decode version) body =
      .ok (response.carried version, []) :=
  runDecode_fits (ApiVersionsResponse.decode_decodes hbody hsize hwf) hfits

/-- A refused charge is an error, never a panic. -/
theorem charge_error {c : Charge} {ledger : Ledger} {e : Halt}
    (h : Ledger.charge c ledger = .error e) : ∃ error, e = .error error := by
  cases c with
  | item => cases h
  | grow oldBytes newBytes =>
      rw [Ledger.charge] at h
      cases hgrow : ledger.budget.grow oldBytes newBytes with
      | ok budget =>
          rw [hgrow] at h
          cases h
      | error error =>
          rw [hgrow] at h
          cases h
          exact ⟨error, rfl⟩

theorem spend_error {cs : List Charge} {ledger : Ledger} {e : Halt}
    (h : spend Ledger.charge cs ledger = .error e) : ∃ error, e = .error error := by
  induction cs generalizing ledger with
  | nil => cases h
  | cons c cs ih =>
      rw [spend] at h
      cases hcharge : Ledger.charge c ledger with
      | ok ledger' =>
          rw [hcharge] at h
          exact ih h
      | error e' =>
          rw [hcharge] at h
          cases h
          exact charge_error hcharge

/-- A classic length below 2^24 begins with a zero byte. -/
theorem putI32_short {n : Nat} (h : n < 2 ^ 24) : ∃ rest, putI32 (Int32.ofNat n) = 0 :: rest := by
  have hvalue : (Int32.ofNat n).toBitVec.toNat = n :=
    Nat.mod_eq_of_lt (show n < 2 ^ 32 by omega)
  refine ⟨toBigEndian 3 n, ?_⟩
  rw [putI32, toBigEndian, hvalue, Nat.div_eq_of_lt (by omega)]
  rfl

theorem getCompactArrayLen_zero (rest : Bytes) (ledger : Ledger) :
    getCompactArrayLen ⟨0 :: rest, ledger⟩ = .ok none ⟨rest, ledger⟩ := by
  have hread := getUnsignedVarint_reads (show 0 < 2 ^ 64 by decide)
  have hzero : getUnsignedVarint ⟨0 :: rest, ledger⟩ = .ok 0 ⟨rest, ledger⟩ :=
    (hread rest ledger).1 ledger rfl
  rw [getCompactArrayLen, bind_apply, hzero]
  rfl

/-- What asks for more than was written fails, whatever was charged before. -/
theorem fails_behind {α β : Type} {d : Decode α} {f : α → Decode β} {a : α}
    {cs : List Charge} (h : Decodes Ledger.charge d body a cs)
    (hf : ∀ ledger, ∃ error t, f a ⟨[], ledger⟩ = .error (.error error) t) (ledger : Ledger) :
    ∃ error t, (d >>= f) ⟨body, ledger⟩ = .error (.error error) t := by
  obtain ⟨hok, herror⟩ := h [] ledger
  rw [List.append_nil] at hok herror
  rw [bind_apply]
  cases hspend : spend Ledger.charge cs ledger with
  | ok ledger' =>
      rw [hok ledger' hspend]
      exact hf ledger'
  | error e =>
      obtain ⟨error, rfl⟩ := spend_error hspend
      obtain ⟨t, ht⟩ := herror _ hspend
      exact ⟨error, t, by rw [ht]⟩

/-- The compact layout reads a null array where a short classic one was written. -/
theorem decode_compact_fails (hflexible : apiVersionsFlexible version = true)
    (hkeys : response.apiKeys.length < 2 ^ 24) (hbody : response.encode 0 = .ok body)
    (ledger : Ledger) :
    ∃ error t, ApiVersionsResponse.decode version ⟨body, ledger⟩ = .error (.error error) t := by
  obtain ⟨keys, hput, hbody⟩ := except_bind_eq_ok.mp hbody
  obtain ⟨tagged, _, hbody⟩ := except_bind_eq_ok.mp hbody
  cases hbody
  obtain ⟨len, hlen, rfl, _⟩ := putFlexArray_ok hput
  obtain ⟨rest, hrest⟩ := putI32_short hkeys
  have hlen' : len = 0 :: rest := by
    have hle : ¬ i32Max < response.apiKeys.length := by
      unfold i32Max
      omega
    rw [← hrest]
    rw [show apiVersionsFlexible 0 = false from rfl] at hlen
    simp only [putFlexLen, Bool.false_eq_true, if_false, putArrayLen, if_neg hle] at hlen
    cases hlen
    rfl
  subst hlen'
  refine ⟨.invalidLength (-1), ?_⟩
  have hcode := fun suffix => (getI16_reads response.errorCode suffix ledger).1 ledger rfl
  simp only [ApiVersionsResponse.decode, bind_apply, hcode, getFlexArray, getFlexLen, hflexible,
    if_true, List.cons_append, getCompactArrayLen_zero, notNull]
  exact ⟨_, rfl⟩

theorem encode_classic (hflexible : apiVersionsFlexible version = false) (key : ApiVersion) :
    (key.carried 0).encode version = key.encode 0 := by
  have hzero : apiVersionsFlexible 0 = false := rfl
  simp [ApiVersion.encode, putUnknown, ApiVersion.carried, hflexible, hzero]

/-- The same layout asks for a throttle time behind the array. -/
theorem decode_classic_fails (hflexible : apiVersionsFlexible version = false)
    (hversion : version ≥ 1) (hbody : response.encode 0 = .ok body) (hsize : body.length ≤ i64Max)
    (ledger : Ledger) :
    ∃ error t, ApiVersionsResponse.decode version ⟨body, ledger⟩ = .error (.error error) t := by
  obtain ⟨keys, hput, hbody⟩ := except_bind_eq_ok.mp hbody
  obtain ⟨tagged, htagged, hbody⟩ := except_bind_eq_ok.mp hbody
  cases htagged
  cases hbody
  rw [if_neg (by decide), List.append_nil, List.append_nil] at *
  have hcopy : putFlexArray false (ApiVersion.encode version)
      (response.apiKeys.map (ApiVersion.carried 0)) = .ok keys := by
    rw [← hput, putFlexArray, putFlexArray, List.length_map,
      ApiVersionsResponse.putItems_map (encode_classic hflexible)]
    rfl
  have hread := getFlexArray_reads apiVersionSize hcopy
    (by simp only [List.length_append] at hsize; omega)
    (fun key _ _ hout => ApiVersion.encode_ne_nil hout) fun key hkey _ hout hshort => by
      obtain ⟨item, _, rfl⟩ := List.mem_map.mp hkey
      exact ApiVersion.decode_decodes hout hshort .nil
        (by simp [ApiVersion.carried, hflexible, show apiVersionsFlexible 0 = false from rfl])
  have hcode := (getI16_reads response.errorCode keys ledger).1 ledger rfl
  rw [ApiVersionsResponse.decode, bind_apply, hcode]
  simp only [hflexible, if_pos hversion]
  exact fails_behind hread (fun ledger => ⟨.truncated 4, _, rfl⟩) ledger

/-- A version-0 body never parses at a newer version. -/
theorem decode_newer_fails (hversion : version ≥ 1) (hkeys : response.apiKeys.length < 2 ^ 24)
    (hbody : response.encode 0 = .ok body) (hsize : body.length ≤ i64Max) :
    ∃ error, runDecode .default (ApiVersionsResponse.decode version) body =
      .error (.error error) := by
  obtain ⟨error, t, hfails⟩ : ∃ error t, ApiVersionsResponse.decode version
      ⟨body, { budget := Limits.default.budget body.length, decoded := 0 }⟩ =
        .error (.error error) t := by
    cases hflexible : apiVersionsFlexible version with
    | true => exact decode_compact_fails hflexible hkeys hbody _
    | false => exact decode_classic_fails hflexible hversion hbody hsize _
  exact ⟨error, by rw [runDecode, hfails]⟩

/-- A body that an ApiVersions request at this version is answered with: the
response, or an `UNSUPPORTED_VERSION` response at version 0. -/
structure AnswerBody (version written : Int16) (response : ApiVersionsResponse) (body : Bytes) :
    Prop where
  writtenAt : written = version ∨
    written = 0 ∧ response.errorCode = ErrorCode.unsupportedVersion.code
  short : response.apiKeys.length < 2 ^ 24
  wellFormed : (response.carried written).WellFormed
  encoded : response.encode written = .ok body
  size : body.length ≤ i64Max
  fits : FitsBudget written (response.carried written) body.length

/-- An answer is read at the version it was written at. -/
theorem readApiVersions_answer (hversion : ApiVersionsRequest.minVersion ≤ version)
    (h : AnswerBody version written response body) :
    readApiVersions version body = .ok (response.carried written) := by
  have hown := runDecode_written h.wellFormed h.encoded h.size h.fits
  by_cases hsame : written = version
  · subst hsame
    rw [readApiVersions, hown]
  · obtain ⟨rfl, _⟩ := h.writtenAt.resolve_left hsame
    have hnewer : 0 < version := Int16.lt_of_le_of_ne hversion hsame
    obtain ⟨error, hfails⟩ := decode_newer_fails hnewer h.short h.encoded h.size
    rw [readApiVersions, hfails, hown]
    rfl

theorem apiVersionsAt_eq {exchange : ApiVersionsExchange} {request : ApiVersionsRequest}
    {sent : Bytes} (hsent : request.encode version = .ok sent)
    (hanswer : exchange version sent = .ok body) :
    apiVersionsAt exchange request version = readApiVersions version body := by
  rw [apiVersionsAt, hsent]
  show (liftClient (exchange version sent) >>= readApiVersions version) = _
  rw [hanswer]
  rfl

/-- Every answer of a broker is read back as it was written, at the version that
was asked for or, from a broker that does not know it, at version 0. -/
theorem apiVersionsAt_exact {exchange : ApiVersionsExchange} {request : ApiVersionsRequest}
    {sent : Bytes}
    (hversion : ApiVersionsRequest.minVersion ≤ version ∧ version ≤ ApiVersionsRequest.maxVersion)
    (hbody : AnswerBody version written response body)
    (hsent : request.encode version = .ok sent) (hanswer : exchange version sent = .ok body) :
    apiVersionsAt exchange request version = .ok (response.carried written) := by
  rw [apiVersionsAt_eq hsent hanswer]
  exact readApiVersions_answer hversion.1 hbody

def sampleRefusal : ApiVersionsResponse :=
  { errorCode := 35, apiKeys := [{ apiKey := 18, maxVersion := 2 }] }

def sampleAnswer : ApiVersionsResponse :=
  { apiKeys :=
    [{ apiKey := 18, maxVersion := 4 }, { apiKey := 3, minVersion := 1, maxVersion := 9 }]
    throttleTimeMs := 7
    supportedFeatures := some [{ name := "kraft.version", maxVersion := 1 }]
    zkMigrationReady := some false
    unknownTaggedFields := [⟨9, [1, 2]⟩] }

def bodyOf (written : Int16) (response : ApiVersionsResponse) : Bytes :=
  match response.encode written with
  | .ok body => body
  | .error _ => []

/-- A refusal at version 0 of a request at 4, and an answer at 3 with features. -/
theorem apiVersionsAt_exact_both :
    apiVersionsAt (fun _ _ => .ok [0, 35, 0, 0, 0, 1, 0, 18, 0, 0, 0, 2]) {} 4 =
        .ok sampleRefusal ∧
      apiVersionsAt (fun _ _ => .ok (bodyOf 3 sampleAnswer)) {} 3 = .ok sampleAnswer := by
  have hrefusal : AnswerBody 4 0 sampleRefusal [0, 35, 0, 0, 0, 1, 0, 18, 0, 0, 0, 2] :=
    ⟨.inr ⟨rfl, rfl⟩, by decide, .classic rfl _, by decide, by decide, by
      unfold FitsBudget
      decide⟩
  have hwf : sampleAnswer.WellFormed := by
    refine ⟨?_, ?_, fun _ hnone => (by cases hnone), ⟨by decide, by decide⟩, by decide⟩
    · intro key hkey
      simp only [sampleAnswer, List.mem_cons, List.not_mem_nil, or_false] at hkey
      rcases hkey with rfl | rfl <;> exact .nil
    · rintro features ⟨⟩ feature hfeature
      rw [List.mem_singleton.mp hfeature]
      exact .nil
  have hanswer : AnswerBody 3 3 sampleAnswer (bodyOf 3 sampleAnswer) :=
    ⟨.inl rfl, by decide, hwf, by decide, by decide, by
      unfold FitsBudget
      decide⟩
  exact ⟨apiVersionsAt_exact (by decide) hrefusal rfl rfl,
    apiVersionsAt_exact (by decide) hanswer rfl rfl⟩

end Exact

section Negotiated

variable {exchange : ApiVersionsExchange} {version newest : Int16}
  {response answer refusal : ApiVersionsResponse}

theorem carried_errorCode : (response.carried version).errorCode = response.errorCode := by
  unfold ApiVersionsResponse.carried
  split <;> rfl

theorem fromResponse_carried :
    ApiVersionRanges.fromResponse (response.carried version) = .fromResponse response := by
  unfold ApiVersionsResponse.carried ApiVersionRanges.fromResponse
  split
  · rfl
  · simp only [List.map_map]
    congr 2
    funext item
    unfold ApiVersion.carried Function.comp
    split <;> rfl

theorem request_encode_ok (request : ApiVersionsRequest) (version : Int16) :
    ∃ sent, request.encode version = .ok sent := by
  unfold ApiVersionsRequest.encode
  by_cases hversion : version ≥ 3
  · simp only [if_pos hversion, apiVersionsFlexible_iff.mpr hversion]
    exact ⟨_, rfl⟩
  · simp only [if_neg hversion]
    exact ⟨_, rfl⟩

/-- A broker that knows ApiVersions up to some version, and says so when it is
asked at a newer one. -/
structure Negotiates (exchange : ApiVersionsExchange) (newest : Int16)
    (answer refusal : ApiVersionsResponse) : Prop where
  first : ApiVersionsRequest.minVersion ≤ newest
  accepts : answer.errorCode = 0
  refuses : refusal.errorCode = ErrorCode.unsupportedVersion.code
  advertises : (ApiVersionRanges.fromResponse refusal).range apiVersionsKey =
    some (ApiVersionsRequest.minVersion, newest)
  known : ∀ version, ApiVersionsRequest.minVersion ≤ version → version ≤ newest →
    ∃ body, AnswerBody version version answer body ∧ ∀ sent, exchange version sent = .ok body
  unknown : ∀ version, newest < version →
    ∃ body, AnswerBody version 0 refusal body ∧ ∀ sent, exchange version sent = .ok body

theorem Negotiates.at_known (h : Negotiates exchange newest answer refusal)
    (request : ApiVersionsRequest) (hmin : ApiVersionsRequest.minVersion ≤ version)
    (hknown : version ≤ newest) :
    apiVersionsAt exchange request version = .ok (answer.carried version) := by
  obtain ⟨body, hbody, hanswer⟩ := h.known version hmin hknown
  obtain ⟨sent, hsent⟩ := request_encode_ok request version
  rw [apiVersionsAt_eq hsent (hanswer sent), readApiVersions_answer hmin hbody]

theorem Negotiates.at_unknown (h : Negotiates exchange newest answer refusal)
    (request : ApiVersionsRequest) (hmin : ApiVersionsRequest.minVersion ≤ version)
    (hunknown : newest < version) :
    apiVersionsAt exchange request version = .ok (refusal.carried 0) := by
  obtain ⟨body, hbody, hanswer⟩ := h.unknown version hunknown
  obtain ⟨sent, hsent⟩ := request_encode_ok request version
  rw [apiVersionsAt_eq hsent (hanswer sent), readApiVersions_answer hmin hbody]

/-- The version that is asked at next is the newest both know. -/
theorem Negotiates.pick (h : Negotiates exchange newest answer refusal)
    (hunknown : newest < ApiVersionsRequest.maxVersion) :
    (ApiVersionRanges.fromResponse refusal).pick apiVersionsKey
      (ApiVersionsRequest.minVersion, ApiVersionsRequest.maxVersion) = .ok newest := by
  unfold ApiVersionRanges.pick
  rw [h.advertises]
  simp only [if_neg (Int16.not_le.mpr hunknown), if_pos (Int16.le_refl _)]
  exact if_pos h.first

/-- A client ends with the ranges of any broker, old or new. -/
theorem negotiate_ranges (h : Negotiates exchange newest answer refusal) (clientVersion : String) :
    negotiate exchange clientVersion = .ok (.fromResponse answer) := by
  unfold negotiate
  dsimp only
  by_cases hknown : ApiVersionsRequest.maxVersion ≤ newest
  · rw [h.at_known _ (by decide) hknown]
    show (if ErrorCode.isOk ⟨(answer.carried _).errorCode⟩ then _ else _) = _
    rw [carried_errorCode, h.accepts, fromResponse_carried]
    rfl
  · have hunknown := Int16.not_le.mp hknown
    rw [h.at_unknown _ (by decide) hunknown]
    show (if ErrorCode.isOk ⟨(refusal.carried 0).errorCode⟩ then _ else
      if (⟨(refusal.carried 0).errorCode⟩ : ErrorCode) ≠ .unsupportedVersion then _ else
        (liftClient ((ApiVersionRanges.fromResponse (refusal.carried 0)).pick _ _) >>= _)) = _
    rw [carried_errorCode, fromResponse_carried, h.refuses, h.pick hunknown,
      if_neg (by decide), if_neg (fun hne => hne rfl)]
    show (apiVersionsAt exchange _ newest >>= _) = _
    rw [h.at_known _ h.first (Int16.le_refl _)]
    show (if ErrorCode.isOk ⟨(answer.carried _).errorCode⟩ then _ else _) = _
    rw [carried_errorCode, h.accepts, fromResponse_carried]
    rfl

end Negotiated

end Odradek.Client
