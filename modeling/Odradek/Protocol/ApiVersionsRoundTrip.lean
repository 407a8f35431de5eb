import Odradek.Protocol.ApiVersions
import Odradek.Protocol.KnownTags

/-!
An ApiVersions response reads back at the version it was written at, as far as
that version carries it, and is charged for its arrays and its tagged fields.
-/

namespace Odradek.Protocol

open Library Library.Decoder

section Parts

variable {version : Int16} {bytes : Bytes}

def unknownCharges (version : Int16) (fields : List RawTaggedField) : List Charge :=
  if apiVersionsFlexible version then sectionCharges fields else []

theorem getUnknown_decodes (version : Int16) {fields : List RawTaggedField}
    (hfields : Orderly fields)
    (hsize : (putUnknown version fields).length ≤ i64Max)
    (hcarried : apiVersionsFlexible version = false → fields = []) :
    Decodes Ledger.charge (getUnknown version) (putUnknown version fields) fields
      (unknownCharges version fields) := by
  unfold getUnknown putUnknown unknownCharges at *
  cases hflexible : apiVersionsFlexible version with
  | true =>
      rw [hflexible, if_pos rfl] at hsize
      exact getTaggedFields_orderly hfields hsize
  | false =>
      rw [hcarried hflexible]
      exact .pure

/-- An entry without what the version does not carry. -/
def ApiVersion.carried (version : Int16) (item : ApiVersion) : ApiVersion :=
  if apiVersionsFlexible version then item else { item with unknownTaggedFields := [] }

theorem ApiVersion.encode_carried (version : Int16) (item : ApiVersion) :
    (item.carried version).encode version = item.encode version := by
  unfold ApiVersion.carried
  cases hflexible : apiVersionsFlexible version with
  | true => rfl
  | false => simp [ApiVersion.encode, putUnknown, hflexible]

def ApiVersion.charges (version : Int16) (item : ApiVersion) : List Charge :=
  unknownCharges version item.unknownTaggedFields

theorem length_putI16 (value : Int16) : (putI16 value).length = 2 := rfl

theorem ApiVersion.decode_decodes {item : ApiVersion} (h : item.encode version = .ok bytes)
    (hsize : bytes.length ≤ i64Max) (horderly : Orderly item.unknownTaggedFields)
    (hcarried : item.carried version = item) :
    Decodes Ledger.charge (progressing (ApiVersion.decode version)) bytes item
      (item.charges version) := by
  cases h
  have hnone : apiVersionsFlexible version = false → item.unknownTaggedFields = [] := by
    intro hflexible
    rw [← hcarried, ApiVersion.carried, hflexible]
    rfl
  have hunknown := getUnknown_decodes version horderly
    (by simp only [List.length_append] at hsize; omega) hnone
  refine progressing_decodes ((getI16_reads _).bind_free ((getI16_reads _).bind_free
    ((getI16_reads _).bind_free (hunknown.bind_pure fun fields =>
      ({ item with unknownTaggedFields := fields } : ApiVersion))))) ?_
  refine List.ne_nil_of_length_pos ?_
  simp only [List.length_append, length_putI16]
  omega

theorem apiVersionsFlexible_iff : apiVersionsFlexible version = true ↔ version ≥ 3 :=
  decide_eq_true_iff

/-- A feature of a flexible version. -/
theorem getFeature_decodes {α : Type} {name : String} {first second : Int16}
    {unknown : List RawTaggedField} (make : String → Int16 → Int16 → List RawTaggedField → α)
    (hversion : version ≥ 3) (h : putFeature version name first second unknown = .ok bytes)
    (hsize : bytes.length ≤ i64Max) (horderly : Orderly unknown) :
    Decodes Ledger.charge (progressing (getFeature version make)) bytes
      (make name first second unknown) (unknownCharges version unknown) := by
  have hflexible := apiVersionsFlexible_iff.mpr hversion
  unfold putFeature at h
  simp only [if_pos hversion] at h
  obtain ⟨nameBytes, hname, h⟩ := except_bind_eq_ok.mp h
  cases h
  simp only [List.length_append, length_putI16] at hsize
  have hshort : (utf8 name).length < i64Max := by
    rw [hflexible] at hname
    cases hname
    have := length_putUnsignedVarint_pos ((utf8 name).length + 1)
    simp only [putCompactString, List.length_append] at hsize
    omega
  have hunknown := getUnknown_decodes version horderly (by omega)
    fun hfalse => absurd (hflexible.symm.trans hfalse) Bool.noConfusion
  unfold getFeature
  simp only [if_pos hversion]
  refine progressing_decodes ((getFlexString_reads hname hshort).bind_free
    ((getI16_reads _).bind_free ((getI16_reads _).bind_free
      (hunknown.bind_pure (make name first second))))) ?_
  refine List.ne_nil_of_length_pos ?_
  simp only [List.length_append, length_putI16]
  omega

theorem ApiVersion.encode_ne_nil {item : ApiVersion} (h : item.encode version = .ok bytes) :
    bytes ≠ [] := by
  cases h
  exact List.ne_nil_of_length_pos (by simp only [List.length_append, length_putI16]; omega)

theorem putFeature_ne_nil {name : String} {first second : Int16} {unknown : List RawTaggedField}
    (hversion : version ≥ 3) (h : putFeature version name first second unknown = .ok bytes) :
    bytes ≠ [] := by
  unfold putFeature at h
  simp only [if_pos hversion] at h
  obtain ⟨nameBytes, _, h⟩ := except_bind_eq_ok.mp h
  cases h
  exact List.ne_nil_of_length_pos (by simp only [List.length_append, length_putI16]; omega)

theorem putFlexLen_pos {flexible : Bool} {len : Option Nat}
    (h : putFlexLen flexible len = .ok bytes) : 0 < bytes.length := by
  cases flexible with
  | true =>
      cases h
      cases len <;> exact length_putUnsignedVarint_pos _
  | false =>
      cases len with
      | none =>
          cases h
          decide
      | some n =>
          simp only [putFlexLen, Bool.false_eq_true, if_false, putArrayLen] at h
          split at h
          · cases h
          · cases h
            exact Nat.succ_pos _

/-- An array whose elements read back reads back, when it fits a buffer. -/
theorem getFlexArray_reads {α : Type} {flexible : Bool} (elem : Nat) {item : Decode α}
    {put : α → Except EncodeError Bytes} {items : List α} {charges : α → List Charge}
    (h : putFlexArray flexible put items = .ok bytes) (hsize : bytes.length ≤ i64Max)
    (hne : ∀ a ∈ items, ∀ out, put a = .ok out → out ≠ [])
    (hitem : ∀ a ∈ items, ∀ out, put a = .ok out → out.length ≤ i64Max →
      Decodes Ledger.charge item out a (charges a)) :
    Decodes Ledger.charge (getFlexArray flexible elem item) bytes items
      (itemsCharges elem charges items 0) := by
  obtain ⟨len, hlen, rfl, hall⟩ := putFlexArray_ok h
  have hpos := putFlexLen_pos hlen
  have hcount := length_le_flatMap fun a ha => hne a ha _ (hall a ha)
  rw [List.length_append] at hsize
  refine getFlexArray_decodes elem h (by omega) fun a ha out hout => hitem a ha out hout ?_
  have hflat := le_length_flatMap (f := written put) ha
  rw [written_eq hout] at hflat
  omega

end Parts

section Response

variable {version : Int16} {bytes : Bytes}

namespace ApiVersionsResponse

/-- A response without what the version does not carry. -/
def carried (version : Int16) (response : ApiVersionsResponse) : ApiVersionsResponse :=
  if apiVersionsFlexible version then response
  else
    { errorCode := response.errorCode
      apiKeys := response.apiKeys.map (ApiVersion.carried version)
      throttleTimeMs := if version ≥ 1 then response.throttleTimeMs else 0 }

/-- Tagged sections that may be written, with no unknown tag among the known. -/
structure WellFormed (response : ApiVersionsResponse) : Prop where
  keys : ∀ key ∈ response.apiKeys, Orderly key.unknownTaggedFields
  supported : ∀ features, response.supportedFeatures = some features →
    ∀ feature ∈ features, Orderly feature.unknownTaggedFields
  finalized : ∀ features, response.finalizedFeatures = some features →
    ∀ feature ∈ features, Orderly feature.unknownTaggedFields
  unknown : Orderly response.unknownTaggedFields
  disjoint : ∀ field ∈ response.unknownTaggedFields, 3 < field.tag

def allTagged (version : Int16) (response : ApiVersionsResponse) : List RawTaggedField :=
  match response.taggedFields version with
  | .ok fields => sortByTag fields
  | .error _ => []

def knownCharges (version : Int16) (response : ApiVersionsResponse) : List Charge :=
  (response.supportedFeatures.toList.flatMap fun features =>
      itemsCharges featureKeySize (fun feature : SupportedFeatureKey =>
        unknownCharges version feature.unknownTaggedFields) features 0) ++
    (response.finalizedFeatures.toList.flatMap fun features =>
      itemsCharges featureKeySize (fun feature : FinalizedFeatureKey =>
        unknownCharges version feature.unknownTaggedFields) features 0)

def charges (version : Int16) (response : ApiVersionsResponse) : List Charge :=
  itemsCharges apiVersionSize (ApiVersion.charges version) response.apiKeys 0 ++
    if apiVersionsFlexible version then
      sectionCharges (response.allTagged version) ++
        (response.knownCharges version ++ sectionCharges response.unknownTaggedFields)
    else []

theorem putItems_map {α : Type} {put put' : α → Except EncodeError Bytes} {g : α → α}
    (h : ∀ a, put' (g a) = put a) (items : List α) :
    putItems put' (items.map g) = putItems put items := by
  induction items with
  | nil => rfl
  | cons a items ih => rw [List.map_cons, putItems, putItems, h, ih]

theorem encode_carried (version : Int16) (response : ApiVersionsResponse) :
    (response.carried version).encode version = response.encode version := by
  unfold carried
  cases hflexible : apiVersionsFlexible version with
  | true => rfl
  | false =>
      have hitems := putItems_map (ApiVersion.encode_carried version) response.apiKeys
      simp only [encode, putTagged, putFlexArray, hflexible, Bool.false_eq_true, if_false, hitems,
        List.length_map]
      by_cases hthrottle : version ≥ 1
      · simp only [if_pos hthrottle]
      · simp only [if_neg hthrottle]

theorem carried_carried (version : Int16) (response : ApiVersionsResponse) :
    (response.carried version).carried version = response.carried version := by
  unfold carried
  cases hflexible : apiVersionsFlexible version with
  | true => rfl
  | false =>
      have hitem : ApiVersion.carried version ∘ ApiVersion.carried version =
          ApiVersion.carried version := by
        funext item
        simp [ApiVersion.carried, hflexible]
      simp only [Bool.false_eq_true, if_false, List.map_map, hitem]
      by_cases hthrottle : version ≥ 1
      · simp only [if_pos hthrottle]
      · simp only [if_neg hthrottle]

/-- A classic version has no tagged section. -/
theorem WellFormed.classic (hflexible : apiVersionsFlexible version = false)
    (response : ApiVersionsResponse) : (response.carried version).WellFormed := by
  unfold ApiVersionsResponse.carried
  rw [hflexible]
  refine ⟨?_, fun _ hnone => (by cases hnone), fun _ hnone => (by cases hnone), .nil,
    fun _ hmem => absurd hmem List.not_mem_nil⟩
  intro key hkey
  obtain ⟨item, _, rfl⟩ := List.mem_map.mp hkey
  rw [ApiVersion.carried, hflexible]
  exact .nil

section Tagged

variable {α : Type} {tag : Nat} {value : Option α} {fields rest : List RawTaggedField}
  {response final : ApiVersionsResponse} {unknown : Vec RawTaggedField}
  {ds : List Charge}

/-- The turn of a known field that may be absent. -/
theorem takeAllTagged_known (d : Decode α) (set : α → ApiVersionsResponse)
    (charged : α → List Charge) (next : ApiVersionsResponse) {data : α → Bytes}
    (hfields : fields = value.toList.map fun a => { tag, data := data a })
    (hread : ∀ a, value = some a → Decodes Ledger.charge d (data a) a (charged a))
    (hturn : ∀ raw : RawTaggedField, raw.tag = tag → response.takeTagged version unknown raw =
      getKnown d raw.data >>= fun a => pure (set a, unknown))
    (hnone : value = none → next = response) (hsome : ∀ a, value = some a → next = set a)
    (hrest : Decodes Ledger.charge (next.takeAllTagged version unknown rest) [] final ds) :
    Decodes Ledger.charge (response.takeAllTagged version unknown (fields ++ rest)) [] final
      (value.toList.flatMap charged ++ ds) := by
  subst hfields
  cases value with
  | none =>
      rw [← hnone rfl]
      exact hrest
  | some a =>
      have hknown := (getKnown_decodes (hread a rfl)).bind_pure fun a => (set a, unknown)
      simp only [Option.toList_some, List.map_cons, List.map_nil, List.cons_append,
        List.nil_append, List.flatMap_cons, List.flatMap_nil, List.append_nil]
      rw [hsome a rfl] at hrest
      unfold takeAllTagged
      rw [hturn _ rfl]
      exact hknown.bind_unread hrest

theorem takeTagged_unknown {raw : RawTaggedField} (h : 3 < raw.tag) :
    response.takeTagged version unknown raw =
      push rawTaggedFieldSize unknown raw >>= fun unknown => pure (response, unknown) := by
  unfold takeTagged
  rw [if_neg (by omega), if_neg (by omega), if_neg (by omega), if_neg (by omega)]

/-- Unknown fields are pushed, one after the other. -/
theorem takeAllTagged_unknown (fields : List RawTaggedField) (hpushed : unknown.Pushed
    rawTaggedFieldSize) (htags : ∀ field ∈ fields, 3 < field.tag) :
    Decodes Ledger.charge (response.takeAllTagged version unknown fields) []
      { response with unknownTaggedFields := unknown.items ++ fields }
      (itemsCharges rawTaggedFieldSize (fun _ => []) fields unknown.items.length) := by
  induction fields generalizing unknown with
  | nil =>
      rw [List.append_nil]
      exact .pure
  | cons raw fields ih =>
      have hpushed' : (unknown.append rawTaggedFieldSize raw).Pushed rawTaggedFieldSize :=
        .append raw
      have hrest := ih hpushed' fun field h => htags field (List.mem_cons_of_mem _ h)
      have hitems : (unknown.append rawTaggedFieldSize raw).items = unknown.items ++ [raw] := rfl
      rw [hitems, List.append_assoc, List.singleton_append, List.length_append] at hrest
      have hpush := (push_decodes hpushed raw).bind_pure fun unknown => (response, unknown)
      unfold takeAllTagged
      rw [takeTagged_unknown (htags raw List.mem_cons_self)]
      exact hpush.bind_unread hrest

section Turns

theorem takeAllTagged_supported {value : Option (List SupportedFeatureKey)}
    {data : List SupportedFeatureKey → Bytes} {charged : List SupportedFeatureKey → List Charge}
    (hversion : version ≥ 3)
    (hfields : fields = value.toList.map fun a => { tag := 0, data := data a })
    (hread : ∀ a, value = some a → Decodes Ledger.charge (getFlexArray true featureKeySize
      (progressing (SupportedFeatureKey.decode version))) (data a) a (charged a))
    (habsent : response.supportedFeatures = none)
    (hrest : Decodes Ledger.charge
      (({ response with supportedFeatures := value } : ApiVersionsResponse).takeAllTagged version
        unknown rest) [] final ds) :
    Decodes Ledger.charge (response.takeAllTagged version unknown (fields ++ rest)) [] final
      (value.toList.flatMap charged ++ ds) := by
  refine takeAllTagged_known _ (fun a => { response with supportedFeatures := some a }) charged
    _ hfields hread ?_ ?_ ?_ hrest
  · intro raw htag
    unfold takeTagged
    rw [if_pos ⟨htag, hversion⟩, apiVersionsFlexible_iff.mpr hversion]
  · rintro rfl
    rw [← habsent]
  · rintro a rfl
    rfl

theorem takeAllTagged_epoch {value : Option Int64} (hversion : version ≥ 3)
    (hfields : fields = value.toList.map fun a =>
      { tag := 1, data := written (fun epoch => .ok (putI64 epoch)) a })
    (habsent : response.finalizedFeaturesEpoch = none)
    (hrest : Decodes Ledger.charge
      (({ response with finalizedFeaturesEpoch := value } : ApiVersionsResponse).takeAllTagged
        version unknown rest) [] final ds) :
    Decodes Ledger.charge (response.takeAllTagged version unknown (fields ++ rest)) [] final
      ds := by
  have hfree : value.toList.flatMap (fun _ => ([] : List Charge)) = [] := by cases value <;> rfl
  rw [← List.nil_append ds, ← hfree]
  refine takeAllTagged_known _ (fun a => { response with finalizedFeaturesEpoch := some a })
    (fun _ => []) _ hfields (fun a _ => getI64_reads a) ?_ ?_ ?_ hrest
  · intro raw htag
    unfold takeTagged
    rw [if_neg (by omega), if_pos ⟨htag, hversion⟩]
  · rintro rfl
    rw [← habsent]
  · rintro a rfl
    rfl

theorem takeAllTagged_finalized {value : Option (List FinalizedFeatureKey)}
    {data : List FinalizedFeatureKey → Bytes} {charged : List FinalizedFeatureKey → List Charge}
    (hversion : version ≥ 3)
    (hfields : fields = value.toList.map fun a => { tag := 2, data := data a })
    (hread : ∀ a, value = some a → Decodes Ledger.charge (getFlexArray true featureKeySize
      (progressing (FinalizedFeatureKey.decode version))) (data a) a (charged a))
    (habsent : response.finalizedFeatures = none)
    (hrest : Decodes Ledger.charge
      (({ response with finalizedFeatures := value } : ApiVersionsResponse).takeAllTagged version
        unknown rest) [] final ds) :
    Decodes Ledger.charge (response.takeAllTagged version unknown (fields ++ rest)) [] final
      (value.toList.flatMap charged ++ ds) := by
  refine takeAllTagged_known _ (fun a => { response with finalizedFeatures := some a }) charged
    _ hfields hread ?_ ?_ ?_ hrest
  · intro raw htag
    unfold takeTagged
    rw [if_neg (by omega), if_neg (by omega), if_pos ⟨htag, hversion⟩,
      apiVersionsFlexible_iff.mpr hversion]
  · rintro rfl
    rw [← habsent]
  · rintro a rfl
    rfl

theorem takeAllTagged_ready {value : Option Bool} (hversion : version ≥ 3)
    (hfields : fields = value.toList.map fun a =>
      { tag := 3, data := written (fun ready => .ok (putBool ready)) a })
    (habsent : response.zkMigrationReady = none)
    (hrest : Decodes Ledger.charge
      (({ response with zkMigrationReady := value } : ApiVersionsResponse).takeAllTagged
        version unknown rest) [] final ds) :
    Decodes Ledger.charge (response.takeAllTagged version unknown (fields ++ rest)) [] final
      ds := by
  have hfree : value.toList.flatMap (fun _ => ([] : List Charge)) = [] := by cases value <;> rfl
  rw [← List.nil_append ds, ← hfree]
  refine takeAllTagged_known _ (fun a => { response with zkMigrationReady := some a })
    (fun _ => []) _ hfields (fun a _ => getBool_reads a) ?_ ?_ ?_ hrest
  · intro raw htag
    unfold takeTagged
    rw [if_neg (by omega), if_neg (by omega), if_neg (by omega), if_pos ⟨htag, hversion⟩]
  · rintro rfl
    rw [← habsent]
  · rintro a rfl
    rfl

end Turns

end Tagged

/-- The known fields of a flexible version, in the order of their tags. -/
theorem taggedFields_ok {response : ApiVersionsResponse} {tagged : List RawTaggedField}
    (hversion : version ≥ 3) (h : response.taggedFields version = .ok tagged) :
    ∃ supported epoch finalized ready,
      putKnown 0 (putFlexArray true (SupportedFeatureKey.encode version))
        response.supportedFeatures = .ok supported ∧
      putKnown 1 (fun epoch => .ok (putI64 epoch)) response.finalizedFeaturesEpoch = .ok epoch ∧
      putKnown 2 (putFlexArray true (FinalizedFeatureKey.encode version))
        response.finalizedFeatures = .ok finalized ∧
      putKnown 3 (fun ready => .ok (putBool ready)) response.zkMigrationReady = .ok ready ∧
      tagged = response.unknownTaggedFields ++
        (supported ++ (epoch ++ (finalized ++ ready))) := by
  unfold taggedFields at h
  simp only [if_pos hversion, apiVersionsFlexible_iff.mpr hversion] at h
  obtain ⟨supported, hsupported, h⟩ := except_bind_eq_ok.mp h
  obtain ⟨epoch, hepoch, h⟩ := except_bind_eq_ok.mp h
  obtain ⟨finalized, hfinalized, h⟩ := except_bind_eq_ok.mp h
  obtain ⟨ready, hready, h⟩ := except_bind_eq_ok.mp h
  cases h
  exact ⟨supported, epoch, finalized, ready, hsupported, hepoch, hfinalized, hready, rfl⟩

/-- What a flexible response's tagged section holds is read back. -/
theorem takeAllTagged_decodes {response : ApiVersionsResponse} {tagged : List RawTaggedField}
    (hversion : version ≥ 3) (h : response.taggedFields version = .ok tagged)
    (hwf : response.WellFormed) (hsize : (putTaggedFields (sortByTag tagged)).length ≤ i64Max) :
    Decodes Ledger.charge
      (getTaggedFields >>= ({ errorCode := response.errorCode
                              apiKeys := response.apiKeys
                              throttleTimeMs := response.throttleTimeMs } :
        ApiVersionsResponse).takeAllTagged version (Vec.new rawTaggedFieldSize))
      (putTaggedFields (sortByTag tagged)) response
      (sectionCharges (response.allTagged version) ++
        (response.knownCharges version ++ sectionCharges response.unknownTaggedFields)) := by
  obtain ⟨supported, epoch, finalized, ready, hsupported, hepoch, hfinalized, hready, rfl⟩ :=
    taggedFields_ok hversion h
  obtain ⟨hsupportedEq, hsupportedPut⟩ := putKnown_ok hsupported
  obtain ⟨hepochEq, hepochPut⟩ := putKnown_ok hepoch
  obtain ⟨hfinalizedEq, hfinalizedPut⟩ := putKnown_ok hfinalized
  obtain ⟨hreadyEq, hreadyPut⟩ := putKnown_ok hready
  obtain ⟨h₃, habove₃⟩ := orderly_known hreadyEq (by decide) hwf.unknown hwf.disjoint
  obtain ⟨h₂, habove₂⟩ := orderly_known hfinalizedEq (by decide) h₃ habove₃
  obtain ⟨h₁, habove₁⟩ := orderly_known hepochEq (by decide) h₂ habove₂
  obtain ⟨h₀, _⟩ := orderly_known hsupportedEq (by decide) h₁ habove₁
  have hflexible := apiVersionsFlexible_iff.mpr hversion
  have hsorted : sortByTag (response.unknownTaggedFields ++
      (supported ++ (epoch ++ (finalized ++ ready)))) =
        supported ++ (epoch ++ (finalized ++ (ready ++ response.unknownTaggedFields))) := by
    rw [sortByTag_append (by simpa only [List.append_assoc] using h₀.ascending)]
    simp only [List.append_assoc]
  have hall : response.allTagged version =
      supported ++ (epoch ++ (finalized ++ (ready ++ response.unknownTaggedFields))) := by
    rw [allTagged, h]
    exact hsorted
  rw [hsorted] at hsize ⊢
  rw [hall]
  have hdata : ∀ field ∈ supported ++ (epoch ++ (finalized ++
      (ready ++ response.unknownTaggedFields))), field.data.length ≤ i64Max := fun field hmem =>
    Nat.le_of_lt (Nat.lt_of_lt_of_le (data_lt_putTaggedFields hmem) hsize)
  refine (getTaggedFields_orderly h₀ hsize).bind_read ?_
  rw [knownCharges, List.append_assoc]
  refine takeAllTagged_supported hversion hsupportedEq ?_ rfl ?_
  · intro features hfeatures
    refine getFlexArray_reads featureKeySize (hsupportedPut features hfeatures) (hdata ⟨0, _⟩ ?_)
      (fun _ _ _ hout => putFeature_ne_nil hversion hout) fun feature hmem _ hout hshort =>
        getFeature_decodes _ hversion hout hshort (hwf.supported features hfeatures feature hmem)
    rw [hsupportedEq, hfeatures]
    exact List.mem_append_left _ (List.mem_singleton.mpr rfl)
  refine takeAllTagged_epoch hversion hepochEq rfl ?_
  refine takeAllTagged_finalized hversion hfinalizedEq ?_ rfl ?_
  · intro features hfeatures
    refine getFlexArray_reads featureKeySize (hfinalizedPut features hfeatures) (hdata ⟨2, _⟩ ?_)
      (fun _ _ _ hout => putFeature_ne_nil hversion hout) fun feature hmem _ hout hshort =>
        getFeature_decodes _ hversion hout hshort (hwf.finalized features hfeatures feature hmem)
    rw [hfinalizedEq, hfeatures]
    exact List.mem_append_right _ (List.mem_append_right _
      (List.mem_append_left _ (List.mem_singleton.mpr rfl)))
  refine takeAllTagged_ready hversion hreadyEq rfl ?_
  exact takeAllTagged_unknown response.unknownTaggedFields .new hwf.disjoint

theorem keys_carried {response : ApiVersionsResponse}
    (hcarried : response.carried version = response) :
    ∀ key ∈ response.apiKeys, key.carried version = key := by
  intro key hkey
  cases hflexible : apiVersionsFlexible version with
  | true => rw [ApiVersion.carried, hflexible, if_pos rfl]
  | false =>
      rw [← hcarried, ApiVersionsResponse.carried, hflexible] at hkey
      obtain ⟨item, _, rfl⟩ := List.mem_map.mp hkey
      simp [ApiVersion.carried, hflexible]

/-- A version below 1 has no throttle time. -/
theorem throttle_reads {response : ApiVersionsResponse}
    (hcarried : response.carried version = response) :
    Reads (if version ≥ 1 then getI32 else pure 0)
      (if version ≥ 1 then putI32 response.throttleTimeMs else []) response.throttleTimeMs := by
  by_cases hversion : version ≥ 1
  · rw [if_pos hversion, if_pos hversion]
    exact getI32_reads _
  · have hflexible : apiVersionsFlexible version = false := by
      refine Bool.eq_false_iff.mpr fun h => hversion ?_
      exact Int16.le_trans (by decide) (apiVersionsFlexible_iff.mp h)
    have hzero : response.throttleTimeMs = 0 := by
      rw [← hcarried, ApiVersionsResponse.carried, hflexible]
      exact if_neg hversion
    rw [if_neg hversion, if_neg hversion, hzero]
    exact .pure

/-- A response that the version carries whole. -/
theorem decode_whole {response : ApiVersionsResponse} (h : response.encode version = .ok bytes)
    (hsize : bytes.length ≤ i64Max) (hwf : response.WellFormed)
    (hcarried : response.carried version = response) :
    Decodes Ledger.charge (ApiVersionsResponse.decode version) bytes response
      (response.charges version) := by
  obtain ⟨keys, hkeys, h⟩ := except_bind_eq_ok.mp h
  obtain ⟨tagged, htagged, h⟩ := except_bind_eq_ok.mp h
  cases h
  simp only [List.length_append] at hsize
  have hread := getFlexArray_reads apiVersionSize hkeys (by omega)
    (fun key _ _ hout => ApiVersion.encode_ne_nil hout) fun key hkey _ hout hshort =>
      ApiVersion.decode_decodes hout hshort (hwf.keys key hkey) (keys_carried hcarried key hkey)
  refine (getI16_reads _).bind_free (hread.bind ((throttle_reads hcarried).bind_free ?_))
  cases hflexible : apiVersionsFlexible version with
  | true =>
      have hversion := apiVersionsFlexible_iff.mp hflexible
      rw [putTagged, hflexible, if_pos rfl] at htagged
      obtain ⟨fields, hfields, htagged⟩ := except_bind_eq_ok.mp htagged
      cases htagged
      exact takeAllTagged_decodes hversion hfields hwf (by omega)
  | false =>
      rw [putTagged, hflexible] at htagged
      cases htagged
      have hplain : response = { errorCode := response.errorCode
                                 apiKeys := response.apiKeys
                                 throttleTimeMs := response.throttleTimeMs } := by
        rw [← hcarried, ApiVersionsResponse.carried, hflexible]
        rfl
      rw [← hplain]
      exact .pure

/-- What is decoded is what the version carries. -/
theorem decode_decodes {response : ApiVersionsResponse} (h : response.encode version = .ok bytes)
    (hsize : bytes.length ≤ i64Max) (hwf : (response.carried version).WellFormed) :
    Decodes Ledger.charge (ApiVersionsResponse.decode version) bytes (response.carried version)
      ((response.carried version).charges version) :=
  decode_whole ((encode_carried version response).trans h) hsize hwf
    (carried_carried version response)

end ApiVersionsResponse

end Response

end Odradek.Protocol
