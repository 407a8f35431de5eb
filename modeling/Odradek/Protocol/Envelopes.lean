import Odradek.Protocol.Subscriptions

/-!
The envelopes of `consumer_protocol.rs` read back what they were given: at the
version they are written at, and behind the prefix of any newer one, where a body
of the newest version known may be followed by anything.
-/

namespace Odradek.Protocol

open Library Library.Decoder

section Versions

def putOwnedPartition (version : Int16) (tp : TopicPartition) : Except EncodeError Bytes :=
  if version ≥ 1 then putTopicPartition tp else .ok []

def ConsumerProtocolSubscription.encodeAt (version : Int16)
    (subscription : ConsumerProtocolSubscription) : Except EncodeError Bytes := do
  let topics ← putArray putString subscription.topics
  let userData ← putNullableBytes subscription.userData
  let ownedPartitions ← (if version ≥ 1 then
    putArray (putOwnedPartition version) subscription.ownedPartitions else .ok [])
  let generationId := if version ≥ 2 then putI32 subscription.generationId else []
  let rackId ← (if version ≥ 3 then putNullableString subscription.rackId else .ok [])
  pure (topics ++ (userData ++ (ownedPartitions ++ (generationId ++ rackId))))

/-- What a version has a place for; the rest comes back as its default. -/
def ConsumerProtocolSubscription.carried (version : Int16)
    (subscription : ConsumerProtocolSubscription) : ConsumerProtocolSubscription :=
  { topics := subscription.topics
    userData := subscription.userData
    ownedPartitions := if version ≥ 1 then subscription.ownedPartitions else []
    generationId := if version ≥ 2 then subscription.generationId else -1
    rackId := if version ≥ 3 then subscription.rackId else none }

end Versions

section Fits

/-- The topic and the partition count fit the wire. -/
def TopicPartition.Fits (tp : TopicPartition) : Prop :=
  (utf8 tp.topic).length ≤ i16Max ∧ tp.partitions.length ≤ i32Max

structure ConsumerProtocolSubscription.Fits (subscription : ConsumerProtocolSubscription) :
    Prop where
  topics : Carried subscription.topics
  userData : ∀ data ∈ subscription.userData, data.length ≤ i32Max
  ownedCount : subscription.ownedPartitions.length ≤ i32Max
  owned : ∀ tp ∈ subscription.ownedPartitions, tp.Fits
  rackId : ∀ rack ∈ subscription.rackId, (utf8 rack).length ≤ i16Max

structure ConsumerProtocolAssignment.Fits (assignment : ConsumerProtocolAssignment) : Prop where
  count : assignment.assignedPartitions.length ≤ i32Max
  assigned : ∀ tp ∈ assignment.assignedPartitions, tp.Fits
  userData : ∀ data ∈ assignment.userData, data.length ≤ i32Max

theorem putNullableBytes_fits {value : Option Bytes} (h : ∀ data ∈ value, data.length ≤ i32Max) :
    ∃ bytes, putNullableBytes value = .ok bytes := by
  cases value with
  | none => exact ⟨_, rfl⟩
  | some data => exact ⟨_, if_neg (Nat.not_lt.mpr (h data rfl))⟩

theorem putNullableString_fits {value : Option String}
    (h : ∀ text ∈ value, (utf8 text).length ≤ i16Max) :
    ∃ bytes, putNullableString value = .ok bytes := by
  cases value with
  | none => exact ⟨_, rfl⟩
  | some text => exact putString_fits (h text rfl)

theorem putTopicPartition_fits {tp : TopicPartition} (h : tp.Fits) :
    ∃ bytes, putTopicPartition tp = .ok bytes := by
  obtain ⟨topic, htopic⟩ := putString_fits h.1
  obtain ⟨partitions, hpartitions⟩ := putArray_ok (fun partition => .ok (putI32 partition)) h.2
    fun partition _ => ⟨_, rfl⟩
  exact ⟨_, except_bind_eq_ok.mpr
    ⟨topic, htopic, except_bind_eq_ok.mpr ⟨partitions, hpartitions, rfl⟩⟩⟩

theorem ConsumerProtocolSubscription.Fits.encodes {subscription : ConsumerProtocolSubscription}
    (h : subscription.Fits) (version : Int16) :
    ∃ body, subscription.encodeAt version = .ok body := by
  obtain ⟨topics, htopics⟩ := putArray_ok putString h.topics.count
    fun topic htopic => putString_fits (h.topics.each topic htopic)
  obtain ⟨userData, huserData⟩ := putNullableBytes_fits h.userData
  obtain ⟨owned, howned⟩ := putArray_ok (putOwnedPartition version) h.ownedCount fun tp htp => by
    unfold putOwnedPartition
    split
    · exact putTopicPartition_fits (h.owned tp htp)
    · exact ⟨_, rfl⟩
  obtain ⟨rackId, hrackId⟩ := putNullableString_fits h.rackId
  have hownedAt : ∃ bytes, (if version ≥ 1 then
      putArray (putOwnedPartition version) subscription.ownedPartitions else .ok []) =
        .ok bytes := by
    split
    · exact ⟨owned, howned⟩
    · exact ⟨[], rfl⟩
  have hrackAt : ∃ bytes, (if version ≥ 3 then putNullableString subscription.rackId
      else .ok []) = .ok bytes := by
    split
    · exact ⟨rackId, hrackId⟩
    · exact ⟨[], rfl⟩
  obtain ⟨ownedAt, hownedAt⟩ := hownedAt
  obtain ⟨rackAt, hrackAt⟩ := hrackAt
  exact ⟨_, except_bind_eq_ok.mpr ⟨topics, htopics, except_bind_eq_ok.mpr ⟨userData, huserData,
    except_bind_eq_ok.mpr ⟨ownedAt, hownedAt, except_bind_eq_ok.mpr ⟨rackAt, hrackAt, rfl⟩⟩⟩⟩⟩

theorem ConsumerProtocolAssignment.Fits.encodes {assignment : ConsumerProtocolAssignment}
    (h : assignment.Fits) : ∃ body, assignment.encode = .ok body := by
  obtain ⟨assigned, hassigned⟩ := putArray_ok putTopicPartition h.count
    fun tp htp => putTopicPartition_fits (h.assigned tp htp)
  obtain ⟨userData, huserData⟩ := putNullableBytes_fits h.userData
  exact ⟨_, except_bind_eq_ok.mpr
    ⟨assigned, hassigned, except_bind_eq_ok.mpr ⟨userData, huserData, rfl⟩⟩⟩

end Fits

section Bodies

variable {version : Int16} {bytes : Bytes}

def TopicPartition.charges (tp : TopicPartition) : List Charge :=
  itemsCharges 4 (fun _ => []) tp.partitions 0

def ConsumerProtocolSubscription.charges (subscription : ConsumerProtocolSubscription) :
    List Charge :=
  itemsCharges stringSize (fun _ => []) subscription.topics 0 ++
    itemsCharges topicPartitionSize TopicPartition.charges subscription.ownedPartitions 0

def ConsumerProtocolAssignment.charges (assignment : ConsumerProtocolAssignment) : List Charge :=
  itemsCharges topicPartitionSize TopicPartition.charges assignment.assignedPartitions 0

theorem putArray_count {α : Type} {put : α → Except EncodeError Bytes} {items : List α}
    (h : putArray put items = .ok bytes) : items.length < i64Max := by
  obtain ⟨len, hlen, _⟩ := except_bind_eq_ok.mp h
  rw [putArrayLen] at hlen
  split at hlen
  · cases hlen
  · unfold i32Max at *
    unfold i64Max
    omega

theorem getArray_decodes {α : Type} (elem : Nat) (charges : α → List Charge) {item : Decode α}
    {put : α → Except EncodeError Bytes} {items : List α}
    (h : putArray put items = .ok bytes)
    (hitem : ∀ a ∈ items, ∀ out, put a = .ok out →
      Decodes Ledger.charge item out a (charges a)) :
    Decodes Ledger.charge (getArray elem item) bytes items (itemsCharges elem charges items 0) := by
  have hread : Decodes Ledger.charge (getFlexArray false elem item) bytes items
      (itemsCharges elem charges items 0) :=
    getFlexArray_decodes elem h (putArray_count h) hitem
  exact hread

theorem getTopicPartition_decodes {tp : TopicPartition} (h : putTopicPartition tp = .ok bytes) :
    Decodes Ledger.charge getTopicPartition bytes tp tp.charges := by
  obtain ⟨topic, htopic, h⟩ := except_bind_eq_ok.mp h
  obtain ⟨partitions, hpartitions, h⟩ := except_bind_eq_ok.mp h
  cases h
  have hread := getArray_decodes 4 (fun _ => []) hpartitions fun partition _ out hout => by
    cases hout
    exact getI32_reads partition
  exact (getString_reads htopic).bind_free (hread.bind_pure _)

theorem putTopicPartition_ne_nil {tp : TopicPartition} (h : putTopicPartition tp = .ok bytes) :
    bytes ≠ [] := by
  obtain ⟨topic, htopic, h⟩ := except_bind_eq_ok.mp h
  obtain ⟨partitions, _, h⟩ := except_bind_eq_ok.mp h
  cases h
  rw [putString] at htopic
  split at htopic
  · cases htopic
  · cases htopic
    exact List.append_ne_nil_of_left_ne_nil
      (List.append_ne_nil_of_left_ne_nil (by simp [putI16, toBigEndian]) _) _

theorem getTopicPartitions_decodes {tps : List TopicPartition}
    (h : putArray putTopicPartition tps = .ok bytes) :
    Decodes Ledger.charge (getArray topicPartitionSize (progressing getTopicPartition)) bytes tps
      (itemsCharges topicPartitionSize TopicPartition.charges tps 0) :=
  getArray_decodes topicPartitionSize _ h fun _ _ _ hput =>
    progressing_decodes (getTopicPartition_decodes hput) (putTopicPartition_ne_nil hput)

theorem ConsumerProtocolAssignment.decode_decodes {assignment : ConsumerProtocolAssignment}
    (h : assignment.encode = .ok bytes) :
    Decodes Ledger.charge ConsumerProtocolAssignment.decode bytes assignment
      assignment.charges := by
  obtain ⟨assigned, hassigned, h⟩ := except_bind_eq_ok.mp h
  obtain ⟨userData, huserData, h⟩ := except_bind_eq_ok.mp h
  cases h
  have hdata := (getNullableBytes_reads huserData).bind_pure fun userData =>
    ({ assignedPartitions := assignment.assignedPartitions, userData } : ConsumerProtocolAssignment)
  exact List.append_nil assignment.charges ▸ (getTopicPartitions_decodes hassigned).bind hdata

/-- A field that not every version has. -/
theorem Decodes.bind_gated {α β : Type} {c : Prop} [Decidable c] {d : Decode α}
    {f : α → Decode β} {a absent : α} {b : β} {put : Except EncodeError Bytes}
    {field rest : Bytes} (charges : α → List Charge) (cs : List Charge)
    (hput : (if c then put else .ok []) = .ok field)
    (hfield : c → put = .ok field → Decodes Ledger.charge d field a (charges a))
    (habsent : charges absent = [])
    (hrest : Decodes Ledger.charge (f (if c then a else absent)) rest b cs) :
    Decodes Ledger.charge (if c then d >>= f else pure absent >>= f) (field ++ rest) b
      (charges (if c then a else absent) ++ cs) := by
  by_cases hc : c
  · simp only [hc, if_true] at *
    exact (hfield trivial hput).bind hrest
  · simp only [hc, if_false, habsent] at *
    cases hput
    exact Decodes.pure.bind hrest

/-- A version reads what it wrote, field by field. -/
theorem ConsumerProtocolSubscription.decode_decodes {subscription : ConsumerProtocolSubscription}
    (h : subscription.encodeAt version = .ok bytes) :
    Decodes Ledger.charge (ConsumerProtocolSubscription.decode version) bytes
      (subscription.carried version) (subscription.carried version).charges := by
  obtain ⟨topics, htopics, h⟩ := except_bind_eq_ok.mp h
  obtain ⟨userData, huserData, h⟩ := except_bind_eq_ok.mp h
  obtain ⟨owned, howned, h⟩ := except_bind_eq_ok.mp h
  obtain ⟨rackId, hrackId, h⟩ := except_bind_eq_ok.mp h
  cases h
  have hgeneration : (if version ≥ 2 then .ok (putI32 subscription.generationId) else .ok []) =
      (.ok (if version ≥ 2 then putI32 subscription.generationId else []) :
        Except EncodeError Bytes) := by
    split <;> rfl
  have htopicsRead := getArray_decodes stringSize (fun _ => []) htopics
    fun topic _ out hout => getString_reads hout
  have hcharges : (subscription.carried version).charges =
      itemsCharges stringSize (fun _ => []) subscription.topics 0 ++
        (itemsCharges topicPartitionSize TopicPartition.charges
          (if version ≥ 1 then subscription.ownedPartitions else []) 0 ++ []) :=
    (congrArg _ (List.append_nil _)).symm
  rw [hcharges]
  refine htopicsRead.bind ((getNullableBytes_reads huserData).bind_free ?_)
  refine Decodes.bind_gated (fun tps =>
    itemsCharges topicPartitionSize TopicPartition.charges tps 0) _ howned ?_ rfl ?_
  · intro hversion hput
    have hsame : putOwnedPartition version = putTopicPartition := funext fun tp => if_pos hversion
    rw [hsame] at hput
    exact getTopicPartitions_decodes hput
  refine Decodes.bind_gated (a := subscription.generationId) (fun _ => []) []
    hgeneration ?_ rfl ?_
  · intro _ hput
    rw [← Except.ok.inj hput]
    exact getI32_reads subscription.generationId
  rw [← List.append_nil rackId]
  refine Decodes.bind_gated (a := subscription.rackId) (fun _ => []) []
    hrackId ?_ rfl Decodes.pure
  exact fun _ hput => getNullableString_reads hput

end Bodies

section Envelope

variable {α : Type} {decode : Int16 → Decode α} {body trailing : Bytes} {a : α}
  {cs : List Charge} {version maxVersion : Int16}

/-- Charges that a body of `length` bytes is granted. -/
def Afforded (length : Nat) (cs : List Charge) : Prop :=
  peak 0 cs ≤ Limits.default.allocBytesFor length

theorem ofBigEndian_putI16 (version : Int16) (rest : Bytes) :
    Int16.ofBitVec (BitVec.ofNat 16 (ofBigEndian ((putI16 version ++ rest).take 2))) = version := by
  have htake : (putI16 version ++ rest).take 2 = toBigEndian 2 version.toBitVec.toNat := rfl
  have hsmall : version.toBitVec.toNat < 256 ^ 2 := version.toBitVec.isLt
  rw [htake, ofBigEndian_toBigEndian, Nat.mod_eq_of_lt hsmall, BitVec.ofNat_toNat,
    BitVec.setWidth_eq, Int16.ofBitVec_toBitVec]

/-- Whatever the prefix, the body is read at the version it is clamped to. -/
theorem decodeEnvelope_body
    (h : Decodes Ledger.charge (decode (max (min version maxVersion) 0)) body a cs)
    (hbudget : Afforded (body ++ trailing).length cs) :
    decodeEnvelope maxVersion decode (putI16 version ++ (body ++ trailing)) = .ok a := by
  have hlong : ¬ (putI16 version ++ (body ++ trailing)).length < 2 := by
    rw [List.length_append]
    exact Nat.not_lt.mpr (Nat.le_add_right 2 _)
  have hrun := runDecode_decodes (h trailing) hbudget
  rw [decodeEnvelope, if_neg hlong, ofBigEndian_putI16]
  exact congrArg (fun read => read.map (·.1)) hrun

theorem clamp_known (hlow : 0 ≤ version) (hhigh : version ≤ maxVersion) :
    max (min version maxVersion) 0 = version := by
  have hmin : min version maxVersion = version := if_pos hhigh
  rw [hmin]
  show (if version ≤ 0 then 0 else version) = version
  split
  · exact Int16.le_antisymm hlow ‹_›
  · rfl

theorem clamp_newer (h : maxVersion < version) (hmax : 0 < maxVersion) :
    max (min version maxVersion) 0 = maxVersion := by
  have hmin : min version maxVersion = maxVersion := if_neg (Int16.not_le.mpr h)
  rw [hmin]
  exact if_neg (Int16.not_le.mpr hmax)

theorem encode_eq_encodeAt (subscription : ConsumerProtocolSubscription) :
    subscription.encode = subscription.encodeAt 0 := by
  cases htopics : putArray putString subscription.topics with
  | error e => simp only [ConsumerProtocolSubscription.encode,
      ConsumerProtocolSubscription.encodeAt, htopics, bind, Except.bind]
  | ok topics =>
      cases huserData : putNullableBytes subscription.userData with
      | error e => simp only [ConsumerProtocolSubscription.encode,
          ConsumerProtocolSubscription.encodeAt, htopics, huserData, bind, Except.bind]
      | ok userData =>
          simp [ConsumerProtocolSubscription.encode, ConsumerProtocolSubscription.encodeAt,
            htopics, huserData, bind, Except.bind, pure, Except.pure]

/-- A subscription, behind any prefix that is clamped to the version it was written at. -/
theorem decodeSubscription_body {subscription : ConsumerProtocolSubscription} {written : Int16}
    (hbody : subscription.encodeAt written = .ok body)
    (hclamp : max (min version ConsumerProtocolSubscription.maxVersion) 0 = written)
    (hbudget : Afforded (body ++ trailing).length (subscription.carried written).charges) :
    decodeEnvelope ConsumerProtocolSubscription.maxVersion ConsumerProtocolSubscription.decode
        (putI16 version ++ (body ++ trailing)) = .ok (subscription.carried written) ∧
      decodeSubscription (putI16 version ++ (body ++ trailing)) = .ok subscription.topics := by
  have hdecodes := ConsumerProtocolSubscription.decode_decodes hbody
  rw [← hclamp] at hdecodes hbudget
  have hread := decodeEnvelope_body hdecodes hbudget
  rw [hclamp] at hread
  refine ⟨hread, ?_⟩
  rw [decodeSubscription, hread]
  rfl

/-- An assignment is written alike at every version. -/
theorem decodeAssignment_body {assignment : ConsumerProtocolAssignment}
    (hbody : assignment.encode = .ok body)
    (hbudget : Afforded (body ++ trailing).length assignment.charges) (version : Int16) :
    decodeEnvelope ConsumerProtocolAssignment.maxVersion
        (fun _ => ConsumerProtocolAssignment.decode) (putI16 version ++ (body ++ trailing)) =
        .ok assignment ∧
      decodeAssignment (putI16 version ++ (body ++ trailing)) =
        .ok (assignment.assignedPartitions.map fun tp => (tp.topic, tp.partitions)) := by
  have hread : decodeEnvelope ConsumerProtocolAssignment.maxVersion
      (fun _ => ConsumerProtocolAssignment.decode) (putI16 version ++ (body ++ trailing)) =
      .ok assignment :=
    decodeEnvelope_body (ConsumerProtocolAssignment.decode_decodes hbody) hbudget
  refine ⟨hread, ?_⟩
  rw [decodeAssignment, if_neg (by simp [putI16, toBigEndian]), hread]
  rfl

def assignmentOf (partitions : List (String × List Int32)) : ConsumerProtocolAssignment :=
  { assignedPartitions := partitions.map fun tp => { topic := tp.1, partitions := tp.2 } }

theorem assignmentOf_partitions (partitions : List (String × List Int32)) :
    ((assignmentOf partitions).assignedPartitions.map fun tp => (tp.topic, tp.partitions)) =
      partitions := by
  rw [assignmentOf, List.map_map]
  exact List.map_id partitions

theorem encodeSubscription_reads {topics : List String} (h : Carried topics) :
    ∃ body, encodeSubscription topics = .ok (putI16 0 ++ body) ∧
      (Afforded body.length (ConsumerProtocolSubscription.charges { topics }) →
        decodeSubscription (putI16 0 ++ body) = .ok topics) := by
  have hfits : ConsumerProtocolSubscription.Fits { topics } :=
    { topics := h
      userData := fun _ hdata => by cases hdata
      ownedCount := Nat.zero_le _
      owned := fun _ htp => absurd htp List.not_mem_nil
      rackId := fun _ hrack => by cases hrack }
  obtain ⟨body, hbody⟩ := hfits.encodes 0
  refine ⟨body, ?_, ?_⟩
  · rw [encodeSubscription, encode_eq_encodeAt, hbody]
    rfl
  · intro hbudget
    rw [← List.append_nil body] at hbudget ⊢
    exact (decodeSubscription_body hbody (clamp_known (by decide) (by decide)) hbudget).2

theorem encodeAssignment_reads {partitions : List (String × List Int32)}
    (h : (assignmentOf partitions).Fits) :
    ∃ body, encodeAssignment partitions = .ok (putI16 0 ++ body) ∧
      (Afforded body.length (assignmentOf partitions).charges →
        decodeAssignment (putI16 0 ++ body) = .ok partitions) := by
  obtain ⟨body, hbody⟩ := h.encodes
  refine ⟨body, ?_, ?_⟩
  · rw [encodeAssignment]
    change (assignmentOf partitions).encode.bind _ = _
    rw [hbody]
    rfl
  · intro hbudget
    rw [← List.append_nil body] at hbudget ⊢
    rw [(decodeAssignment_body hbody hbudget 0).2, assignmentOf_partitions]

/-- What is encoded is decoded unchanged: the topics and the assignment that the two
helpers write, and every subscription and assignment with user data at each version
there is. Behind the prefix of any newer version a body of the newest one known reads
the same, whatever trails it. -/
theorem envelopes_read_back :
    (∀ topics, Carried topics → ∃ body, encodeSubscription topics = .ok (putI16 0 ++ body) ∧
      (Afforded body.length (ConsumerProtocolSubscription.charges { topics }) →
        decodeSubscription (putI16 0 ++ body) = .ok topics)) ∧
    (∀ partitions, (assignmentOf partitions).Fits → ∃ body,
      encodeAssignment partitions = .ok (putI16 0 ++ body) ∧
      (Afforded body.length (assignmentOf partitions).charges →
        decodeAssignment (putI16 0 ++ body) = .ok partitions)) ∧
    (∀ subscription : ConsumerProtocolSubscription, subscription.Fits → ∀ version,
      0 ≤ version → version ≤ ConsumerProtocolSubscription.maxVersion →
      ∃ body, subscription.encodeAt version = .ok body ∧
        (Afforded body.length (subscription.carried version).charges →
          decodeEnvelope ConsumerProtocolSubscription.maxVersion
              ConsumerProtocolSubscription.decode (putI16 version ++ body) =
            .ok (subscription.carried version) ∧
          decodeSubscription (putI16 version ++ body) = .ok subscription.topics)) ∧
    (∀ subscription : ConsumerProtocolSubscription, subscription.Fits →
      ∃ body, subscription.encodeAt ConsumerProtocolSubscription.maxVersion = .ok body ∧
        ∀ version, ConsumerProtocolSubscription.maxVersion < version → ∀ trailing,
          Afforded (body ++ trailing).length subscription.charges →
          decodeEnvelope ConsumerProtocolSubscription.maxVersion
              ConsumerProtocolSubscription.decode (putI16 version ++ (body ++ trailing)) =
            .ok subscription ∧
          decodeSubscription (putI16 version ++ (body ++ trailing)) =
            .ok subscription.topics) ∧
    (∀ assignment : ConsumerProtocolAssignment, assignment.Fits →
      ∃ body, assignment.encode = .ok body ∧
        ∀ version trailing, Afforded (body ++ trailing).length assignment.charges →
          decodeEnvelope ConsumerProtocolAssignment.maxVersion
              (fun _ => ConsumerProtocolAssignment.decode)
              (putI16 version ++ (body ++ trailing)) = .ok assignment ∧
          decodeAssignment (putI16 version ++ (body ++ trailing)) =
            .ok (assignment.assignedPartitions.map fun tp => (tp.topic, tp.partitions))) := by
  refine ⟨fun _ => encodeSubscription_reads, fun _ => encodeAssignment_reads, ?_, ?_, ?_⟩
  · intro subscription hfits version hlow hhigh
    obtain ⟨body, hbody⟩ := hfits.encodes version
    refine ⟨body, hbody, fun hbudget => ?_⟩
    rw [← List.append_nil body] at hbudget ⊢
    exact decodeSubscription_body hbody (clamp_known hlow hhigh) hbudget
  · intro subscription hfits
    obtain ⟨body, hbody⟩ := hfits.encodes ConsumerProtocolSubscription.maxVersion
    refine ⟨body, hbody, fun version hnewer trailing hbudget => ?_⟩
    exact decodeSubscription_body hbody (clamp_newer hnewer (by decide)) hbudget
  · intro assignment hfits
    obtain ⟨body, hbody⟩ := hfits.encodes
    exact ⟨body, hbody, fun version trailing hbudget =>
      decodeAssignment_body hbody hbudget version⟩

theorem afforded_small (hpeak : peak 0 cs ≤ defaultMinAllocBytes) (length : Nat) :
    Afforded length cs :=
  Nat.le_min.mpr ⟨Nat.le_trans hpeak (Nat.le_max_right _ _),
    Nat.le_trans hpeak (by decide)⟩

/-- A member with partitions to hand back, from the version after the newest known. -/
def returningMember : ConsumerProtocolSubscription :=
  { topics := ["t"]
    userData := some [7]
    ownedPartitions := [{ topic := "t", partitions := [0, 2] }]
    generationId := 5
    rackId := some "r" }

theorem returningMember_fits : returningMember.Fits :=
  { topics := ⟨by decide, by decide⟩
    userData := by decide
    ownedCount := by decide
    owned := fun tp htp => by
      obtain rfl := List.mem_singleton.mp htp
      exact ⟨by decide, by decide⟩
    rackId := by decide }

theorem envelopes_read_back_newer :
    ∃ body, returningMember.encodeAt 3 = .ok body ∧
      decodeSubscription (putI16 4 ++ (body ++ [1, 2])) = .ok ["t"] := by
  obtain ⟨_, _, _, hnewer, _⟩ := envelopes_read_back
  obtain ⟨body, hbody, hread⟩ := hnewer returningMember returningMember_fits
  exact ⟨body, hbody, (hread 4 (by decide) [1, 2] (afforded_small (by decide) _)).2⟩

end Envelope

end Odradek.Protocol
