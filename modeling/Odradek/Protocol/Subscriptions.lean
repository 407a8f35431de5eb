import Odradek.Protocol.ConsumerProtocol
import Odradek.Protocol.Reencoding

/-!
What came over the wire can go over it again: the strings and arrays of a
subscription that decodes are short enough for the assignment made from it.
-/

namespace Odradek.Protocol

open Library Library.Decoder

variable {α : Type} {s t : Reader Ledger}

section Bounds

theorem getString_fits {value : String} (h : getString s = .ok value t) :
    (utf8 value).length ≤ i16Max := by
  obtain ⟨read, u, hread, hvalue⟩ := bind_eq_ok.mp h
  obtain ⟨raw, u₁, hraw, hread⟩ := bind_eq_ok.mp hread
  split at hread
  · cases hread
    cases hvalue
  obtain ⟨len, u₂, hlen, hread⟩ := bind_eq_ok.mp hread
  obtain ⟨value', u₃, hutf8, hread⟩ := bind_eq_ok.mp hread
  obtain ⟨bytes, u₄, htake, hparse⟩ := bind_eq_ok.mp hutf8
  cases hread
  cases hvalue
  obtain ⟨_, rfl⟩ := parseUtf8_ok hparse
  have hmax := raw.toInt_le
  rw [(takeBytes_ok htake).2, (lenFrom_ok hlen).2.2]
  unfold i16Max
  simp only [Int16.toInt_maxValue] at hmax
  omega

theorem putString_fits {value : String} (h : (utf8 value).length ≤ i16Max) :
    ∃ bytes, putString value = .ok bytes :=
  ⟨_, if_neg (Nat.not_lt.mpr h)⟩

theorem getItems_each {elem : Nat} {item : Decode α} {P : α → Prop}
    (hitem : ∀ {s t : Reader Ledger} {a : α}, item s = .ok a t → P a) (count : Nat)
    {items read : Vec α} (h : getItems elem item count items s = .ok read t)
    (hitems : ∀ a ∈ items.items, P a) :
    read.items.length = items.items.length + count ∧ ∀ a ∈ read.items, P a := by
  induction count generalizing items s with
  | zero =>
      cases h
      exact ⟨rfl, hitems⟩
  | succ count ih =>
      obtain ⟨value, u, hvalue, h⟩ := bind_eq_ok.mp h
      obtain ⟨pushed, v, hpush, h⟩ := bind_eq_ok.mp h
      have hpushed := (push_items hpush).1
      have hall : ∀ a ∈ pushed.items, P a := by
        rw [hpushed]
        intro a ha
        obtain ha | ha := List.mem_append.mp ha
        · exact hitems a ha
        · obtain rfl := List.mem_singleton.mp ha
          exact hitem hvalue
      obtain ⟨hlen, hread⟩ := ih h hall
      refine ⟨?_, hread⟩
      rw [hlen, hpushed, List.length_append, List.length_singleton]
      omega

theorem getArray_each {elem : Nat} {item : Decode α} {P : α → Prop} {items : List α}
    (hitem : ∀ {s t : Reader Ledger} {a : α}, item s = .ok a t → P a)
    (h : getArray elem item s = .ok items t) : items.length ≤ i32Max ∧ ∀ a ∈ items, P a := by
  obtain ⟨len, u₁, hlen, h⟩ := bind_eq_ok.mp h
  obtain ⟨count, u₂, hcount, h⟩ := bind_eq_ok.mp h
  obtain ⟨read, u₃, hread, h⟩ := bind_eq_ok.mp h
  cases h
  obtain ⟨hlength, hall⟩ := getItems_each hitem count hread fun a ha => (by cases ha)
  refine ⟨?_, hall⟩
  obtain ⟨raw, u₄, hraw, hlen⟩ := bind_eq_ok.mp hlen
  split at hlen
  · cases hlen
    cases hcount
  obtain ⟨n, u₅, hn, hlen⟩ := bind_eq_ok.mp hlen
  cases hlen
  cases hcount
  have hmax := raw.toInt_le
  rw [hlength, (lenFrom_ok hn).2.2]
  unfold i32Max
  simp only [Int32.toInt_maxValue] at hmax
  show 0 + raw.toInt.toNat ≤ _
  omega

/-- The topics of a subscription that decodes. -/
structure Carried (topics : List String) : Prop where
  count : topics.length ≤ i32Max
  each : ∀ topic ∈ topics, (utf8 topic).length ≤ i16Max

/-- Either way the rest is decoded. -/
theorem bind_either {β : Type} {c : Prop} [Decidable c] {d d' : Decode α} {f : α → Decode β}
    {b : β} (h : (if c then d >>= f else d' >>= f) s = .ok b t) :
    ∃ a u, f a u = .ok b t := by
  split at h
  · obtain ⟨a, u, _, hf⟩ := bind_eq_ok.mp h
    exact ⟨a, u, hf⟩
  · obtain ⟨a, u, _, hf⟩ := bind_eq_ok.mp h
    exact ⟨a, u, hf⟩

theorem decode_carried {version : Int16} {subscription : ConsumerProtocolSubscription}
    (h : ConsumerProtocolSubscription.decode version s = .ok subscription t) :
    Carried subscription.topics := by
  obtain ⟨topics, u₁, htopics, h⟩ := bind_eq_ok.mp h
  obtain ⟨userData, u₂, _, h⟩ := bind_eq_ok.mp h
  obtain ⟨owned, u₃, h⟩ := bind_either h
  obtain ⟨generation, u₄, h⟩ := bind_either h
  obtain ⟨rack, u₅, h⟩ := bind_either h
  cases h
  obtain ⟨hcount, heach⟩ := getArray_each getString_fits htopics
  exact ⟨hcount, heach⟩

theorem runDecode_accepted {limits : Limits} {d : Decode α} {bytes rest : Bytes} {a : α}
    (h : runDecode limits d bytes = .ok (a, rest)) : ∃ s t, d s = .ok a t := by
  unfold runDecode at h
  split at h
  · rename_i hdecode
    cases h
    exact ⟨_, _, hdecode⟩
  · cases h

theorem map_accepted {ε β : Type} {x : Except ε α} {f : α → β} {b : β} (h : x.map f = .ok b) :
    ∃ a, x = .ok a ∧ f a = b := by
  cases x with
  | error e => cases h
  | ok a =>
      cases h
      exact ⟨a, rfl, rfl⟩

theorem decodeSubscription_carried {data : Bytes} {topics : List String}
    (h : decodeSubscription data = .ok topics) : Carried topics := by
  obtain ⟨subscription, henvelope, rfl⟩ := map_accepted h
  unfold decodeEnvelope at henvelope
  split at henvelope
  · cases henvelope
  obtain ⟨⟨_, rest⟩, hrun, rfl⟩ := map_accepted henvelope
  obtain ⟨s, t, hdecode⟩ := runDecode_accepted hrun
  exact decode_carried hdecode

end Bounds

section Encodes

theorem putItems_ok {put : α → Except EncodeError Bytes} {items : List α}
    (h : ∀ item ∈ items, ∃ bytes, put item = .ok bytes) :
    ∃ bytes, putItems put items = .ok bytes := by
  induction items with
  | nil => exact ⟨[], rfl⟩
  | cons item rest ih =>
      obtain ⟨bytes, hbytes⟩ := h item List.mem_cons_self
      obtain ⟨more, hmore⟩ := ih fun other hother => h other (List.mem_cons_of_mem _ hother)
      refine ⟨bytes ++ more, ?_⟩
      rw [putItems, hbytes, hmore]
      rfl

theorem putArray_ok (put : α → Except EncodeError Bytes) {items : List α}
    (hlen : items.length ≤ i32Max) (h : ∀ item ∈ items, ∃ bytes, put item = .ok bytes) :
    ∃ bytes, putArray put items = .ok bytes := by
  obtain ⟨bytes, hbytes⟩ := putItems_ok h
  refine ⟨putI32 (Int32.ofNat items.length) ++ bytes, ?_⟩
  rw [putArray, putArrayLen, if_neg (Nat.not_lt.mpr hlen), hbytes]
  rfl

theorem encodeSubscription_ok {topics : List String} (h : Carried topics) :
    ∃ bytes, encodeSubscription topics = .ok bytes := by
  obtain ⟨bytes, hbytes⟩ := putArray_ok putString h.count
    fun topic htopic => putString_fits (h.each topic htopic)
  refine ⟨putI16 0 ++ (bytes ++ putI32 (-1)), ?_⟩
  rw [encodeSubscription, ConsumerProtocolSubscription.encode, hbytes]
  rfl

theorem encodeAssignment_ok {partitions : List (String × List Int32)}
    (hcount : partitions.length ≤ i32Max)
    (heach : ∀ tp ∈ partitions, (utf8 tp.1).length ≤ i16Max ∧ tp.2.length ≤ i32Max) :
    ∃ bytes, encodeAssignment partitions = .ok bytes := by
  have hput : ∀ tp ∈ partitions.map fun tp => ({ topic := tp.1, partitions := tp.2 } :
      TopicPartition), ∃ bytes, putTopicPartition tp = .ok bytes := by
    intro tp htp
    obtain ⟨⟨topic, parts⟩, hmem, rfl⟩ := List.mem_map.mp htp
    obtain ⟨htopic, hparts⟩ := heach _ hmem
    obtain ⟨bytes, hbytes⟩ := putString_fits htopic
    obtain ⟨more, hmore⟩ := putArray_ok (fun partition => .ok (putI32 partition)) hparts
      fun partition _ => ⟨_, rfl⟩
    refine ⟨bytes ++ more, ?_⟩
    rw [putTopicPartition, hbytes]
    show (putArray _ parts).bind _ = _
    rw [hmore]
    rfl
  obtain ⟨bytes, hbytes⟩ := putArray_ok putTopicPartition (by rwa [List.length_map]) hput
  refine ⟨putI16 0 ++ (bytes ++ putI32 (-1)), ?_⟩
  rw [encodeAssignment, ConsumerProtocolAssignment.encode, hbytes]
  rfl

end Encodes

end Odradek.Protocol
