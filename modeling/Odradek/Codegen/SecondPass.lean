import Odradek.Codegen.RoundTrip

/-!
A message that was accepted goes through the codec once more. It is encoded in no
more bytes than it came in, and these mean the same; but the budget they get is
that of their own length, and a message that was spelled at length has its vectors
granted for bytes it no longer takes up.
-/

namespace Odradek.Codegen

open Library Library.Decoder Protocol

variable {parseF64 : ParseF64} {msg : Message} {version : Int16} {program : Program}
  {sizeOf : SizeOf} {depth : Nat} {name : String} {v : Value} {bytes again : Bytes}

/-- One pass settles: what was decoded is encoded, decoded under the default limits
as the same value, and encoded in the same bytes. -/
def Settles (program : Program) (version : Int16) (sizeOf : SizeOf) (depth : Nat) (name : String)
    (v : Value) : Prop :=
  ∃ again second, program.encode version depth name v = .ok again ∧
    runDecode .default (program.decode version sizeOf depth name) again = .ok (second, []) ∧
    second = v ∧ program.encode version depth name second = .ok again

/-- The most bytes its vectors take at once are within the default budget for a
message of the length of `again`. -/
def Message.Affords (msg : Message) (version : Int16) (sizeOf : SizeOf) (depth : Nat)
    (name : String) (v : Value) (again : Bytes) : Prop :=
  peak 0 (msg.charges sizeOf version depth name v) ≤ Limits.default.allocBytesFor again.length

/-- The second decode reads what the first one did, if its budget lets it. -/
theorem settles_iff (h : generateMessage parseF64 msg = .ok program)
    (hdefaults : msg.HasDefaults parseF64) (hvalid : msg.valid.Contains version)
    (hapart : msg.TagsApart version)
    (hdom : (msg.codec parseF64 version sizeOf depth name).Domain v)
    (hput : program.encode version depth name v = .ok again) (hcap : again.length ≤ i64Max) :
    Settles program version sizeOf depth name v ↔
      msg.Affords version sizeOf depth name v again := by
  have hread := generated_decodes h hdefaults hvalid hapart hdom hput hcap (Nat.le_refl depth)
  have hrun := runDecode_default_iff (hread [])
  rw [List.append_nil] at hrun
  rw [Message.Affords, ← hrun]
  constructor
  · rintro ⟨again', second, hput', hsecond, rfl, _⟩
    rw [hput] at hput'
    cases hput'
    exact hsecond
  · exact fun hsecond => ⟨again, v, hput, hsecond, rfl, hput⟩

/-- Whatever was accepted is encoded again, in no more bytes; it is then accepted
exactly if its vectors are within the budget of those. -/
theorem secondPass_settles_iff (h : generateMessage parseF64 msg = .ok program)
    (hdefaults : msg.HasDefaults parseF64) (hvalid : msg.valid.Contains version)
    (hapart : msg.TagsApart version) (hcap : bytes.length ≤ i64Max)
    (hrun : runDecode .default (program.decode version sizeOf depth name) bytes = .ok (v, [])) :
    ∃ again, program.encode version depth name v = .ok again ∧ again.length ≤ bytes.length ∧
      (Settles program version sizeOf depth name v ↔
        msg.Affords version sizeOf depth name v again) := by
  obtain ⟨hdom, used, again, hused, hput, hle⟩ :=
    generated_rewrites h hdefaults hvalid hapart hrun
  rw [List.append_nil] at hused
  subst hused
  exact ⟨again, hput, hle, settles_iff h hdefaults hvalid hapart hdom hput (by omega)⟩

section Overlong

def describeGroupsRequest : Message where
  name := "DescribeGroupsRequest"
  valid := ⟨0, 6⟩
  flexible := ⟨5, 32767⟩
  fields := [
    ⟨"Groups", .array .string, ⟨0, 32767⟩, none, none, none, none, none, none⟩,
    ⟨"IncludeAuthorizedOperations", .bool, ⟨3, 32767⟩, none, none, none, none, none, none⟩]
  commonStructs := []

def describeGroupsProgram : Program :=
  (generateMessage (fun _ => none) describeGroupsRequest).toOption.getD ⟨"", [], []⟩

theorem describeGroups_generated :
    generateMessage (fun _ => none) describeGroupsRequest = .ok describeGroupsProgram := rfl

theorem describeGroups_hasDefaults : describeGroupsRequest.HasDefaults fun _ => none := by
  unfold Message.HasDefaults
  decide +kernel

theorem describeGroups_tagsApart : describeGroupsRequest.TagsApart 5 := by
  unfold Message.TagsApart
  decide +kernel

theorem describeGroups_codec :
    describeGroupsRequest.codec (fun _ => none) 5 (fun _ => 24) 1 "DescribeGroupsRequest" =
      structCodec true [counted .compact 24 (leafCodec true .string), leafCodec true .bool] [] :=
  rfl

/-- `n` groups without a name. -/
def noGroups (n : Nat) : Value :=
  .struct [.array (List.replicate n (.string "")), .bool false] [] []

/-- The length of an empty name, in five bytes instead of one. -/
def longOne : Bytes := [129, 128, 128, 128, 0]

theorem longOne_spells : Spells longOne 1 :=
  ⟨⟨0, by decide, by decide⟩, by decide, by decide⟩

def longGroups (n : Nat) : Bytes :=
  putCompactArrayLen (some n) ++ ((List.replicate n longOne).flatten ++ [0, 0])

def shortGroups (n : Nat) : Bytes :=
  putCompactArrayLen (some n) ++ (List.replicate n 1 ++ [0, 0])

variable {n : Nat}

theorem longGroups_items (hn : n < i64Max) :
    Decodes Ledger.charge (counted .compact 24 (leafCodec true .string)).get
      (putCompactArrayLen (some n) ++ (List.replicate n longOne).flatten)
      (.array (List.replicate n (.string "")))
      (itemsCharges 24 (fun _ => []) (List.replicate n (Value.string "")) 0) := by
  have hitem : ∀ a ∈ List.replicate n (Value.string ""),
      Decodes Ledger.charge (leafCodec true .string).get longOne a [] := by
    intro a ha
    obtain ⟨_, rfl⟩ := List.mem_replicate.mp ha
    have hread : Reads getCompactString (longOne ++ utf8 "") "" :=
      getCompactString_spelled longOne_spells (by decide)
    exact hread.bind_pure Value.string
  have hitems := getItems_decodes (List.replicate n (Value.string "")) (Vec.new 24)
    (.new : (Vec.new 24 : Vec Value).Pushed 24) hitem
  rw [List.length_replicate, List.flatMap_replicate] at hitems
  have hlen : ∀ m, some n = some m → m < i64Max := by
    rintro _ ⟨⟩
    exact hn
  exact (getCompactArrayLen_reads hlen).bind_free
    (hitems.bind_pure fun items => Value.array items.items)

theorem longGroups_decodes (hn : n < i64Max) :
    Decodes Ledger.charge (describeGroupsProgram.decode 5 (fun _ => 24) 1 "DescribeGroupsRequest")
      (longGroups n) (noGroups n)
      (itemsCharges 24 (fun _ => []) (List.replicate n (Value.string "")) 0) := by
  have hbool : Decodes Ledger.charge (leafCodec true .bool).get [0] (.bool false) [] :=
    (getBool_reads false).bind_pure Value.bool
  have hsection : Decodes Ledger.charge (sectionCodec []).get [0] ([], []) [] :=
    (getTaggedFields_orderly .nil (by decide)).bind_pure fun raws => ([], raws)
  have hall := structCodec_decodes (Codec.each_cons_decodes (longGroups_items hn)
    (Codec.each_cons_decodes hbool Codec.each_nil_decodes)) hsection
  rw [generateMessage_decodes (fun _ => 24) describeGroups_generated (by decide),
    describeGroups_codec]
  simp only [List.append_nil, List.append_assoc] at hall
  exact hall

theorem longGroups_accepted (hn : n < i64Max)
    (hpeak : peak 0 (itemsCharges 24 (fun _ => []) (List.replicate n (Value.string "")) 0) ≤
      Limits.default.allocBytesFor (longGroups n).length) :
    runDecode .default (describeGroupsProgram.decode 5 (fun _ => 24) 1 "DescribeGroupsRequest")
      (longGroups n) = .ok (noGroups n, []) := by
  rw [← List.append_nil (longGroups n)] at hpeak ⊢
  exact runDecode_decodes (longGroups_decodes hn []) hpeak

theorem noGroups_domain (n : Nat) :
    (describeGroupsRequest.codec (fun _ => none) 5 (fun _ => 24) 1
      "DescribeGroupsRequest").Domain (noGroups n) := by
  rw [describeGroups_codec]
  refine ⟨(_, _, _), rfl, ⟨fun v hv => ?_, trivial, rfl⟩, .nil, ⟨.nil, nofun⟩, nofun⟩
  obtain ⟨_, rfl⟩ := List.mem_replicate.mp hv
  trivial

theorem noGroups_charges (n : Nat) :
    describeGroupsRequest.charges (fun _ => 24) 5 1 "DescribeGroupsRequest" (noGroups n) =
      itemsCharges 24 (fun _ => []) (List.replicate n (Value.string "")) 0 := by
  have hparts : describeGroupsRequest.charges (fun _ => 24) 5 1 "DescribeGroupsRequest"
      (noGroups n) =
        itemsCharges 24 (fun _ => []) (List.replicate n (Value.string "")) 0 ++ ([] ++ []) ++
          ([] ++ []) := rfl
  rw [hparts, List.append_nil, List.append_nil, List.append_nil]

theorem groups_secondPass :
    Settles describeGroupsProgram 5 (fun _ => 24) 1 "DescribeGroupsRequest" (noGroups 2) ∧
      ∃ again, describeGroupsProgram.encode 5 1 "DescribeGroupsRequest" (noGroups 1025) =
          .ok again ∧ again.length ≤ (longGroups 1025).length ∧
        (Settles describeGroupsProgram 5 (fun _ => 24) 1 "DescribeGroupsRequest"
            (noGroups 1025) ↔
          describeGroupsRequest.Affords 5 (fun _ => 24) 1 "DescribeGroupsRequest"
            (noGroups 1025) again) := by
  obtain ⟨again, hput, _, hiff⟩ := secondPass_settles_iff describeGroups_generated
    describeGroups_hasDefaults (by decide) describeGroups_tagsApart (by decide)
    (longGroups_accepted (show 2 < i64Max by decide) (by decide))
  have hshort : describeGroupsProgram.encode 5 1 "DescribeGroupsRequest" (noGroups 2) =
      .ok (shortGroups 2) := rfl
  rw [hshort] at hput
  cases hput
  refine ⟨hiff.mpr ?_, secondPass_settles_iff describeGroups_generated
    describeGroups_hasDefaults (by decide) describeGroups_tagsApart (by decide +kernel)
    (longGroups_accepted (show 1025 < i64Max by decide) (by decide +kernel))⟩
  rw [Message.Affords, noGroups_charges]
  decide

/-- 1025 names in five bytes each are accepted and grow a vector of 48 KiB out of one
of 24 KiB; in one byte each they do not get the room for it. -/
theorem longGroups_unsettled :
    runDecode .default (describeGroupsProgram.decode 5 (fun _ => 24) 1 "DescribeGroupsRequest")
        (longGroups 1025) = .ok (noGroups 1025, []) ∧
      describeGroupsProgram.encode 5 1 "DescribeGroupsRequest" (noGroups 1025) =
        .ok (shortGroups 1025) ∧
      runDecode .default (describeGroupsProgram.decode 5 (fun _ => 24) 1 "DescribeGroupsRequest")
        (shortGroups 1025) = .error (.error (.allocationLimit 65536 73728)) ∧
      ¬ Settles describeGroupsProgram 5 (fun _ => 24) 1 "DescribeGroupsRequest"
        (noGroups 1025) := by
  have hfirst := longGroups_accepted (show 1025 < i64Max by decide) (by decide +kernel)
  have hput : describeGroupsProgram.encode 5 1 "DescribeGroupsRequest" (noGroups 1025) =
      .ok (shortGroups 1025) := by
    decide +kernel
  have hread := generated_decodes describeGroups_generated describeGroups_hasDefaults
    (by decide) describeGroups_tagsApart (noGroups_domain 1025) hput (by decide +kernel)
    (Nat.le_refl 1)
  rw [noGroups_charges] at hread
  have hspend : spend Ledger.charge
      (itemsCharges 24 (fun _ => []) (List.replicate 1025 (Value.string "")) 0)
      { budget := Limits.default.budget (shortGroups 1025).length, decoded := 0 } =
        .error (.error (.allocationLimit 65536 73728)) := by
    decide +kernel
  have hsecond := runDecode_refused hread hspend
  refine ⟨hfirst, hput, hsecond, ?_⟩
  rintro ⟨again, second, hput', hok, _⟩
  rw [hput] at hput'
  cases hput'
  rw [hsecond] at hok
  cases hok

end Overlong

end Odradek.Codegen
