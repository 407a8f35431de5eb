import Odradek.Codegen.Preservation

/-!
Which schemas the generator accepts, and what it collects from them. Structs
that fields define in place are found at any depth, a name is kept once, and no
such struct is missed; what can make the generator fail is a matter of each field
alone.
-/

namespace Odradek.Codegen

open Library

section Collected

variable {out result : List StructDef} {fields : List Field}

def structNames (out : List StructDef) : List String := out.map StructDef.name

/-- The structs that fields define in place are there. -/
def Defines (out : List StructDef) (fields : List Field) : Prop :=
  ∀ f ∈ fields, f.inlineFields.isSome = true → ∀ name, structNameOf f.ftype = some name →
    name ∈ structNames out

/-- More structs, under names of their own, and with those that they define. -/
structure Collects (out result : List StructDef) : Prop where
  grows : out <+: result
  nodup : (structNames out).Nodup → (structNames result).Nodup
  closed : ∀ d ∈ result, d ∈ out ∨ Defines result d.fields

theorem Defines.mono (h : Defines out fields) (hgrows : out <+: result) : Defines result fields :=
  fun f hf hinline name hname =>
    (hgrows.map StructDef.name).subset (h f hf hinline name hname)

theorem Collects.refl (out : List StructDef) : Collects out out :=
  ⟨List.prefix_refl out, id, fun _ h => .inl h⟩

theorem Collects.trans {more : List StructDef} (h : Collects out result)
    (h' : Collects result more) : Collects out more :=
  { grows := h.grows.trans h'.grows
    nodup := fun hn => h'.nodup (h.nodup hn)
    closed := by
      intro d hd
      obtain hd | hd := h'.closed d hd
      · obtain hd | hd := h.closed d hd
        · exact .inl hd
        · exact .inr (hd.mono h'.grows)
      · exact .inr hd }

theorem mem_addStruct (name : String) (fields : List Field) (out : List StructDef) :
    name ∈ structNames (addStruct name fields out) := by
  unfold addStruct
  split
  · rename_i h
    obtain ⟨d, hd, hname⟩ := List.any_eq_true.mp h
    exact List.mem_map.mpr ⟨d, hd, of_decide_eq_true hname⟩
  · simp [structNames]

/-- A struct that is added, before what it defines itself. -/
theorem Collects.add (name : String) (h : Collects (addStruct name fields out) result)
    (hdefines : Defines result fields) : Collects out result := by
  by_cases htaken : out.any fun s => s.name = name
  · rwa [addStruct, if_pos htaken] at h
  · have hadded : addStruct name fields out = out ++ [⟨name, fields⟩] := if_neg htaken
    rw [hadded] at h
    refine ⟨(List.prefix_append _ _).trans h.grows, fun hn => h.nodup ?_, fun d hd => ?_⟩
    · have hfresh : name ∉ structNames out := by
        intro hmem
        obtain ⟨d, hd, hname⟩ := List.mem_map.mp hmem
        exact htaken (List.any_eq_true.mpr ⟨d, hd, decide_eq_true hname⟩)
      rw [structNames, List.map_append, List.map_singleton]
      refine List.Nodup.append hn (List.nodup_singleton _) fun other hother hname => ?_
      rw [List.mem_singleton.mp hname] at hother
      exact hfresh hother
    · obtain hd | hd := h.closed d hd
      · obtain hd | hd := List.mem_append.mp hd
        · exact .inl hd
        · rw [List.mem_singleton.mp hd]
          exact .inr hdefines
      · exact .inr hd

mutual

/-- Over a schema, as the generator goes through it. -/
theorem collectInlineStructs_collects : ∀ (fields : List Field) (out : List StructDef),
    Collects out (collectInlineStructs fields out) ∧
      Defines (collectInlineStructs fields out) fields
  | [], out => ⟨.refl out, fun _ h => absurd h List.not_mem_nil⟩
  | f :: fields, out => by
      obtain ⟨hfirst, hdefines⟩ := collectInlineField_collects f out
      obtain ⟨hrest, hdefines'⟩ := collectInlineStructs_collects fields (collectInlineField f out)
      refine ⟨hfirst.trans hrest, fun g hg hinline name hname => ?_⟩
      obtain rfl | hg := List.mem_cons.mp hg
      · exact (hrest.grows.map StructDef.name).subset (hdefines hinline name hname)
      · exact hdefines' g hg hinline name hname

theorem collectInlineField_collects : ∀ (f : Field) (out : List StructDef),
    Collects out (collectInlineField f out) ∧ (f.inlineFields.isSome = true →
      ∀ name, structNameOf f.ftype = some name → name ∈ structNames (collectInlineField f out))
  | { ftype, inlineFields, .. }, out => collectInlineFields_collects ftype inlineFields out

theorem collectInlineFields_collects (ftype : FieldType) :
    ∀ (inner : Option (List Field)) (out : List StructDef),
      Collects out (collectInlineFields ftype inner out) ∧ (inner.isSome = true →
        ∀ name, structNameOf ftype = some name →
          name ∈ structNames (collectInlineFields ftype inner out))
  | none, out => ⟨.refl out, fun h => nomatch h⟩
  | some inner, out => by
      unfold collectInlineFields
      cases structNameOf ftype with
      | none => exact ⟨(collectInlineStructs_collects inner out).1, fun _ _ h => nomatch h⟩
      | some name =>
          obtain ⟨hcollects, hdefines⟩ :=
            collectInlineStructs_collects inner (addStruct name inner out)
          refine ⟨hcollects.add name hdefines, fun _ _ hname => ?_⟩
          cases hname
          exact (hcollects.grows.map StructDef.name).subset (mem_addStruct name inner out)

end

theorem collectCommonStructs_collects (common out : List StructDef) :
    Collects out (collectCommonStructs common out) := by
  induction common generalizing out with
  | nil => exact .refl out
  | cons cs rest ih =>
      obtain ⟨hcollects, hdefines⟩ :=
        collectInlineStructs_collects cs.fields (addStruct cs.name cs.fields out)
      exact (hcollects.add cs.name hdefines).trans (ih _)

variable (msg : Message)

/-- One struct under each name, and every struct a field defines in place. -/
theorem structs_collected : (structNames msg.structs).Nodup ∧
    ∀ d ∈ msg.structs, Defines msg.structs d.fields := by
  obtain ⟨hinline, hdefines⟩ := collectInlineStructs_collects msg.fields [⟨msg.name, msg.fields⟩]
  have hcommon : Collects (collectInlineStructs msg.fields [⟨msg.name, msg.fields⟩]) msg.structs :=
    collectCommonStructs_collects msg.commonStructs _
  have hall := hinline.trans hcommon
  refine ⟨hall.nodup (List.nodup_singleton _), fun d hd => ?_⟩
  obtain hd | hd := hall.closed d hd
  · rw [List.mem_singleton.mp hd]
    exact hdefines.mono hcommon.grows
  · exact hd

end Collected

section Accepted

variable {parseF64 : ParseF64} {msg : Message} {f : Field}

/-- A text that is a literal of a type. -/
def FieldType.Spells (parseF64 : ParseF64) (text : Text) : FieldType → Prop
  | .int8 | .int16 | .uint16 | .int32 | .uint32 | .int64 =>
    (readIntDefault (Text.trim text)).isSome = true
  | .float64 => (parseF64 text).isSome = true
  | _ => True

/-- Null only where it may be, and numbers in digits. -/
def Field.Defaultable (parseF64 : ParseF64) (f : Field) : Prop :=
  (defaultStr f = some "null".toList → f.nullable ≠ none) ∧
    ∀ text, defaultStr f = some text → text ≠ "null".toList → f.ftype.Spells parseF64 text

def FieldType.IsElement : FieldType → Prop
  | .bytes | .records | .array _ => False
  | _ => True

def FieldType.CanBeNull : FieldType → Prop
  | .string | .bytes | .records | .struct _ | .array _ => True
  | _ => False

def Field.Shaped (f : Field) : Prop :=
  (f.nullable ≠ none → f.ftype.CanBeNull) ∧ ∀ elem, f.ftype = .array elem → elem.IsElement

/-- Tagged for as long as it is there. -/
def Field.TaggedThroughout (f : Field) : Prop :=
  f.tag.isSome = true → f.taggedVersions = some f.versions

theorem decodeElement_isOk {elem : FieldType} :
    (∃ code, decodeElement msg f elem = .ok code) ↔ elem.IsElement := by
  cases elem <;> simp [decodeElement, FieldType.IsElement]

theorem encodeElement_total {elem : FieldType} (h : elem.IsElement) :
    ∃ code, encodeElement msg f elem = .ok code := by
  cases elem with
  | bytes => exact h.elim
  | records => exact h.elim
  | array elem => exact h.elim
  | _ => exact ⟨_, rfl⟩

theorem mapped_isOk {ε α β : Type} {x : Except ε α} {g : α → β} :
    (∃ b, (do let a ← x; pure (g a)) = .ok b) ↔ ∃ a, x = .ok a := by
  constructor
  · rintro ⟨b, h⟩
    obtain ⟨a, ha, _⟩ := except_bind_eq_ok.mp h
    exact ⟨a, ha⟩
  · rintro ⟨a, rfl⟩
    exact ⟨g a, rfl⟩

/-- A field has a decode expression when its shape is known. -/
theorem decodeValue_isOk : (∃ code, decodeValue msg f = .ok code) ↔ f.Shaped := by
  obtain ⟨name, ftype, versions, nullability, tag, tagged, dflt, override, inner⟩ := f
  cases nullability with
  | none =>
      cases ftype with
      | array elem =>
          have hshaped : (Field.mk name (.array elem) versions none tag tagged dflt override
              inner).Shaped ↔ elem.IsElement := by
            simp [Field.Shaped]
          rw [hshaped, ← decodeElement_isOk]
          exact mapped_isOk
      | _ => simp [decodeValue, nullableExpr, Field.Shaped]
  | some range =>
      cases ftype with
      | array elem =>
          have hshaped : (Field.mk name (.array elem) versions (some range) tag tagged dflt override
              inner).Shaped ↔ elem.IsElement := by
            simp [Field.Shaped, FieldType.CanBeNull]
          rw [hshaped, ← decodeElement_isOk]
          exact mapped_isOk
      | _ => simp [decodeValue, nullableExpr, Field.Shaped, FieldType.CanBeNull]

/-- What can be decoded can be encoded. -/
theorem encodeFieldValue_total (h : f.Shaped) : ∃ code, encodeFieldValue msg f = .ok code := by
  obtain ⟨name, ftype, versions, nullability, tag, tagged, dflt, override, inner⟩ := f
  obtain ⟨hnull, helem⟩ := h
  cases nullability with
  | none =>
      cases ftype with
      | array elem => exact mapped_isOk.mpr (encodeElement_total (helem elem rfl))
      | _ => exact ⟨_, rfl⟩
  | some range =>
      have hnull := hnull (by simp)
      cases ftype with
      | array elem => exact mapped_isOk.mpr (encodeElement_total (helem elem rfl))
      | string => exact ⟨_, rfl⟩
      | bytes => exact ⟨_, rfl⟩
      | records => exact ⟨_, rfl⟩
      | struct inner => exact ⟨_, rfl⟩
      | _ => exact hnull.elim

theorem parseIntDefault_isOk {text : Text} :
    (∃ n, parseIntDefault text = .ok n) ↔ (readIntDefault (Text.trim text)).isSome = true := by
  unfold parseIntDefault
  cases readIntDefault (Text.trim text) <;> simp

theorem parseFloatDefault_isOk {text : Text} :
    (∃ bits, parseFloatDefault parseF64 text = .ok bits) ↔ (parseF64 text).isSome = true := by
  unfold parseFloatDefault
  cases parseF64 text <;> simp

theorem innerDefault_isOk {dflt : Option Text} {ftype : FieldType} :
    (∃ expr, innerDefault parseF64 dflt ftype = .ok expr) ↔
      ∀ text, dflt = some text → text ≠ "null".toList → ftype.Spells parseF64 text := by
  cases dflt with
  | none =>
      refine ⟨fun _ _ h => (nomatch h), fun _ => ?_⟩
      cases ftype <;> exact ⟨_, rfl⟩
  | some text =>
      by_cases hnull : text = "null".toList
      · subst hnull
        refine ⟨fun _ _ h hne => absurd (Option.some.inj h).symm hne, fun _ => ?_⟩
        cases ftype <;> exact ⟨_, rfl⟩
      · have hone : (∀ other, some text = some other → other ≠ "null".toList →
            ftype.Spells parseF64 other) ↔ ftype.Spells parseF64 text := by
          refine ⟨fun h => h text rfl hnull, ?_⟩
          rintro h _ ⟨⟩ _
          exact h
        rw [hone]
        cases ftype with
        | int8 | int16 | uint16 | int32 | uint32 | int64 =>
            simp only [innerDefault, if_neg hnull]
            exact mapped_isOk.trans parseIntDefault_isOk
        | float64 =>
            simp only [innerDefault, if_neg hnull]
            exact mapped_isOk.trans parseFloatDefault_isOk
        | _ => exact ⟨fun _ => trivial, fun _ => ⟨_, rfl⟩⟩

/-- Exactly a defaultable field has a default expression. -/
theorem defaultExpr_isOk :
    (∃ expr, defaultExpr parseF64 f = .ok expr) ↔ f.Defaultable parseF64 := by
  rw [Field.Defaultable, ← innerDefault_isOk]
  by_cases hnull : defaultStr f = some "null".toList ∧ f.nullable = none
  · have hrefused : ∃ e, defaultExpr parseF64 f = .error e := by
      refine ⟨.nullDefault f.name, ?_⟩
      simp [defaultExpr, hnull]
      rfl
    obtain ⟨e, he⟩ := hrefused
    rw [he]
    exact ⟨fun ⟨_, h⟩ => (nomatch h), fun h => absurd hnull.2 (h.1 hnull.1)⟩
  · have hkept : defaultStr f = some "null".toList → f.nullable ≠ none :=
      fun h hnone => hnull ⟨h, hnone⟩
    have hrest : defaultExpr parseF64 f = (do
        let inner ← innerDefault parseF64 (defaultStr f) f.ftype
        pure (if f.nullable.isSome then
          (if decide (defaultStr f = some "null".toList) then .none else .some inner)
            else inner)) := by
      simp only [defaultExpr, decide_eq_true_iff, if_neg hnull]
    rw [hrest, mapped_isOk]
    exact ⟨fun h => ⟨hkept, h⟩, And.right⟩

theorem mapM_isOk {ε α β : Type} {g : α → Except ε β} {as : List α} :
    (∃ bs, as.mapM g = .ok bs) ↔ ∀ a ∈ as, ∃ b, g a = .ok b := by
  induction as with
  | nil => exact ⟨fun _ _ h => absurd h List.not_mem_nil, fun _ => ⟨[], rfl⟩⟩
  | cons a as ih =>
      rw [List.forall_mem_cons, ← ih]
      constructor
      · rintro ⟨bs, h⟩
        obtain _ | ⟨hb, hbs⟩ := mapM_eq_ok.mp h
        exact ⟨⟨_, hb⟩, _, mapM_eq_ok.mpr hbs⟩
      · rintro ⟨⟨b, hb⟩, bs, hbs⟩
        exact ⟨b :: bs, mapM_eq_ok.mpr (.cons hb (mapM_eq_ok.mp hbs))⟩

theorem forM_isOk {ε α : Type} {g : α → Except ε Unit} {as : List α} :
    as.forM g = .ok () ↔ ∀ a ∈ as, g a = .ok () := by
  induction as with
  | nil => exact ⟨fun _ _ h => absurd h List.not_mem_nil, fun _ => rfl⟩
  | cons a as ih =>
      rw [List.forall_mem_cons, ← ih]
      exact except_bind_eq_ok.trans ⟨fun ⟨_, ha, hrest⟩ => ⟨ha, hrest⟩,
        fun ⟨ha, hrest⟩ => ⟨(), ha, hrest⟩⟩

theorem checkTagged_isOk {d : StructDef} : checkTagged d f = .ok () ↔ f.TaggedThroughout := by
  unfold checkTagged Field.TaggedThroughout
  by_cases htag : f.tag.isSome = true <;> by_cases hversions : f.taggedVersions =
    some f.versions <;>
    simp [htag, hversions]

theorem mem_fields {d : StructDef} : f ∈ d.fields ↔ f ∈ d.wireFields ∨ f ∈ d.taggedFields := by
  have htagged : f ∈ d.taggedFields ↔ f ∈ d.fields ∧ f.tag.isSome = true := by
    rw [StructDef.taggedFields, List.mem_insertionSort, List.mem_filter]
  rw [htagged, StructDef.wireFields, List.mem_filter]
  cases f.tag <;> simp

theorem generateStruct_isOk {d : StructDef} : (∃ code, generateStruct parseF64 msg d = .ok code) ↔
    ∀ f ∈ d.fields, f.Shaped ∧ (f.tag = none → f.Defaultable parseF64) := by
  have hwire : ∀ f, f ∈ d.wireFields ↔ f ∈ d.fields ∧ f.tag = none := by
    intro f
    rw [StructDef.wireFields, List.mem_filter, Option.isNone_iff_eq_none]
  constructor
  · rintro ⟨code, h⟩ f hf
    have hcode := generateStruct_ok h
    obtain hmem | hmem := mem_fields.mp hf
    · obtain ⟨_, hdec⟩ := mapM_isOk.mp ⟨_, mapM_eq_ok.mpr hcode.decode⟩ f hmem
      obtain ⟨_, hdflt⟩ := mapM_isOk.mp ⟨_, mapM_eq_ok.mpr hcode.defaults⟩ f hmem
      exact ⟨decodeValue_isOk.mp (mapped_isOk.mp ⟨_, hdec⟩),
        fun _ => defaultExpr_isOk.mp (mapped_isOk.mp ⟨_, hdflt⟩)⟩
    · obtain ⟨_, hdec⟩ := mapM_isOk.mp ⟨_, mapM_eq_ok.mpr hcode.decodeTagged⟩ f hmem
      refine ⟨decodeValue_isOk.mp (mapped_isOk.mp ⟨_, hdec⟩), fun hnone => ?_⟩
      have htagged := (List.mem_filter.mp (List.mem_insertionSort _ |>.mp hmem)).2
      rw [hnone] at htagged
      cases htagged
  · intro h
    have hencode : ∀ f ∈ d.fields, ∃ enc, generateEncode msg f = .ok enc := fun f hf =>
      mapped_isOk.mpr (encodeFieldValue_total (h f hf).1)
    have hdecode : ∀ f ∈ d.fields, ∃ dec, decodeValue msg f = .ok dec := fun f hf =>
      decodeValue_isOk.mpr (h f hf).1
    obtain ⟨defaults, h₁⟩ := mapM_isOk.mpr fun f hf => mapped_isOk.mpr
      (defaultExpr_isOk.mpr ((h f ((hwire f).mp hf).1).2 ((hwire f).mp hf).2))
    obtain ⟨encode, h₂⟩ := mapM_isOk.mpr fun f hf => hencode f (mem_fields.mpr (.inl hf))
    obtain ⟨encodeTagged, h₃⟩ := mapM_isOk.mpr fun f hf =>
      mapped_isOk.mpr (hencode f (mem_fields.mpr (.inr hf)))
    obtain ⟨decode, h₄⟩ := mapM_isOk.mpr fun f hf =>
      mapped_isOk.mpr (hdecode f (mem_fields.mpr (.inl hf)))
    obtain ⟨decodeTagged, h₅⟩ := mapM_isOk.mpr fun f hf =>
      mapped_isOk.mpr (hdecode f (mem_fields.mpr (.inr hf)))
    exact ⟨_, except_bind_eq_ok.mpr ⟨defaults, h₁, except_bind_eq_ok.mpr ⟨encode, h₂,
      except_bind_eq_ok.mpr ⟨encodeTagged, h₃, except_bind_eq_ok.mpr ⟨decode, h₄,
        except_bind_eq_ok.mpr ⟨decodeTagged, h₅, rfl⟩⟩⟩⟩⟩⟩

theorem generated_names {ds : List StructDef} {codes : List StructCode}
    (h : List.Forall₂ (Generated parseF64 msg) ds codes) :
    codes.map StructCode.name = structNames ds := by
  induction h with
  | nil => rfl
  | cons hfirst _ ih => rw [structNames, List.map_cons, List.map_cons, hfirst.name, ih, structNames]

variable (parseF64 msg)

/-- The generator accepts a schema exactly when each of its fields is in order,
and writes one struct for each name, those defined in place with the rest. -/
theorem generateMessage_accepts :
    ((∃ program, generateMessage parseF64 msg = .ok program) ↔
      ∀ d ∈ msg.structs, ∀ f ∈ d.fields,
        f.TaggedThroughout ∧ f.Shaped ∧ (f.tag = none → f.Defaultable parseF64)) ∧
    ∀ program, generateMessage parseF64 msg = .ok program →
      program.structs.map StructCode.name = structNames msg.structs ∧
        (structNames msg.structs).Nodup ∧ ∀ d ∈ msg.structs, Defines msg.structs d.fields := by
  constructor
  · constructor
    · rintro ⟨program, h⟩ d hd f hf
      obtain ⟨_, hcheck, h⟩ := except_bind_eq_ok.mp h
      obtain ⟨structs, hstructs, _⟩ := except_bind_eq_ok.mp h
      have htagged := forM_isOk.mp (forM_isOk.mp hcheck d hd) f hf
      have hcode := generateStruct_isOk.mp (mapM_isOk.mp ⟨structs, hstructs⟩ d hd) f hf
      exact ⟨checkTagged_isOk.mp htagged, hcode⟩
    · intro h
      obtain ⟨structs, hstructs⟩ := mapM_isOk.mpr fun d hd =>
        generateStruct_isOk.mpr fun f hf => (h d hd f hf).2
      have hcheck : (msg.structs.forM fun d => d.fields.forM (checkTagged d)) = .ok () :=
        forM_isOk.mpr fun d hd => forM_isOk.mpr fun f hf => checkTagged_isOk.mpr (h d hd f hf).1
      exact ⟨_, except_bind_eq_ok.mpr ⟨(), hcheck, except_bind_eq_ok.mpr ⟨structs, hstructs, rfl⟩⟩⟩
  · intro program h
    obtain ⟨_, hstructs⟩ := generateMessage_ok h
    obtain ⟨hnodup, hdefines⟩ := structs_collected msg
    exact ⟨generated_names hstructs, hnodup, hdefines⟩

end Accepted

end Odradek.Codegen
