import Odradek.Protocol.Flexible
import Odradek.Protocol.TaggedSections

/-!
A tagged section with known fields in it. The writer puts the known ones behind
the unknown and sorts by tag; when no tag is used twice the reader gets every
field back. The sizes of what was written bound the sizes of what is read.
-/

namespace Odradek.Protocol

open Library Library.Decoder

section Sizes

variable {α : Type} {items : List α} {f : α → Bytes}

theorem le_length_flatMap {a : α} (h : a ∈ items) : (f a).length ≤ (items.flatMap f).length := by
  obtain ⟨before, after, rfl⟩ := List.append_of_mem h
  simp only [List.flatMap_append, List.flatMap_cons, List.length_append]
  omega

theorem length_le_flatMap (h : ∀ a ∈ items, f a ≠ []) :
    items.length ≤ (items.flatMap f).length := by
  induction items with
  | nil => exact Nat.le_refl _
  | cons a items ih =>
      have hfirst := List.length_pos_iff.mpr (h a List.mem_cons_self)
      have hrest := ih fun b hb => h b (List.mem_cons_of_mem _ hb)
      simp only [List.flatMap_cons, List.length_append, List.length_cons]
      omega

theorem putUnsignedVarint_ne_nil (value : Nat) : putUnsignedVarint value ≠ [] := by
  rw [putUnsignedVarint, putVarintRounds]
  split <;> exact List.cons_ne_nil _ _

theorem length_putUnsignedVarint_pos (value : Nat) : 0 < (putUnsignedVarint value).length :=
  List.length_pos_iff.mpr (putUnsignedVarint_ne_nil value)

theorem data_lt_putTaggedField (field : RawTaggedField) :
    field.data.length < (putTaggedField field).length := by
  have := length_putUnsignedVarint_pos field.tag
  simp only [putTaggedField, List.length_append]
  omega

theorem data_lt_putTaggedFields {fields : List RawTaggedField} {field : RawTaggedField}
    (h : field ∈ fields) : field.data.length < (putTaggedFields fields).length := by
  have hfield := data_lt_putTaggedField field
  have hflat := le_length_flatMap (f := putTaggedField) h
  simp only [putTaggedFields, List.length_append]
  omega

theorem length_lt_putTaggedFields (fields : List RawTaggedField) :
    fields.length < (putTaggedFields fields).length := by
  have hcount := length_putUnsignedVarint_pos fields.length
  have hflat : fields.length ≤ (fields.flatMap putTaggedField).length := by
    refine length_le_flatMap fun field _ hnil => ?_
    have := data_lt_putTaggedField field
    rw [hnil] at this
    exact Nat.not_lt_zero _ this
  simp only [putTaggedFields, List.length_append]
  omega

end Sizes

section Sections

/-- Fields that may be written: `u32` tags, each above the one before. -/
structure Orderly (fields : List RawTaggedField) : Prop where
  ascending : Ascending fields
  tags : ∀ field ∈ fields, field.tag ≤ u32Max

theorem Orderly.nil : Orderly [] := ⟨.nil, fun _ h => absurd h List.not_mem_nil⟩

/-- What the reader is charged for a section. -/
def sectionCharges (fields : List RawTaggedField) : List Charge :=
  itemsCharges rawTaggedFieldSize (fun _ => []) fields 0

theorem tagsAscend_of_ascendingAfter {previous : Option Nat} {fields : List RawTaggedField}
    (hascend : AscendingAfter previous fields) (htags : ∀ field ∈ fields, field.tag ≤ u32Max)
    (hdata : ∀ field ∈ fields, field.data.length < i64Max) : TagsAscend previous fields := by
  induction fields generalizing previous with
  | nil => trivial
  | cons field fields ih =>
      obtain ⟨hfirst, hrest⟩ := ascendingAfter_cons.mp hascend
      exact ⟨hfirst, htags field List.mem_cons_self, hdata field List.mem_cons_self,
        ih hrest (fun other h => htags other (List.mem_cons_of_mem _ h))
          fun other h => hdata other (List.mem_cons_of_mem _ h)⟩

theorem getTaggedFields_orderly {fields : List RawTaggedField} (h : Orderly fields)
    (hsize : (putTaggedFields fields).length ≤ i64Max) :
    Decodes Ledger.charge getTaggedFields (putTaggedFields fields) fields
      (sectionCharges fields) := by
  have hcount := length_lt_putTaggedFields fields
  unfold i64Max at hsize
  refine getTaggedFields_decodes (by omega)
    (tagsAscend_of_ascendingAfter (ascendingAfter_none.mpr h.ascending) h.tags fun field hmem => ?_)
  have := data_lt_putTaggedFields hmem
  unfold i64Max
  omega

theorem Ascending.eq_of_tag {fields : List RawTaggedField} (h : Ascending fields)
    {a b : RawTaggedField} (ha : a ∈ fields) (hb : b ∈ fields) (htag : a.tag = b.tag) : a = b := by
  have hnodup : (fields.map RawTaggedField.tag).Nodup :=
    (List.pairwise_map.mpr (h.imp fun hlt => Nat.ne_of_lt hlt))
  exact List.inj_on_of_nodup_map hnodup ha hb htag

/-- Known fields with the lower tags come to the front. -/
theorem sortByTag_append {known unknown : List RawTaggedField}
    (h : Ascending (known ++ unknown)) : sortByTag (unknown ++ known) = known ++ unknown := by
  have hperm : (sortByTag (unknown ++ known)).Perm (known ++ unknown) :=
    (List.perm_insertionSort _ _).trans List.perm_append_comm
  refine @List.Perm.eq_of_pairwise _ (fun a b => a.tag ≤ b.tag) _ _ ?_ ?_ ?_ hperm
  · intro a b ha hb hab hba
    exact h.eq_of_tag (hperm.subset ha) hb (Nat.le_antisymm hab hba)
  · have : IsTrans RawTaggedField fun a b => a.tag ≤ b.tag := ⟨fun _ _ _ => Nat.le_trans⟩
    have : Std.Total fun a b : RawTaggedField => a.tag ≤ b.tag := ⟨fun _ _ => Nat.le_total _ _⟩
    exact List.pairwise_insertionSort _ _
  · exact h.imp fun hlt => Nat.le_of_lt hlt

theorem putKnown_ok {α : Type} {tag : Nat} {put : α → Except EncodeError Bytes} {value : Option α}
    {fields : List RawTaggedField} (h : putKnown tag put value = .ok fields) :
    fields = value.toList.map (fun a => { tag, data := written put a }) ∧
      ∀ a, value = some a → put a = .ok (written put a) := by
  cases value with
  | none =>
      cases h
      exact ⟨rfl, fun _ hnone => (by cases hnone)⟩
  | some a =>
      obtain ⟨data, hdata, h⟩ := except_bind_eq_ok.mp h
      cases h
      obtain rfl : written put a = data := written_eq hdata
      refine ⟨rfl, ?_⟩
      rintro _ ⟨⟩
      exact hdata

/-- A known field stands in front of the fields with higher tags. -/
theorem orderly_known {α : Type} {tag : Nat} {data : α → Bytes} {value : Option α}
    {fields rest : List RawTaggedField}
    (hfields : fields = value.toList.map fun a => { tag, data := data a })
    (htag : tag ≤ u32Max) (hrest : Orderly rest) (habove : ∀ field ∈ rest, tag < field.tag) :
    Orderly (fields ++ rest) ∧ ∀ field ∈ fields ++ rest, tag ≤ field.tag := by
  subst hfields
  cases value with
  | none => exact ⟨hrest, fun field h => Nat.le_of_lt (habove field h)⟩
  | some a =>
      refine ⟨⟨List.pairwise_cons.mpr ⟨habove, hrest.ascending⟩, ?_⟩, ?_⟩
      · exact List.forall_mem_cons.mpr ⟨htag, hrest.tags⟩
      · exact List.forall_mem_cons.mpr
          ⟨Nat.le_refl _, fun field h => Nat.le_of_lt (habove field h)⟩

end Sections

end Odradek.Protocol
