import Odradek.Codegen.WireLaws

/-!
The tagged section of a struct is lawful when the tags known at the version are
used once. Known and unknown fields go out sorted by tag and come back each at
its place, charged in that order; what is read from any section is written again
in no more bytes.
-/

namespace Odradek.Codegen

open Library Library.Decoder Protocol

/-- The tags known at a version are used once, and fit. -/
structure TagsApart (ks : List KnownTag) : Prop where
  nodup : ((ks.filter (·.known)).map (·.tag)).Nodup
  fits : ∀ k ∈ ks, k.known = true → k.tag ≤ u32Max

section Places

variable {ks : List KnownTag} {k : KnownTag} {tag place : Nat}

theorem placeOf_some {start : Nat} (h : placeOf tag ks start = some (place, k)) :
    ∃ i, place = start + i ∧ ks[i]? = some k ∧ k.tag = tag ∧ k.known = true := by
  induction ks generalizing start with
  | nil => cases h
  | cons first ks ih =>
      rw [placeOf] at h
      split at h
      · cases h
        exact ⟨0, rfl, rfl, ‹tag = _ ∧ _›.1.symm, ‹tag = _ ∧ _›.2⟩
      · obtain ⟨i, hplace, hi, htag, hknown⟩ := ih h
        exact ⟨i + 1, by omega, hi, htag, hknown⟩

theorem placeOf_of_get {start i : Nat} (hnodup : ((ks.filter (·.known)).map (·.tag)).Nodup)
    (h : ks[i]? = some k) (hknown : k.known = true) : placeOf k.tag ks start =
    some (start + i, k) := by
  induction ks generalizing start i with
  | nil => cases h
  | cons first ks ih =>
      cases i with
      | zero =>
          cases h
          exact if_pos ⟨rfl, hknown⟩
      | succ i =>
          have hmem : k ∈ ks := List.mem_of_getElem? h
          have hother : ¬ (k.tag = first.tag ∧ first.known = true) := by
            rintro ⟨htag, hfirst⟩
            rw [List.filter_cons_of_pos hfirst, List.map_cons, ← htag] at hnodup
            exact (List.nodup_cons.mp hnodup).1
              (List.mem_map_of_mem (List.mem_filter.mpr ⟨hmem, hknown⟩))
          have hsub : ((ks.filter (·.known)).map (·.tag)).Sublist
              (((first :: ks).filter (·.known)).map (·.tag)) :=
            ((List.sublist_cons_self first ks).filter _).map _
          rw [placeOf, if_neg hother, ih (hsub.nodup hnodup) h, Nat.add_assoc, Nat.add_comm 1]

end Places

section Written

variable {ks : List KnownTag} {vs : List Value} {k : KnownTag} {v : Value}
  {raw : RawTaggedField} {known : List RawTaggedField}

def WrittenAt (ks : List KnownTag) (vs : List Value) (raw : RawTaggedField) : Prop :=
  ∃ (place : Nat) (k : KnownTag) (a : Value), ks[place]? = some k ∧
    vs[place]? = some (Value.some a) ∧ k.known = true ∧ k.tag = raw.tag ∧
    k.codec.put a = .ok raw.data

theorem writtenAt_cons : WrittenAt (k :: ks) (v :: vs) raw ↔
    (∃ a, v = .some a ∧ k.known = true ∧ k.tag = raw.tag ∧ k.codec.put a = .ok raw.data) ∨
      WrittenAt ks vs raw := by
  constructor
  · rintro ⟨place, k', a, hk, hv, h⟩
    cases place with
    | zero =>
        cases hk
        cases hv
        exact .inl ⟨a, rfl, h⟩
    | succ place => exact .inr ⟨place, k', a, hk, hv, h⟩
  · rintro (⟨a, rfl, h⟩ | ⟨place, k', a, hk, hv, h⟩)
    · exact ⟨0, k, a, rfl, rfl, h⟩
    · exact ⟨place + 1, k', a, hk, hv, h⟩

theorem KnownTag.put_ok (hholds : k.Holds v) (h : k.put v = .ok known) :
    (∀ raw, raw ∈ known ↔
      ∃ a, v = .some a ∧ k.known = true ∧ k.tag = raw.tag ∧ k.codec.put a = .ok raw.data) ∧
    (known.map RawTaggedField.tag).Sublist (([k].filter (·.known)).map (·.tag)) := by
  cases v with
  | none =>
      cases h
      refine ⟨fun raw => ⟨fun hmem => absurd hmem List.not_mem_nil, ?_⟩, List.nil_sublist _⟩
      rintro ⟨_, h, _⟩
      cases h
  | some a =>
      obtain ⟨hknown, _⟩ := hholds
      rw [KnownTag.put, if_pos hknown] at h
      obtain ⟨data, hdata, h⟩ := except_bind_eq_ok.mp h
      cases h
      refine ⟨fun raw => ?_, ?_⟩
      · rw [List.mem_singleton]
        constructor
        · rintro rfl
          exact ⟨a, rfl, hknown, rfl, hdata⟩
        · rintro ⟨_, ⟨⟩, _, htag, hput⟩
          obtain ⟨tag, data'⟩ := raw
          rw [hdata] at hput
          cases hput
          cases htag
          rfl
      · rw [List.filter_cons_of_pos hknown]
        exact List.Sublist.refl _
  | _ => exact hholds.elim

/-- Known tags are written under their own tags, in the order of the schema. -/
theorem putKnownTags_ok (hholds : List.Forall₂ KnownTag.Holds ks vs)
    (h : putKnownTags ks vs = .ok known) :
    (∀ raw, raw ∈ known ↔ WrittenAt ks vs raw) ∧
      (known.map RawTaggedField.tag).Sublist ((ks.filter (·.known)).map (·.tag)) := by
  induction hholds generalizing known with
  | nil =>
      cases h
      refine ⟨fun raw => ⟨fun hmem => absurd hmem List.not_mem_nil, ?_⟩, List.nil_sublist _⟩
      rintro ⟨place, _, _, hk, _⟩
      cases hk
  | @cons k v ks vs hfirst _ ih =>
      obtain ⟨field, hfield, h⟩ := except_bind_eq_ok.mp h
      obtain ⟨rest, hrest, h⟩ := except_bind_eq_ok.mp h
      cases h
      obtain ⟨hmem, hsub⟩ := KnownTag.put_ok hfirst hfield
      obtain ⟨hmems, hsubs⟩ := ih hrest
      refine ⟨fun raw => ?_, ?_⟩
      · rw [List.mem_append, hmem, hmems, writtenAt_cons]
      · rw [List.map_append, ← List.singleton_append, List.filter_append, List.map_append]
        exact hsub.append hsubs

theorem putKnownTags_total (h : List.Forall₂ (fun k v => ∃ field, k.put v = .ok field) ks vs) :
    ∃ known, putKnownTags ks vs = .ok known := by
  induction h with
  | nil => exact ⟨[], rfl⟩
  | cons hfirst _ ih =>
      obtain ⟨field, hfield⟩ := hfirst
      obtain ⟨rest, hrest⟩ := ih
      refine ⟨field ++ rest, ?_⟩
      simp only [putKnownTags, hfield, hrest]
      rfl

theorem putKnownTags_each (h : putKnownTags ks vs = .ok known) :
    List.Forall₂ (fun k v => ∃ field, k.put v = .ok field) ks vs := by
  induction ks generalizing vs known with
  | nil =>
      cases vs with
      | nil => exact .nil
      | cons v vs => cases h
  | cons k ks ih =>
      cases vs with
      | nil => cases h
      | cons v vs =>
          obtain ⟨field, hfield, h⟩ := except_bind_eq_ok.mp h
          obtain ⟨rest, hrest, h⟩ := except_bind_eq_ok.mp h
          exact .cons ⟨field, hfield⟩ (ih hrest)

theorem putKnownTags_refuses (hlawful : ∀ k ∈ ks, LawfulWire k.codec)
    (hholds : List.Forall₂ KnownTag.Holds ks vs) {e : EncodeHalt}
    (h : putKnownTags ks vs = .error e) : TooLong e := by
  induction hholds with
  | nil => cases h
  | @cons k v ks vs hfirst _ ih =>
      have hone : ∀ e, k.put v = .error e → TooLong e := by
        intro e hput
        cases v with
        | none => cases hput
        | some a =>
            obtain ⟨hknown, hdom⟩ := hfirst
            rw [KnownTag.put, if_pos hknown] at hput
            cases hdata : k.codec.put a with
            | ok data =>
                rw [hdata] at hput
                cases hput
            | error e' =>
                rw [hdata] at hput
                cases hput
                exact (hlawful k List.mem_cons_self).refuses a e hdom hdata
        | _ => exact hfirst.elim
      simp only [putKnownTags] at h
      cases hfield : k.put v with
      | error e' =>
          rw [hfield] at h
          cases h
          exact hone e hfield
      | ok field =>
          cases hrest : putKnownTags ks vs with
          | error e' =>
              rw [hfield, hrest] at h
              cases h
              exact ih (fun k hk => hlawful k (List.mem_cons_of_mem _ hk)) hrest
          | ok rest =>
              rw [hfield, hrest] at h
              cases h

end Written

section Sorted

variable {fields other : List RawTaggedField}

theorem Ascending.nodup_tags (h : Ascending fields) : (fields.map RawTaggedField.tag).Nodup :=
  List.pairwise_map.mpr (h.imp fun hlt => Nat.ne_of_lt hlt)

theorem Ascending.eq_of_perm (h : Ascending fields) (h' : Ascending other)
    (hperm : fields.Perm other) : fields = other :=
  hperm.eq_of_pairwise (fun _ _ _ _ hab hba => absurd hab (Nat.lt_asymm hba)) h h'

/-- Distinct tags, once sorted, ascend. -/
theorem sortByTag_ascending (h : (fields.map RawTaggedField.tag).Nodup) :
    Ascending (sortByTag fields) := by
  have : IsTrans RawTaggedField fun a b => a.tag ≤ b.tag := ⟨fun _ _ _ => Nat.le_trans⟩
  have : Std.Total fun a b : RawTaggedField => a.tag ≤ b.tag := ⟨fun _ _ => Nat.le_total _ _⟩
  have hsorted : (sortByTag fields).Pairwise fun a b => a.tag ≤ b.tag :=
    List.pairwise_insertionSort _ _
  have hperm : (sortByTag fields).Perm fields := List.perm_insertionSort _ _
  have hdistinct : (sortByTag fields).Pairwise fun a b => a.tag ≠ b.tag :=
    List.pairwise_map.mp ((hperm.map RawTaggedField.tag).nodup_iff.mpr h)
  exact hsorted.imp₂ (fun _ _ hle hne => Nat.lt_of_le_of_ne hle hne) hdistinct

end Sorted

section Filled

variable {branch : Nat → Option (Nat × Decode Value)} {target current : List Value}
  {raws : List RawTaggedField} {raw : RawTaggedField} {unknown : Vec RawTaggedField}

/-- Whatever is not there yet is still to come. -/
def Fills (branch : Nat → Option (Nat × Decode Value)) (target current : List Value)
    (raws : List RawTaggedField) : Prop :=
  current.length = target.length ∧ ∀ place : Nat, current[place]? = target[place]? ∨
    ∃ raw ∈ raws, (branch raw.tag).map Prod.fst = some place

theorem Fills.nil (h : Fills branch target current []) : current = target := by
  refine List.ext_getElem? fun place => ?_
  obtain heq | ⟨_, hmem, _⟩ := h.2 place
  · exact heq
  · exact absurd hmem List.not_mem_nil

theorem Fills.skip (h : Fills branch target current (raw :: raws)) (hnone : branch raw.tag = none) :
    Fills branch target current raws := by
  refine ⟨h.1, fun place => ?_⟩
  obtain heq | ⟨other, hmem, hplace⟩ := h.2 place
  · exact .inl heq
  · obtain rfl | hmem := List.mem_cons.mp hmem
    · rw [hnone] at hplace
      cases hplace
    · exact .inr ⟨other, hmem, hplace⟩

theorem Fills.set {place : Nat} {d : Decode Value} {v : Value}
    (h : Fills branch target current (raw :: raws)) (hsome : branch raw.tag = some (place, d))
    (hv : target[place]? = some v) : Fills branch target (current.set place v) raws := by
  refine ⟨by rw [List.length_set, h.1], fun p => ?_⟩
  by_cases hp : place = p
  · subst hp
    have hlt : place < current.length := by
      rw [h.1]
      exact (List.getElem?_eq_some_iff.mp hv).1
    exact .inl ((List.getElem?_set_self hlt).trans hv.symm)
  · rw [List.getElem?_set_ne hp]
    obtain heq | ⟨other, hmem, hplace⟩ := h.2 p
    · exact .inl heq
    · obtain rfl | hmem := List.mem_cons.mp hmem
      · rw [hsome] at hplace
        cases hplace
        exact absurd rfl hp
      · exact .inr ⟨other, hmem, hplace⟩

/-- What the fields of a section charge in the order of their tags: a known one
what its own value does, any other one the place it is kept in. -/
def takenCharges (present : List (Nat × List Charge)) :
    (tags : List Nat) → (kept : Nat) → List Charge
  | [], _ => []
  | tag :: tags, kept =>
    match present.lookup tag with
    | some cs => cs ++ takenCharges present tags kept
    | none => pushCharges rawTaggedFieldSize kept ++ takenCharges present tags (kept + 1)

/-- Every field of a section, each read from its own data or kept. -/
theorem takeAllTagged_charges {present : List (Nat × List Charge)}
    (hfills : Fills branch target current raws) (hunknown : unknown.Pushed rawTaggedFieldSize)
    (hkept : ∀ raw ∈ raws, branch raw.tag = none → present.lookup raw.tag = none)
    (hread : ∀ raw ∈ raws, ∀ place d, branch raw.tag = some (place, d) →
      ∃ v cs, target[place]? = some (Value.some v) ∧ present.lookup raw.tag = some cs ∧
        Decodes Ledger.charge d raw.data v cs) :
    Decodes Ledger.charge (takeAllTagged branch raws current unknown) []
      (target, unknown.items ++ raws.filter fun raw => (branch raw.tag).isNone)
      (takenCharges present (raws.map RawTaggedField.tag) unknown.items.length) := by
  induction raws generalizing current unknown with
  | nil =>
      rw [hfills.nil, List.filter_nil, List.append_nil]
      exact .pure
  | cons raw raws ih =>
      have hkept' : ∀ other ∈ raws, branch other.tag = none → present.lookup other.tag = none :=
        fun other hmem => hkept other (List.mem_cons_of_mem _ hmem)
      have hread' : ∀ other ∈ raws, ∀ place d, branch other.tag = some (place, d) →
          ∃ v cs, target[place]? = some (Value.some v) ∧ present.lookup other.tag = some cs ∧
            Decodes Ledger.charge d other.data v cs :=
        fun other hmem => hread other (List.mem_cons_of_mem _ hmem)
      rw [List.map_cons, takenCharges]
      cases hbranch : branch raw.tag with
      | none =>
          have hpushed : (unknown.append rawTaggedFieldSize raw).Pushed rawTaggedFieldSize :=
            .append raw
          have hall := ih (hfills.skip hbranch) hpushed hkept' hread'
          have hkeep := (push_decodes hunknown raw).bind_pure fun kept => (current, kept)
          rw [List.filter_cons_of_pos (by rw [hbranch]; rfl), hkept raw List.mem_cons_self hbranch]
          simp only [Vec.append, List.append_assoc, List.singleton_append, List.length_append,
            List.length_singleton] at hall
          simp only [takeAllTagged, takeTagged, hbranch]
          exact Decodes.bind_unread hkeep hall
      | some found =>
          obtain ⟨place, d⟩ := found
          obtain ⟨v, cs, htarget, hcs, hd⟩ := hread raw List.mem_cons_self place d hbranch
          have hall := ih (hfills.set hbranch htarget) hunknown hkept' hread'
          have hset := (getKnown_decodes hd).bind_pure fun v =>
            (current.set place (Value.some v), unknown)
          rw [List.filter_cons_of_neg (by rw [hbranch]; simp), hcs]
          simp only [takeAllTagged, takeTagged, hbranch]
          exact Decodes.bind_unread hset hall

end Filled

section Sent

variable {ks : List KnownTag} {vs : List Value} {raw : RawTaggedField}
  {known unknown : List RawTaggedField}

theorem WrittenAt.placed (hapart : TagsApart ks) (h : WrittenAt ks vs raw) :
    ∃ place k a, placeOf raw.tag ks 0 = some (place, k) ∧ k ∈ ks ∧
      ks[place]? = some k ∧ vs[place]? = some (Value.some a) ∧ k.codec.put a = .ok raw.data := by
  obtain ⟨place, k, a, hk, hv, hknown, htag, hput⟩ := h
  refine ⟨place, k, a, ?_, List.mem_of_getElem? hk, hk, hv, hput⟩
  rw [← htag, placeOf_of_get hapart.nodup hk hknown, Nat.zero_add]

theorem KnownTag.Holds.of_get {place : Nat} {k : KnownTag} {a : Value}
    (h : List.Forall₂ KnownTag.Holds ks vs) (hk : ks[place]? = some k)
    (hv : vs[place]? = some (Value.some a)) : k.known = true ∧ k.codec.Domain a := by
  obtain ⟨hlt, rfl⟩ := List.getElem?_eq_some_iff.mp hk
  obtain ⟨hlt', hv⟩ := List.getElem?_eq_some_iff.mp hv
  have hholds : (ks.get ⟨place, hlt⟩).Holds (vs.get ⟨place, hlt'⟩) := h.get hlt hlt'
  have hget : vs.get ⟨place, hlt'⟩ = Value.some a := hv
  rw [hget] at hholds
  exact hholds

/-- The section that is sent ascends, known and unknown together. -/
theorem sent_orderly (hapart : TagsApart ks) (hholds : List.Forall₂ KnownTag.Holds ks vs)
    (hput : putKnownTags ks vs = .ok known) (hunknown : UnknownTags ks unknown) :
    Orderly (sortByTag (unknown ++ known)) := by
  obtain ⟨hmem, hsub⟩ := putKnownTags_ok hholds hput
  refine ⟨sortByTag_ascending ?_, ?_⟩
  · rw [List.map_append]
    refine List.Nodup.append (Ascending.nodup_tags hunknown.orderly.ascending)
      (hsub.nodup hapart.nodup) ?_
    intro tag hone htwo
    obtain ⟨raw, hraw, rfl⟩ := List.mem_map.mp hone
    obtain ⟨other, hother, htag⟩ := List.mem_map.mp htwo
    obtain ⟨place, k, _, hplace, _⟩ := ((hmem other).mp hother).placed hapart
    rw [htag, hunknown.unknown raw hraw] at hplace
    cases hplace
  · intro raw hraw
    obtain hraw | hraw := List.mem_append.mp ((List.perm_insertionSort _ _).subset hraw)
    · exact hunknown.orderly.tags raw hraw
    · obtain ⟨place, k, a, hk, hv, hknown, htag, _⟩ := (hmem raw).mp hraw
      rw [← htag]
      exact hapart.fits k (List.mem_of_getElem? hk) hknown

/-- Out of what was sent, the unknown fields are those with no place. -/
theorem sent_unknown (hapart : TagsApart ks) (hholds : List.Forall₂ KnownTag.Holds ks vs)
    (hput : putKnownTags ks vs = .ok known) (hunknown : UnknownTags ks unknown)
    {p : RawTaggedField → Bool} (hp : ∀ raw, p raw = (placeOf raw.tag ks 0).isNone) :
    (sortByTag (unknown ++ known)).filter p = unknown := by
  have hkept : unknown.filter p = unknown := by
    refine List.filter_eq_self.mpr fun raw hraw => ?_
    rw [hp, hunknown.unknown raw hraw]
    rfl
  have hgone : known.filter p = [] := by
    refine List.filter_eq_nil_iff.mpr fun raw hraw => ?_
    obtain ⟨place, k, a, hplace, _⟩ := (((putKnownTags_ok hholds hput).1 raw).mp hraw).placed hapart
    rw [hp, hplace]
    exact Bool.false_ne_true
  have hperm : ((sortByTag (unknown ++ known)).filter p).Perm unknown := by
    have h := (List.perm_insertionSort (fun a b : RawTaggedField => a.tag ≤ b.tag)
      (unknown ++ known)).filter p
    rwa [List.filter_append, hkept, hgone, List.append_nil] at h
  exact Ascending.eq_of_perm ((sent_orderly hapart hholds hput hunknown).ascending.filter p)
    hunknown.orderly.ascending hperm

/-- The tagged fields start out absent; those that were sent fill in the rest. -/
theorem fills_sent {branch : Nat → Option (Nat × Decode Value)}
    (hbranch : ∀ tag, branch tag = (placeOf tag ks 0).map fun p => (p.1, p.2.codec.get))
    (hapart : TagsApart ks) (hholds : List.Forall₂ KnownTag.Holds ks vs)
    (hput : putKnownTags ks vs = .ok known) :
    Fills branch vs (noTags ks) (sortByTag (unknown ++ known)) := by
  have hlen : (noTags ks).length = vs.length := by rw [noTags, List.length_map, hholds.length_eq]
  refine ⟨hlen, fun place => ?_⟩
  by_cases hlt : place < ks.length
  · have hltv : place < vs.length := hholds.length_eq ▸ hlt
    have hv : vs[place]? = some vs[place] := List.getElem?_eq_getElem hltv
    have hfirst : (ks.get ⟨place, hlt⟩).Holds (vs.get ⟨place, hltv⟩) := hholds.get hlt hltv
    obtain ⟨field, hfield⟩ := (putKnownTags_each hput).get hlt hltv
    simp only [List.get_eq_getElem] at hfirst hfield
    cases hvalue : vs[place] with
    | none =>
        rw [hvalue] at hv
        exact .inl (by rw [hv, noTags, List.getElem?_map, List.getElem?_eq_getElem hlt]; rfl)
    | some a =>
        rw [hvalue] at hv hfirst hfield
        rw [KnownTag.put, if_pos hfirst.1] at hfield
        obtain ⟨data, hdata, _⟩ := except_bind_eq_ok.mp hfield
        have hwritten : WrittenAt ks vs { tag := ks[place].tag, data } :=
          ⟨place, ks[place], a, List.getElem?_eq_getElem hlt, hv, hfirst.1, rfl, hdata⟩
        have hmem := ((putKnownTags_ok hholds hput).1 _).mpr hwritten
        refine .inr
          ⟨_, (List.perm_insertionSort _ _).symm.subset (List.mem_append_right _ hmem), ?_⟩
        rw [hbranch, placeOf_of_get hapart.nodup (List.getElem?_eq_getElem hlt) hfirst.1,
          Nat.zero_add]
        rfl
    | _ =>
        rw [hvalue] at hfirst
        exact hfirst.elim
  · have hle := Nat.le_of_not_lt hlt
    rw [hholds.length_eq] at hle
    exact .inl (by rw [List.getElem?_eq_none (hlen ▸ hle), List.getElem?_eq_none hle])

end Sent

section Charged

/-- The tags that have a value, each with what its value charges. -/
def presentTags {ι : Type} (tag : ι → Nat) (known : ι → Bool) (f : ι → Value → List Charge) :
    List ι → List Value → List (Nat × List Charge)
  | i :: is, .some v :: vs =>
    if known i then (tag i, f i v) :: presentTags tag known f is vs
    else presentTags tag known f is vs
  | _ :: is, _ :: vs => presentTags tag known f is vs
  | _, _ => []

/-- Of a section: the vector it is read into, then its fields. -/
def tagsCharges {ι : Type} (tag : ι → Nat) (known : ι → Bool) (f : ι → Value → List Charge)
    (is : List ι) (tags : List Value × List RawTaggedField) : List Charge :=
  let present := presentTags tag known f is tags.1
  let sent := (tags.2.map RawTaggedField.tag ++ present.map Prod.fst).insertionSort (· ≤ ·)
  itemsCharges rawTaggedFieldSize (fun _ => []) sent 0 ++
    if is.isEmpty then [] else takenCharges present sent 0

variable {ι : Type} {known : ι → KnownTag} {f : ι → Value → List Charge} {is : List ι}
  {vs : List Value} {sent unknown : List RawTaggedField}

abbrev presentOf (known : ι → KnownTag) (f : ι → Value → List Charge) :
    List ι → List Value → List (Nat × List Charge) :=
  presentTags (fun i => (known i).tag) (fun i => (known i).known) f

theorem presentTags_cons_none (i : ι) :
    presentOf known f (i :: is) (.none :: vs) = presentOf known f is vs := rfl

theorem presentTags_cons_some {i : ι} (h : (known i).known = true) (a : Value) :
    presentOf known f (i :: is) (.some a :: vs) =
      ((known i).tag, f i a) :: presentOf known f is vs :=
  if_pos h

/-- They are the tags that go out. -/
theorem tags_putKnownTags (hholds : List.Forall₂ KnownTag.Holds (is.map known) vs)
    (hput : putKnownTags (is.map known) vs = .ok sent) :
    (presentOf known f is vs).map Prod.fst = sent.map RawTaggedField.tag := by
  induction is generalizing vs sent with
  | nil =>
      cases hholds
      cases hput
      rfl
  | cons i is ih =>
      rw [List.map_cons] at hholds
      cases hholds with
      | @cons _ v _ vs hfirst hrest =>
          obtain ⟨field, hfield, hput⟩ := except_bind_eq_ok.mp hput
          obtain ⟨rest, hrest', hput⟩ := except_bind_eq_ok.mp hput
          cases hput
          have htags := ih hrest hrest'
          cases v with
          | none =>
              cases hfield
              rw [presentTags_cons_none, htags, List.nil_append]
          | some a =>
              obtain ⟨hknown, _⟩ := hfirst
              rw [KnownTag.put, if_pos hknown] at hfield
              obtain ⟨data, _, hfield⟩ := except_bind_eq_ok.mp hfield
              cases hfield
              rw [presentTags_cons_some hknown, List.map_cons, htags]
              rfl
          | _ => exact hfirst.elim

theorem lookup_presentTags {place : Nat} {i : ι} {a : Value}
    (hholds : List.Forall₂ KnownTag.Holds (is.map known) vs)
    (hnodup : (((is.map known).filter (·.known)).map (·.tag)).Nodup) (hi : is[place]? = some i)
    (ha : vs[place]? = some (Value.some a)) (hknown : (known i).known = true) :
    (presentOf known f is vs).lookup (known i).tag = some (f i a) := by
  induction is generalizing vs place with
  | nil => cases hi
  | cons first is ih =>
      rw [List.map_cons] at hholds
      cases hholds with
      | @cons _ v _ vs hfirst hrest =>
          cases place with
          | zero =>
              cases hi
              cases ha
              rw [presentTags_cons_some hknown, List.lookup_cons_self]
          | succ place =>
              have hsub : (((is.map known).filter (·.known)).map (·.tag)).Sublist
                  ((((first :: is).map known).filter (·.known)).map (·.tag)) :=
                ((List.sublist_cons_self (known first) (is.map known)).filter _).map _
              have hlookup := ih hrest (hsub.nodup hnodup) hi ha
              cases v with
              | none => rwa [presentTags_cons_none]
              | some b =>
                  rw [List.map_cons, List.filter_cons_of_pos hfirst.1, List.map_cons] at hnodup
                  have hother : (known i).tag ≠ (known first).tag := by
                    intro heq
                    rw [← heq] at hnodup
                    exact (List.nodup_cons.mp hnodup).1 (List.mem_map_of_mem
                      (List.mem_filter.mpr ⟨List.mem_map_of_mem (List.mem_of_getElem? hi), hknown⟩))
                  rw [presentTags_cons_some hfirst.1, List.lookup_cons,
                    beq_eq_false_iff_ne.mpr hother]
                  exact hlookup
              | _ => exact hfirst.elim

theorem lookup_presentTags_none {tag start : Nat}
    (hholds : List.Forall₂ KnownTag.Holds (is.map known) vs)
    (h : placeOf tag (is.map known) start = none) :
    (presentOf known f is vs).lookup tag = none := by
  induction is generalizing vs start with
  | nil =>
      cases hholds
      rfl
  | cons first is ih =>
      rw [List.map_cons] at hholds h
      cases hholds with
      | @cons _ v _ vs hfirst hrest =>
          rw [placeOf] at h
          split at h
          · cases h
          · rename_i hne
            have hlookup := ih hrest h
            cases v with
            | none => rwa [presentTags_cons_none]
            | some b =>
                have hother : tag ≠ (known first).tag := fun heq => hne ⟨heq, hfirst.1⟩
                rw [presentTags_cons_some hfirst.1, List.lookup_cons,
                  beq_eq_false_iff_ne.mpr hother]
                exact hlookup
            | _ => exact hfirst.elim

theorem tags_sortByTag (fields : List RawTaggedField) :
    (sortByTag fields).map RawTaggedField.tag =
      (fields.map RawTaggedField.tag).insertionSort (· ≤ ·) :=
  List.map_insertionSort _ _ _ _ fun _ _ _ _ => Iff.rfl

theorem tagsCharges_nil (unknown : List RawTaggedField) :
    tagsCharges (fun i => (known i).tag) (fun i => (known i).known) f [] ([], unknown) =
      sectionCharges unknown := by
  rw [tagsCharges, List.isEmpty_nil, if_pos rfl, List.append_nil]
  exact itemsCharges_free (by simp [presentTags]) 0

theorem tagsCharges_sent (his : is ≠ [])
    (hholds : List.Forall₂ KnownTag.Holds (is.map known) vs)
    (hsent : putKnownTags (is.map known) vs = .ok sent) :
    tagsCharges (fun i => (known i).tag) (fun i => (known i).known) f is (vs, unknown) =
      sectionCharges (sortByTag (unknown ++ sent)) ++
        takenCharges (presentOf known f is vs)
          ((sortByTag (unknown ++ sent)).map RawTaggedField.tag) 0 := by
  rw [tagsCharges, tags_putKnownTags hholds hsent, ← List.map_append, ← tags_sortByTag,
    if_neg (by simpa using his)]
  exact congrArg (· ++ _) (itemsCharges_free (by rw [List.length_map]) 0)

/-- What was sent under a known tag is read as the value there, for its charges. -/
theorem sent_charges (hcharges : ∀ i ∈ is, ChargesWire (known i).codec (f i))
    (hapart : TagsApart (is.map known)) (hholds : List.Forall₂ KnownTag.Holds (is.map known) vs)
    (hsent : putKnownTags (is.map known) vs = .ok sent)
    (hunknown : UnknownTags (is.map known) unknown) {raw : RawTaggedField}
    (hraw : raw ∈ sortByTag (unknown ++ sent)) (hcap : raw.data.length ≤ i64Max) {place : Nat}
    {d : Decode Value}
    (hd : (placeOf raw.tag (is.map known) 0).map (fun p => (p.1, p.2.codec.get)) =
      some (place, d)) :
    ∃ v cs, vs[place]? = some (Value.some v) ∧
      (presentOf known f is vs).lookup raw.tag = some cs ∧
        Decodes Ledger.charge d raw.data v cs := by
  obtain hraw | hraw := List.mem_append.mp ((List.perm_insertionSort _ _).subset hraw)
  · rw [hunknown.unknown raw hraw] at hd
    cases hd
  · obtain ⟨p, k, a, hplace, _, hk, hv, hdata⟩ :=
      (((putKnownTags_ok hholds hsent).1 raw).mp hraw).placed hapart
    obtain ⟨_, _, _, htag, _⟩ := placeOf_some hplace
    rw [hplace] at hd
    cases hd
    obtain ⟨hknown, ha⟩ := KnownTag.Holds.of_get hholds hk hv
    rw [List.getElem?_map] at hk
    obtain ⟨i, hi, rfl⟩ := Option.map_eq_some_iff.mp hk
    rw [← htag]
    exact ⟨a, _, hv, lookup_presentTags hholds hapart.nodup hi hv hknown,
      hcharges i (List.mem_of_getElem? hi) a raw.data ha hdata hcap⟩

/-- A section that was sent is received, for the charges of what is in it. -/
theorem section_charges (hcharges : ∀ i ∈ is, ChargesWire (known i).codec (f i))
    (hapart : TagsApart (is.map known)) :
    ChargesWire (sectionCodec (is.map known))
      (tagsCharges (fun i => (known i).tag) (fun i => (known i).known) f is) := by
  rintro ⟨vs, unknown⟩ bytes ⟨hholds, hunknown⟩ hput hcap
  simp only [sectionCodec, List.map_eq_nil_iff] at hholds hunknown hput ⊢
  by_cases his : is = []
  · simp only [if_pos his] at hput ⊢
    cases hput
    subst his
    cases hholds
    have hfields := getTaggedFields_orderly hunknown.orderly hcap
    rw [tagsCharges_nil]
    exact hfields.bind_pure fun raws => ([], raws)
  · simp only [if_neg his] at hput ⊢
    obtain ⟨sent, hsent, hput⟩ := except_bind_eq_ok.mp hput
    cases hput
    have hfields := getTaggedFields_orderly (sent_orderly hapart hholds hsent hunknown) hcap
    have hkept : ∀ raw ∈ sortByTag (unknown ++ sent),
        (placeOf raw.tag (is.map known) 0).map (fun p => (p.1, p.2.codec.get)) = none →
        (presentOf known f is vs).lookup raw.tag = none :=
      fun raw _ hnone => lookup_presentTags_none hholds (Option.map_eq_none_iff.mp hnone)
    have hall := takeAllTagged_charges (fills_sent (fun _ => rfl) hapart hholds hsent) .new hkept
      fun raw hraw place d hd => by
        have hsize := data_lt_putTaggedFields hraw
        exact sent_charges hcharges hapart hholds hsent hunknown hraw (by omega) hd
    rw [sent_unknown hapart hholds hsent hunknown fun raw => Option.isNone_map] at hall
    rw [tagsCharges_sent his hholds hsent]
    exact hfields.bind_read hall

variable {ks : List KnownTag}

theorem section_reads {bytes : Bytes} (hlawful : ∀ k ∈ ks, LawfulWire k.codec)
    (hapart : TagsApart ks) (hdom : (sectionCodec ks).Domain (vs, unknown))
    (hput : (sectionCodec ks).put (vs, unknown) = .ok bytes) (hcap : bytes.length ≤ i64Max) :
    ∃ cs, Decodes Ledger.charge (sectionCodec ks).get bytes (vs, unknown) cs := by
  have hown : ∀ k : KnownTag, ∃ f, k ∈ ks → ChargesWire k.codec f := by
    intro k
    by_cases hk : k ∈ ks
    · obtain ⟨f, hf⟩ := (hlawful k hk).charges
      exact ⟨f, fun _ => hf⟩
    · exact ⟨fun _ => [], fun h => absurd h hk⟩
  choose f hf using hown
  rw [← List.map_id ks] at hapart hdom hput ⊢
  exact (section_charges hf hapart).reads_back (vs, unknown) bytes hdom hput hcap

end Charged


section Received

variable {ks : List KnownTag} {tagged : List Value} {unknown : Vec RawTaggedField}
  {raw : RawTaggedField} {raws raws' done done' : List RawTaggedField} {s t : Reader Ledger}

def Shortened (raw raw' : RawTaggedField) : Prop :=
  raw'.tag = raw.tag ∧ raw'.data.length ≤ raw.data.length

/-- After the fields `raws`: what has its place can be written, and with what has
none it makes up `raws'`. -/
structure Settled (ks : List KnownTag) (raws : List RawTaggedField) (tagged : List Value)
    (unknown raws' : List RawTaggedField) : Prop where
  shortened : List.Forall₂ Shortened raws raws'
  holds : List.Forall₂ KnownTag.Holds ks tagged
  writes : List.Forall₂ (fun k v => ∃ field, k.put v = .ok field) ks tagged
  known : ∀ raw, WrittenAt ks tagged raw ↔ raw ∈ raws' ∧ placeOf raw.tag ks 0 ≠ none
  unknown : unknown = raws'.filter fun raw => placeOf raw.tag ks 0 = none

theorem noTags_forall (ks : List KnownTag) {R : KnownTag → Value → Prop} (h : ∀ k, R k .none) :
    List.Forall₂ R ks (noTags ks) := by
  induction ks with
  | nil => exact .nil
  | cons k ks ih => exact .cons (h k) ih

theorem Settled.start (ks : List KnownTag) : Settled ks [] (noTags ks) [] [] :=
  { shortened := .nil
    holds := noTags_forall ks fun _ => trivial
    writes := noTags_forall ks fun _ => ⟨[], rfl⟩
    known := by
      intro raw
      refine ⟨?_, fun h => absurd h.1 List.not_mem_nil⟩
      rintro ⟨place, k, a, _, hv, _⟩
      obtain ⟨_, _, hnone⟩ := List.mem_map.mp (List.mem_of_getElem? hv)
      cases hnone
    unknown := rfl }

theorem forall_set {R : KnownTag → Value → Prop} {place : Nat} {k : KnownTag} {v : Value}
    (h : List.Forall₂ R ks tagged) (hk : ks[place]? = some k) (hv : R k v) :
    List.Forall₂ R ks (tagged.set place v) := by
  induction h generalizing place with
  | nil => exact .nil
  | cons hfirst hrest ih =>
      cases place with
      | zero =>
          cases hk
          exact .cons hv hrest
      | succ place => exact .cons hfirst (ih hk)

theorem getKnown_ok {α : Type} {d : Decode α} {data : Bytes} {a : α}
    (h : getKnown d data s = .ok a t) :
    t.bytes = s.bytes ∧ ∃ u, d { s with bytes := data } = .ok a u ∧ u.bytes = [] := by
  unfold getKnown Decoder.within at h
  split at h
  · rename_i b u hrun
    cases h
    obtain ⟨a', v, hd, hused⟩ := bind_eq_ok.mp hrun
    obtain ⟨left, w, hleft, hused⟩ := bind_eq_ok.mp hused
    cases hleft
    obtain ⟨_, x, hfail, hused⟩ := bind_eq_ok.mp hused
    cases hused
    obtain ⟨hzero, rfl⟩ := failIf_ok hfail
    exact ⟨rfl, _, hd, List.length_eq_zero_iff.mp (not_not.mp hzero)⟩
  · cases h

/-- Tags come in order, so each place is filled once. -/
theorem Settled.take {branch : Nat → Option (Nat × Decode Value)} {tagged' : List Value}
    {unknown' : Vec RawTaggedField}
    (hbranch : ∀ tag, branch tag = (placeOf tag ks 0).map fun p => (p.1, p.2.codec.get))
    (hlawful : ∀ k ∈ ks, LawfulWire k.codec) (h : Settled ks done tagged unknown.items done')
    (hafter : ∀ other ∈ done', other.tag < raw.tag)
    (htake : takeTagged branch tagged unknown raw s = .ok (tagged', unknown') t) :
    t.bytes = s.bytes ∧ ∃ raw', Shortened raw raw' ∧
      Settled ks (done ++ [raw]) tagged' unknown'.items (done' ++ [raw']) := by
  cases hplace : placeOf raw.tag ks 0 with
  | none =>
      have hnone : branch raw.tag = none := by rw [hbranch, hplace]; rfl
      simp only [takeTagged, hnone] at htake
      obtain ⟨kept, u, hpush, htake⟩ := bind_eq_ok.mp htake
      cases htake
      obtain ⟨hitems, hbytes⟩ := push_items hpush
      refine ⟨hbytes, raw, ⟨rfl, Nat.le_refl _⟩, ?_⟩
      exact
        { shortened := List.rel_append h.shortened (.cons ⟨rfl, Nat.le_refl _⟩ .nil)
          holds := h.holds
          writes := h.writes
          known := by
            intro other
            rw [h.known, List.mem_append, List.mem_singleton]
            refine ⟨fun hmem => ⟨.inl hmem.1, hmem.2⟩, ?_⟩
            rintro ⟨hmem | rfl, hne⟩
            · exact ⟨hmem, hne⟩
            · exact absurd hplace hne
          unknown := by
            rw [hitems, h.unknown, List.filter_append,
              List.filter_cons_of_pos (by simpa using hplace)]
            rfl }
  | some found =>
      obtain ⟨place, k⟩ := found
      obtain ⟨i, hi, hk, htag, hknown⟩ := placeOf_some hplace
      rw [Nat.zero_add] at hi
      subst hi
      have hsome : branch raw.tag = some (place, k.codec.get) := by rw [hbranch, hplace]; rfl
      simp only [takeTagged, hsome] at htake
      obtain ⟨v, u, hread, htake⟩ := bind_eq_ok.mp htake
      cases htake
      obtain ⟨hbytes, left, hd, hleft⟩ := getKnown_ok hread
      obtain ⟨hdom, used, data, hused, hput, hle, _⟩ :=
        (hlawful k (List.mem_of_getElem? hk)).settles _ v left hd
      rw [hleft, List.append_nil] at hused
      have hshort : Shortened raw { tag := raw.tag, data } :=
        ⟨rfl, by rw [← hused] at hle; exact hle⟩
      have hlt : place < tagged.length := by
        rw [← h.holds.length_eq]
        exact (List.getElem?_eq_some_iff.mp hk).1
      refine ⟨hbytes, _, hshort, ?_⟩
      exact
        { shortened := List.rel_append h.shortened (.cons hshort .nil)
          holds := forall_set h.holds hk ⟨hknown, hdom⟩
          writes := by
            refine forall_set h.writes hk ⟨[{ tag := k.tag, data }], ?_⟩
            rw [KnownTag.put, if_pos hknown, hput]
            rfl
          known := by
            intro other
            rw [List.mem_append, List.mem_singleton]
            constructor
            · rintro ⟨p, k', a, hk', ha, hknown', htag', hput'⟩
              by_cases hp : place = p
              · subst hp
                rw [List.getElem?_set_self hlt] at ha
                rw [hk] at hk'
                cases hk'
                cases ha
                rw [hput] at hput'
                cases hput'
                have hother : other.tag = raw.tag := htag'.symm.trans htag
                refine ⟨.inr ?_, by rw [hother, hplace]; simp⟩
                cases other
                cases hother
                rfl
              · rw [List.getElem?_set_ne hp] at ha
                have hwritten := (h.known other).mp ⟨p, k', a, hk', ha, hknown', htag', hput'⟩
                exact ⟨.inl hwritten.1, hwritten.2⟩
            · rintro ⟨hmem | rfl, hne⟩
              · obtain ⟨p, k', a, hk', ha, hknown', htag', hput'⟩ := (h.known other).mpr ⟨hmem, hne⟩
                refine ⟨p, k', a, hk', ?_, hknown', htag', hput'⟩
                rw [List.getElem?_set_ne ?_, ha]
                rintro rfl
                rw [hk] at hk'
                cases hk'
                have hlast := hafter other hmem
                omega
              · exact ⟨place, k, _, hk, List.getElem?_set_self hlt, hknown, htag, hput⟩
          unknown := by
            rw [h.unknown, List.filter_append, List.filter_cons_of_neg (by simp [hplace]),
              List.filter_nil, List.append_nil] }

/-- The loop puts each known tag in its place and keeps the others. -/
theorem Settled.takeAll {branch : Nat → Option (Nat × Decode Value)}
    {result : List Value × List RawTaggedField}
    (hbranch : ∀ tag, branch tag = (placeOf tag ks 0).map fun p => (p.1, p.2.codec.get))
    (hlawful : ∀ k ∈ ks, LawfulWire k.codec) (h : Settled ks done tagged unknown.items done')
    (hascend : Ascending (done ++ raws))
    (htake : takeAllTagged branch raws tagged unknown s = .ok result t) :
    t.bytes = s.bytes ∧ ∃ raws', Settled ks (done ++ raws) result.1 result.2 raws' := by
  induction raws generalizing done done' tagged unknown s with
  | nil =>
      cases htake
      rw [List.append_nil]
      exact ⟨rfl, done', h⟩
  | cons raw raws ih =>
      obtain ⟨⟨tagged', unknown'⟩, u, hone, hrest⟩ := bind_eq_ok.mp htake
      have hafter : ∀ other ∈ done', other.tag < raw.tag := by
        intro other hmem
        obtain ⟨i, hi, rfl⟩ := List.getElem_of_mem hmem
        have hi' : i < done.length := h.shortened.length_eq ▸ hi
        have htag : done'[i].tag = done[i].tag := (h.shortened.get hi' hi).1
        rw [htag]
        exact (List.pairwise_append.mp hascend).2.2 _ (List.getElem_mem hi') raw List.mem_cons_self
      obtain ⟨hbytes, raw', _, hsettled⟩ := h.take hbranch hlawful hafter hone
      obtain ⟨hbytes', raws', hall⟩ := ih hsettled (by rwa [List.append_assoc]) hrest
      rw [List.append_assoc] at hall
      exact ⟨hbytes'.trans hbytes, raws', hall⟩

theorem tags_shortened (h : List.Forall₂ Shortened raws raws') :
    raws'.map RawTaggedField.tag = raws.map RawTaggedField.tag := by
  induction h with
  | nil => rfl
  | cons hfirst _ ih => rw [List.map_cons, List.map_cons, hfirst.1, ih]

theorem ascending_shortened (hascend : Ascending raws) (h : List.Forall₂ Shortened raws raws') :
    Ascending raws' := by
  have htags : (raws.map RawTaggedField.tag).Pairwise (· < ·) := List.pairwise_map.mpr hascend
  rw [← tags_shortened h] at htags
  exact List.pairwise_map.mp htags

theorem fits_shortened (hfits : ∀ raw ∈ raws, raw.tag ≤ u32Max)
    (h : List.Forall₂ Shortened raws raws') : ∀ raw ∈ raws', raw.tag ≤ u32Max := by
  intro raw hmem
  have htag := List.mem_map_of_mem (f := RawTaggedField.tag) hmem
  rw [tags_shortened h] at htag
  obtain ⟨other, hother, htag⟩ := List.mem_map.mp htag
  rw [← htag]
  exact hfits other hother

theorem length_shortened {used : Bytes} (hspelled : SectionSpelled used raws)
    (hshort : List.Forall₂ Shortened raws raws') :
    (putTaggedFields raws').length ≤ used.length := by
  obtain ⟨count, pieces, rfl, hcount, hpieces⟩ := hspelled
  have hfields : (raws'.flatMap putTaggedField).length ≤ pieces.flatten.length := by
    clear hcount
    induction hpieces generalizing raws' with
    | nil =>
        cases hshort
        exact Nat.le_refl _
    | cons hpiece _ ih =>
        cases hshort with
        | cons hfirst hrest =>
            have := ih hrest
            obtain ⟨tag, size, rfl, htag, hsize⟩ := hpiece
            have := htag.length_le (Nat.le_of_eq hfirst.1)
            have := hsize.length_le hfirst.2
            have := hfirst.2
            simp only [List.flatMap_cons, List.flatten_cons, List.length_append, putTaggedField]
            omega
  have hlen := hcount.length_le (Nat.le_of_eq hshort.length_eq.symm)
  simp only [putTaggedFields, List.length_append]
  omega

/-- What was kept of a section, sent again, is the section in its shortest form. -/
theorem Settled.sent {kept : List RawTaggedField} (h : Settled ks raws tagged kept raws')
    (hascend : Ascending raws) (hapart : TagsApart ks) :
    ∃ known, putKnownTags ks tagged = .ok known ∧ sortByTag (kept ++ known) = raws' := by
  obtain ⟨known, hknown⟩ := putKnownTags_total h.writes
  obtain ⟨hmem, hsub⟩ := putKnownTags_ok h.holds hknown
  refine ⟨known, hknown, ?_⟩
  have hascend' := ascending_shortened hascend h.shortened
  have hnodup : (known.map RawTaggedField.tag).Nodup := hsub.nodup hapart.nodup
  have hdisjoint : ∀ raw ∈ kept, raw ∉ known := by
    intro raw hkept hraw
    rw [h.unknown] at hkept
    have hnone := (List.mem_filter.mp hkept).2
    exact ((h.known raw).mp ((hmem raw).mp hraw)).2 (by simpa using hnone)
  have hperm : (kept ++ known).Perm raws' := by
    refine (List.perm_ext_iff_of_nodup ?_ (List.Nodup.of_map _ (Ascending.nodup_tags hascend'))).mpr
      fun raw => ?_
    · refine List.Nodup.append ?_ (List.Nodup.of_map _ hnodup) fun raw hone htwo =>
        hdisjoint raw hone htwo
      rw [h.unknown]
      exact (List.Nodup.of_map _ (Ascending.nodup_tags hascend')).filter _
    · rw [List.mem_append, hmem, h.known, h.unknown, List.mem_filter, decide_eq_true_iff]
      refine ⟨fun hone => hone.elim And.left And.left, fun hraw => ?_⟩
      by_cases hplace : placeOf raw.tag ks 0 = none
      · exact .inl ⟨hraw, hplace⟩
      · exact .inr ⟨hraw, hplace⟩
  have htags : ((kept ++ known).map RawTaggedField.tag).Nodup :=
    (hperm.map RawTaggedField.tag).nodup_iff.mpr (Ascending.nodup_tags hascend')
  exact Ascending.eq_of_perm (sortByTag_ascending htags) hascend'
    ((List.perm_insertionSort _ _).trans hperm)

theorem putTaggedFields_ne_nil (fields : List RawTaggedField) : putTaggedFields fields ≠ [] :=
  List.ne_nil_of_length_pos (Nat.zero_lt_of_lt (length_lt_putTaggedFields fields))

/-- What the section's reader accepts its writer puts again, no longer. -/
theorem section_settles (hlawful : ∀ k ∈ ks, LawfulWire k.codec) (hapart : TagsApart ks)
    {tags : List Value × List RawTaggedField} (hget : (sectionCodec ks).get s = .ok tags t) :
    (sectionCodec ks).Domain tags ∧ (sectionCodec ks).Rewrites s t tags := by
  obtain ⟨raws, u, hraws, hget⟩ := bind_eq_ok.mp hget
  obtain ⟨hascend, used, hused, hspelled⟩ := getTaggedFields_ok hraws
  have hfits := getTaggedFields_fits hraws
  by_cases hks : ks = []
  · simp only [if_pos hks] at hget
    cases hget
    subst hks
    have hshort : List.Forall₂ Shortened raws raws :=
      List.forall₂_same.mpr fun _ _ => ⟨rfl, Nat.le_refl _⟩
    refine ⟨⟨.nil, ⟨hascend, hfits⟩, fun _ _ => rfl⟩, used, putTaggedFields raws, hused, rfl,
      length_shortened hspelled hshort, fun hnil => absurd hnil (putTaggedFields_ne_nil raws)⟩
  · simp only [if_neg hks] at hget
    have hstart : Settled ks [] (noTags ks) (Vec.new rawTaggedFieldSize : Vec RawTaggedField).items
      [] := .start ks
    obtain ⟨hbytes, raws', h⟩ := hstart.takeAll (fun _ => rfl) hlawful hascend hget
    rw [List.nil_append] at h
    obtain ⟨known, hknown, hsent⟩ := h.sent hascend hapart
    have hshort := h.shortened
    have hsub : tags.2.Sublist raws' := by
      rw [h.unknown]
      exact List.filter_sublist
    refine ⟨⟨h.holds, ⟨(ascending_shortened hascend hshort).sublist hsub, fun raw hraw =>
      fits_shortened hfits hshort raw (hsub.subset hraw)⟩, fun raw hraw => ?_⟩, used,
      putTaggedFields raws', by rw [hused, hbytes], ?_, length_shortened hspelled hshort,
      fun hnil => absurd hnil (putTaggedFields_ne_nil raws')⟩
    · rw [h.unknown] at hraw
      simpa using (List.mem_filter.mp hraw).2
    · simp only [sectionCodec, if_neg hks, hknown]
      show Except.ok (putTaggedFields (sortByTag (tags.2 ++ known))) = _
      rw [hsent]

/-- The section of a struct is lawful where its fields are. -/
theorem section_lawful (hlawful : ∀ k ∈ ks, LawfulWire k.codec) (hapart : TagsApart ks) :
    LawfulWire (sectionCodec ks) :=
  { reads_back := fun _ _ hdom hput hcap => section_reads hlawful hapart hdom hput hcap
    settles := fun _ _ _ hget => section_settles hlawful hapart hget
    refuses := by
      rintro tags e ⟨hholds, _⟩ hput
      simp only [sectionCodec] at hput
      by_cases hks : ks = []
      · rw [if_pos hks] at hput
        cases hput
      · rw [if_neg hks] at hput
        cases hknown : putKnownTags ks tags.1 with
        | ok known =>
            rw [hknown] at hput
            cases hput
        | error e' =>
            rw [hknown] at hput
            cases hput
            exact putKnownTags_refuses hlawful hholds hknown }

end Received

section Structs

variable {flexible : Bool} {wire : List (WireCodec Value)} {ks : List KnownTag}

/-- A struct of a flexible version, in whatever spelling its parts are read. -/
theorem structCodec_decodes {xs ys : Bytes} {vs : List Value}
    {tags : List Value × List RawTaggedField} {cs ds : List Charge}
    (hwire : Decodes Ledger.charge (Codec.each .stuck wire).get xs vs cs)
    (hsection : Decodes Ledger.charge (sectionCodec ks).get ys tags ds) :
    Decodes Ledger.charge (structCodec true wire ks).get (xs ++ ys) (.struct vs tags.1 tags.2)
      (cs ++ ds) := by
  have hparts := Codec.pair_decodes hwire hsection
  exact Codec.embed_decodes hparts

theorem structCodec_lawful (hwire : ∀ c ∈ wire, LawfulWire c)
    (hlawful : ∀ k ∈ ks, LawfulWire k.codec) (hapart : flexible = true → TagsApart ks) :
    LawfulWire (structCodec flexible wire ks) := by
  refine .embed (fun _ => rfl) (.pair (.each hwire) ?_)
  cases flexible with
  | true => exact section_lawful hlawful (hapart rfl)
  | false => exact .absent _

variable {msg : Message} {version : Int16} {sizeOf : SizeOf} {call : String → WireCodec Value}

/-- The tags a struct knows at a version are used once, and are 32 bits wide. -/
structure StructDef.TagsApart (version : Int16) (d : StructDef) : Prop where
  nodup : ((d.taggedFields.filter fun f => f.versions.Contains version).map
    fun f => f.tag.getD 0).Nodup
  fits : ∀ f ∈ d.taggedFields, f.tag.getD 0 ≤ u32Max

instance (version : Int16) : DecidablePred (StructDef.TagsApart version) := fun d =>
  decidable_of_iff
    (((d.taggedFields.filter fun f => f.versions.Contains version).map
        fun f => f.tag.getD 0).Nodup ∧ ∀ f ∈ d.taggedFields, f.tag.getD 0 ≤ u32Max)
    ⟨fun h => ⟨h.1, h.2⟩, fun h => ⟨h.nodup, h.fits⟩⟩

theorem tagsApart_knownTags {d : StructDef} (h : d.TagsApart version) :
    TagsApart (d.taggedFields.map (knownTag msg version sizeOf call)) := by
  constructor
  · rw [List.filter_map, List.map_map]
    exact h.nodup
  · intro k hk _
    obtain ⟨f, hf, rfl⟩ := List.mem_map.mp hk
    exact h.fits f hf

theorem defCodec_lawful (hcall : ∀ name, LawfulWire (call name)) {d : StructDef}
    (hapart : msg.isFlexible version = true → d.TagsApart version) (defaults : List Value) :
    LawfulWire (defCodec msg version sizeOf call d defaults) := by
  refine structCodec_lawful (fun c hc => ?_) (fun k hk => ?_) fun h =>
    tagsApart_knownTags (hapart h)
  · rw [← List.map_uncurry_zip_eq_zipWith] at hc
    obtain ⟨⟨f, dflt⟩, _, rfl⟩ := List.mem_map.mp hc
    exact wireCodec_lawful hcall f dflt
  · obtain ⟨f, _, rfl⟩ := List.mem_map.mp hk
    exact fieldCodec_lawful hcall f

variable {parseF64 : ParseF64}

/-- No struct of the message uses a tag twice at a version. -/
def Message.TagsApart (msg : Message) (version : Int16) : Prop :=
  msg.isFlexible version = true → ∀ d ∈ msg.structs, d.TagsApart version

/-- By induction on the depth of structs in structs. -/
theorem Message.codec_lawful (hapart : msg.TagsApart version) (depth : Nat) (name : String) :
    LawfulWire (msg.codec parseF64 version sizeOf depth name) := by
  induction depth generalizing name with
  | zero => exact nowhere_flat.lawful
  | succ depth ih =>
      unfold Message.codec
      split
      · exact defCodec_lawful ih (fun h => hapart h _ (List.mem_of_find?_eq_some ‹_›)) _
      · exact nowhere_flat.lawful

end Structs

end Odradek.Codegen
