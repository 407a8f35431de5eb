import Mathlib.Data.List.AList

/-!
Association lists with one entry a key: what an insertion and an erasure do to
the number of entries and to a lookup.
-/

namespace Library

section AssocMap

variable {κ β : Type}

theorem length_keys_eq (m : AList fun _ : κ => β) : m.keys.length = m.entries.length :=
  List.length_map _

variable [DecidableEq κ] {m : AList fun _ : κ => β} {key key' : κ} {value value' : β}

theorem length_insert_of_mem (h : key ∈ m) :
    (m.insert key value).entries.length = m.entries.length := by
  rw [← length_keys_eq, ← length_keys_eq, AList.keys_insert, List.length_cons,
    List.length_erase_of_mem h]
  exact Nat.sub_add_cancel (List.length_pos_of_mem h)

theorem length_insert_of_notMem (h : key ∉ m) :
    (m.insert key value).entries.length = m.entries.length + 1 := by
  rw [AList.entries_insert_of_notMem h, List.length_cons]

theorem length_erase_le (m : AList fun _ : κ => β) (key : κ) :
    (m.erase key).entries.length ≤ m.entries.length := by
  rw [← length_keys_eq, ← length_keys_eq, AList.keys_erase]
  exact List.length_erase_le

theorem lookup_erase_cases (h : (m.erase key).lookup key' = some value) :
    key' ≠ key ∧ m.lookup key' = some value := by
  by_cases hkey : key' = key
  · rw [hkey, AList.lookup_erase] at h
    cases h
  · rw [AList.lookup_erase_ne hkey] at h
    exact ⟨hkey, h⟩

theorem lookup_insert_cases (h : (m.insert key value).lookup key' = some value') :
    (key' = key ∧ value' = value) ∨ (key' ≠ key ∧ m.lookup key' = some value') := by
  by_cases hkey : key' = key
  · rw [hkey, AList.lookup_insert] at h
    exact .inl ⟨hkey, (Option.some.inj h).symm⟩
  · rw [AList.lookup_insert_ne hkey] at h
    exact .inr ⟨hkey, h⟩

theorem mem_of_lookup (h : m.lookup key = some value) : key ∈ m := by
  rw [← AList.lookup_isSome, h]
  rfl

theorem lookup_eq_some_iff : m.lookup key = some value ↔ ⟨key, value⟩ ∈ m.entries :=
  AList.mem_lookup_iff

/-- The entries of `keys` gone, one by one. -/
theorem lookup_foldl_erase (keys : List κ) (m : AList fun _ : κ => β) :
    (keys.foldl (fun m key => m.erase key) m).lookup key = some value ↔
      key ∉ keys ∧ m.lookup key = some value := by
  induction keys generalizing m with
  | nil => exact ⟨fun h => ⟨List.not_mem_nil, h⟩, fun h => h.2⟩
  | cons first keys ih =>
      rw [List.foldl_cons, ih, List.mem_cons, not_or]
      constructor
      · rintro ⟨hrest, h⟩
        obtain ⟨hne, hlookup⟩ := lookup_erase_cases h
        exact ⟨⟨hne, hrest⟩, hlookup⟩
      · rintro ⟨⟨hne, hrest⟩, hlookup⟩
        exact ⟨hrest, (AList.lookup_erase_ne hne).trans hlookup⟩

theorem lookup_foldl_insert_cases (entries : List (κ × β)) (m : AList fun _ : κ => β)
    (h : (entries.foldl (fun m entry => m.insert entry.1 entry.2) m).lookup key = some value) :
    (key, value) ∈ entries ∨ (m.lookup key = some value ∧ ∀ other, (key, other) ∉ entries) := by
  induction entries generalizing m with
  | nil => exact .inr ⟨h, fun _ => List.not_mem_nil⟩
  | cons entry entries ih =>
      rcases ih _ h with hmem | ⟨hlookup, hrest⟩
      · exact .inl (List.mem_cons_of_mem _ hmem)
      · rcases lookup_insert_cases hlookup with ⟨rfl, rfl⟩ | ⟨hne, hlookup⟩
        · exact .inl List.mem_cons_self
        · refine .inr ⟨hlookup, fun other hother => ?_⟩
          rcases List.mem_cons.mp hother with heq | hother
          · exact hne (congrArg Prod.fst heq)
          · exact hrest other hother

theorem lookup_foldl_insert_some (entries : List (κ × β)) (m : AList fun _ : κ => β)
    (h : (∃ value, (key, value) ∈ entries) ∨ ∃ value, m.lookup key = some value) :
    ∃ value, (entries.foldl (fun m entry => m.insert entry.1 entry.2) m).lookup key =
      some value := by
  induction entries generalizing m with
  | nil => exact h.resolve_left fun ⟨_, hmem⟩ => List.not_mem_nil hmem
  | cons entry entries ih =>
      refine ih _ ?_
      by_cases hkey : key = entry.1
      · exact .inr ⟨entry.2, by rw [hkey, AList.lookup_insert]⟩
      · rcases h with ⟨value, hmem⟩ | ⟨value, hlookup⟩
        · rcases List.mem_cons.mp hmem with heq | hmem
          · exact absurd (congrArg Prod.fst heq) hkey
          · exact .inl ⟨value, hmem⟩
        · exact .inr ⟨value, (AList.lookup_insert_ne hkey).trans hlookup⟩

def insertAll (m : AList fun _ : κ => β) (entries : List (κ × β)) : AList fun _ : κ => β :=
  entries.foldl (fun m entry => m.insert entry.1 entry.2) m

/-- Entries inserted over a map: the last of them for a key, or what was there. -/
theorem lookup_insertAll (entries : List (κ × β)) (m : AList fun _ : κ => β) :
    (insertAll m entries).lookup key =
      ((insertAll ∅ entries).lookup key).or (m.lookup key) := by
  unfold insertAll
  induction entries generalizing m with
  | nil => rfl
  | cons entry entries ih =>
      rw [List.foldl_cons, List.foldl_cons, ih, ih ((∅ : AList fun _ : κ => β).insert _ _),
        Option.or_assoc]
      by_cases hkey : key = entry.1
      · rw [hkey, AList.lookup_insert, AList.lookup_insert, Option.some_or]
      · rw [AList.lookup_insert_ne hkey, AList.lookup_insert_ne hkey, AList.lookup_empty,
          Option.none_or]

/-- A map inserted into another. -/
theorem lookup_foldl_entries (m base : AList fun _ : κ => β) :
    (m.entries.foldl (fun base entry => base.insert entry.1 entry.2) base).lookup key =
      (m.lookup key).or (base.lookup key) := by
  obtain ⟨entries, hnodup⟩ := m
  show _ = (entries.dlookup key).or (base.lookup key)
  induction entries generalizing base with
  | nil => rfl
  | cons entry entries ih =>
      obtain ⟨first, value⟩ := entry
      obtain ⟨hfirst, hrest⟩ := List.nodupKeys_cons.mp hnodup
      rw [List.foldl_cons, ih _ hrest]
      by_cases hkey : key = first
      · rw [hkey, List.dlookup_eq_none.mpr hfirst, List.dlookup_cons_eq, AList.lookup_insert,
          Option.none_or, Option.some_or]
      · rw [List.dlookup_cons_ne _ _ hkey, AList.lookup_insert_ne hkey]

/-- The entries of `keys` updated, one by one. -/
theorem lookup_foldl_update (f : β → β) (default : β) {keys : List κ} (hkeys : keys.Nodup)
    (m : AList fun _ : κ => β) :
    (keys.foldl (fun m key => m.insert key (f ((m.lookup key).getD default))) m).lookup key =
      if key ∈ keys then some (f ((m.lookup key).getD default)) else m.lookup key := by
  induction keys generalizing m with
  | nil => rfl
  | cons first keys ih =>
      obtain ⟨hfirst, hrest⟩ := List.nodup_cons.mp hkeys
      rw [List.foldl_cons, ih hrest]
      by_cases hkey : key = first
      · rw [hkey, if_neg hfirst, if_pos List.mem_cons_self, AList.lookup_insert]
      · rw [AList.lookup_insert_ne hkey]
        simp only [List.mem_cons, hkey, false_or]

theorem length_foldl_erase_le (keys : List κ) (m : AList fun _ : κ => β) :
    (keys.foldl (fun m key => m.erase key) m).entries.length ≤ m.entries.length := by
  induction keys generalizing m with
  | nil => exact Nat.le_refl _
  | cons first keys ih => exact Nat.le_trans (ih _) (length_erase_le m first)

end AssocMap

end Library
