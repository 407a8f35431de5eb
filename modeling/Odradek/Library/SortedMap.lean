import Mathlib.Order.Lattice
import Mathlib.Data.List.Basic

/-!
Finite maps kept as a list sorted by key, so that equal maps are equal lists and
an iteration goes in key order.
-/

namespace Library

variable {κ ν : Type}

structure SortedMap (κ ν : Type) [LinearOrder κ] where
  entries : List (κ × ν)
  sorted : entries.Pairwise fun a b => a.1 < b.1
  deriving DecidableEq

namespace SortedMap

variable [LinearOrder κ]

def insertEntry (k : κ) (v : ν) : List (κ × ν) → List (κ × ν)
  | [] => [(k, v)]
  | (k', v') :: rest =>
    if k < k' then (k, v) :: (k', v') :: rest
    else if k = k' then (k, v) :: rest
    else (k', v') :: insertEntry k v rest

theorem mem_insertEntry {k : κ} {v : ν} {entries : List (κ × ν)} {e : κ × ν}
    (h : e ∈ insertEntry k v entries) : e = (k, v) ∨ e ∈ entries := by
  induction entries with
  | nil => exact .inl (List.mem_singleton.mp h)
  | cons e' rest ih =>
      unfold insertEntry at h
      split at h
      · exact (List.mem_cons.mp h).imp_right id
      · split at h
        · exact (List.mem_cons.mp h).imp_right (List.mem_cons_of_mem _)
        · rcases List.mem_cons.mp h with rfl | hrest
          · exact .inr List.mem_cons_self
          · exact (ih hrest).imp_right (List.mem_cons_of_mem _)

theorem pairwise_insertEntry (k : κ) (v : ν) {entries : List (κ × ν)}
    (h : entries.Pairwise fun a b => a.1 < b.1) :
    (insertEntry k v entries).Pairwise fun a b => a.1 < b.1 := by
  induction entries with
  | nil => exact List.pairwise_singleton _ _
  | cons e rest ih =>
      obtain ⟨hhead, htail⟩ := List.pairwise_cons.mp h
      unfold insertEntry
      split
      next hlt =>
          refine List.pairwise_cons.mpr ⟨?_, h⟩
          intro e' he'
          rcases List.mem_cons.mp he' with rfl | hrest
          · exact hlt
          · exact lt_trans hlt (hhead e' hrest)
      next hnlt =>
          split
          next heq => exact List.pairwise_cons.mpr ⟨fun e' he' => heq ▸ hhead e' he', htail⟩
          next hne =>
              refine List.pairwise_cons.mpr ⟨?_, ih htail⟩
              intro e' he'
              rcases mem_insertEntry he' with rfl | hrest
              · exact lt_of_le_of_ne (le_of_not_gt hnlt) (Ne.symm hne)
              · exact hhead e' hrest

def empty : SortedMap κ ν := { entries := [], sorted := .nil }

def insert (m : SortedMap κ ν) (k : κ) (v : ν) : SortedMap κ ν :=
  { entries := insertEntry k v m.entries, sorted := pairwise_insertEntry k v m.sorted }

def lookup (m : SortedMap κ ν) (k : κ) : Option ν :=
  (m.entries.find? fun e => e.1 = k).map (·.2)

def keys (m : SortedMap κ ν) : List κ := m.entries.map (·.1)

/-- Keep the entries whose key satisfies a predicate. -/
def retain (m : SortedMap κ ν) (keep : κ → Bool) : SortedMap κ ν :=
  { entries := m.entries.filter fun e => keep e.1, sorted := m.sorted.filter _ }

variable {m : SortedMap κ ν} {k k' : κ} {v : ν}

theorem ext {m m' : SortedMap κ ν} (h : m.entries = m'.entries) : m = m' := by
  cases m
  cases m'
  cases h
  rfl

theorem find_insertEntry_self (k : κ) (v : ν) (entries : List (κ × ν)) :
    (insertEntry k v entries).find? (fun e => e.1 = k) = some (k, v) := by
  induction entries with
  | nil => simp [insertEntry]
  | cons e rest ih =>
      unfold insertEntry
      split
      · simp
      · split
        · simp
        next hne =>
            rw [List.find?_cons_of_neg (by simpa using Ne.symm hne)]
            exact ih

theorem find_insertEntry_ne (h : k' ≠ k) (v : ν) (entries : List (κ × ν)) :
    (insertEntry k v entries).find? (fun e => e.1 = k') =
      entries.find? fun e => e.1 = k' := by
  induction entries with
  | nil => simp [insertEntry, Ne.symm h]
  | cons e rest ih =>
      unfold insertEntry
      split
      · rw [List.find?_cons_of_neg (by simpa using Ne.symm h)]
      · split
        next heq =>
            rw [List.find?_cons_of_neg (by simpa using Ne.symm h),
              List.find?_cons_of_neg (by simpa [← heq] using Ne.symm h)]
        next =>
            rw [List.find?_cons, List.find?_cons, ih]

theorem lookup_insert_self : (m.insert k v).lookup k = some v := by
  unfold lookup insert
  rw [find_insertEntry_self]
  rfl

theorem lookup_insert_ne (h : k' ≠ k) : (m.insert k v).lookup k' = m.lookup k' := by
  unfold lookup insert
  rw [find_insertEntry_ne h]

theorem lookup_empty : (empty : SortedMap κ ν).lookup k = none := rfl

theorem lookup_retain {keep : κ → Bool} (h : keep k = true) :
    (m.retain keep).lookup k = m.lookup k := by
  unfold lookup retain
  rw [List.find?_filter]
  congr 2
  funext e
  by_cases he : e.1 = k
  · simp [he, h]
  · simp [he]

theorem mem_keys_insert : k' ∈ (m.insert k v).keys → k' = k ∨ k' ∈ m.keys := by
  intro h
  obtain ⟨e, he, rfl⟩ := List.mem_map.mp h
  rcases mem_insertEntry he with rfl | hmem
  · exact .inl rfl
  · exact .inr (List.mem_map.mpr ⟨e, hmem, rfl⟩)

theorem mem_keys_retain {keep : κ → Bool} (h : k ∈ (m.retain keep).keys) : keep k = true := by
  obtain ⟨e, he, rfl⟩ := List.mem_map.mp h
  exact (List.mem_filter.mp he).2

/-- Inserting past every key appends. -/
theorem insertEntry_last {entries : List (κ × ν)} (h : ∀ e ∈ entries, e.1 < k) :
    insertEntry k v entries = entries ++ [(k, v)] := by
  induction entries with
  | nil => rfl
  | cons e rest ih =>
      have he := h e List.mem_cons_self
      unfold insertEntry
      rw [if_neg (not_lt_of_gt he), if_neg (ne_of_gt he),
        ih fun e' he' => h e' (List.mem_cons_of_mem _ he')]
      rfl

/-- An entry is what its key looks up. -/
theorem lookup_eq_some_iff : m.lookup k = some v ↔ (k, v) ∈ m.entries := by
  have hfind : ∀ entries : List (κ × ν), (entries.Pairwise fun a b => a.1 < b.1) →
      ((entries.find? fun e => e.1 = k).map (·.2) = some v ↔ (k, v) ∈ entries) := by
    intro entries
    induction entries with
    | nil => simp
    | cons e rest ih =>
        intro h
        obtain ⟨hhead, htail⟩ := List.pairwise_cons.mp h
        by_cases he : e.1 = k
        · subst he
          rw [List.find?_cons_of_pos (by simp), List.mem_cons]
          refine ⟨fun h => .inl (by cases h; rfl), ?_⟩
          rintro (heq | hmem)
          · rw [← heq]
            rfl
          · exact absurd (hhead _ hmem) (lt_irrefl _)
        · rw [List.find?_cons_of_neg (by simpa using he), ih htail, List.mem_cons]
          refine ⟨.inr, ?_⟩
          rintro (rfl | hmem)
          · exact absurd rfl he
          · exact hmem
  exact hfind m.entries m.sorted

theorem mem_keys_iff : k ∈ m.keys ↔ ∃ v, m.lookup k = some v := by
  simp only [keys, List.mem_map, lookup_eq_some_iff]
  constructor
  · rintro ⟨⟨k, v⟩, hmem, rfl⟩
    exact ⟨v, hmem⟩
  · rintro ⟨v, hmem⟩
    exact ⟨(k, v), hmem, rfl⟩

theorem mem_keys_insert_iff : k' ∈ (m.insert k v).keys ↔ k' = k ∨ k' ∈ m.keys := by
  refine ⟨mem_keys_insert, fun h => mem_keys_iff.mpr ?_⟩
  by_cases hkey : k' = k
  · exact ⟨v, by rw [hkey, lookup_insert_self]⟩
  · obtain ⟨v', hlookup⟩ := mem_keys_iff.mp (h.resolve_left hkey)
    exact ⟨v', (lookup_insert_ne hkey).trans hlookup⟩

/-- Maps that look up the same are the same. -/
theorem ext_lookup {m' : SortedMap κ ν} (h : ∀ k, m.lookup k = m'.lookup k) : m = m' := by
  have hnodup : ∀ n : SortedMap κ ν, n.entries.Nodup := fun n =>
    n.sorted.imp fun hlt heq => absurd (heq ▸ hlt) (lt_irrefl _)
  have hmem : ∀ e, e ∈ m.entries ↔ e ∈ m'.entries := by
    rintro ⟨k, v⟩
    rw [← lookup_eq_some_iff, h, lookup_eq_some_iff]
  have hperm := (List.perm_ext_iff_of_nodup (hnodup m) (hnodup m')).mpr hmem
  exact ext (hperm.eq_of_pairwise (fun _ _ _ _ hab hba => absurd hba (lt_asymm hab))
    m.sorted m'.sorted)

/-- The map a sequence of insertions builds. -/
def ofInserts (m : SortedMap κ ν) (inserts : List (κ × ν)) : SortedMap κ ν :=
  inserts.foldl (fun m e => m.insert e.1 e.2) m

theorem entries_ofInserts {inserts : List (κ × ν)}
    (h : (m.entries ++ inserts).Pairwise fun a b => a.1 < b.1) :
    (m.ofInserts inserts).entries = m.entries ++ inserts := by
  induction inserts generalizing m with
  | nil => exact (List.append_nil _).symm
  | cons e rest ih =>
      have hlast : ∀ e' ∈ m.entries, e'.1 < e.1 := fun e' he' =>
        (List.pairwise_append.mp h).2.2 e' he' e List.mem_cons_self
      have hentries : (m.insert e.1 e.2).entries = m.entries ++ [e] := insertEntry_last hlast
      have hstep := ih (m := m.insert e.1 e.2) (by
        rw [hentries, List.append_assoc]
        exact h)
      rw [hentries, List.append_assoc] at hstep
      exact hstep

/-- A map is what inserting its entries in order builds. -/
theorem ofInserts_entries (m : SortedMap κ ν) : empty.ofInserts m.entries = m :=
  ext (entries_ofInserts (m := empty) m.sorted)

end SortedMap

end Library
