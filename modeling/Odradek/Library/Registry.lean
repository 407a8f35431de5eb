import Odradek.Library.AssocMap

/-!
Names and the ids minted from them, in two maps that are updated together. The maps
are inverse to each other exactly as long as no two names registered at once are
minted the same id.
-/

namespace Library

structure Registry (ν ι : Type) where
  ids : AList fun _ : ν => ι
  names : AList fun _ : ι => ν

namespace Registry

variable {ν ι : Type} [DecidableEq ν] {mint : ν → ι} {r : Registry ν ι} {name other : ν} {id : ι}

def empty : Registry ν ι := { ids := ∅, names := ∅ }

/-- Every id is the one minted from its name. -/
def Minted (mint : ν → ι) (r : Registry ν ι) : Prop :=
  ∀ name id, r.ids.lookup name = some id → id = mint name

theorem Minted.empty : (empty : Registry ν ι).Minted mint := by
  intro name id h
  cases h

variable [DecidableEq ι]

def register (mint : ν → ι) (r : Registry ν ι) (name : ν) : Registry ν ι :=
  { ids := r.ids.insert name (mint name), names := r.names.insert (mint name) name }

def retire (r : Registry ν ι) (name : ν) : Registry ν ι :=
  match r.ids.lookup name with
  | none => r
  | some id => { ids := r.ids.erase name, names := r.names.erase id }

def Inverse (r : Registry ν ι) : Prop :=
  ∀ name id, r.ids.lookup name = some id ↔ r.names.lookup id = some name

theorem Inverse.empty : (empty : Registry ν ι).Inverse := by
  intro name id
  constructor
  · intro h
    cases h
  · intro h
    cases h

theorem Minted.register (h : r.Minted mint) : (r.register mint name).Minted mint := by
  intro other id hlookup
  obtain ⟨rfl, rfl⟩ | ⟨_, hold⟩ := lookup_insert_cases hlookup
  · rfl
  · exact h other id hold

theorem Minted.retire (h : r.Minted mint) : (r.retire name).Minted mint := by
  unfold Registry.retire
  split
  · exact h
  · intro other id hlookup
    exact h other id (lookup_erase_cases hlookup).2

/-- A new name whose id is its own keeps the registry one to one. -/
theorem Inverse.register (h : r.Inverse) (hminted : r.Minted mint)
    (hapart : ∀ other ∈ r.ids, mint other = mint name → other = name) :
    (r.register mint name).Inverse := by
  intro other id
  constructor
  · intro hlookup
    obtain ⟨rfl, rfl⟩ | ⟨hother, hold⟩ := lookup_insert_cases hlookup
    · exact AList.lookup_insert _
    · have hid : id ≠ mint name := by
        intro hid
        have hsame := (hminted other id hold).symm.trans hid
        exact hother (hapart other (mem_of_lookup hold) hsame)
      exact (AList.lookup_insert_ne hid).trans ((h other id).mp hold)
  · intro hlookup
    obtain ⟨rfl, rfl⟩ | ⟨hid, hold⟩ := lookup_insert_cases hlookup
    · exact AList.lookup_insert _
    · have hids := (h other id).mpr hold
      have hother : other ≠ name := by
        intro hother
        exact hid (hother ▸ hminted other id hids)
      exact (AList.lookup_insert_ne hother).trans hids

theorem Inverse.retire (h : r.Inverse) : (r.retire name).Inverse := by
  unfold Registry.retire
  split
  case h_1 => exact h
  case h_2 gone hgone =>
    intro other id
    constructor
    · intro hlookup
      obtain ⟨hother, hold⟩ := lookup_erase_cases hlookup
      have hnames := (h other id).mp hold
      have hid : id ≠ gone := by
        intro hid
        have hback := (h name gone).mp hgone
        rw [hid, hback] at hnames
        exact hother (Option.some.inj hnames).symm
      exact (AList.lookup_erase_ne hid).trans hnames
    · intro hlookup
      obtain ⟨hid, hold⟩ := lookup_erase_cases hlookup
      have hids := (h other id).mpr hold
      have hother : other ≠ name := by
        intro hother
        rw [hother, hgone] at hids
        exact hid (Option.some.inj hids).symm
      exact (AList.lookup_erase_ne hother).trans hids

theorem Inverse.injective (h : r.Inverse) (hname : r.ids.lookup name = some id)
    (hother : r.ids.lookup other = some id) : name = other := by
  have hback := (h name id).mp hname
  rw [(h other id).mp hother] at hback
  exact (Option.some.inj hback).symm

/-- No two names of inverse maps are minted the same id. -/
theorem Inverse.apart (h : r.Inverse) (hminted : r.Minted mint) (hname : name ∈ r.ids)
    (hother : other ∈ r.ids) (hsame : mint name = mint other) : name = other := by
  obtain ⟨id, hid⟩ := Option.isSome_iff_exists.mp (AList.lookup_isSome.mpr hname)
  obtain ⟨id', hid'⟩ := Option.isSome_iff_exists.mp (AList.lookup_isSome.mpr hother)
  have hids : id' = id := by
    rw [hminted other id' hid', hminted name id hid, hsame]
  exact h.injective hid (hids ▸ hid')

@[simp] theorem mem_register : other ∈ (r.register mint name).ids ↔ other = name ∨ other ∈ r.ids :=
  AList.mem_insert _

end Registry

end Library
