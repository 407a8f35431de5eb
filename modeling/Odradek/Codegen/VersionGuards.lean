import Mathlib.Algebra.Group.Int.Defs
import Mathlib.Data.List.Basic
import Odradek.Library.Text

/-!
Version ranges of the message schemas and the guards the generator emits for
them (`xtask`). A guard is text of the generated program: a comparison is left
out of it where the valid versions already decide it, and a guard that is
decided altogether is not emitted. Read back as the Boolean expression it
spells, it is true at a valid version exactly when the version is in the range.
-/

namespace Odradek.Codegen

open Library

/-- Inclusive; `min > max` is the empty range, `i16::MAX` an open end. -/
structure VersionRange where
  min : Int16
  max : Int16
  deriving DecidableEq

namespace VersionRange

def empty : VersionRange := { min := 1, max := 0 }

def isEmpty (range : VersionRange) : Bool := range.max < range.min

def intersect (range other : VersionRange) : VersionRange :=
  { min := if range.min ≤ other.min then other.min else range.min
    max := if range.max ≤ other.max then range.max else other.max }

def Contains (range : VersionRange) (version : Int16) : Prop :=
  range.min ≤ version ∧ version ≤ range.max

instance (range : VersionRange) (version : Int16) : Decidable (range.Contains version) :=
  inferInstanceAs (Decidable (_ ∧ _))

/-- `expr`: the text of a Boolean expression over `version`. -/
def expr (range valid : VersionRange) : Text :=
  if range.isEmpty then "false".toList
  else
    let lower := decide (valid.min < range.min)
    let upper := decide (range.max < valid.max)
    match lower, upper with
    | false, false => "true".toList
    | true, false => "version >= ".toList ++ Text.print range.min.toInt
    | false, true => "version <= ".toList ++ Text.print range.max.toInt
    | true, true =>
      if range.min = range.max then "version == ".toList ++ Text.print range.min.toInt
      else '(' :: (Text.print range.min.toInt ++ '.' :: ('.' :: '=' ::
        (Text.print range.max.toInt ++ ").contains(&version)".toList)))

end VersionRange

/-- The Boolean expressions over `version` that guards are. -/
inductive Guard
  | never
  | always
  | atLeast (min : Int16)
  | atMost (max : Int16)
  | exactly (only : Int16)
  | within (min max : Int16)
  deriving DecidableEq

namespace Guard

def holds (version : Int16) : Guard → Bool
  | never => false
  | always => true
  | atLeast min => min ≤ version
  | atMost max => version ≤ max
  | exactly only => version = only
  | within min max => min ≤ version ∧ version ≤ max

def readI16 (text : Text) : Option Int16 :=
  (Text.readWithin (-2 ^ 15) (2 ^ 15 - 1) text).map Int16.ofInt

/-- What stands in the brackets, without the last of them. -/
def readRange (text : Text) : Option Guard := do
  let range ← ").contains(&version)".toList.isSuffixOf? text
  let (low, rest) ← Text.splitOnce '.' range
  let high ← ".=".toList.isPrefixOf? rest
  let min ← readI16 low
  let max ← readI16 high
  pure (.within min max)

def read (text : Text) : Option Guard :=
  if text = "false".toList then some .never
  else if text = "true".toList then some .always
  else if let some bound := "version >= ".toList.isPrefixOf? text then
    (readI16 bound).map atLeast
  else if let some bound := "version <= ".toList.isPrefixOf? text then
    (readI16 bound).map atMost
  else if let some bound := "version == ".toList.isPrefixOf? text then
    (readI16 bound).map exactly
  else if let some range := "(".toList.isPrefixOf? text then readRange range
  else none

/-- The value of an emitted expression at a version. -/
def truth (text : Text) (version : Int16) : Option Bool := (read text).map (holds version)

theorem readI16_print (n : Int16) : readI16 (Text.print n.toInt) = some n := by
  have hlow : -2 ^ 15 ≤ n.toInt := n.minValue_le_toInt
  have hhigh : n.toInt ≤ 2 ^ 15 - 1 := n.toInt_le
  rw [readI16, Text.readWithin_print hlow hhigh, Option.map_some, Int16.ofInt_toInt]

theorem read_false : read "false".toList = some .never := rfl

theorem read_true : read "true".toList = some .always := rfl

theorem isPrefixOf?_self (front rest : Text) : front.isPrefixOf? (front ++ rest) = some rest :=
  List.isPrefixOf?_eq_some_iff_append_eq.mpr rfl

theorem read_atLeast (n : Int16) :
    read ("version >= ".toList ++ Text.print n.toInt) = some (.atLeast n) := by
  unfold read
  rw [if_neg (by simp), if_neg (by simp), isPrefixOf?_self]
  simp only [readI16_print, Option.map_some]

theorem read_atMost (n : Int16) :
    read ("version <= ".toList ++ Text.print n.toInt) = some (.atMost n) := by
  have hother : "version >= ".toList.isPrefixOf?
      ("version <= ".toList ++ Text.print n.toInt) = none := rfl
  unfold read
  rw [if_neg (by simp), if_neg (by simp), hother, isPrefixOf?_self]
  simp only [readI16_print, Option.map_some]

theorem read_exactly (n : Int16) :
    read ("version == ".toList ++ Text.print n.toInt) = some (.exactly n) := by
  have hleast : "version >= ".toList.isPrefixOf?
      ("version == ".toList ++ Text.print n.toInt) = none := rfl
  have hmost : "version <= ".toList.isPrefixOf?
      ("version == ".toList ++ Text.print n.toInt) = none := rfl
  unfold read
  rw [if_neg (by simp), if_neg (by simp), hleast, hmost, isPrefixOf?_self]
  simp only [readI16_print, Option.map_some]

theorem dot_not_mem_print (n : Int) : '.' ∉ Text.print n := by
  intro h
  rcases Text.mem_print h with h | h
  · cases h
  · cases h

theorem readRange_print (m n : Int16) :
    readRange (Text.print m.toInt ++ '.' :: ('.' :: '=' ::
      (Text.print n.toInt ++ ").contains(&version)".toList))) = some (.within m n) := by
  have hsuffix : ").contains(&version)".toList.isSuffixOf? (Text.print m.toInt ++ '.' ::
      ('.' :: '=' :: (Text.print n.toInt ++ ").contains(&version)".toList))) =
      some (Text.print m.toInt ++ '.' :: ('.' :: '=' :: Text.print n.toInt)) := by
    refine List.isSuffixOf?_eq_some_iff_append_eq.mpr ?_
    simp only [List.append_assoc, List.cons_append]
  have hrest : ".=".toList.isPrefixOf? ('.' :: '=' :: Text.print n.toInt) =
      some (Text.print n.toInt) := isPrefixOf?_self ".=".toList _
  rw [readRange, hsuffix, Option.bind_eq_bind, Option.bind_some,
    Text.splitOnce_append _ (dot_not_mem_print m.toInt)]
  simp only [Option.bind_eq_bind, Option.bind_some, hrest, readI16_print]
  rfl

theorem read_within (m n : Int16) :
    read ('(' :: (Text.print m.toInt ++ '.' :: ('.' :: '=' ::
      (Text.print n.toInt ++ ").contains(&version)".toList)))) = some (.within m n) := by
  have hopen : ∀ text : Text, "(".toList.isPrefixOf? ('(' :: text) = some text :=
    isPrefixOf?_self "(".toList
  have hother : ∀ text : Text, "version >= ".toList.isPrefixOf? ('(' :: text) = none ∧
      "version <= ".toList.isPrefixOf? ('(' :: text) = none ∧
      "version == ".toList.isPrefixOf? ('(' :: text) = none := fun _ => ⟨rfl, rfl, rfl⟩
  obtain ⟨hleast, hmost, hexact⟩ := hother (Text.print m.toInt ++ '.' :: ('.' :: '=' ::
    (Text.print n.toInt ++ ").contains(&version)".toList)))
  unfold read
  rw [if_neg (by simp), if_neg (by simp), hleast, hmost, hexact, hopen]
  simp only [readRange_print]

end Guard

namespace VersionRange

theorem isEmpty_iff (range : VersionRange) : range.isEmpty = true ↔ range.max < range.min := by
  unfold isEmpty
  exact decide_eq_true_iff

theorem intersect_contains (range other : VersionRange) (version : Int16) :
    (range.intersect other).Contains version ↔ range.Contains version ∧ other.Contains version := by
  unfold intersect Contains
  simp only [Int16.le_iff_toInt_le]
  split <;> split <;> omega

theorem contains_iff (range : VersionRange) (version : Int16) :
    range.Contains version ↔
      range.min.toInt ≤ version.toInt ∧ version.toInt ≤ range.max.toInt := by
  unfold Contains
  rw [Int16.le_iff_toInt_le, Int16.le_iff_toInt_le]

/-- A comparison is only left out where it cannot fail. -/
theorem truth_expr (range valid : VersionRange) (version : Int16) (h : valid.Contains version) :
    Guard.truth (range.expr valid) version = some (decide (range.Contains version)) := by
  have hin := contains_iff range version
  obtain ⟨hlow, hhigh⟩ := (contains_iff valid version).mp h
  unfold expr
  by_cases hempty : range.isEmpty = true
  · have hnone : ¬ range.Contains version := by
      rw [isEmpty_iff, Int16.lt_iff_toInt_lt] at hempty
      rw [hin]
      omega
    rw [if_pos hempty, Guard.truth, Guard.read_false, Option.map_some, decide_eq_false hnone]
    rfl
  · rw [if_neg hempty]
    by_cases hlower : valid.min < range.min <;> by_cases hupper : range.max < valid.max <;>
      simp only [hlower, hupper, decide_true, decide_false] <;>
      simp only [Int16.lt_iff_toInt_lt] at hlower hupper
    · by_cases hone : range.min = range.max
      · rw [if_pos hone, Guard.truth, Guard.read_exactly, Option.map_some]
        simp only [Guard.holds, Option.some.injEq, decide_eq_decide, hin, ← hone,
          ← Int16.toInt_inj]
        omega
      · rw [if_neg hone, Guard.truth, Guard.read_within, Option.map_some]
        rfl
    · rw [Guard.truth, Guard.read_atLeast, Option.map_some]
      simp only [Guard.holds, Option.some.injEq, decide_eq_decide, hin, Int16.le_iff_toInt_le]
      omega
    · rw [Guard.truth, Guard.read_atMost, Option.map_some]
      simp only [Guard.holds, Option.some.injEq, decide_eq_decide, hin, Int16.le_iff_toInt_le]
      omega
    · have hall : range.Contains version := hin.mpr ⟨by omega, by omega⟩
      rw [Guard.truth, Guard.read_true, Option.map_some, decide_eq_true hall]
      rfl

end VersionRange

/-- Code the generator writes out, with its guard. -/
inductive Emitted (β : Type)
  | nothing
  | bare (body : β)
  | guarded (guard : Text) (body : β)

def emitGuarded {β : Type} (guard : Text) (body : β) : Emitted β :=
  if guard = "false".toList then .nothing
  else if guard = "true".toList then .bare body
  else .guarded guard body

/-- The body, at a version where it runs. -/
def Emitted.runs {β : Type} (version : Int16) : Emitted β → Option β
  | .nothing => none
  | .bare body => some body
  | .guarded guard body => if Guard.truth guard version = some true then some body else none

/-- `flex_switch`, run: which arm is taken. -/
def flexSwitch {β : Type} (flex : Text) (version : Int16) (flexArm plainArm : β) : β :=
  if flex = "true".toList then flexArm
  else if flex = "false".toList then plainArm
  else if Guard.truth flex version = some true then flexArm
  else plainArm

/-- `null_guard`, `nullable_check` and the `None` arms, run on a null, and the
guard of a known tag: whether they let it through. -/
def nullAllowed (nullable : Text) (version : Int16) : Bool :=
  nullable = "true".toList ∨ Guard.truth nullable version = some true

section Emission

variable {β : Type} {guard : Text} {version : Int16} {p : Prop} [Decidable p]

theorem not_of_truth_false (h : Guard.truth "false".toList version = some (decide p)) : ¬ p := by
  rw [Guard.truth, Guard.read_false, Option.map_some, Option.some.injEq] at h
  exact of_decide_eq_false h.symm

theorem of_truth_true (h : Guard.truth "true".toList version = some (decide p)) : p := by
  rw [Guard.truth, Guard.read_true, Option.map_some, Option.some.injEq] at h
  exact of_decide_eq_true h.symm

/-- Folding a constant guard does not change what runs. -/
theorem emitGuarded_runs (body : β) (h : Guard.truth guard version = some (decide p)) :
    (emitGuarded guard body).runs version = if p then some body else none := by
  unfold emitGuarded
  by_cases hfalse : guard = "false".toList
  · rw [hfalse] at h
    rw [if_pos hfalse, if_neg (not_of_truth_false h)]
    rfl
  · rw [if_neg hfalse]
    by_cases htrue : guard = "true".toList
    · rw [htrue] at h
      rw [if_pos htrue, if_pos (of_truth_true h)]
      rfl
    · rw [if_neg htrue, Emitted.runs, h]
      simp only [Option.some.injEq, decide_eq_true_eq]

theorem flexSwitch_eq (flexArm plainArm : β) (h : Guard.truth guard version = some (decide p)) :
    flexSwitch guard version flexArm plainArm = if p then flexArm else plainArm := by
  unfold flexSwitch
  by_cases htrue : guard = "true".toList
  · rw [htrue] at h
    rw [if_pos htrue, if_pos (of_truth_true h)]
  · rw [if_neg htrue]
    by_cases hfalse : guard = "false".toList
    · rw [hfalse] at h
      rw [if_pos hfalse, if_neg (not_of_truth_false h)]
    · rw [if_neg hfalse, h]
      simp only [Option.some.injEq, decide_eq_true_eq]

theorem nullAllowed_iff (h : Guard.truth guard version = some (decide p)) :
    nullAllowed guard version = true ↔ p := by
  unfold nullAllowed
  rw [decide_eq_true_iff, h, Option.some.injEq, decide_eq_true_iff]
  refine ⟨?_, .inr⟩
  rintro (htrue | hp)
  · rw [htrue] at h
    exact of_truth_true h
  · exact hp

/-- Every guard says at a valid version whether the version is in its range:
a guard of a field, and one folded over the versions of the field around it. -/
theorem guards_exact (range valid field : VersionRange) (version : Int16)
    (hvalid : valid.Contains version) :
    Guard.truth (range.expr valid) version = some (decide (range.Contains version)) ∧
    (field.Contains version →
      Guard.truth (range.expr (valid.intersect field)) version =
        some (decide (range.Contains version))) ∧
    (∀ body : β, (emitGuarded (range.expr valid) body).runs version =
      if range.Contains version then some body else none) ∧
    (∀ flexArm plainArm : β, flexSwitch (range.expr valid) version flexArm plainArm =
      if range.Contains version then flexArm else plainArm) ∧
    (field.Contains version →
      (nullAllowed (range.expr (valid.intersect field)) version = true ↔
        range.Contains version)) := by
  have houter := range.truth_expr valid version hvalid
  have hinner : field.Contains version →
      Guard.truth (range.expr (valid.intersect field)) version =
        some (decide (range.Contains version)) := fun hfield =>
    range.truth_expr _ version ((valid.intersect_contains field version).mpr ⟨hvalid, hfield⟩)
  exact ⟨houter, hinner, fun body => emitGuarded_runs body houter,
    fun flexArm plainArm => flexSwitch_eq flexArm plainArm houter,
    fun hfield => nullAllowed_iff (hinner hfield)⟩

/-- A field since version 3, nullable from 5 to 7, in a message of versions 1 to 9. -/
theorem guards_exact_nested :
    Guard.truth ((⟨5, 7⟩ : VersionRange).expr ((⟨1, 9⟩ : VersionRange).intersect ⟨3, 32767⟩)) 7 =
      some true :=
  (guards_exact (β := Unit) ⟨5, 7⟩ ⟨1, 9⟩ ⟨3, 32767⟩ 7 (by decide)).2.1 (by decide)

end Emission

end Odradek.Codegen
