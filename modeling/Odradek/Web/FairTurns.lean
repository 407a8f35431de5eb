import Odradek.Library.Rotation
import Odradek.Web.Pump

/-!
Whose turn it is for the one catch-up fetch of an iteration. Only the rotor is
remembered from one choice to the next; the subscribers may be any others by then,
and one that is owed a fetch throughout is not passed over twice for the same other.
-/

namespace Odradek.Web

open Library

section Picking

variable {rotor : Nat} {ringFloor liveEdge : Cursor}

theorem turnBefore_iff {a b : Nat} : turnBefore rotor a b = true ↔ Rotation.Before rotor a b := by
  unfold turnBefore Rotation.Before
  by_cases ha : a < rotor <;> by_cases hb : b < rotor <;> simp [ha, hb] <;> omega

def Owed (list : List Subscriber) (ringFloor liveEdge : Cursor) (id : Nat) : Prop :=
  ∃ s ∈ list, s.state.id = id ∧ s.state.needsFetch ringFloor liveEdge = true

/-- The best of a list so far: an entry that is owed a fetch, and none of them before it. -/
structure Leading (rotor : Nat) (ringFloor liveEdge : Cursor) (list : List Subscriber)
    (best : Nat × Nat) : Prop where
  entry : ∃ s, list[best.1]? = some s ∧ s.state.id = best.2
  takes : Rotation.Takes rotor (Owed list ringFloor liveEdge) best.2

/-- What is chosen is the best of the whole list, if any of it is owed a fetch. -/
def Chosen (rotor : Nat) (ringFloor liveEdge : Cursor) (list : List Subscriber) :
    Option (Nat × Nat) → Prop
  | none => ∀ id, ¬ Owed list ringFloor liveEdge id
  | some best => Leading rotor ringFloor liveEdge list best

theorem owed_append {list : List Subscriber} {sub : Subscriber} {id : Nat} :
    Owed (list ++ [sub]) ringFloor liveEdge id ↔ Owed list ringFloor liveEdge id ∨
      (sub.state.id = id ∧ sub.state.needsFetch ringFloor liveEdge = true) := by
  simp only [Owed, List.mem_append, List.mem_singleton, or_and_right, exists_or, exists_eq_left]

/-- The best, once one more subscriber is looked at. -/
def betterTurn (rotor : Nat) (ringFloor liveEdge : Cursor) (sub : Subscriber) (index : Nat)
    (best : Option (Nat × Nat)) : Option (Nat × Nat) :=
  if sub.state.needsFetch ringFloor liveEdge then
    match best with
    | none => some (index, sub.state.id)
    | some b => if turnBefore rotor sub.state.id b.2 then some (index, sub.state.id) else some b
  else best

/-- Looking at one more subscriber keeps the best of them. -/
theorem Chosen.next {list : List Subscriber} {best : Option (Nat × Nat)} {sub : Subscriber}
    (h : Chosen rotor ringFloor liveEdge list best) :
    Chosen rotor ringFloor liveEdge (list ++ [sub])
      (betterTurn rotor ringFloor liveEdge sub list.length best) := by
  unfold betterTurn
  have hlast : (list ++ [sub])[list.length]? = some sub := List.getElem?_concat_length
  by_cases hneeds : sub.state.needsFetch ringFloor liveEdge = true
  · rw [if_pos hneeds]
    cases best with
    | none =>
        refine ⟨⟨sub, hlast, rfl⟩, fun id hid hbefore => ?_⟩
        obtain hid | ⟨rfl, _⟩ := owed_append.mp hid
        · exact h id hid
        · exact Rotation.Before.irrefl _ hbefore
    | some b =>
        obtain ⟨⟨s, hs, hid⟩, hfirst⟩ := h
        dsimp only
        by_cases hbefore : turnBefore rotor sub.state.id b.2 = true
        · rw [if_pos hbefore]
          refine ⟨⟨sub, hlast, rfl⟩, fun id hid hless => ?_⟩
          obtain hid | ⟨rfl, _⟩ := owed_append.mp hid
          · exact hfirst id hid (hless.trans (turnBefore_iff.mp hbefore))
          · exact Rotation.Before.irrefl _ hless
        · rw [if_neg hbefore]
          refine ⟨⟨s, ?_, hid⟩, fun id hother hless => ?_⟩
          · rw [List.getElem?_append_left (List.getElem?_eq_some_iff.mp hs).1]
            exact hs
          · obtain hother | ⟨rfl, _⟩ := owed_append.mp hother
            · exact hfirst id hother hless
            · exact hbefore (turnBefore_iff.mpr hless)
  · rw [if_neg hneeds]
    have hsame : ∀ id, Owed (list ++ [sub]) ringFloor liveEdge id ↔
        Owed list ringFloor liveEdge id := fun id =>
      owed_append.trans (or_iff_left fun hsub => hneeds hsub.2)
    cases best with
    | none => exact fun id hid => h id ((hsame id).mp hid)
    | some b =>
        obtain ⟨⟨s, hs, hid⟩, hfirst⟩ := h
        refine ⟨⟨s, ?_, hid⟩, fun id hother => hfirst id ((hsame id).mp hother)⟩
        rw [List.getElem?_append_left (List.getElem?_eq_some_iff.mp hs).1]
        exact hs

theorem pickTurn_chosen (seen : List Subscriber) {rest : List Subscriber}
    {best : Option (Nat × Nat)}
    (h : Chosen rotor ringFloor liveEdge seen best) :
    Chosen rotor ringFloor liveEdge (seen ++ rest)
      (pickTurn rotor ringFloor liveEdge rest seen.length best) := by
  induction rest generalizing seen best with
  | nil =>
      rw [List.append_nil]
      exact h
  | cons sub rest ih =>
      have hnext := ih (seen ++ [sub]) h.next
      rw [List.append_assoc, List.length_append] at hnext
      exact hnext

end Picking

section Choices

/-- What a choice meets: the subscribers as they are by then, and what they are held against. -/
structure Choice where
  list : List Subscriber
  nextId : Nat
  ringFloor : Cursor
  liveEdge : Cursor

/-- `next_fetch`, from this rotor. -/
def Choice.made (c : Choice) (rotor : Nat) : Option (Nat × Subscribers) :=
  Subscribers.nextFetch { list := c.list, nextId := c.nextId, rotor } c.ringFloor c.liveEdge

/-- The rotor a choice is made from, the first from `rotor`. -/
def rotorAt (rotor : Nat) (choices : Nat → Choice) : Nat → Nat
  | 0 => rotor
  | k + 1 =>
    (((choices k).made (rotorAt rotor choices k)).map fun out => out.2.rotor).getD
      (rotorAt rotor choices k)

/-- The id of the subscriber a choice falls on. -/
def chosenAt (rotor : Nat) (choices : Nat → Choice) (k : Nat) : Option Nat :=
  ((choices k).made (rotorAt rotor choices k)).bind fun out =>
    ((choices k).list[out.1]?).map fun s => s.state.id

/-- The subscriber is owed a fetch at a choice. -/
def OwedAt (choices : Nat → Choice) (k id : Nat) : Prop :=
  Owed (choices k).list (choices k).ringFloor (choices k).liveEdge id

/-- The choices of the pump are turns of the rotation. -/
theorem turns_chosenAt (rotor : Nat) (choices : Nat → Choice) :
    Rotation.Turns (rotorAt rotor choices) (OwedAt choices) (chosenAt rotor choices) := by
  have hchosen : ∀ k, Chosen (rotorAt rotor choices k) (choices k).ringFloor (choices k).liveEdge
      (choices k).list (pickTurn (rotorAt rotor choices k) (choices k).ringFloor
        (choices k).liveEdge (choices k).list 0 none) := fun k =>
    pickTurn_chosen [] (show Chosen _ _ _ [] none from fun _ ⟨_, hs, _⟩ => (by cases hs))
  constructor
  · intro k a htaken
    have hpicked := hchosen k
    unfold chosenAt Choice.made Subscribers.nextFetch at htaken
    rw [rotorAt, Choice.made, Subscribers.nextFetch]
    cases hpick : pickTurn (rotorAt rotor choices k) (choices k).ringFloor (choices k).liveEdge
        (choices k).list 0 none with
    | none =>
        rw [hpick] at htaken
        cases htaken
    | some best =>
        rw [hpick] at hpicked htaken
        obtain ⟨⟨s, hs, hid⟩, htakes⟩ := hpicked
        simp only [Option.map_some, Option.bind_some, hs] at htaken
        obtain rfl := (Option.some.inj htaken).symm.trans hid
        exact ⟨htakes, rfl⟩
  · intro k htaken
    have hpicked := hchosen k
    unfold chosenAt Choice.made Subscribers.nextFetch at htaken
    rw [rotorAt, Choice.made, Subscribers.nextFetch]
    cases hpick : pickTurn (rotorAt rotor choices k) (choices k).ringFloor (choices k).liveEdge
        (choices k).list 0 none with
    | none =>
        rw [hpick] at hpicked
        exact ⟨hpicked, rfl⟩
    | some best =>
        rw [hpick] at hpicked htaken
        obtain ⟨s, hs, _⟩ := hpicked.entry
        simp only [Option.map_some, Option.bind_some, hs] at htaken
        cases htaken

/-- While a subscriber is owed a fetch at every choice, no other is chosen twice
before it is chosen. -/
theorem chosenAt_fair (rotor : Nat) (choices : Nat → Choice) {x y i j : Nat} (hne : x ≠ y)
    (hij : i < j) (hi : chosenAt rotor choices i = some y) (hj : chosenAt rotor choices j = some y)
    (howed : ∀ k, i < k → k ≤ j → OwedAt choices k x) :
    ∃ k, i < k ∧ k < j ∧ chosenAt rotor choices k = some x :=
  (turns_chosenAt rotor choices).fair hne hij hi hj howed

/-- A subscriber that has seen nothing, with room for one event. -/
def laggard (id : Nat) : Subscriber :=
  { state :=
      { id
        sender := Channel.new 1
        filter := .default
        mode := .catchingUp
        cursor := ⊥
        closed := false
        catchUpErrors := 0 }
    position := .earliest
    edge := .unknown
    held := [] }

def twoLaggards : Choice :=
  { list := [laggard 0, laggard 1]
    nextId := 2
    ringFloor := (5 : Int)
    liveEdge := (7 : Int) }

theorem chosenAt_fair_two :
    ∃ k, 0 < k ∧ k < 2 ∧ chosenAt 0 (fun _ => twoLaggards) k = some 1 :=
  chosenAt_fair 0 (fun _ => twoLaggards) (show 1 ≠ 0 by decide) (show 0 < 2 by decide)
    (by decide) (by decide) fun _ _ _ =>
      ⟨laggard 1, List.mem_cons_of_mem _ List.mem_cons_self, rfl, rfl⟩

end Choices

end Odradek.Web
