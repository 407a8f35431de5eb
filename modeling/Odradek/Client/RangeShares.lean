import Odradek.Client.Group
import Odradek.Library.FairSplit
import Odradek.Protocol.WireRoundTrip

/-!
The range assignor gives every partition of a subscribed topic to one of the
topic's subscribers. A topic's shares are a fair split of its partitions over
the subscribers in id order; what a member is given of one topic does not
depend on the others.
-/

namespace Odradek.Client

open Library Protocol

section Split

/-- What one topic's split holds for a member. -/
def partsOf (split : List (String × List Int32)) (member : String) : Option (List Int32) :=
  (split.find? fun e => e.1 = member).map (·.2)

theorem partsOf_cons_self {split : List (String × List Int32)} {member : String}
    {parts : List Int32} : partsOf ((member, parts) :: split) member = some parts := by
  simp [partsOf]

theorem partsOf_cons_ne {split : List (String × List Int32)} {member other : String}
    {parts : List Int32} (h : other ≠ member) :
    partsOf ((member, parts) :: split) other = partsOf split other := by
  rw [partsOf, List.find?_cons_of_neg (by simpa using Ne.symm h)]
  rfl

theorem splitRange_stranger {per extra i next : Nat} {members : List String} {member : String}
    (h : member ∉ members) : partsOf (splitRange per extra i next members) member = none := by
  induction members generalizing i next with
  | nil => rfl
  | cons first rest ih =>
      obtain ⟨hne, hrest⟩ := List.ne_and_not_mem_of_not_mem_cons h
      rw [splitRange]
      by_cases hzero : (per + if i < extra then 1 else 0) = 0
      · rw [if_pos hzero]
        exact ih hrest
      · rw [if_neg hzero, partsOf_cons_ne hne]
        exact ih hrest

/-- Share `j` of a split that starts at share `i` goes to member `j`. -/
theorem splitRange_member {count n i j : Nat} {members : List String} {member : String}
    (hnodup : members.Nodup) (hmember : members[j]? = some member) :
    (partsOf (splitRange (count / n) (count % n) i (FairSplit.start count n i) members)
        member).getD [] =
      (List.range' (FairSplit.start count n (i + j)) (FairSplit.share count n (i + j))).map
        Int32.ofNat := by
  induction members generalizing i j with
  | nil => cases hmember
  | cons first rest ih =>
      obtain ⟨hfirst, hrest⟩ := List.nodup_cons.mp hnodup
      have hsucc := @FairSplit.start_succ count n i
      rw [splitRange]
      cases j with
      | zero =>
          obtain rfl : first = member := by simpa using hmember
          by_cases hzero : FairSplit.share count n i = 0
          · have hnone : partsOf (splitRange (count / n) (count % n) (i + 1)
                (FairSplit.start count n i) rest) first = none := splitRange_stranger hfirst
            unfold FairSplit.share at hzero
            rw [if_pos hzero, hnone]
            simp only [Nat.add_zero, FairSplit.share, hzero]
            rfl
          · unfold FairSplit.share at hzero
            rw [if_neg hzero, partsOf_cons_self]
            rfl
      | succ j =>
          have hmember : rest[j]? = some member := by simpa using hmember
          have hne : member ≠ first := by
            rintro rfl
            exact hfirst (List.mem_of_getElem? hmember)
          have hnext := ih (i := i + 1) hrest hmember
          rw [Nat.add_right_comm, Nat.add_assoc] at hnext
          by_cases hzero : FairSplit.share count n i = 0
          · rw [hsucc, hzero, Nat.add_zero] at hnext
            unfold FairSplit.share at hzero
            rw [if_pos hzero]
            exact hnext
          · rw [hsucc] at hnext
            unfold FairSplit.share at hzero
            rw [if_neg hzero, partsOf_cons_ne hne]
            exact hnext

theorem splitRange_keys {per extra i next : Nat} {members : List String} :
    List.Sublist ((splitRange per extra i next members).map (·.1)) members := by
  induction members generalizing i next with
  | nil => exact List.Sublist.refl _
  | cons first rest ih =>
      rw [splitRange]
      by_cases hzero : (per + if i < extra then 1 else 0) = 0
      · rw [if_pos hzero]
        exact ih.cons first
      · rw [if_neg hzero]
        exact ih.cons_cons first

end Split

section Assign

def subscribersOf (subscriptions : List (String × List String)) (topic : String) : List String :=
  ((subscriptions.filter fun s => topic ∈ s.2).map (·.1)).insertionSort (· ≤ ·)

def topicSplit (subscriptions : List (String × List String)) (topic : String) (count : Nat) :
    List (String × List Int32) :=
  let members := subscribersOf subscriptions topic
  splitRange (count / min members.length i32Max) (count % min members.length i32Max) 0 0 members

/-- Each member of a split gets what it holds. -/
def giveSplit (topic : String) (split : List (String × List Int32))
    (out : SortedMap String (List (String × List Int32))) :
    SortedMap String (List (String × List Int32)) :=
  split.foldl (fun out (member, parts) =>
    out.insert member ((out.lookup member).getD [] ++ [(topic, parts)])) out

def seeded (subscriptions : List (String × List String)) :
    SortedMap String (List (String × List Int32)) :=
  subscriptions.foldl (fun out s => out.insert s.1 []) .empty

theorem rangeAssign_eq (topicPartitions : List (String × Nat))
    (subscriptions : List (String × List String)) :
    rangeAssign topicPartitions subscriptions =
      topicPartitions.foldl (fun out e => giveSplit e.1 (topicSplit subscriptions e.1 e.2) out)
        (seeded subscriptions) := rfl

theorem giveSplit_stranger {topic member : String} {split : List (String × List Int32)}
    {out : SortedMap String (List (String × List Int32))} (h : member ∉ split.map (·.1)) :
    (giveSplit topic split out).lookup member = out.lookup member := by
  induction split generalizing out with
  | nil => rfl
  | cons e rest ih =>
      obtain ⟨hne, hrest⟩ := List.ne_and_not_mem_of_not_mem_cons h
      exact (ih hrest).trans (SortedMap.lookup_insert_ne hne)

/-- A split gives a member its own part, behind what it had. -/
theorem giveSplit_lookup {topic member : String} {split : List (String × List Int32)}
    {out : SortedMap String (List (String × List Int32))} (hnodup : (split.map (·.1)).Nodup)
    {before : List (String × List Int32)} (hbefore : out.lookup member = some before) :
    (giveSplit topic split out).lookup member =
      some (before ++ ((partsOf split member).map fun parts => (topic, parts)).toList) := by
  induction split generalizing out with
  | nil => rw [show partsOf [] member = none from rfl]
           exact hbefore.trans (by rw [Option.map_none, Option.toList_none, List.append_nil])
  | cons e rest ih =>
      obtain ⟨hhead, hrest⟩ := List.nodup_cons.mp hnodup
      by_cases hmember : e.1 = member
      · subst hmember
        have hlast : (giveSplit topic (e :: rest) out).lookup e.1 =
            (out.insert e.1 ((out.lookup e.1).getD [] ++ [(topic, e.2)])).lookup e.1 :=
          giveSplit_stranger hhead
        rw [hlast, SortedMap.lookup_insert_self, hbefore, partsOf_cons_self]
        rfl
      · have hne := Ne.symm hmember
        rw [partsOf_cons_ne hne]
        exact ih hrest ((SortedMap.lookup_insert_ne hne).trans hbefore)

theorem insertionSort_nodup {l : List String} (h : l.Nodup) :
    (l.insertionSort (· ≤ ·)).Nodup :=
  (List.perm_insertionSort (· ≤ ·) l).nodup_iff.mpr h

theorem subscribersOf_nodup {subscriptions : List (String × List String)} {topic : String}
    (h : (subscriptions.map (·.1)).Nodup) : (subscribersOf subscriptions topic).Nodup :=
  insertionSort_nodup (List.Sublist.nodup (List.Sublist.map _ List.filter_sublist) h)

theorem mem_subscribersOf {subscriptions : List (String × List String)} {topic member : String} :
    member ∈ subscribersOf subscriptions topic ↔
      ∃ s ∈ subscriptions, s.1 = member ∧ topic ∈ s.2 := by
  rw [subscribersOf, List.mem_insertionSort, List.mem_map]
  simp only [List.mem_filter, decide_eq_true_eq]
  exact ⟨fun ⟨s, ⟨hs, ht⟩, hm⟩ => ⟨s, hs, hm, ht⟩, fun ⟨s, hs, hm, ht⟩ => ⟨s, ⟨hs, ht⟩, hm⟩⟩

theorem topicSplit_keys {subscriptions : List (String × List String)} {topic : String}
    {count : Nat} :
    List.Sublist ((topicSplit subscriptions topic count).map (·.1))
      (subscribersOf subscriptions topic) :=
  splitRange_keys

theorem seeded_lookup (subscriptions : List (String × List String)) (member : String) :
    (seeded subscriptions).lookup member =
      if member ∈ subscriptions.map (·.1) then some [] else none := by
  have hfold : ∀ (l : List (String × List String))
      (out : SortedMap String (List (String × List Int32))),
      (l.foldl (fun out s => out.insert s.1 []) out).lookup member =
        if member ∈ l.map (·.1) then some [] else out.lookup member := by
    intro l
    induction l with
    | nil => exact fun _ => rfl
    | cons s rest ih =>
        intro out
        rw [List.foldl_cons, ih, List.map_cons]
        by_cases hrest : member ∈ rest.map (·.1)
        · rw [if_pos hrest, if_pos (List.mem_cons_of_mem _ hrest)]
        · rw [if_neg hrest]
          by_cases hhead : member = s.1
          · subst hhead
            rw [SortedMap.lookup_insert_self, if_pos List.mem_cons_self]
          · rw [SortedMap.lookup_insert_ne hhead,
              if_neg (fun h => (List.mem_cons.mp h).elim hhead hrest)]
  exact hfold subscriptions .empty

/-- What one topic adds to a member's assignment. -/
def topicEntry (subscriptions : List (String × List String)) (member : String)
    (e : String × Nat) : List (String × List Int32) :=
  ((partsOf (topicSplit subscriptions e.1 e.2) member).map fun parts => (e.1, parts)).toList

/-- A member's assignment, topic by topic. -/
theorem rangeAssign_lookup {subscriptions : List (String × List String)}
    (hids : (subscriptions.map (·.1)).Nodup) (topicPartitions : List (String × Nat))
    (member : String) :
    (rangeAssign topicPartitions subscriptions).lookup member =
      if member ∈ subscriptions.map (·.1) then
        some (topicPartitions.flatMap (topicEntry subscriptions member))
      else none := by
  have hseed := seeded_lookup subscriptions member
  have hsplit : ∀ e : String × Nat, ((topicSplit subscriptions e.1 e.2).map (·.1)).Nodup :=
    fun e => topicSplit_keys.nodup (subscribersOf_nodup hids)
  rw [rangeAssign_eq]
  by_cases hmember : member ∈ subscriptions.map (·.1)
  · rw [if_pos hmember] at hseed ⊢
    have hfold : ∀ (l : List (String × Nat)) (out : SortedMap String (List (String × List Int32)))
        (before : List (String × List Int32)), out.lookup member = some before →
        (l.foldl (fun out e => giveSplit e.1 (topicSplit subscriptions e.1 e.2) out) out).lookup
          member = some (before ++ l.flatMap (topicEntry subscriptions member)) := by
      intro l
      induction l with
      | nil => exact fun out before h => h.trans (by rw [List.flatMap_nil, List.append_nil])
      | cons e rest ih =>
          intro out before h
          rw [List.foldl_cons, ih _ _ (giveSplit_lookup (hsplit e) h), List.flatMap_cons,
            List.append_assoc]
          rfl
    exact hfold topicPartitions _ [] hseed
  · rw [if_neg hmember] at hseed ⊢
    have hstranger : ∀ e : String × Nat,
        member ∉ (topicSplit subscriptions e.1 e.2).map (·.1) := by
      intro e hmem
      obtain ⟨s, hs, rfl, _⟩ := mem_subscribersOf.mp (topicSplit_keys.subset hmem)
      exact hmember (List.mem_map_of_mem hs)
    have hfold : ∀ (l : List (String × Nat)) (out : SortedMap String (List (String × List Int32))),
        (l.foldl (fun out e => giveSplit e.1 (topicSplit subscriptions e.1 e.2) out) out).lookup
          member = out.lookup member := by
      intro l
      induction l with
      | nil => exact fun _ => rfl
      | cons e rest ih => exact fun out => (ih _).trans (giveSplit_stranger (hstranger e))
    rw [hfold, hseed]

end Assign

section Shares

/-- What an assignment gives a member of one topic. -/
def shareOf (assigned : SortedMap String (List (String × List Int32))) (member topic : String) :
    List Int32 :=
  (((assigned.lookup member).getD []).filter fun e => e.1 = topic).flatMap (·.2)

variable {subscriptions : List (String × List String)} {topicPartitions : List (String × Nat)}

theorem filter_topicEntry_ne {member topic : String} {e : String × Nat} (h : e.1 ≠ topic) :
    (topicEntry subscriptions member e).filter (fun e => e.1 = topic) = [] := by
  unfold topicEntry
  cases partsOf (topicSplit subscriptions e.1 e.2) member with
  | none => rfl
  | some parts => simp [h]

theorem flatMap_topicEntry {member topic : String} {count : Nat}
    (htopics : (topicPartitions.map (·.1)).Nodup) (hmem : (topic, count) ∈ topicPartitions) :
    ((topicPartitions.flatMap (topicEntry subscriptions member)).filter
        fun e => e.1 = topic).flatMap (·.2) =
      (partsOf (topicSplit subscriptions topic count) member).getD [] := by
  induction topicPartitions with
  | nil => exact absurd hmem List.not_mem_nil
  | cons e rest ih =>
      obtain ⟨hhead, hrest⟩ := List.nodup_cons.mp htopics
      rw [List.flatMap_cons, List.filter_append, List.flatMap_append]
      obtain rfl | hmem := List.mem_cons.mp hmem
      · have hothers : (rest.flatMap (topicEntry subscriptions member)).filter
            (fun e => e.1 = topic) = [] := by
          rw [List.filter_flatMap, List.flatMap_eq_nil_iff]
          intro e he
          exact filter_topicEntry_ne fun h => hhead (List.mem_map.mpr ⟨e, he, h⟩)
        rw [hothers, List.flatMap_nil, List.append_nil, topicEntry]
        cases partsOf (topicSplit subscriptions topic count) member with
        | none => rfl
        | some parts => simp
      · have hne : e.1 ≠ topic := fun h => hhead (List.mem_map.mpr ⟨_, hmem, h.symm⟩)
        rw [filter_topicEntry_ne hne, List.flatMap_nil, List.nil_append, ih hrest hmem]

theorem flatMap_topicEntry_nil {member topic : String} (hmem : topic ∉ topicPartitions.map (·.1)) :
    ((topicPartitions.flatMap (topicEntry subscriptions member)).filter
        fun e => e.1 = topic).flatMap (·.2) = [] := by
  have hnone : (topicPartitions.flatMap (topicEntry subscriptions member)).filter
      (fun e => e.1 = topic) = [] := by
    rw [List.filter_flatMap, List.flatMap_eq_nil_iff]
    intro e he
    exact filter_topicEntry_ne fun h => hmem (List.mem_map.mpr ⟨e, he, h⟩)
  rw [hnone, List.flatMap_nil]

def Subscribes (subscriptions : List (String × List String)) (member topic : String) : Prop :=
  ∃ s ∈ subscriptions, s.1 = member ∧ topic ∈ s.2

theorem shareOf_eq {member topic : String} {count : Nat} (hids : (subscriptions.map (·.1)).Nodup)
    (htopics : (topicPartitions.map (·.1)).Nodup) (hmem : (topic, count) ∈ topicPartitions)
    (hmember : member ∈ subscriptions.map (·.1)) :
    shareOf (rangeAssign topicPartitions subscriptions) member topic =
      (partsOf (topicSplit subscriptions topic count) member).getD [] := by
  rw [shareOf, rangeAssign_lookup hids, if_pos hmember]
  exact flatMap_topicEntry htopics hmem

/-- Who does not subscribe gets nothing. -/
theorem shareOf_stranger {member topic : String} (hids : (subscriptions.map (·.1)).Nodup)
    (htopics : (topicPartitions.map (·.1)).Nodup) (h : ¬ Subscribes subscriptions member topic) :
    shareOf (rangeAssign topicPartitions subscriptions) member topic = [] := by
  by_cases hmember : member ∈ subscriptions.map (·.1)
  · by_cases hmem : topic ∈ topicPartitions.map (·.1)
    · obtain ⟨⟨_, count⟩, hentry, rfl⟩ := List.mem_map.mp hmem
      rw [shareOf_eq hids htopics hentry hmember, topicSplit,
        splitRange_stranger fun hin => h (mem_subscribersOf.mp hin)]
      rfl
    · rw [shareOf, rangeAssign_lookup hids, if_pos hmember]
      exact flatMap_topicEntry_nil hmem
  · rw [shareOf, rangeAssign_lookup hids, if_neg hmember]
    rfl

theorem length_subscribersOf_le (subscriptions : List (String × List String)) (topic : String) :
    (subscribersOf subscriptions topic).length ≤ subscriptions.length := by
  rw [subscribersOf, List.length_insertionSort, List.length_map]
  exact List.length_filter_le _ _

/-- The subscriber at place `j` has the split's share `j`. -/
theorem shareOf_subscriber {member topic : String} {count j : Nat}
    (hids : (subscriptions.map (·.1)).Nodup) (htopics : (topicPartitions.map (·.1)).Nodup)
    (hmem : (topic, count) ∈ topicPartitions) (hlen : subscriptions.length ≤ i32Max)
    (hmember : (subscribersOf subscriptions topic)[j]? = some member) :
    shareOf (rangeAssign topicPartitions subscriptions) member topic =
      (List.range' (FairSplit.start count (subscribersOf subscriptions topic).length j)
        (FairSplit.share count (subscribersOf subscriptions topic).length j)).map Int32.ofNat := by
  have hle := length_subscribersOf_le subscriptions topic
  have hmin : min (subscribersOf subscriptions topic).length i32Max =
      (subscribersOf subscriptions topic).length := by omega
  obtain ⟨s, hs, rfl, _⟩ := mem_subscribersOf.mp (List.mem_of_getElem? hmember)
  have hsplit := @splitRange_member count (subscribersOf subscriptions topic).length 0 j _ _
    (subscribersOf_nodup hids) hmember
  rw [FairSplit.start_zero, Nat.zero_add] at hsplit
  rw [shareOf_eq hids htopics hmem (List.mem_map_of_mem hs), topicSplit]
  simp only [hmin]
  exact hsplit

/-- Every partition of a subscribed topic belongs to exactly one subscriber; the
shares are contiguous, differ by one at most, the larger ones first; nobody else
has any; and every member has an entry. -/
structure Divides (topicPartitions : List (String × Nat))
    (subscriptions : List (String × List String))
    (assigned : SortedMap String (List (String × List Int32))) : Prop where
  once : ∀ topic count, (topic, count) ∈ topicPartitions →
    (∃ member, Subscribes subscriptions member topic) → ∀ p < count,
    ∃ member, (Subscribes subscriptions member topic ∧
      Int32.ofNat p ∈ shareOf assigned member topic) ∧
      ∀ other, Int32.ofNat p ∈ shareOf assigned other topic → other = member
  contiguous : ∀ topic count, (topic, count) ∈ topicPartitions → ∀ member,
    ∃ first size, first + size ≤ count ∧
      shareOf assigned member topic = (List.range' first size).map Int32.ofNat
  fair : ∀ topic count, (topic, count) ∈ topicPartitions → ∀ early late,
    Subscribes subscriptions early topic → Subscribes subscriptions late topic → early ≤ late →
    (shareOf assigned late topic).length ≤ (shareOf assigned early topic).length ∧
    (shareOf assigned early topic).length ≤ (shareOf assigned late topic).length + 1
  strangers : ∀ member topic, ¬ Subscribes subscriptions member topic →
    shareOf assigned member topic = []
  everyone : ∀ s ∈ subscriptions, ∃ given, assigned.lookup s.1 = some given

theorem subscribersOf_sorted (subscriptions : List (String × List String)) (topic : String) :
    (subscribersOf subscriptions topic).Pairwise (· ≤ ·) :=
  List.pairwise_insertionSort (· ≤ ·) _

theorem ofNat_inj {p q : Nat} (hp : p ≤ i32Max) (hq : q ≤ i32Max)
    (h : Int32.ofNat p = Int32.ofNat q) : p = q := by
  have hint := congrArg Int32.toInt h
  rw [(int32_ofNat hp).1, (int32_ofNat hq).1] at hint
  omega

/-- The order of the subscriptions does not matter. -/
theorem rangeAssign_perm {subscriptions' : List (String × List String)}
    (hids : (subscriptions.map (·.1)).Nodup) (hperm : subscriptions'.Perm subscriptions) :
    rangeAssign topicPartitions subscriptions' = rangeAssign topicPartitions subscriptions := by
  have hids' : (subscriptions'.map (·.1)).Nodup := (hperm.map _).nodup_iff.mpr hids
  have hsubscribers : ∀ topic, subscribersOf subscriptions' topic =
      subscribersOf subscriptions topic := fun topic =>
    (((List.perm_insertionSort _ _).trans ((hperm.filter _).map _)).trans
      (List.perm_insertionSort _ _).symm).eq_of_pairwise
        (fun _ _ _ _ hab hba => le_antisymm hab hba) (subscribersOf_sorted _ topic)
          (subscribersOf_sorted _ topic)
  have hentry : ∀ member, topicEntry subscriptions' member = topicEntry subscriptions member := by
    intro member
    funext e
    rw [topicEntry, topicEntry, topicSplit, topicSplit, hsubscribers]
  refine SortedMap.ext_lookup fun member => ?_
  rw [rangeAssign_lookup hids', rangeAssign_lookup hids, hentry]
  simp only [(hperm.map Prod.fst).mem_iff]

theorem Subscribes.place {member topic : String} (h : Subscribes subscriptions member topic) :
    ∃ j, j < (subscribersOf subscriptions topic).length ∧
      (subscribersOf subscriptions topic)[j]? = some member := by
  obtain ⟨j, hj, hget⟩ := List.getElem_of_mem (mem_subscribersOf.mpr h)
  exact ⟨j, hj, by rw [List.getElem?_eq_getElem hj, hget]⟩

variable (hids : (subscriptions.map (·.1)).Nodup) (htopics : (topicPartitions.map (·.1)).Nodup)
  (hcounts : ∀ e ∈ topicPartitions, e.2 ≤ i32Max) (hlen : subscriptions.length ≤ i32Max)
include hids htopics hcounts hlen

/-- A partition goes to one subscriber, and to no other member. -/
theorem shareOf_once {topic : String} {count p : Nat} (hmem : (topic, count) ∈ topicPartitions)
    (hsubscribed : ∃ member, Subscribes subscriptions member topic) (hp : p < count) :
    ∃ member, (Subscribes subscriptions member topic ∧
      Int32.ofNat p ∈ shareOf (rangeAssign topicPartitions subscriptions) member topic) ∧
      ∀ other, Int32.ofNat p ∈ shareOf (rangeAssign topicPartitions subscriptions) other topic →
        other = member := by
  have hmax : count ≤ i32Max := hcounts _ hmem
  obtain ⟨_, hsubscribed⟩ := hsubscribed
  obtain ⟨i, hi, _⟩ := hsubscribed.place
  have hpos := Nat.lt_of_le_of_lt (Nat.zero_le i) hi
  obtain ⟨j, ⟨hj, hle, hlt⟩, honly⟩ := FairSplit.tile hp hpos
  have hmember := List.getElem?_eq_getElem hj
  have hshare := shareOf_subscriber hids htopics hmem hlen hmember
  rw [FairSplit.start_succ] at hlt
  refine ⟨_, ⟨mem_subscribersOf.mp (List.mem_of_getElem? hmember), ?_⟩, ?_⟩
  · rw [hshare]
    exact List.mem_map_of_mem (List.mem_range'_1.mpr ⟨hle, hlt⟩)
  · intro other hother
    by_cases hsub : Subscribes subscriptions other topic
    · obtain ⟨k, hk, hget⟩ := hsub.place
      rw [shareOf_subscriber hids htopics hmem hlen hget] at hother
      obtain ⟨q, hq, heq⟩ := List.mem_map.mp hother
      obtain ⟨hqle, hqlt⟩ := List.mem_range'_1.mp hq
      rw [← FairSplit.start_succ] at hqlt
      have hend := @FairSplit.start_le count _ _ (Nat.succ_le_of_lt hk) hpos
      obtain rfl := ofNat_inj (Nat.le_trans (Nat.le_of_lt (Nat.lt_of_lt_of_le hqlt hend)) hmax)
        (Nat.le_trans (Nat.le_of_lt hp) hmax) heq
      obtain rfl := honly k ⟨hqle, hqlt⟩
      exact (Option.some.inj (hmember.symm.trans hget)).symm
    · rw [shareOf_stranger hids htopics hsub] at hother
      exact absurd hother List.not_mem_nil

omit hcounts in
theorem shareOf_contiguous {topic : String} {count : Nat}
    (hmem : (topic, count) ∈ topicPartitions) (member : String) :
    ∃ first size, first + size ≤ count ∧
      shareOf (rangeAssign topicPartitions subscriptions) member topic =
        (List.range' first size).map Int32.ofNat := by
  by_cases hsub : Subscribes subscriptions member topic
  · obtain ⟨j, hj, hget⟩ := hsub.place
    refine ⟨_, _, ?_, shareOf_subscriber hids htopics hmem hlen hget⟩
    rw [← FairSplit.start_succ]
    exact FairSplit.start_le (Nat.succ_le_of_lt hj) (Nat.lt_of_le_of_lt (Nat.zero_le j) hj)
  · exact ⟨0, 0, Nat.zero_le _, shareOf_stranger hids htopics hsub⟩

omit hcounts in
/-- An earlier subscriber has as many partitions, or one more. -/
theorem shareOf_fair {topic early late : String} {count : Nat}
    (hmem : (topic, count) ∈ topicPartitions) (hearly : Subscribes subscriptions early topic)
    (hlate : Subscribes subscriptions late topic) (hle : early ≤ late) :
    (shareOf (rangeAssign topicPartitions subscriptions) late topic).length ≤
        (shareOf (rangeAssign topicPartitions subscriptions) early topic).length ∧
      (shareOf (rangeAssign topicPartitions subscriptions) early topic).length ≤
        (shareOf (rangeAssign topicPartitions subscriptions) late topic).length + 1 := by
  obtain ⟨j, hj, hgetj⟩ := hearly.place
  obtain ⟨k, hk, hgetk⟩ := hlate.place
  by_cases hjk : j ≤ k
  · rw [shareOf_subscriber hids htopics hmem hlen hgetj,
      shareOf_subscriber hids htopics hmem hlen hgetk, List.length_map, List.length_map,
      List.length_range', List.length_range']
    exact FairSplit.share_fair hjk
  · have hsorted := List.pairwise_iff_getElem.mp (subscribersOf_sorted subscriptions topic)
      k j hk hj (Nat.lt_of_not_le hjk)
    rw [List.getElem?_eq_getElem hj, Option.some.injEq] at hgetj
    rw [List.getElem?_eq_getElem hk, Option.some.injEq] at hgetk
    rw [hgetj, hgetk] at hsorted
    obtain rfl := le_antisymm hle hsorted
    exact ⟨Nat.le_refl _, Nat.le_succ _⟩

/-- The assignment divides every topic among its subscribers, whatever order
their subscriptions come in. -/
theorem rangeAssign_divides :
    Divides topicPartitions subscriptions (rangeAssign topicPartitions subscriptions) ∧
      ∀ subscriptions', subscriptions'.Perm subscriptions →
        rangeAssign topicPartitions subscriptions' = rangeAssign topicPartitions subscriptions := by
  refine ⟨⟨?_, ?_, ?_, fun _ _ => shareOf_stranger hids htopics, ?_⟩, ?_⟩
  · exact fun topic count hmem hsub p hp =>
      shareOf_once hids htopics hcounts hlen hmem hsub hp
  · exact fun topic count hmem member => shareOf_contiguous hids htopics hlen hmem member
  · exact fun topic count hmem early late => shareOf_fair hids htopics hlen hmem
  · intro s hs
    rw [rangeAssign_lookup hids, if_pos (List.mem_map_of_mem hs)]
    exact ⟨_, rfl⟩
  · exact fun subscriptions' hperm => rangeAssign_perm hids hperm

end Shares

/-- Five partitions of one topic over two members, and a topic for one of them. -/
theorem rangeAssign_divides_five :
    Divides [("t", 5), ("u", 1)] [("b", ["t", "u"]), ("a", ["t"])]
        (rangeAssign [("t", 5), ("u", 1)] [("b", ["t", "u"]), ("a", ["t"])]) ∧
      ∀ subscriptions', subscriptions'.Perm [("b", ["t", "u"]), ("a", ["t"])] →
        rangeAssign [("t", 5), ("u", 1)] subscriptions' =
          rangeAssign [("t", 5), ("u", 1)] [("b", ["t", "u"]), ("a", ["t"])] :=
  rangeAssign_divides (by decide) (by decide) (by decide) (by decide)

end Odradek.Client
