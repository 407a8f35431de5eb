import Odradek.Client.Catalog
import Odradek.Client.RangeShares
import Odradek.Client.Rejoin
import Odradek.Protocol.Subscriptions

/-!
The leader's round over the cluster's own metadata refresh. The leader is ready to
count a topic nobody knows as one of no partitions, but never comes to it: the
refresh fails for one such topic in anybody's subscription, and the round with it.
-/

namespace Odradek.Client

open Library Protocol

section Counting

def allTopics (subscriptions : List (String × List String)) : List String :=
  (subscriptions.foldl (fun set s => s.2.foldl (fun set topic => set.insert topic ()) set)
    (SortedMap.empty : SortedMap String Unit)).keys

theorem mem_keys_insertAll {topics : List String} {set : SortedMap String Unit} {topic : String} :
    topic ∈ (topics.foldl (fun set topic => set.insert topic ()) set).keys ↔
      topic ∈ topics ∨ topic ∈ set.keys := by
  induction topics generalizing set with
  | nil => simp only [List.foldl_nil, List.not_mem_nil, false_or]
  | cons first rest ih =>
      rw [List.foldl_cons, ih, SortedMap.mem_keys_insert_iff, List.mem_cons]
      exact or_left_comm.trans or_assoc.symm

theorem mem_allTopics {subscriptions : List (String × List String)} {topic : String} :
    topic ∈ allTopics subscriptions ↔ ∃ s ∈ subscriptions, topic ∈ s.2 := by
  have hfold : ∀ (l : List (String × List String)) (set : SortedMap String Unit),
      topic ∈ (l.foldl (fun set s => s.2.foldl (fun set topic => set.insert topic ()) set)
        set).keys ↔ (∃ s ∈ l, topic ∈ s.2) ∨ topic ∈ set.keys := by
    intro l
    induction l with
    | nil => simp
    | cons s rest ih =>
        intro set
        rw [List.foldl_cons, ih, mem_keys_insertAll, List.exists_mem_cons_iff]
        exact or_left_comm.trans or_assoc.symm
  refine (hfold subscriptions .empty).trans (or_iff_left ?_)
  exact List.not_mem_nil

theorem allTopics_nodup (subscriptions : List (String × List String)) :
    (allTopics subscriptions).Nodup := by
  have hsorted := (subscriptions.foldl
    (fun set s => s.2.foldl (fun set topic => set.insert topic ()) set)
    (SortedMap.empty : SortedMap String Unit)).sorted
  exact (List.pairwise_map.mpr hsorted).imp ne_of_lt

/-- Existing topics at their partitions, unknown ones at none. -/
def countsOf (catalog : String → Option (List PartitionInfo))
    (subscriptions : List (String × List String)) : List (String × Nat) :=
  (allTopics subscriptions).map fun topic =>
    (topic, (catalog topic).elim 0 fun partitions => min partitions.length i32Max)

end Counting

section Carrying

def Writes (assigned : SortedMap String (List (String × List Int32)))
    (assignments : List (String × Bytes)) : Prop :=
  List.Forall₂ (fun entry sent => entry.1 = sent.1 ∧ encodeAssignment entry.2 = .ok sent.2)
    assigned.entries assignments

theorem splitRange_parts {count n i next : Nat} {members : List String} {e : String × List Int32}
    (h : e ∈ splitRange (count / n) (count % n) i next members) : e.2.length ≤ count := by
  induction members generalizing i next with
  | nil => cases h
  | cons first rest ih =>
      rw [splitRange] at h
      by_cases hzero : (count / n + if i < count % n then 1 else 0) = 0
      · rw [if_pos hzero] at h
        exact ih h
      · rw [if_neg hzero] at h
        obtain rfl | h := List.mem_cons.mp h
        · show ((List.range' next (FairSplit.share count n i)).map Int32.ofNat).length ≤ count
          rw [List.length_map, List.length_range']
          exact FairSplit.share_le count n i
        · exact ih h

/-- A member has one part of each topic it subscribes to. -/
theorem topicEntry_cases {subscriptions : List (String × List String)} {member : String}
    {e : String × Nat} {part : String × List Int32}
    (h : part ∈ topicEntry subscriptions member e) :
    topicEntry subscriptions member e = [part] ∧ part.1 = e.1 ∧ part.2.length ≤ e.2 ∧
      Subscribes subscriptions member e.1 := by
  unfold topicEntry at h ⊢
  cases hparts : partsOf (topicSplit subscriptions e.1 e.2) member with
  | none =>
      rw [hparts] at h
      cases h
  | some parts =>
      rw [hparts] at h
      obtain rfl := List.mem_singleton.mp h
      obtain ⟨found, hfind, rfl⟩ := Option.map_eq_some_iff.mp hparts
      have hmember : found.1 = member := by simpa using List.find?_some hfind
      have hmem := List.mem_of_find?_eq_some hfind
      refine ⟨rfl, rfl, splitRange_parts (e := found) hmem, ?_⟩
      rw [← hmember]
      exact mem_subscribersOf.mp (topicSplit_keys.subset (List.mem_map_of_mem hmem))

variable {subscriptions : List (String × List String)} {counts : List (String × Nat)}
  {member : String}

theorem topics_sublist :
    List.Sublist ((counts.flatMap (topicEntry subscriptions member)).map (·.1))
      (counts.map (·.1)) := by
  induction counts with
  | nil => exact List.Sublist.refl _
  | cons e rest ih =>
      rw [List.flatMap_cons, List.map_append, List.map_cons]
      cases hentry : topicEntry subscriptions member e with
      | nil => exact ih.cons _
      | cons part more =>
          have hpart : part ∈ topicEntry subscriptions member e := by
            rw [hentry]
            exact List.mem_cons_self
          obtain ⟨hsingle, htopic, _⟩ := topicEntry_cases hpart
          rw [hentry] at hsingle
          rw [hsingle, ← htopic]
          exact ih.cons_cons _

/-- Who is in a group once subscribes to what its subscription says. -/
theorem subscribes_iff {topics : List String} (hids : (subscriptions.map (·.1)).Nodup)
    (hmember : (member, topics) ∈ subscriptions) {topic : String} :
    Subscribes subscriptions member topic ↔ topic ∈ topics := by
  constructor
  · rintro ⟨s, hs, hid, htopic⟩
    obtain rfl := List.inj_on_of_nodup_map hids hs hmember hid
    exact htopic
  · exact fun htopic => ⟨_, hmember, rfl, htopic⟩

/-- What a member is assigned fits into an assignment of its own. -/
theorem assigned_encodes {topics : List String} {parts : List (String × List Int32)}
    (hids : (subscriptions.map (·.1)).Nodup) (htopics : (counts.map (·.1)).Nodup)
    (hcounts : ∀ e ∈ counts, e.2 ≤ i32Max) (hmember : (member, topics) ∈ subscriptions)
    (hcarried : Carried topics)
    (hparts : (rangeAssign counts subscriptions).lookup member = some parts) :
    ∃ bytes, encodeAssignment parts = .ok bytes := by
  rw [rangeAssign_lookup hids, if_pos (List.mem_map_of_mem hmember)] at hparts
  obtain rfl := Option.some.inj hparts
  have heach : ∀ part ∈ counts.flatMap (topicEntry subscriptions member),
      part.1 ∈ topics ∧ part.2.length ≤ i32Max := by
    intro part hpart
    obtain ⟨e, he, hentry⟩ := List.mem_flatMap.mp hpart
    obtain ⟨_, htopic, hlen, hsubscribes⟩ := topicEntry_cases hentry
    refine ⟨?_, Nat.le_trans hlen (hcounts e he)⟩
    rw [htopic]
    exact (subscribes_iff hids hmember).mp hsubscribes
  refine encodeAssignment_ok ?_ fun part hpart => ?_
  · have hnodup : ((counts.flatMap (topicEntry subscriptions member)).map (·.1)).Nodup :=
      topics_sublist.nodup htopics
    have hsubset : (counts.flatMap (topicEntry subscriptions member)).map (·.1) ⊆ topics := by
      intro topic htopic
      obtain ⟨part, hpart, rfl⟩ := List.mem_map.mp htopic
      exact (heach part hpart).1
    have hlen := (hnodup.subperm hsubset).length_le
    rw [List.length_map] at hlen
    exact Nat.le_trans hlen hcarried.count
  · obtain ⟨htopic, hlen⟩ := heach part hpart
    exact ⟨hcarried.each _ htopic, hlen⟩

end Carrying

section All

variable {α β : Type} {f : α → Outcome β}

theorem Outcome.all_ok_iff {l : List α} {bs : List β} :
    Outcome.all f l = some (.ok bs) ↔ List.Forall₂ (fun a b => f a = some (.ok b)) l bs := by
  induction l generalizing bs with
  | nil =>
      rw [List.forall₂_nil_left_iff]
      refine ⟨fun h => ?_, fun h => ?_⟩
      · cases h
        rfl
      · rw [h]
        rfl
  | cons a rest ih =>
      rw [Outcome.all, List.forall₂_cons_left_iff]
      constructor
      · intro h
        cases hfirst : f a with
        | none =>
            rw [hfirst] at h
            cases h
        | some result =>
            rw [hfirst] at h
            cases result with
            | error e => cases h
            | ok b =>
                cases hrest : Outcome.all f rest with
                | none =>
                    simp only [Outcome.andThen, hrest] at h
                    cases h
                | some result' =>
                    simp only [Outcome.andThen, hrest] at h
                    cases result' with
                    | error e => cases h
                    | ok bs' =>
                        cases h
                        exact ⟨b, bs', rfl, ih.mp hrest, rfl⟩
      · rintro ⟨b, bs', hfirst, hrest, rfl⟩
        rw [hfirst, ih.mpr hrest]
        rfl

theorem Outcome.all_ok {l : List α} (h : ∀ a ∈ l, ∃ b, f a = some (.ok b)) :
    ∃ bs, Outcome.all f l = some (.ok bs) := by
  induction l with
  | nil => exact ⟨[], rfl⟩
  | cons a rest ih =>
      obtain ⟨b, hb⟩ := h a List.mem_cons_self
      obtain ⟨bs, hbs⟩ := ih fun a' ha' => h a' (List.mem_cons_of_mem _ ha')
      exact ⟨b :: bs, Outcome.all_ok_iff.mpr (.cons hb (Outcome.all_ok_iff.mp hbs))⟩

end All

section Leading

/-- The answers of a round whose refresh goes through the cluster. -/
def RoundAnswers.over (answers : RoundAnswers) (cluster : ClusterConfig) (net : Network)
    (s : ClusterState) (topics : List String) : RoundAnswers :=
  match Cluster.refreshMetadata cluster net topics s with
  | .ok () t =>
    { answers with refreshMetadata := .ok (), partitionCount := fun topic =>
    t.partitionCount topic }
  | .error e t =>
    { answers with
      refreshMetadata := .error e
      partitionCount := fun topic => t.partitionCount topic }

/-- The coordinator answers without an error and makes the member the leader of a
group with these subscriptions, its own among them. -/
structure Leads (m : GroupMember) (answers : RoundAnswers)
    (subscriptions : List (String × List String)) : Prop where
  reply : ∃ response, answers.reply = .ok response ∧ response.errorCode.isOk = true ∧
    response.leader = response.memberId ∧ (response.memberId, m.topics) ∈ subscriptions ∧
    List.Forall₂ (fun sent s => sent.1 = s.1 ∧ decodeSubscription sent.2 = .ok s.2)
      response.members subscriptions
  distinct : (subscriptions.map (·.1)).Nodup
  syncVersion : ∃ version, answers.syncVersion = .ok version
  sync : ∃ response assignment, answers.sync = .ok response ∧ response.errorCode.isOk = true ∧
    decodeAssignment response.assignment = .ok assignment

/-- The round comes to its end, and what it sent last is this assignment. -/
def CompletesWith (round : GroupMember.Round)
    (assigned : SortedMap String (List (String × List Int32))) : Prop :=
  round.outcome = some (.ok ()) ∧ ∃ assignments, Writes assigned assignments ∧
    round.sent.getLast? = some (.sync (round.member.syncRequest assignments))

variable {config : GroupConfig} {cluster : ClusterConfig} {net : Network} {s t : ClusterState}
  {conn : Link} {answers : RoundAnswers} {m : GroupMember} {response : JoinGroupResponse}
  {subscriptions : List (String × List String)} {topics : List String}
  {catalog : String → Option (List PartitionInfo)}

theorem RoundAnswers.over_ok (answers : RoundAnswers)
    (h : Cluster.refreshMetadata cluster net topics s = .ok () t) :
    answers.over cluster net s topics =
      { answers with
        refreshMetadata := .ok ()
        partitionCount := fun topic => t.partitionCount topic } := by
  rw [RoundAnswers.over, h]

theorem RoundAnswers.over_error (answers : RoundAnswers) {e : ClientError}
    (h : Cluster.refreshMetadata cluster net topics s = .error e t) :
    answers.over cluster net s topics =
      { answers with
        refreshMetadata := .error e
        partitionCount := fun topic => t.partitionCount topic } := by
  rw [RoundAnswers.over, h]

/-- Whatever the refresh comes to, the rest of the answers is as it was. -/
theorem RoundAnswers.over_cases (answers : RoundAnswers) (cluster : ClusterConfig) (net : Network)
    (s : ClusterState) (topics : List String) :
    ∃ refresh counts, answers.over cluster net s topics =
      { answers with refreshMetadata := refresh, partitionCount := counts } := by
  unfold RoundAnswers.over
  split
  · exact ⟨_, _, rfl⟩
  · exact ⟨_, _, rfl⟩

theorem Leads.over (h : Leads m answers subscriptions) :
    Leads m (answers.over cluster net s topics) subscriptions := by
  obtain ⟨refresh, counts, hover⟩ := answers.over_cases cluster net s topics
  rw [hover]
  exact ⟨h.reply, h.distinct, h.syncVersion, h.sync⟩

/-- A round is its last JoinGroup answer, and what it sent before. -/
theorem joinRound_reply (config : GroupConfig) {subscription : Bytes}
    (hencodes : encodeSubscription m.topics = .ok subscription)
    (hreply : answers.reply = .ok response) :
    ∃ (m' : GroupMember) (sent : List GroupRequest),
      m.joinRound config answers = m'.joinedRound answers sent response := by
  unfold RoundAnswers.reply at hreply
  unfold GroupMember.joinRound
  rw [hencodes]
  cases hlease : answers.lease with
  | error e =>
      rw [hlease] at hreply
      cases hreply
  | ok _ =>
      cases hversion : answers.joinVersion with
      | error e =>
          rw [hlease, hversion] at hreply
          cases hreply
      | ok _ =>
          cases hjoin : answers.join with
          | error e =>
              rw [hlease, hversion, hjoin] at hreply
              cases hreply
          | ok first =>
              rw [hlease, hversion, hjoin] at hreply
              dsimp only at hreply ⊢
              split at hreply
              · rename_i hcode
                rw [if_pos hcode, hreply]
                exact ⟨_, _, rfl⟩
              · rename_i hcode
                rw [if_neg hcode]
                cases hreply
                exact ⟨_, _, rfl⟩

theorem all_decoded {members : List (String × Bytes)}
    (h : List.Forall₂ (fun sent s => sent.1 = s.1 ∧ decodeSubscription sent.2 = .ok s.2) members
      subscriptions) :
    Outcome.all (fun m => Outcome.andThen (Outcome.ofDecode (decodeSubscription m.2))
      fun topics => some (.ok (m.1, topics))) members = some (.ok subscriptions) := by
  refine Outcome.all_ok_iff.mpr (h.imp ?_)
  rintro ⟨member, data⟩ ⟨other, topics⟩ ⟨rfl, hdecode⟩
  rw [hdecode]
  rfl

/-- A refresh that fails fails the leader. -/
theorem leaderAssignments_refused {members : List (String × Bytes)} {e : ClientError}
    (hmembers : List.Forall₂ (fun sent s => sent.1 = s.1 ∧ decodeSubscription sent.2 = .ok s.2)
      members subscriptions) (hrefresh : answers.refreshMetadata = .error e) :
    leaderAssignments answers members = some (.error e) := by
  unfold leaderAssignments
  rw [all_decoded hmembers, hrefresh]
  rfl

theorem carried_of_decoded {members : List (String × Bytes)}
    (h : List.Forall₂ (fun sent s => sent.1 = s.1 ∧ decodeSubscription sent.2 = .ok s.2) members
      subscriptions) : ∀ s ∈ subscriptions, Carried s.2 := by
  induction h with
  | nil => exact fun _ hs => absurd hs List.not_mem_nil
  | cons hfirst _ ih =>
      intro s hs
      obtain rfl | hs := List.mem_cons.mp hs
      · exact decodeSubscription_carried hfirst.2
      · exact ih s hs

def writeEntry (entry : String × List (String × List Int32)) : Outcome (String × Bytes) :=
  Outcome.andThen (Outcome.ofEncode (encodeAssignment entry.2)) fun assignment =>
    some (.ok (entry.1, assignment))

theorem writeEntry_iff {entry : String × List (String × List Int32)} {sent : String × Bytes} :
    writeEntry entry = some (.ok sent) ↔
      entry.1 = sent.1 ∧ encodeAssignment entry.2 = .ok sent.2 := by
  unfold writeEntry
  cases hencode : encodeAssignment entry.2 with
  | error e => exact ⟨fun h => (by cases h), fun h => (by cases h.2)⟩
  | ok bytes =>
      constructor
      · intro h
        cases h
        exact ⟨rfl, rfl⟩
      · rintro ⟨hmember, hbytes⟩
        cases hbytes
        rw [hmember]
        rfl

theorem rangeAssign_writes {counts : List (String × Nat)}
    (hids : (subscriptions.map (·.1)).Nodup) (htopics : (counts.map (·.1)).Nodup)
    (hcounts : ∀ e ∈ counts, e.2 ≤ i32Max) (hcarried : ∀ s ∈ subscriptions, Carried s.2) :
    ∃ assignments,
      Outcome.all writeEntry (rangeAssign counts subscriptions).entries = some (.ok assignments) ∧
      Writes (rangeAssign counts subscriptions) assignments := by
  have hentries : ∀ entry ∈ (rangeAssign counts subscriptions).entries,
      ∃ sent, writeEntry entry = some (.ok sent) := by
    rintro ⟨member, parts⟩ hentry
    have hlookup := SortedMap.lookup_eq_some_iff.mpr hentry
    have hmember : member ∈ subscriptions.map (·.1) := by
      by_contra hstranger
      rw [rangeAssign_lookup hids, if_neg hstranger] at hlookup
      cases hlookup
    obtain ⟨⟨id, topics⟩, hsubscription, hid⟩ := List.mem_map.mp hmember
    obtain rfl : id = member := hid
    obtain ⟨bytes, hbytes⟩ := assigned_encodes hids htopics hcounts hsubscription
      (hcarried _ hsubscription) hlookup
    exact ⟨(id, bytes), writeEntry_iff.mpr ⟨rfl, hbytes⟩⟩
  obtain ⟨assignments, hall⟩ := Outcome.all_ok hentries
  exact ⟨assignments, hall, (Outcome.all_ok_iff.mp hall).imp fun _ _ h => writeEntry_iff.mp h⟩

/-- A refresh that counts every topic as the catalog has it gives the leader its assignment. -/
theorem leaderAssignments_counted (answers : RoundAnswers)
    (catalog : String → Option (List PartitionInfo)) {members : List (String × Bytes)}
    (hids : (subscriptions.map (·.1)).Nodup)
    (hmembers : List.Forall₂ (fun sent s => sent.1 = s.1 ∧ decodeSubscription sent.2 = .ok s.2)
      members subscriptions) (hrefresh : answers.refreshMetadata = .ok ())
    (hcounts : ∀ topic ∈ allTopics subscriptions,
      answers.partitionCount topic = (catalog topic).map List.length) :
    ∃ assignments, leaderAssignments answers members = some (.ok assignments) ∧
      Writes (rangeAssign (countsOf catalog subscriptions) subscriptions) assignments := by
  have hsame : ((allTopics subscriptions).map fun topic =>
      (topic, (answers.partitionCount topic).elim 0 fun count => min count i32Max)) =
        countsOf catalog subscriptions := by
    refine List.map_congr_left fun topic htopic => ?_
    rw [hcounts topic htopic]
    cases catalog topic <;> rfl
  have hnodup : ((countsOf catalog subscriptions).map (·.1)).Nodup := by
    rw [countsOf, List.map_map]
    exact (List.map_id (allTopics subscriptions)).symm ▸ allTopics_nodup subscriptions
  have hmax : ∀ e ∈ countsOf catalog subscriptions, e.2 ≤ i32Max := by
    intro e he
    obtain ⟨topic, _, rfl⟩ := List.mem_map.mp he
    cases catalog topic with
    | none => exact Nat.zero_le _
    | some partitions => exact Nat.min_le_right _ _
  obtain ⟨assignments, hall, hwrites⟩ :=
    rangeAssign_writes hids hnodup hmax (carried_of_decoded hmembers)
  refine ⟨assignments, ?_, hwrites⟩
  unfold leaderAssignments
  rw [all_decoded hmembers, hrefresh]
  show Outcome.all writeEntry (rangeAssign ((allTopics subscriptions).map _) subscriptions).entries
    = _
  rw [hsame]
  exact hall

/-- The round of a leader that has its assignment. -/
theorem joinedRound_assigned (hleads : Leads m answers subscriptions) (m' : GroupMember)
    (sent : List GroupRequest) (hok : response.errorCode.isOk = true)
    (hleader : response.leader = response.memberId) {assignments : List (String × Bytes)}
    (hassigned : leaderAssignments answers response.members = some (.ok assignments)) :
    (m'.joinedRound answers sent response).outcome = some (.ok ()) ∧
      (m'.joinedRound answers sent response).sent.getLast? =
        some (.sync ((m'.joinedRound answers sent response).member.syncRequest assignments)) := by
  obtain ⟨version, hversion⟩ := hleads.syncVersion
  obtain ⟨sync, assignment, hsync, hsyncOk, hdecode⟩ := hleads.sync
  have hround : m'.joinedRound answers sent response =
      { outcome := some (.ok ())
        member := { m' with
          memberId := response.memberId
          generationId := response.generationId
          isLeader := decide (response.leader = response.memberId)
          assignment }
        sent := sent ++ [.sync (GroupMember.syncRequest { m' with
          memberId := response.memberId
          generationId := response.generationId
          isLeader := decide (response.leader = response.memberId) } assignments)] } := by
    unfold GroupMember.joinedRound
    simp only [hok, Bool.not_true, Bool.false_eq_true, if_false, hleader, decide_true, if_true,
      hassigned, GroupMember.syncRound, hversion, hsync, hsyncOk, hdecode, Outcome.ofDecode]
  rw [hround]
  exact ⟨rfl, List.getLast?_concat⟩

/-- The leader's round assigns the group exactly when every topic of every
subscription exists. -/
theorem leader_completes_iff (config : GroupConfig) (cluster : ClusterConfig) (net : Network)
    (s t : ClusterState) (conn : Link) (m : GroupMember) (answers : RoundAnswers)
    (subscriptions : List (String × List String))
    (catalog : String → Option (List PartitionInfo)) (hleads : Leads m answers subscriptions)
    (hcontrol : Cluster.controlBroker cluster net s = .ok conn t)
    (hanswered : ∃ response, net.metadata conn (allTopics subscriptions) = .ok response)
    (hcatalog : Cluster.AnswersFrom catalog net) :
    CompletesWith (m.joinRound config (answers.over cluster net s (allTopics subscriptions)))
        (rangeAssign (countsOf catalog subscriptions) subscriptions) ↔
      ∀ subscription ∈ subscriptions, ∀ topic ∈ subscription.2, (catalog topic).isSome = true := by
  have hover : Leads m (answers.over cluster net s (allTopics subscriptions)) subscriptions :=
    hleads.over
  obtain ⟨response, hreply, hok, hleader, hown, hmembers⟩ := hover.reply
  obtain ⟨metadata, hmetadata⟩ := hanswered
  have hreports := hcatalog _ _ _ hmetadata
  have hcarried := carried_of_decoded hmembers
  obtain ⟨subscription, hencodes⟩ := encodeSubscription_ok (hcarried _ hown)
  constructor
  · rintro ⟨houtcome, _⟩ s' hs topic htopic
    by_contra hunknown
    have hnone : catalog topic = none := Option.not_isSome_iff_eq_none.mp hunknown
    have hrefresh := Cluster.refreshMetadata_refused hcontrol hmetadata
      (Cluster.refreshedTopics_unknown hreports
        ⟨topic, mem_allTopics.mpr ⟨s', hs, htopic⟩, hnone⟩)
    have hrefused := leaderAssignments_refused hmembers
      (congrArg RoundAnswers.refreshMetadata (RoundAnswers.over_error answers hrefresh))
    rw [joinRound_outcome hencodes, RoundAnswers.verdict, hreply] at houtcome
    simp only [Outcome.andThen, RoundAnswers.accepted, hok, if_true, hleader, hrefused] at houtcome
    cases houtcome
  · intro hknown
    have hall : ∀ topic ∈ allTopics subscriptions, (catalog topic).isSome = true := by
      intro topic htopic
      obtain ⟨s', hs, hmem⟩ := mem_allTopics.mp htopic
      exact hknown s' hs topic hmem
    have hrefresh := Cluster.refreshMetadata_ok hcontrol hmetadata
      (Cluster.refreshedTopics_known hreports hall)
    have hrefreshed := RoundAnswers.over_ok answers hrefresh
    obtain ⟨assignments, hassigned, hwrites⟩ := leaderAssignments_counted
      (answers.over cluster net s (allTopics subscriptions)) catalog hover.distinct hmembers
      (by rw [hrefreshed]) fun topic htopic => by
        obtain ⟨partitions, hpartitions⟩ := Option.isSome_iff_exists.mp (hall topic htopic)
        rw [hrefreshed, hpartitions]
        show ((Cluster.learned metadata _ t).topics.lookup topic).map List.length = _
        rw [Cluster.lookup_learned hreports hpartitions htopic]
    obtain ⟨m', sent, hround⟩ := joinRound_reply config hencodes hreply
    obtain ⟨houtcome, hsent⟩ := joinedRound_assigned hover m' sent hok hleader hassigned
    rw [hround]
    exact ⟨houtcome, assignments, hwrites, hsent⟩

end Leading

section Once

def subscriptionTo (letter : UInt8) : Bytes :=
  [0, 0, 0, 0, 0, 1, 0, 1, letter, 255, 255, 255, 255]

def leaderAnswers (letter : UInt8) : RoundAnswers :=
  { lease := .ok ()
    joinVersion := .ok 5
    join := .ok
      { errorCode := ⟨0⟩
        generationId := 1
        leader := "a"
        memberId := "a"
        members := [("a", subscriptionTo 116), ("b", subscriptionTo letter)] }
    joinAgain := .error .io
    refreshMetadata := .ok ()
    partitionCount := fun _ => none
    syncVersion := .ok 3
    sync := .ok { errorCode := ⟨0⟩, assignment := [] } }

theorem leaderAnswers_leads {letter : UInt8} {topic : String}
    (h : decodeSubscription (subscriptionTo letter) = .ok [topic]) :
    Leads (.new "g" ["t"]) (leaderAnswers letter) [("a", ["t"]), ("b", [topic])] where
  reply := ⟨_, rfl, rfl, rfl, List.mem_cons_self, .cons ⟨rfl, rfl⟩ (.cons ⟨rfl, h⟩ .nil)⟩
  distinct := by
    show ["a", "b"].Nodup
    decide
  syncVersion := ⟨_, rfl⟩
  sync := ⟨_, [], rfl, rfl, rfl⟩

def onlyTopic (topic : String) : Option (List PartitionInfo) :=
  if topic = "t" then some [{ index := 0, leaderId := 1, error := ⟨0⟩ }] else none

def onlyCluster : ClusterConfig := { bootstrapServers := [], blockingIdleMax := 8 }

theorem leader_completes_known :
    CompletesWith
      (GroupMember.joinRound .default
        ((leaderAnswers 116).over onlyCluster (Cluster.catalogNet onlyTopic)
          (Cluster.knowing ∅) (allTopics [("a", ["t"]), ("b", ["t"])])) (.new "g" ["t"]))
      (rangeAssign (countsOf onlyTopic [("a", ["t"]), ("b", ["t"])])
        [("a", ["t"]), ("b", ["t"])]) := by
  refine (leader_completes_iff .default onlyCluster (Cluster.catalogNet onlyTopic)
    (Cluster.knowing ∅) (Cluster.knowing ∅) { id := 0 } (.new "g" ["t"]) (leaderAnswers 116)
    [("a", ["t"]), ("b", ["t"])] onlyTopic (leaderAnswers_leads rfl)
    (Cluster.controlBroker_cached rfl) ⟨_, rfl⟩ Cluster.catalogNet_answersFrom).mpr ?_
  intro subscription hsubscription topic htopic
  have hknown : ∀ s ∈ [("a", ["t"]), ("b", ["t"])], ∀ topic ∈ s.2,
      (onlyTopic topic).isSome = true := by decide
  exact hknown subscription hsubscription topic htopic

/-- Member "b" asks for a topic that is not there, and "a" cannot lead the group. -/
theorem leader_fails_unknown : ¬ ∀ (config : GroupConfig) (cluster : ClusterConfig)
    (net : Network) (s t : ClusterState) (conn : Link) (m : GroupMember) (answers : RoundAnswers)
    (subscriptions : List (String × List String))
    (catalog : String → Option (List PartitionInfo)), Leads m answers subscriptions →
    Cluster.controlBroker cluster net s = .ok conn t →
    (∃ response, net.metadata conn (allTopics subscriptions) = .ok response) →
    Cluster.AnswersFrom catalog net →
    CompletesWith (m.joinRound config (answers.over cluster net s (allTopics subscriptions)))
      (rangeAssign (countsOf catalog subscriptions) subscriptions) := by
  intro h
  obtain ⟨houtcome, _⟩ := h .default onlyCluster (Cluster.catalogNet onlyTopic)
    (Cluster.knowing ∅) (Cluster.knowing ∅) { id := 0 } (.new "g" ["t"]) (leaderAnswers 120)
    [("a", ["t"]), ("b", ["x"])] onlyTopic (leaderAnswers_leads rfl)
    (Cluster.controlBroker_cached rfl) ⟨_, rfl⟩ Cluster.catalogNet_answersFrom
  have hfails : (GroupMember.joinRound .default
      ((leaderAnswers 120).over onlyCluster (Cluster.catalogNet onlyTopic) (Cluster.knowing ∅)
        (allTopics [("a", ["t"]), ("b", ["x"])])) (.new "g" ["t"])).outcome =
      some (.error (.broker .unknownTopicOrPartition)) := by decide
  rw [hfails] at houtcome
  cases houtcome

end Once

end Odradek.Client
