import Odradek.Client.ClusterRules

/-!
Brokers that answer metadata out of one catalog of topics: what is asked for is
there with its partitions, or is reported as unknown. One unknown topic is enough
for the whole refresh to fail and to leave the caches as they were.
-/

namespace Odradek.Client.Cluster

open Library

variable {config : ClusterConfig} {net : Network} {s t : ClusterState} {conn : Link}
  {topics asked : List String} {topic : String} {response : MetadataResponse}
  {entries : List MetadataTopic} {catalog : String → Option (List PartitionInfo)}

section Entries

def named (entries : List MetadataTopic) : List (String × List PartitionInfo) :=
  entries.filterMap fun entry => entry.name.map fun name => (name, entry.partitions)

/-- An answer is taken whole, or for the error of one of its topics not at all. -/
theorem refreshedTopics_cases (entries : List MetadataTopic) :
    (refreshedTopics entries = .ok (named entries) ∧
        ∀ entry ∈ entries, entry.name = none ∨ entry.errorCode.isOk = true) ∨
      ∃ entry ∈ entries, entry.name ≠ none ∧ entry.errorCode.isOk = false ∧
        refreshedTopics entries = .error (.broker entry.errorCode) := by
  induction entries with
  | nil => exact .inl ⟨rfl, fun _ h => absurd h List.not_mem_nil⟩
  | cons entry rest ih =>
      cases hname : entry.name with
      | none =>
          have hrest : refreshedTopics (entry :: rest) = refreshedTopics rest := by
            rw [refreshedTopics, hname]
          have hnamed : named (entry :: rest) = named rest := by
            rw [named, List.filterMap_cons, hname]
            rfl
          rw [hrest, hnamed]
          refine ih.imp (fun ⟨hok, hall⟩ => ⟨hok, fun e he => ?_⟩)
            fun ⟨e, he, herror⟩ => ⟨e, List.mem_cons_of_mem _ he, herror⟩
          obtain rfl | he := List.mem_cons.mp he
          · exact .inl hname
          · exact hall e he
      | some name =>
          cases hcode : entry.errorCode.isOk with
          | false =>
              refine .inr ⟨entry, List.mem_cons_self, by simp only [hname, ne_eq, reduceCtorEq,
                not_false_eq_true], hcode, ?_⟩
              rw [refreshedTopics, hname]
              exact if_pos (by rw [hcode]; rfl)
          | true =>
              have hrest : refreshedTopics (entry :: rest) =
                  (refreshedTopics rest).map fun topics => (name, entry.partitions) :: topics := by
                rw [refreshedTopics, hname]
                exact if_neg (by rw [hcode]; exact Bool.false_ne_true)
              have hnamed : named (entry :: rest) = (name, entry.partitions) :: named rest := by
                rw [named, List.filterMap_cons, hname]
                rfl
              rw [hrest, hnamed]
              obtain ⟨hok, hall⟩ | ⟨e, he, hsome, hbad, herror⟩ := ih
              · refine .inl ⟨by rw [hok]; rfl, fun e he => ?_⟩
                obtain rfl | he := List.mem_cons.mp he
                · exact .inr hcode
                · exact hall e he
              · exact .inr ⟨e, List.mem_cons_of_mem _ he, hsome, hbad, by rw [herror]; rfl⟩

end Entries

section Reports

def reportOf (catalog : String → Option (List PartitionInfo)) (topic : String) : MetadataTopic :=
  match catalog topic with
  | some partitions => { name := some topic, errorCode := ⟨0⟩, partitions }
  | none => { name := some topic, errorCode := .unknownTopicOrPartition, partitions := [] }

/-- Metadata that is answered is answered from the catalog, in whatever order. -/
def AnswersFrom (catalog : String → Option (List PartitionInfo)) (net : Network) : Prop :=
  ∀ conn asked response, net.metadata conn asked = .ok response →
    response.topics.Perm (asked.map (reportOf catalog))

theorem reportOf_known {partitions : List PartitionInfo} (h : catalog topic = some partitions) :
    reportOf catalog topic = { name := some topic, errorCode := ⟨0⟩, partitions } := by
  rw [reportOf, h]

theorem reportOf_unknown (h : catalog topic = none) :
    reportOf catalog topic =
      { name := some topic, errorCode := .unknownTopicOrPartition, partitions := [] } := by
  rw [reportOf, h]

theorem reportOf_isOk : (reportOf catalog topic).errorCode.isOk = (catalog topic).isSome := by
  cases h : catalog topic with
  | none => rw [reportOf_unknown h]; rfl
  | some partitions => rw [reportOf_known h]; rfl

theorem refreshedTopics_known (h : entries.Perm (asked.map (reportOf catalog)))
    (hknown : ∀ topic ∈ asked, (catalog topic).isSome = true) :
    refreshedTopics entries = .ok (named entries) := by
  obtain ⟨hok, _⟩ | ⟨entry, hentry, _, hbad, _⟩ := refreshedTopics_cases entries
  · exact hok
  · obtain ⟨topic, htopic, rfl⟩ := List.mem_map.mp (h.mem_iff.mp hentry)
    rw [reportOf_isOk, hknown topic htopic] at hbad
    cases hbad

theorem refreshedTopics_unknown (h : entries.Perm (asked.map (reportOf catalog)))
    (hunknown : ∃ topic ∈ asked, catalog topic = none) :
    refreshedTopics entries = .error (.broker .unknownTopicOrPartition) := by
  obtain ⟨_, hall⟩ | ⟨entry, hentry, _, hbad, herror⟩ := refreshedTopics_cases entries
  · obtain ⟨topic, htopic, hnone⟩ := hunknown
    have hmem := h.mem_iff.mpr (List.mem_map_of_mem htopic)
    rw [reportOf_unknown hnone] at hmem
    obtain hname | hcode := hall _ hmem
    · cases hname
    · exact absurd hcode Bool.false_ne_true
  · obtain ⟨topic, _, rfl⟩ := List.mem_map.mp (h.mem_iff.mp hentry)
    have hnone : catalog topic = none := by
      rw [reportOf_isOk] at hbad
      exact Option.not_isSome_iff_eq_none.mp (by rw [hbad]; exact Bool.false_ne_true)
    rw [herror, reportOf_unknown hnone]

theorem mem_named {name : String} {partitions : List PartitionInfo}
    (h : entries.Perm (asked.map (reportOf catalog)))
    (hmem : (name, partitions) ∈ named entries) :
    name ∈ asked ∧ partitions = (catalog name).getD [] := by
  obtain ⟨entry, hentry, heq⟩ := List.mem_filterMap.mp hmem
  obtain ⟨topic, htopic, rfl⟩ := List.mem_map.mp (h.mem_iff.mp hentry)
  cases hcatalog : catalog topic with
  | none =>
      rw [reportOf_unknown hcatalog] at heq
      cases heq
      exact ⟨htopic, by rw [hcatalog]; rfl⟩
  | some found =>
      rw [reportOf_known hcatalog] at heq
      cases heq
      exact ⟨htopic, by rw [hcatalog]; rfl⟩

/-- After a refresh that names known topics only, they are cached as the catalog has them. -/
theorem lookup_learned (h : response.topics.Perm (asked.map (reportOf catalog)))
    {partitions : List PartitionInfo} (hknown : catalog topic = some partitions)
    (htopic : topic ∈ asked) :
    (learned response (named response.topics) s).topics.lookup topic = some partitions := by
  have hentry := h.mem_iff.mpr (List.mem_map_of_mem htopic)
  rw [reportOf_known hknown] at hentry
  have hmem : (topic, partitions) ∈ named response.topics :=
    List.mem_filterMap.mpr ⟨_, hentry, rfl⟩
  obtain ⟨found, hfound⟩ := lookup_foldl_insert_some (named response.topics) s.topics
    (.inl ⟨partitions, hmem⟩)
  refine hfound.trans ?_
  obtain hnamed | ⟨_, hnone⟩ := lookup_foldl_insert_cases _ _ hfound
  · rw [(mem_named h hnamed).2, hknown]
    rfl
  · exact absurd hmem (hnone partitions)

end Reports

section Refreshes

theorem refreshMetadataVia_refused (hanswer : net.metadata conn topics = .ok response)
    {e : ClientError} (htopics : refreshedTopics response.topics = .error e) :
    refreshMetadataVia net conn topics s = .error e s := by
  unfold refreshMetadataVia
  refine (Routed.bind_ok (Routed.lift_ok hanswer)).trans ?_
  exact Routed.bind_error (Routed.lift_error htopics)

/-- An error of the answer is the error of the refresh. -/
theorem refreshMetadata_refused (hcontrol : controlBroker config net s = .ok conn t)
    (hanswer : net.metadata conn topics = .ok response) {code : ErrorCode}
    (htopics : refreshedTopics response.topics = .error (.broker code)) :
    refreshMetadata config net topics s = .error (.broker code) t := by
  unfold refreshMetadata
  refine (Routed.bind_ok hcontrol).trans ?_
  exact (Routed.bind_ok (Routed.tried_error (refreshMetadataVia_refused hanswer htopics))).trans rfl

end Refreshes

section Once

/-- A network that answers metadata from the catalog, and every request. -/
def catalogNet (catalog : String → Option (List PartitionInfo)) : Network :=
  { dial := fun _ => .error .io
    metadata := fun _ asked =>
      .ok { brokers := [], controllerId := -1, topics := asked.map (reportOf catalog) }
    findCoordinator := fun _ _ _ => .error .io
    request := fun _ _ => .ok (.ok ()) }

theorem catalogNet_answersFrom : AnswersFrom catalog (catalogNet catalog) := by
  intro conn asked response h
  cases h
  exact List.Perm.refl _

def knowing (topics : Cache String (List PartitionInfo)) : ClusterState :=
  { control := some { id := 0 }
    brokers := ∅
    topics
    conns := ∅
    blocking := ∅
    controller := none
    coordinators := ∅ }

end Once

end Odradek.Client.Cluster
