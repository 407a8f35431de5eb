import Odradek.Acceptance.ReferenceRetention
import Odradek.Library.Registry

/-!
Topics of the reference subject come and go under ids minted from their names. The
mint is a hash of sixteen bytes over names of any length: two topics that are minted
one id and exist together are one topic to whoever asks by id, and the run theorem
says that nothing else goes wrong.
-/

namespace Odradek.Acceptance.Subject

open Library Odradek.Protocol

def unknownTopicOrPartition : Int16 := 3

section Delete

structure DeleteTopicState where
  name : Option String
  topicId : Bytes
  deriving DecidableEq

structure DeleteTopicsRequest where
  topics : List DeleteTopicState
  topicNames : List String
  deriving DecidableEq

structure DeletableTopicResult where
  name : Option String
  errorCode : Int16
  deriving DecidableEq

/-- The names a request lists; a topic listed by its id alone is passed over. -/
def DeleteTopicsRequest.names (request : DeleteTopicsRequest) : List String :=
  if request.topics.isEmpty then request.topicNames else request.topics.filterMap (·.name)

namespace ClusterState

def deleteTopic (s : ClusterState) (name : String) : ClusterState × DeletableTopicResult :=
  match s.created.lookup name with
  | none => (s, { name := some name, errorCode := unknownTopicOrPartition })
  | some id =>
    ({ s with
        created := s.created.erase name
        topicNames := s.topicNames.erase id
        logs := (s.logs.keys.filter fun key => key.1 = name).foldl
          (fun logs key => logs.erase key) s.logs },
      { name := some name, errorCode := 0 })

def deleteTopics (s : ClusterState) : List String → ClusterState × List DeletableTopicResult
  | [] => (s, [])
  | name :: names =>
    let (s, result) := s.deleteTopic name
    let (s, results) := s.deleteTopics names
    (s, result :: results)

def deleteTopicsExchange (s : ClusterState) (request : DeleteTopicsRequest) :
    ClusterState × List DeletableTopicResult :=
  s.deleteTopics request.names

end ClusterState

/-- What the subject is asked, in any order: a topic deletion, or anything else. -/
inductive TopicRequest
  | deleteTopics (request : DeleteTopicsRequest)
  | exchange (action : Action)
  deriving DecidableEq

def ClusterState.serve (s : ClusterState) : TopicRequest → ClusterState
  | .deleteTopics request => (s.deleteTopicsExchange request).1
  | .exchange action => s.next action

def ClusterState.serveAll (s : ClusterState) (requests : List TopicRequest) : ClusterState :=
  requests.foldl ClusterState.serve s

end Delete

section Statement

/-- What ids are for, once `requests` were served on a fresh cluster. -/
structure TopicIdsIdentify (ports : List Int32) (requests : List TopicRequest) : Prop where
  inverse : ∀ name id,
    ((ClusterState.start ports).serveAll requests).created.lookup name = some id ↔
      ((ClusterState.start ports).serveAll requests).topicNames.lookup id = some name
  distinct : ∀ name other id,
    ((ClusterState.start ports).serveAll requests).created.lookup name = some id →
      ((ClusterState.start ports).serveAll requests).created.lookup other = some id → name = other
  nonzero : ∀ name id,
    ((ClusterState.start ports).serveAll requests).created.lookup name = some id →
      id ≠ List.replicate 16 0
  reached : ∀ before validateOnly topics after,
    requests = before ++ .exchange (.createTopics validateOnly topics) :: after →
      ∀ result ∈ (((ClusterState.start ports).serveAll before).createTopicsExchange
        validateOnly topics).2, result.errorCode = 0 →
      result.name ∈ ((ClusterState.start ports).serveAll requests).created →
      ((ClusterState.start ports).serveAll requests).resolveTopic "" result.topicId =
        some result.name

/-- What a creation has to pass besides being new. -/
def CreatableTopic.admitted (ports : List Int32) (validateOnly : Bool) (t : CreatableTopic) :
    Prop :=
  t.replicationFactor.toInt ≤ max ports.length 1 ∧ validateOnly = false

/-- No topic that a request creates is minted the id of another that will exist with it. -/
def Apart (s : ClusterState) : TopicRequest → Prop
  | .exchange (.createTopics validateOnly topics) =>
    ∀ t ∈ topics, t.admitted s.ports validateOnly → ∀ name,
      (name ∈ s.created ∨ ∃ u ∈ topics, u.admitted s.ports validateOnly ∧ u.name = name) →
      mintTopicId name = mintTopicId t.name → name = t.name
  | _ => True

def ApartRun : ClusterState → List TopicRequest → Prop
  | _, [] => True
  | s, request :: requests => Apart s request ∧ ApartRun (s.serve request) requests

end Statement

section Registries

variable {s : ClusterState} {validateOnly : Bool}

def ClusterState.registry (s : ClusterState) : Registry String Bytes :=
  { ids := s.created, names := s.topicNames }

theorem createTopic_ports (t : CreatableTopic) :
    (s.createTopic validateOnly t).1.ports = s.ports := by
  unfold ClusterState.createTopic
  simp only
  repeat' split
  all_goals rfl

theorem createTopic_id (t : CreatableTopic) :
    (s.createTopic validateOnly t).2.topicId =
      mintTopicId (s.createTopic validateOnly t).2.name := by
  unfold ClusterState.createTopic
  simp only
  repeat' split
  all_goals rfl

theorem createTopic_passed {t : CreatableTopic} (hnew : t.name ∉ s.created)
    (hadmitted : t.admitted s.ports validateOnly) :
    (s.createTopic validateOnly t).1.registry = s.registry.register mintTopicId t.name := by
  have hcreated : (s.created.lookup t.name).isSome = false := by
    rw [← Bool.not_eq_true, AList.lookup_isSome]
    exact hnew
  have hbrokers : ¬ ((max s.ports.length 1 : Nat) : Int) < t.replicationFactor.toInt := by
    have := hadmitted.1
    omega
  simp only [ClusterState.createTopic, hcreated, if_neg hbrokers, hadmitted.2, Bool.false_eq_true,
    if_false, Bool.not_false, and_self, if_true, ClusterState.registry, Registry.register]

/-- A creation that is refused changes nothing. -/
theorem createTopic_refused {t : CreatableTopic}
    (h : t.name ∈ s.created ∨ ¬ t.admitted s.ports validateOnly) :
    (s.createTopic validateOnly t).1 = s := by
  unfold ClusterState.createTopic
  cases hcreated : (s.created.lookup t.name).isSome with
  | true => simp [topicAlreadyExists]
  | false =>
      have hnew : t.name ∉ s.created := by
        rw [← AList.lookup_isSome, hcreated]
        exact Bool.false_ne_true
      have hrefused := h.resolve_left hnew
      by_cases hbrokers : ((max s.ports.length 1 : Nat) : Int) < t.replicationFactor.toInt
      · simp only [Bool.false_eq_true, if_false, if_pos hbrokers]
        exact congrArg Prod.fst (if_neg fun hcode => absurd hcode.1 (by decide))
      · have honly : validateOnly = true := by
          by_contra hfalse
          exact hrefused ⟨by omega, Bool.eq_false_iff.mpr hfalse⟩
        simp only [Bool.false_eq_true, if_false, if_neg hbrokers, honly, Bool.not_true, and_false]

theorem mem_createTopic {t : CreatableTopic} {name : String} :
    name ∈ (s.createTopic validateOnly t).1.created ↔
      name ∈ s.created ∨ t.admitted s.ports validateOnly ∧ t.name = name := by
  by_cases h : t.name ∈ s.created ∨ ¬ t.admitted s.ports validateOnly
  · rw [createTopic_refused h]
    constructor
    · exact Or.inl
    · intro hname
      obtain hname | ⟨hadmitted, rfl⟩ := hname
      · exact hname
      · exact h.resolve_right (not_not.mpr hadmitted)
  · obtain ⟨hnew, hadmitted⟩ := not_or.mp h
    have hpassed := createTopic_passed hnew (not_not.mp hadmitted)
    have hids : (s.createTopic validateOnly t).1.created =
        (s.registry.register mintTopicId t.name).ids := congrArg Registry.ids hpassed
    rw [hids, Registry.mem_register]
    constructor
    · intro hname
      obtain rfl | hname := hname
      · exact .inr ⟨not_not.mp hadmitted, rfl⟩
      · exact .inl hname
    · intro hname
      obtain hname | ⟨_, rfl⟩ := hname
      · exact .inr hname
      · exact .inl rfl

theorem mem_createTopics (topics : List CreatableTopic) {name : String} :
    name ∈ (s.createTopicsExchange validateOnly topics).1.created ↔
      name ∈ s.created ∨ ∃ u ∈ topics, u.admitted s.ports validateOnly ∧ u.name = name := by
  induction topics generalizing s with
  | nil => simp [ClusterState.createTopicsExchange]
  | cons t topics ih =>
      show name ∈ ((s.createTopic validateOnly t).1.createTopicsExchange
        validateOnly topics).1.created ↔ _
      rw [ih, mem_createTopic, createTopic_ports, List.exists_mem_cons_iff, or_assoc]

theorem createTopics_ids (topics : List CreatableTopic) {result : CreatableTopicResult}
    (h : result ∈ (s.createTopicsExchange validateOnly topics).2) :
    result.topicId = mintTopicId result.name := by
  induction topics generalizing s with
  | nil => cases h
  | cons t topics ih =>
      obtain rfl | h := List.mem_cons.mp h
      · exact createTopic_id t
      · exact ih h

/-- One creation keeps the maps inverse if its id is free. -/
theorem createTopic_inverse {t : CreatableTopic} (hminted : s.registry.Minted mintTopicId)
    (hinverse : s.registry.Inverse)
    (hapart : t.admitted s.ports validateOnly → ∀ name ∈ s.created,
      mintTopicId name = mintTopicId t.name → name = t.name) :
    (s.createTopic validateOnly t).1.registry.Inverse := by
  by_cases h : t.name ∈ s.created ∨ ¬ t.admitted s.ports validateOnly
  · rwa [createTopic_refused h]
  · obtain ⟨hnew, hadmitted⟩ := not_or.mp h
    rw [createTopic_passed hnew (not_not.mp hadmitted)]
    exact hinverse.register hminted (hapart (not_not.mp hadmitted))

theorem createTopic_minted (t : CreatableTopic) (hminted : s.registry.Minted mintTopicId) :
    (s.createTopic validateOnly t).1.registry.Minted mintTopicId := by
  by_cases h : t.name ∈ s.created ∨ ¬ t.admitted s.ports validateOnly
  · rwa [createTopic_refused h]
  · obtain ⟨hnew, hadmitted⟩ := not_or.mp h
    rw [createTopic_passed hnew (not_not.mp hadmitted)]
    exact hminted.register

theorem createTopics_minted (topics : List CreatableTopic)
    (hminted : s.registry.Minted mintTopicId) :
    (s.createTopicsExchange validateOnly topics).1.registry.Minted mintTopicId := by
  induction topics generalizing s with
  | nil => exact hminted
  | cons t topics ih => exact ih (createTopic_minted t hminted)

/-- Minted ids stay one to one as topics are created in turn. -/
theorem createTopics_inverse (topics : List CreatableTopic)
    (hminted : s.registry.Minted mintTopicId) (hinverse : s.registry.Inverse)
    (hapart : Apart s (.exchange (.createTopics validateOnly topics))) :
    (s.createTopicsExchange validateOnly topics).1.registry.Inverse := by
  induction topics generalizing s with
  | nil => exact hinverse
  | cons t topics ih =>
      have hfirst : (s.createTopic validateOnly t).1.registry.Inverse :=
        createTopic_inverse hminted hinverse fun hadmitted name hname =>
          hapart t List.mem_cons_self hadmitted name (.inl hname)
      refine ih (s := (s.createTopic validateOnly t).1) (createTopic_minted t hminted) hfirst
        fun u hu hadmitted name hname => ?_
      rw [createTopic_ports] at hadmitted hname
      refine hapart u (List.mem_cons_of_mem _ hu) hadmitted name ?_
      obtain hname | ⟨v, hv, hname⟩ := hname
      · obtain hname | hname := mem_createTopic.mp hname
        · exact .inl hname
        · exact .inr ⟨t, List.mem_cons_self, hname⟩
      · exact .inr ⟨v, List.mem_cons_of_mem _ hv, hname⟩

/-- Topics that exist together have ids of their own only if they were kept apart. -/
theorem createTopics_apart {topics : List CreatableTopic}
    (hminted : s.registry.Minted mintTopicId)
    (hinverse : (s.createTopicsExchange validateOnly topics).1.registry.Inverse) :
    Apart s (.exchange (.createTopics validateOnly topics)) := by
  intro t ht hadmitted name hname hsame
  have hexists := (mem_createTopics topics).mpr (.inr ⟨t, ht, hadmitted, rfl⟩)
  exact hinverse.apart (createTopics_minted topics hminted) ((mem_createTopics topics).mpr hname)
    hexists hsame

theorem deleteTopic_registry (name : String) :
    (s.deleteTopic name).1.registry = s.registry.retire name := by
  unfold ClusterState.deleteTopic Registry.retire ClusterState.registry
  split
  · simp only [*]
  · simp only [*]

theorem deleteTopics_minted (names : List String) (hminted : s.registry.Minted mintTopicId) :
    (s.deleteTopics names).1.registry.Minted mintTopicId := by
  induction names generalizing s with
  | nil => exact hminted
  | cons name names ih =>
      refine ih (s := (s.deleteTopic name).1) ?_
      rw [deleteTopic_registry]
      exact hminted.retire

theorem deleteTopics_inverse (names : List String) (hinverse : s.registry.Inverse) :
    (s.deleteTopics names).1.registry.Inverse := by
  induction names generalizing s with
  | nil => exact hinverse
  | cons name names ih =>
      refine ih (s := (s.deleteTopic name).1) ?_
      rw [deleteTopic_registry]
      exact hinverse.retire

end Registries

section Frames

variable {s : ClusterState}

theorem produceSet_registry {snapshot : AList fun _ : String => TxnState}
    {transactionalId : Option String} {key : Key} {set : Bytes} {batches : List RecordBatch} :
    (s.produceSet snapshot transactionalId key set batches).1.registry = s.registry := by
  unfold ClusterState.produceSet
  simp only
  split <;> rfl

theorem onTopics_all {snapshot : AList fun _ : String => TxnState}
    {transactionalId : Option String} {nodeId : Int32} (topics : List TopicProduceData)
    (s : ClusterState) :
    OnTopics (fun _ _ _ _ => True) snapshot transactionalId nodeId s topics := by
  induction topics generalizing s with
  | nil => trivial
  | cons topic topics ih =>
      refine ⟨?_, fun _ => ih _⟩
      generalize s.resolveTopic topic.name topic.topicId = resolved
      generalize topic.partitionData = partitions
      induction partitions generalizing s with
      | nil => trivial
      | cons partition partitions ihPartitions =>
          exact ⟨fun _ _ _ _ _ => trivial, fun _ => ihPartitions _⟩

theorem keeps_registry {snapshot : AList fun _ : String => TxnState}
    {transactionalId : Option String} (registry : Registry String Bytes) :
    Keeps (fun _ _ _ _ => True) snapshot transactionalId fun t => t.registry = registry :=
  { touch := fun _ _ h => h
    set := fun _ _ _ _ h _ _ => produceSet_registry.trans h }

/-- Only a creation changes what ids there are. -/
theorem next_registry {action : Action}
    (h : ∀ validateOnly topics, action ≠ .createTopics validateOnly topics) :
    (s.next action).registry = s.registry := by
  cases action with
  | initProducerId transactionalId =>
      cases transactionalId <;> rfl
  | produce nodeId request =>
      exact (keeps_registry s.registry).exchange rfl (onTopics_all request.topicData s)
  | addPartitionsToTxn request =>
      cases hcheck : s.txnEpochCheck request.transactionalId request.producerEpoch with
      | error code => exact congrArg _ (addPartitionsToTxn_refused hcheck)
      | ok txn =>
          obtain ⟨partitions, hnext⟩ := addPartitionsToTxn_announced hcheck
          exact (congrArg ClusterState.registry hnext).trans rfl
  | addOffsetsToTxn transactionalId epoch => rfl
  | txnOffsetCommit request =>
      cases hcheck : s.txnEpochCheck request.transactionalId request.producerEpoch with
      | error code => exact congrArg _ (txnOffsetCommit_refused hcheck)
      | ok txn => exact (congrArg ClusterState.registry (txnOffsetCommit_held hcheck)).trans rfl
  | endTxn request =>
      show (s.endTxnExchange request).1.registry = s.registry
      unfold ClusterState.endTxnExchange
      split <;> rfl
  | createTopics validateOnly topics => exact absurd rfl (h validateOnly topics)
  | stop nodeId => rfl
  | start nodeId => rfl

end Frames

section Runs

variable {s : ClusterState} {request : TopicRequest} {ports : List Int32}

theorem serve_minted (hminted : s.registry.Minted mintTopicId) :
    (s.serve request).registry.Minted mintTopicId := by
  match request with
  | .deleteTopics request => exact deleteTopics_minted request.names hminted
  | .exchange action =>
      by_cases hcreate : ∃ validateOnly topics, action = .createTopics validateOnly topics
      · obtain ⟨validateOnly, topics, rfl⟩ := hcreate
        exact createTopics_minted topics hminted
      · have hsame := next_registry (s := s) fun validateOnly topics h =>
          hcreate ⟨validateOnly, topics, h⟩
        show (s.next action).registry.Minted mintTopicId
        rwa [hsame]

/-- The step: a request leaves the maps inverse exactly when it keeps its ids apart. -/
theorem serve_inverse_iff (hminted : s.registry.Minted mintTopicId)
    (hinverse : s.registry.Inverse) : (s.serve request).registry.Inverse ↔ Apart s request := by
  match request with
  | .deleteTopics request =>
      exact iff_of_true (deleteTopics_inverse request.names hinverse) trivial
  | .exchange action =>
      by_cases hcreate : ∃ validateOnly topics, action = .createTopics validateOnly topics
      · obtain ⟨validateOnly, topics, rfl⟩ := hcreate
        exact ⟨createTopics_apart hminted, createTopics_inverse topics hminted hinverse⟩
      · have hother : ∀ validateOnly topics, action ≠ .createTopics validateOnly topics :=
          fun validateOnly topics h => hcreate ⟨validateOnly, topics, h⟩
        have hapart : Apart s (.exchange action) := by
          cases action with
          | createTopics validateOnly topics => exact absurd rfl (hother validateOnly topics)
          | _ => trivial
        show (s.next action).registry.Inverse ↔ _
        rw [next_registry hother]
        exact iff_of_true hinverse hapart

theorem serveAll_minted (requests : List TopicRequest) (hminted : s.registry.Minted mintTopicId) :
    (s.serveAll requests).registry.Minted mintTopicId := by
  induction requests generalizing s with
  | nil => exact hminted
  | cons request requests ih => exact ih (serve_minted hminted)

/-- The run: the maps are inverse all along exactly when ids are kept apart all along. -/
theorem apartRun_iff (requests : List TopicRequest) (hminted : s.registry.Minted mintTopicId)
    (hinverse : s.registry.Inverse) :
    (∀ before, before <+: requests → (s.serveAll before).registry.Inverse) ↔
      ApartRun s requests := by
  induction requests generalizing s with
  | nil =>
      refine iff_of_true (fun before hbefore => ?_) trivial
      rw [List.prefix_nil.mp hbefore]
      exact hinverse
  | cons request requests ih =>
      constructor
      · intro hall
        have hfirst := hall [request] (List.prefix_append [request] requests)
        have hapart := (serve_inverse_iff hminted hinverse).mp hfirst
        refine ⟨hapart, (ih (serve_minted hminted) hfirst).mp fun before hbefore => ?_⟩
        exact hall (request :: before) (List.cons_prefix_cons.mpr ⟨rfl, hbefore⟩)
      · intro hapart before hbefore
        have hfirst := (serve_inverse_iff hminted hinverse).mpr hapart.1
        cases before with
        | nil => exact hinverse
        | cons other before =>
            obtain ⟨rfl, hrest⟩ := List.cons_prefix_cons.mp hbefore
            exact (ih (serve_minted hminted) hfirst).mpr hapart.2 before hrest

theorem start_minted : (ClusterState.start ports).registry.Minted mintTopicId :=
  Registry.Minted.empty

theorem start_inverse : (ClusterState.start ports).registry.Inverse := Registry.Inverse.empty

theorem mintTopicId_nonzero (name : String) : mintTopicId name ≠ List.replicate 16 0 := by
  intro hzero
  have hfirst : (mintTopicId name)[0]? = some 0 := by
    rw [hzero]
    rfl
  obtain ⟨byte, _, hbyte⟩ : ∃ byte, _ ∧ byte ||| 1 = 0 :=
    Option.map_eq_some_iff.mp ((List.getElem?_modify ..).symm.trans hfirst)
  exact absurd (UInt8.or_eq_zero_iff.mp hbyte).2 (by decide)

/-- Inverse maps are all that the ids need. -/
theorem topicIdsIdentify_iff {requests : List TopicRequest} :
    TopicIdsIdentify ports requests ↔
      ((ClusterState.start ports).serveAll requests).registry.Inverse := by
  constructor
  · intro h
    exact h.inverse
  · intro hinverse
    have hstart : (ClusterState.start ports).registry.Minted mintTopicId := start_minted
    have hminted := serveAll_minted requests hstart
    refine ⟨hinverse, fun name other id => hinverse.injective, fun name id hid => ?_, ?_⟩
    · rw [hminted name id hid]
      exact mintTopicId_nonzero name
    · intro before validateOnly topics after _ result hresult _ hexists
      obtain ⟨id, hid⟩ := Option.isSome_iff_exists.mp (AList.lookup_isSome.mpr hexists)
      have hname := (hinverse result.name id).mp hid
      rw [hminted result.name id hid, ← createTopics_ids topics hresult] at hname
      exact hname

/-- Ids identify topics after every request of a run exactly when no request of the run
creates a topic whose id is minted for another that exists with it. -/
theorem topicIds_identify_iff (ports : List Int32) (requests : List TopicRequest) :
    (∀ before, before <+: requests → TopicIdsIdentify ports before) ↔
      ApartRun (.start ports) requests := by
  simp only [topicIdsIdentify_iff]
  exact apartRun_iff requests start_minted start_inverse

/-- One letter is stirred into one byte, of which the mint drops the lowest bit. -/
theorem topicIds_collide : ¬ TopicIdsIdentify [9092]
    [.exchange (.createTopics false [⟨"b", 1, 1⟩, ⟨"c", 1, 1⟩])] := by
  intro h
  have hsame := h.distinct "b" "c" (mintTopicId "b") (by decide) (by decide)
  exact absurd hsame (by decide)

end Runs

end Odradek.Acceptance.Subject
