import Odradek.Client.Catalog

/-!
What `delete_topics` does to the cached topics. The refresh that is to drop the
deleted ones is answered with an error for each of them, and so leaves them where
they are; nothing else on the way touches a topic.
-/

namespace Odradek.Client.Cluster

open Library

variable {α β : Type} {config : ClusterConfig} {net : Network} {s t : ClusterState} {conn : Link}
  {topics asked : List String} {topic : String} {nodeId : Int32}
  {catalog : String → Option (List PartitionInfo)}

section Keeping

def leaves : EStateM.Result ClientError ClusterState α → ClusterState
  | .ok _ t => t
  | .error _ t => t

def KeepsTopics (x : ClusterM α) : Prop := ∀ s, (leaves (x s)).topics = s.topics

variable {x : ClusterM α} {f : α → ClusterM β}

theorem KeepsTopics.pure (a : α) : KeepsTopics (pure a : ClusterM α) := fun _ => rfl

theorem KeepsTopics.throw (e : ClientError) : KeepsTopics (throw e : ClusterM α) := fun _ => rfl

theorem KeepsTopics.bind (hx : KeepsTopics x) (hf : ∀ a, KeepsTopics (f a)) :
    KeepsTopics (x >>= f) := by
  intro s
  have hfirst := hx s
  cases hresult : x s with
  | error e t =>
      rw [Routed.bind_error hresult]
      rw [hresult] at hfirst
      exact hfirst
  | ok a t =>
      rw [Routed.bind_ok hresult]
      rw [hresult] at hfirst
      exact (hf a t).trans hfirst

theorem KeepsTopics.lift (r : Except ClientError α) :
    KeepsTopics (Routed.lift r : ClusterM α) := by
  intro s
  cases r <;> rfl

theorem KeepsTopics.tried (hx : KeepsTopics x) : KeepsTopics (Routed.tried x) := by
  intro s
  have hkept := hx s
  unfold Routed.tried
  cases hresult : x s with
  | error e t =>
      rw [hresult] at hkept
      exact hkept
  | ok a t =>
      rw [hresult] at hkept
      exact hkept

theorem KeepsTopics.modify {g : ClusterState → ClusterState}
    (hg : ∀ s, (g s).topics = s.topics) : KeepsTopics (modify g : ClusterM PUnit) := hg

theorem KeepsTopics.ok {a : α} (hx : KeepsTopics x) (h : x s = .ok a t) : t.topics = s.topics := by
  have hkept := hx s
  rw [h] at hkept
  exact hkept

end Keeping

section Steps

theorem keepsTopics_controlBroker : KeepsTopics (controlBroker config net) := by
  intro s
  cases hcontrol : s.control with
  | some conn =>
      rw [controlBroker_cached hcontrol]
      rfl
  | none =>
      unfold controlBroker
      rw [Routed.bind_ok (show (get : ClusterM ClusterState) s = .ok s s from rfl)]
      simp only [hcontrol]
      cases firstDialed net
        (config.bootstrapServers ++ s.brokers.entries.map fun e => e.2.addr).eraseDups <;> rfl

theorem keepsTopics_broker : KeepsTopics (broker net nodeId) := by
  intro s
  unfold broker
  rw [Routed.bind_ok (show (get : ClusterM ClusterState) s = .ok s s from rfl)]
  cases s.conns.lookup nodeId with
  | some conn => rfl
  | none =>
      cases s.brokers.lookup nodeId with
      | none => rfl
      | some info =>
          dsimp only
          refine KeepsTopics.bind (KeepsTopics.lift _) (fun conn => ?_) s
          exact KeepsTopics.bind (.modify fun _ => rfl) fun _ => .pure conn

theorem keepsTopics_controller : KeepsTopics (controller config net) := by
  intro s
  unfold controller
  rw [Routed.bind_ok (show (get : ClusterM ClusterState) s = .ok s s from rfl)]
  cases s.controller with
  | none => exact keepsTopics_controlBroker s
  | some nodeId =>
      refine KeepsTopics.bind keepsTopics_broker.tried (fun result => ?_) s
      cases result with
      | ok conn => exact .pure conn
      | error e => exact keepsTopics_controlBroker

/-- A refresh that asks for nothing the catalog has learns of no topic. -/
theorem keepsTopics_refreshMetadataVia (hcatalog : AnswersFrom catalog net)
    (hnone : ∀ topic ∈ asked, catalog topic = none) :
    KeepsTopics (refreshMetadataVia net conn asked) := by
  intro s
  cases hanswer : net.metadata conn asked with
  | error e =>
      rw [refreshMetadataVia_error hanswer]
      rfl
  | ok response =>
      have hreports := hcatalog _ _ _ hanswer
      cases asked with
      | nil =>
          have hempty : response.topics = [] := List.Perm.eq_nil hreports
          have htopics : refreshedTopics response.topics = .ok [] := by
            rw [hempty]
            rfl
          rw [refreshMetadataVia_ok hanswer htopics]
          rfl
      | cons topic rest =>
          have hunknown : ∃ other ∈ topic :: rest, catalog other = none :=
            ⟨topic, List.mem_cons_self, hnone topic List.mem_cons_self⟩
          rw [refreshMetadataVia_refused hanswer (refreshedTopics_unknown hreports hunknown)]
          rfl

theorem keepsTopics_refreshMetadata (hcatalog : AnswersFrom catalog net)
    (hnone : ∀ topic ∈ asked, catalog topic = none) :
    KeepsTopics (refreshMetadata config net asked) := by
  refine keepsTopics_controlBroker.bind fun conn => ?_
  refine (keepsTopics_refreshMetadataVia hcatalog hnone).tried.bind fun result => ?_
  cases result with
  | ok value => exact .pure ()
  | error e =>
      dsimp only
      split
      · refine KeepsTopics.bind (.modify fun _ => rfl) fun _ => ?_
        exact keepsTopics_controlBroker.bind fun conn =>
          keepsTopics_refreshMetadataVia hcatalog hnone
      · exact .throw e

theorem keepsTopics_rediscoverController (hcatalog : AnswersFrom catalog net) :
    KeepsTopics (rediscoverController config net) := by
  refine KeepsTopics.bind (.modify fun _ => rfl) fun _ => ?_
  refine KeepsTopics.bind (keepsTopics_refreshMetadata hcatalog fun _ h => ?_) fun _ =>
    keepsTopics_controller
  exact absurd h List.not_mem_nil

theorem keepsTopics_ask {request : ApiRequest} : KeepsTopics (ask net conn request) :=
  (KeepsTopics.lift _).bind fun _ => .lift _

theorem keepsTopics_redirecting {via : Link → ClusterM Unit} (hcatalog : AnswersFrom catalog net)
    (hvia : ∀ conn, KeepsTopics (via conn)) : KeepsTopics (redirecting config net via) := by
  refine keepsTopics_controller.bind fun conn => ?_
  refine (hvia conn).tried.bind fun result => ?_
  cases result with
  | ok value => exact .pure ()
  | error e =>
      dsimp only
      split
      · exact (keepsTopics_rediscoverController hcatalog).bind fun conn => hvia conn
      · exact .throw e

/-- The topics that are gone stay cached. -/
theorem keepsTopics_deleteTopics (hcatalog : AnswersFrom catalog net)
    (hgone : ∀ topic ∈ topics, catalog topic = none) :
    KeepsTopics (deleteTopics config net topics) :=
  keepsTopics_redirecting hcatalog fun _ => keepsTopics_ask.bind fun _ =>
    (keepsTopics_refreshMetadata hcatalog hgone).tried.bind fun _ => .pure ()

end Steps

section Forgetting

/-- Nothing is known of the topic, so the next lookup asks. -/
structure Uncached (s : ClusterState) (topic : String) : Prop where
  partitions : s.partitions topic = none
  count : s.partitionCount topic = none
  leader : ∀ partition, s.leaderId topic partition = none

/-- A topic is cached as before, or as an answer of the network has it. -/
def Kept (net : Network) (s t : ClusterState) (topic : String) : Prop :=
  t.partitions topic = s.partitions topic ∨
    ∃ conn asked response partitions, net.metadata conn asked = .ok response ∧
      (topic, partitions) ∈ named response.topics ∧ t.partitions topic = some partitions

theorem uncached_iff : Uncached s topic ↔ s.partitions topic = none := by
  refine ⟨Uncached.partitions, fun h => ⟨h, ?_, fun partition => ?_⟩⟩
  · exact congrArg (Option.map List.length) h
  · unfold ClusterState.leaderId
    rw [show s.topics.lookup topic = none from h]
    rfl

/-- A deletion leaves the caches without the deleted topics only where they were
without them. -/
theorem deleteTopics_forgets_iff (config : ClusterConfig) (net : Network) (s t : ClusterState)
    (topics : List String) (catalog : String → Option (List PartitionInfo))
    (hcatalog : AnswersFrom catalog net) (hgone : ∀ topic ∈ topics, catalog topic = none)
    (h : deleteTopics config net topics s = .ok () t) :
    ((∀ topic ∈ topics, Uncached t topic) ∧ ∀ topic, topic ∉ topics → Kept net s t topic) ↔
      ∀ topic ∈ topics, s.partitions topic = none := by
  have hkept : t.topics = s.topics := (keepsTopics_deleteTopics hcatalog hgone).ok h
  have hpartitions : ∀ topic, t.partitions topic = s.partitions topic := fun topic => by
    unfold ClusterState.partitions
    rw [hkept]
  constructor
  · rintro ⟨huncached, _⟩ topic htopic
    rw [← hpartitions topic]
    exact (huncached topic htopic).partitions
  · refine fun hnone => ⟨fun topic htopic => ?_, fun topic _ => .inl (hpartitions topic)⟩
    rw [uncached_iff, hpartitions topic]
    exact hnone topic htopic

/-- A topic of one partition, led by the second of the brokers. -/
def ledBySecond : List PartitionInfo := [{ index := 0, leaderId := 2, error := ⟨0⟩ }]

def ordersCatalog (topic : String) : Option (List PartitionInfo) :=
  if topic = "orders" then some ledBySecond else none

def ordersCached : Cache String (List PartitionInfo) :=
  (∅ : Cache String (List PartitionInfo)).insert "orders" ledBySecond

/-- A topic is deleted that was never looked up, the cached leader of another stays. -/
theorem deleteTopics_forgets_once :
    (knowing ordersCached).leaderId "orders" 0 = some 2 ∧
      (∀ topic ∈ ["x"], Uncached (knowing ordersCached) topic) ∧
      ∀ topic, topic ∉ ["x"] →
        Kept (catalogNet ordersCatalog) (knowing ordersCached) (knowing ordersCached) topic := by
  refine ⟨rfl, (deleteTopics_forgets_iff { bootstrapServers := [], blockingIdleMax := 8 }
    (catalogNet ordersCatalog) (knowing ordersCached) (knowing ordersCached) ["x"] ordersCatalog
    catalogNet_answersFrom ?_ rfl).mpr ?_⟩
  · intro topic htopic
    rw [List.mem_singleton.mp htopic]
    rfl
  · intro topic htopic
    rw [List.mem_singleton.mp htopic]
    rfl

/-- A topic that was looked up is deleted, and its partition is still there. -/
theorem deleteTopics_remembers : ¬ ∀ (config : ClusterConfig) (net : Network)
    (s t : ClusterState) (topics : List String)
    (catalog : String → Option (List PartitionInfo)), AnswersFrom catalog net →
    (∀ topic ∈ topics, catalog topic = none) → deleteTopics config net topics s = .ok () t →
    (∀ topic ∈ topics, Uncached t topic) ∧ ∀ topic, topic ∉ topics → Kept net s t topic := by
  intro h
  obtain ⟨huncached, _⟩ := h { bootstrapServers := [], blockingIdleMax := 8 }
    (catalogNet fun _ => none) (knowing ordersCached) (knowing ordersCached) ["orders"]
    (fun _ => none) catalogNet_answersFrom (fun _ _ => rfl) rfl
  have hleader : (knowing ordersCached).leaderId "orders" 0 = none :=
    (huncached "orders" List.mem_cons_self).leader 0
  cases hleader

end Forgetting

end Odradek.Client.Cluster
