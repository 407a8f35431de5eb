import Odradek.Client.ClusterOperations

/-!
What each cache operation comes to, once what the network answers is known. The
operations that go through them are derived from these rules and do not unfold them.
-/

namespace Odradek.Client.Cluster

open Library

variable {config : ClusterConfig} {net : Network} {s t : ClusterState} {conn : Link}
  {topics : List String} {topic key : String} {partition nodeId : Int32} {e : ClientError}
  {kind : CoordinatorKind} {info : BrokerInfo} {response : MetadataResponse}
  {refreshed : List (String × List PartitionInfo)} {lease : Lease}

section Control

def Candidate (config : ClusterConfig) (s : ClusterState) (addr : String) : Prop :=
  addr ∈ config.bootstrapServers ∨ ∃ entry ∈ s.brokers.entries, entry.2.addr = addr

theorem firstDialed_some {addrs : List String} {addr : String} (hmem : addr ∈ addrs)
    (hdial : net.dial addr = .ok conn) :
    ∃ conn addr, firstDialed net addrs = some conn ∧ net.dial addr = .ok conn := by
  unfold firstDialed
  cases hfind : addrs.findSome? fun addr => (net.dial addr).toOption with
  | none =>
      have hnone := List.findSome?_eq_none_iff.mp hfind addr hmem
      rw [hdial] at hnone
      cases hnone
  | some found =>
      obtain ⟨addr, _, hfound⟩ := List.exists_of_findSome?_eq_some hfind
      refine ⟨found, addr, rfl, ?_⟩
      cases hdial : net.dial addr with
      | error e => rw [hdial] at hfound; cases hfound
      | ok conn => rw [hdial] at hfound; cases hfound; rfl

theorem controlBroker_cached (h : s.control = some conn) :
    controlBroker config net s = .ok conn s := by
  unfold controlBroker
  refine (Routed.bind_ok rfl).trans ?_
  dsimp only
  rw [h]
  rfl

/-- Without a control connection one of the candidates is dialed. -/
theorem controlBroker_dialed {addr : String} (h : s.control = none)
    (hcandidate : Candidate config s addr) (hdial : net.dial addr = .ok conn) :
    ∃ conn addr, net.dial addr = .ok conn ∧
      controlBroker config net s = .ok conn { s with control := some conn } := by
  have hmem :
    addr ∈ (config.bootstrapServers ++ s.brokers.entries.map fun e => e.2.addr).eraseDups := by
    refine List.mem_eraseDups.mpr (List.mem_append.mpr ?_)
    rcases hcandidate with hserver | ⟨entry, hentry, rfl⟩
    · exact .inl hserver
    · exact .inr (List.mem_map_of_mem hentry)
  obtain ⟨conn, addr, hfirst, hdial⟩ := firstDialed_some hmem hdial
  refine ⟨conn, addr, hdial, ?_⟩
  unfold controlBroker
  refine (Routed.bind_ok rfl).trans ?_
  dsimp only
  rw [h]
  dsimp only
  rw [hfirst]
  rfl

end Control

section Metadata

def learned (response : MetadataResponse) (refreshed : List (String × List PartitionInfo))
    (s : ClusterState) : ClusterState :=
  { s with
    brokers := collect (response.brokers.map fun info => (info.nodeId, info))
    controller := if response.controllerId ≥ 0 then some response.controllerId else s.controller
    topics := refreshed.foldl (fun cache topic => cache.insert topic.1 topic.2) s.topics }

/-- A broker an answer lists is known afterwards, as the answer has it. -/
theorem lookup_brokers_learned (h : ∃ info ∈ response.brokers, info.nodeId = nodeId) :
    ∃ info ∈ response.brokers, info.nodeId = nodeId ∧
      (learned response refreshed s).brokers.lookup nodeId = some info := by
  obtain ⟨listed, hlisted, rfl⟩ := h
  obtain ⟨info, hinfo⟩ := lookup_foldl_insert_some
    (response.brokers.map fun info => (info.nodeId, info)) ∅
    (.inl ⟨listed, List.mem_map_of_mem hlisted⟩)
  refine ⟨info, ?_⟩
  rcases lookup_foldl_insert_cases _ _ hinfo with hmem | ⟨hnone, _⟩
  · obtain ⟨found, hfound, heq⟩ := List.mem_map.mp hmem
    obtain ⟨hnode, rfl⟩ := Prod.mk.inj heq
    exact ⟨hfound, hnode, hinfo⟩
  · cases hnone

theorem refreshMetadataVia_ok (hanswer : net.metadata conn topics = .ok response)
    (htopics : refreshedTopics response.topics = .ok refreshed) :
    refreshMetadataVia net conn topics s = .ok () (learned response refreshed s) := by
  unfold refreshMetadataVia
  refine (Routed.bind_ok (Routed.lift_ok hanswer)).trans ?_
  exact (Routed.bind_ok (Routed.lift_ok htopics)).trans rfl

theorem refreshMetadataVia_error (hanswer : net.metadata conn topics = .error e) :
    refreshMetadataVia net conn topics s = .error e s := by
  unfold refreshMetadataVia
  exact Routed.bind_error (Routed.lift_error hanswer)

theorem refreshMetadata_ok (hcontrol : controlBroker config net s = .ok conn t)
    (hanswer : net.metadata conn topics = .ok response)
    (htopics : refreshedTopics response.topics = .ok refreshed) :
    refreshMetadata config net topics s = .ok () (learned response refreshed t) := by
  unfold refreshMetadata
  refine (Routed.bind_ok hcontrol).trans ?_
  exact (Routed.bind_ok (Routed.tried_ok (refreshMetadataVia_ok hanswer htopics))).trans rfl

theorem refreshMetadata_failsOver {conn' : Link} {u : ClusterState}
    (hcontrol : controlBroker config net s = .ok conn t)
    (hdead : net.metadata conn topics = .error e) (hfailure : isControlFailure e = true)
    (hcontrol' : controlBroker config net t.forgetControl = .ok conn' u)
    (hanswer : net.metadata conn' topics = .ok response)
    (htopics : refreshedTopics response.topics = .ok refreshed) :
    refreshMetadata config net topics s = .ok () (learned response refreshed u) := by
  unfold refreshMetadata
  refine (Routed.bind_ok hcontrol).trans ?_
  refine (Routed.bind_ok (Routed.tried_error (refreshMetadataVia_error hdead))).trans ?_
  dsimp only
  rw [if_pos hfailure]
  refine (Routed.bind_ok (Routed.modify_apply _)).trans ?_
  exact (Routed.bind_ok hcontrol').trans (refreshMetadataVia_ok hanswer htopics)

end Metadata

section Brokers

theorem broker_cached (h : s.conns.lookup nodeId = some conn) :
    broker net nodeId s = .ok conn s := by
  unfold broker
  refine (Routed.bind_ok rfl).trans ?_
  rw [h]
  rfl

theorem broker_dialed (h : s.conns.lookup nodeId = none)
    (hinfo : s.brokers.lookup nodeId = some info) (hdial : net.dial info.addr = .ok conn) :
    broker net nodeId s = .ok conn { s with conns := s.conns.insert nodeId conn } := by
  unfold broker
  refine (Routed.bind_ok rfl).trans ?_
  rw [h]
  dsimp only
  rw [hinfo]
  exact (Routed.bind_ok (Routed.lift_ok hdial)).trans rfl

theorem controller_unknown (h : s.controller = none)
    (hcontrol : controlBroker config net s = .ok conn t) :
    controller config net s = .ok conn t := by
  unfold controller
  refine (Routed.bind_ok rfl).trans ?_
  rw [h]
  exact hcontrol

theorem controller_known (h : s.controller = some nodeId)
    (hbroker : broker net nodeId s = .ok conn t) : controller config net s = .ok conn t := by
  unfold controller
  refine (Routed.bind_ok rfl).trans ?_
  rw [h]
  exact (Routed.bind_ok (Routed.tried_ok hbroker)).trans rfl

end Brokers

section Leaders

/-- The leader a partition is reported with, -1 where there is none. -/
def Reports (response : MetadataResponse) (topic : String) (partition nodeId : Int32) : Prop :=
  ∃ refreshed partitions info, refreshedTopics response.topics = .ok refreshed ∧
    (topic, partitions) ∈ refreshed ∧
    (∀ other, (topic, other) ∈ refreshed → other = partitions) ∧
    partitions.find? (fun info => info.index = partition) = some info ∧ info.leaderId = nodeId

theorem Reports.learned (h : Reports response topic partition nodeId) :
    ∃ refreshed, refreshedTopics response.topics = .ok refreshed ∧
      (learned response refreshed s).leaderId topic partition =
        if nodeId ≥ 0 then some nodeId else none := by
  obtain ⟨refreshed, partitions, info, htopics, hmem, hunique, hfind, rfl⟩ := h
  refine ⟨refreshed, htopics, ?_⟩
  have hlookup : (Cluster.learned response refreshed s).topics.lookup topic = some partitions := by
    obtain ⟨found, hfound⟩ := lookup_foldl_insert_some refreshed s.topics (.inl ⟨_, hmem⟩)
    rcases lookup_foldl_insert_cases refreshed s.topics hfound with hmem' | ⟨_, hnone⟩
    · exact hfound.trans (congrArg some (hunique found hmem'))
    · exact absurd hmem (hnone partitions)
  unfold ClusterState.leaderId
  rw [hlookup, Option.bind_some, hfind, Option.bind_some]

theorem leaderOf_known (h : s.leaderId topic partition = some nodeId) :
    leaderOf config net topic partition s = .ok nodeId s := by
  unfold leaderOf
  refine (Routed.bind_ok rfl).trans ?_
  rw [h]
  refine (Routed.bind_ok rfl).trans ((Routed.bind_ok rfl).trans ?_)
  rw [h]
  rfl

theorem leaderOf_refreshed (h : s.leaderId topic partition = none)
    (hrefresh : refreshMetadata config net [topic] s = .ok () t) :
    leaderOf config net topic partition s =
      match t.leaderId topic partition with
      | some nodeId => .ok nodeId t
      | none => .error (.unknownLeader topic partition) t := by
  unfold leaderOf
  refine (Routed.bind_ok rfl).trans ?_
  rw [h]
  refine (Routed.bind_ok hrefresh).trans ((Routed.bind_ok rfl).trans ?_)
  cases t.leaderId topic partition <;> rfl

theorem partitionLeader_ok (hleader : leaderOf config net topic partition s = .ok nodeId t) :
    partitionLeader config net topic partition s = broker net nodeId t :=
  Routed.bind_ok hleader

theorem partitionLeader_error (hleader : leaderOf config net topic partition s = .error e t) :
    partitionLeader config net topic partition s = .error e t :=
  Routed.bind_error hleader

theorem blockingPartitionLeader_ok
    (hleader : leaderOf config net topic partition s = .ok nodeId t) :
    blockingPartitionLeader config net topic partition s = blockingBroker net nodeId t :=
  Routed.bind_ok hleader

theorem blockingPartitionLeader_error
    (hleader : leaderOf config net topic partition s = .error e t) :
    blockingPartitionLeader config net topic partition s = .error e t :=
  Routed.bind_error hleader

end Leaders

section Coordinators

def discovered (kind : CoordinatorKind) (key : String) (info : BrokerInfo) (s : ClusterState) :
    ClusterState :=
  { s with
    brokers := s.brokers.insert info.nodeId info
    coordinators := s.coordinators.insert (kind, key) info.nodeId }

theorem findCoordinator_ok
    (hanswer : net.findCoordinator conn kind key = .ok { errorCode := ⟨0⟩, info }) :
    findCoordinator net conn kind key s = .ok info.nodeId (discovered kind key info s) := by
  unfold findCoordinator
  exact (Routed.bind_ok (Routed.lift_ok hanswer)).trans rfl

theorem findCoordinator_error (hanswer : net.findCoordinator conn kind key = .error e) :
    findCoordinator net conn kind key s = .error e s := by
  unfold findCoordinator
  exact Routed.bind_error (Routed.lift_error hanswer)

theorem coordinatorNode_known (h : s.coordinators.lookup (kind, key) = some nodeId) :
    coordinatorNode config net kind key s = .ok nodeId s := by
  unfold coordinatorNode
  refine (Routed.bind_ok rfl).trans ?_
  rw [h]
  rfl

theorem coordinatorNode_found (h : s.coordinators.lookup (kind, key) = none)
    (hcontrol : controlBroker config net s = .ok conn t)
    (hanswer : net.findCoordinator conn kind key = .ok { errorCode := ⟨0⟩, info }) :
    coordinatorNode config net kind key s = .ok info.nodeId (discovered kind key info t) := by
  unfold coordinatorNode
  refine (Routed.bind_ok rfl).trans ?_
  rw [h]
  refine (Routed.bind_ok hcontrol).trans ?_
  exact (Routed.bind_ok (Routed.tried_ok (findCoordinator_ok hanswer))).trans rfl

theorem coordinatorNode_failsOver {conn' : Link} {u : ClusterState}
    (h : s.coordinators.lookup (kind, key) = none)
    (hcontrol : controlBroker config net s = .ok conn t)
    (hdead : net.findCoordinator conn kind key = .error e) (hfailure : isControlFailure e = true)
    (hcontrol' : controlBroker config net t.forgetControl = .ok conn' u)
    (hanswer : net.findCoordinator conn' kind key = .ok { errorCode := ⟨0⟩, info }) :
    coordinatorNode config net kind key s = .ok info.nodeId (discovered kind key info u) := by
  unfold coordinatorNode
  refine (Routed.bind_ok rfl).trans ?_
  rw [h]
  refine (Routed.bind_ok hcontrol).trans ?_
  refine (Routed.bind_ok (Routed.tried_error (findCoordinator_error hdead))).trans ?_
  dsimp only
  rw [if_pos hfailure]
  refine (Routed.bind_ok (Routed.modify_apply _)).trans ?_
  exact (Routed.bind_ok hcontrol').trans (findCoordinator_ok hanswer)

theorem coordinatorOf_ok (h : coordinatorNode config net kind key s = .ok nodeId t) :
    coordinatorOf config net kind key s = broker net nodeId t :=
  Routed.bind_ok h

theorem blockingCoordinator_ok {u : ClusterState}
    (h : coordinatorOf config net .group key s = .ok conn t)
    (hknown : t.coordinators.lookup (.group, key) = some nodeId)
    (hlease : blockingBroker net nodeId t = .ok lease u) :
    blockingCoordinator config net key s = .ok lease u := by
  unfold blockingCoordinator
  refine (Routed.bind_ok h).trans ((Routed.bind_ok rfl).trans ?_)
  rw [hknown]
  exact hlease

end Coordinators

section Leases

def poolOf (s : ClusterState) (nodeId : Int32) : BlockingPool :=
  (s.blocking.lookup nodeId).getD .default

theorem blockingBroker_idle (h : (poolOf s nodeId).idle.getLast? = some conn) :
    blockingBroker net nodeId s = .ok { conn, nodeId }
      { s with
        blocking := s.blocking.insert nodeId
          (checkOut { poolOf s nodeId with idle := (poolOf s nodeId).idle.dropLast }) } := by
  unfold blockingBroker
  refine (Routed.bind_ok rfl).trans ?_
  unfold poolOf at h
  rw [h]
  rfl

theorem blockingBroker_dialed (h : (poolOf s nodeId).idle.getLast? = none)
    (hinfo : s.brokers.lookup nodeId = some info) (hdial : net.dial info.addr = .ok conn) :
    blockingBroker net nodeId s = .ok { conn, nodeId }
      { s with blocking := s.blocking.insert nodeId (checkOut (poolOf s nodeId)) } := by
  unfold blockingBroker
  refine (Routed.bind_ok rfl).trans ?_
  unfold poolOf at h
  rw [h]
  dsimp only
  rw [hinfo]
  exact (Routed.bind_ok (Routed.lift_ok hdial)).trans rfl

end Leases

section Attempts

variable {x : ClusterM Unit} {invalidate : ClusterState → ClusterState}
  {request : ApiRequest}

theorem settle_done (h : x s = .ok () t) : settle invalidate x s = (.done (), t) := by
  unfold settle
  rw [h]

theorem settle_retry (h : x s = .error e t) (hretriable : e.isRetriable = true) :
    settle invalidate x s = (.retry e, invalidate t) := by
  unfold settle
  rw [h]
  exact if_pos hretriable

theorem settle_fatal (h : x s = .error e t) (hretriable : e.isRetriable = false) :
    settle invalidate x s = (.fatal e, t) := by
  unfold settle
  rw [h]
  dsimp only
  rw [hretriable]
  rfl

theorem isRetriable_of_isControlFailure (h : isControlFailure e = true) :
    e.isRetriable = true := by
  cases e <;> first | rfl | cases h

theorem ask_ok (h : net.request conn request = .ok (.ok ())) : ask net conn request s = .ok () s :=
  (Routed.bind_ok (Routed.lift_ok h)).trans rfl

theorem ask_lost (h : net.request conn request = .error e) : ask net conn request s = .error e s :=
  Routed.bind_error (Routed.lift_error h)

theorem tryOnce_ok (hleader : partitionLeader config net topic partition s = .ok conn t)
    (hanswer : net.request conn (.produce topic partition) = .ok (.ok ())) :
    tryOnce config net topic partition s = .ok () t := by
  unfold tryOnce
  refine (Routed.bind_ok hleader).trans ((Routed.bind_ok rfl).trans ?_)
  rw [hanswer]
  rfl

theorem tryOnce_lost (hleader : partitionLeader config net topic partition s = .ok conn t)
    (hknown : t.leaderId topic partition = some nodeId)
    (hlost : net.request conn (.produce topic partition) = .error e)
    (hfailure : isControlFailure e = true) :
    tryOnce config net topic partition s = .error e (t.forgetBroker nodeId) := by
  unfold tryOnce
  refine (Routed.bind_ok hleader).trans ((Routed.bind_ok rfl).trans ?_)
  rw [hlost, hknown]
  refine (Routed.bind_ok (Routed.modify_apply _)).trans ?_
  unfold forgetLeader
  dsimp only
  rw [if_pos hfailure]
  rfl

theorem tryOnce_error (hleader : partitionLeader config net topic partition s = .error e t) :
    tryOnce config net topic partition s = .error e t :=
  Routed.bind_error hleader

theorem fetchOnce_ok
    (hlease : blockingPartitionLeader config net topic partition s = .ok lease t)
    (hanswer : net.request lease.conn (.fetch topic partition) = .ok (.ok ())) :
    fetchOnce config net topic partition s = .ok () (release config lease t) := by
  unfold fetchOnce
  refine (Routed.bind_ok hlease).trans ((Routed.bind_ok rfl).trans ?_)
  rw [hanswer]
  exact (Routed.bind_ok (Routed.modify_apply _)).trans rfl

theorem fetchOnce_lost
    (hlease : blockingPartitionLeader config net topic partition s = .ok lease t)
    (hknown : t.leaderId topic partition = some nodeId)
    (hlost : net.request lease.conn (.fetch topic partition) = .error e)
    (hfailure : isControlFailure e = true) :
    fetchOnce config net topic partition s =
      .error e (dropLease lease (t.forgetBroker nodeId)) := by
  unfold fetchOnce
  refine (Routed.bind_ok hlease).trans ((Routed.bind_ok rfl).trans ?_)
  rw [hlost, hknown]
  refine (Routed.bind_ok (Routed.modify_apply _)).trans ?_
  unfold forgetLeader
  dsimp only
  rw [if_pos hfailure]
  rfl

theorem fetchOnce_error
    (hlease : blockingPartitionLeader config net topic partition s = .error e t) :
    fetchOnce config net topic partition s = .error e t :=
  Routed.bind_error hlease

end Attempts

end Odradek.Client.Cluster
