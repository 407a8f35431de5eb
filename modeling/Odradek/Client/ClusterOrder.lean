import Odradek.Client.ClusterRules

/-!
A cluster in order under a handle some of whose cached connections are dead. Metadata
and discovery fail over; every other lookup hands out the cached connection, or a live
one where there is none.
-/

namespace Odradek.Client.Cluster

open Library

section Order

/-- Who leads, coordinates and controls, all of them brokers of the cluster. -/
structure World where
  brokers : List BrokerInfo
  leader : String → Int32 → Option Int32
  coordinator : CoordinatorKind → String → BrokerInfo
  controllerId : Int32
  leader_listed : ∀ topic partition nodeId, leader topic partition = some nodeId →
    0 ≤ nodeId ∧ ∃ info ∈ brokers, info.nodeId = nodeId
  coordinator_listed : ∀ kind key, coordinator kind key ∈ brokers
  controller_listed : 0 ≤ controllerId ∧ ∃ info ∈ brokers, info.nodeId = controllerId

structure Describes (w : World) (topics : List String) (response : MetadataResponse) : Prop where
  brokers : response.brokers = w.brokers
  controller : response.controllerId = w.controllerId
  leaders : ∀ refreshed, refreshedTopics response.topics = .ok refreshed →
    ∀ topic partitions partition info, (topic, partitions) ∈ refreshed →
      partitions.find? (fun info => info.index = partition) = some info → 0 ≤ info.leaderId →
        w.leader topic partition = some info.leaderId
  parsed : ∃ refreshed, refreshedTopics response.topics = .ok refreshed
  reported : ∀ topic ∈ topics, ∀ partition nodeId, w.leader topic partition = some nodeId →
    Reports response topic partition nodeId

/-- Every broker can be dialed and answers without an error, over a connection that is
not dead. -/
structure Serves (config : ClusterConfig) (w : World) (live : Link → Prop) (net : Network) :
    Prop where
  dialed : ∀ info ∈ w.brokers, ∃ conn, net.dial info.addr = .ok conn
  bootstrapped : ∃ addr ∈ config.bootstrapServers, ∃ conn, net.dial addr = .ok conn
  fresh : ∀ addr conn, net.dial addr = .ok conn → live conn
  metadata : ∀ conn topics, live conn →
    ∃ response, net.metadata conn topics = .ok response ∧ Describes w topics response
  findCoordinator : ∀ conn kind key, live conn →
    net.findCoordinator conn kind key = .ok { errorCode := ⟨0⟩, info := w.coordinator kind key }
  answered : ∀ conn request, live conn → net.request conn request = .ok (.ok ())
  lostMetadata : ∀ conn topics, ¬ live conn →
    ∃ e, net.metadata conn topics = .error e ∧ isControlFailure e = true
  lostCoordinator : ∀ conn kind key, ¬ live conn →
    ∃ e, net.findCoordinator conn kind key = .error e ∧ isControlFailure e = true
  lost : ∀ conn request, ¬ live conn →
    ∃ e, net.request conn request = .error e ∧ isControlFailure e = true

def Known (s : ClusterState) (nodeId : Int32) : Prop := ∃ info, s.brokers.lookup nodeId = some info

/-- The caches are right about where things are; what they hold connections of may be
dead or alive. -/
structure RoutingRight (w : World) (s : ClusterState) : Prop where
  brokers : ∀ nodeId info, s.brokers.lookup nodeId = some info → info ∈ w.brokers
  leader : ∀ topic partition nodeId, s.leaderId topic partition = some nodeId →
    w.leader topic partition = some nodeId ∧ Known s nodeId
  coordinator : ∀ kind key nodeId, s.coordinators.lookup (kind, key) = some nodeId →
    nodeId = (w.coordinator kind key).nodeId ∧ Known s nodeId
  controller : ∀ nodeId, s.controller = some nodeId → nodeId = w.controllerId ∧ Known s nodeId

def Operation.Exists (w : World) : Operation → Prop
  | .produce topic partition => ∃ nodeId, w.leader topic partition = some nodeId
  | .fetch topic partition => ∃ nodeId, w.leader topic partition = some nodeId
  | .listOffset topic partition => ∃ nodeId, w.leader topic partition = some nodeId
  | _ => True

/-- No dead connection to the broker is cached. -/
def ConnLive (live : Link → Prop) (s : ClusterState) (nodeId : Int32) : Prop :=
  ∀ conn, s.conns.lookup nodeId = some conn → live conn

def ControlLive (live : Link → Prop) (s : ClusterState) : Prop :=
  ∀ conn, s.control = some conn → live conn

/-- The connections are alive that the operation does not drop when they fail. -/
def Operation.Lively (w : World) (live : Link → Prop) (s : ClusterState) : Operation → Prop
  | .listOffset topic partition =>
    ∀ nodeId, w.leader topic partition = some nodeId → ConnLive live s nodeId
  | .initProducerId none => ControlLive live s
  | .initProducerId (some id) => ConnLive live s (w.coordinator .transaction id).nodeId
  | .createTopic _ | .deleteTopics _ =>
    ConnLive live s w.controllerId ∨ (s.controller = none ∧ ControlLive live s)
  | _ => True

end Order

section Handed

variable {live : Link → Prop} {cached : Option Link} {conn : Link}

/-- The cached connection, or a live one where there is none. -/
def Handed (live : Link → Prop) (cached : Option Link) (conn : Link) : Prop :=
  cached = some conn ∨ (cached = none ∧ live conn)

theorem Handed.isLive (h : Handed live cached conn)
    (hcached : ∀ conn, cached = some conn → live conn) :
    live conn := by
  rcases h with hconn | ⟨_, hlive⟩
  · exact hcached conn hconn
  · exact hlive

theorem Handed.isDead (h : Handed live cached conn)
    (hcached : ¬ ∀ conn, cached = some conn → live conn) : cached = some conn ∧ ¬ live conn := by
  obtain ⟨dead, hnot⟩ := not_forall.mp hcached
  obtain ⟨hdead, hnot⟩ := Classical.not_imp.mp hnot
  rcases h with hconn | ⟨hnone, _⟩
  · obtain rfl : dead = conn := Option.some.inj (hdead.symm.trans hconn)
    exact ⟨hconn, hnot⟩
  · cases hdead.symm.trans hnone

end Handed

section Right

variable {w : World} {s t : ClusterState} {nodeId : Int32} {topic key : String}
  {kind : CoordinatorKind} {partition : Int32}

structure SameRoutes (s t : ClusterState) : Prop where
  brokers : t.brokers = s.brokers
  topics : t.topics = s.topics
  coordinators : t.coordinators = s.coordinators
  controller : t.controller = s.controller

theorem RoutingRight.congr (h : RoutingRight w s) (hsame : SameRoutes s t) : RoutingRight w t := by
  obtain ⟨control, brokers, topics, conns, blocking, controller, coordinators⟩ := t
  obtain ⟨rfl, rfl, rfl, rfl⟩ := hsame
  exact ⟨h.brokers, h.leader, h.coordinator, h.controller⟩

theorem sameRoutes_clearIdle : SameRoutes s (s.clearIdle nodeId) := by
  unfold ClusterState.clearIdle
  split <;> exact ⟨rfl, rfl, rfl, rfl⟩

theorem conns_clearIdle : (s.clearIdle nodeId).conns = s.conns := by
  unfold ClusterState.clearIdle
  split <;> rfl

theorem idle_clearIdle : (poolOf (s.clearIdle nodeId) nodeId).idle = [] := by
  unfold ClusterState.clearIdle poolOf
  split
  next hnone =>
      rw [hnone]
      rfl
  next pool hpool =>
      dsimp only
      rw [AList.lookup_insert]
      rfl

theorem sameRoutes_forgetBroker : SameRoutes s (s.forgetBroker nodeId) := by
  obtain ⟨hbrokers, htopics, hcoordinators, hcontroller⟩ :=
    @sameRoutes_clearIdle { s with conns := s.conns.erase nodeId } nodeId
  exact ⟨hbrokers, htopics, hcoordinators, hcontroller⟩

theorem lookup_conns_forgetBroker : (s.forgetBroker nodeId).conns.lookup nodeId = none := by
  unfold ClusterState.forgetBroker
  rw [conns_clearIdle]
  exact AList.lookup_erase _ _

theorem idle_forgetBroker : (poolOf (s.forgetBroker nodeId) nodeId).idle = [] := idle_clearIdle

theorem find?_modify {α : Type} {f : α → α} {q : α → Bool} (hq : ∀ a, q (f a) = q a)
    (l : List α) (i : Nat) {b : α} (h : (l.modify i f).find? q = some b) :
    ∃ a, l.find? q = some a ∧ (b = a ∨ b = f a) := by
  induction l generalizing i with
  | nil =>
      rw [List.modify_nil] at h
      cases h
  | cons a rest ih =>
      cases i with
      | zero =>
          rw [List.modify_zero_cons, List.find?_cons, hq] at h
          rw [List.find?_cons]
          cases ha : q a with
          | true =>
              rw [ha] at h
              cases h
              exact ⟨a, rfl, .inr rfl⟩
          | false =>
              rw [ha] at h
              exact ⟨b, h, .inl rfl⟩
      | succ i =>
          rw [List.modify_succ_cons, List.find?_cons] at h
          rw [List.find?_cons]
          cases ha : q a with
          | true =>
              rw [ha] at h
              cases h
              exact ⟨b, rfl, .inl rfl⟩
          | false =>
              rw [ha] at h
              exact ih i h

/-- Staleness takes a leader away and gives none. -/
theorem leaderId_markPartitionStale {topic' : String} {partition' : Int32}
    (h : (s.markPartitionStale topic partition).leaderId topic' partition' = some nodeId) :
    s.leaderId topic' partition' = some nodeId := by
  unfold ClusterState.markPartitionStale at h
  split at h
  · exact h
  next partitions hpartitions =>
      split at h
      next i hi =>
          by_cases htopic : topic' = topic
          · subst htopic
            unfold ClusterState.leaderId at h ⊢
            rw [AList.lookup_insert, Option.bind_some] at h
            obtain ⟨info, hfind, hleader⟩ := Option.bind_eq_some_iff.mp h
            obtain ⟨found, hfound, heq⟩ := find?_modify
              (q := fun info : PartitionInfo => decide (info.index = partition'))
              (f := fun info : PartitionInfo => { info with leaderId := -1 })
              (fun _ => rfl) partitions i hfind
            rw [hpartitions, Option.bind_some, hfound, Option.bind_some]
            rcases heq with rfl | rfl
            · exact hleader
            · cases (Option.ite_none_right_eq_some.mp hleader).1
          · unfold ClusterState.leaderId at h ⊢
            rw [AList.lookup_insert_ne htopic] at h
            exact h
      next hi =>
          unfold ClusterState.leaderId at h ⊢
          obtain ⟨info, hinfo, hleader⟩ := Option.bind_eq_some_iff.mp h
          obtain ⟨found, hlookup, hfind⟩ := Option.bind_eq_some_iff.mp hinfo
          obtain ⟨_, hlookup⟩ := lookup_erase_cases hlookup
          rw [hlookup, Option.bind_some, hfind, Option.bind_some]
          exact hleader

theorem brokers_markPartitionStale :
    (s.markPartitionStale topic partition).brokers = s.brokers ∧
      (s.markPartitionStale topic partition).conns = s.conns ∧
      (s.markPartitionStale topic partition).blocking = s.blocking ∧
      (s.markPartitionStale topic partition).coordinators = s.coordinators ∧
      (s.markPartitionStale topic partition).controller = s.controller := by
  unfold ClusterState.markPartitionStale
  split
  · exact ⟨rfl, rfl, rfl, rfl, rfl⟩
  · split <;> exact ⟨rfl, rfl, rfl, rfl, rfl⟩

/-- Marking a partition stale keeps the routing right. -/
theorem RoutingRight.markPartitionStale (h : RoutingRight w s) :
    RoutingRight w (s.markPartitionStale topic partition) := by
  obtain ⟨hbrokers, _, _, hcoordinators, hcontroller⟩ :=
    @brokers_markPartitionStale s topic partition
  refine ⟨?_, ?_, ?_, ?_⟩
  · rw [hbrokers]
    exact h.brokers
  · intro topic' partition' nodeId hleader
    unfold Known
    rw [hbrokers]
    exact h.leader topic' partition' nodeId (leaderId_markPartitionStale hleader)
  · unfold Known
    rw [hbrokers, hcoordinators]
    exact h.coordinator
  · unfold Known
    rw [hbrokers, hcontroller]
    exact h.controller

theorem RoutingRight.eraseCoordinator (h : RoutingRight w s) :
    RoutingRight w { s with coordinators := s.coordinators.erase (kind, key) } :=
  ⟨h.brokers, h.leader,
    fun kind' key' nodeId hlookup => h.coordinator kind' key' nodeId (lookup_erase_cases hlookup).2,
    h.controller⟩

theorem RoutingRight.forgetCoordinator (h : RoutingRight w s) :
    RoutingRight w (s.forgetCoordinator kind key) := by
  unfold ClusterState.forgetCoordinator
  split
  · exact h
  · exact h.eraseCoordinator.congr sameRoutes_forgetBroker

end Right

section Served

variable {config : ClusterConfig} {w : World} {live : Link → Prop} {net : Network}
  {s t : ClusterState} {topics : List String} {topic key : String} {partition nodeId : Int32}
  {kind : CoordinatorKind} {conn : Link} {response : MetadataResponse}
  {refreshed : List (String × List PartitionInfo)}

theorem controlBroker_redials (h : Serves config w live net) (hcontrol : s.control = none) :
    ∃ conn, live conn ∧ controlBroker config net s = .ok conn { s with control := some conn } := by
  obtain ⟨addr, hserver, conn, hdial⟩ := h.bootstrapped
  obtain ⟨conn, addr, hdial, hbroker⟩ := controlBroker_dialed hcontrol (.inl hserver) hdial
  exact ⟨conn, h.fresh addr conn hdial, hbroker⟩

/-- The control connection is the cached one, or a live one. -/
theorem controlBroker_serves (h : Serves config w live net) :
    ∃ conn, controlBroker config net s = .ok conn { s with control := some conn } ∧
      Handed live s.control conn := by
  cases hcontrol : s.control with
  | some conn =>
      refine ⟨conn, (controlBroker_cached hcontrol).trans ?_, .inl rfl⟩
      rw [← hcontrol]
  | none =>
      obtain ⟨conn, hlive, hbroker⟩ := controlBroker_redials h hcontrol
      exact ⟨conn, hbroker, .inr ⟨rfl, hlive⟩⟩

/-- The caches after an answer that describes the cluster. -/
theorem RoutingRight.learned (hright : RoutingRight w s) (h : Describes w topics response)
    (hrefreshed : refreshedTopics response.topics = .ok refreshed) :
    RoutingRight w (learned response refreshed s) := by
  have hlisted : ∀ nodeId, (∃ info ∈ w.brokers, info.nodeId = nodeId) →
      Known (Cluster.learned response refreshed s) nodeId := by
    intro nodeId hnode
    rw [← h.brokers] at hnode
    obtain ⟨info, _, _, hlookup⟩ := lookup_brokers_learned hnode
    exact ⟨info, hlookup⟩
  refine ⟨?_, ?_, ?_, ?_⟩
  · intro nodeId info hlookup
    rcases lookup_foldl_insert_cases _ _ hlookup with hmem | ⟨hnone, _⟩
    · obtain ⟨found, hfound, heq⟩ := List.mem_map.mp hmem
      obtain ⟨_, rfl⟩ := Prod.mk.inj heq
      rw [h.brokers] at hfound
      exact hfound
    · cases hnone
  · intro topic partition nodeId hleader
    have hleads : w.leader topic partition = some nodeId := by
      obtain ⟨info, hinfo, hid⟩ := Option.bind_eq_some_iff.mp hleader
      obtain ⟨partitions, hlookup, hfind⟩ := Option.bind_eq_some_iff.mp hinfo
      obtain ⟨hnonneg, heq⟩ := Option.ite_none_right_eq_some.mp hid
      cases heq
      rcases lookup_foldl_insert_cases _ _ hlookup with hmem | ⟨hold, _⟩
      · exact h.leaders refreshed hrefreshed topic partitions partition info hmem hfind hnonneg
      · refine (hright.leader topic partition info.leaderId ?_).1
        unfold ClusterState.leaderId
        rw [hold, Option.bind_some, hfind, Option.bind_some]
        exact if_pos hnonneg
    exact ⟨hleads, hlisted nodeId (w.leader_listed topic partition nodeId hleads).2⟩
  · intro kind key nodeId hlookup
    obtain ⟨heq, _⟩ := hright.coordinator kind key nodeId hlookup
    exact ⟨heq, hlisted nodeId ⟨_, w.coordinator_listed kind key, heq.symm⟩⟩
  · intro nodeId hcontroller
    have heq : nodeId = w.controllerId := by
      have hnamed : (Cluster.learned response refreshed s).controller = some w.controllerId := by
        unfold Cluster.learned
        rw [h.controller]
        exact if_pos w.controller_listed.1
      exact Option.some.inj (hcontroller.symm.trans hnamed)
    rw [heq]
    exact ⟨rfl, hlisted _ w.controller_listed.2⟩

/-- What a refresh leaves: the routes right, the connections as they were. -/
structure Refreshed (w : World) (topics : List String) (s t : ClusterState) : Prop where
  right : RoutingRight w t
  conns : t.conns = s.conns
  blocking : t.blocking = s.blocking
  coordinators : t.coordinators = s.coordinators
  controller : t.controller = some w.controllerId
  leader : ∀ topic ∈ topics, ∀ partition nodeId, w.leader topic partition = some nodeId →
    t.leaderId topic partition = some nodeId

theorem refreshed_learned (hright : RoutingRight w s) (h : Describes w topics response)
    (hrefreshed : refreshedTopics response.topics = .ok refreshed) :
    Refreshed w topics s (learned response refreshed s) := by
  refine ⟨hright.learned h hrefreshed, rfl, rfl, rfl, ?_, ?_⟩
  · unfold learned
    rw [h.controller]
    exact if_pos w.controller_listed.1
  · intro topic hmem partition nodeId hleads
    obtain ⟨refreshed', hrefreshed', hleader⟩ :=
      (h.reported topic hmem partition nodeId hleads).learned (s := s)
    cases hrefreshed.symm.trans hrefreshed'
    rw [hleader]
    exact if_pos (w.leader_listed topic partition nodeId hleads).1

theorem Refreshed.of_control {conn' : Option Link}
    (h : Refreshed w topics { s with control := conn' } t) : Refreshed w topics s t :=
  ⟨h.right, h.conns, h.blocking, h.coordinators, h.controller, h.leader⟩

/-- Metadata fails over: a refresh succeeds whatever the control connection. -/
theorem refreshMetadata_serves (h : Serves config w live net) (hright : RoutingRight w s)
    (topics : List String) :
    ∃ t, refreshMetadata config net topics s = .ok () t ∧ Refreshed w topics s t := by
  obtain ⟨conn, hcontrol, _⟩ := controlBroker_serves h (s := s)
  have hright' : RoutingRight w { s with control := some conn } :=
    hright.congr ⟨rfl, rfl, rfl, rfl⟩
  by_cases hlive : live conn
  · obtain ⟨response, hanswer, hdescribes⟩ := h.metadata conn topics hlive
    obtain ⟨refreshed, hrefreshed⟩ := hdescribes.parsed
    exact ⟨_, refreshMetadata_ok hcontrol hanswer hrefreshed,
      (refreshed_learned hright' hdescribes hrefreshed).of_control⟩
  · obtain ⟨e, hdead, hfailure⟩ := h.lostMetadata conn topics hlive
    obtain ⟨conn', hlive', hcontrol'⟩ := controlBroker_redials h
      (show ({ s with control := some conn } : ClusterState).forgetControl.control = none from rfl)
    obtain ⟨response, hanswer, hdescribes⟩ := h.metadata conn' topics hlive'
    obtain ⟨refreshed, hrefreshed⟩ := hdescribes.parsed
    refine ⟨_, refreshMetadata_failsOver hcontrol hdead hfailure hcontrol' hanswer hrefreshed, ?_⟩
    exact (show Refreshed w topics { s with control := some conn' } _ from
      refreshed_learned (hright.congr ⟨rfl, rfl, rfl, rfl⟩) hdescribes hrefreshed).of_control

/-- The cached connection to a broker, or a live one. -/
theorem broker_serves (h : Serves config w live net) (hright : RoutingRight w s)
    (hknown : Known s nodeId) :
    ∃ conn conns, broker net nodeId s = .ok conn { s with conns } ∧
      conns.lookup nodeId = some conn ∧ Handed live (s.conns.lookup nodeId) conn := by
  cases hcached : s.conns.lookup nodeId with
  | some conn => exact ⟨conn, s.conns, broker_cached hcached, hcached, .inl rfl⟩
  | none =>
      obtain ⟨info, hinfo⟩ := hknown
      obtain ⟨conn, hdial⟩ := h.dialed info (hright.brokers nodeId info hinfo)
      exact ⟨conn, _, broker_dialed hcached hinfo hdial, AList.lookup_insert _,
        .inr ⟨rfl, h.fresh _ conn hdial⟩⟩

theorem leaderOf_serves (h : Serves config w live net) (hright : RoutingRight w s)
    (hleads : w.leader topic partition = some nodeId) :
    ∃ t, leaderOf config net topic partition s = .ok nodeId t ∧ RoutingRight w t ∧
      t.leaderId topic partition = some nodeId ∧ t.conns = s.conns ∧ t.blocking = s.blocking := by
  cases hleader : s.leaderId topic partition with
  | some known =>
      obtain ⟨hknown, _⟩ := hright.leader topic partition known hleader
      cases hknown.symm.trans hleads
      exact ⟨s, leaderOf_known hleader, hright, hleader, rfl, rfl⟩
  | none =>
      obtain ⟨t, hrefresh, ht⟩ := refreshMetadata_serves h hright [topic]
      have hleader' := ht.leader topic (List.mem_singleton_self _) partition nodeId hleads
      refine ⟨t, (leaderOf_refreshed hleader hrefresh).trans ?_, ht.right, hleader', ht.conns,
        ht.blocking⟩
      rw [hleader']

/-- The connection to a partition's leader: the cached one, or a live one. -/
theorem partitionLeader_serves (h : Serves config w live net) (hright : RoutingRight w s)
    (hleads : w.leader topic partition = some nodeId) :
    ∃ conn t, partitionLeader config net topic partition s = .ok conn t ∧ RoutingRight w t ∧
      t.leaderId topic partition = some nodeId ∧ t.conns.lookup nodeId = some conn ∧
      Handed live (s.conns.lookup nodeId) conn := by
  obtain ⟨t, hleader, hright', hknown, hconns, _⟩ := leaderOf_serves h hright hleads
  obtain ⟨conn, conns, hbroker, hlookup, hlive⟩ :=
    broker_serves h hright' (hright'.leader topic partition nodeId hknown).2
  rw [hconns] at hlive
  exact ⟨conn, _, (partitionLeader_ok hleader).trans hbroker,
    hright'.congr ⟨rfl, rfl, rfl, rfl⟩, hknown, hlookup, hlive⟩

/-- A lease: an idle connection of the pool, or a live one. -/
theorem blockingBroker_serves (h : Serves config w live net) (hright : RoutingRight w s)
    (hknown : Known s nodeId) :
    ∃ conn blocking, blockingBroker net nodeId s = .ok { conn, nodeId } { s with blocking } ∧
      Handed live (poolOf s nodeId).idle.getLast? conn := by
  cases hidle : (poolOf s nodeId).idle.getLast? with
  | some conn => exact ⟨conn, _, blockingBroker_idle hidle, .inl rfl⟩
  | none =>
      obtain ⟨info, hinfo⟩ := hknown
      obtain ⟨conn, hdial⟩ := h.dialed info (hright.brokers nodeId info hinfo)
      exact ⟨conn, _, blockingBroker_dialed hidle hinfo hdial, .inr ⟨rfl, h.fresh _ conn hdial⟩⟩

/-- A lease of a connection to a partition's leader. -/
theorem blockingPartitionLeader_serves (h : Serves config w live net) (hright : RoutingRight w s)
    (hleads : w.leader topic partition = some nodeId) :
    ∃ lease t, blockingPartitionLeader config net topic partition s = .ok lease t ∧
      lease.nodeId = nodeId ∧ RoutingRight w t ∧ t.leaderId topic partition = some nodeId ∧
      Handed live (poolOf s nodeId).idle.getLast? lease.conn := by
  obtain ⟨t, hleader, hright', hknown, _, hblocking⟩ := leaderOf_serves h hright hleads
  obtain ⟨conn, blocking, hlease, hlive⟩ :=
    blockingBroker_serves h hright' (hright'.leader topic partition nodeId hknown).2
  refine ⟨_, _, (blockingPartitionLeader_ok hleader).trans hlease, rfl,
    hright'.congr ⟨rfl, rfl, rfl, rfl⟩, hknown, ?_⟩
  unfold poolOf at hlive ⊢
  rw [hblocking] at hlive
  exact hlive

/-- What FindCoordinator answers keeps the routing right. -/
theorem RoutingRight.discovered (hright : RoutingRight w s) :
    RoutingRight w (discovered kind key (w.coordinator kind key) s) := by
  have hkept : ∀ nodeId, Known s nodeId →
      Known (Cluster.discovered kind key (w.coordinator kind key) s) nodeId := by
    rintro nodeId ⟨info, hinfo⟩
    by_cases heq : nodeId = (w.coordinator kind key).nodeId
    · exact ⟨_, by rw [heq]; exact AList.lookup_insert _⟩
    · exact ⟨info, (AList.lookup_insert_ne heq).trans hinfo⟩
  refine ⟨?_, ?_, ?_, ?_⟩
  · intro nodeId info hlookup
    rcases lookup_insert_cases hlookup with ⟨_, rfl⟩ | ⟨_, hlookup⟩
    · exact w.coordinator_listed kind key
    · exact hright.brokers nodeId info hlookup
  · intro topic partition nodeId hleader
    obtain ⟨hleads, hknown⟩ := hright.leader topic partition nodeId hleader
    exact ⟨hleads, hkept nodeId hknown⟩
  · intro kind' key' nodeId hlookup
    rcases lookup_insert_cases hlookup with ⟨heq, rfl⟩ | ⟨_, hlookup⟩
    · obtain ⟨rfl, rfl⟩ := Prod.mk.inj heq
      exact ⟨rfl, _, AList.lookup_insert _⟩
    · obtain ⟨heq, hknown⟩ := hright.coordinator kind' key' nodeId hlookup
      exact ⟨heq, hkept nodeId hknown⟩
  · intro nodeId hcontroller
    obtain ⟨heq, hknown⟩ := hright.controller nodeId hcontroller
    exact ⟨heq, hkept nodeId hknown⟩

/-- Discovery fails over. -/
theorem coordinatorNode_serves (h : Serves config w live net) (hright : RoutingRight w s)
    (kind : CoordinatorKind) (key : String) :
    ∃ t, coordinatorNode config net kind key s = .ok (w.coordinator kind key).nodeId t ∧
      RoutingRight w t ∧ t.coordinators.lookup (kind, key) = some (w.coordinator kind key).nodeId ∧
      t.conns = s.conns ∧ t.blocking = s.blocking := by
  cases hcached : s.coordinators.lookup (kind, key) with
  | some nodeId =>
      obtain ⟨rfl, _⟩ := hright.coordinator kind key nodeId hcached
      exact ⟨s, coordinatorNode_known hcached, hright, hcached, rfl, rfl⟩
  | none =>
      obtain ⟨conn, hcontrol, _⟩ := @controlBroker_serves config w live net s h
      have hright' : ∀ control, RoutingRight w { s with control } := fun _ =>
        hright.congr ⟨rfl, rfl, rfl, rfl⟩
      by_cases hlive : live conn
      · exact ⟨_, coordinatorNode_found hcached hcontrol (h.findCoordinator conn kind key hlive),
          (hright' _).discovered, AList.lookup_insert _, rfl, rfl⟩
      · obtain ⟨e, hdead, hfailure⟩ := h.lostCoordinator conn kind key hlive
        obtain ⟨conn', hlive', hcontrol'⟩ := controlBroker_redials h
          (show ({ s with control := some conn } : ClusterState).forgetControl.control = none
            from rfl)
        exact ⟨_, coordinatorNode_failsOver hcached hcontrol hdead hfailure hcontrol'
            (h.findCoordinator conn' kind key hlive'),
          (hright' _).discovered, AList.lookup_insert _, rfl, rfl⟩

/-- The connection to a coordinator: the cached one, or a live one. -/
theorem coordinatorOf_serves (h : Serves config w live net) (hright : RoutingRight w s)
    (kind : CoordinatorKind) (key : String) :
    ∃ conn t, coordinatorOf config net kind key s = .ok conn t ∧ RoutingRight w t ∧
      t.coordinators.lookup (kind, key) = some (w.coordinator kind key).nodeId ∧
      t.conns.lookup (w.coordinator kind key).nodeId = some conn ∧ t.blocking = s.blocking ∧
      Handed live (s.conns.lookup (w.coordinator kind key).nodeId) conn := by
  obtain ⟨t, hnode, hright', hknown, hconns, hblocking⟩ := coordinatorNode_serves h hright kind key
  obtain ⟨conn, conns, hbroker, hlookup, hlive⟩ :=
    broker_serves h hright' (hright'.coordinator kind key _ hknown).2
  rw [hconns] at hlive
  exact ⟨conn, _, (coordinatorOf_ok hnode).trans hbroker, hright'.congr ⟨rfl, rfl, rfl, rfl⟩,
    hknown, hlookup, hblocking, hlive⟩

/-- A lease of a connection to a group's coordinator. -/
theorem blockingCoordinator_serves (h : Serves config w live net) (hright : RoutingRight w s)
    (group : String) :
    ∃ lease t, blockingCoordinator config net group s = .ok lease t ∧ RoutingRight w t ∧
      t.coordinators.lookup (.group, group) = some (w.coordinator .group group).nodeId ∧
      Handed live (poolOf s (w.coordinator .group group).nodeId).idle.getLast? lease.conn := by
  obtain ⟨conn, t, hcoordinator, hright', hknown, _, hblocking, _⟩ :=
    coordinatorOf_serves h hright .group group
  obtain ⟨conn', blocking, hlease, hlive⟩ :=
    blockingBroker_serves h hright' (hright'.coordinator .group group _ hknown).2
  refine ⟨_, _, blockingCoordinator_ok hcoordinator hknown hlease,
    hright'.congr ⟨rfl, rfl, rfl, rfl⟩, hknown, ?_⟩
  unfold poolOf at hlive ⊢
  rw [hblocking] at hlive
  exact hlive

end Served

end Odradek.Client.Cluster
