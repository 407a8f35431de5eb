import Odradek.Client.ClusterOrder

/-!
Every operation that is tried again, over a cluster in order. An attempt that meets a
dead connection is a retry, and with most operations the connection is gone by the
next one; those that keep it fail as long as it is cached.
-/

namespace Odradek.Client.Cluster

section Attempts

variable {config : ClusterConfig} {w : World} {live : Link → Prop} {net : Network}
  {s t : ClusterState} {topic key group : String} {partition nodeId : Int32}
  {kind : CoordinatorKind} {request : ApiRequest}

/-- Where the next lease of a broker comes from is not a dead connection. -/
def IdleLive (live : Link → Prop) (s : ClusterState) (nodeId : Int32) : Prop :=
  ∀ conn, (poolOf s nodeId).idle.getLast? = some conn → live conn

theorem connLive_of_none (h : s.conns.lookup nodeId = none) : ConnLive live s nodeId := by
  intro conn hconn
  cases h.symm.trans hconn

theorem idleLive_of_nil (h : (poolOf s nodeId).idle = []) : IdleLive live s nodeId := by
  intro conn hconn
  rw [h] at hconn
  cases hconn

theorem sameRoutes_dropLease {lease : Lease} : SameRoutes s (dropLease lease s) := by
  unfold dropLease
  split <;> exact ⟨rfl, rfl, rfl, rfl⟩

theorem sameRoutes_release {lease : Lease} : SameRoutes s (release config lease s) := by
  obtain ⟨hbrokers, htopics, hcoordinators, hcontroller⟩ := @sameRoutes_dropLease
    { s with
      blocking := s.blocking.insert lease.nodeId
        (if (poolOf s lease.nodeId).idle.length <
            min (poolOf s lease.nodeId).peak config.blockingIdleMax then
          { poolOf s lease.nodeId with idle := (poolOf s lease.nodeId).idle ++ [lease.conn] }
        else poolOf s lease.nodeId) } lease
  exact ⟨hbrokers, htopics, hcoordinators, hcontroller⟩

theorem idle_dropLease {lease : Lease} :
    (poolOf (dropLease lease s) lease.nodeId).idle = (poolOf s lease.nodeId).idle := by
  unfold dropLease poolOf
  split
  next hnone => rw [hnone]
  next pool hpool =>
      dsimp only
      rw [AList.lookup_insert, hpool]
      rfl

theorem forgetCoordinator_known (h : s.coordinators.lookup (kind, key) = some nodeId) :
    s.forgetCoordinator kind key =
      ClusterState.forgetBroker { s with coordinators := s.coordinators.erase (kind, key) }
        nodeId := by
  unfold ClusterState.forgetCoordinator
  rw [h]

/-- An attempt gets through if the connections it is handed are live (`Ready`), and
drops them if they are not. -/
def Redialing (w : World) (Ready : ClusterState → Prop)
    (attempt : ClusterState → Attempt Unit × ClusterState) : Prop :=
  ∀ s, RoutingRight w s → (∃ t, attempt s = (.done (), t) ∧ RoutingRight w t) ∨
    (¬ Ready s ∧ ∃ e t, attempt s = (.retry e, t) ∧ RoutingRight w t ∧ Ready t)

/-- An attempt gets through if the connections it is handed are live, and keeps them
where they are not. -/
def Clinging (w : World) (Ready : ClusterState → Prop)
    (attempt : ClusterState → Attempt Unit × ClusterState) : Prop :=
  ∀ s, RoutingRight w s → (Ready s ∧ ∃ t, attempt s = (.done (), t)) ∨
    (¬ Ready s ∧ ∃ e t, attempt s = (.retry e, t) ∧ RoutingRight w t ∧ ¬ Ready t)

theorem produce_redialing (h : Serves config w live net)
    (hleads : w.leader topic partition = some nodeId) :
    Redialing w (ConnLive live · nodeId)
      ((Operation.produce topic partition).attempt config net) := by
  intro s hright
  obtain ⟨conn, t, hleader, hright', hknown, _, hhanded⟩ := partitionLeader_serves h hright hleads
  by_cases hready : ConnLive live s nodeId
  · have hanswer := h.answered conn (.produce topic partition) (hhanded.isLive hready)
    exact .inl ⟨t, settle_done (tryOnce_ok hleader hanswer), hright'⟩
  · obtain ⟨e, hlost, hfailure⟩ := h.lost conn (.produce topic partition) (hhanded.isDead hready).2
    refine .inr ⟨hready, e, _, settle_retry (tryOnce_lost hleader hknown hlost hfailure)
      (isRetriable_of_isControlFailure hfailure), ?_, connLive_of_none ?_⟩
    · exact (hright'.congr sameRoutes_forgetBroker).markPartitionStale
    · rw [brokers_markPartitionStale.2.1]
      exact lookup_conns_forgetBroker

theorem fetch_redialing (h : Serves config w live net)
    (hleads : w.leader topic partition = some nodeId) :
    Redialing w (IdleLive live · nodeId)
      ((Operation.fetch topic partition).attempt config net) := by
  intro s hright
  obtain ⟨lease, t, hlease, rfl, hright', hknown, hhanded⟩ :=
    blockingPartitionLeader_serves h hright hleads
  by_cases hready : IdleLive live s lease.nodeId
  · have hanswer := h.answered lease.conn (.fetch topic partition) (hhanded.isLive hready)
    exact .inl ⟨_, settle_done (fetchOnce_ok hlease hanswer), hright'.congr sameRoutes_release⟩
  · obtain ⟨e, hlost, hfailure⟩ :=
      h.lost lease.conn (.fetch topic partition) (hhanded.isDead hready).2
    refine .inr ⟨hready, e, _, settle_retry (fetchOnce_lost hlease hknown hlost hfailure)
      (isRetriable_of_isControlFailure hfailure), ?_, idleLive_of_nil ?_⟩
    · exact ((hright'.congr sameRoutes_forgetBroker).congr sameRoutes_dropLease).markPartitionStale
    · unfold poolOf
      rw [brokers_markPartitionStale.2.2.1]
      exact idle_dropLease.trans idle_forgetBroker

/-- `list_offset_once` reports a dead connection and leaves it where it is. -/
theorem listOffset_clinging (h : Serves config w live net)
    (hleads : w.leader topic partition = some nodeId) :
    Clinging w (ConnLive live · nodeId)
      ((Operation.listOffset topic partition).attempt config net) := by
  intro s hright
  obtain ⟨conn, t, hleader, hright', _, hlookup, hhanded⟩ := partitionLeader_serves h hright hleads
  by_cases hready : ConnLive live s nodeId
  · have hanswer := h.answered conn (.listOffsets topic partition) (hhanded.isLive hready)
    exact .inl ⟨hready, t, settle_done ((Routed.bind_ok hleader).trans (ask_ok hanswer))⟩
  · obtain ⟨_, hdead⟩ := hhanded.isDead hready
    obtain ⟨e, hlost, hfailure⟩ := h.lost conn (.listOffsets topic partition) hdead
    refine .inr ⟨hready, e, _, settle_retry ((Routed.bind_ok hleader).trans (ask_lost hlost))
      (isRetriable_of_isControlFailure hfailure), hright'.markPartitionStale, fun hlive => ?_⟩
    refine hdead (hlive conn ?_)
    rw [brokers_markPartitionStale.2.1]
    exact hlookup

/-- Every request of a coordinator that forgets it. -/
theorem askCoordinator_redialing (h : Serves config w live net) :
    Redialing w (ConnLive live · (w.coordinator kind key).nodeId)
      (settle (·.forgetCoordinator kind key) (askCoordinator config net kind key request)) := by
  intro s hright
  obtain ⟨conn, t, hcoordinator, hright', hknown, _, _, hhanded⟩ :=
    coordinatorOf_serves h hright kind key
  by_cases hready : ConnLive live s (w.coordinator kind key).nodeId
  · have hanswer := h.answered conn request (hhanded.isLive hready)
    exact .inl ⟨t, settle_done ((Routed.bind_ok hcoordinator).trans (ask_ok hanswer)), hright'⟩
  · obtain ⟨e, hlost, hfailure⟩ := h.lost conn request (hhanded.isDead hready).2
    refine .inr ⟨hready, e, _, settle_retry ((Routed.bind_ok hcoordinator).trans (ask_lost hlost))
      (isRetriable_of_isControlFailure hfailure), hright'.forgetCoordinator, connLive_of_none ?_⟩
    rw [forgetCoordinator_known hknown]
    exact lookup_conns_forgetBroker

/-- A round of a member comes through over live connections. -/
theorem joinAndSync_ok (h : Serves config w live net) (hright : RoutingRight w s) {conn : Link}
    (hlive : live conn) (again : Bool) (leads : Option (List String)) :
    ∃ t, joinAndSync config net conn group again leads s = .ok () t ∧ RoutingRight w t := by
  have hask : ∀ (request : ApiRequest) (s : ClusterState), ask net conn request s = .ok () s :=
    fun request _ => ask_ok (h.answered conn request hlive)
  have hagain : joinAgain net conn group again s = .ok () s := by
    cases again with
    | false => rfl
    | true => exact hask _ s
  have hled : ∃ t, refreshLed config net leads s = .ok () t ∧ RoutingRight w t := by
    cases leads with
    | none => exact ⟨s, rfl, hright⟩
    | some topics =>
        obtain ⟨t, hrefresh, ht⟩ := refreshMetadata_serves h hright topics
        exact ⟨t, hrefresh, ht.right⟩
  obtain ⟨t, hled, hright'⟩ := hled
  refine ⟨t, ?_, hright'⟩
  unfold joinAndSync
  refine (Routed.bind_ok (hask _ s)).trans ((Routed.bind_ok hagain).trans ?_)
  exact (Routed.bind_ok hled).trans (hask _ t)

theorem join_redialing (h : Serves config w live net) (again : Bool)
    (leads : Option (List String)) :
    Redialing w (IdleLive live · (w.coordinator .group group).nodeId)
      ((Operation.join group again leads).attempt config net) := by
  intro s hright
  show (∃ t, joinAttempt config net group again leads s = _ ∧ _) ∨
    (_ ∧ ∃ e t, joinAttempt config net group again leads s = _ ∧ _)
  obtain ⟨lease, t, hlease, hright', hknown, hhanded⟩ :=
    blockingCoordinator_serves h hright group
  unfold joinAttempt joinRoundOnce
  by_cases hready : IdleLive live s (w.coordinator .group group).nodeId
  · obtain ⟨u, hjoin, hright''⟩ :=
      @joinAndSync_ok config w live net t group h hright' lease.conn (hhanded.isLive hready) again
        leads
    rw [Routed.bind_ok hlease, Routed.bind_ok (Routed.tried_ok hjoin)]
    exact .inl ⟨_, rfl, hright''.congr sameRoutes_release⟩
  · obtain ⟨e, hlost, hfailure⟩ := h.lost lease.conn (.joinGroup group) (hhanded.isDead hready).2
    have hjoin : joinAndSync config net lease.conn group again leads t = .error e t :=
      Routed.bind_error (ask_lost hlost)
    rw [Routed.bind_ok hlease, Routed.bind_ok (Routed.tried_error hjoin)]
    refine .inr ⟨hready, e, (dropLease lease t).forgetCoordinator .group group, ?_, ?_, ?_⟩
    · exact if_pos (isRetriable_of_isControlFailure hfailure)
    · exact (hright'.congr sameRoutes_dropLease).forgetCoordinator
    · have hknown' : (dropLease lease t).coordinators.lookup (.group, group) =
          some (w.coordinator .group group).nodeId := by
        rw [sameRoutes_dropLease.coordinators]
        exact hknown
      rw [forgetCoordinator_known hknown']
      exact idleLive_of_nil idle_forgetBroker

theorem consumerGroupHeartbeat_redialing (h : Serves config w live net)
    (resolves : Option (List String)) :
    Redialing w (ConnLive live · (w.coordinator .group group).nodeId)
      ((Operation.consumerGroupHeartbeat group resolves).attempt config net) := by
  intro s hright
  show (∃ t, consumerGroupHeartbeatAttempt config net group resolves s = _ ∧ _) ∨
    (_ ∧ ∃ e t, consumerGroupHeartbeatAttempt config net group resolves s = _ ∧ _)
  unfold consumerGroupHeartbeatAttempt orForgetCoordinator
  rcases @askCoordinator_redialing config w live net group .group (.consumerGroupHeartbeat group)
    h s hright with ⟨t, hdone, hright'⟩ | ⟨hready, e, t, hretry, hrest⟩
  · rw [hdone]
    cases resolves with
    | none => exact .inl ⟨t, rfl, hright'⟩
    | some topics =>
        obtain ⟨u, hrefresh, hu⟩ := refreshMetadata_serves h hright' topics
        refine .inl ⟨u, ?_, hu.right⟩
        dsimp only
        rw [hrefresh]
  · rw [hretry]
    exact .inr ⟨hready, e, t, rfl, hrest⟩

/-- `init_producer_id` asks the same control connection again. -/
theorem initProducerId_clinging (h : Serves config w live net) :
    Clinging w (ControlLive live) ((Operation.initProducerId none).attempt config net) := by
  intro s hright
  obtain ⟨conn, hcontrol, hhanded⟩ := @controlBroker_serves config w live net s h
  by_cases hready : ControlLive live s
  · have hanswer := h.answered conn (.initProducerId none) (hhanded.isLive hready)
    exact .inl ⟨hready, _, settle_done ((Routed.bind_ok hcontrol).trans (ask_ok hanswer))⟩
  · obtain ⟨_, hdead⟩ := hhanded.isDead hready
    obtain ⟨e, hlost, hfailure⟩ := h.lost conn (.initProducerId none) hdead
    exact .inr ⟨hready, e, _, settle_retry ((Routed.bind_ok hcontrol).trans (ask_lost hlost))
      (isRetriable_of_isControlFailure hfailure), hright.congr ⟨rfl, rfl, rfl, rfl⟩,
      fun hlive => hdead (hlive conn rfl)⟩

/-- And the same coordinator over the same connection. -/
theorem initTransactions_clinging (h : Serves config w live net) (id : String) :
    Clinging w (ConnLive live · (w.coordinator .transaction id).nodeId)
      ((Operation.initProducerId (some id)).attempt config net) := by
  intro s hright
  obtain ⟨conn, t, hcoordinator, hright', _, hlookup, _, hhanded⟩ :=
    coordinatorOf_serves h hright .transaction id
  by_cases hready : ConnLive live s (w.coordinator .transaction id).nodeId
  · have hanswer := h.answered conn (.initProducerId (some id)) (hhanded.isLive hready)
    exact .inl ⟨hready, t, settle_done ((Routed.bind_ok hcoordinator).trans (ask_ok hanswer))⟩
  · obtain ⟨_, hdead⟩ := hhanded.isDead hready
    obtain ⟨e, hlost, hfailure⟩ := h.lost conn (.initProducerId (some id)) hdead
    exact .inr ⟨hready, e, t, settle_retry ((Routed.bind_ok hcoordinator).trans (ask_lost hlost))
      (isRetriable_of_isControlFailure hfailure), hright', fun hlive => hdead (hlive conn hlookup)⟩

end Attempts

section Topics

variable {config : ClusterConfig} {w : World} {live : Link → Prop} {net : Network}
  {s t : ClusterState} {via : Link → ClusterM Unit} {topic : String} {topics : List String}

/-- The controller's connection: its cached one, or the control connection where no
controller is known. -/
theorem controller_serves (h : Serves config w live net) (hright : RoutingRight w s) :
    ∃ conn t, controller config net s = .ok conn t ∧ RoutingRight w t ∧
      (s.controller = none → Handed live s.control conn ∧ t.conns = s.conns) ∧
      (s.controller ≠ none → Handed live (s.conns.lookup w.controllerId) conn ∧
        t.conns.lookup w.controllerId = some conn) := by
  cases hcontroller : s.controller with
  | none =>
      obtain ⟨conn, hcontrol, hhanded⟩ := @controlBroker_serves config w live net s h
      exact ⟨conn, _, controller_unknown hcontroller hcontrol, hright.congr ⟨rfl, rfl, rfl, rfl⟩,
        fun _ => ⟨hhanded, rfl⟩, fun hne => absurd rfl hne⟩
  | some nodeId =>
      obtain ⟨rfl, hknown⟩ := hright.controller nodeId hcontroller
      obtain ⟨conn, conns, hbroker, hlookup, hhanded⟩ := broker_serves h hright hknown
      exact ⟨conn, _, controller_known hcontroller hbroker, hright.congr ⟨rfl, rfl, rfl, rfl⟩,
        fun hnone => (by cases hnone), fun _ => ⟨hhanded, hlookup⟩⟩

/-- A rediscovery ends at the connection cached for the controller, where there is one. -/
theorem rediscoverController_serves (h : Serves config w live net) (hright : RoutingRight w s) :
    ∃ conn t, rediscoverController config net s = .ok conn t ∧ RoutingRight w t ∧
      Handed live (s.conns.lookup w.controllerId) conn := by
  have hforgotten : RoutingRight w (ClusterState.forgetControl { s with controller := none }) :=
    ⟨hright.brokers, hright.leader, hright.coordinator, fun _ hnone => by cases hnone⟩
  obtain ⟨t, hrefresh, ht⟩ := refreshMetadata_serves h hforgotten []
  obtain ⟨conn, u, hcontroller, hright', _, hhanded⟩ := controller_serves h ht.right
  have hsome : t.controller ≠ none := by
    rw [ht.controller]
    exact Option.some_ne_none _
  refine ⟨conn, u, ?_, hright', ?_⟩
  · unfold rediscoverController
    exact (Routed.bind_ok (Routed.modify_apply _)).trans
      ((Routed.bind_ok hrefresh).trans hcontroller)
  · rw [← show t.conns = s.conns from ht.conns]
    exact (hhanded hsome).1

/-- A request of the controller: it gets through over a live connection only. -/
structure Via (w : World) (live : Link → Prop) (via : Link → ClusterM Unit) : Prop where
  ok : ∀ conn s, live conn → RoutingRight w s → ∃ t, via conn s = .ok () t
  lost : ∀ conn s, ¬ live conn → ∃ e, via conn s = .error e s ∧ isControlFailure e = true

theorem createTopic_via (h : Serves config w live net) :
    Via w live fun conn => ask net conn (.createTopics topic) :=
  ⟨fun conn s hlive _ => ⟨s, ask_ok (h.answered conn _ hlive)⟩, fun conn s hdead => by
    obtain ⟨e, hlost, hfailure⟩ := h.lost conn (.createTopics topic) hdead
    exact ⟨e, ask_lost hlost, hfailure⟩⟩

theorem deleteTopics_via (h : Serves config w live net) :
    Via w live (deleteTopicsVia config net topics) := by
  refine ⟨fun conn s hlive hright => ?_, fun conn s hdead => ?_⟩
  · have hask : ask net conn (.deleteTopics topics) s = .ok () s := ask_ok (h.answered conn _ hlive)
    obtain ⟨t, hrefresh, _⟩ := refreshMetadata_serves h hright topics
    exact ⟨t, (Routed.bind_ok hask).trans ((Routed.bind_ok (Routed.tried_ok hrefresh)).trans rfl)⟩
  · obtain ⟨e, hlost, hfailure⟩ := h.lost conn (.deleteTopics topics) hdead
    exact ⟨e, Routed.bind_error (ask_lost hlost), hfailure⟩

theorem redirecting_ok {conn : Link} {u : ClusterState}
    (hcontroller : controller config net s = .ok conn t) (hvia : via conn t = .ok () u) :
    redirecting config net via s = .ok () u := by
  unfold redirecting
  exact (Routed.bind_ok hcontroller).trans ((Routed.bind_ok (Routed.tried_ok hvia)).trans rfl)

theorem redirecting_again {conn conn' : Link} {u : ClusterState} {e : ClientError}
    (hcontroller : controller config net s = .ok conn t) (hvia : via conn t = .error e t)
    (hfailure : isControlFailure e = true)
    (hagain : rediscoverController config net t = .ok conn' u) :
    redirecting config net via s = via conn' u := by
  unfold redirecting
  refine (Routed.bind_ok hcontroller).trans
    ((Routed.bind_ok (Routed.tried_error hvia)).trans ?_)
  dsimp only
  rw [if_pos (show isControlRedirect e = true by
    unfold isControlRedirect
    rw [hfailure, Bool.true_or])]
  exact Routed.bind_ok hagain

/-- A redirect drops the control connection, not the controller's. -/
theorem redirecting_serves (h : Serves config w live net) (hright : RoutingRight w s)
    (hvia : Via w live via) :
    ((∃ t, redirecting config net via s = .ok () t) ∧
        (ConnLive live s w.controllerId ∨ (s.controller = none ∧ ControlLive live s))) ∨
      ((∃ e t, redirecting config net via s = .error e t) ∧
        ¬ (ConnLive live s w.controllerId ∨ (s.controller = none ∧ ControlLive live s))) := by
  obtain ⟨conn, t, hcontroller, hright', hunknown, hknown⟩ := controller_serves h hright
  obtain ⟨conn', u, hagain, hright'', hhanded'⟩ := rediscoverController_serves h hright'
  by_cases hlive : live conn
  · obtain ⟨v, hok⟩ := hvia.ok conn t hlive hright'
    refine .inl ⟨⟨v, redirecting_ok hcontroller hok⟩, ?_⟩
    by_cases hnone : s.controller = none
    · obtain ⟨hhanded, _⟩ := hunknown hnone
      refine .inr ⟨hnone, fun other hother => ?_⟩
      rcases hhanded with hconn | ⟨hcontrol, _⟩
      · cases hconn.symm.trans hother
        exact hlive
      · cases hcontrol.symm.trans hother
    · obtain ⟨hhanded, _⟩ := hknown hnone
      refine .inl fun other hother => ?_
      rcases hhanded with hconn | ⟨hcached, _⟩
      · cases hconn.symm.trans hother
        exact hlive
      · cases hcached.symm.trans hother
  · obtain ⟨e, hlost, hfailure⟩ := hvia.lost conn t hlive
    have hredirected := redirecting_again hcontroller hlost hfailure hagain
    rw [hredirected]
    have hcontrol : ¬ (s.controller = none ∧ ControlLive live s) := by
      rintro ⟨hnone, hcontrol⟩
      exact hlive ((hunknown hnone).1.isLive hcontrol)
    by_cases hlive' : live conn'
    · obtain ⟨v, hok⟩ := hvia.ok conn' u hlive' hright''
      refine .inl ⟨⟨v, hok⟩, .inl fun other hother => ?_⟩
      by_cases hnone : s.controller = none
      · rw [← (hunknown hnone).2] at hother
        rcases hhanded' with hconn | ⟨hcached, _⟩
        · cases hconn.symm.trans hother
          exact hlive'
        · cases hcached.symm.trans hother
      · obtain ⟨hhanded, hlookup⟩ := hknown hnone
        rcases hhanded' with hconn | ⟨hcached, _⟩
        · cases hlookup.symm.trans hconn
          exact absurd hlive' hlive
        · cases hlookup.symm.trans hcached
    · obtain ⟨e', hlost', _⟩ := hvia.lost conn' u hlive'
      refine .inr ⟨⟨e', u, hlost'⟩, not_or.mpr ⟨fun hconns => ?_, hcontrol⟩⟩
      by_cases hnone : s.controller = none
      · rw [(hunknown hnone).2] at hhanded'
        exact hlive' (hhanded'.isLive hconns)
      · exact hlive ((hknown hnone).1.isLive hconns)

end Topics

section Runs

variable {config : ClusterConfig} {w : World} {live : Link → Prop} {nets : Nat → Network}
  {s : ClusterState} {Ready : ClusterState → Prop} {maxAttempts : Nat}

theorem run_redialing (op : Operation) (hattempts : 2 ≤ op.attempts maxAttempts)
    (hright : RoutingRight w s)
    (hop : ∀ i, Redialing w Ready (op.attempt config (nets i))) :
    (op.run config maxAttempts nets s).1.isOk = true := by
  unfold Operation.run
  rcases hop 0 s hright with ⟨t, hdone, _⟩ | ⟨_, e, t, hretry, hright', hready⟩
  · rw [retryOver_done (Nat.le_of_succ_le hattempts) hdone]
    rfl
  · obtain ⟨n, hn⟩ := Nat.exists_eq_add_of_le' hattempts
    rw [hn, retryOver_retry hretry]
    rcases hop 1 t hright' with ⟨u, hdone, _⟩ | ⟨hnot, _⟩
    · rw [retryOver_done (Nat.succ_le_succ (Nat.zero_le n)) hdone]
      rfl
    · exact absurd hready hnot

theorem run_clinging (op : Operation) (hattempts : 1 ≤ op.attempts maxAttempts)
    (hright : RoutingRight w s)
    (hop : ∀ i, Clinging w Ready (op.attempt config (nets i))) :
    (op.run config maxAttempts nets s).1.isOk = true ↔ Ready s := by
  unfold Operation.run
  rcases hop 0 s hright with ⟨hready, t, hdone⟩ | ⟨hnot, _⟩
  · rw [retryOver_done hattempts hdone]
    exact ⟨fun _ => hready, fun _ => rfl⟩
  · obtain ⟨e, t, hexhausted, _⟩ := @retryOver_exhausted _ _ _
      (fun net s => op.attempt config net s) (op.attempts maxAttempts) none nets s
      (fun s => RoutingRight w s ∧ ¬ Ready s) ⟨hright, hnot⟩ (by
        rintro i s ⟨hright, hnot⟩
        rcases hop i s hright with ⟨hready, _⟩ | ⟨_, e, t, hretry, hright', hnot'⟩
        · exact absurd hready hnot
        · exact ⟨e, t, hretry, hright', hnot'⟩)
    rw [hexhausted]
    exact ⟨fun hfalse => (by cases hfalse), fun hready => absurd hready hnot⟩

/-- An operation with a single attempt. -/
theorem run_once (op : Operation) (hattempts : op.attempts maxAttempts = 1) {once : ClusterM Unit}
    (hattempt : op.attempt config (nets 0) s = settle id once s) :
    (op.run config maxAttempts nets s).1.isOk = true ↔ ∃ t, once s = .ok () t := by
  unfold Operation.run
  rw [hattempts]
  cases honce : once s with
  | ok _ t =>
      rw [retryOver_done (Nat.le_refl 1) (hattempt.trans (settle_done honce))]
      exact ⟨fun _ => ⟨t, rfl⟩, fun _ => rfl⟩
  | error e t =>
      refine ⟨fun hok => ?_, fun ⟨_, herror⟩ => by cases herror⟩
      cases hretriable : e.isRetriable with
      | true =>
          rw [retryOver_retry (hattempt.trans (settle_retry honce hretriable))] at hok
          cases hok
      | false =>
          rw [retryOver_fatal (Nat.le_refl 1) (hattempt.trans (settle_fatal honce hretriable))]
            at hok
          cases hok

theorem run_redirecting (op : Operation) (hattempts : op.attempts maxAttempts = 1)
    {via : Link → ClusterM Unit} (h : Serves config w live (nets 0)) (hright : RoutingRight w s)
    (hvia : Via w live via)
    (hattempt : op.attempt config (nets 0) s = settle id (redirecting config (nets 0) via) s) :
    (op.run config maxAttempts nets s).1.isOk = true ↔
      ConnLive live s w.controllerId ∨ (s.controller = none ∧ ControlLive live s) := by
  refine (run_once op hattempts hattempt).trans ?_
  rcases redirecting_serves h hright hvia with ⟨hok, hlively⟩ | ⟨⟨e, t, herror⟩, hnot⟩
  · exact ⟨fun _ => hlively, fun _ => hok⟩
  · refine ⟨fun ⟨u, hok⟩ => ?_, fun hlively => absurd hlively hnot⟩
    cases herror.symm.trans hok

/-- An operation over a cluster in order returns Ok exactly where the connections are
alive that it does not drop. -/
theorem redials_iff (config : ClusterConfig) (w : World) (live : Link → Prop)
    (nets : Nat → Network) (op : Operation) (maxAttempts : Nat) (s : ClusterState)
    (hattempts : 2 ≤ maxAttempts) (h : ∀ i, Serves config w live (nets i))
    (hright : RoutingRight w s) (hexists : op.Exists w) :
    (op.run config maxAttempts nets s).1.isOk = true ↔ op.Lively w live s := by
  have hall : ∀ {Ready : ClusterState → Prop}, op.attempts maxAttempts = maxAttempts →
      (∀ i, Redialing w Ready (op.attempt config (nets i))) → op.Lively w live s →
        ((op.run config maxAttempts nets s).1.isOk = true ↔ op.Lively w live s) := by
    intro Ready hsame hop hlively
    exact ⟨fun _ => hlively, fun _ =>
      run_redialing op (Nat.le_trans hattempts (Nat.le_of_eq hsame.symm)) hright hop⟩
  have hone : 1 ≤ maxAttempts := Nat.le_of_succ_le hattempts
  cases op with
  | produce topic partition =>
      obtain ⟨nodeId, hleads⟩ := hexists
      exact hall rfl (fun i => produce_redialing (h i) hleads) trivial
  | fetch topic partition =>
      obtain ⟨nodeId, hleads⟩ := hexists
      exact hall rfl (fun i => fetch_redialing (h i) hleads) trivial
  | listOffset topic partition =>
      obtain ⟨nodeId, hleads⟩ := hexists
      refine (run_clinging (.listOffset topic partition) hone hright
        fun i => listOffset_clinging (h i) hleads).trans ⟨fun hlive other hother => ?_, fun hall =>
          hall nodeId hleads⟩
      cases hleads.symm.trans hother
      exact hlive
  | commitOffset group topic partition =>
      exact hall rfl (fun i => askCoordinator_redialing (h i)) trivial
  | committedOffset group topic partition =>
      exact hall rfl (fun i => askCoordinator_redialing (h i)) trivial
  | initProducerId transactionalId =>
      cases transactionalId with
      | none =>
          exact run_clinging (.initProducerId none) hone hright
            fun i => initProducerId_clinging (h i)
      | some id =>
          exact run_clinging (.initProducerId (some id)) hone hright
            fun i => initTransactions_clinging (h i) id
  | addPartitions id => exact hall rfl (fun i => askCoordinator_redialing (h i)) trivial
  | addOffsets id group => exact hall rfl (fun i => askCoordinator_redialing (h i)) trivial
  | txnOffsetCommit group => exact hall rfl (fun i => askCoordinator_redialing (h i)) trivial
  | endTxn id committed => exact hall rfl (fun i => askCoordinator_redialing (h i)) trivial
  | join group again leads =>
      exact hall rfl (fun i => join_redialing (h i) again leads) trivial
  | heartbeat group => exact hall rfl (fun i => askCoordinator_redialing (h i)) trivial
  | consumerGroupHeartbeat group resolves =>
      exact hall rfl (fun i => consumerGroupHeartbeat_redialing (h i) resolves) trivial
  | createTopic topic =>
      exact run_redirecting (.createTopic topic) rfl (h 0) hright (createTopic_via (h 0)) rfl
  | deleteTopics topics =>
      exact run_redirecting (.deleteTopics topics) rfl (h 0) hright (deleteTopics_via (h 0)) rfl

end Runs

section Once

def onlyBroker : BrokerInfo := { nodeId := 1, host := "b", port := 9092 }

def onlyWorld : World :=
  { brokers := [onlyBroker]
    leader := fun _ partition => if partition = 0 then some 1 else none
    coordinator := fun _ _ => onlyBroker
    controllerId := 1
    leader_listed := by
      intro _ _ nodeId h
      obtain ⟨_, heq⟩ := Option.ite_none_right_eq_some.mp h
      cases heq
      exact ⟨by decide, onlyBroker, List.mem_singleton_self _, rfl⟩
    coordinator_listed := fun _ _ => List.mem_singleton_self _
    controller_listed := ⟨by decide, onlyBroker, List.mem_singleton_self _, rfl⟩ }

def ifLive {α : Type} (conn : Link) (answer : α) : Except ClientError α :=
  if conn.id = 0 then .error .connectionClosed else .ok answer

/-- Connection 0 is dead, and everything else is in order. -/
def zeroDead : Network :=
  { dial := fun _ => .ok { id := 1 }
    metadata := fun conn topics => ifLive conn
      { brokers := [onlyBroker]
        controllerId := 1
        topics := topics.map fun topic =>
          { name := some topic
            errorCode := ⟨0⟩
            partitions := [{ index := 0, leaderId := 1, error := ⟨0⟩ }] } }
    findCoordinator := fun conn _ _ => ifLive conn { errorCode := ⟨0⟩, info := onlyBroker }
    request := fun conn _ => ifLive conn (.ok ()) }

def notZero (conn : Link) : Prop := conn.id ≠ 0

def oneServerConfig : ClusterConfig := { bootstrapServers := ["b:9092"], blockingIdleMax := 8 }

theorem refreshedTopics_map (topics : List String) (partitions : List PartitionInfo) :
    refreshedTopics (topics.map fun topic =>
      { name := some topic, errorCode := ⟨0⟩, partitions }) =
        .ok (topics.map fun topic => (topic, partitions)) := by
  induction topics with
  | nil => rfl
  | cons topic topics ih =>
      rw [List.map_cons, refreshedTopics, ih]
      rfl

theorem zeroDead_serves : Serves oneServerConfig onlyWorld notZero zeroDead := by
  refine ⟨fun _ _ => ⟨_, rfl⟩, ⟨_, List.mem_singleton_self _, _, rfl⟩, ?_, ?_,
    fun _ _ _ hlive => if_neg hlive, fun _ _ hlive => if_neg hlive, ?_, ?_, ?_⟩
  · rintro addr conn h
    cases h
    exact Nat.one_ne_zero
  · intro conn topics hlive
    refine ⟨_, if_neg hlive, rfl, rfl, ?_, ⟨_, refreshedTopics_map _ _⟩, ?_⟩
    · intro refreshed hrefreshed topic partitions partition info hmem hfind _
      cases (refreshedTopics_map _ _).symm.trans hrefreshed
      obtain ⟨_, _, heq⟩ := List.mem_map.mp hmem
      obtain ⟨_, rfl⟩ := Prod.mk.inj heq
      have hindex := List.find?_some hfind
      obtain rfl := List.mem_singleton.mp (List.mem_of_find?_eq_some hfind)
      exact if_pos (of_decide_eq_true hindex).symm
    · intro topic hmem partition nodeId hleads
      obtain ⟨rfl, heq⟩ := Option.ite_none_right_eq_some.mp hleads
      cases heq
      refine ⟨_, _, _, refreshedTopics_map _ _, List.mem_map_of_mem hmem, ?_, rfl, rfl⟩
      intro other hother
      obtain ⟨_, _, heq⟩ := List.mem_map.mp hother
      exact (congrArg Prod.snd heq).symm
  · exact fun conn _ hdead => ⟨_, if_pos (not_not.mp hdead), rfl⟩
  · exact fun conn _ _ hdead => ⟨_, if_pos (not_not.mp hdead), rfl⟩
  · exact fun conn _ hdead => ⟨_, if_pos (not_not.mp hdead), rfl⟩

/-- A handle with one dead connection, to the broker that leads. -/
def leaderDead : ClusterState :=
  { control := some { id := 1 }
    brokers := (∅ : Cache Int32 BrokerInfo).insert 1 onlyBroker
    topics := ∅
    conns := (∅ : Cache Int32 Link).insert 1 { id := 0 }
    blocking := ∅
    controller := none
    coordinators := ∅ }

theorem leaderDead_right : RoutingRight onlyWorld leaderDead := by
  refine ⟨?_, ?_, ?_, ?_⟩
  · intro nodeId info hlookup
    rcases Library.lookup_insert_cases hlookup with ⟨_, rfl⟩ | ⟨_, hnone⟩
    · exact List.mem_singleton_self _
    · cases hnone
  · intro topic partition nodeId hleader
    cases hleader
  · intro kind key nodeId hlookup
    cases hlookup
  · intro nodeId hcontroller
    cases hcontroller

/-- A delivery over a dead connection redials. -/
theorem redials_once : ((Operation.produce "t" 0).run oneServerConfig 2 (fun _ => zeroDead)
    leaderDead).1.isOk = true :=
  (redials_iff oneServerConfig onlyWorld notZero (fun _ => zeroDead) (.produce "t" 0) 2 leaderDead
    (Nat.le_refl 2) (fun _ => zeroDead_serves) leaderDead_right ⟨1, rfl⟩).mpr trivial

/-- An offset listing over one fails on a healthy cluster, however often it is tried. -/
theorem not_redials : ¬ ∀ (config : ClusterConfig) (w : World) (live : Link → Prop)
    (nets : Nat → Network) (op : Operation) (maxAttempts : Nat) (s : ClusterState),
    2 ≤ maxAttempts → (∀ i, Serves config w live (nets i)) → RoutingRight w s → op.Exists w →
      (op.run config maxAttempts nets s).1.isOk = true := by
  intro h
  have hok := h oneServerConfig onlyWorld notZero (fun _ => zeroDead) (.listOffset "t" 0) 20
    leaderDead (by decide) (fun _ => zeroDead_serves) leaderDead_right ⟨1, rfl⟩
  have hlive := (run_clinging (.listOffset "t" 0) (show 1 ≤ 20 by decide) leaderDead_right
    fun _ => listOffset_clinging zeroDead_serves (show onlyWorld.leader "t" 0 = some 1 from rfl)).mp
      hok
  exact hlive { id := 0 } (AList.lookup_insert _) rfl

end Once

end Odradek.Client.Cluster
