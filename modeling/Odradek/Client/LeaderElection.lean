import Odradek.Client.ClusterRules

/-!
A partition that is without a leader for a while, under a delivery and a fetch. A
metadata answer that reports none is an `UnknownLeader`, which is not tried again.
-/

namespace Odradek.Client.Cluster

section Election

/-- Metadata reports `topic[partition]` without a leader during `k` rounds, and led by
`nodeId`, which can be reached, from then on. -/
structure Elects (topic : String) (partition nodeId : Int32) (k : Nat) (nets : Nat → Network) :
    Prop where
  node : 0 ≤ nodeId
  dialed : ∀ i addr, ∃ conn, (nets i).dial addr = .ok conn
  metadata : ∀ i conn, ∃ response, (nets i).metadata conn [topic] = .ok response ∧
    Reports response topic partition (if i < k then -1 else nodeId) ∧
    (k ≤ i → ∃ info ∈ response.brokers, info.nodeId = nodeId)
  answered : ∀ i conn request, k ≤ i → (nets i).request conn request = .ok (.ok ())

variable {config : ClusterConfig} {topic : String} {partition nodeId : Int32} {k attempts : Nat}
  {nets : Nat → Network} {s : ClusterState}

theorem Elects.controlled (h : Elects topic partition nodeId k nets)
    (hservers : config.bootstrapServers ≠ []) :
    ∃ conn t, controlBroker config (nets 0) s = .ok conn t ∧ t.conns = s.conns := by
  cases hcontrol : s.control with
  | some conn => exact ⟨conn, s, controlBroker_cached hcontrol, rfl⟩
  | none =>
      obtain ⟨addr, hserver⟩ := List.exists_mem_of_ne_nil _ hservers
      obtain ⟨conn, hdial⟩ := h.dialed 0 addr
      obtain ⟨conn, _, _, hbroker⟩ := controlBroker_dialed hcontrol (.inl hserver) hdial
      exact ⟨conn, _, hbroker, rfl⟩

/-- The refresh of the first round. -/
theorem Elects.refreshed (h : Elects topic partition nodeId k nets)
    (hservers : config.bootstrapServers ≠ []) (hleader : s.leaderId topic partition = none) :
    ∃ t, leaderOf config (nets 0) topic partition s =
      (if 0 < k then .error (.unknownLeader topic partition) t else .ok nodeId t) ∧
        (k = 0 → ∃ info, t.brokers.lookup nodeId = some info) := by
  obtain ⟨conn, t, hcontrol, _⟩ := h.controlled (s := s) hservers
  obtain ⟨response, hanswer, hreports, hlisted⟩ := h.metadata 0 conn
  obtain ⟨refreshed, htopics, hleader'⟩ := hreports.learned (s := t)
  refine ⟨learned response refreshed t, ?_, ?_⟩
  · rw [leaderOf_refreshed hleader (refreshMetadata_ok hcontrol hanswer htopics), hleader']
    by_cases hk : 0 < k
    · rw [if_pos hk, if_pos hk]
      rfl
    · rw [if_neg hk, if_neg hk, if_pos h.node]
  · intro hk
    obtain ⟨info, _, _, hinfo⟩ := lookup_brokers_learned (hlisted (Nat.le_of_eq hk))
    exact ⟨info, hinfo⟩

/-- An operation on a partition that fails with `UnknownLeader` in its first round. -/
theorem run_unknownLeader (op : Operation) {once : ClusterM Unit} {t : ClusterState}
    (hattempts : 1 ≤ op.attempts attempts)
    (hattempt : op.attempt config (nets 0) s = orMarkStale topic partition once s)
    (honce : once s = .error (.unknownLeader topic partition) t) :
    (op.run config attempts nets s).1.isOk = false := by
  unfold Operation.run
  rw [retryOver_fatal hattempts (hattempt.trans (settle_fatal honce rfl))]
  rfl

theorem run_found (op : Operation) {once : ClusterM Unit} {t : ClusterState}
    (hattempts : 1 ≤ op.attempts attempts)
    (hattempt : op.attempt config (nets 0) s = orMarkStale topic partition once s)
    (honce : once s = .ok () t) : (op.run config attempts nets s).1.isOk = true := by
  unfold Operation.run
  rw [retryOver_done hattempts (hattempt.trans (settle_done honce))]
  rfl

/-- A produce outlasts no election: it succeeds only where a leader is known. -/
theorem produce_elected_iff (h : Elects topic partition nodeId k nets)
    (hservers : config.bootstrapServers ≠ []) (hk : k < attempts)
    (hleader : s.leaderId topic partition = none) :
    ((Operation.produce topic partition).run config attempts nets s).1.isOk = true ↔ k = 0 := by
  obtain ⟨t, hleaderOf, hlisted⟩ := h.refreshed hservers hleader
  have hattempts : 1 ≤ attempts := Nat.lt_of_le_of_lt (Nat.zero_le k) hk
  by_cases hzero : 0 < k
  · rw [if_pos hzero] at hleaderOf
    rw [run_unknownLeader (.produce topic partition) hattempts rfl
      (tryOnce_error (partitionLeader_error hleaderOf))]
    exact ⟨fun hfalse => (by cases hfalse), fun hk => absurd hk (Nat.ne_of_gt hzero)⟩
  · rw [if_neg hzero] at hleaderOf
    have hk0 := Nat.eq_zero_of_not_pos hzero
    refine ⟨fun _ => hk0, fun _ => ?_⟩
    have hbroker : ∃ conn u, partitionLeader config (nets 0) topic partition s = .ok conn u := by
      rw [partitionLeader_ok hleaderOf]
      cases hcached : t.conns.lookup nodeId with
      | some conn => exact ⟨conn, t, broker_cached hcached⟩
      | none =>
          obtain ⟨info, hinfo⟩ := hlisted hk0
          obtain ⟨conn, hdial⟩ := h.dialed 0 info.addr
          exact ⟨conn, _, broker_dialed hcached hinfo hdial⟩
    obtain ⟨conn, u, hbroker⟩ := hbroker
    exact run_found (.produce topic partition) hattempts rfl
      (tryOnce_ok hbroker (h.answered 0 conn _ (Nat.le_of_eq hk0)))

/-- Nor does a fetch. -/
theorem fetch_elected_iff (h : Elects topic partition nodeId k nets)
    (hservers : config.bootstrapServers ≠ []) (hk : k < attempts)
    (hleader : s.leaderId topic partition = none) :
    ((Operation.fetch topic partition).run config attempts nets s).1.isOk = true ↔ k = 0 := by
  obtain ⟨t, hleaderOf, hlisted⟩ := h.refreshed hservers hleader
  have hattempts : 1 ≤ attempts := Nat.lt_of_le_of_lt (Nat.zero_le k) hk
  by_cases hzero : 0 < k
  · rw [if_pos hzero] at hleaderOf
    rw [run_unknownLeader (.fetch topic partition) hattempts rfl
      (fetchOnce_error (blockingPartitionLeader_error hleaderOf))]
    exact ⟨fun hfalse => (by cases hfalse), fun hk => absurd hk (Nat.ne_of_gt hzero)⟩
  · rw [if_neg hzero] at hleaderOf
    have hk0 := Nat.eq_zero_of_not_pos hzero
    refine ⟨fun _ => hk0, fun _ => ?_⟩
    have hlease : ∃ lease u,
        blockingPartitionLeader config (nets 0) topic partition s = .ok lease u := by
      rw [blockingPartitionLeader_ok hleaderOf]
      cases hidle : (poolOf t nodeId).idle.getLast? with
      | some conn => exact ⟨_, _, blockingBroker_idle hidle⟩
      | none =>
          obtain ⟨info, hinfo⟩ := hlisted hk0
          obtain ⟨conn, hdial⟩ := h.dialed 0 info.addr
          exact ⟨_, _, blockingBroker_dialed hidle hinfo hdial⟩
    obtain ⟨lease, u, hlease⟩ := hlease
    exact run_found (.fetch topic partition) hattempts rfl
      (fetchOnce_ok hlease (h.answered 0 lease.conn _ (Nat.le_of_eq hk0)))

/-- A delivery and a fetch that meet a partition without a leader succeed exactly where
it has one by the first metadata answer. -/
theorem election_waitedOut_iff (config : ClusterConfig) (topic : String) (partition nodeId : Int32)
    (k attempts : Nat) (nets : Nat → Network) (s : ClusterState)
    (hservers : config.bootstrapServers ≠ []) (hk : k < attempts)
    (hleader : s.leaderId topic partition = none) (h : Elects topic partition nodeId k nets) :
    (((Operation.produce topic partition).run config attempts nets s).1.isOk = true ↔ k = 0) ∧
      (((Operation.fetch topic partition).run config attempts nets s).1.isOk = true ↔ k = 0) :=
  ⟨produce_elected_iff h hservers hk hleader, fetch_elected_iff h hservers hk hleader⟩

end Election

section Once

/-- One broker, one partition of `t`, led by nobody during `k` rounds. -/
def electing (k : Nat) (round : Nat) : Network :=
  { dial := fun _ => .ok { id := 0 }
    metadata := fun _ _ => .ok
      { brokers := [{ nodeId := 1, host := "b", port := 9092 }]
        controllerId := 1
        topics :=
          [{ name := some "t"
             errorCode := ⟨0⟩
             partitions :=
              [{ index := 0
                 leaderId := if round < k then -1 else 1
                 error := if round < k then .leaderNotAvailable else ⟨0⟩ }] }] }
    findCoordinator := fun _ _ _ => .error .connectionClosed
    request := fun _ _ => .ok (.ok ()) }

theorem electing_elects (k : Nat) : Elects "t" 0 1 k (electing k) := by
  refine ⟨by decide, fun _ _ => ⟨_, rfl⟩, fun i _ => ⟨_, rfl, ?_, ?_⟩, fun _ _ _ _ => rfl⟩
  · refine ⟨_, _, _, rfl, List.mem_singleton_self _, fun other hother => ?_, rfl, rfl⟩
    exact congrArg Prod.snd (List.mem_singleton.mp hother)
  · exact fun _ => ⟨_, List.mem_singleton_self _, rfl⟩

def oneServer : ClusterConfig := { bootstrapServers := ["b:9092"], blockingIdleMax := 8 }

def connected : ClusterState :=
  { control := some { id := 0 }
    brokers := ∅
    topics := ∅
    conns := ∅
    blocking := ∅
    controller := none
    coordinators := ∅ }

theorem election_waitedOut_once :
    ((Operation.produce "t" 0).run oneServer 20 (electing 0) connected).1.isOk = true ∧
      ((Operation.fetch "t" 0).run oneServer 20 (electing 0) connected).1.isOk = true := by
  have h := election_waitedOut_iff oneServer "t" 0 1 0 20 (electing 0) connected
    (List.cons_ne_nil _ _) (by decide) rfl (electing_elects 0)
  exact ⟨h.1.mpr rfl, h.2.mpr rfl⟩

/-- One round without a leader, and nineteen attempts left unused. -/
theorem not_election_waitedOut : ¬ ∀ (config : ClusterConfig) (topic : String)
    (partition nodeId : Int32) (k attempts : Nat) (nets : Nat → Network) (s : ClusterState),
    config.bootstrapServers ≠ [] → k < attempts → s.leaderId topic partition = none →
      Elects topic partition nodeId k nets →
        ((Operation.produce topic partition).run config attempts nets s).1.isOk = true ∧
          ((Operation.fetch topic partition).run config attempts nets s).1.isOk = true := by
  intro h
  have hboth := h oneServer "t" 0 1 1 20 (electing 1) connected (List.cons_ne_nil _ _) (by decide)
    rfl (electing_elects 1)
  have hone := (produce_elected_iff (electing_elects 1) (List.cons_ne_nil _ _)
    (show 1 < 20 by decide) rfl).mp hboth.1
  cases hone

end Once

end Odradek.Client.Cluster
