import Odradek.Acceptance.RecoveryChecks

/-!
When a recovery check puts its broker back: exactly in the runs in which no stop
it asked for was refused. A refused stop ends the check at once, also where the
broker went down before the control gave up on it.
-/

namespace Odradek.Acceptance.Server

open Library Odradek.Protocol Odradek.Client

/-- Every broker that a stop was asked for is started later. -/
def Restored (t : ControlledTrace) : Prop :=
  ∀ before after broker answer, t = before ++ ⟨.inr (.stop broker), answer⟩ :: after →
    ∃ started, ⟨.inr (.start broker), started⟩ ∈ after

def StopFailed (t : ControlledTrace) : Prop :=
  ∃ broker e, ⟨.inr (.stop broker), .error e⟩ ∈ t

def StartFailed (t : ControlledTrace) : Prop :=
  ∃ broker e, ⟨.inr (.start broker), .error e⟩ ∈ t

/-- What the recovery checks owe the cluster's operator. -/
def PutsBack (t : ControlledTrace) (verdict : Verdict) : Prop :=
  Restored t ∧ (StartFailed t → ∃ details, verdict = .error details)

def Untouched (t : ControlledTrace) : Prop := ∀ e ∈ t, e.1.isLeft

section Untouched

variable {t u : ControlledTrace} {op : ControlOp} {answer : Except String Unit}

theorem Untouched.not_mem (h : Untouched t) : ⟨.inr op, answer⟩ ∉ t := by
  intro hmem
  cases h _ hmem

theorem Untouched.not_failed (h : Untouched t) : ¬ StopFailed t ∧ ¬ StartFailed t :=
  ⟨fun ⟨_, _, hmem⟩ => h.not_mem hmem, fun ⟨_, _, hmem⟩ => h.not_mem hmem⟩

theorem Untouched.restored (h : Untouched t) : Restored t := by
  intro before after broker answer heq
  refine absurd ?_ (h.not_mem : ⟨.inr (.stop broker), answer⟩ ∉ t)
  rw [heq]
  exact List.mem_append_right _ List.mem_cons_self

/-- What went before without the control changes nothing. -/
theorem Untouched.restored_append (h : Untouched t) : Restored (t ++ u) ↔ Restored u := by
  constructor
  · intro hall before after broker answer heq
    refine hall (t ++ before) after broker answer ?_
    rw [heq, List.append_assoc]
  · intro hu before after broker answer heq
    obtain ⟨rest, hbefore, hrest⟩ | ⟨rest, ht, hrest⟩ := List.append_eq_append_iff.mp heq
    · exact hu rest after broker answer hrest
    · cases rest with
      | nil => exact hu [] after broker answer (by simpa using hrest.symm)
      | cons e rest =>
          obtain ⟨rfl, _⟩ := List.cons.inj hrest
          refine absurd ?_ (h.not_mem : ⟨.inr (.stop broker), answer⟩ ∉ t)
          rw [ht]
          exact List.mem_append_right _ List.mem_cons_self

theorem Untouched.failed_append (h : Untouched t) :
    (StopFailed (t ++ u) ↔ StopFailed u) ∧ (StartFailed (t ++ u) ↔ StartFailed u) := by
  constructor <;>
    exact exists_congr fun _ => exists_congr fun _ => by
      rw [List.mem_append]
      exact or_iff_right h.not_mem

theorem Untouched.putsBack_append (h : Untouched t) {verdict : Verdict} :
    (PutsBack (t ++ u) verdict ↔ ¬ StopFailed (t ++ u)) ↔
    (PutsBack u verdict ↔ ¬ StopFailed u) := by
  rw [PutsBack, PutsBack, h.restored_append, h.failed_append.1, h.failed_append.2]

end Untouched

/-- The three ways through `while_stopped`. -/
inductive Stopping (broker : Broker) : ControlledTrace → Verdict → Prop
  | uncontrolled {verdict : Verdict} : Stopping broker [] verdict
  | refused (e : String) {verdict : Verdict} :
      Stopping broker [⟨.inr (.stop broker), .error e⟩] verdict
  | done {t : ControlledTrace} (untouched : Untouched t) (started : Except String Unit)
      {verdict : Verdict} (error : ∀ e, started = .error e → ∃ details, verdict = .error details) :
      Stopping broker
        (⟨.inr (.stop broker), .ok ()⟩ :: (t ++ [⟨.inr (.start broker), started⟩])) verdict

/-- Whatever the control and the body do, the run goes one of three ways. -/
theorem whileStopped_meets (ctx : ServerCtx) (broker : Broker) (body : Run Verdict) :
    (whileStopped ctx broker body).Meets (Stopping broker) := by
  unfold whileStopped
  split
  · refine Program.meets_bind (Program.meets_perform (Q := fun t r =>
      t = [⟨.inr (.stop broker), r⟩]) fun _ => rfl) fun t stopped ht => ?_
    cases stopped with
    | error e =>
        refine Program.meets_done ?_
        rw [ht]
        exact .refused e
    | ok _ =>
        refine Program.meets_bind (P := fun t _ => Untouched t)
          (fun _ _ hbody => Program.yields_left hbody) fun u verdict hu => ?_
        refine Program.meets_bind (Program.meets_perform (Q := fun t r =>
          t = [⟨.inr (.start broker), r⟩]) fun _ => rfl) fun v started hv => ?_
        cases started with
        | ok _ =>
            refine Program.meets_done ?_
            rw [ht, hv]
            simpa using Stopping.done hu (.ok ()) fun e he => by cases he
        | error e =>
            refine Program.meets_done ?_
            rw [ht, hv]
            simpa using Stopping.done hu (.error e) fun _ _ => ⟨_, rfl⟩
  · exact Program.meets_done .uncontrolled

/-- The broker is started again exactly when its stop was not refused. -/
theorem Stopping.putsBack {broker : Broker} {t : ControlledTrace} {verdict : Verdict}
    (h : Stopping broker t verdict) : PutsBack t verdict ↔ ¬ StopFailed t := by
  cases h with
  | uncontrolled =>
      have huntouched : Untouched [] := List.forall_mem_nil _
      exact iff_of_true ⟨huntouched.restored, fun h => absurd h huntouched.not_failed.2⟩
        huntouched.not_failed.1
  | refused e =>
      refine iff_of_false (fun h => ?_) fun h => h ⟨broker, e, List.mem_cons_self⟩
      obtain ⟨_, hmem⟩ := h.1 [] [] broker (.error e) rfl
      cases hmem
  | @done body huntouched started _ herror =>
      have hstart : ⟨.inr (.start broker), started⟩ ∈
          body ++ [⟨.inr (.start broker), started⟩] :=
        List.mem_append_right _ List.mem_cons_self
      refine iff_of_true ⟨?_, ?_⟩ ?_
      · intro before after other answer heq
        cases before with
        | nil =>
            obtain ⟨hstop, rfl⟩ := List.cons.inj heq
            obtain rfl : broker = other := by
              injection hstop with hop
              injection hop with hop
              injection hop
            exact ⟨started, hstart⟩
        | cons e before =>
            obtain ⟨_, hrest⟩ := List.cons.inj heq
            have hmem : ⟨.inr (.stop other), answer⟩ ∈
                body ++ [⟨.inr (.start broker), started⟩] := by
              rw [hrest]
              exact List.mem_append_right _ List.mem_cons_self
            obtain hbody | hlast := List.mem_append.mp hmem
            · exact absurd hbody huntouched.not_mem
            · cases List.mem_singleton.mp hlast
      · intro ⟨other, e, hmem⟩
        obtain heq | hmem := List.mem_cons.mp hmem
        · cases heq
        · obtain hbody | hlast := List.mem_append.mp hmem
          · exact absurd hbody huntouched.not_mem
          · cases List.mem_singleton.mp hlast
            exact herror e rfl
      · intro ⟨other, e, hmem⟩
        obtain heq | hmem := List.mem_cons.mp hmem
        · cases heq
        · obtain hbody | hlast := List.mem_append.mp hmem
          · exact huntouched.not_mem hbody
          · cases List.mem_singleton.mp hlast

theorem stopping_putsBack {α : Type} (ctx : ServerCtx) (setUp : Judged α) (broker : α → Broker)
    (body : α → Judged Verdict) :
    (stopping ctx setUp broker body).Meets fun t verdict =>
      PutsBack t verdict ↔ ¬ StopFailed t := by
  refine Program.meets_bind (P := fun t _ => Untouched t)
    (fun _ _ hsetUp => Program.yields_left hsetUp) fun t found ht => ?_
  cases found with
  | error verdict =>
      refine Program.meets_done ?_
      rw [List.append_nil]
      exact iff_of_true ⟨ht.restored, fun h => absurd h ht.not_failed.2⟩ ht.not_failed.1
  | ok a =>
      exact (whileStopped_meets ctx (broker a) (judge (body a))).imp fun u verdict hu =>
        ht.putsBack_append.mpr hu.putsBack

inductive RecoveryCheck
  | leadershipMoves
  | offsetsOutlive
  deriving DecidableEq

def RecoveryCheck.run (ctx : ServerCtx) : RecoveryCheck → Controlled Verdict
  | .leadershipMoves => clusterLeadershipMovesWhenABrokerStops ctx
  | .offsetsOutlive => clusterCommittedOffsetsOutliveTheCoordinator ctx

/-- Whatever cluster and control answer, a recovery check puts its broker back, and
reports a start that failed as an error, exactly when no stop was refused. -/
theorem recovery_putsBack_iff (check : RecoveryCheck) (ctx : ServerCtx) {t : ControlledTrace}
    {verdict : Verdict} (h : (check.run ctx).Yields t verdict) :
    PutsBack t verdict ↔ ¬ StopFailed t := by
  cases check with
  | leadershipMoves => exact stopping_putsBack ctx _ _ _ t verdict h
  | offsetsOutlive => exact stopping_putsBack ctx _ _ _ t verdict h

namespace TwoNodes

/-- The apis the checks go by, each over every version they can send. -/
def ctx : ServerCtx :=
  { addr := "a:9092"
    discovery := .ok
      [{ apiKey := 0, minVersion := 3, maxVersion := 12 },
        { apiKey := 3, minVersion := 1, maxVersion := 13 },
        { apiKey := 19, minVersion := 2, maxVersion := 7 }]
    config :=
      { settleBudget := { millis := 1, text := "1ms" }
        settleDelay := { millis := 1, text := "1ms" }
        recoveryBudget := { millis := 1, text := "1ms" }
        control := true
        credentials := false
        tls := false }
    saslAddr := none
    runId := "1-0"
    pid := 1
    startedAt := 0 }

def described (topic : Option String) : MetadataResponse :=
  { brokers :=
    [{ nodeId := 1, host := "a", port := 9092 }, { nodeId := 2, host := "b", port := 9092 }]
    controllerId := 1
    topics := match topic with
      | none => []
      | some topic =>
        [{ errorCode := ⟨0⟩
           name := some topic
           partitions := [{ errorCode := ⟨0⟩, partitionIndex := 0, leaderId := 1,
                            replicaNodes := [1, 2], isrNodes := [1, 2] }] }] }

/-- A cluster of two that works; what it is not asked here it does not answer. -/
def answered : (request : Request) → Except CheckError request.Response
  | .metadata topic => .ok (described topic)
  | .createTopics _ _ _ => .ok
      { topics := [{ errorCode := ⟨0⟩, errorMessage := none, topicId := zeroUuid }] }
  | _ => .error (.infra "timed out")

/-- A control whose stop gives up on a broker that it has taken down. -/
def environment (stop : Except String Unit) :
    (op : Op ⊕ ControlOp) → Program.Either Op.Res ControlOp.Res op
  | .inl (.connect _ _) => .ok ()
  | .inl (.authenticate _ _) => .ok ()
  | .inl (.call c) => answered c.request
  | .inl .sleep => ()
  | .inl .clock => (0 : Nat)
  | .inr (.stop _) => stop
  | .inr (.start _) => .ok ()

def run (stop : Except String Unit) : ControlledTrace × Verdict :=
  (RecoveryCheck.leadershipMoves.run ctx).answered (fun _ op => environment stop op) []

def leader : Broker := { nodeId := 1, addr := "a:9092" }

end TwoNodes

theorem recovery_putsBack_iff_restarted :
    (TwoNodes.run (.ok ())).1.filterMap (fun e => e.1.getRight?) =
      [.stop TwoNodes.leader, .start TwoNodes.leader] ∧
    (PutsBack (TwoNodes.run (.ok ())).1 (TwoNodes.run (.ok ())).2 ↔
      ¬ StopFailed (TwoNodes.run (.ok ())).1) :=
  ⟨rfl, recovery_putsBack_iff .leadershipMoves TwoNodes.ctx (Program.yields_answered _ _ _)⟩

/-- A stop that fails after it took the broker down leaves it down: the check returns
without a start. -/
theorem stop_refused_not_restored :
    ∃ t verdict, (clusterLeadershipMovesWhenABrokerStops TwoNodes.ctx).Yields t verdict ∧
      ⟨.inr (.stop TwoNodes.leader), .error "exit status 1"⟩ ∈ t ∧ ¬ Restored t := by
  have hlast : (TwoNodes.run (.error "exit status 1")).1.getLast? =
      some ⟨.inr (.stop TwoNodes.leader), .error "exit status 1"⟩ := by rfl
  obtain ⟨before, ht⟩ := List.getLast?_eq_some_iff.mp hlast
  refine ⟨_, _, Program.yields_answered _ _ _, List.mem_of_getLast? hlast, fun hrestored => ?_⟩
  obtain ⟨_, hmem⟩ := hrestored before [] _ _ ht
  cases hmem

end Odradek.Acceptance.Server
