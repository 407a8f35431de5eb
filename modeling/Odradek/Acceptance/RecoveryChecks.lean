import Odradek.Acceptance.ServerExchanges

/-!
The two checks that stop a broker (`checks/server.rs`): leadership moves when its
broker stops, committed offsets outlive their coordinator. What runs between stop
and start never touches the control, whatever the cluster answers; a broker whose
stop was granted is started before the check returns, and one whose stop failed,
which may be down all the same, is not.
-/

namespace Odradek.Acceptance.Server

open Library Odradek.Protocol Odradek.Client

section Control

structure Broker where
  nodeId : Int32
  addr : String
  deriving DecidableEq

inductive ControlOp
  | stop (broker : Broker)
  | start (broker : Broker)
  deriving DecidableEq

abbrev ControlOp.Res : ControlOp → Type := fun _ => Except String Unit

abbrev Controlled := Program (Op ⊕ ControlOp) (Program.Either Op.Res ControlOp.Res)

abbrev ControlledTrace := List (Exchange (Op ⊕ ControlOp) (Program.Either Op.Res ControlOp.Res))

def control (op : ControlOp) : Controlled (Except String Unit) :=
  Program.perform (Sum.inr op)

def verdictText : Verdict → String
  | .pass => "Pass"
  | .fail details => s!"Fail \x7b details: {details.quote} \x7d"
  | .skipped reason => s!"Skipped \x7b reason: {reason.quote} \x7d"
  | .error details => s!"Error \x7b details: {details.quote} \x7d"

def noControl : Verdict :=
  .skipped ("no --cluster-control was given, so the suite has no way to stop a broker and no " ++
    "business assuming one")

def whileStopped (ctx : ServerCtx) (broker : Broker) (body : Run Verdict) : Controlled Verdict :=
  if ctx.config.control then
    Program.bind (control (.stop broker)) fun stopped =>
      match stopped with
      | .error e => .done (.error s!"could not stop node {broker.nodeId} at {broker.addr}: {e}")
      | .ok () =>
        Program.bind (body.left ControlOp.Res) fun verdict =>
          Program.bind (control (.start broker)) fun started =>
            match started with
            | .ok () => .done verdict
            | .error e => .done (.error (s!"node {broker.nodeId} could not be restarted after " ++
                s!"the check ({e}); the cluster is short a broker and every later check is " ++
                s!"suspect. The check itself had reached: {verdictText verdict}"))
  else .done noControl

/-- An early return is a verdict too. -/
def judge (x : Judged Verdict) : Run Verdict :=
  Program.bind x.run fun r =>
    match r with
    | .ok verdict => .done verdict
    | .error verdict => .done verdict

/-- A check that sets up, then runs its body with a broker stopped. -/
def stopping {α : Type} (ctx : ServerCtx) (setUp : Judged α) (broker : α → Broker)
    (body : α → Judged Verdict) : Controlled Verdict :=
  Program.bind (setUp.run.left ControlOp.Res) fun found =>
    match found with
    | .error verdict => .done verdict
    | .ok a => whileStopped ctx (broker a) (judge (body a))

end Control

section Cluster

structure ClusterNode where
  nodeId : Int32
  addr : String
  deriving DecidableEq

def clusterNodes (ctx : ServerCtx) : Judged (List ClusterNode) := do
  let version ← Program.given (metadataRange ctx)
  let conn ← Program.mapError CheckError.intoVerdict (openConn ctx .needed ctx.addr)
  let resp ← Program.mapError (fun e => (e.context "Metadata").intoVerdict)
    (apiCall conn version 1400 (.metadata none))
  let nodes := (resp.brokers.filter fun b => plausibleAddress b.host b.port).map fun b =>
    { nodeId := b.nodeId, addr := s!"{b.host}:{b.port}" : ClusterNode }
  if nodes.length < 2 then
    throw (.skipped (s!"the subject reports {nodes.length} broker(s); this check is about what " ++
      "brokers must agree on, which a cluster of one cannot be asked"))
  else pure nodes

/-- `leadership_at`: the leader of partition 0 and its replicas. -/
def leadershipAt (conn : Conn) (version : Int16) (topic : String) (correlation : Int32) :
    Checked (Option (Int32 × List Int32 × List Int32)) := do
  let resp ← metadataOfTopic conn version topic correlation
  pure ((settledPartition resp topic).map fun p => (p.leaderId, p.replicaNodes, p.isrNodes))

def createReplicatedTopic (ctx : ServerCtx) (conn : Conn) (topic : String) (replicas : Int16)
    (correlation : Int32) : Judged Unit := do
  let version ← Program.given (do negotiate "CreateTopics" (← ctx.range 19) 2 7)
  let resp ← Program.mapError (fun e => (e.context "CreateTopics").intoVerdict)
    (createTopicsAtController ctx .needed conn version topic replicas false correlation)
  if (createdCode resp).isOk then pure ()
  else throw (.skipped (s!"the subject would not create a {replicas}-replica topic: " ++
    codeText (createdCode resp)))

/-- One attempt of `settle_leadership`. -/
def settleAttempt (conn : Conn) (version : Int16) (topic : String) (correlation : Int32)
    (attempt : Nat) : Judged (Unit ⊕ (Int32 × List Int32)) := do
  let found ← Program.mapError (fun e => (e.context "Metadata").intoVerdict)
    (leadershipAt conn version topic (correlation + attemptId attempt))
  pure (match found with
    | some (leader, replicas, _) => if 0 ≤ leader then .inr (leader, replicas) else .inl ()
    | none => .inl ())

def settleLeadership (ctx : ServerCtx) (conn : Conn) (version : Int16) (topic : String)
    (correlation : Int32) : Judged (Int32 × List Int32) := do
  let out ← Program.attempts sleep
    (fun attempt () => settleAttempt conn version topic correlation attempt)
    ctx.config.settleAttempts 0 ()
  match out with
  | .inr found => pure found
  | .inl () => throw (.error
      s!"{topic} was created but never given a leader within the settle budget")

end Cluster

section Leadership

/-- What `cluster_leadership_moves_when_a_broker_stops` has found out when it stops
the leader. -/
structure Failover where
  nodes : List ClusterNode
  metadataVersion : Int16
  produceVersion : Int16
  topic : String
  leader : Int32
  replicas : List Int32
  leaderAddr : String
  survivorAddr : String

def Failover.stopping (f : Failover) : Broker := { nodeId := f.leader, addr := f.leaderAddr }

def idsText (ids : List Int32) : String := "[" ++ ", ".intercalate (ids.map toString) ++ "]"

def failoverVersions (ctx : ServerCtx) : Except Verdict (Int16 × Int16) := do
  if ctx.config.control then
    let metadata ← metadataRange ctx
    let produce ← negotiate "Produce" (← ctx.range 0) 3 12
    return (metadata, produce)
  else throw noControl

def chooseBrokers (nodes : List ClusterNode) (topic : String) (leader : Int32) :
    Except Verdict (ClusterNode × ClusterNode) :=
  match nodes.find? fun n => n.nodeId == leader with
  | none => .error (.fail (s!"{topic}[0] is led by node {leader}, which is not one of the " ++
      "brokers the same cluster reports"))
  | some owner =>
    match nodes.find? fun n => n.nodeId != leader with
    | none => .error (.skipped
        s!"every broker is node {leader}, so stopping it leaves nobody to ask")
    | some survivor => .ok (owner, survivor)

def replicasWanted (nodes : List ClusterNode) : Int16 :=
  if nodes.length < 2 ^ 15 then Int16.ofNat nodes.length else 1

def leadershipSetUp (ctx : ServerCtx) : Judged Failover := do
  let nodes ← clusterNodes ctx
  let versions ← Program.given (failoverVersions ctx)
  let topic ← liftM (uniqueTopic ctx "failover")
  let bootstrap ← Program.mapError CheckError.intoVerdict (openConn ctx .needed ctx.addr)
  createReplicatedTopic ctx bootstrap topic (replicasWanted nodes) 1500
  let found ← settleLeadership ctx bootstrap versions.1 topic 1510
  let brokers ← Program.given (chooseBrokers nodes topic found.1)
  pure
    { nodes, metadataVersion := versions.1, produceVersion := versions.2, topic, leader := found.1
      replicas := found.2, leaderAddr := brokers.1.addr, survivorAddr := brokers.2.addr }

def awaitMove (f : Failover) (conn : Conn) : Judged (Unit ⊕ Int32) := do
  let found ← Program.caught (leadershipAt conn f.metadataVersion f.topic 1520)
  pure (match found with
    | .ok (some (newLeader, _, _)) =>
      if newLeader ≠ f.leader ∧ 0 ≤ newLeader then .inr newLeader else .inl ()
    | _ => .inl ())

def tryWrite (ctx : ServerCtx) (f : Failover) (conn : Conn) (last : ErrorCode) :
    Judged (ErrorCode ⊕ Unit) := do
  let written ← Program.caught (produceStamped ctx conn f.produceVersion .plain f.topic 0 1530)
  pure (match written with
    | .ok (code, _) => if code.isOk then .inr () else .inl code
    | .error _ => .inl last)

/-- The node that took over, when it is one that can have had the data. -/
def checkSuccessor (f : Failover) (newLeader : Int32) : Except Verdict ClusterNode :=
  if f.replicas.contains newLeader then
    match f.nodes.find? fun n => n.nodeId == newLeader with
    | some node => .ok node
    | none => .error (.fail (s!"{f.topic}[0] failed over to node {newLeader}, which is not one " ++
        "of the brokers the cluster reports"))
  else .error (.fail (s!"{f.topic}[0] failed over to node {newLeader}, which was not among the " ++
    s!"replicas the cluster named while healthy ({idsText f.replicas}); that broker cannot have " ++
    "had the data"))

def leadershipBody (ctx : ServerCtx) (f : Failover) : Judged Verdict := do
  let conn ← Program.mapError
    (fun e => (e.context "connecting to a surviving broker").intoVerdict)
    (openConn ctx .needed f.survivorAddr)
  let moved ← Program.attempts sleep (fun _ () => awaitMove f conn) ctx.config.recoveryAttempts 0 ()
  match moved with
  | .inl () => throw (.fail (s!"node {f.leader} was stopped and {f.topic}[0] still has no other " ++
      s!"leader after {ctx.config.recoveryBudget.text}; its replicas were {idsText f.replicas}, " ++
      "so there was somewhere for leadership to go and it did not"))
  | .inr newLeader => do
    let node ← Program.given (checkSuccessor f newLeader)
    let leaderConn ← Program.mapError
      (fun e => (e.context "connecting to the new leader").intoVerdict)
      (openConn ctx .needed node.addr)
    let written ← Program.attempts sleep (fun _ last => tryWrite ctx f leaderConn last)
      ctx.config.recoveryAttempts 0 ⟨0⟩
    match written with
    | .inr () => pure .pass
    | .inl last => pure (.fail (s!"{f.topic}[0] reports node {newLeader} as its leader with " ++
        s!"node {f.leader} stopped, but a write there answers {codeText last}; the partition " ++
        "has a leader in name only"))

def clusterLeadershipMovesWhenABrokerStops (ctx : ServerCtx) : Controlled Verdict :=
  stopping ctx (leadershipSetUp ctx) Failover.stopping (leadershipBody ctx)

end Leadership

section Coordinator

/-- What `cluster_committed_offsets_outlive_the_coordinator` has found out when it
stops the coordinator. -/
structure CoordinatorLoss where
  fetchVersion : Int16
  topic : String
  topicId : Uuid
  group : String
  ownerId : Int32
  coordinator : String
  survivorAddr : String

def CoordinatorLoss.stopping (c : CoordinatorLoss) : Broker :=
  { nodeId := c.ownerId, addr := c.coordinator }

def committedAtLoss : Int64 := 23

def lossVersions (ctx : ServerCtx) : Except Verdict (Int16 × Int16) :=
  if ctx.config.control then offsetsVersions ctx else .error noControl

def chooseCoordinator (nodes : List ClusterNode) (group coordinator : String) :
    Except Verdict (ClusterNode × ClusterNode) :=
  match nodes.find? fun n => n.addr == coordinator with
  | none => .error (.skipped (s!"the coordinator for {group} is at {coordinator}, which is not " ++
      "one of the brokers Metadata reports, so there is no node to stop"))
  | some owner =>
    match nodes.find? fun n => n.nodeId != owner.nodeId with
    | none => .error (.skipped
        "the coordinator is the only broker, so stopping it leaves nobody to ask")
    | some survivor => .ok (owner, survivor)

def unlessSkipped (skip : Option Verdict) : Except Verdict Unit :=
  match skip with
  | some verdict => .error verdict
  | none => .ok ()

def someCoordinator (group : String) (named : Option String) : Except Verdict Unit :=
  match named with
  | some _ => .ok ()
  | none => .error (.skipped s!"the subject named no coordinator for {group}")

def coordinatorSetUp (ctx : ServerCtx) : Judged CoordinatorLoss := do
  let nodes ← clusterNodes ctx
  let versions ← Program.given (lossVersions ctx)
  let produced ← produceFlow ctx "coordloss"
  Program.given (unlessSkipped (skipWithoutTopicId produced versions.1))
  let group := checkGroup ctx "coordloss"
  let named ← Program.mapError CheckError.intoVerdict (awaitCoordinator ctx group)
  Program.given (someCoordinator group named)
  let conn ← Program.mapError (fun e => (e.context "OffsetCommit").intoVerdict)
    (commitOffsetSettled ctx group produced committedAtLoss versions.1 1540)
  let brokers ← Program.given (chooseCoordinator nodes group conn.peer)
  pure
    { fetchVersion := versions.2, topic := produced.topic, topicId := produced.topicId, group
      ownerId := brokers.1.nodeId, coordinator := conn.peer, survivorAddr := brokers.2.addr }

def awaitRelocation (ctx : ServerCtx) (c : CoordinatorLoss) : Judged (Unit ⊕ String) := do
  let found ← Program.caught (awaitCoordinatorAt ctx c.survivorAddr c.group)
  pure (match found with
    | .ok (some addr) => if addr ≠ c.coordinator then .inr addr else .inl ()
    | _ => .inl ())

def tryRead (c : CoordinatorLoss) (conn : Conn) : Judged (Option String ⊕ Unit) := do
  let read ← Program.caught (fetchCommitted conn c.fetchVersion c.group c.topic c.topicId 1550)
  match read with
  | .ok got => pure (if got = committedAtLoss then .inr () else .inl (some s!"reports {got}"))
  | .error (.violation details) => pure (.inl (some details))
  | .error e => throw (e.context "OffsetFetch (after failover)").intoVerdict

def coordinatorBody (ctx : ServerCtx) (c : CoordinatorLoss) : Judged Verdict := do
  let survivor ← Program.mapError
    (fun e => (e.context "connecting to a surviving broker").intoVerdict)
    (openConn ctx .needed c.survivorAddr)
  let relocated ← Program.attempts sleep (fun _ () => awaitRelocation ctx c)
    ctx.config.recoveryAttempts 0 ()
  match relocated with
  | .inl () => throw (.fail (s!"node {c.ownerId} coordinated {c.group} and was stopped; after " ++
      s!"{ctx.config.recoveryBudget.text} the cluster still names no other coordinator, so the " ++
      "group cannot commit or resume at all"))
  | .inr addr => do
    let reconnected ← Program.caught (openConn ctx .needed addr)
    let conn := match reconnected with
      | .ok conn => conn
      | .error _ => survivor
    let read ← Program.attempts sleep (fun _ _ => tryRead c conn) ctx.config.recoveryAttempts 0 none
    match read with
    | .inr () => pure .pass
    | .inl last => pure (.fail (s!"{c.group} committed offset {committedAtLoss}, node " ++
        s!"{c.ownerId} (its coordinator) was stopped, and the new coordinator at {addr} still " ++
        last.getD "says nothing about it" ++ s!" after {ctx.config.recoveryBudget.text}. A " ++
        "consumer resuming here reprocesses everything since"))

def clusterCommittedOffsetsOutliveTheCoordinator (ctx : ServerCtx) : Controlled Verdict :=
  stopping ctx (coordinatorSetUp ctx) CoordinatorLoss.stopping (coordinatorBody ctx)

end Coordinator

end Odradek.Acceptance.Server
