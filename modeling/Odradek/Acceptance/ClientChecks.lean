import Odradek.Acceptance.ClientHarness

/-!
Two verdicts on a recorded session (`checks/client.rs`): recovery from a staged
leader move, and tolerance of a tagged field from the future. Both ask what the
client did afterwards, and look for it among all observations.
-/

namespace Odradek.Acceptance

inductive Verdict
  | pass
  | fail (details : String)
  | skipped (reason : String)
  deriving DecidableEq

/-- The part of a session these checks read. -/
structure Session where
  observations : List Observation
  fault : Option HarnessFault
  events : List FaultEvent
  tagged : List (Nat × Nat)
  deriving DecidableEq

def unknownTag : Nat := 60000

/-- A request that addressed the moved partition at its new leader. -/
def addresses (event : FaultEvent) (o : Observation) : Bool :=
  o.nodeId = event.toNode &&
    o.routes.any fun route => route.1 = routingTopic && route.2 = event.partition

def redelivered (s : Session) (event : FaultEvent) : Bool :=
  s.observations.any (addresses event)

def unrecoveredDetails (event : FaultEvent) : String :=
  "after NOT_LEADER moved " ++ routingTopic ++ "[" ++ toString event.partition.toInt ++
    "]'s leadership to broker " ++ toString event.toNode.toInt ++
    ", no produce/fetch ever reached it there"

def recoversFromLeaderChange (s : Session) : Verdict :=
  let unrecovered := (s.events.filter fun event => !redelivered s event).map unrecoveredDetails
  if s.fault ≠ some .leaderMove then .skipped "leader-move fault not armed"
  else if s.events.isEmpty then .skipped "the client sent nothing that triggered the leader move"
  else if unrecovered.isEmpty then .pass
  else .fail ("; ".intercalate unrecovered)

def stoppedDetails (connId index : Nat) : String :=
  "answered request " ++ toString index ++ " on connection " ++ toString connId ++ " with tag " ++
    toString unknownTag ++ ", a field no schema defines, and the client sent nothing further " ++
    "anywhere; a client that stops at a field from the future stops at every broker newer than " ++
    "itself"

def toleratesUnknownTaggedFields (s : Session) : Verdict :=
  match s.tagged.head? with
  | none => .skipped "no response carried an unknown tagged field in this session"
  | some (connId, index) =>
    if s.observations.any fun o => o.connId = connId && index < o.index then .pass
    else if s.observations.any fun o => o.connId ≠ connId then .pass
    else .fail (stoppedDetails connId index)

/-- What is judged when a session ends: as many observations as were collected
by then, and what the connections recorded meanwhile. -/
def Harness.session (h : Harness) (collected : Nat) : Session :=
  { observations := h.sent.take collected
    fault := h.view.fault
    events := h.view.events
    tagged := h.view.tagged }

section Verdicts

variable {s : Session}

/-- The check passes when each injected error was followed by a request at the new
leader. -/
theorem recovers_pass_iff :
    recoversFromLeaderChange s = .pass ↔
      s.fault = some .leaderMove ∧ s.events ≠ [] ∧
        ∀ event ∈ s.events, ∃ o ∈ s.observations, addresses event o = true := by
  unfold recoversFromLeaderChange
  by_cases hfault : s.fault = some .leaderMove
  · rw [if_neg (not_not_intro hfault)]
    cases hevents : s.events with
    | nil => simp
    | cons event events =>
        simp only [hfault, List.isEmpty_cons, Bool.false_eq_true, if_false, true_and, ne_eq,
          reduceCtorEq, not_false_eq_true, List.isEmpty_iff, List.map_eq_nil_iff,
          List.filter_eq_nil_iff, Bool.not_eq_true, Bool.not_eq_false', redelivered,
          List.any_eq_true]
        split
        next h => exact ⟨fun _ => h, fun _ => rfl⟩
        next h => exact ⟨fun hfail => (by cases hfail), fun hall => absurd hall h⟩
  · rw [if_pos hfault]
    simp [hfault]

/-- The check passes when some request follows the first answer with the field, or is on another
connection. -/
theorem tolerates_pass_iff :
    toleratesUnknownTaggedFields s = .pass ↔
      ∃ connId index, s.tagged.head? = some (connId, index) ∧
        ∃ o ∈ s.observations, o.connId = connId → index < o.index := by
  unfold toleratesUnknownTaggedFields
  cases hfirst : s.tagged.head? with
  | none => simp
  | some first =>
      obtain ⟨connId, index⟩ := first
      simp only [List.any_eq_true, Bool.and_eq_true, decide_eq_true_eq]
      constructor
      · intro h
        refine ⟨connId, index, rfl, ?_⟩
        split at h
        next hsame =>
            obtain ⟨o, ho, _, hindex⟩ := hsame
            exact ⟨o, ho, fun _ => hindex⟩
        next =>
            split at h
            next hother =>
                obtain ⟨o, ho, hne⟩ := hother
                exact ⟨o, ho, fun heq => absurd heq hne⟩
            next => cases h
      · rintro ⟨_, _, ⟨⟩, o, ho, hindex⟩
        by_cases hsame : o.connId = connId
        · rw [if_pos ⟨o, ho, hsame, hindex hsame⟩]
        · split
          · rfl
          · rw [if_pos ⟨o, ho, hsame⟩]

end Verdicts

end Odradek.Acceptance
