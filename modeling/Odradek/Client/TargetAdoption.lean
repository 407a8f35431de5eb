import Odradek.Client.ConsumerGroup
import Odradek.Library.Journal
import Odradek.Library.Reachable

/-!
What becomes of the targets a coordinator hands down, once each. As long as a target
that differs can be resolved, and no member is put back to epoch 0 by a response
without an error, the member owns the latest one and tells so in its next heartbeat.
-/

namespace Odradek.Client

open Library ConsumerGroupMember

section Runs

/-- A heartbeat that was sent, and what the cluster answered during its attempt. -/
structure Exchange where
  request : ConsumerGroupHeartbeatRequest
  answers : GroupAnswers

structure GroupRun where
  member : ConsumerGroupMember
  journal : List Exchange

abbrev Allowance := GroupAnswers → GroupRun → Bool

variable (allowed : Allowance) (config : ConsumerGroupConfig)

def GroupRun.attempt (answers : GroupAnswers) (s : GroupRun) : Attempt GroupEvent × GroupRun :=
  let exchange : Exchange := { request := s.member.request config, answers }
  let out := s.member.heartbeatAttempt answers
  (out.1,
    { member := out.2
      journal := if answers.coordinator.isOk then s.journal ++ [exchange] else s.journal })

def heartbeat (rounds : List GroupAnswers) (s : GroupRun) :
    Option (Except ClientError GroupEvent × GroupRun) :=
  retryRounds allowed (GroupRun.attempt config) config.maxAttempts none rounds s

/-- The loop of `join`, with what each of its heartbeats meets. -/
def joinRounds : (rounds : Nat) → (assigned : Bool) → List (List GroupAnswers) → GroupRun →
    Option (Except ClientError Unit × GroupRun)
  | 0, _, [], s => some (.ok (), s)
  | rounds + 1, assigned, beat :: beats, s =>
    match heartbeat allowed config beat s with
    | none => none
    | some (.error e, t) => if beats.isEmpty then some (.error e, t) else none
    | some (.ok _, t) =>
      let assigned' := !t.member.owned.isEmpty || t.member.memberEpoch > 0
      if assigned || (assigned' && !t.member.ackPending) then
        if beats.isEmpty then some (.ok (), t) else none
      else joinRounds rounds assigned' beats t
  | _, _, _, _ => none

def Joined (s : GroupRun) : Prop :=
  ∃ groupId topics memberId beats,
    joinRounds allowed config config.maxAttempts false beats
      { member := .new groupId topics memberId, journal := [] } = some (.ok (), s)

def MemberRuns : GroupRun → Prop :=
  Reachable (Joined allowed config) fun s rounds t =>
    ∃ r, heartbeat allowed config rounds s = some (r, t)

end Runs

section Targets

/-- What a member has been told: the latest target since it (re)joined, and whether
it is one the coordinator has yet to hear back of. -/
structure Told where
  target : Option (List (Partitions TopicId))
  unreported : Option (List (Partitions TopicId))

def Exchange.told (exchange : Exchange) (told : Told) : Told :=
  match exchange.answers.response with
  | .error _ => told
  | .ok response =>
    if response.errorCode = .fencedMemberEpoch ∨ response.errorCode = .unknownMemberId then
      { target := none, unreported := none }
    else if !response.errorCode.isOk then told
    else
      match response.assignment with
      | some target =>
        { target := some (sortPartitions target)
          unreported :=
            if sortPartitions target = told.target.getD [] then none
            else some (sortPartitions target) }
      | none =>
        { target := if exchange.request.memberEpoch = 0 then none else told.target
          unreported := none }

def lastTold (journal : List Exchange) : Told :=
  journal.foldl (fun told exchange => exchange.told told) { target := none, unreported := none }

/-- The assigned partitions are the owned ones, under names the cluster gave. -/
def Named (s : GroupRun) : Prop :=
  (s.member.owned = [] ∧ s.member.assignment = []) ∨
    ∃ exchange ∈ s.journal,
      resolve exchange.answers s.member.owned = .ok s.member.assignment

structure TargetsKept (s : GroupRun) : Prop where
  owned : s.member.owned = (lastTold s.journal).target.getD []
  named : Named s
  reported : EachAfter (fun before exchange =>
    ∀ target, (lastTold before).unreported = some target →
      exchange.request.topicPartitions = some target) s.journal

def lossless : Allowance := fun answers s =>
  match answers.coordinator, answers.response with
  | .ok (), .ok response =>
    !response.errorCode.isOk || (response.memberEpoch != 0 &&
      match response.assignment with
      | none => true
      | some target =>
        sortPartitions target = s.member.owned || (resolve answers (sortPartitions target)).isOk)
  | _, _ => true

end Targets

section Kept

variable {config : ConsumerGroupConfig} {s t : GroupRun} {answers : GroupAnswers}
  {exchange : Exchange} {journal : List Exchange}

theorem lastTold_append : lastTold (journal ++ [exchange]) = exchange.told (lastTold journal) := by
  unfold lastTold
  rw [List.foldl_append]
  rfl

/-- Between attempts, with what the member has yet to acknowledge. -/
structure Adopted (s : GroupRun) : Prop extends TargetsKept s where
  unreported : (lastTold s.journal).unreported =
    if s.member.ackPending then some s.member.owned else none
  starting : s.member.memberEpoch = 0 → s.member.owned = [] ∧ s.member.ackPending = false

theorem topicPartitions_request {m : ConsumerGroupMember} (hepoch : m.memberEpoch ≠ 0)
    (hack : m.ackPending = true) : (m.request config).topicPartitions = some m.owned := by
  unfold ConsumerGroupMember.request
  rw [if_neg hepoch, if_pos hack]

/-- What is owed is in the request. -/
theorem Adopted.reports (h : Adopted s) (target : List (Partitions TopicId))
    (htarget : (lastTold s.journal).unreported = some target) :
    (s.member.request config).topicPartitions = some target := by
  rw [h.unreported] at htarget
  obtain ⟨hack, heq⟩ := Option.ite_none_right_eq_some.mp htarget
  cases heq
  refine topicPartitions_request (fun hepoch => ?_) hack
  rw [(h.starting hepoch).2] at hack
  cases hack

/-- The exchange of an attempt is told. -/
theorem Adopted.grown (h : Adopted s) {m : ConsumerGroupMember}
    (howned : m.owned = ((exchange.told (lastTold s.journal)).target).getD [])
    (hnamed : Named { member := m, journal := s.journal ++ [exchange] })
    (hrequest : exchange.request = s.member.request config)
    (hunreported : (exchange.told (lastTold s.journal)).unreported =
      if m.ackPending then some m.owned else none)
    (hstarting : m.memberEpoch = 0 → m.owned = [] ∧ m.ackPending = false) :
    Adopted { member := m, journal := s.journal ++ [exchange] } := by
  refine ⟨⟨?_, hnamed, h.reported.append fun target htarget => ?_⟩, ?_, hstarting⟩
  · exact howned.trans (congrArg (fun told : Told => told.target.getD []) lastTold_append.symm)
  · rw [hrequest]
    exact h.reports target htarget
  · exact (congrArg Told.unreported lastTold_append).trans hunreported

theorem Named.append (h : Named s) {m : ConsumerGroupMember} (howned : m.owned = s.member.owned)
    (hassignment : m.assignment = s.member.assignment) :
    Named { member := m, journal := s.journal ++ [exchange] } := by
  rcases h with ⟨hnone, hnone'⟩ | ⟨found, hmem, hresolve⟩
  · exact .inl ⟨howned.trans hnone, hassignment.trans hnone'⟩
  · refine .inr ⟨found, List.mem_append_left _ hmem, ?_⟩
    change resolve found.answers m.owned = .ok m.assignment
    rw [howned, hassignment]
    exact hresolve

theorem memberEpoch_request {m : ConsumerGroupMember} :
    (m.request config).memberEpoch = m.memberEpoch := by
  unfold ConsumerGroupMember.request
  split
  · rfl
  · split <;> rfl

/-- A response without an error. -/
theorem Adopted.accept (h : Adopted s) {response : ConsumerGroupHeartbeatResponse}
    (hresponse : answers.response = .ok response)
    (hfenced : ¬ (response.errorCode = .fencedMemberEpoch ∨
      response.errorCode = .unknownMemberId))
    (hok : response.errorCode.isOk = true) (hepoch : response.memberEpoch ≠ 0)
    (hresolves : (match response.assignment with
      | none => true
      | some target => decide (sortPartitions target = s.member.owned) ||
        (resolve answers (sortPartitions target)).isOk) = true) :
    Adopted
      { member := ((s.member.accepted response).adopt answers (s.member.memberEpoch = 0)
          response.assignment).2
        journal := s.journal ++ [{ request := s.member.request config, answers }] } := by
  have htold : ({ request := s.member.request config, answers } : Exchange).told
      (lastTold s.journal) = match response.assignment with
        | some target =>
          { target := some (sortPartitions target)
            unreported :=
              if sortPartitions target = (lastTold s.journal).target.getD [] then none
              else some (sortPartitions target) }
        | none =>
          { target := if s.member.memberEpoch = 0 then none else (lastTold s.journal).target
            unreported := none } := by
    simp only [Exchange.told, hresponse, if_neg hfenced, hok, Bool.not_true, Bool.false_eq_true,
      if_false, memberEpoch_request]
  have hstarting : ∀ {m : ConsumerGroupMember}, m.memberEpoch = response.memberEpoch →
      m.memberEpoch = 0 → m.owned = [] ∧ m.ackPending = false :=
    fun heq hzero => absurd (heq.symm.trans hzero) hepoch
  cases hassignment : response.assignment with
  | none =>
      rw [hassignment] at htold
      refine h.grown ?_ (h.named.append rfl rfl) rfl ?_ (hstarting rfl)
      · rw [htold]
        change s.member.owned = Option.getD (if s.member.memberEpoch = 0 then none else _) []
        split
        next hzero => exact (h.starting hzero).1
        next => exact h.owned
      · rw [htold]
        rfl
  | some target =>
      rw [hassignment] at htold hresolves
      unfold ConsumerGroupMember.adopt
      dsimp only at htold hresolves ⊢
      by_cases hsame : sortPartitions target = s.member.owned
      · rw [if_pos (show sortPartitions target = (s.member.accepted response).owned from hsame)]
        refine h.grown ?_ (h.named.append rfl rfl) rfl ?_ (hstarting rfl)
        · rw [htold]
          exact hsame.symm
        · rw [htold]
          exact if_pos (hsame.trans h.owned)
      · rw [if_neg (show sortPartitions target ≠ (s.member.accepted response).owned from hsame)]
        rw [decide_eq_false hsame, Bool.false_or] at hresolves
        cases hresolve : resolve answers (sortPartitions target) with
        | error e =>
            rw [hresolve] at hresolves
            cases hresolves
        | ok assignment =>
            refine h.grown ?_ (.inr ⟨_, List.mem_append_right _ (List.mem_singleton_self _),
              hresolve⟩) rfl ?_ (hstarting rfl)
            · rw [htold]
              rfl
            · rw [htold]
              exact if_neg fun heq => hsame (heq.trans h.owned.symm)

/-- An attempt that loses no target adopts it or keeps it. -/
theorem Adopted.attempt (h : Adopted s) (hallowed : lossless answers s = true) :
    Adopted (s.attempt config answers).2 := by
  unfold GroupRun.attempt heartbeatAttempt
  unfold lossless at hallowed
  cases hcoordinator : answers.coordinator with
  | error e => exact h
  | ok _ =>
      simp only [hcoordinator, Except.isOk, Except.toBool, if_true] at hallowed ⊢
      cases hresponse : answers.response with
      | error e =>
          have htold : ({ request := s.member.request config, answers } : Exchange).told
              (lastTold s.journal) = lastTold s.journal := by
            simp only [Exchange.told, hresponse]
          refine h.grown ?_ (h.named.append rfl rfl) rfl ?_ h.starting
          · rw [htold]
            exact h.owned
          · rw [htold]
            exact h.unreported
      | ok response =>
          simp only [hresponse] at hallowed ⊢
          by_cases hfenced : response.errorCode = .fencedMemberEpoch ∨
              response.errorCode = .unknownMemberId
          · rw [if_pos hfenced]
            have htold : ({ request := s.member.request config, answers } : Exchange).told
                (lastTold s.journal) = { target := none, unreported := none } := by
              simp only [Exchange.told, hresponse, if_pos hfenced]
            refine h.grown ?_ (.inl ⟨rfl, rfl⟩) rfl ?_ fun _ => ⟨rfl, rfl⟩
            · rw [htold]
              rfl
            · rw [htold]
              rfl
          rw [if_neg hfenced]
          cases hok : response.errorCode.isOk with
          | false =>
              simp only [Bool.not_false, if_true]
              have htold : ({ request := s.member.request config, answers } : Exchange).told
                  (lastTold s.journal) = lastTold s.journal := by
                simp only [Exchange.told, hresponse, if_neg hfenced, hok, Bool.not_false, if_true]
              refine h.grown ?_ (h.named.append rfl rfl) rfl ?_ h.starting
              · rw [htold]
                exact h.owned
              · rw [htold]
                exact h.unreported
          | true =>
              rw [hok, Bool.not_true, Bool.false_or, Bool.and_eq_true_iff] at hallowed
              obtain ⟨hepoch, hresolves⟩ := hallowed
              have hepoch' : response.memberEpoch ≠ 0 := by simpa using hepoch
              simp only [Bool.not_true, Bool.false_eq_true, if_false]
              exact h.accept hresponse hfenced hok hepoch' hresolves

theorem Adopted.heartbeat {rounds : List GroupAnswers} {r : Except ClientError GroupEvent}
    (h : Adopted s) (hbeat : heartbeat lossless config rounds s = some (r, t)) : Adopted t :=
  retryRounds_keeps (fun _ _ hallowed hs => Adopted.attempt hs hallowed) h hbeat

theorem Adopted.join {rounds : Nat} {assigned : Bool} {beats : List (List GroupAnswers)}
    {r : Except ClientError Unit} (h : Adopted s)
    (hjoin : joinRounds lossless config rounds assigned beats s = some (r, t)) : Adopted t := by
  induction rounds generalizing assigned beats s with
  | zero =>
      cases beats with
      | nil => cases hjoin; exact h
      | cons _ _ => cases hjoin
  | succ rounds ih =>
      cases beats with
      | nil => cases hjoin
      | cons beat beats =>
          unfold joinRounds at hjoin
          split at hjoin
          next => cases hjoin
          next e u hbeat =>
              obtain ⟨_, heq⟩ := Option.ite_none_right_eq_some.mp hjoin
              cases heq
              exact h.heartbeat hbeat
          next u hbeat =>
              have hu := h.heartbeat hbeat
              dsimp only at hjoin
              split at hjoin
              next =>
                  obtain ⟨_, heq⟩ := Option.ite_none_right_eq_some.mp hjoin
                  cases heq
                  exact hu
              next => exact ih hu hjoin

theorem adopted_new (groupId : String) (topics : List String) (memberId : String) :
    Adopted { member := .new groupId topics memberId, journal := [] } :=
  ⟨⟨rfl, .inl ⟨rfl, rfl⟩, .nil⟩, rfl, fun _ => ⟨rfl, rfl⟩⟩

/-- Every run of heartbeats whose attempts lose no target. -/
theorem targets_kept (config : ConsumerGroupConfig) (s : GroupRun)
    (h : MemberRuns lossless config s) : TargetsKept s := by
  have hadopted : Adopted s := by
    refine Reachable.invariant ?_ ?_ h
    · rintro s ⟨groupId, topics, memberId, beats, hjoin⟩
      exact (adopted_new groupId topics memberId).join hjoin
    · rintro s rounds t hs ⟨r, hbeat⟩
      exact hs.heartbeat hbeat
  exact hadopted.toTargetsKept

end Kept

section Lost

def unnamed (assignment : Option (List (Partitions TopicId))) : GroupAnswers :=
  { coordinator := .ok ()
    response := .ok
      { errorCode := ⟨0⟩
        memberId := none
        memberEpoch := 1
        heartbeatIntervalMs := 0
        assignment }
    known := fun _ => none
    refresh := .ok ()
    refreshed := fun _ => none }

def knowing (assignment : Option (List (Partitions TopicId))) : GroupAnswers :=
  { unnamed assignment with known := fun _ => some "t" }

def oneTopic : TopicId := ⟨List.replicate 16 7, rfl⟩

def joined (beats : List GroupAnswers) (allowed : Allowance) :
    Option (Except ClientError Unit × GroupRun) :=
  joinRounds allowed .default 20 false [beats] { member := .new "g" ["t"] "m", journal := [] }

/-- `join`, where its first heartbeat is all it takes. -/
def joinedAt (allowed : Allowance) (beat : List GroupAnswers) : Option GroupRun :=
  ((joinRounds allowed .default ConsumerGroupConfig.default.maxAttempts false [beat]
    { member := .new "g" ["t"] "m", journal := [] }).filter fun out => out.1.isOk).map (·.2)

/-- One heartbeat of one attempt for each of the answers. -/
def beating (allowed : Allowance) : List GroupAnswers → GroupRun → Option GroupRun
  | [], s => some s
  | answers :: rest, s =>
    (heartbeat allowed .default [answers] s).bind fun out => beating allowed rest out.2

theorem memberRuns_joinedAt {allowed : Allowance} {beat : List GroupAnswers} {s : GroupRun}
    (h : joinedAt allowed beat = some s) : MemberRuns allowed .default s := by
  obtain ⟨⟨r, u⟩, hjoin, heq⟩ := Option.map_eq_some_iff.mp h
  obtain ⟨hjoin, hok⟩ := Option.filter_eq_some_iff.mp hjoin
  cases heq
  cases r with
  | error e => cases hok
  | ok _ => exact .start ⟨"g", ["t"], "m", [beat], hjoin⟩

theorem memberRuns_beating {allowed : Allowance} {beats : List GroupAnswers} {s t : GroupRun}
    (hs : MemberRuns allowed .default s) (h : beating allowed beats s = some t) :
    MemberRuns allowed .default t := by
  induction beats generalizing s with
  | nil =>
      cases h
      exact hs
  | cons answers rest ih =>
      obtain ⟨⟨r, u⟩, hbeat, hrest⟩ := Option.bind_eq_some_iff.mp h
      exact ih (.step [answers] hs ⟨r, hbeat⟩) hrest

/-- A target is adopted, and acknowledged by the next heartbeat. -/
theorem targets_kept_once : ∃ s : GroupRun, s.member.owned = [(oneTopic, [0])] ∧
    s.member.assignment = [("t", [0])] ∧ TargetsKept s := by
  have hrun : ((joinedAt lossless [unnamed none]).bind fun s =>
      (beating lossless [knowing (some [(oneTopic, [0])]), unnamed none] s).map
        fun t => (t.member.owned, t.member.assignment)) =
          some ([(oneTopic, [0])], [("t", [0])]) := by
    decide
  obtain ⟨s, hjoin, hrest⟩ := Option.bind_eq_some_iff.mp hrun
  obtain ⟨t, hbeats, heq⟩ := Option.map_eq_some_iff.mp hrest
  obtain ⟨howned, hassignment⟩ := Prod.mk.inj heq
  exact ⟨t, howned, hassignment,
    targets_kept .default t (memberRuns_beating (memberRuns_joinedAt hjoin) hbeats)⟩

def anything : Allowance := fun _ _ => true

/-- A target that cannot be named is lost: the next heartbeat succeeds without it. -/
theorem not_targets_kept : ¬ ∀ (config : ConsumerGroupConfig) (s t : GroupRun)
    (rounds : List GroupAnswers) (event : GroupEvent), MemberRuns anything config s →
      heartbeat anything config rounds s = some (.ok event, t) → TargetsKept t := by
  intro h
  have hrun : ((joinedAt anything [unnamed none]).bind fun s =>
      (beating anything [unnamed (some [(oneTopic, [0])])] s).bind fun t =>
        ((heartbeat anything .default [unnamed none] t).filter fun out => out.1.isOk).map
          fun out => ((lastTold out.2.journal).target.getD [], out.2.member.owned)) =
            some ([(oneTopic, [0])], []) := by
    decide
  obtain ⟨s, hjoin, hrest⟩ := Option.bind_eq_some_iff.mp hrun
  obtain ⟨t, hbeats, hrest⟩ := Option.bind_eq_some_iff.mp hrest
  obtain ⟨⟨r, u⟩, hbeat, heq⟩ := Option.map_eq_some_iff.mp hrest
  obtain ⟨hbeat, hok⟩ := Option.filter_eq_some_iff.mp hbeat
  obtain ⟨htarget, howned⟩ := Prod.mk.inj heq
  cases r with
  | error e => cases hok
  | ok event =>
      have hkept := h .default t u [unnamed none] event
        (memberRuns_beating (memberRuns_joinedAt hjoin) hbeats) hbeat
      cases howned.symm.trans (hkept.owned.trans htarget)

end Lost

end Odradek.Client
