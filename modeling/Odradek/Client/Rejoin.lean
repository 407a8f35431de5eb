import Odradek.Client.Group
import Odradek.Library.Reachable

/-!
What a failed rejoin leaves behind: the identity later commits go under beside the one
the partitions were handed out under. JoinGroup answers move the first, only a round
that succeeds moves the second.
-/

namespace Odradek.Client

open Library Protocol

section Runs

/-- A member, and the identity its partitions were handed out under. -/
structure Holding where
  member : GroupMember
  heldUnder : CommitIdentity
  deriving DecidableEq

namespace Holding

variable (config : GroupConfig)

def attempt (answers : RoundAnswers) (s : Holding) : Attempt Unit × Holding :=
  let out := s.member.attempt config answers
  (out.1,
    { member := out.2
      heldUnder :=
        if (s.member.joinRound config answers).outcome.any (·.isOk) then out.2.commitIdentity
        else s.heldUnder })

def rejoin (rounds : List RoundAnswers) (s : Holding) :
    Option (Except ClientError Unit × Holding) :=
  retryRounds (fun answers s => s.member.returns config answers) (attempt config)
    config.maxAttempts none rounds s

def heartbeat (rounds : List HeartbeatAnswers) (s : Holding) :
    Option (Except ClientError HeartbeatStatus × Holding) :=
  retryRounds (fun _ _ => true)
    (fun answers s => ((s.member.heartbeatAttempt answers).1,
      { s with member := (s.member.heartbeatAttempt answers).2 }))
    config.maxAttempts none rounds s

inductive Call
  | rejoin (rounds : List RoundAnswers)
  | heartbeat (rounds : List HeartbeatAnswers)

def call : Call → Holding → Option Holding
  | .rejoin rounds, s => (rejoin config rounds s).map (·.2)
  | .heartbeat rounds, s => (heartbeat config rounds s).map (·.2)

def Starts (s : Holding) : Prop :=
  ∃ groupId topics rounds,
    rejoin config rounds
      { member := .new groupId topics, heldUnder :=
        (GroupMember.new groupId topics).commitIdentity } =
        some (.ok (), s)

/-- The calls on a member, from `join` on. -/
def Lives : Holding → Prop :=
  Reachable (Starts config) fun s c t => call config c s = some t

/-- What becomes of a member before it is rejoined again. -/
def Idles (s : Holding) : Holding → Prop :=
  Reachable (· = s) fun t rounds u => ∃ r, heartbeat config rounds t = some (r, u)

/-- A commit goes under the generation of the partitions, and under the member id they
were handed to or none. -/
structure CommitsAsHeld (s : Holding) : Prop where
  generation : s.member.commitIdentity.generationId = s.heldUnder.generationId
  member : s.member.commitIdentity.memberId = s.heldUnder.memberId ∨
    s.member.commitIdentity.memberId = ""

end Holding

end Runs

section Answers

namespace RoundAnswers

def reply (answers : RoundAnswers) : Except ClientError JoinGroupResponse :=
  match answers.lease, answers.joinVersion, answers.join with
  | .error e, _, _ => .error e
  | _, .error e, _ => .error e
  | _, _, .error e => .error e
  | .ok (), .ok _, .ok response =>
    if response.errorCode = .memberIdRequired then answers.joinAgain else .ok response

def minted (answers : RoundAnswers) : Option String :=
  match answers.lease, answers.joinVersion, answers.join with
  | .ok (), .ok _, .ok response =>
    if response.errorCode = .memberIdRequired then some response.memberId else none
  | _, _, _ => none

/-- The membership a JoinGroup answer without an error gives. -/
def granted (answers : RoundAnswers) : Option JoinGroupResponse :=
  answers.reply.toOption.filter (·.errorCode.isOk)

def accepted (code : ErrorCode) : Outcome Unit :=
  if code.isOk then some (.ok ()) else some (.error (.broker code))

def verdict (answers : RoundAnswers) : Outcome Unit :=
  Outcome.andThen (some answers.reply) fun response =>
    Outcome.andThen (accepted response.errorCode) fun _ =>
      Outcome.andThen
        (if response.leader = response.memberId then leaderAssignments answers response.members
          else some (.ok [])) fun _ =>
        Outcome.andThen (some answers.syncVersion) fun _ =>
          Outcome.andThen (some answers.sync) fun sync =>
            Outcome.andThen (accepted sync.errorCode) fun _ =>
              Outcome.andThen (Outcome.ofDecode (decodeAssignment sync.assignment)) fun _ =>
                some (.ok ())

/-- The member id the round leaves, where it names one or takes it away. -/
def named (answers : RoundAnswers) : Option String :=
  if answers.verdict = some (.error (.broker .unknownMemberId)) then some ""
  else (answers.granted.map (·.memberId)).or answers.minted

end RoundAnswers

/-- The last generation the rounds grant, or the one before them. -/
def lastGeneration (rounds : List RoundAnswers) (before : Int32) : Int32 :=
  rounds.foldl (fun generation answers =>
    (answers.granted.map (·.generationId)).getD generation) before

/-- The last member id the rounds leave, or the one before them. -/
def lastMemberId (rounds : List RoundAnswers) (before : String) : String :=
  rounds.foldl (fun memberId answers => answers.named.getD memberId) before

end Answers

section Round

variable {config : GroupConfig} {answers : RoundAnswers} {m : GroupMember}

/-- The second half of a round, by what the coordinator answers. -/
theorem syncRound_outcome (sent : List GroupRequest) (assignments : List (String × Bytes)) :
    (m.syncRound answers sent assignments).outcome =
      Outcome.andThen (some answers.syncVersion) fun _ =>
        Outcome.andThen (some answers.sync) fun sync =>
          Outcome.andThen (RoundAnswers.accepted sync.errorCode) fun _ =>
            Outcome.andThen (Outcome.ofDecode (decodeAssignment sync.assignment)) fun _ =>
              some (.ok ()) := by
  unfold GroupMember.syncRound
  cases answers.syncVersion with
  | error e => rfl
  | ok _ =>
      cases answers.sync with
      | error e => rfl
      | ok response =>
          cases hok : response.errorCode.isOk with
          | false => simp only [Outcome.andThen, RoundAnswers.accepted, hok, Bool.not_false,
              if_true, Bool.false_eq_true, if_false]
          | true =>
              simp only [Outcome.andThen, RoundAnswers.accepted, hok, Bool.not_true,
                Bool.false_eq_true, if_false, if_true]
              cases Outcome.ofDecode (decodeAssignment response.assignment) with
              | none => rfl
              | some result => cases result <;> rfl

theorem syncRound_identity (sent : List GroupRequest) (assignments : List (String × Bytes)) :
    (m.syncRound answers sent assignments).member.commitIdentity = m.commitIdentity := by
  unfold GroupMember.syncRound
  cases answers.syncVersion with
  | error e => rfl
  | ok _ =>
      cases answers.sync with
      | error e => rfl
      | ok response =>
          dsimp only
          split
          · rfl
          · split <;> rfl

theorem joinedRound_outcome (sent : List GroupRequest) (response : JoinGroupResponse) :
    (m.joinedRound answers sent response).outcome =
      Outcome.andThen (RoundAnswers.accepted response.errorCode) fun _ =>
        Outcome.andThen
          (if response.leader = response.memberId then leaderAssignments answers response.members
            else some (.ok [])) fun _ =>
          Outcome.andThen (some answers.syncVersion) fun _ =>
            Outcome.andThen (some answers.sync) fun sync =>
              Outcome.andThen (RoundAnswers.accepted sync.errorCode) fun _ =>
                Outcome.andThen (Outcome.ofDecode (decodeAssignment sync.assignment)) fun _ =>
                  some (.ok ()) := by
  unfold GroupMember.joinedRound
  cases hok : response.errorCode.isOk with
  | false => simp only [Outcome.andThen, RoundAnswers.accepted, hok, Bool.not_false, if_true,
      Bool.false_eq_true, if_false]
  | true =>
      simp only [RoundAnswers.accepted, hok, Bool.not_true, Bool.false_eq_true, if_false, if_true,
        decide_eq_true_eq]
      generalize (if response.leader = response.memberId then
        leaderAssignments answers response.members else some (.ok [])) = assignments
      cases assignments with
      | none => rfl
      | some result =>
          cases result with
          | error e => rfl
          | ok assignments => exact syncRound_outcome _ _

theorem joinedRound_identity (sent : List GroupRequest) (response : JoinGroupResponse) :
    (m.joinedRound answers sent response).member.commitIdentity =
      if response.errorCode.isOk then
        { generationId := response.generationId, memberId := response.memberId }
      else m.commitIdentity := by
  unfold GroupMember.joinedRound
  cases hok : response.errorCode.isOk with
  | false => rfl
  | true =>
      simp only [Bool.not_true, Bool.false_eq_true, if_false, if_true, decide_eq_true_eq]
      generalize (if response.leader = response.memberId then
        leaderAssignments answers response.members else some (.ok [])) = assignments
      cases assignments with
      | none => rfl
      | some result =>
          cases result with
          | error e => rfl
          | ok assignments => exact syncRound_identity _ _

/-- A round that gets as far as to encode its subscription comes to the verdict of its
answers. -/
theorem joinRound_outcome {subscription : Bytes}
    (hencodes : encodeSubscription m.topics = .ok subscription) :
    (m.joinRound config answers).outcome = answers.verdict := by
  unfold GroupMember.joinRound RoundAnswers.verdict RoundAnswers.reply
  rw [hencodes]
  cases answers.lease with
  | error e => rfl
  | ok _ =>
      cases answers.joinVersion with
      | error e => rfl
      | ok _ =>
          cases answers.join with
          | error e => rfl
          | ok response =>
              dsimp only
              split
              · cases answers.joinAgain with
                | error e => rfl
                | ok again => exact joinedRound_outcome _ _
              · exact joinedRound_outcome _ _

/-- The identity a round leaves is the one that was granted, if any was. -/
theorem joinRound_identity {subscription : Bytes}
    (hencodes : encodeSubscription m.topics = .ok subscription) :
    (m.joinRound config answers).member.commitIdentity =
      { generationId := (answers.granted.map (·.generationId)).getD m.generationId
        memberId := ((answers.granted.map (·.memberId)).or answers.minted).getD m.memberId } := by
  have hjoined : ∀ (m' : GroupMember) (sent : List GroupRequest) (response : JoinGroupResponse),
      (m'.joinedRound answers sent response).member.commitIdentity =
        { generationId := (((some response).filter (·.errorCode.isOk)).map
            (·.generationId)).getD m'.generationId
          memberId := (((some response).filter (·.errorCode.isOk)).map
            (·.memberId)).getD m'.memberId } := by
    intro m' sent response
    rw [joinedRound_identity]
    cases hok : response.errorCode.isOk with
    | true => simp only [Option.filter, hok, if_true, Option.map_some, Option.getD_some]
    | false =>
        simp only [Option.filter, hok, Bool.false_eq_true, if_false, Option.map_none,
          Option.getD_none, GroupMember.commitIdentity]
  unfold GroupMember.joinRound RoundAnswers.granted RoundAnswers.minted RoundAnswers.reply
  rw [hencodes]
  cases answers.lease with
  | error e => rfl
  | ok _ =>
      cases answers.joinVersion with
      | error e => rfl
      | ok _ =>
          cases answers.join with
          | error e => rfl
          | ok response =>
              dsimp only
              split
              · cases answers.joinAgain with
                | error e => rfl
                | ok again =>
                    refine (hjoined _ _ _).trans ?_
                    simp only [Except.toOption, Option.getD_or, Option.getD_some]
              · refine (hjoined _ _ _).trans ?_
                simp only [Except.toOption, Option.or_none]

/-- An attempt of a rejoin that goes on or fails. -/
theorem attempt_identity (hreturns : m.returns config answers = true)
    (hfails : ∀ value, (m.attempt config answers).1 ≠ .done value) :
    (m.attempt config answers).2.commitIdentity =
        { generationId := (answers.granted.map (·.generationId)).getD m.generationId
          memberId := answers.named.getD m.memberId } ∧
      (m.joinRound config answers).outcome.any (·.isOk) = false := by
  unfold GroupMember.returns at hreturns
  cases hencodes : encodeSubscription m.topics with
  | error e =>
      unfold GroupMember.joinRound at hreturns
      rw [hencodes] at hreturns
      cases hreturns
  | ok subscription =>
      have hidentity := @joinRound_identity config answers m subscription hencodes
      have houtcome := @joinRound_outcome config answers m subscription hencodes
      unfold GroupMember.attempt at hfails ⊢
      unfold RoundAnswers.named
      rw [← houtcome]
      generalize m.joinRound config answers = round at hreturns hidentity hfails ⊢
      obtain ⟨outcome, member, sent⟩ := round
      cases outcome with
      | none => cases hreturns
      | some result =>
          cases result with
          | ok value => exact absurd rfl (hfails value)
          | error e =>
              refine ⟨?_, rfl⟩
              by_cases hunknown : e = .broker .unknownMemberId
              · subst hunknown
                have heq := congrArg CommitIdentity.generationId hidentity
                exact congrArg
                  (fun g => ({ generationId := g, memberId := "" } : CommitIdentity)) heq
              · have hne : some (Except.error e) ≠
                    (some (.error (.broker .unknownMemberId)) : Outcome Unit) := fun heq =>
                  hunknown (Except.error.inj (Option.some.inj heq))
                rw [if_neg hne]
                dsimp only
                split
                · exact hidentity
                · split
                  · exact hidentity
                  · exact hidentity

end Round

section Rejoins

variable {config : GroupConfig} {s t u : Holding} {rounds : List RoundAnswers} {e : ClientError}

open Holding

/-- A rejoin that fails keeps the generation it got last. -/
theorem rejoin_failed (h : rejoin config rounds s = some (.error e, t)) :
    t.member.commitIdentity =
        { generationId := lastGeneration rounds s.member.generationId
          memberId := lastMemberId rounds s.member.memberId } ∧
      t.heldUnder = s.heldUnder := by
  have hgeneration := retryRounds_error (fun s : Holding => s.member.generationId)
    (fun generation answers => (answers.granted.map (·.generationId)).getD generation)
    (fun answers s hreturns hfails =>
      congrArg CommitIdentity.generationId (attempt_identity hreturns hfails).1) h
  have hmemberId := retryRounds_error (fun s : Holding => s.member.memberId)
    (fun memberId answers => answers.named.getD memberId)
    (fun answers s hreturns hfails =>
      congrArg CommitIdentity.memberId (attempt_identity hreturns hfails).1) h
  have hheld := retryRounds_error (fun s : Holding => s.heldUnder)
    (fun held _ => held)
    (fun answers s hreturns hfails => by
      show (if _ then _ else s.heldUnder) = s.heldUnder
      rw [(attempt_identity hreturns hfails).2]
      rfl) h
  refine ⟨?_, hheld.trans (List.foldl_fixed _)⟩
  unfold GroupMember.commitIdentity
  rw [show t.member.generationId = _ from hgeneration, show t.member.memberId = _ from hmemberId]
  rfl

/-- A heartbeat leaves the commits as they were. -/
theorem heartbeatAttempt_keeps (answers : HeartbeatAnswers) (hs : CommitsAsHeld s) :
    CommitsAsHeld { s with member := (s.member.heartbeatAttempt answers).2 } := by
  unfold GroupMember.heartbeatAttempt
  cases answers.coordinator with
  | error e => exact hs
  | ok _ =>
      cases answers.response with
      | error e => exact hs
      | ok code =>
          dsimp only
          split
          · exact hs
          · split
            · exact hs
            · split
              · exact ⟨hs.generation, .inr rfl⟩
              · exact hs

theorem idles_keeps (hs : CommitsAsHeld s) (h : Idles config s u) : CommitsAsHeld u := by
  refine Reachable.invariant ?_ ?_ h
  · rintro _ rfl
    exact hs
  · rintro t answers u ht ⟨r, hbeat⟩
    exact retryRounds_keeps (fun answers _ _ hs => heartbeatAttempt_keeps answers hs) ht hbeat

/-- Every commit after a failed rejoin goes as the partitions are held, exactly where
the answers of the rejoin leave the generation and the member id they are held under. -/
theorem failedRejoin_commitsAsHeld_iff (config : GroupConfig) (s t : Holding)
    (rounds : List RoundAnswers) (e : ClientError)
    (h : rejoin config rounds s = some (.error e, t)) :
    (∀ u, Idles config t u → CommitsAsHeld u) ↔
      lastGeneration rounds s.member.generationId = s.heldUnder.generationId ∧
        (lastMemberId rounds s.member.memberId = s.heldUnder.memberId ∨
          lastMemberId rounds s.member.memberId = "") := by
  obtain ⟨hidentity, hheld⟩ := rejoin_failed h
  have hiff : CommitsAsHeld t ↔
      lastGeneration rounds s.member.generationId = s.heldUnder.generationId ∧
        (lastMemberId rounds s.member.memberId = s.heldUnder.memberId ∨
          lastMemberId rounds s.member.memberId = "") := by
    refine ⟨fun ht => ?_, fun ht => ⟨?_, ?_⟩⟩
    · have ⟨hgeneration, hmember⟩ := ht
      rw [hidentity, hheld] at hgeneration hmember
      exact ⟨hgeneration, hmember⟩
    · rw [hidentity, hheld]
      exact ht.1
    · rw [hidentity, hheld]
      exact ht.2
  rw [← hiff]
  exact ⟨fun h => h t (.start rfl), fun ht u hu => idles_keeps ht hu⟩

/-- A member of which partition 0 of `t` is, in this generation. -/
def handsOut (generationId : Int32) (sync : ErrorCode) : RoundAnswers :=
  { lease := .ok ()
    joinVersion := .ok 7
    join := .ok
      { errorCode := ⟨0⟩
        generationId
        leader := "other"
        memberId := "m"
        members := [] }
    joinAgain := .error .connectionClosed
    refreshMetadata := .ok ()
    partitionCount := fun _ => none
    syncVersion := .ok 5
    sync := .ok
      { errorCode := sync
        assignment := [0, 0, 0, 0, 0, 1, 0, 1, 116, 0, 0, 0, 1, 0, 0, 0, 0, 255, 255, 255, 255] } }

def joinedIn (generationId : Int32) : Option Holding :=
  ((rejoin .default [handsOut generationId ⟨0⟩]
    { member := .new "g" ["t"], heldUnder := (GroupMember.new "g" ["t"]).commitIdentity }).filter
      fun out => out.1.isOk).map (·.2)

theorem starts_of_joinedIn {generationId : Int32} {s : Holding}
    (h : joinedIn generationId = some s) : Starts .default s := by
  obtain ⟨⟨r, u⟩, hjoin, heq⟩ := Option.map_eq_some_iff.mp h
  obtain ⟨hjoin, hok⟩ := Option.filter_eq_some_iff.mp hjoin
  cases heq
  cases r with
  | error e => cases hok
  | ok _ => exact ⟨"g", ["t"], [handsOut generationId ⟨0⟩], hjoin⟩

/-- A rejoin that fails before JoinGroup is answered. -/
theorem failedRejoin_commitsAsHeld_once : ∃ s t : Holding, Lives .default s ∧
    rejoin .default [{ handsOut 2 ⟨0⟩ with join := .error (.broker ⟨30⟩) }] s =
      some (.error (.broker ⟨30⟩), t) ∧
    t.member.assignment = [("t", [0])] ∧ ∀ u, Idles .default t u → CommitsAsHeld u := by
  have hrun : ((joinedIn 1).bind fun s =>
      (rejoin .default [{ handsOut 2 ⟨0⟩ with join := .error (.broker ⟨30⟩) }] s).map fun out =>
        (out.1, out.2.member.assignment,
          decide (s.member.commitIdentity = s.heldUnder ∧ s.heldUnder = ⟨1, "m"⟩))) =
      some (.error (.broker ⟨30⟩), [("t", [0])], true) := by
    decide
  obtain ⟨s, hjoin, hrest⟩ := Option.bind_eq_some_iff.mp hrun
  obtain ⟨⟨r, t⟩, hrejoin, heq⟩ := Option.map_eq_some_iff.mp hrest
  obtain ⟨rfl, heq⟩ := Prod.mk.inj heq
  obtain ⟨hassignment, hheld⟩ := Prod.mk.inj heq
  obtain ⟨hidentity, hheld⟩ := of_decide_eq_true hheld
  refine ⟨s, t, .start (starts_of_joinedIn hjoin), hrejoin, hassignment, ?_⟩
  refine (failedRejoin_commitsAsHeld_iff .default s t _ _ hrejoin).mpr ⟨?_, .inl ?_⟩
  · exact congrArg CommitIdentity.generationId hidentity
  · exact congrArg CommitIdentity.memberId hidentity

/-- A rejoin that fails in SyncGroup leaves the new generation over the old partitions. -/
theorem not_failedRejoin_commitsAsHeld : ¬ ∀ (config : GroupConfig) (s t u : Holding)
    (rounds : List RoundAnswers) (e : ClientError), Lives config s →
      rejoin config rounds s = some (.error e, t) → Idles config t u → CommitsAsHeld u := by
  intro h
  have hrun : ((joinedIn 1).bind fun s => (rejoin .default [handsOut 2 ⟨30⟩] s).map fun out =>
      (out.1, out.2.member.generationId, out.2.heldUnder.generationId)) =
        some (.error (.broker ⟨30⟩), 2, 1) := by
    decide
  obtain ⟨s, hjoin, hrest⟩ := Option.bind_eq_some_iff.mp hrun
  obtain ⟨⟨r, t⟩, hrejoin, heq⟩ := Option.map_eq_some_iff.mp hrest
  obtain ⟨rfl, heq⟩ := Prod.mk.inj heq
  obtain ⟨hgeneration, hheld⟩ := Prod.mk.inj heq
  have hkept := (h .default s t t _ _ (.start (starts_of_joinedIn hjoin)) hrejoin
    (.start rfl)).generation
  cases hgeneration.symm.trans (hkept.trans hheld)

end Rejoins

end Odradek.Client
