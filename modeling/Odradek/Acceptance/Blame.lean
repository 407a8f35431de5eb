import Odradek.Acceptance.VersionSweeps

/-!
Who is to blame for the verdict of a sweep. A run's exchanges say what was not
answered as the check requires, which connections could not be opened, and which
versions were answered; a verdict is judged by them. What the checks' exchanges
leave behind is said once for all checks, within the operations they perform.
-/

namespace Odradek.Acceptance.Server

open Library Odradek.Protocol Odradek.Client

abbrev Event := Exchange Op Op.Res

abbrev Trace := List Event

inductive SweepCheck
  | findCoordinator
  | listOffsets
  | commitFetchRoundtrip
  | advertisedSpeakable
  deriving DecidableEq

def SweepCheck.run (ctx : ServerCtx) : SweepCheck → Run Verdict
  | .findCoordinator => findCoordinatorGroup ctx
  | .listOffsets => listOffsetsEarliestLatest ctx
  | .commitFetchRoundtrip => offsetsCommitFetchRoundtrip ctx
  | .advertisedSpeakable => versionsAdvertisedAreSpeakable ctx

section Answers

def producedPartition (resp : ProduceResponse) : Option PartitionProduceResponse :=
  resp.responses.head?.bind List.head?

/-- One coordinator, for the group that was asked about, at an endpoint. -/
def Coordinates (version : Int16) (group : String) (resp : FindCoordinatorResponse) : Prop :=
  if version ≥ findCoordinatorBatched then
    ∃ c, resp.coordinators = [c] ∧ c.errorCode.isOk = true ∧ c.key = group ∧
      plausibleAddress c.host c.port = true
  else resp.errorCode.isOk = true ∧ plausibleAddress resp.host resp.port = true

/-- What a check requires of an answer. Only the check about coordinators minds which
one it is told, and the sweep of CreateTopics minds no code but the one that sends
it elsewhere. -/
def SweepCheck.Accepts (check : SweepCheck) (version : Int16) :
    (request : Request) → request.Response → Prop
  | .createTopics _ _ validateOnly, resp => ∃ result, resp.topics.head? = some result ∧
      if validateOnly then result.errorCode ≠ .notController else result.errorCode.isOk = true
  | .produce _ _, resp => ∃ partition, producedPartition resp = some partition ∧
      partition.errorCode.isOk = true
  | .produceStamped _ _ _ _, resp => ∃ partition, producedPartition resp = some partition
  | .listOffsets topic timestamp, resp => ∃ partition, listedPartition resp topic = some partition ∧
      partition.errorCode.isOk = true ∧
      partition.offset =
        if timestamp = earliestTimestamp then 0 else Int64.ofNat probeRecords.length
  | .findCoordinator group, resp => check = .findCoordinator → Coordinates version group resp
  | .offsetCommit _ topic topicId _, resp => ∃ code,
      committedCode resp version topic topicId = some code ∧ code.isOk = true
  | .offsetFetch group topic topicId, resp => ∃ code,
      fetchedOffset resp version group topic topicId = .ok (code, committedInRoundTrip) ∧
      code.isOk = true
  | _, _ => True

/-- Not no, but not yet: the check is to ask again. -/
def Request.Defers (version : Int16) : (request : Request) → request.Response → Prop
  | .createTopics _ _ _, resp => createdCode resp = .notController
  | .produce _ _, resp => ∃ partition, producedPartition resp = some partition ∧
      retriable partition.errorCode = true
  | .findCoordinator _, resp => isCoordinatorSettling (coordinatorError resp version) = true
  | .offsetCommit _ topic topicId _, resp =>
      committedCode resp version topic topicId = some .notCoordinator
  | _, _ => False

def Request.deferrable : Request → Bool
  | .createTopics _ _ _ | .produce _ _ | .findCoordinator _ | .offsetCommit _ _ _ _ => true
  | _ => false

end Answers

section Events

/-- Sent on an opened connection, and not answered as the check requires. -/
def SweepCheck.Wrong (check : SweepCheck) : Event → Prop
  | ⟨.authenticate _ _, r⟩ => ∃ details, r = .error (.violation details)
  | ⟨.call c, r⟩ => ∀ resp, r = .ok resp → ¬ check.Accepts c.version c.request resp
  | _ => False

def Deferred : Event → Prop
  | ⟨.call c, r⟩ => ∃ resp, r = .ok resp ∧ c.request.Defers c.version resp
  | _ => False

def Op.Deferrable : Op → Prop
  | .call c => c.request.deferrable = true
  | _ => False

def Op.Repeats : Op → Op → Prop
  | .call c, .call c' => c.version = c'.version ∧ c.request = c'.request
  | _, _ => False

/-- One of these events is there, and was not merely put off. -/
def Blamed (W : Event → Prop) : Trace → Prop
  | [] => False
  | e :: t => (W e ∧ (Deferred e → ∀ e' ∈ t, ¬ e.1.Repeats e'.1)) ∨ Blamed W t

/-- Some request that was sent on an opened connection was not answered as the check
requires. -/
def SweepCheck.Unanswered (check : SweepCheck) (t : Trace) : Prop := Blamed check.Wrong t

def Unopens (site : Site) : Event → Prop
  | ⟨.connect s _, r⟩ => s = site ∧ ∃ details, r = .error details
  | ⟨.authenticate s _, r⟩ => s = site ∧ ∃ details, r = .error (.infra details)
  | _ => False

def Unopened (site : Site) (t : Trace) : Prop := ∃ e ∈ t, Unopens site e

/-- A request that got no answer, through no fault that shows. -/
def Broken : Event → Prop
  | ⟨.call _, r⟩ => ∃ details, r = .error (.infra details)
  | _ => False

/-- The id of the topic that an answer says it created. -/
def createdId : Event → Option Uuid
  | ⟨.call ⟨_, _, _, .createTopics _ _ false⟩, .ok resp⟩ =>
    (resp.topics.head?.filter fun result => result.errorCode.isOk).map (·.topicId)
  | _ => none

def HandedOut (t : Trace) : Prop := ∃ e ∈ t, ∃ id, createdId e = some id ∧ id ≠ zeroUuid

end Events

section Judging

/-- What a check sweeps: the versions of one api, with one question at each. Some
versions can only be asked with a topic's id. -/
structure SweptApi where
  apiKey : Int16
  min : Int16
  max : Int16
  byId : Int16 → Prop
  asks : Request → Prop

namespace SweptApi

def plain (apiKey min max : Int16) : SweptApi :=
  { apiKey, min, max, byId := fun _ => False, asks := fun _ => True }

/-- Advertised, and one of those the check can send. -/
def Negotiated (api : SweptApi) (ctx : ServerCtx) (version : Int16) : Prop :=
  ∃ keys low high, ctx.discovery = .ok keys ∧ advertisedRange keys api.apiKey = some (low, high) ∧
    low ≤ version ∧ version ≤ high ∧ api.min ≤ version ∧ version ≤ api.max

/-- The question was sent at the version, and the answer conforms. -/
def Spoken (api : SweptApi) (check : SweepCheck) (version : Int16) : Event → Prop
  | ⟨.call c, r⟩ => c.version = version ∧ c.request.apiKey = api.apiKey ∧ api.asks c.request ∧
      ∃ resp, r = .ok resp ∧ check.Accepts c.version c.request resp
  | _ => False

def Covered (api : SweptApi) (check : SweepCheck) (version : Int16) (t : Trace) : Prop :=
  ∃ e ∈ t, api.Spoken check version e

end SweptApi

def SweepCheck.apis : SweepCheck → List SweptApi
  | .findCoordinator => [.plain 10 0 6]
  | .listOffsets =>
    [{ SweptApi.plain 2 1 10 with asks := fun request =>
        ∃ topic, request = .listOffsets topic earliestTimestamp },
      { SweptApi.plain 2 1 10 with asks := fun request =>
        ∃ topic, request = .listOffsets topic latestTimestamp }]
  | .commitFetchRoundtrip => [{ SweptApi.plain 9 1 10 with byId := fun version =>
      offsetsByTopicId ≤ version }]
  | .advertisedSpeakable =>
    [.plain 0 3 12, { SweptApi.plain 1 13 18 with byId := fun _ => True },
      { SweptApi.plain 8 2 10 with byId := fun version => offsetsByTopicId ≤ version },
      .plain 19 2 7, .plain 11 0 9, .plain 14 0 5, .plain 12 0 4, .plain 13 0 5, .plain 68 0 1,
      .plain 25 0 4, .plain 26 0 5, .plain 28 0 5, .plain 17 0 1, .plain 36 0 2]

/-- Every version both sides speak was sent and answered as required, those apart
that need an id the subject did not hand out. -/
def SweepCheck.Complete (check : SweepCheck) (ctx : ServerCtx) (t : Trace) : Prop :=
  ∀ api ∈ check.apis, ∀ version, api.Negotiated ctx version →
    (api.byId version → HandedOut t) → api.Covered check version t

/-- A flaky network is never a verdict on the subject. -/
structure SweepCheck.Judges (check : SweepCheck) (ctx : ServerCtx) (t : Trace)
    (verdict : Verdict) : Prop where
  fail : ∀ details, verdict = .fail details → check.Unanswered t
  pass : verdict = .pass → check.Complete ctx t
  error : (∃ site, Unopened site t) → ¬ check.Unanswered t →
    (∃ details, verdict = .error details) ∨ ∃ reason, verdict = .skipped reason

end Judging

section Blaming

variable {W : Event → Prop} {t u : Trace} {e : Event} {op op' : Op}

theorem Deferred.deferrable (h : Deferred e) : e.1.Deferrable := by
  obtain ⟨op, r⟩ := e
  cases op with
  | call c =>
      obtain ⟨resp, _, h⟩ := h
      obtain ⟨_, _, _, request⟩ := c
      cases request <;> first | rfl | exact h.elim
  | _ => exact h.elim

theorem Op.Repeats.deferrable (h : op.Repeats op') (hop : op.Deferrable) : op'.Deferrable := by
  cases op with
  | call c =>
      cases op' with
      | call c' => exact (congrArg Request.deferrable h.2).symm.trans hop
      | _ => exact h.elim
  | _ => exact h.elim

theorem blamed_append_right (h : Blamed W u) : Blamed W (t ++ u) := by
  induction t with
  | nil => exact h
  | cons e t ih => exact .inr ih

theorem blamed_last (h : W e) : Blamed W (t ++ [e]) :=
  blamed_append_right (.inl ⟨h, fun _ _ hmem => by cases hmem⟩)

/-- What was put off for good stays so, as long as it is not asked again. -/
theorem Blamed.append (h : Blamed W t)
    (fresh : ∀ e ∈ t, Deferred e → ∀ e' ∈ u, ¬ e.1.Repeats e'.1) : Blamed W (t ++ u) := by
  induction t with
  | nil => exact h.elim
  | cons e t ih =>
      obtain ⟨hW, hlast⟩ | h := h
      · refine .inl ⟨hW, fun hdeferred e' hmem => ?_⟩
        obtain hmem | hmem := List.mem_append.mp hmem
        · exact hlast hdeferred e' hmem
        · exact fresh e List.mem_cons_self hdeferred e' hmem
      · exact .inr (ih h fun e hmem => fresh e (List.mem_cons_of_mem _ hmem))

theorem Blamed.append_plain (h : Blamed W t) (plain : ∀ e ∈ u, ¬ e.1.Deferrable) :
    Blamed W (t ++ u) :=
  h.append fun _ _ hdeferred e' hmem hrepeats =>
    plain e' hmem (hrepeats.deferrable hdeferred.deferrable)

theorem Blamed.split (h : Blamed W (t ++ u)) : Blamed W t ∨ Blamed W u := by
  induction t with
  | nil => exact .inr h
  | cons e t ih =>
      obtain ⟨hW, hlast⟩ | h := h
      · exact .inl
          (.inl ⟨hW, fun hdeferred e' hmem => hlast hdeferred e' (List.mem_append_left _ hmem)⟩)
      · exact (ih h).imp .inr id

theorem SweptApi.Covered.mono {api : SweptApi} {check : SweepCheck} {version : Int16}
    (h : api.Covered check version t) (hbefore : t <+: u) : api.Covered check version u := by
  obtain ⟨e, hmem, he⟩ := h
  exact ⟨e, hbefore.subset hmem, he⟩

theorem unopened_append {site : Site} :
    Unopened site (t ++ u) ↔ Unopened site t ∨ Unopened site u := by
  simp only [Unopened, List.mem_append, or_and_right, exists_or]

end Blaming

end Odradek.Acceptance.Server
