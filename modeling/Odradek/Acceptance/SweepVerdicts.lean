import Odradek.Acceptance.SoundExchanges
import Odradek.Library.Results
import Odradek.Protocol.RecordsRoundTrip

/-!
The verdicts of the sweeps that stop at the first trouble, and of the one that
forgets it: what the offset sweeps return is always earned, what the coordinator
sweep returns where nothing went wrong that only it knows of.
-/

namespace Odradek.Acceptance.Server

open Library Odradek.Protocol Odradek.Client

section Negotiation

theorem toInt_versionsFrom {lowest highest : Int16} {i : Nat}
    (hi : i < (highest.toInt - lowest.toInt + 1).toNat) :
    (Int16.ofInt (lowest.toInt + i)).toInt = lowest.toInt + i := by
  have hlow := lowest.le_toInt
  have hhigh := highest.toInt_lt
  exact Int16.toInt_ofInt_of_le (by omega) (by omega)

theorem mem_versionsFrom {lowest highest version : Int16} :
    version ∈ versionsFrom lowest highest ↔ lowest ≤ version ∧ version ≤ highest := by
  rw [versionsFrom, List.mem_map, Int16.le_iff_toInt_le, Int16.le_iff_toInt_le]
  constructor
  · intro ⟨i, hi, hversion⟩
    rw [List.mem_range] at hi
    rw [← hversion, toInt_versionsFrom hi]
    omega
  · intro ⟨hlow, hhigh⟩
    refine ⟨(version.toInt - lowest.toInt).toNat, List.mem_range.mpr (by omega), ?_⟩
    have hsum : lowest.toInt + (version.toInt - lowest.toInt).toNat = version.toInt := by omega
    rw [hsum, Int16.ofInt_toInt]

theorem nodup_versionsFrom (lowest highest : Int16) : (versionsFrom lowest highest).Nodup := by
  refine List.Nodup.map_on ?_ List.nodup_range
  intro i hi j hj heq
  have hints := congrArg Int16.toInt heq
  rw [toInt_versionsFrom (List.mem_range.mp hi), toInt_versionsFrom (List.mem_range.mp hj)] at hints
  omega

/-- What is negotiated is what both sides speak, and nothing where that is empty. -/
theorem negotiateAll_spec (api : String) (advertised : Option (Int16 × Int16))
    (checkMin checkMax version : Int16) :
    (∃ low high, advertised = some (low, high) ∧ low ≤ version ∧ version ≤ high ∧
        checkMin ≤ version ∧ version ≤ checkMax) ↔
      ∃ versions, negotiateAll api advertised checkMin checkMax = .ok versions ∧
        version ∈ versions := by
  cases advertised with
  | none =>
      refine iff_of_false (fun ⟨_, _, h, _⟩ => by cases h) fun ⟨versions, h, _⟩ => ?_
      cases h
  | some range =>
      obtain ⟨low, high⟩ := range
      have hspeaks : (∃ low' high', some (low, high) = some (low', high') ∧ low' ≤ version ∧
          version ≤ high' ∧ checkMin ≤ version ∧ version ≤ checkMax) ↔
          low ≤ version ∧ version ≤ high ∧ checkMin ≤ version ∧ version ≤ checkMax :=
        ⟨fun ⟨_, _, h, hrest⟩ => by cases h; exact hrest, fun h => ⟨low, high, rfl, h⟩⟩
      have hsent :
        (∃ versions, negotiateAll api (some (low, high)) checkMin checkMax = .ok versions ∧
          version ∈ versions) ↔
          ¬ ((if high ≤ checkMax then high else checkMax) < low ∨
            (if high ≤ checkMax then high else checkMax) < checkMin) ∧
          (if low ≤ checkMin then checkMin else low) ≤ version ∧
          version ≤ if high ≤ checkMax then high else checkMax := by
        unfold negotiateAll negotiate
        dsimp only
        generalize (if high ≤ checkMax then high else checkMax) = top
        split
        case isTrue h => exact iff_of_false (fun ⟨_, h, _⟩ => by cases h) fun hnot => hnot.1 h
        case isFalse h =>
          constructor
          · intro ⟨versions, hversions, hmem⟩
            cases hversions
            exact ⟨h, mem_versionsFrom.mp hmem⟩
          · exact fun hrange => ⟨_, rfl, mem_versionsFrom.mpr hrange.2⟩
      rw [hspeaks, hsent]
      simp only [Int16.le_iff_toInt_le, Int16.lt_iff_toInt_lt]
      split <;> split <;> omega

variable {ctx : ServerCtx} {api : SweptApi} {name : String} {version : Int16}

theorem SweptApi.negotiated_iff (ctx : ServerCtx) (api : SweptApi) (name : String)
    (version : Int16) :
    api.Negotiated ctx version ↔
      ∃ versions, versionsOf ctx api.apiKey name api.min api.max = .ok versions ∧
        version ∈ versions := by
  unfold SweptApi.Negotiated versionsOf ServerCtx.range
  cases hkeys : ctx.discovery with
  | error details =>
      refine iff_of_false (fun ⟨_, _, _, h, _⟩ => by cases h) fun ⟨_, h, _⟩ => ?_
      cases h
  | ok keys =>
      refine Iff.trans ?_ (negotiateAll_spec name (advertisedRange keys api.apiKey) _ _ _)
      constructor
      · intro ⟨keys', low, high, h, hrest⟩
        cases h
        exact ⟨low, high, hrest⟩
      · exact fun ⟨low, high, hrest⟩ => ⟨keys, low, high, rfl, hrest⟩

theorem nodup_versionsOf {apiKey checkMin checkMax : Int16} {versions : List Int16}
    (h : versionsOf ctx apiKey name checkMin checkMax = .ok versions) : versions.Nodup := by
  obtain ⟨advertised, _, h⟩ := except_bind_eq_ok.mp h
  obtain ⟨highest, _, h⟩ := except_bind_eq_ok.mp h
  cases h
  exact nodup_versionsFrom _ _

theorem unjudges_versionsOf (apiKey checkMin checkMax : Int16) :
    Unjudges (versionsOf ctx apiKey name checkMin checkMax) :=
  (unjudges_range ctx apiKey).bind fun _ => unjudges_negotiateAll _ _ _ _

end Negotiation

section Verdicts

variable {S : Scope} {ctx : ServerCtx} {t u : Trace}

theorem Scope.Clear.unopened (ht : S.Clear t) : ¬ ∃ site, Unopened site t := by
  intro ⟨site, e, hmem, h⟩
  have he := ht.within e hmem
  obtain ⟨op, r⟩ := e
  refine ht.opened ⟨⟨op, r⟩, hmem, ?_⟩
  cases op with
  | connect => exact ⟨he, h.2⟩
  | authenticate => exact ⟨he, h.2⟩
  | _ => exact h

theorem Scope.Ended.judges {verdict : Verdict} (h : S.Ended t verdict) :
    S.check.Judges ctx t verdict := by
  cases verdict with
  | pass => exact h.elim
  | fail details =>
      exact ⟨fun _ _ => h.2, nofun, fun _ hnot => absurd h.2 hnot⟩
  | skipped reason =>
      exact ⟨nofun, nofun, fun _ _ => .inr ⟨_, rfl⟩⟩
  | error details =>
      exact ⟨nofun, nofun, fun _ _ => .inl ⟨_, rfl⟩⟩

/-- A check that may ask anything, over connections it needs. -/
def whole (check : SweepCheck) : Scope := { check, site := .needed, asks := fun _ _ => True }

theorem judge_meets {x : Judged Verdict} {Q : Trace → Verdict → Prop}
    (hx : Program.After [] x Q Q) : (judge x).Meets Q := by
  refine Program.meets_bind hx fun t r hr => ?_
  cases r with
  | ok verdict =>
      refine Program.meets_done ?_
      rw [List.append_nil]
      exact hr
  | error verdict =>
      refine Program.meets_done ?_
      rw [List.append_nil]
      exact hr

/-- A check that passes at its end, and only with every version spoken. -/
theorem judge_judges {x : Judged Verdict}
    (hx : S.Fair [] x fun t verdict => verdict = .pass ∧ S.check.Complete ctx t) :
    (judge x).Meets (S.check.Judges ctx) := by
  refine judge_meets (Program.After.imp hx (fun t verdict ⟨hclear, hpass, hcomplete⟩ => ?_)
    fun _ _ => Scope.Ended.judges)
  rw [hpass]
  exact ⟨nofun, fun _ => hcomplete, fun h => absurd h hclear.unopened⟩

/-- One version after the other. -/
theorem fair_versions {body : Int16 × Nat → Judged Unit} {P : Int16 → Trace → Prop}
    (mono : ∀ version t u, P version t → P version (t ++ u))
    (step : ∀ swept t, S.Clear t → S.Fair t (body swept) fun t' _ => t <+: t' ∧ P swept.1 t')
    (versions : List Int16) (ht : S.Clear t) :
    S.Fair t (Program.each (fun swept () => body swept) versions.zipIdx ())
      fun t' _ => ∀ version ∈ versions, P version t' := by
  refine Program.After.imp (Program.after_each
    (I := fun past u _ => S.Clear u ∧ ∀ swept ∈ past, P swept.1 u)
    (fun past swept _ _ u _ ⟨hu, hpast⟩ => ?_) ⟨ht, List.forall_mem_nil _⟩)
    (fun u _ ⟨hu, hall⟩ => ⟨hu, fun version hmem => ?_⟩) fun _ _ => id
  · refine Program.After.imp (step swept u hu) (fun v _ ⟨hv, hbefore, hP⟩ => ⟨hv, ?_⟩) fun _ _ => id
    obtain ⟨w, rfl⟩ := hbefore
    exact List.forall_mem_append.mpr
      ⟨fun swept hmem => mono _ _ _ (hpast swept hmem), List.forall_mem_singleton.mpr hP⟩
  · obtain ⟨i, hi⟩ := List.getElem?_of_mem hmem
    exact hall (version, i) (List.mem_zipIdx_iff_getElem?.mpr hi)

end Verdicts

section ListOffsets

variable {S : Scope} {ctx : ServerCtx} {t : Trace} {conn : Conn} {version : Int16}
  {correlation : Int32} {topic : String} {timestamp : Int64} {produced : ProducedTopic}

/-- What the suite is to be told of a log of the probe records alone. -/
def expectedOffset (timestamp : Int64) : Int64 :=
  if timestamp = earliestTimestamp then 0 else Int64.ofNat probeRecords.length

/-- The last answer lists this offset of the topic. -/
def Lists (version : Int16) (topic : String) (timestamp offset : Int64) (e : Event) : Prop :=
  ∃ conn correlation resp partition,
    e = ⟨.call ⟨conn, version, correlation, .listOffsets topic timestamp⟩, .ok resp⟩ ∧
      listedPartition resp topic = some partition ∧ partition.errorCode.isOk = true ∧
      partition.offset = offset

theorem Lists.wrong {offset : Int64} {e : Event} (h : Lists version topic timestamp offset e)
    (hoffset : offset ≠ expectedOffset timestamp) : S.check.Wrong e := by
  obtain ⟨conn, correlation, resp, partition, rfl, hpartition, _, rfl⟩ := h
  intro answer hanswer ⟨other, hother, _, hexpected⟩
  cases hanswer
  rw [hpartition] at hother
  cases hother
  exact hoffset hexpected

theorem Lists.plain {offset : Int64} {e : Event} (h : Lists version topic timestamp offset e) :
    ¬ e.1.Deferrable := by
  obtain ⟨conn, correlation, resp, partition, rfl, _⟩ := h
  exact fun h => by cases h

theorem Lists.spoken {api : SweptApi} {e : Event}
    (h : Lists version topic timestamp (expectedOffset timestamp) e) (hkey : api.apiKey = 2)
    (hasks : api.asks (.listOffsets topic timestamp)) : api.Spoken .listOffsets version e := by
  obtain ⟨conn, correlation, resp, partition, rfl, hpartition, hok, hoffset⟩ := h
  exact ⟨rfl, hkey.symm, hasks, resp, rfl, partition, hpartition, hok, hoffset⟩

theorem listOffsetsAt_sound (hasks : S.asks version (.listOffsets topic timestamp))
    (ht : S.Clear t) :
    S.Sound t (listOffsetsAt conn version topic timestamp correlation) fun t' offset =>
      ∃ e, t' = t ++ [e] ∧ Lists version topic timestamp offset e := by
  refine Scope.sound_bind (Q := fun u resp => u = t ++ [⟨.call ⟨conn, version, correlation,
      .listOffsets topic timestamp⟩, .ok resp⟩])
    (Scope.apiCall_sound ht (.inr hasks) fun _ => rfl) fun u resp hu heq => ?_
  have hwrong (h : ∀ partition, listedPartition resp topic = some partition →
      partition.errorCode.isOk ≠ true) : S.check.Unanswered u := by
    rw [heq]
    refine blamed_last fun answer hanswer ⟨partition, hpartition, hok, _⟩ => ?_
    cases hanswer
    exact h partition hpartition hok
  cases hpartition : listedPartition resp topic with
  | none =>
      refine Scope.sound_violation hu (hwrong fun partition h => ?_)
      rw [hpartition] at h
      cases h
  | some partition =>
      dsimp only
      split
      case isTrue hok =>
        exact Scope.sound_pure hu
          ⟨_, heq, conn, correlation, resp, partition, rfl, hpartition, hok, rfl⟩
      case isFalse hok =>
        refine Scope.sound_violation hu (hwrong fun other h => ?_)
        rw [hpartition] at h
        cases h
        exact hok

/-- Both ends of the log, as expected of it. -/
def Spans (version : Int16) (t : Trace) : Prop :=
  ∃ topic, (∃ e ∈ t, Lists version topic earliestTimestamp (expectedOffset earliestTimestamp) e) ∧
    ∃ e ∈ t, Lists version topic latestTimestamp (expectedOffset latestTimestamp) e

theorem Spans.append {u : Trace} (h : Spans version t) : Spans version (t ++ u) := by
  obtain ⟨topic, ⟨e, he, hearliest⟩, e', he', hlatest⟩ := h
  exact ⟨topic, ⟨e, List.mem_append_left _ he, hearliest⟩, e', List.mem_append_left _ he', hlatest⟩

/-- One version spans the log, or ends the check fairly. -/
theorem spanAt_fair {swept : Int16 × Nat}
    (hasks : ∀ timestamp, S.asks swept.1 (.listOffsets produced.topic timestamp))
    (ht : S.Clear t) :
    S.Fair t (spanAt produced (Int64.ofNat probeRecords.length) swept)
      fun t' _ => t <+: t' ∧ Spans swept.1 t' := by
  refine Scope.fair_bind ((listOffsetsAt_sound (hasks _) ht).fair_atVersion _)
    fun u earliest hu ⟨e, hte, he⟩ => ?_
  refine Scope.fair_bind ((listOffsetsAt_sound (hasks _) hu).fair_atVersion _)
    fun v latest hv ⟨e', hte', he'⟩ => ?_
  rw [hte'] at hv ⊢
  split
  case isTrue h =>
    refine Scope.fair_fail hv (Blamed.append_plain ?_ (List.forall_mem_singleton.mpr he'.plain))
    rw [hte]
    exact blamed_last (he.wrong h)
  case isFalse h =>
    obtain rfl : earliest = 0 := Decidable.not_not.mp h
    split
    case isTrue h =>
      exact Scope.fair_fail hv (blamed_last (he'.wrong fun heq => h (by rw [heq]; rfl)))
    case isFalse h =>
      obtain rfl : latest = Int64.ofNat probeRecords.length := by
        rw [← Decidable.not_not.mp h, Int64.sub_zero]
      refine Scope.fair_pure hv ⟨?_, produced.topic, ⟨e, ?_, he⟩, e', List.mem_append_right _
        List.mem_cons_self, he'⟩
      · rw [hte, List.append_assoc]
        exact List.prefix_append _ _
      · rw [hte]
        exact List.mem_append_left _ (List.mem_append_right _ List.mem_cons_self)

theorem probeBatch_charges (ctx : ServerCtx) :
    peak 0 (itemsCharges recordBatchSize RecordBatch.charges [probeBatch ctx] 0) ≤
      defaultMinAllocBytes := by
  change peak 0 (itemsCharges recordSize Record.charges probeRecords 0 ++
    (pushCharges recordBatchSize 0 ++ [])) ≤ defaultMinAllocBytes
  decide

/-- The suite reads back what it produced. -/
theorem sentRecords_eq (h : (probeBatch ctx).encode = .ok produced.sent) :
    sentRecords produced = .ok (Int64.ofNat probeRecords.length) := by
  obtain ⟨hsent, hfits⟩ := RecordBatch.encode_eq_ok h
  have hcompression : (probeBatch ctx).compression = .none := by
    change Compression.fromAttributes 0 = .none
    decide
  have hset : ∀ batch ∈ [probeBatch ctx], batch.Fits ∧ batch.Coherent :=
    List.forall_mem_singleton.mpr ⟨hfits, hcompression⟩
  have hlimit (length : Nat) : defaultMinAllocBytes ≤ Limits.default.allocBytesFor length :=
    Nat.le_min.mpr ⟨Nat.le_max_right _ _, by decide⟩
  have hrun := runDecode_decodes (decodeSet_decodes hset (.inl rfl))
    (Nat.le_trans (probeBatch_charges ctx) (hlimit _))
  simp only [List.flatMap_cons, List.flatMap_nil, List.append_nil] at hrun
  rw [sentRecords, hsent, hrun]
  rfl

theorem listOffsetsEarliestLatest_judges (ctx : ServerCtx) :
    (listOffsetsEarliestLatest ctx).Meets (SweepCheck.listOffsets.Judges ctx) := by
  refine judge_judges (S := whole .listOffsets) ?_
  refine Scope.fair_bind (Q := fun t versions => t = [] ∧
      versionsOf ctx 2 "ListOffsets" 1 10 = .ok versions)
    (Scope.fair_unjudged Scope.clear_nil (unjudges_versionsOf 2 1 10) fun _ h => ⟨rfl, h⟩)
    fun t versions ht ⟨hnil, hversions⟩ => ?_
  rw [hnil]
  refine Scope.fair_bind (Scope.produceFlow_fair rfl (fun _ _ _ => trivial) fun _ _ _ => trivial)
    fun t produced ht hproduced => ?_
  rw [sentRecords_eq hproduced.2]
  refine Scope.fair_bind (Q := fun _ records => records = Int64.ofNat probeRecords.length)
    (Scope.fair_pure ht rfl) fun u records hu heq => ?_
  rw [heq]
  refine Scope.fair_bind (fair_versions (P := Spans) (fun _ _ _ => Spans.append)
    (fun swept t ht => spanAt_fair (fun _ => trivial) ht) versions hu) fun v _ hv hspans =>
      Scope.fair_pure hv ⟨rfl, fun api hapi version hnegotiated _ => ?_⟩
  have hmem {api : SweptApi} (hrange : api.apiKey = 2 ∧ api.min = 1 ∧ api.max = 10)
      (h : api.Negotiated ctx version) : version ∈ versions := by
    obtain ⟨versions', hversions', hmem⟩ := (api.negotiated_iff ctx "ListOffsets" version).mp h
    rw [hrange.1, hrange.2.1, hrange.2.2, hversions] at hversions'
    exact Except.ok.inj hversions' ▸ hmem
  obtain rfl | hapi := List.mem_cons.mp hapi
  · obtain ⟨topic, ⟨e, he, hlists⟩, _⟩ := hspans version (hmem ⟨rfl, rfl, rfl⟩ hnegotiated)
    exact ⟨e, he, hlists.spoken rfl ⟨topic, rfl⟩⟩
  · obtain rfl := List.mem_singleton.mp hapi
    obtain ⟨topic, _, e, he, hlists⟩ := hspans version (hmem ⟨rfl, rfl, rfl⟩ hnegotiated)
    exact ⟨e, he, hlists.spoken rfl ⟨topic, rfl⟩⟩

end ListOffsets

section RoundTrip

variable {S : Scope} {ctx : ServerCtx} {t : Trace} {conn : Conn} {version : Int16}
  {correlation : Int32} {group topic : String} {topicId : Uuid} {produced : ProducedTopic}

def Reads (version : Int16) (group topic : String) (topicId : Uuid) (offset : Int64)
    (e : Event) : Prop :=
  ∃ conn correlation resp code,
    e = ⟨.call ⟨conn, version, correlation, .offsetFetch group topic topicId⟩, .ok resp⟩ ∧
      fetchedOffset resp version group topic topicId = .ok (code, offset) ∧ code.isOk = true

theorem Reads.wrong {offset : Int64} {e : Event} (h : Reads version group topic topicId offset e)
    (hoffset : offset ≠ committedInRoundTrip) : S.check.Wrong e := by
  obtain ⟨conn, correlation, resp, code, rfl, hfetched, _⟩ := h
  intro answer hanswer ⟨other, hother, _⟩
  cases hanswer
  rw [hfetched] at hother
  cases hother
  exact hoffset rfl

theorem fetchCommitted_sound (hasks : S.asks version (.offsetFetch group topic topicId))
    (ht : S.Clear t) :
    S.Sound t (fetchCommitted conn version group topic topicId correlation) fun t' offset =>
      ∃ e, t' = t ++ [e] ∧ Reads version group topic topicId offset e := by
  refine Scope.sound_bind (Q := fun u resp => u = t ++ [⟨.call ⟨conn, version, correlation,
      .offsetFetch group topic topicId⟩, .ok resp⟩])
    (Scope.apiCall_sound ht (.inr hasks) fun _ => rfl) fun u resp hu heq => ?_
  have hwrong (h : ∀ code offset, fetchedOffset resp version group topic topicId =
      .ok (code, offset) → code.isOk ≠ true) : S.check.Unanswered u := by
    rw [heq]
    refine blamed_last fun answer hanswer ⟨code, hfetched, hok⟩ => ?_
    cases hanswer
    exact h code _ hfetched hok
  cases hfetched : fetchedOffset resp version group topic topicId with
  | error details =>
      refine Scope.sound_violation hu (hwrong fun code offset h => ?_)
      rw [hfetched] at h
      cases h
  | ok fetched =>
      obtain ⟨code, offset⟩ := fetched
      dsimp only
      split
      case isTrue hok =>
        exact Scope.sound_pure hu ⟨_, heq, conn, correlation, resp, code, rfl, hfetched, hok⟩
      case isFalse hok =>
        refine Scope.sound_violation hu (hwrong fun other offset h => ?_)
        rw [hfetched] at h
        cases h
        exact hok

/-- The committed offset was read back at a version that can be asked. -/
def ReadBack (produced : ProducedTopic) (version : Int16) (t : Trace) : Prop :=
  (offsetsByTopicId ≤ version ∧ produced.topicId = zeroUuid) ∨
    ∃ group, ∃ e ∈ t, Reads version group produced.topic produced.topicId committedInRoundTrip e

theorem readBackAt_fair {swept : Int16 × Nat}
    (hasks : S.asks swept.1 (.offsetFetch group produced.topic produced.topicId))
    (ht : S.Clear t) :
    S.Fair t (readBackAt conn produced group swept)
      fun t' _ => t <+: t' ∧ ReadBack produced swept.1 t' := by
  unfold readBackAt
  split
  case isTrue h => exact Scope.fair_pure ht ⟨List.prefix_rfl, .inl h⟩
  case isFalse =>
    refine Scope.fair_bind ((fetchCommitted_sound hasks ht).fair_atVersion _)
      fun u got hu ⟨e, hte, he⟩ => ?_
    rw [hte] at hu ⊢
    split
    case isTrue hgot =>
      exact Scope.fair_pure hu ⟨List.prefix_append _ _, .inr ⟨group, e,
        List.mem_append_right _ List.mem_cons_self, hgot ▸ he⟩⟩
    case isFalse hgot => exact Scope.fair_fail hu (blamed_last (he.wrong hgot))

theorem unjudges_unlessSkipped (produced : ProducedTopic) (version : Int16) :
    Unjudges (unlessSkipped (skipWithoutTopicId produced version)) := by
  intro verdict h
  unfold skipWithoutTopicId at h
  split at h
  · cases h
    exact .inr ⟨_, rfl⟩
  · cases h

/-- What the round trip does once it has produced. -/
def settledRoundTrip : Scope :=
  { check := .commitFetchRoundtrip, site := .needed
    asks := fun _ request => ∀ topic replicas, request ≠ .createTopics topic replicas false }

theorem offsetsCommitFetchRoundtrip_judges (ctx : ServerCtx) :
    (offsetsCommitFetchRoundtrip ctx).Meets (SweepCheck.commitFetchRoundtrip.Judges ctx) := by
  refine judge_judges (S := whole .commitFetchRoundtrip) ?_
  refine Scope.fair_bind (Q := fun t versions => t = [] ∧
      versionsOf ctx 9 "OffsetFetch" 1 10 = .ok versions.2)
    (Scope.fair_unjudged Scope.clear_nil ?_ fun versions h => ⟨rfl, ?_⟩)
    fun t versions ht ⟨hnil, hversions⟩ => ?_
  · refine (unjudges_range ctx 8).bind fun _ => (unjudges_negotiate _ _ _ _).bind fun _ => ?_
    refine (unjudges_range ctx 9).bind fun _ => ?_
    exact (unjudges_negotiateAll _ _ _ _).bind fun _ => unjudges_ok _
  · obtain ⟨commits, _, h⟩ := except_bind_eq_ok.mp h
    obtain ⟨commit, _, h⟩ := except_bind_eq_ok.mp h
    obtain ⟨fetches, hfetches, h⟩ := except_bind_eq_ok.mp h
    obtain ⟨fetch, hfetch, h⟩ := except_bind_eq_ok.mp h
    cases h
    exact except_bind_eq_ok.mpr ⟨fetches, hfetches, hfetch⟩
  rw [hnil]
  refine Scope.fair_bind (Scope.produceFlow_fair rfl (fun _ _ _ => trivial) fun _ _ _ => trivial)
    fun t produced ht hproduced => ?_
  refine Program.After.imp (Scope.Fair.widen (S := whole .commitFetchRoundtrip)
    (T := settledRoundTrip)
    (Q := fun u verdict => verdict = .pass ∧ ∀ version ∈ versions.2, ReadBack produced version u)
    ?_ rfl rfl (fun _ _ _ => trivial) ht) (fun u verdict h => ?_) fun _ _ => id
  · have hclear := Scope.clear_nil (S := settledRoundTrip)
    refine Scope.fair_bind (Q := fun _ _ => True) (Scope.fair_unjudged hclear
      (unjudges_unlessSkipped produced versions.1) fun _ _ => trivial) fun u _ hu _ => ?_
    refine Scope.fair_bind (Scope.Sound.fair (Scope.commitOffsetSettled_sound rfl
      (fun _ _ _ => nofun) (fun _ _ => nofun) hu)) fun v conn hv _ => ?_
    refine Scope.fair_bind (fair_versions (P := ReadBack produced) ?_
      (fun swept t ht => readBackAt_fair (fun _ _ => nofun) ht) versions.2 hv) fun w _ hw hread =>
        Scope.fair_pure hw ⟨rfl, hread⟩
    exact fun version t u h => h.imp id fun ⟨group, e, he, hreads⟩ =>
      ⟨group, e, List.mem_append_left _ he, hreads⟩
  · obtain ⟨hu, v, rfl, hv, hverdict, hread⟩ := h
    refine ⟨hu, hverdict, fun api hapi version hnegotiated hid => ?_⟩
    obtain rfl := List.mem_singleton.mp hapi
    obtain ⟨versions', hversions', hmem⟩ :=
      (SweptApi.negotiated_iff ctx _ "OffsetFetch" version).mp hnegotiated
    rw [show versions' = versions.2 from Except.ok.inj (hversions'.symm.trans hversions)] at hmem
    obtain ⟨hversion, hzero⟩ | ⟨group, e, he, conn, correlation, resp, code, rfl, hfetched, hok⟩ :=
      hread version hmem
    · -- Without an id nothing was handed out: what followed the topic created none.
      have hcreates : Creates produced.topicId (t ++ v) := by
        refine List.forall_mem_append.mpr ⟨hproduced.1, fun e he i hi => ?_⟩
        rw [Scope.created_of_within hv.within (fun _ topic replicas h => h topic replicas rfl) e he]
          at hi
        cases hi
      exact absurd hzero (hcreates.handedOut (hid hversion))
    · exact ⟨_, List.mem_append_right _ he, rfl, rfl, trivial, resp, rfl, code, hfetched, hok⟩

end RoundTrip

end Odradek.Acceptance.Server
