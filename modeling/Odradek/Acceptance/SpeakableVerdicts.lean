import Odradek.Acceptance.CoordinatorVerdicts

/-!
The verdict of the check that every advertised version can be spoken, which writes
down what went wrong and goes on. A connection of a sequence that cannot be opened is
written down with the rest: alone, it fails a subject that was never asked.
-/

namespace Odradek.Acceptance.Server

open Library Odradek.Protocol Odradek.Client

section Tallies

/-- Something unanswered stays so, whatever of this is asked later. -/
def Stays (todo : Op → Prop) (t : Trace) : Prop :=
  ∀ u, (∀ e ∈ u, todo e.1) → SweepCheck.advertisedSpeakable.Unanswered (t ++ u)

/-- What the notes so far say of the exchanges so far: `todo` is what may still be asked,
`spoken` what must have been answered if there is nothing to note. -/
structure Tallied (topicId : Uuid) (todo : Op → Prop) (spoken : SweptApi → Int16 → Prop) (t : Trace)
    (tally : Tally) : Prop where
  created : Creates topicId t
  needed : ¬ Unopened .needed t
  noted : tally.failures ≠ [] → Unopened .recorded t ∨ Stays todo t
  unopened : Unopened .recorded t → tally.failures ≠ []
  covered : tally.failures = [] → ∀ api version, spoken api version →
    api.Covered .advertisedSpeakable version t

/-- Between two sweeps, notes come with the sweeps they were made in. -/
def Labelled (topicId : Uuid) (todo : Op → Prop) (spoken : SweptApi → Int16 → Prop) (t : Trace)
    (tally : Tally) : Prop :=
  Tallied topicId todo spoken t tally ∧ (tally.failures ≠ [] → tally.swept ≠ [])

/-- A verdict that ends the check before its sweeps are done. -/
def Stopped (t : Trace) : Verdict → Prop
  | .fail _ => SweepCheck.advertisedSpeakable.Unanswered t
  | .error _ => Unopened .needed t ∨ SweepCheck.advertisedSpeakable.Unanswered t
  | _ => False

variable {S : Scope} {topicId : Uuid} {todo todo' : Op → Prop}
  {spoken spoken' : SweptApi → Int16 → Prop}
  {t u : Trace} {tally : Tally}

theorem Stays.append (h : Stays todo t) (hu : ∀ e ∈ u, todo e.1)
    (hsub : ∀ op, todo' op → todo op) : Stays todo' (t ++ u) := by
  intro w hw
  rw [List.append_assoc]
  exact h _ (List.forall_mem_append.mpr ⟨hu, fun e hmem => hsub _ (hw e hmem)⟩)

theorem stays_append_right (h : Stays todo u) : Stays todo (t ++ u) := by
  intro w hw
  rw [List.append_assoc]
  exact blamed_append_right (h w hw)

/-- Within a scope, only its own connections fail to open. -/
theorem site_of_within {site : Site} {e : Event} (hwithin : S.Within e.1) (h : Unopens site e) :
    site = S.site := by
  obtain ⟨op, r⟩ := e
  cases op with
  | connect => exact h.1.symm.trans hwithin
  | authenticate => exact h.1.symm.trans hwithin
  | _ => exact h.elim

theorem not_unopened_of_within {site : Site} (hsite : S.site ≠ site)
    (hwithin : ∀ e ∈ t, S.Within e.1) : ¬ Unopened site t :=
  fun ⟨e, hmem, h⟩ => hsite (site_of_within (hwithin e hmem) h).symm

theorem Tallied.imp (h : Tallied topicId todo spoken t tally) (hsub : ∀ op, todo' op → todo op)
    (hspoken : ∀ api version, spoken' api version → spoken api version) :
    Tallied topicId todo' spoken' t tally where
  created := h.created
  needed := h.needed
  noted := fun hne => (h.noted hne).imp_right fun hstays w hw =>
    hstays w fun e hmem => hsub _ (hw e hmem)
  unopened := h.unopened
  covered := fun hnil api version hspoken' =>
    h.covered hnil api version (hspoken api version hspoken')

/-- More exchanges without anything to note. -/
theorem Tallied.append (h : Tallied topicId todo spoken t tally)
    (hcreated : ∀ e ∈ u, createdId e = none)
    (hopened : ∀ site, ¬ Unopened site u) (hu : ∀ e ∈ u, todo e.1)
    (hsub : ∀ op, todo' op → todo op) : Tallied topicId todo' spoken (t ++ u) tally where
  created := Leaves.creates ⟨u, rfl, hcreated⟩ h.created
  needed := fun hunopened => (unopened_append.mp hunopened).elim h.needed (hopened _)
  noted := fun hne => (h.noted hne).imp (fun hunopened => unopened_append.mpr (.inl hunopened))
    fun hstays => hstays.append hu hsub
  unopened := fun hunopened =>
    h.unopened ((unopened_append.mp hunopened).resolve_right (hopened _))
  covered := fun hnil api version hspoken =>
    (h.covered hnil api version hspoken).mono (List.prefix_append t u)

/-- An exchange that is noted, with what it stands for if there is nothing to note. -/
theorem noted_after {α : Type} {what : String} {exchange : Checked α} {api : SweptApi}
    {version : Int16} (h : Tallied topicId todo spoken t tally)
    (hx : S.Sound [] exchange fun u _ => api.Covered .advertisedSpeakable version u)
    (hcheck : S.check = .advertisedSpeakable) (hsite : S.site = .recorded)
    (hasks : ∀ version topic replicas, ¬ S.asks version (.createTopics topic replicas false))
    (hwithin : ∀ op, S.Within op → todo op) (hsub : ∀ op, todo' op → todo op)
    (hstays : ∀ u, (∀ e ∈ u, S.Within e.1) → SweepCheck.advertisedSpeakable.Unanswered u →
      Stays todo' u) :
    Program.After t (noted what exchange tally)
      (fun t' tally' => Tallied topicId todo'
        (fun a v => spoken a v ∨ (a = api ∧ v = version)) t' tally') Stopped := by
  refine Program.after_bind (Program.after_caught (Program.After.frame hx)) fun t' r hr => ?_
  have hlater (u : Trace) (hu : ∀ e ∈ u, S.Within e.1) :
      (∀ e ∈ u, createdId e = none) ∧ ¬ Unopened .needed u :=
    ⟨Scope.created_of_within hu hasks, not_unopened_of_within (hsite ▸ nofun) hu⟩
  have hfailed (u : Trace) (e : CheckError) (hu : ∀ e ∈ u, S.Within e.1)
      (hcause : Unopened .recorded u ∨ SweepCheck.advertisedSpeakable.Unanswered u) :
      Tallied topicId todo' (fun a v => spoken a v ∨ (a = api ∧ v = version)) (t ++ u)
        (tally.note what (.error e : Except CheckError α)) :=
    { created := Leaves.creates ⟨u, rfl, (hlater u hu).1⟩ h.created
      needed := fun hunopened => (unopened_append.mp hunopened).elim h.needed (hlater u hu).2
      noted := fun _ => hcause.imp (fun hunopened => unopened_append.mpr (.inr hunopened))
        fun hunanswered => stays_append_right (hstays u hu hunanswered)
      unopened := fun _ => List.append_ne_nil_of_right_ne_nil _ (List.cons_ne_nil _ _)
      covered := fun hnil => absurd hnil
        (List.append_ne_nil_of_right_ne_nil _ (List.cons_ne_nil _ _)) }
  refine Program.after_pure ?_
  cases r with
  | ok a =>
      obtain ⟨u, rfl, hu, hcovered⟩ := hr
      have hlast := h.append (hlater u hu.within).1
        (fun site hunopened => hu.unopened ⟨site, hunopened⟩)
        (fun e hmem => hwithin _ (hu.within e hmem)) hsub
      refine { hlast with covered := fun hnil a v hspoken => ?_ }
      obtain hspoken | ⟨rfl, rfl⟩ := hspoken
      · exact hlast.covered hnil a v hspoken
      · obtain ⟨e, hmem, he⟩ := hcovered
        exact ⟨e, List.mem_append_right _ hmem, he⟩
  | error e =>
      obtain ⟨u, rfl, hu⟩ := hr
      cases e with
      | infra details => exact hfailed u _ hu.1 (hsite ▸ hcheck ▸ hu.2)
      | violation details => exact hfailed u _ hu.1.within (.inr (hcheck ▸ hu.2))

/-- A connection that the check needs, opened for its next exchange. -/
theorem opened_after {conn : Checked Conn} {f : CheckError → Verdict}
    (h : Tallied topicId todo spoken t tally)
    (hx : S.Sound [] conn fun _ _ => True) (hcheck : S.check = .advertisedSpeakable)
    (hsite : S.site = .needed)
    (hasks : ∀ version topic replicas, ¬ S.asks version (.createTopics topic replicas false))
    (hwithin : ∀ op, S.Within op → todo op)
    (hf : ∀ e, ∃ what, f e = (e.context what).intoVerdict ∨ f e = e.intoVerdict) :
    Program.After t (Program.mapError f conn) (fun t' _ => Tallied topicId todo spoken t' tally)
      Stopped := by
  refine Program.after_mapError (Program.After.imp (Program.After.frame hx)
    (F := fun t' e => Stopped t' e.intoVerdict) ?_ ?_) ?_
  · intro t' conn ⟨u, ht', hu, _⟩
    rw [ht']
    exact h.append (Scope.created_of_within hu.within hasks)
      (fun site hunopened => hu.unopened ⟨site, hunopened⟩)
      (fun e hmem => hwithin _ (hu.within e hmem)) fun _ => id
  · intro t' e ⟨u, ht', hu⟩
    rw [ht']
    cases e with
    | violation details =>
        have hunanswered : SweepCheck.advertisedSpeakable.Unanswered u := hcheck ▸ hu.2
        exact blamed_append_right hunanswered
    | infra details =>
        exact hu.2.imp (fun hunopened => unopened_append.mpr (.inr (hsite ▸ hunopened)))
          fun hunanswered => hcheck ▸ blamed_append_right hunanswered
  · intro t' e he
    obtain ⟨what, h | h⟩ := hf e
    · rw [h]
      cases e <;> exact he
    · rw [h]
      exact he

/-- One version after the other, then the label of them all. -/
theorem overVersions_after {versions : Except Verdict (List Int16)} {label : String}
    {sweepAt : Int16 → Tally → Judged Tally} {api : SweptApi} (todo : List Int16 → Op → Prop)
    {rest : Op → Prop} (h : Labelled topicId (todo []) spoken t tally)
    (hrest : ∀ past op, rest op → todo past op)
    (step : ∀ past version later, versions = .ok (past ++ version :: later) → ∀ t tally,
      Tallied topicId (todo past) (fun a v => spoken a v ∨ (a = api ∧ v ∈ past)) t tally →
      Program.After t (sweepAt version tally)
        (Tallied topicId (todo (past ++ [version]))
          fun a v => (spoken a v ∨ (a = api ∧ v ∈ past)) ∨ (a = api ∧ v = version)) Stopped) :
    Program.After t (overVersions versions label sweepAt tally)
      (Labelled topicId rest fun a v => spoken a v ∨ (a = api ∧ ∃ vs, versions = .ok vs ∧ v ∈ vs))
      Stopped := by
  cases versions with
  | error verdict =>
      refine Program.after_pure ⟨h.1.imp (hrest []) fun a v hspoken => ?_, h.2⟩
      exact hspoken.resolve_right fun ⟨_, _, hversions, _⟩ => by cases hversions
  | ok versions =>
      refine Program.after_bind (Program.after_each
        (I := fun past => Tallied topicId (todo past) fun a v => spoken a v ∨ (a = api ∧ v ∈ past))
        (E := Stopped) (fun past version later heq u tally hu => ?_) ?_) fun u tally hu => ?_
      · refine Program.After.imp (step past version later (congrArg _ heq.symm) u tally hu)
          (fun v tally hv => hv.imp (fun _ => id) fun a v hspoken => ?_) fun _ _ => id
        rw [List.mem_append, List.mem_singleton] at hspoken
        exact hspoken.elim (fun h => .inl (.inl h)) fun ⟨ha, hmem⟩ =>
          hmem.imp (fun hmem => .inr ⟨ha, hmem⟩) fun hv => ⟨ha, hv⟩
      · exact h.1.imp (fun _ => id) fun a v hspoken =>
          hspoken.resolve_right fun hmem => List.not_mem_nil hmem.2
      · refine Program.after_pure ⟨?_, fun _ =>
          List.append_ne_nil_of_right_ne_nil _ (List.cons_ne_nil _ _)⟩
        have hlast : Tallied topicId rest (fun a v => spoken a v ∨
            (a = api ∧ ∃ vs, (.ok versions : Except Verdict _) = .ok vs ∧ v ∈ vs)) u tally :=
          hu.imp (hrest versions) fun a v hspoken => hspoken.imp_right fun ⟨ha, vs, heq, hmem⟩ =>
            ⟨ha, Except.ok.inj heq ▸ hmem⟩
        exact { hlast with }

end Tallies

section Exchanges

variable {ctx : ServerCtx} {conn : Conn} {version : Int16} {correlation : Int32} {t : Trace}
  {S : Scope} {api : SweptApi}

/-- The last answer is the one its api was swept for. -/
theorem covered_last {check : SweepCheck} {request : Request} {resp : request.Response}
    (hkey : request.apiKey = api.apiKey) (hasked : api.asks request)
    (haccepts : check.Accepts version request resp) :
    api.Covered check version (t ++ [⟨.call ⟨conn, version, correlation, request⟩, .ok resp⟩]) :=
  ⟨_, List.mem_append_right _ List.mem_cons_self, rfl, hkey, hasked, resp, rfl, haccepts⟩

theorem produceStamped_sound {topic : String} {sent : Bytes} {stamp : ProduceStamp}
    {partition : Int32} (hkey : api.apiKey = 0)
    (hasked : ∀ sent, api.asks (.produceStamped topic partition stamp.transactionalId sent))
    (hasks : ∀ sent, S.asks version (.produceStamped topic partition stamp.transactionalId sent))
    (hencode : (stampedBatch ctx stamp).encode = .ok sent) (ht : S.Clear t) :
    S.Sound t (produceStamped ctx conn version stamp topic partition correlation)
      fun t' _ => api.Covered S.check version t' := by
  unfold produceStamped
  rw [hencode]
  refine Scope.sound_bind (Q := fun u _ => u = t) (Scope.sound_pure ht rfl) fun u sent hu heq => ?_
  rw [heq] at hu ⊢
  refine Scope.sound_bind (Q := fun v resp => v = t ++ [⟨.call ⟨conn, version, correlation,
      .produceStamped topic partition stamp.transactionalId sent⟩, .ok resp⟩])
    (Scope.apiCall_sound hu (.inr (hasks sent)) fun _ => rfl) fun v resp hv hlast => ?_
  cases hpartition : resp.responses.head?.bind List.head? with
  | none =>
      refine Scope.sound_violation hv ?_
      rw [hlast]
      refine blamed_last fun answer hanswer ⟨entry, hentry⟩ => ?_
      cases hanswer
      rw [producedPartition, hpartition] at hentry
      cases hentry
  | some entry =>
      refine Scope.sound_pure hv ?_
      rw [hlast]
      exact covered_last hkey.symm (hasked sent) ⟨entry, hpartition⟩

theorem decoded_sound {request : Request} (hkey : request.apiKey = api.apiKey)
    (hasked : api.asks request) (haccepts : ∀ resp, S.check.Accepts version request resp)
    (hasks : S.asks version request) (ht : S.Clear t) :
    S.Sound t (decoded conn version correlation request)
      fun t' _ => api.Covered S.check version t' :=
  Scope.sound_bind (Q := fun u _ => api.Covered S.check version u)
    (Scope.apiCall_sound ht (.inr hasks) fun resp => covered_last hkey hasked (haccepts resp))
    fun _ _ hu hcovered => Scope.sound_pure hu hcovered

theorem createTopicCall_sound {topic : String} (hkey : api.apiKey = 19)
    (hasked : ∀ replicas, api.asks (.createTopics topic replicas true))
    (hasks : ∀ replicas, S.asks version (.createTopics topic replicas true)) (ht : S.Clear t) :
    S.Sound t (createTopicCall ctx S.site conn version topic true correlation)
      fun t' _ => api.Covered S.check version t' := by
  refine Scope.sound_bind (Scope.createTopicsAtController_sound rfl (hasks 1) ht)
    fun u resp hu ⟨hcode, s, conn, correlation, _, heq⟩ => ?_
  cases hresult : resp.topics.head? with
  | none =>
      refine Scope.sound_violation hu ?_
      rw [heq]
      refine blamed_last fun answer hanswer ⟨result, hhead, _⟩ => ?_
      cases hanswer
      rw [hresult] at hhead
      cases hhead
  | some result =>
      refine Scope.sound_pure hu ?_
      rw [heq]
      refine covered_last hkey.symm (hasked 1) ⟨result, hresult, ?_⟩
      rw [if_pos rfl, ← Scope.createdCode_of_head hresult]
      exact hcode

end Exchanges

section Sweeps

variable {ctx : ServerCtx} {topicId : Uuid} {done : List SweptApi} {t : Trace} {tally : Tally}

/-- What the sweeps done so far were to have answered. -/
def Wanted (ctx : ServerCtx) (topicId : Uuid) (done : List SweptApi) (api : SweptApi)
    (version : Int16) : Prop :=
  api ∈ done ∧ api.Negotiated ctx version ∧ (api.byId version → topicId ≠ zeroUuid)

/-- An exchange that is never put off, over a connection that is noted. -/
def noting : Scope :=
  { check := .advertisedSpeakable, site := .recorded
    asks := fun _ request => request.deferrable = false }

/-- A connection the sweeps need, and how to come by it. -/
def opening : Scope :=
  { check := .advertisedSpeakable, site := .needed
    asks := fun _ request => ∃ group, request = .findCoordinator group }

/-- CreateTopics at one version, asked not to create. -/
def validating (version : Int16) : Scope :=
  { check := .advertisedSpeakable, site := .recorded
    asks := fun version' request => version' = version ∧
      ∃ topic replicas, request = .createTopics topic replicas true }

/-- No CreateTopics at a version that was swept. -/
def unswept (past : List Int16) (op : Op) : Prop :=
  ∀ c, op = .call c → c.request.apiKey = 19 → c.version ∉ past

def noCreation (op : Op) : Prop := ∀ c, op = .call c → c.request.apiKey ≠ 19

theorem noting_stays {todo : Op → Prop} {u : Trace} (hu : ∀ e ∈ u, noting.Within e.1)
    (h : SweepCheck.advertisedSpeakable.Unanswered u) : Stays todo u := by
  refine fun w _ => h.append fun e hmem hdeferred => absurd hdeferred.deferrable ?_
  have he := hu e hmem
  intro hdeferrable
  obtain ⟨op, r⟩ := e
  cases op with
  | call c =>
      obtain ⟨topic, h⟩ | h := he
      · rw [Op.Deferrable, h] at hdeferrable
        cases hdeferrable
      · exact Bool.false_ne_true (h.symm.trans hdeferrable)
  | _ => exact hdeferrable

/-- What went unanswered in one version stays so as the others are swept. -/
theorem validating_stays {past : List Int16} {version : Int16} {u : Trace}
    (hu : ∀ e ∈ u, (validating version).Within e.1)
    (h : SweepCheck.advertisedSpeakable.Unanswered u) :
    Stays (unswept (past ++ [version])) u := by
  intro w hw
  refine h.append fun e hmem hdeferred e' hmem' hrepeats => ?_
  have he := hu e hmem
  have he' := hw e' hmem'
  obtain ⟨op, r⟩ := e
  obtain ⟨op', r'⟩ := e'
  have hdeferrable := hdeferred.deferrable
  cases op with
  | call c =>
      cases op' with
      | call c' =>
          obtain ⟨topic, h⟩ | ⟨hversion, topic, replicas, h⟩ := he
          · rw [Op.Deferrable, h] at hdeferrable
            cases hdeferrable
          · refine he' c' rfl ?_ ?_
            · rw [← hrepeats.2, h]
              rfl
            · rw [← hrepeats.1, hversion]
              exact List.mem_append_right _ List.mem_cons_self
      | _ => exact hrepeats
  | _ => exact hdeferrable

theorem noCreation_of_noting {op : Op} (h : noting.Within op) : noCreation op := by
  intro c hc hkey
  rw [hc] at h
  obtain ⟨topic, h⟩ | h := h
  · rw [h] at hkey
    cases hkey
  · obtain ⟨_, _, _, request⟩ := c
    cases request with
    | createTopics => cases h
    | _ => cases hkey

theorem noCreation_of_opening {op : Op} (h : opening.Within op) : noCreation op := by
  intro c hc hkey
  rw [hc] at h
  obtain ⟨topic, h⟩ | ⟨group, h⟩ := h
  · rw [h] at hkey
    cases hkey
  · rw [h] at hkey
    cases hkey

theorem openNeeded_after {addr : String} {todo : Op → Prop} {spoken : SweptApi → Int16 → Prop}
    (h : Tallied topicId todo spoken t tally) (htodo : ∀ op, noCreation op → todo op) :
    Program.After t (Program.mapError CheckError.intoVerdict (openConn ctx .needed addr))
      (fun t' _ => Tallied topicId todo spoken t' tally) Stopped :=
  opened_after (S := opening) h
    ((Scope.openConn_sound rfl Scope.clear_nil).imp fun _ _ _ => trivial) rfl rfl
    (fun _ _ _ ⟨_, h⟩ => by cases h) (fun _ h => htodo _ (noCreation_of_opening h))
    fun _ => ⟨"", .inr rfl⟩

/-- A sweep after the sweeps before it. -/
theorem sweep_after {versions : Except Verdict (List Int16)} {label : String}
    {sweepAt : Int16 → Tally → Judged Tally} {api : SweptApi} (todo : List Int16 → Op → Prop)
    {rest : Op → Prop} (h : Labelled topicId (todo []) (Wanted ctx topicId done) t tally)
    (hrest : ∀ past op, rest op → todo past op)
    (hversions : ∀ version, api.Negotiated ctx version →
      (api.byId version → topicId ≠ zeroUuid) → ∃ vs, versions = .ok vs ∧ version ∈ vs)
    (step : ∀ past version later spoken, versions = .ok (past ++ version :: later) → ∀ t tally,
      Tallied topicId (todo past) spoken t tally →
      Program.After t (sweepAt version tally)
        (Tallied topicId (todo (past ++ [version]))
          fun a v => spoken a v ∨ (a = api ∧ v = version)) Stopped) :
    Program.After t (overVersions versions label sweepAt tally)
      (Labelled topicId rest (Wanted ctx topicId (done ++ [api]))) Stopped := by
  refine Program.After.imp (overVersions_after todo h hrest fun past version later hvs u tally hu =>
    step past version later _ hvs u tally hu)
      (fun u tally hu => ⟨hu.1.imp (fun _ hop => hop) ?_, hu.2⟩)
    fun _ _ hstopped => hstopped
  intro a version ⟨hmem, hnegotiated, hid⟩
  obtain hmem | hmem := List.mem_append.mp hmem
  · exact .inl ⟨hmem, hnegotiated, hid⟩
  · obtain rfl := List.mem_singleton.mp hmem
    exact .inr ⟨rfl, hversions version hnegotiated hid⟩

theorem validateTopic_sound {version : Int16} {conn : Conn} :
    (validating version).Sound [] (validateTopic ctx conn version)
      fun u _ => (SweptApi.plain 19 2 7).Covered .advertisedSpeakable version u := by
  refine Scope.sound_bind (Q := fun _ _ => True)
    (Program.after_lift ((uniqueTopic_meets ctx _).imp fun u topic ⟨nanos, hu⟩ => ?_))
    fun u topic hu _ => createTopicCall_sound rfl (fun _ => trivial)
      (fun replicas => ⟨rfl, topic, replicas, rfl⟩) hu
  rw [hu]
  exact ⟨Scope.clear_nil.snoc trivial id, trivial⟩

/-- The sweep of CreateTopics asks about its versions, and leaves no note that it created
anything. -/
theorem sweepCreateTopics_after
    (h : Labelled topicId (fun _ => True) (Wanted ctx topicId done) t tally) :
    Program.After t (sweepCreateTopics ctx tally)
      (Labelled topicId noCreation (Wanted ctx topicId (done ++ [.plain 19 2 7]))) Stopped := by
  have hsub (past : List Int16) (op : Op) (hop : noCreation op) : unswept past op :=
    fun c hc hkey => absurd hkey (hop c hc)
  refine sweep_after unswept ⟨h.1.imp (fun _ _ => trivial) fun _ _ hspoken => hspoken, h.2⟩
    hsub (fun version hnegotiated _ => (SweptApi.negotiated_iff ctx _ _ version).mp hnegotiated)
    fun past version later spoken hversions t tally ht => ?_
  have hfresh : version ∉ past := fun hmem =>
    (List.disjoint_of_nodup_append (nodup_versionsOf hversions)) hmem List.mem_cons_self
  refine Program.after_bind (openNeeded_after ht (hsub past)) fun u conn hu => ?_
  refine noted_after (S := validating version) hu validateTopic_sound rfl rfl
    (fun _ _ _ ⟨_, _, _, h⟩ => by cases h) (fun op hop c hc hkey => ?_)
    (fun op hop c hc hkey hmem => hop c hc hkey (List.mem_append_left _ hmem))
    fun u hu hunanswered => validating_stays hu hunanswered
  rw [hc] at hop
  obtain ⟨topic, h⟩ | ⟨hversion, _⟩ := hop
  · rw [h] at hkey
    cases hkey
  · exact hversion ▸ hfresh

/-- The sweep of a sequence whose one request is `request`. -/
theorem sweepSequence_after {addr : String} {q : SequenceSweep} (request : Request)
    (h : Labelled topicId noCreation (Wanted ctx topicId done) t tally)
    (hkey : request.apiKey = q.apiKey)
    (haccepts : ∀ version resp, SweepCheck.advertisedSpeakable.Accepts version request resp)
    (hplain : request.deferrable = false) :
    Program.After t (sweepSequence ctx addr q
        (fun conn version correlation => decoded conn version correlation request) tally)
      (Labelled topicId noCreation
        (Wanted ctx topicId (done ++ [.plain q.apiKey q.min q.max]))) Stopped := by
  refine sweep_after (fun _ => noCreation) h (fun _ _ hop => hop)
    (fun version hnegotiated _ => (SweptApi.negotiated_iff ctx (.plain q.apiKey q.min q.max) _
      version).mp hnegotiated)
    fun past version later spoken hversions t tally ht => ?_
  exact noted_after (S := noting) ht (Scope.sound_bind
    (Scope.openConn_sound rfl Scope.clear_nil) fun u conn hu _ =>
      decoded_sound hkey trivial (haccepts version) hplain hu)
    rfl rfl (fun _ _ _ h => by cases h) (fun _ => noCreation_of_noting) (fun _ hop => hop)
    fun u hu hunanswered => noting_stays hu hunanswered

variable {produced : ProducedTopic}

/-- Before the sweep of CreateTopics, anything may still be asked. -/
def anything : Op → Prop := fun _ => True

theorem sweepProduce_after (hencode : (probeBatch ctx).encode = .ok produced.sent)
    (h : Labelled topicId anything (Wanted ctx topicId done) t tally) :
    Program.After t (sweepProduce ctx produced tally)
      (Labelled topicId anything (Wanted ctx topicId (done ++ [.plain 0 3 12]))) Stopped := by
  refine sweep_after (fun _ => anything) h (fun _ _ hop => hop)
    (fun version hnegotiated _ => (SweptApi.negotiated_iff ctx _ _ version).mp hnegotiated)
    fun past version later spoken hversions t tally ht => ?_
  refine Program.after_bind (openNeeded_after ht fun _ _ => trivial) fun u conn hu => ?_
  exact noted_after (S := noting) hu
    (produceStamped_sound rfl (fun _ => trivial) (fun _ => rfl) hencode Scope.clear_nil) rfl rfl
    (fun _ _ _ h => by cases h) (fun _ _ => trivial) (fun _ hop => hop) fun _ => noting_stays

/-- The sweep of Fetch adds its versions to those that were answered. -/
theorem sweepFetch_after
    (h : Labelled produced.topicId anything (Wanted ctx produced.topicId done) t tally) :
    Program.After t (sweepFetch ctx produced tally)
      (Labelled produced.topicId anything (Wanted ctx produced.topicId
        (done ++ [{ SweptApi.plain 1 13 18 with byId := fun _ => True }]))) Stopped := by
  unfold sweepFetch
  split
  case isTrue hzero =>
    refine Program.after_pure
      ⟨h.1.imp (fun _ hop => hop) fun api version ⟨hmem, hwanted⟩ => ?_, h.2⟩
    refine ⟨(List.mem_append.mp hmem).resolve_right fun hmem => ?_, hwanted⟩
    rw [List.mem_singleton.mp hmem] at hwanted
    exact hwanted.2 trivial hzero
  case isFalse hid =>
    refine sweep_after (fun _ => anything) h (fun _ _ hop => hop)
      (fun version hnegotiated _ => (SweptApi.negotiated_iff ctx _ _ version).mp hnegotiated)
      fun past version later spoken hversions t tally ht => ?_
    refine Program.after_bind (openNeeded_after ht fun _ _ => trivial) fun u conn hu => ?_
    exact noted_after (S := noting) hu
      (decoded_sound rfl trivial (fun _ => trivial) rfl Scope.clear_nil) rfl rfl
      (fun _ _ _ h => by cases h) (fun _ _ => trivial) (fun _ hop => hop) fun _ => noting_stays

/-- Below the versions that need an id, the shorter range loses nothing. -/
theorem negotiated_commits {version : Int16}
    (hnegotiated : { SweptApi.plain 8 2 10 with byId := fun version : Int16 =>
      offsetsByTopicId ≤ version : SweptApi }.Negotiated ctx version)
    (hid : offsetsByTopicId ≤ version → topicId ≠ zeroUuid) :
    (SweptApi.plain 8 2 (if topicId = zeroUuid then offsetsByTopicId - 1 else 10)).Negotiated ctx
      version := by
  obtain ⟨keys, low, high, hkeys, hrange, hlow, hhigh, hmin, hmax⟩ := hnegotiated
  refine ⟨keys, low, high, hkeys, hrange, hlow, hhigh, hmin, ?_⟩
  split
  case isTrue hzero =>
    have hbelow : ¬ offsetsByTopicId ≤ version := fun h => hid h hzero
    rw [Int16.le_iff_toInt_le] at hbelow
    change version ≤ (9 : Int16)
    rw [Int16.le_iff_toInt_le]
    have hten : offsetsByTopicId.toInt = 10 := rfl
    have hnine : (9 : Int16).toInt = 9 := rfl
    omega
  case isFalse => exact hmax

theorem sweepCommits_after
    (h : Labelled produced.topicId anything (Wanted ctx produced.topicId done) t tally) :
    Program.After t (sweepCommits ctx produced tally)
      (Labelled produced.topicId anything (Wanted ctx produced.topicId
        (done ++ [{ SweptApi.plain 8 2 10 with byId := fun version =>
          offsetsByTopicId ≤ version }]))) Stopped := by
  refine sweep_after (fun _ => anything) h (fun _ _ hop => hop)
    (fun version hnegotiated hid => (SweptApi.negotiated_iff ctx (.plain 8 2 _) _ version).mp
      (negotiated_commits hnegotiated hid))
    fun past version later spoken hversions t tally ht => ?_
  refine Program.after_bind (opened_after (S := opening) ht
    (Scope.coordinatorConn_sound rfl (fun _ => ⟨_, rfl⟩) Scope.clear_nil) rfl rfl
    (fun _ _ _ ⟨_, h⟩ => by cases h) (fun _ _ => trivial) fun _ => ⟨_, .inl rfl⟩)
    fun u conn hu => ?_
  exact noted_after (S := noting) hu
    (decoded_sound rfl trivial (fun _ => trivial) rfl Scope.clear_nil) rfl rfl
    (fun _ _ _ h => by cases h) (fun _ _ => trivial) (fun _ hop => hop) fun _ => noting_stays

def sequenceApis : List SweptApi :=
  [.plain 11 0 9, .plain 14 0 5, .plain 12 0 4, .plain 13 0 5, .plain 68 0 1, .plain 25 0 4,
    .plain 26 0 5, .plain 28 0 5, .plain 17 0 1, .plain 36 0 2]

/-- The sequences of the sweep ask about their versions, one after another. -/
theorem sweepSequences_after
    (h : Labelled topicId noCreation (Wanted ctx topicId done) t tally) :
    Program.After t (sweepSequences ctx produced tally)
      (Labelled topicId noCreation (Wanted ctx topicId (done ++ sequenceApis))) Stopped := by
  refine Program.after_bind (sweepSequence_after (.sweepJoinGroup _) h rfl (fun _ _ => trivial) rfl)
    fun u tally h => ?_
  refine Program.after_bind (sweepSequence_after (.sweepSyncGroup _) h rfl (fun _ _ => trivial) rfl)
    fun u tally h => ?_
  refine Program.after_bind (sweepSequence_after (.sweepHeartbeat _) h rfl (fun _ _ => trivial) rfl)
    fun u tally h => ?_
  refine Program.after_bind
    (sweepSequence_after (.sweepLeaveGroup _) h rfl (fun _ _ => trivial) rfl)
    fun u tally h => ?_
  refine Program.after_bind
    (sweepSequence_after (.sweepConsumerGroupHeartbeat _) h rfl (fun _ _ => trivial) rfl)
    fun u tally h => ?_
  refine Program.after_bind
    (sweepSequence_after (.sweepAddOffsetsToTxn _) h rfl (fun _ _ => trivial) rfl)
    fun u tally h => ?_
  refine Program.after_bind (sweepSequence_after .sweepEndTxn h rfl (fun _ _ => trivial) rfl)
    fun u tally h => ?_
  refine Program.after_bind
    (sweepSequence_after (.sweepTxnOffsetCommit _ _) h rfl (fun _ _ => trivial) rfl)
    fun u tally h => ?_
  refine Program.after_bind (sweepSequence_after .sweepSaslHandshake h rfl (fun _ _ => trivial) rfl)
    fun u tally h => ?_
  have hlast : Program.After u (sweepSequence ctx ctx.addr
      { apiKey := 36, name := "SaslAuthenticate", min := 0, max := 2, base := 1880 } _ tally) _ _ :=
    sweepSequence_after .sweepSaslAuthenticate h rfl (fun _ _ => trivial) rfl
  simp only [List.append_assoc, List.cons_append, List.nil_append] at hlast
  exact hlast

end Sweeps

section Verdict

variable {ctx : ServerCtx} {topicId : Uuid} {todo : Op → Prop} {t : Trace} {tally : Tally}
  {verdict : Verdict}

/-- The verdict is fair exactly where no connection that is only noted failed to open, or
something else went wrong besides. -/
def Earned (ctx : ServerCtx) (t : Trace) (verdict : Verdict) : Prop :=
  SweepCheck.advertisedSpeakable.Judges ctx t verdict ↔
    ¬ Unopened .recorded t ∨ Unopened .needed t ∨ SweepCheck.advertisedSpeakable.Unanswered t

theorem judges_of_unanswered (h : SweepCheck.advertisedSpeakable.Unanswered t)
    (hpass : verdict ≠ .pass) : SweepCheck.advertisedSpeakable.Judges ctx t verdict :=
  ⟨fun _ _ => h, fun heq => absurd heq hpass, fun _ hnot => absurd h hnot⟩

theorem Stopped.earned (h : Stopped t verdict) : Earned ctx t verdict := by
  cases verdict with
  | pass => exact h.elim
  | skipped reason => exact h.elim
  | fail details => exact iff_of_true (judges_of_unanswered h nofun) (.inr (.inr h))
  | error details => exact iff_of_true ⟨nofun, nofun, fun _ _ => .inl ⟨details, rfl⟩⟩ (.inr h)

/-- Notes that are labelled make a fair verdict of their own. -/
theorem Labelled.earned
    (h : Labelled topicId todo (Wanted ctx topicId SweepCheck.advertisedSpeakable.apis) t tally) :
    Earned ctx t tally.verdict := by
  obtain ⟨htally, hlabel⟩ := h
  unfold Tally.verdict
  split
  case isTrue hswept =>
    have hnil : tally.failures = [] := Decidable.byContradiction fun hne =>
      hlabel hne (List.isEmpty_iff.mp hswept)
    exact iff_of_true ⟨nofun, nofun, fun _ _ => .inr ⟨_, rfl⟩⟩
      (.inl fun hunopened => htally.unopened hunopened hnil)
  case isFalse =>
    split
    case isTrue hfailures =>
      have hnil := List.isEmpty_iff.mp hfailures
      have hrecorded : ¬ Unopened .recorded t := fun hunopened => htally.unopened hunopened hnil
      refine iff_of_true ⟨nofun, fun _ api hapi version hnegotiated hid => ?_, ?_⟩ (.inl hrecorded)
      · exact htally.covered hnil api version
          ⟨hapi, hnegotiated, fun hbyId => htally.created.handedOut (hid hbyId)⟩
      · intro ⟨site, hunopened⟩
        cases site with
        | needed => exact absurd hunopened htally.needed
        | recorded => exact absurd hunopened hrecorded
    case isFalse hfailures =>
      have hne : tally.failures ≠ [] := fun hnil => hfailures (List.isEmpty_iff.mpr hnil)
      constructor
      · exact fun hjudges => .inr (.inr (hjudges.fail _ rfl))
      · intro hspared
        refine judges_of_unanswered ?_ nofun
        obtain hrecorded | hneeded | hunanswered := hspared
        · -- What is noted was not a connection, so it was an answer, and it still is one.
          have hstays := (htally.noted hne).resolve_left hrecorded [] (List.forall_mem_nil _)
          rw [List.append_nil] at hstays
          exact hstays
        · exact absurd hneeded htally.needed
        · exact hunanswered

theorem versionsAdvertisedAreSpeakable_judges (ctx : ServerCtx) :
    (versionsAdvertisedAreSpeakable ctx).Meets (Earned ctx) := by
  have hsites : (whole .advertisedSpeakable).site ≠ .recorded := by decide
  refine judge_meets ?_
  refine Program.after_bind (Program.After.imp (Scope.produceFlow_fair
    (S := whole .advertisedSpeakable) rfl (fun _ _ _ => trivial) fun _ _ _ => trivial)
    (fun _ _ h => h) fun t verdict hended => ?_) fun t produced ⟨ht, hcreates, hencode⟩ => ?_
  · have hwithin : ∀ e ∈ t, (whole .advertisedSpeakable).Within e.1 := by
      cases verdict with
      | pass => exact hended.elim
      | fail details => exact hended.1
      | skipped reason => exact hended
      | error details => exact hended
    exact iff_of_true hended.judges (.inl (not_unopened_of_within hsites hwithin))
  · have hrecorded : ¬ Unopened .recorded t := not_unopened_of_within hsites ht.within
    have hnone : Labelled produced.topicId anything (Wanted ctx produced.topicId []) t
        { swept := [], failures := [] } :=
      ⟨{ created := hcreates
         needed := ht.opened
         noted := fun hne => absurd rfl hne
         unopened := fun hunopened => absurd hunopened hrecorded
         covered := fun _ _ _ hspoken => absurd hspoken.1 List.not_mem_nil },
           fun hne => absurd rfl hne⟩
    refine Program.After.imp (Q := fun u verdict => Earned ctx u verdict) (E := Stopped) ?_
      (fun _ _ h => h) fun _ _ => Stopped.earned
    refine Program.after_bind (sweepProduce_after hencode hnone) fun u tally h => ?_
    refine Program.after_bind (sweepFetch_after h) fun u tally h => ?_
    refine Program.after_bind (sweepCommits_after h) fun u tally h => ?_
    refine Program.after_bind (sweepCreateTopics_after h) fun u tally h => ?_
    refine Program.after_bind (sweepSequences_after h) fun u tally h => ?_
    exact Program.after_pure h.earned

end Verdict

/-- What the environment must not answer for a sweep's verdict to be earned. -/
def SweepCheck.Spared (check : SweepCheck) (t : Trace) : Prop :=
  match check with
  | .listOffsets | .commitFetchRoundtrip => True
  | .findCoordinator => ¬ Hampered t ∨ check.Refuted t
  | .advertisedSpeakable => ¬ Unopened .recorded t ∨ Unopened .needed t ∨ check.Unanswered t

/-- Whatever is advertised, answered and refused: a sweep's verdict is fair exactly where
no trouble was forgotten, and none noted as if it were an answer. -/
theorem sweep_judges_iff (check : SweepCheck) (ctx : ServerCtx) {t : Trace} {verdict : Verdict}
    (h : (check.run ctx).Yields t verdict) : check.Judges ctx t verdict ↔ check.Spared t := by
  cases check with
  | findCoordinator => exact findCoordinatorGroup_judges ctx t verdict h
  | listOffsets => exact iff_of_true (listOffsetsEarliestLatest_judges ctx t verdict h) trivial
  | commitFetchRoundtrip =>
      exact iff_of_true (offsetsCommitFetchRoundtrip_judges ctx t verdict h) trivial
  | advertisedSpeakable => exact versionsAdvertisedAreSpeakable_judges ctx t verdict h

namespace Faultless

def advertised (apiKey minVersion maxVersion : Int16) : ApiVersion :=
  { apiKey, minVersion, maxVersion }

def moment : Duration := { millis := 1, text := "1ms" }

def ctx : ServerCtx :=
  { addr := "a:9092"
    discovery := .ok [advertised 0 3 3, advertised 3 1 1, advertised 10 0 1, advertised 11 0 0,
      advertised 19 2 2]
    config :=
      { settleBudget := moment, settleDelay := moment, recoveryBudget := moment, control := false
        credentials := false, tls := false }
    saslAddr := none
    runId := "1-0"
    pid := 1
    startedAt := 0 }

/-- The one broker there is leads everything. -/
def described (topic : Option String) : MetadataResponse :=
  { brokers := [{ nodeId := 1, host := "a", port := 9092 }]
    controllerId := 1
    topics := topic.toList.map fun topic =>
      { errorCode := ⟨0⟩
        name := some topic
        partitions := [{ errorCode := ⟨0⟩, partitionIndex := 0, leaderId := 1
                         replicaNodes := [1], isrNodes := [1] }] } }

def partitions : List (List PartitionProduceResponse) := [[{ errorCode := ⟨0⟩, baseOffset := 0 }]]

def answer : (request : Request) → request.Response
  | .metadata topic => described topic
  | .createTopics _ _ _ =>
    { topics := [{ errorCode := ⟨0⟩, errorMessage := none, topicId := zeroUuid }] }
  | .produce _ _ => { responses := partitions }
  | .produceStamped _ _ _ _ => { responses := partitions }
  | .listOffsets topic timestamp =>
    { topics := [{ name := topic
                   partitions := [{ errorCode := ⟨0⟩, offset := expectedOffset timestamp }] }] }
  | .findCoordinator group =>
    { errorCode := ⟨0⟩, host := "a", port := 9092
      coordinators := [{ errorCode := ⟨0⟩, key := group, host := "a", port := 9092 }] }
  | .offsetCommit _ topic topicId _ =>
    { topics := [{ name := topic, topicId, partitions := [⟨0⟩] }] }
  | .offsetFetch group topic topicId =>
    let topics := [{ name := topic, topicId
                     partitions := [{ errorCode := ⟨0⟩, committedOffset := 7 }] }]
    { topics, groups := [{ groupId := group, errorCode := ⟨0⟩, topics }] }
  | .sweepFetchById _ | .sweepOffsetCommit _ _ _ | .sweepJoinGroup _ | .sweepSyncGroup _
  | .sweepHeartbeat _ | .sweepLeaveGroup _ | .sweepConsumerGroupHeartbeat _
  | .sweepAddOffsetsToTxn _ | .sweepEndTxn | .sweepTxnOffsetCommit _ _ | .sweepSaslHandshake
  | .sweepSaslAuthenticate => ()

def environment (refused : Option Site) : (op : Op) → Op.Res op
  | .connect site _ => if refused = some site then .error "connection refused" else .ok ()
  | .authenticate _ _ => .ok ()
  | .call c => .ok (answer c.request)
  | .sleep => ()
  | .clock => (0 : Nat)

def run (refused : Option Site) (check : SweepCheck) : Trace × Verdict :=
  (check.run ctx).answered (fun _ => environment refused) []

theorem answer_accepted (check : SweepCheck) (version : Int16) (request : Request) :
    check.Accepts version request (answer request) := by
  cases request with
  | createTopics topic replicas validateOnly =>
      refine ⟨_, rfl, ?_⟩
      cases validateOnly <;> decide
  | produce => exact ⟨_, rfl, rfl⟩
  | produceStamped => exact ⟨_, rfl⟩
  | listOffsets topic timestamp =>
      refine ⟨{ errorCode := ⟨0⟩, offset := expectedOffset timestamp }, ?_, rfl, rfl⟩
      simp [listedPartition, answer]
  | findCoordinator group =>
      intro _
      unfold Coordinates
      split
      · exact ⟨_, rfl, rfl, rfl, rfl⟩
      · exact ⟨rfl, rfl⟩
  | offsetCommit group topic topicId offset =>
      refine ⟨⟨0⟩, ?_, rfl⟩
      simp [committedCode, answer, namesTopic]
  | offsetFetch group topic topicId =>
      refine ⟨⟨0⟩, ?_, rfl⟩
      simp [fetchedOffset, answer, namesTopic, committedInRoundTrip]
  | _ => exact trivial

theorem run_answered (refused : Option Site) (check : SweepCheck) :
    ¬ check.Unanswered (run refused check).1 := by
  refine not_blamed fun e hmem => ?_
  obtain ⟨_, he⟩ := Program.answered_mem hmem
  rw [he]
  cases e.1 with
  | connect => exact id
  | authenticate => exact fun ⟨_, h⟩ => by cases h
  | call c => exact fun h => h _ rfl (answer_accepted check _ _)
  | sleep => exact id
  | clock => exact id

/-- So no verdict on it is fair that holds a refused connection against it, or for it. -/
theorem run_not_judged (refused : Option Site) {check : SweepCheck} (site : Site) (addr : String)
    {verdict : Verdict}
    (h : (run refused check).1.getLast? = some ⟨.connect site addr, .error "connection refused"⟩)
    (hverdict : ¬ Unjudged verdict) : ¬ check.Judges ctx (run refused check).1 verdict := by
  intro hjudges
  have hunopened : Unopened site (run refused check).1 :=
    ⟨_, List.mem_of_getLast? h, rfl, _, rfl⟩
  exact hverdict (hjudges.error ⟨site, hunopened⟩ (run_answered refused check))

end Faultless

set_option maxRecDepth 8000 in
/-- Where no connection opens, a coordinator nobody saw passes; where those fail that the
version sweep only notes, a subject that does everything right fails. -/
theorem unreachable_judged :
    (∃ t, (SweepCheck.findCoordinator.run Faultless.ctx).Yields t .pass ∧
      ¬ SweepCheck.findCoordinator.Judges Faultless.ctx t .pass) ∧
    ∃ t details, (SweepCheck.advertisedSpeakable.run Faultless.ctx).Yields t (.fail details) ∧
      ¬ SweepCheck.advertisedSpeakable.Judges Faultless.ctx t (.fail details) := by
  constructor
  · have hpass : (Faultless.run (some .needed) .findCoordinator).2 = .pass := rfl
    refine ⟨_, hpass ▸ Program.yields_answered _ _ _, Faultless.run_not_judged
      (some .needed) .needed "a:9092" rfl ?_⟩
    exact fun h => h.elim nofun nofun
  · obtain ⟨details, hfail⟩ : ∃ details,
        (Faultless.run (some .recorded) .advertisedSpeakable).2 = .fail details := ⟨_, rfl⟩
    refine ⟨_, details, hfail ▸ Program.yields_answered _ _ _, Faultless.run_not_judged
      (some .recorded) .recorded "a:9092" rfl ?_⟩
    exact fun h => h.elim nofun nofun

theorem Faultless.run_not_hampered (check : SweepCheck) :
    ¬ Hampered (Faultless.run none check).1 := by
  rintro ⟨e, hmem, hhampers⟩
  obtain ⟨_, he⟩ := Program.answered_mem hmem
  obtain ⟨op, result⟩ := e
  obtain rfl : result = environment none op := eq_of_heq (Sigma.mk.inj he).2
  cases op with
  | connect => exact hhampers.elim (fun ⟨_, _, _, h⟩ => by cases h) id
  | authenticate => exact hhampers.elim (fun ⟨_, _, _, h⟩ => by cases h) id
  | call => exact hhampers.elim (fun ⟨_, h⟩ => h) fun ⟨_, h⟩ => by cases h
  | sleep => exact hhampers.elim (fun ⟨_, h⟩ => h) id
  | clock => exact hhampers.elim (fun ⟨_, h⟩ => h) id

set_option maxRecDepth 8000 in
/-- Where every connection opens, the check of one api and the sweep over all of them
pass a subject that does everything right. -/
theorem sweep_judges_iff_connected :
    ((Faultless.run none .findCoordinator).2 = .pass ∧
      SweepCheck.findCoordinator.Judges Faultless.ctx (Faultless.run none .findCoordinator).1
        (Faultless.run none .findCoordinator).2) ∧
    (Faultless.run none .advertisedSpeakable).2 = .pass ∧
      SweepCheck.advertisedSpeakable.Judges Faultless.ctx
        (Faultless.run none .advertisedSpeakable).1
        (Faultless.run none .advertisedSpeakable).2 := by
  refine ⟨⟨rfl, ?_⟩, rfl, ?_⟩
  · refine (sweep_judges_iff .findCoordinator Faultless.ctx
      (Program.yields_answered _ _ _)).mpr (.inl ?_)
    exact Faultless.run_not_hampered .findCoordinator
  · refine (sweep_judges_iff .advertisedSpeakable Faultless.ctx
      (Program.yields_answered _ _ _)).mpr (.inl ?_)
    rintro ⟨e, hmem, hunopens⟩
    exact Faultless.run_not_hampered .advertisedSpeakable ⟨e, hmem, .inl ⟨_, hunopens⟩⟩

end Odradek.Acceptance.Server
