import Odradek.Acceptance.ClientChecks
import Odradek.Library.Journal
import Odradek.Library.Reachable

/-!
When a pass means that the client did something afterwards. The two checks look
at sets of observations, so a request from before the event earns a pass as
well, and so does a request of another kind. A session is orderly as long as no
step makes such an observation count; there every pass was earned.
-/

namespace Odradek.Acceptance

open Library Odradek.Protocol

section Meaning

def arrivals (log : List Entry) : List Observation :=
  log.filterMap fun
    | .arrived obs => some obs
    | .answered .. => none

/-- The answers in a log that carry an unknown tagged field. -/
def taggedOf (log : List Entry) : List (Nat × Nat) :=
  log.flatMap fun
    | .answered connId index _ answer => if answer.isTagged then [(connId, index)] else []
    | .arrived _ => []

/-- The answer that staged a move has gone out. -/
def stagedIn (log : List Entry) (event : FaultEvent) : Bool :=
  log.any fun
    | .answered _ _ staged _ => staged.contains event
    | .arrived _ => false

def Redelivers (event : FaultEvent) (obs : Observation) : Prop :=
  (obs.apiKey = produceKey ∨ obs.apiKey = fetchKey) ∧ addresses event obs = true

/-- A produce or fetch reached the new leader after the answer that staged its move. -/
def Harness.Recovered (h : Harness) (event : FaultEvent) : Prop :=
  ∃ before connId index staged answer after,
    h.log = before ++ .answered connId index staged answer :: after ∧ event ∈ staged ∧
      ∃ obs ∈ arrivals after, Redelivers event obs

/-- A request arrived after the first answer with an unknown tagged field. -/
def Harness.CarriedOn (h : Harness) : Prop :=
  ∃ before connId index staged answer after,
    h.log = before ++ .answered connId index staged answer :: after ∧ taggedOf before = [] ∧
      answer.isTagged = true ∧ arrivals after ≠ []

end Meaning

section Condition

/-- The moves that the next verdict of a connection stages. -/
def Harness.staging (h : Harness) (connId : Nat) : List FaultEvent :=
  match h.conns[connId]? with
  | some { nodeId, phase := .judging _ header (route :: _) _ _, .. } =>
    (h.view.judge header.requestApiKey nodeId route).1.events.drop h.view.events.length
  | _ => []

/-- The next answer of a connection is the first to carry an unknown tagged field. -/
def Harness.tagsFirst (h : Harness) (connId : Nat) : Bool :=
  match h.conns[connId]? with
  | some { phase := .judging obs header [] judged _, .. } =>
    h.view.tagged.isEmpty &&
      (h.view.respond header connId obs.index obs.saslMechanism judged).2.any Answer.isTagged
  | _ => false

/-- No step lets an observation count that is not a recovery: a move is staged
before its partition is addressed at the new leader; from there on only a
produce or fetch that follows the answer does so; the unknown field is first
sent while no other connection has spoken. -/
def Orderly (bodies : Bodies) (h : Harness) : Action → Prop
  | .receive connId frame =>
    ∀ conn ∈ h.conns[connId]?, ∀ event ∈ h.view.events,
      let obs := Harness.observe bodies conn connId frame
      addresses event obs = true →
        (obs.apiKey = produceKey ∨ obs.apiKey = fetchKey) ∧ stagedIn h.log event = true
  | .judge connId =>
    ∀ event ∈ h.staging connId, ∀ obs ∈ arrivals h.log, addresses event obs = false
  | .answer connId =>
    h.tagsFirst connId = true → ∀ obs ∈ arrivals h.log, obs.connId = connId
  | _ => True

instance (bodies : Bodies) (h : Harness) : ∀ action, Decidable (Orderly bodies h action)
  | .open _ => isTrue trivial
  | .receive _ _ =>
    inferInstanceAs (Decidable (∀ conn ∈ (_ : Option Conn), ∀ event ∈ (_ : List FaultEvent), _ → _))
  | .judge _ =>
    inferInstanceAs (Decidable (∀ event ∈ (_ : List FaultEvent),
      ∀ obs ∈ (_ : List Observation), _ = _))
  | .answer _ => inferInstanceAs (Decidable (_ → ∀ obs ∈ (_ : List Observation), _ = _))
  | .record _ => isTrue trivial

def ClientSession (bodies : Bodies) : Harness → Prop :=
  Reachable (fun h => ∃ fault, h = .start fault) fun h action t => h.next bodies action = some t

def OrderlySession (bodies : Bodies) : Harness → Prop :=
  Reachable (fun h => ∃ fault, h = .start fault)
    fun h action t => Orderly bodies h action ∧ h.next bodies action = some t

end Condition

section Logs

variable {before after : List Entry} {obs : Observation} {event : FaultEvent}

@[simp] theorem arrivals_append : arrivals (before ++ after) = arrivals before ++ arrivals after :=
  List.filterMap_append

@[simp] theorem taggedOf_append : taggedOf (before ++ after) = taggedOf before ++ taggedOf after :=
  List.flatMap_append

theorem mem_arrivals : obs ∈ arrivals before ↔ .arrived obs ∈ before := by
  unfold arrivals
  rw [List.mem_filterMap]
  constructor
  · rintro ⟨entry, hmem, heq⟩
    cases entry with
    | arrived o => cases heq; exact hmem
    | answered => cases heq
  · exact fun hmem => ⟨_, hmem, rfl⟩

theorem stagedIn_split (h : stagedIn before event = true) :
    ∃ first connId index staged answer rest,
      before = first ++ .answered connId index staged answer :: rest ∧ event ∈ staged := by
  unfold stagedIn at h
  rw [List.any_eq_true] at h
  obtain ⟨entry, hmem, hstaged⟩ := h
  cases entry with
  | arrived => cases hstaged
  | answered connId index staged answer =>
      obtain ⟨first, rest, heq⟩ := List.append_of_mem hmem
      exact ⟨first, connId, index, staged, answer, rest, heq, List.contains_iff_mem.mp hstaged⟩

theorem Harness.recovered_early {h : Harness} {event : FaultEvent}
    (hrecovered : h.Recovered event) :
    stagedIn h.log.dropLast event = true := by
  obtain ⟨before, connId, index, staged, answer, after, hlog, hstaged, obs, hobs, _⟩ := hrecovered
  have hafter : Entry.answered connId index staged answer :: after ≠ [] := List.cons_ne_nil _ _
  rw [hlog, List.dropLast_append_of_ne_nil hafter,
    List.dropLast_cons_of_ne_nil (fun hnil => by simp [hnil, arrivals] at hobs)]
  simp [stagedIn, hstaged]

theorem Harness.carriedOn_early {h : Harness} (hcarried : h.CarriedOn) :
    taggedOf h.log.dropLast ≠ [] := by
  obtain ⟨before, connId, index, staged, answer, after, hlog, _, htagged, hmore⟩ := hcarried
  have hafter : Entry.answered connId index staged answer :: after ≠ [] := List.cons_ne_nil _ _
  rw [hlog, List.dropLast_append_of_ne_nil hafter,
    List.dropLast_cons_of_ne_nil (fun hnil => hmore (by simp [hnil, arrivals]))]
  simp [taggedOf, htagged]

end Logs

section Steps

namespace ClusterView

variable (view : ClusterView)

theorem produceError_tagged (partition nodeId : Int32) :
    (view.produceError partition nodeId).1.tagged = view.tagged := by
  unfold produceError
  repeat' split
  all_goals rfl

theorem produceError_events (partition nodeId : Int32) :
    view.events <+: (view.produceError partition nodeId).1.events := by
  unfold produceError
  repeat' split
  all_goals first | exact List.prefix_rfl | exact List.prefix_append _ _

theorem judge_tagged (apiKey : Int16) (nodeId : Int32) (route : String × Int32) :
    (view.judge apiKey nodeId route).1.tagged = view.tagged := by
  unfold judge
  split
  · rfl
  · split
    · exact view.produceError_tagged route.2 nodeId
    · rfl

theorem judge_events (apiKey : Int16) (nodeId : Int32) (route : String × Int32) :
    view.events <+: (view.judge apiKey nodeId route).1.events := by
  unfold judge
  split
  · exact List.prefix_rfl
  · split
    · exact view.produceError_events route.2 nodeId
    · exact List.prefix_rfl

theorem tagFor_tagged (connId index : Nat) (flexible : Bool) :
    (view.tagFor connId index flexible).1.tagged =
      view.tagged ++ if (view.tagFor connId index flexible).2 then [(connId, index)] else [] := by
  unfold tagFor
  split
  · rfl
  · exact (List.append_nil _).symm

theorem tagFor_events (connId index : Nat) (flexible : Bool) :
    (view.tagFor connId index flexible).1.events = view.events := by
  unfold tagFor
  split <;> rfl

theorem throttleFor_tagged (connId index : Nat) (supported : Bool) :
    (view.throttleFor connId index supported).1.tagged = view.tagged := by
  unfold throttleFor
  split <;> rfl

theorem throttleFor_events (connId index : Nat) (supported : Bool) :
    (view.throttleFor connId index supported).1.events = view.events := by
  unfold throttleFor
  split <;> rfl

variable (header : RequestHeader) (connId index : Nat) (saslMechanism : Option String)
  (judged : List Judged)

theorem respond_events :
    (view.respond header connId index saslMechanism judged).1.events = view.events := by
  unfold respond
  simp only
  repeat' split
  all_goals simp only [tagFor_events, throttleFor_events]

/-- Exactly the answers with an unknown field are recorded. -/
theorem respond_tagged :
    (view.respond header connId index saslMechanism judged).1.tagged =
      view.tagged ++
        if (view.respond header connId index saslMechanism judged).2.any Answer.isTagged then
          [(connId, index)] else [] := by
  unfold respond
  simp only
  repeat' split
  all_goals simp_all only [tagFor_tagged, throttleFor_tagged, Option.any_some, Option.any_none,
    Answer.isTagged, Bool.false_eq_true, if_false, if_true, List.append_nil]

end ClusterView

/-- The observation that a connection has made and not handed over yet. -/
def Phase.held : Phase → Option Observation
  | .idle => none
  | .judging obs .. => some obs
  | .answered obs => some obs

@[simp] theorem phaseOf_held (obs : Observation) : (Harness.phaseOf obs).held = some obs := by
  unfold Harness.phaseOf
  split <;> rfl

namespace Harness

variable {bodies : Bodies} {h t : Harness} {connId : Nat} {nodeId : Int32} {frame : Bytes}

theorem next_open (hnext : h.next bodies (.open nodeId) = some t) :
    t = { h with conns := h.conns ++ [{ nodeId, received := 0, phase := .idle }] } := by
  unfold next at hnext
  simp only at hnext
  split at hnext
  · exact (Option.some.inj hnext).symm
  · cases hnext

theorem next_receive (hnext : h.next bodies (.receive connId frame) = some t) :
    ∃ conn, h.conns[connId]? = some conn ∧
      t = { h.setConn connId { conn with
              received := conn.received + 1
              phase := phaseOf (observe bodies conn connId frame) } with
            log := h.log ++ [.arrived (observe bodies conn connId frame)] } := by
  obtain ⟨conn, hconn, hrest⟩ := Option.bind_eq_some_iff.mp hnext
  refine ⟨conn, hconn, ?_⟩
  split at hrest
  · exact (Option.some.inj hrest).symm
  · cases hrest

theorem next_judge (hnext : h.next bodies (.judge connId) = some t) :
    ∃ conn obs header route left judged staged,
      h.conns[connId]? = some conn ∧
      conn.phase = .judging obs header (route :: left) judged staged ∧
      (t.view = (h.view.judge header.requestApiKey conn.nodeId route).1 ∧
        ∃ judged staged, t.conns = h.conns.set connId
          { conn with phase := .judging obs header left judged staged }) ∧
      t.sent = h.sent ∧ t.log = h.log := by
  obtain ⟨conn, hconn, hrest⟩ := Option.bind_eq_some_iff.mp hnext
  split at hrest
  next obs header route left judged staged hphase =>
      obtain rfl := Option.some.inj hrest
      exact ⟨conn, obs, header, route, left, judged, staged, hconn, hphase,
        ⟨rfl, _, _, rfl⟩, rfl, rfl⟩
  next => cases hrest

theorem next_answer (hnext : h.next bodies (.answer connId) = some t) :
    ∃ conn obs header judged staged,
      h.conns[connId]? = some conn ∧
      conn.phase = .judging obs header [] judged staged ∧
      t = { h.setConn connId { conn with phase := .answered obs } with
            view := (h.view.respond header connId obs.index obs.saslMechanism judged).1
            log := h.log ++ ((h.view.respond header connId obs.index obs.saslMechanism judged).2.map
              (.answered connId obs.index staged)).toList } := by
  obtain ⟨conn, hconn, hrest⟩ := Option.bind_eq_some_iff.mp hnext
  split at hrest
  next obs header judged staged hphase =>
      exact ⟨conn, obs, header, judged, staged, hconn, hphase, (Option.some.inj hrest).symm⟩
  next => cases hrest

theorem next_record (hnext : h.next bodies (.record connId) = some t) :
    ∃ conn obs, h.conns[connId]? = some conn ∧ conn.phase = .answered obs ∧
      t = { h.setConn connId { conn with phase := .idle } with sent := h.sent ++ [obs] } := by
  obtain ⟨conn, hconn, hrest⟩ := Option.bind_eq_some_iff.mp hnext
  split at hrest
  next obs hphase => exact ⟨conn, obs, hconn, hphase, (Option.some.inj hrest).symm⟩
  next => cases hrest

theorem staging_eq {conn : Conn} {obs header route left judged staged}
    (hconn : h.conns[connId]? = some conn)
    (hphase : conn.phase = .judging obs header (route :: left) judged staged) :
    h.staging connId = (h.view.judge header.requestApiKey conn.nodeId route).1.events.drop
      h.view.events.length := by
  obtain ⟨nodeId, received, phase⟩ := conn
  cases hphase
  unfold staging
  rw [hconn]

theorem tagsFirst_eq {conn : Conn} {obs header judged staged}
    (hconn : h.conns[connId]? = some conn)
    (hphase : conn.phase = .judging obs header [] judged staged) :
    h.tagsFirst connId = (h.view.tagged.isEmpty &&
      (h.view.respond header connId obs.index obs.saslMechanism judged).2.any
        Answer.isTagged) := by
  obtain ⟨nodeId, received, phase⟩ := conn
  cases hphase
  unfold tagsFirst
  rw [hconn]

end Harness

end Steps

section Bookkeeping

variable {h t : Harness} {connId : Nat} {conn conn' : Conn}

/-- Requests are numbered on each connection, and what is judged has arrived. -/
structure Harness.Kept (h : Harness) : Prop where
  numbered : ∀ obs ∈ arrivals h.log,
    ∃ conn, h.conns[obs.connId]? = some conn ∧ obs.index < conn.received
  held : ∀ connId conn, h.conns[connId]? = some conn → ∀ obs ∈ conn.phase.held,
    obs ∈ arrivals h.log ∧ obs.connId = connId ∧ obs.index + 1 = conn.received
  sent : ∀ obs ∈ h.sent, obs ∈ arrivals h.log
  tagged : h.view.tagged = taggedOf h.log

theorem observe_connId (bodies : Bodies) (conn : Conn) (connId : Nat) (frame : Bytes) :
    (Harness.observe bodies conn connId frame).connId = connId := by
  unfold Harness.observe parseRequest
  split
  · rfl
  · simp only
    split <;> rfl

theorem observe_index (bodies : Bodies) (conn : Conn) (connId : Nat) (frame : Bytes) :
    (Harness.observe bodies conn connId frame).index = conn.received := by
  unfold Harness.observe parseRequest
  split
  · rfl
  · simp only
    split <;> rfl

theorem Harness.Kept.start (fault : Option HarnessFault) : (Harness.start fault).Kept where
  numbered := fun _ hobs => (by cases hobs)
  held := fun _ _ hconn => (by cases hconn)
  sent := fun _ hobs => (by cases hobs)
  tagged := rfl

/-- A step of one connection keeps the books when its own entries are in order. -/
theorem Harness.Kept.set (hkept : h.Kept) (hconn : h.conns[connId]? = some conn)
    (hconns : t.conns = h.conns.set connId conn') (hreceived : conn.received ≤ conn'.received)
    (hmore : ∀ obs ∈ arrivals h.log, obs ∈ arrivals t.log)
    (hnew : ∀ obs ∈ arrivals t.log,
      obs ∈ arrivals h.log ∨ obs.connId = connId ∧ obs.index < conn'.received)
    (hheld : ∀ obs ∈ conn'.phase.held,
      obs ∈ arrivals t.log ∧ obs.connId = connId ∧ obs.index + 1 = conn'.received)
    (hsent : ∀ obs ∈ t.sent, obs ∈ arrivals t.log) (htagged : t.view.tagged = taggedOf t.log) :
    t.Kept := by
  have hlt : connId < h.conns.length := (List.getElem?_eq_some_iff.mp hconn).1
  refine ⟨?_, ?_, hsent, htagged⟩
  · intro obs hobs
    rw [hconns, List.getElem?_set]
    by_cases hown : connId = obs.connId
    · rw [if_pos hown, if_pos hlt]
      refine ⟨conn', rfl, ?_⟩
      rcases hnew obs hobs with hold | ⟨_, hindex⟩
      · obtain ⟨was, hwas, hindex⟩ := hkept.numbered obs hold
        rw [← hown, hconn] at hwas
        cases hwas
        exact Nat.lt_of_lt_of_le hindex hreceived
      · exact hindex
    · rw [if_neg hown]
      rcases hnew obs hobs with hold | ⟨hconnId, _⟩
      · exact hkept.numbered obs hold
      · exact absurd hconnId.symm hown
  · intro other otherConn hother obs hobs
    rw [hconns, List.getElem?_set] at hother
    by_cases hsame : connId = other
    · rw [if_pos hsame, if_pos hlt] at hother
      cases hother
      rw [← hsame]
      exact hheld obs hobs
    · rw [if_neg hsame] at hother
      obtain ⟨harrived, hrest⟩ := hkept.held other otherConn hother obs hobs
      exact ⟨hmore obs harrived, hrest⟩

/-- A new connection has nothing arrived on it. -/
theorem Harness.Kept.opens {bodies : Bodies} {nodeId : Int32} (hkept : h.Kept)
    (hnext : h.next bodies (.open nodeId) = some t) : t.Kept := by
  obtain rfl := next_open hnext
  refine ⟨?_, ?_, hkept.sent, hkept.tagged⟩
  · intro obs hobs
    obtain ⟨conn, hconn, hindex⟩ := hkept.numbered obs hobs
    have hlt := (List.getElem?_eq_some_iff.mp hconn).1
    exact ⟨conn, List.getElem?_append_left hlt ▸ hconn, hindex⟩
  · intro connId conn hconn obs hobs
    simp only [List.getElem?_append] at hconn
    split at hconn
    · exact hkept.held connId conn hconn obs hobs
    · rw [List.getElem?_singleton] at hconn
      split at hconn
      · cases hconn
        cases hobs
      · cases hconn

/-- An arrival takes the next number of its connection. -/
theorem Harness.Kept.receives {bodies : Bodies} {connId : Nat} {frame : Bytes} (hkept : h.Kept)
    (hnext : h.next bodies (.receive connId frame) = some t) : t.Kept := by
  obtain ⟨conn, hconn, rfl⟩ := next_receive hnext
  have hindex := observe_index bodies conn connId frame
  have hown := observe_connId bodies conn connId frame
  refine hkept.set hconn rfl (Nat.le_succ _) ?_ ?_ ?_ ?_ ?_
  · intro obs hobs
    rw [arrivals_append]
    exact List.mem_append_left _ hobs
  · intro obs hobs
    rw [arrivals_append] at hobs
    rcases List.mem_append.mp hobs with hold | hnew
    · exact .inl hold
    · obtain rfl := List.mem_singleton.mp hnew
      exact .inr ⟨hown, hindex ▸ Nat.lt_succ_self _⟩
  · intro obs hobs
    rw [phaseOf_held] at hobs
    obtain rfl := Option.some.inj hobs
    rw [arrivals_append]
    exact ⟨List.mem_append_right _ (List.mem_singleton.mpr rfl), hown, hindex ▸ rfl⟩
  · intro obs hobs
    rw [arrivals_append]
    exact List.mem_append_left _ (hkept.sent obs hobs)
  · rw [taggedOf_append]
    exact hkept.tagged.trans (List.append_nil _).symm

theorem Harness.Kept.judges {bodies : Bodies} {connId : Nat} (hkept : h.Kept)
    (hnext : h.next bodies (.judge connId) = some t) : t.Kept := by
  obtain ⟨conn, obs, header, route, left, judged, staged, hconn, hphase,
    ⟨hview, _, _, hconns⟩, hsent, hlog⟩ := next_judge hnext
  have hheld := hkept.held connId conn hconn obs (hphase ▸ rfl)
  refine hkept.set hconn hconns (Nat.le_refl _) ?_ ?_ ?_ ?_ ?_
  · exact fun obs hobs => hlog ▸ hobs
  · exact fun obs hobs => .inl (hlog ▸ hobs)
  · intro obs hobs
    obtain rfl := Option.some.inj hobs
    exact hlog ▸ hheld
  · exact fun obs hobs => hlog ▸ hkept.sent obs (hsent ▸ hobs)
  · rw [hview, ClusterView.judge_tagged, hlog]
    exact hkept.tagged

theorem Harness.Kept.answers {bodies : Bodies} {connId : Nat} (hkept : h.Kept)
    (hnext : h.next bodies (.answer connId) = some t) : t.Kept := by
  obtain ⟨conn, obs, header, judged, staged, hconn, hphase, rfl⟩ := next_answer hnext
  have hheld := hkept.held connId conn hconn obs (hphase ▸ rfl)
  have hnone : ∀ answer : Option Answer,
      arrivals (answer.map (Entry.answered connId obs.index staged)).toList = [] := by
    intro answer
    cases answer <;> rfl
  have hsame : ∀ answer : Option Answer, arrivals (h.log ++
      (answer.map (Entry.answered connId obs.index staged)).toList) = arrivals h.log := by
    intro answer
    rw [arrivals_append, hnone, List.append_nil]
  refine hkept.set hconn rfl (Nat.le_refl _) ?_ ?_ ?_ ?_ ?_
  · exact fun obs hobs => (hsame _).symm ▸ hobs
  · exact fun obs hobs => .inl (hsame _ ▸ hobs)
  · intro obs hobs
    obtain rfl := Option.some.inj hobs
    exact (hsame _).symm ▸ hheld
  · exact fun obs hobs => (hsame _).symm ▸ hkept.sent obs hobs
  · rw [ClusterView.respond_tagged, taggedOf_append, hkept.tagged]
    cases (h.view.respond header connId obs.index obs.saslMechanism judged).2 with
    | none => rfl
    | some answer => simp [taggedOf]

theorem Harness.Kept.records {bodies : Bodies} {connId : Nat} (hkept : h.Kept)
    (hnext : h.next bodies (.record connId) = some t) : t.Kept := by
  obtain ⟨conn, obs, hconn, hphase, rfl⟩ := next_record hnext
  have hheld := hkept.held connId conn hconn obs (hphase ▸ rfl)
  refine hkept.set hconn rfl (Nat.le_refl _) (fun _ hobs => hobs)
    (fun _ hobs => .inl hobs) ?_ ?_ hkept.tagged
  · exact fun _ hobs => (by cases hobs)
  · intro other hother
    rcases List.mem_append.mp hother with hold | hnew
    · exact hkept.sent other hold
    · obtain rfl := List.mem_singleton.mp hnew
      exact hheld.1

/-- Arrivals, verdicts and answers stay numbered, whatever the connection does next. -/
theorem Harness.Kept.next {bodies : Bodies} {action : Action} (hkept : h.Kept)
    (hnext : h.next bodies action = some t) : t.Kept := by
  cases action with
  | «open» nodeId => exact hkept.opens hnext
  | receive connId frame => exact hkept.receives hnext
  | judge connId => exact hkept.judges hnext
  | answer connId => exact hkept.answers hnext
  | record connId => exact hkept.records hnext

end Bookkeeping

section Earned

variable {bodies : Bodies} {h t : Harness} {action : Action}

/-- Every arrival that counts for a staged move is a produce or fetch after its answer. -/
def Harness.MovesEarned (h : Harness) : Prop :=
  ∀ event ∈ h.view.events, EachAfter (fun before entry =>
    ∀ obs, entry = .arrived obs → addresses event obs = true →
      (obs.apiKey = produceKey ∨ obs.apiKey = fetchKey) ∧ stagedIn before event = true) h.log

/-- A step that is in order lets nothing count for a move before its answer. -/
theorem Harness.MovesEarned.next (hearned : h.MovesEarned) (hok : Orderly bodies h action)
    (hnext : h.next bodies action = some t) : t.MovesEarned := by
  cases action with
  | «open» nodeId =>
      obtain rfl := next_open hnext
      exact hearned
  | receive connId frame =>
      obtain ⟨conn, hconn, rfl⟩ := next_receive hnext
      intro event hevent
      refine (hearned event hevent).append ?_
      intro obs hobs haddresses
      cases hobs
      exact hok conn hconn event hevent haddresses
  | judge connId =>
      obtain ⟨conn, obs, header, route, left, judged, staged, hconn, hphase,
        ⟨hview, _⟩, _, hlog⟩ := next_judge hnext
      intro event hevent
      rw [hlog]
      by_cases hold : event ∈ h.view.events
      · exact hearned event hold
      · obtain ⟨fresh, hfresh⟩ :=
          h.view.judge_events header.requestApiKey conn.nodeId route
        have hstaging : event ∈ h.staging connId := by
          rw [hview, ← hfresh] at hevent
          rw [staging_eq hconn hphase, ← hfresh, List.drop_left]
          exact (List.mem_append.mp hevent).resolve_left hold
        intro before entry after hsplit other hentry haddresses
        have harrived : other ∈ arrivals h.log := by
          rw [mem_arrivals, hsplit, ← hentry]
          exact List.mem_append_right _ List.mem_cons_self
        rw [hok event hstaging other harrived] at haddresses
        cases haddresses
  | answer connId =>
      obtain ⟨conn, obs, header, judged, staged, hconn, hphase, rfl⟩ := next_answer hnext
      intro event hevent
      rw [ClusterView.respond_events] at hevent
      cases (h.view.respond header connId obs.index obs.saslMechanism judged).2 with
      | none =>
          simp only [Option.map_none, Option.toList_none, List.append_nil]
          exact hearned event hevent
      | some answer =>
          refine (hearned event hevent).append ?_
          intro other hentry
          cases hentry
  | record connId =>
      obtain ⟨conn, obs, hconn, hphase, rfl⟩ := next_record hnext
      exact hearned

/-- Every arrival up to the first answer with an unknown field is on its
connection, and no later than the request it answers. -/
def Harness.FieldEarned (h : Harness) : Prop :=
  ∀ connId index, h.view.tagged.head? = some (connId, index) →
    ∃ before staged answer after, h.log = before ++ .answered connId index staged answer :: after ∧
      taggedOf before = [] ∧ answer.isTagged = true ∧
      ∀ obs ∈ arrivals before, obs.connId = connId ∧ obs.index ≤ index

theorem Harness.FieldEarned.extend (hearned : h.FieldEarned) (rest : List Entry)
    (hhead : t.view.tagged.head? = h.view.tagged.head?) (hlog : t.log = h.log ++ rest) :
    t.FieldEarned := by
  intro connId index hfirst
  obtain ⟨before, staged, answer, after, hsplit, hrest⟩ := hearned connId index (hhead ▸ hfirst)
  refine ⟨before, staged, answer, after ++ rest, ?_, hrest⟩
  rw [hlog, hsplit, List.append_assoc, List.cons_append]

theorem Harness.FieldEarned.next (hkept : h.Kept) (hearned : h.FieldEarned)
    (hok : Orderly bodies h action) (hnext : h.next bodies action = some t) : t.FieldEarned := by
  cases action with
  | «open» nodeId =>
      obtain rfl := next_open hnext
      exact hearned
  | receive connId frame =>
      obtain ⟨conn, hconn, rfl⟩ := next_receive hnext
      exact hearned.extend _ rfl rfl
  | judge connId =>
      obtain ⟨conn, obs, header, route, left, judged, staged, hconn, hphase,
        ⟨hview, _⟩, _, hlog⟩ := next_judge hnext
      refine hearned.extend [] ?_ (hlog.trans (List.append_nil _).symm)
      rw [hview, ClusterView.judge_tagged]
  | answer connId =>
      obtain ⟨conn, obs, header, judged, staged, hconn, hphase, rfl⟩ := next_answer hnext
      have htagged := h.view.respond_tagged header connId obs.index obs.saslMechanism judged
      have hdecided := tagsFirst_eq hconn hphase
      cases hfirst : h.tagsFirst connId with
      | true =>
          rw [hfirst, eq_comm, Bool.and_eq_true, List.isEmpty_iff] at hdecided
          obtain ⟨hempty, hany⟩ := hdecided
          obtain ⟨answer, hanswer, htags⟩ := (Option.any_eq_true _ _).mp hany
          rw [if_pos hany, hempty] at htagged
          intro first index hhead
          rw [htagged] at hhead
          cases hhead
          refine ⟨h.log, staged, answer, [], ?_, hkept.tagged ▸ hempty, htags, ?_⟩
          · rw [hanswer]
            rfl
          · intro other hother
            have hown := hok hfirst other hother
            obtain ⟨held, hheld, hindex⟩ := hkept.numbered other hother
            rw [hown, hconn] at hheld
            cases hheld
            obtain ⟨_, _, hreceived⟩ := hkept.held connId conn hconn obs (hphase ▸ rfl)
            exact ⟨hown, by omega⟩
      | false =>
          rw [hfirst, eq_comm, Bool.and_eq_false_iff] at hdecided
          refine hearned.extend _ ?_ rfl
          rw [htagged]
          rcases hdecided with hsome | hplain
          · exact List.head?_append_of_ne_nil _ (fun hnil => by simp [hnil] at hsome)
          · rw [hplain, if_neg Bool.false_ne_true, List.append_nil]
  | record connId =>
      obtain ⟨conn, obs, hconn, hphase, rfl⟩ := next_record hnext
      exact hearned

theorem OrderlySession.earned (hrun : OrderlySession bodies h) :
    h.Kept ∧ h.MovesEarned ∧ h.FieldEarned := by
  refine Reachable.invariant (P := fun h => h.Kept ∧ h.MovesEarned ∧ h.FieldEarned) ?_ ?_ hrun
  · rintro _ ⟨fault, rfl⟩
    exact ⟨.start fault, fun _ hevent => (by cases hevent), fun _ _ hhead => (by cases hhead)⟩
  · rintro h action t ⟨hkept, hmoves, hfield⟩ ⟨hok, hnext⟩
    exact ⟨hkept.next hnext, hmoves.next hok hnext, hfield.next hkept hok hnext⟩

/-- In an orderly session a pass means what it says, whenever the session ends. -/
theorem passes_earned (hrun : OrderlySession bodies h) (collected : Nat) :
    (recoversFromLeaderChange (h.session collected) = .pass →
      ∀ event ∈ h.view.events, h.Recovered event) ∧
    (toleratesUnknownTaggedFields (h.session collected) = .pass → h.CarriedOn) := by
  obtain ⟨hkept, hmoves, hfield⟩ := hrun.earned
  have hcollected : ∀ obs ∈ (h.session collected).observations, obs ∈ arrivals h.log :=
    fun obs hobs => hkept.sent obs (List.mem_of_mem_take hobs)
  refine ⟨?_, ?_⟩
  · intro hpass event hevent
    obtain ⟨_, _, hall⟩ := recovers_pass_iff.mp hpass
    obtain ⟨obs, hobs, haddresses⟩ := hall event hevent
    obtain ⟨before, after, hsplit⟩ := List.append_of_mem (mem_arrivals.mp (hcollected obs hobs))
    obtain ⟨hkey, hstaged⟩ := hmoves event hevent before _ after hsplit obs rfl haddresses
    obtain ⟨first, connId, index, staged, answer, rest, hbefore, hmem⟩ := stagedIn_split hstaged
    refine ⟨first, connId, index, staged, answer, rest ++ .arrived obs :: after, ?_, hmem, obs, ?_,
      hkey, haddresses⟩
    · rw [hsplit, hbefore, List.append_assoc, List.cons_append]
    · exact mem_arrivals.mpr (List.mem_append_right _ List.mem_cons_self)
  · intro hpass
    obtain ⟨connId, index, hhead, obs, hobs, hlater⟩ := tolerates_pass_iff.mp hpass
    obtain ⟨before, staged, answer, after, hsplit, hclean, htags, hown⟩ := hfield connId index hhead
    refine ⟨before, connId, index, staged, answer, after, hsplit, hclean, htags, ?_⟩
    have harrived := mem_arrivals.mp (hcollected obs hobs)
    rw [hsplit] at harrived
    rcases List.mem_append.mp harrived with hbefore | hafter
    · obtain ⟨hconn, hindex⟩ := hown obs (mem_arrivals.mpr hbefore)
      exact absurd (hlater hconn) (by omega)
    · rcases List.mem_cons.mp hafter with heq | hmem
      · cases heq
      · exact List.ne_nil_of_mem (mem_arrivals.mpr hmem)

end Earned

section Samples

def sampleArray {α : Type} (item : Decode α) : Decode (List α) := do
  let count ← getI32
  (List.range count.toInt.toNat).mapM fun _ => item

def sampleProduce : Decode (List TopicRef) := do
  let _ ← getNullableString
  let _ ← getI16
  let _ ← getI32
  sampleArray do
    let name ← getString
    let partitions ← sampleArray do
      let index ← getI32
      let _ ← getNullableBytes
      pure index
    pure { name, topicId := [], partitions }

def sampleFetch : Decode (List TopicRef) := do
  let _ ← getI32
  let _ ← getI32
  let _ ← getI32
  let _ ← getI32
  let _ ← getI8
  sampleArray do
    let name ← getString
    let partitions ← sampleArray do
      let partition ← getI32
      let _ ← getI64
      let _ ← getI32
      pure partition
    pure { name, topicId := [], partitions }

def decodeWhole {α : Type} (d : Decode α) (body : Bytes) : Option α :=
  match runDecode .default d body with
  | .ok (a, []) => some a
  | _ => none

def sampleBodies : Bodies where
  produce version body := if version = 3 then decodeWhole sampleProduce body else none
  fetch version body := if version = 4 then decodeWhole sampleFetch body else none
  listOffsets _ _ := none
  saslHandshake _ _ := none

def sampleHeader (apiKey version : Int16) : Bytes :=
  putI16 apiKey ++ putI16 version ++ putI32 1 ++ putI16 (-1)

def samplePartitions : Bytes := putI32 1 ++ putI16 15 ++ utf8 routingTopic ++ putI32 1 ++ putI32 0

/-- A produce request for the first partition, without records. -/
def produceFrame : Bytes :=
  sampleHeader produceKey 3 ++ putI16 (-1) ++ putI16 1 ++ putI32 1000 ++ samplePartitions ++
    putI32 (-1)

def fetchFrame : Bytes :=
  sampleHeader fetchKey 4 ++ putI32 (-1) ++ putI32 500 ++ putI32 1 ++ putI32 1000 ++ putI8 0 ++
    samplePartitions ++ putI64 0 ++ putI32 1000

/-- A request without routes, from its arrival to its record. -/
def exchange (connId : Nat) (frame : Bytes) : List Action :=
  [.receive connId frame, .answer connId, .record connId]

def routedExchange (connId : Nat) (frame : Bytes) : List Action :=
  [.receive connId frame, .judge connId, .answer connId, .record connId]

/-- A produce that is turned away, and the same produce at the new leader. -/
def recoverySession : List Action :=
  [.open 0, .open 1] ++ routedExchange 0 produceFrame ++ routedExchange 1 produceFrame

/-- A request whose answer carries the field, and a fetch behind it. -/
def carriedOnSession : List Action :=
  [.open 0] ++ exchange 0 (sampleHeader apiVersionsKey 3 ++ [0, 1, 1, 0]) ++
    routedExchange 0 fetchFrame

/-- A fetch at another broker, and then the only produce, which is turned away. -/
def earlyFetchSession : List Action :=
  [.open 1, .open 0] ++ routedExchange 0 fetchFrame ++ routedExchange 1 produceFrame

/-- An old version request on one connection, and then the only request whose
answer has room for the field, on another. -/
def earlyRequestSession : List Action :=
  [.open 0, .open 0] ++ exchange 0 (sampleHeader apiVersionsKey 0) ++
    exchange 1 (sampleHeader apiVersionsKey 3 ++ [0, 1, 1, 0])

end Samples

theorem orderlySession_of_run {P : Harness → Bool} (fault : Option HarnessFault)
    (actions : List Action)
    (hdone : (runActions (Orderly sampleBodies) (Harness.next sampleBodies) (.start fault)
      actions).any P = true) :
    ∃ h, OrderlySession sampleBodies h ∧ P h = true := by
  obtain ⟨h, hrun, hfacts⟩ := (Option.any_eq_true _ _).mp hdone
  exact ⟨h, .of_run actions (.start ⟨fault, rfl⟩) hrun, hfacts⟩

/-- A client that follows a move, and one that goes on after the unknown field. -/
theorem passes_earned_recovery :
    (∃ h, OrderlySession sampleBodies h ∧ recoversFromLeaderChange (h.session 2) = .pass ∧
      h.view.events ≠ [] ∧ ∀ event ∈ h.view.events, h.Recovered event) ∧
    ∃ h, OrderlySession sampleBodies h ∧ toleratesUnknownTaggedFields (h.session 2) = .pass ∧
      h.CarriedOn := by
  constructor
  · obtain ⟨h, hsession, hfacts⟩ := orderlySession_of_run (P := fun h =>
      recoversFromLeaderChange (h.session 2) = .pass && !h.view.events.isEmpty)
      (some .leaderMove) recoverySession (by decide)
    rw [Bool.and_eq_true, decide_eq_true_eq] at hfacts
    exact ⟨h, hsession, hfacts.1, fun hnil => by simp [hnil] at hfacts,
      (passes_earned hsession 2).1 hfacts.1⟩
  · obtain ⟨h, hsession, hfacts⟩ := orderlySession_of_run (P := fun h =>
      toleratesUnknownTaggedFields (h.session 2) = .pass)
      (some .unknownTaggedField) carriedOnSession (by decide)
    rw [decide_eq_true_eq] at hfacts
    exact ⟨h, hsession, hfacts, (passes_earned hsession 2).2 hfacts⟩

theorem session_of_run {P : Harness → Bool} (fault : Option HarnessFault) (actions : List Action)
    (hdone : (runActions (fun _ _ => True) (Harness.next sampleBodies) (.start fault) actions).any P
      = true) :
    ∃ h, ClientSession sampleBodies h ∧ P h = true := by
  obtain ⟨h, hrun, hfacts⟩ := (Option.any_eq_true _ _).mp hdone
  refine ⟨h, ?_, hfacts⟩
  exact (Reachable.of_run actions (.start ⟨fault, rfl⟩) hrun).mono fun _ _ _ hstep => hstep.2

/-- A fetch from before the move, or a request from before the field, earns a pass. -/
theorem passes_unearned :
    (∃ h, ClientSession sampleBodies h ∧ recoversFromLeaderChange (h.session 2) = .pass ∧
      ∃ event ∈ h.view.events, ¬ h.Recovered event) ∧
    (∃ h, ClientSession sampleBodies h ∧ toleratesUnknownTaggedFields (h.session 2) = .pass ∧
      ¬ h.CarriedOn) := by
  refine ⟨?_, ?_⟩
  · obtain ⟨h, hsession, hfacts⟩ := session_of_run (P := fun h =>
      recoversFromLeaderChange (h.session 2) = .pass &&
        h.view.events.any fun event => !stagedIn h.log.dropLast event)
      (some .leaderMove) earlyFetchSession (by decide)
    rw [Bool.and_eq_true, decide_eq_true_eq, List.any_eq_true] at hfacts
    obtain ⟨hpass, event, hevent, hlate⟩ := hfacts
    refine ⟨h, hsession, hpass, event, hevent, fun hrecovered => ?_⟩
    rw [Harness.recovered_early hrecovered] at hlate
    cases hlate
  · obtain ⟨h, hsession, hfacts⟩ := session_of_run (P := fun h =>
      toleratesUnknownTaggedFields (h.session 2) = .pass && taggedOf h.log.dropLast = [])
      (some .unknownTaggedField) earlyRequestSession (by decide)
    rw [Bool.and_eq_true, decide_eq_true_eq, decide_eq_true_eq] at hfacts
    exact ⟨h, hsession, hfacts.1, fun hcarried => Harness.carriedOn_early hcarried hfacts.2⟩

end Odradek.Acceptance
