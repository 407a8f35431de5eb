import Odradek.Client.Correlation

/-!
Every interleaving of requests keeps the correlation of replies: each operation of a
request, what it may come to, and what the request knows of its reply slot after it.
-/

namespace Odradek.Client.Conn.Correlation

open Library Odradek.Protocol ConnWorld

section Rules

variable {clientId : String} {s : ConnWorld × Journal} {i : Nat} {call : ConnCall} {α : Type}
  {correlationId : Int32} {version : Int16} {reply : Nat} {rest : Bytes}

variable (clientId) in
abbrev ReplySat (i : Nat) (p : ConnProgram α) (Q : α → ConnWorld × Journal → Prop)
    (s : ConnWorld × Journal) : Prop :=
  (discipline clientId).Sat i p Q s

/-- An operation the journal takes no note of. -/
theorem sat_settles (call : ConnCall) {op : ConnOp} {Q : op.Res → ConnWorld × Journal → Prop}
    (hunnoted : ∀ c w j, journal.exec i op c w j = j)
    (hact : ∀ c w j r u, Rely i s (w, j) → Inv (w, j) → act i op c w = some (r, u) →
      Settles w u ∧ ∀ v, Rely i (u, j) v → Inv v → Q r v)
    (hdrop : ∀ w j u, Rely i s (w, j) → Inv (w, j) → drop i op w = some u →
      Settles w u ∧ Gone i call (u, j)) : ReplySat clientId i (perform op) Q s := by
  refine Discipline.Sat.perform ?_ ?_
  · rintro ⟨w, j⟩ hrely hinv c r ⟨u, j'⟩ hexec
    obtain ⟨hexec, hj⟩ := Machine.recorded_exec hexec
    obtain rfl : j' = j := hj.trans (hunnoted c w j)
    obtain ⟨hsettles, k⟩ := hact c w j' r u hrely hinv hexec
    exact ⟨hsettles.keeps hinv, k⟩
  · rintro ⟨w, j⟩ hrely hinv ⟨u, j'⟩ hdropped
    obtain ⟨hdropped, rfl⟩ := Machine.recorded_drop hdropped
    obtain ⟨hsettles, hgone⟩ := hdrop w j u hrely hinv hdropped
    exact (hsettles.keeps hinv).trans (keeps_drop (hsettles.inv hinv) hgone)

theorem sat_waitOutThrottle {Q : Unit → ConnWorld × Journal → Prop} (h : Unissued i call s)
    (k : ∀ t, Unissued i call t → Q () t) : ReplySat clientId i waitOutThrottle Q s := by
  have hsame : ∀ {w u : ConnWorld}, u = w → Settles w u := by
    rintro w u rfl
    exact .of_same rfl rfl rfl rfl
  refine Discipline.Sat.bind (sat_settles call (fun _ _ _ => rfl) ?_
    (fun _ _ _ _ _ hdrop => by cases hdrop))
  intro c w j pause u hrely _ hact
  have hsettles := hsame (act_throttleRemaining hact)
  refine ⟨hsettles, fun v hv _ => ?_⟩
  have hnext := ((h.rely hrely).rely hsettles.rely).rely hv
  cases pause with
  | none => exact Discipline.Sat.done fun x hx _ => k x (hnext.rely hx)
  | some pause =>
      refine sat_settles call (fun _ _ _ => rfl) ?_ ?_
      · intro c w j r u hrely _ hact
        have hsettles := hsame (act_sleep hact)
        exact ⟨hsettles, fun x hx _ => k x (((hnext.rely hrely).rely hsettles.rely).rely hx)⟩
      · intro w j u hrely _ hdrop
        cases hdrop
        exact ⟨hsame rfl, (hnext.rely hrely).gone⟩

theorem sat_loadClosed {Q : Bool → ConnWorld × Journal → Prop} (h : Unissued i call s)
    (k : ∀ closed t, Unissued i call t → Q closed t) :
    ReplySat clientId i (perform .loadClosed) Q s := by
  refine sat_settles call (fun _ _ _ => rfl) ?_ (fun _ _ _ _ _ hdrop => by cases hdrop)
  intro c w j closed u hrely _ hact
  obtain ⟨_, hu⟩ := act_loadClosed hact
  have hsettles : Settles w u := by
    rw [hu]
    split
    · exact .of_same rfl rfl rfl rfl
    · exact .of_same rfl rfl rfl rfl
  exact ⟨hsettles, fun v hv _ => k closed v (((h.rely hrely).rely hsettles.rely).rely hv)⟩

theorem sat_nextCorrelation {Q : Int32 → ConnWorld × Journal → Prop} (h : Unissued i call s)
    (k : ∀ correlationId t, Issued i call correlationId t → Q correlationId t) :
    ReplySat clientId i (perform .nextCorrelation) Q s := by
  refine Discipline.Sat.perform ?_ (fun _ _ _ _ hdrop => ?_)
  · rintro ⟨w, j⟩ hrely hinv c r ⟨u, j'⟩ hexec
    obtain ⟨hexec, rfl⟩ := Machine.recorded_exec hexec
    have hstart := h.rely hrely
    cases c with
    | go =>
        cases hexec
        exact ⟨keeps_issue hinv hstart, fun v hv _ => k _ v (hstart.issue.rely hv)⟩
    | _ => cases hexec
  · cases (Machine.recorded_drop hdrop).1

theorem sat_register {Q : Nat → ConnWorld × Journal → Prop} (h : Issued i call correlationId s)
    (hversion : responseHeaderVersion call.apiKey call.apiVersion = some version)
    (k : ∀ reply t, Registered i call correlationId reply t → Q reply t) :
    ReplySat clientId i (perform (.register correlationId version)) Q s := by
  refine Discipline.Sat.perform ?_ (fun _ _ _ _ hdrop => ?_)
  · rintro ⟨w, j⟩ hrely hinv c r ⟨u, j'⟩ hexec
    obtain ⟨hexec, rfl⟩ := Machine.recorded_exec hexec
    have hissued := h.rely hrely
    cases c with
    | go =>
        cases hexec
        exact ⟨keeps_register hinv hissued hversion,
          fun v hv _ => k _ v ((hissued.register hinv).rely hv)⟩
    | _ => cases hexec
  · cases (Machine.recorded_drop hdrop).1

theorem settles_leave {w : ConnWorld} : Settles w (w.leave i) := .of_same rfl rfl rfl rfl

theorem settles_abandonedWrite {w : ConnWorld} : Settles w (w.failAll.unlockWriter i) :=
  (settles_failAll w).trans (.of_same rfl rfl rfl rfl)

theorem sat_lockWriter {Q : Except Elapsed Unit → ConnWorld × Journal → Prop}
    (h : Registered i call correlationId reply s)
    (hok : ∀ t, Registered i call correlationId reply t → Q (.ok ()) t)
    (helapsed : ∀ t, Gone i call t → Q (.error .elapsed) t) :
    ReplySat clientId i (perform (.lockWriter correlationId)) Q s := by
  refine sat_settles call (fun _ _ _ => rfl) ?_ ?_
  · intro c w j r u hrely hinv hact
    have hw := h.rely hrely
    obtain ⟨rfl, _, rfl⟩ | ⟨_, rfl, rfl⟩ := act_lockWriter hact
    · have hsettles : Settles w { w with writer := some i } := .of_same rfl rfl rfl rfl
      exact ⟨hsettles, fun v hv _ => hok v ((hw.rely hsettles.rely).rely hv)⟩
    · obtain ⟨hsettles, hgone⟩ := hw.unregister hinv (settles_leave (i := i))
      exact ⟨hsettles, fun v hv _ => helapsed v (hgone.rely hv)⟩
  · intro w j u hrely hinv hdrop
    cases hdrop
    exact (h.rely hrely).unregister hinv settles_leave

theorem sat_write {Q : Except Elapsed (Except ClientError Nat) → ConnWorld × Journal → Prop}
    (h : Registered i call correlationId reply s)
    (hok : ∀ r t, Registered i call correlationId reply t → Q (.ok r) t)
    (helapsed : ∀ t, Gone i call t → Q (.error .elapsed) t) :
    ReplySat clientId i (perform (.write correlationId rest)) Q s := by
  refine sat_settles call (fun _ _ _ => rfl) ?_ ?_
  · intro c w j r u hrely hinv hact
    have hw := h.rely hrely
    obtain ⟨n, rfl, _, rfl⟩ | ⟨rfl, rfl⟩ | ⟨_, rfl, rfl⟩ := act_write hact
    · have hsettles : Settles w (w.put rest n) := .of_same rfl rfl rfl rfl
      exact ⟨hsettles, fun v hv _ => hok _ v ((hw.rely hsettles.rely).rely hv)⟩
    · exact ⟨.of_same rfl rfl rfl rfl, fun v hv _ => hok _ v (hw.rely hv)⟩
    · obtain ⟨hsettles, hgone⟩ := hw.unregister hinv (settles_abandonedWrite (i := i))
      exact ⟨hsettles, fun v hv _ => helapsed v (hgone.rely hv)⟩
  · intro w j u hrely hinv hdrop
    cases hdrop
    exact (h.rely hrely).unregister hinv settles_abandonedWrite

theorem sat_unlockWriter {Q : Unit → ConnWorld × Journal → Prop}
    (h : Registered i call correlationId reply s)
    (k : ∀ t, Registered i call correlationId reply t → Q () t) :
    ReplySat clientId i (perform .unlockWriter) Q s := by
  refine sat_settles call (fun _ _ _ => rfl) ?_ (fun _ _ _ _ _ hdrop => by cases hdrop)
  intro c w j r u hrely _ hact
  have hsettles : Settles w u := act_unlockWriter hact ▸ .of_same rfl rfl rfl rfl
  exact ⟨hsettles, fun v hv _ => k v (((h.rely hrely).rely hsettles.rely).rely hv)⟩

theorem sat_unregister {Q : Unit → ConnWorld × Journal → Prop}
    (h : Registered i call correlationId reply s) (k : ∀ t, Gone i call t → Q () t) :
    ReplySat clientId i (perform (.unregister correlationId)) Q s := by
  refine sat_settles call (fun _ _ _ => rfl) ?_ (fun _ _ _ _ _ hdrop => by cases hdrop)
  intro c w j r u hrely hinv hact
  have hu : u = w.unregister correlationId := by
    cases c with
    | go => cases hact; rfl
    | _ => cases hact
  obtain ⟨hsettles, hgone⟩ := (h.rely hrely).unregister hinv (.of_same rfl rfl rfl rfl)
  exact hu ▸ ⟨hsettles, fun v hv _ => k v (hgone.rely hv)⟩

/-- What the slot of a request comes to. -/
theorem act_reply_cases {w u : ConnWorld} {c : ConnChoice}
    {r : Except Elapsed (Except ClientError Response)}
    (h : act i (.reply correlationId reply) c w = some (r, u)) :
    (∃ response, r = .ok (.ok response) ∧ w.replies[reply]? = some (.sent response) ∧ u = w) ∨
      (∃ e, r = .ok (.error e) ∧ u = w) ∨
      (r = .error .elapsed ∧ u = w.unregister correlationId) := by
  cases c with
  | go =>
      delta act at h
      dsimp only at h
      split at h
      next response hreply => cases h; exact .inl ⟨response, rfl, hreply, rfl⟩
      next => cases h; exact .inr (.inl ⟨_, rfl, rfl⟩)
      next => cases h
  | elapse => cases h; exact .inr (.inr ⟨rfl, rfl⟩)
  | _ => cases h

/-- A reply comes, or the wait ends without one. -/
theorem sat_reply {Q : Except Elapsed (Except ClientError Response) → ConnWorld × Journal → Prop}
    (h : Registered i call correlationId reply s)
    (hsent : ∀ response t, Gone i call t → (∀ body, response = .ok body → Answered t i body) →
      Q (.ok (.ok response)) t)
    (hhung : ∀ e t, Registered i call correlationId reply t → Q (.ok (.error e)) t)
    (helapsed : ∀ t, Gone i call t → Q (.error .elapsed) t) :
    ReplySat clientId i (perform (.reply correlationId reply)) Q s := by
  refine sat_settles call (fun _ _ _ => rfl) ?_ ?_
  · intro c w j r u hrely hinv hact
    have hw := h.rely hrely
    obtain ⟨response, rfl, hreply, rfl⟩ | ⟨e, rfl, rfl⟩ | ⟨rfl, rfl⟩ := act_reply_cases hact
    · refine ⟨.of_same rfl rfl rfl rfl, fun v hv _ => hsent response v ?_ ?_⟩
      · refine (hw.gone hinv fun hwaiting => ?_).rely hv
        cases hreply.symm.trans hwaiting
      · rintro body rfl
        obtain ⟨i', howner, hanswered⟩ := hinv.sent reply body hreply
        cases hw.owner.symm.trans howner
        exact hanswered.rely hv
    · exact ⟨.of_same rfl rfl rfl rfl, fun v hv _ => hhung e v (hw.rely hv)⟩
    · obtain ⟨hsettles, hgone⟩ := hw.unregister hinv (.of_same rfl rfl rfl rfl)
      exact ⟨hsettles, fun v hv _ => helapsed v (hgone.rely hv)⟩
  · intro w j u hrely hinv hdrop
    cases hdrop
    exact (h.rely hrely).unregister hinv (.of_same rfl rfl rfl rfl)

theorem sat_failAll {Q : Unit → ConnWorld × Journal → Prop} (h : Gone i call s)
    (k : ∀ t, Gone i call t → Q () t) : ReplySat clientId i (perform .failAll) Q s := by
  refine sat_settles call (fun _ _ _ => rfl) ?_ (fun _ _ _ _ _ hdrop => by cases hdrop)
  intro c w j r u hrely _ hact
  have hsettles : Settles w u := by
    cases c with
    | go => cases hact; exact settles_failAll w
    | _ => cases hact
  exact ⟨hsettles, fun v hv _ => k v (((h.rely hrely).rely hsettles.rely).rely hv)⟩

theorem sat_answer {response : Response} (h : Gone i call s)
    (hanswered : ∀ body, response = .ok body → Answered s i body) :
    ReplySat clientId i (perform (.answer response)) (fun _ _ => True) s := by
  refine Discipline.Sat.perform ?_ (fun _ _ _ _ hdrop => ?_)
  · rintro ⟨w, j⟩ hrely hinv c r ⟨u, j'⟩ hexec
    obtain ⟨hexec, rfl⟩ := Machine.recorded_exec hexec
    obtain rfl : u = { w.leave i with answers := w.answers ++ [(i, response)] } := act_answer hexec
    refine ⟨keeps_answer hinv (h.rely hrely) fun body heq => ?_, fun _ _ _ => trivial⟩
    exact (hanswered body heq).rely hrely
  · cases (Machine.recorded_drop hdrop).1

end Rules

section Requests

variable {clientId : String} {s : ConnWorld × Journal} {i : Nat} {call : ConnCall} {α : Type}
  {correlationId : Int32} {version : Int16} {reply : Nat} {rest framed : Bytes}

theorem sat_writeAll {rounds : Nat}
    {Q : Except Interrupt (Except ClientError Unit) → ConnWorld × Journal → Prop}
    (h : Registered i call correlationId reply s)
    (hend : ∀ result t, Registered i call correlationId reply t → Q (.ok result) t)
    (helapsed : ∀ t, Gone i call t → Q (.error .elapsed) t) :
    ReplySat clientId i (writeAll correlationId rounds rest).run Q s := by
  induction rounds generalizing rest s with
  | zero => exact Discipline.Sat.done fun t hrely _ => hend _ t (h.rely hrely)
  | succ rounds ih =>
      unfold writeAll
      by_cases hrest : rest.isEmpty
      · rw [if_pos hrest]
        exact Discipline.Sat.done fun t hrely _ => hend _ t (h.rely hrely)
      · rw [if_neg hrest]
        refine Discipline.Sat.tryBind (sat_awaited (sat_write h ?_ ?_))
        · intro r t ht u hrely
          cases r with
          | error e => exact Discipline.Sat.done fun v hv _ => hend _ v ((ht.rely hrely).rely hv)
          | ok n =>
              dsimp only
              split
              · exact Discipline.Sat.done fun v hv _ => hend _ v ((ht.rely hrely).rely hv)
              · exact ih (ht.rely hrely)
        · exact fun t ht u hrely => helapsed u (ht.rely hrely)

theorem sat_send {Q : Except Interrupt (Except ClientError Unit) → ConnWorld × Journal → Prop}
    (h : Registered i call correlationId reply s)
    (hend : ∀ result t, Registered i call correlationId reply t → Q (.ok result) t)
    (helapsed : ∀ t, Gone i call t → Q (.error .elapsed) t) :
    ReplySat clientId i (send correlationId framed).run Q s := by
  refine Discipline.Sat.tryBind (sat_awaited (sat_lockWriter h ?_ ?_))
  · intro t ht u hrely
    refine Discipline.Sat.tryBind (sat_writeAll (ht.rely hrely) ?_ helapsed)
    intro result v hv
    refine Discipline.Sat.liftBind (sat_unlockWriter hv fun w hw => ?_)
    exact Discipline.Sat.done fun x hx _ => hend _ x (hw.rely hx)
  · exact fun t ht u hrely => helapsed u (ht.rely hrely)

/-- What `request_unbounded` leaves: nothing in the table, and a response that is its own. -/
def Settled (i : Nat) (call : ConnCall) (result : Except Interrupt Bytes)
    (t : ConnWorld × Journal) : Prop :=
  Gone i call t ∧ ∀ body, result = .ok body → Answered t i body

theorem sat_failWith {e : ClientError} (h : Gone i call s) :
    ReplySat clientId i (failWith e : ConnTry Bytes).run (Settled i call) s :=
  Discipline.Sat.done fun _ hrely _ => ⟨h.rely hrely, fun _ heq => by cases heq⟩

theorem sat_abandon {e : ClientError} (h : Registered i call correlationId reply s) :
    ReplySat clientId i (abandon correlationId e : ConnTry Bytes).run (Settled i call) s :=
  Discipline.Sat.liftBind (sat_unregister h fun _ ht => sat_failWith ht)

theorem sat_awaitResponse (h : Registered i call correlationId reply s) :
    ReplySat clientId i (awaitResponse correlationId reply).run (Settled i call) s := by
  refine Discipline.Sat.tryBind (sat_awaited (sat_reply h ?_ ?_ ?_))
  · intro response t ht hanswered u hrely
    cases response with
    | ok body =>
        refine Discipline.Sat.done fun v hv _ => ⟨(ht.rely hrely).rely hv, fun _ heq => ?_⟩
        cases heq
        exact ((hanswered body rfl).rely hrely).rely hv
    | error e => exact sat_failWith (ht.rely hrely)
  · exact fun e t ht u hrely => sat_abandon (ht.rely hrely)
  · exact fun t ht u hrely => ⟨ht.rely hrely, fun _ heq => by cases heq⟩

/-- A request that waits leaves the table clean, and its response is its own. -/
theorem sat_requestUnbounded (h : Unissued i call s) :
    ReplySat clientId i (requestUnbounded clientId call).run (Settled i call) s := by
  have hnone : ∀ {t : ConnWorld × Journal} {e : Interrupt}, Gone i call t →
      Settled i call (.error e) t := fun ht => ⟨ht, fun _ heq => by cases heq⟩
  refine Discipline.Sat.liftBind (sat_loadClosed h fun closed t ht => ?_)
  cases closed with
  | true => exact sat_failWith ht.gone
  | false =>
      refine Discipline.Sat.tryBind (sat_supported ?_ fun _ u hu => hnone (ht.rely hu).gone)
      intro headerVersion u _ hu
      refine Discipline.Sat.tryBind (sat_supported ?_
        fun _ v hv => hnone ((ht.rely hu).rely hv).gone)
      intro responseVersion v hversion hv
      refine Discipline.Sat.liftBind (sat_nextCorrelation ((ht.rely hu).rely hv)
        fun correlationId w hw => ?_)
      cases hframe : requestFrame clientId call headerVersion correlationId with
      | error e => exact sat_failWith hw.gone
      | ok framed =>
          refine Discipline.Sat.liftBind (sat_register hw hversion fun reply x hx => ?_)
          refine Discipline.Sat.tryBind (sat_send hx ?_ fun y hy => hnone hy)
          intro result y hy
          cases result with
          | error e => exact sat_abandon hy
          | ok _ => exact sat_awaitResponse hy

theorem sat_request (h : Unissued i call s) :
    ReplySat clientId i (request clientId call) (fun _ _ => True) s := by
  refine Discipline.Sat.bind (sat_waitOutThrottle h fun t ht => ?_)
  refine Discipline.Sat.bind ((sat_requestUnbounded ht).mono fun result u _ hu => ?_)
  obtain ⟨hgone, hanswered⟩ := hu
  cases result with
  | ok response =>
      refine sat_answer hgone fun body heq => ?_
      cases heq
      exact hanswered response rfl
  | error e =>
      cases e with
      | failed e => exact sat_answer hgone fun _ heq => by cases heq
      | elapsed =>
          refine Discipline.Sat.bind (sat_failAll hgone fun v hv => ?_)
          exact sat_answer hv fun _ heq => by cases heq

theorem starts (clientId : String) : (discipline clientId).Starts := by
  rintro i call ⟨w, j⟩ ⟨u, j'⟩ hinv hbegin
  obtain ⟨hbegin, rfl⟩ := Machine.recorded_begin hbegin
  obtain ⟨hlength, heq⟩ := Option.ite_none_right_eq_some.mp hbegin
  obtain rfl : { w with calls := w.calls ++ [call] } = u := Option.some.inj heq
  obtain ⟨hkeeps, hunissued⟩ := keeps_begin hinv hlength
  exact ⟨hkeeps, sat_request hunissued⟩

theorem inv_fresh : Inv (ConnWorld.fresh, Journal.empty) := by
  refine ⟨⟨?_, ?_, ?_, ?_⟩, rfl, ?_, ?_, ?_, ?_⟩
  · exact fun _ _ h => by cases h
  · exact fun _ _ _ h => by cases h
  · exact fun _ _ _ h => by cases h
  · exact fun _ _ h => by cases h
  · exact fun _ _ _ h => by cases h
  · exact fun _ _ h => by cases h
  · exact fun _ _ h => by cases h
  · exact fun i _ => ⟨fun _ h => (by cases h), fun h => (by cases h),
      fun _ h => (by cases h), fun h => (by cases h)⟩

/-- A connection just opened, with nothing in its journal. -/
def Begun (s : ConnWorld × Journal) : Prop := s.1 = .fresh ∧ s.2 = .empty

/-- Every run of a connection has its journal, and with its journal every run keeps
replies correlated. -/
theorem replies_correlated (clientId : String) :
    (∀ pool, (connMachine clientId).Reaches (· = .fresh) pool →
      ∃ j, (recordedConn clientId).Reaches Begun (Machine.Recording pool j)) ∧
    ∀ pool, (recordedConn clientId).Reaches Begun pool → Correlated pool.shared := by
  refine ⟨fun pool h => Machine.Reaches.recorded journal Journal.empty h, fun pool h => ?_⟩
  have hinit : ∀ s : ConnWorld × Journal, Begun s → Inv s := by
    rintro ⟨w, j⟩ ⟨rfl, rfl⟩
    exact inv_fresh
  exact (Discipline.Holds.of_reaches (starts clientId) hinit h).1.correlated

def sending (i : Nat) : List (Move ConnChoice ConnCall ConnWeather) :=
  [.start { apiKey := 18, apiVersion := 0, body := [] }, .act i (.now 0), .act i .go, .act i .go,
    .act i .go, .act i .go, .act i (.wrote 14), .act i .go]

/-- Of three requests the last is dropped while it waits. The responses of the others
arrive the second first. -/
def replyRun : List (Move ConnChoice ConnCall ConnWeather) :=
  sending 0 ++ sending 1 ++ sending 2 ++
    [.drop 2, .idle (.response [0, 0, 0, 2, 8]), .idle (.response [0, 0, 0, 1, 7]), .act 0 .go,
      .act 1 .go, .act 1 .go, .act 0 .go]

theorem replies_correlated_crossed :
    ∃ pool : Pool (ConnWorld × Journal) ConnOp ConnOp.Res,
      pool.shared.1.answers = [(1, .ok [8]), (0, .ok [7])] ∧
      pool.shared.2.issued = [(0, 1), (1, 2), (2, 3)] ∧
      pool.shared.2.delivered = [(0, 1), (1, 0)] ∧ pool.shared.2.dropped = [2] ∧
      Correlated pool.shared := by
  have hruns : ((recordedConn "").play (.fresh (.fresh, .empty)) replyRun).any (fun pool =>
      pool.shared.1.answers = [(1, .ok [8]), (0, .ok [7])] ∧
      pool.shared.2.issued = [(0, 1), (1, 2), (2, 3)] ∧
      pool.shared.2.delivered = [(0, 1), (1, 0)] ∧ pool.shared.2.dropped = [2]) = true := by
    decide
  obtain ⟨pool, hplay, hlogs⟩ := (Option.any_eq_true _ _).mp hruns
  obtain ⟨hanswers, hissued, hdelivered, hdropped⟩ := of_decide_eq_true hlogs
  refine ⟨pool, hanswers, hissued, hdelivered, hdropped, ?_⟩
  exact (replies_correlated "").2 pool (.of_play ⟨rfl, rfl⟩ hplay)

end Requests

end Odradek.Client.Conn.Correlation
