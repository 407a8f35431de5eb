import Odradek.Client.ConnectionStream

/-!
Every interleaving of requests keeps the byte stream of the connection intact,
as long as nobody leaves a frame unfinished where another request may still
write. Without that, a request that waits for the lock writes behind the frame.
-/

namespace Odradek.Client.Conn

open Library Odradek.Protocol ConnWorld

variable {clientId : String} {i : Nat} {s t u w : ConnWorld} {call : ConnCall} {α β : Type}
  {f rest : Bytes} {correlationId : Int32}

section Rules

theorem sat_perform {op : ConnOp} {Q : op.Res → ConnWorld → Prop}
    (hexec : ∀ t, Rely i s t → StreamInv clientId t → ∀ c r u, cleanExec i op c t = true →
      act i op c t = some (r, u) →
        Keeps clientId i t u ∧ ∀ v, Rely i u v → StreamInv clientId v → Q r v)
    (hdrop : ∀ t, Rely i s t → StreamInv clientId t → ∀ u, cleanDrop i op t = true →
      drop i op t = some u → Keeps clientId i t u) :
    ConnSat clientId i (perform op) Q s := by
  refine Discipline.Sat.perform ?_ ?_
  · intro t hrely hinv c r u hact
    obtain ⟨hclean, hact⟩ := Machine.under_exec hact
    exact hexec t hrely hinv c r u hclean hact
  · intro t hrely hinv u hdropped
    obtain ⟨hclean, hdropped⟩ := Machine.under_drop hdropped
    exact hdrop t hrely hinv u hclean hdropped

/-- An operation that leaves the write half alone. -/
theorem sat_quiet {op : ConnOp} {Q : op.Res → ConnWorld → Prop}
    (hact : ∀ c t r u, act i op c t = some (r, u) → Quiet t u)
    (hdrop : ∀ t u, drop i op t = some u → Quiet t u)
    (k : ∀ r t, Rely i s t → StreamInv clientId t → Q r t) :
    ConnSat clientId i (perform op) Q s := by
  refine sat_perform ?_ ?_
  · intro t hrely hinv c r u _ h
    have hquiet := hact c t r u h
    refine ⟨hquiet.keeps hinv, fun v hv hinv' => ?_⟩
    exact k r v ((hrely.trans (hquiet.rely i)).trans hv) hinv'
  · intro t _ hinv u _ h
    exact (hdrop t u h).keeps hinv

/-- A request under way that does not hold the lock. -/
structure Ready (i : Nat) (call : ConnCall) (w : ConnWorld) : Prop where
  called : w.calls[i]? = some call
  away : w.writer ≠ some i

theorem Ready.rely (h : Ready i call s) (hrely : Rely i s t) : Ready i call t := by
  exact ⟨hrely.called h.called, fun heq => h.away (hrely.writer.mp heq)⟩

theorem Ready.frame (h : Ready i call w) {headerVersion : Int16}
    (hf : requestFrame clientId call headerVersion correlationId = .ok f) :
    FrameOf clientId w f :=
  ⟨call, List.mem_of_getElem? h.called, headerVersion, correlationId, hf⟩

theorem sat_loadClosed {Q : Bool → ConnWorld → Prop} (h : Ready i call s)
    (k : ∀ closed t, Ready i call t → (closed = false → i ∈ t.admitted) →
      StreamInv clientId t → Q closed t) :
    ConnSat clientId i (perform .loadClosed) Q s := by
  refine sat_perform ?_ (fun t _ _ u _ hdrop => by cases hdrop)
  intro t hrely hinv c r u _ hact
  obtain ⟨rfl, rfl⟩ := act_loadClosed hact
  have ht := h.rely hrely
  by_cases hclosed : t.closed = true
  · rw [if_pos hclosed]
    refine ⟨(Quiet.refl t).keeps hinv, fun v hv hinv' => ?_⟩
    exact k _ v (ht.rely hv) (fun hopen => absurd (hopen.symm.trans hclosed) Bool.false_ne_true)
      hinv'
  · rw [if_neg hclosed]
    have hi := (List.getElem?_eq_some_iff.mp ht.called).1
    refine ⟨keeps_admission hinv (Bool.eq_false_iff.mpr hclosed) hi, fun v hv hinv' => ?_⟩
    have hu : Ready i call { t with admitted := t.admitted ++ [i] } := ⟨ht.called, ht.away⟩
    exact k _ v (hu.rely hv)
      (fun _ => hv.admitted.mpr (List.mem_append_right _ List.mem_cons_self)) hinv'

theorem sat_lockWriter {Q : Except Elapsed Unit → ConnWorld → Prop} (h : Ready i call s)
    (hadmitted : i ∈ s.admitted) (hf : FrameOf clientId s f)
    (hok : ∀ t, Writing clientId i call f f t → Q (.ok ()) t)
    (helapsed : ∀ t, Ready i call t → Q (.error .elapsed) t) :
    ConnSat clientId i (perform (.lockWriter correlationId)) Q s := by
  refine sat_perform ?_ ?_
  · intro t hrely hinv c r u _ hact
    have ht := h.rely hrely
    have hi : i ∈ t.admitted := hrely.admitted.mpr hadmitted
    obtain ⟨rfl, hfree, rfl⟩ | ⟨_, rfl, rfl⟩ := act_lockWriter hact
    · refine ⟨keeps_lockWriter hinv hfree hi, fun v hv _ => hok v ?_⟩
      exact (Writing.start hinv hfree ht.called hi (frameOf_mono hrely.calls hf)).rely hv
    · refine ⟨keeps_abandonedLock hinv ht.away, fun v hv _ => helapsed v ?_⟩
      have hquiet := quiet_unregister (t.leave i) correlationId
      have hleft : Ready i call (t.leave i) := ⟨ht.called, ht.away⟩
      exact (hleft.rely (hquiet.rely i)).rely hv
  · intro t hrely hinv u _ hdrop
    cases hdrop
    exact keeps_abandonedLock hinv (h.rely hrely).away

theorem clean_of_dirty {mid ok : Bool} (h : (!mid || ok) = true) (hmid : mid = true) :
    ok = true := by
  rw [hmid] at h
  exact h

theorem ready_of_unlock (h : w.calls[i]? = some call) : Ready i call (w.unlockWriter i) :=
  ⟨h, fun heq => by cases heq⟩

theorem sat_write {Q : Except Elapsed (Except ClientError Nat) → ConnWorld → Prop}
    (h : Writing clientId i call f rest s) (hrest : rest ≠ [])
    (hok : ∀ n t, n ≠ 0 → Writing clientId i call f (rest.drop n) t → Q (.ok (.ok n)) t)
    (hzero : ∀ t, Writing clientId i call f rest t → Q (.ok (.ok 0)) t)
    (herror : ∀ e t, Writing clientId i call f rest t → Q (.ok (.error e)) t)
    (helapsed : ∀ t, Ready i call t → Q (.error .elapsed) t) :
    ConnSat clientId i (perform (.write correlationId rest)) Q s := by
  refine sat_perform ?_ ?_
  · intro t hrely hinv c r u hclean hact
    have ht := h.rely hrely
    obtain ⟨n, rfl, _, rfl⟩ | ⟨rfl, rfl⟩ | ⟨rfl, rfl, rfl⟩ := act_write hact
    · by_cases hn : n = 0
      · subst hn
        have hput : Writing clientId i call f rest (t.put rest 0) := by
          obtain ⟨sent, cut, hsocket, hsent, hf, hmid⟩ := ht.socket
          exact ⟨ht.called, ht.writer, ht.frame, sent, cut,
            (List.append_nil _).trans hsocket, hsent, hf, hmid⟩
        exact ⟨keeps_put (n := 0) hinv ht hput, fun v hv _ => hzero v (hput.rely hv)⟩
      · have hput := ht.put hn hrest
        exact ⟨keeps_put hinv ht hput, fun v hv _ => hok n v hn (hput.rely hv)⟩
    · exact ⟨(Quiet.refl u).keeps hinv, fun v hv _ => herror _ v (ht.rely hv)⟩
    · refine ⟨keeps_abandonedWrite hinv ht.writer (clean_of_dirty hclean), fun v hv _ => ?_⟩
      have hquiet := quiet_unregister (t.failAll.unlockWriter i) correlationId
      have hcalled : t.failAll.calls[i]? = some call := by
        rw [(quiet_failAll t).calls]
        exact ht.called
      exact helapsed v (((ready_of_unlock hcalled).rely (hquiet.rely i)).rely hv)
  · intro t hrely hinv u hclean hdrop
    cases hdrop
    exact keeps_abandonedWrite hinv (h.rely hrely).writer (clean_of_dirty hclean)

theorem sat_unlockWriter {Q : Unit → ConnWorld → Prop} (h : Writing clientId i call f rest s)
    (k : ∀ t, Ready i call t → Q () t) : ConnSat clientId i (perform .unlockWriter) Q s := by
  refine sat_perform ?_ (fun t _ _ u _ hdrop => by cases hdrop)
  intro t hrely hinv c r u hclean hact
  have ht := h.rely hrely
  have hkeeps : Keeps clientId i t (t.unlockWriter i) := by
    refine keeps_unlockWriter hinv ht.writer fun hmid => ?_
    exact Bool.and_eq_true_iff.mp (clean_of_dirty hclean hmid)
  rw [act_unlockWriter hact]
  exact ⟨hkeeps, fun v hv _ => k v ((ready_of_unlock ht.called).rely hv)⟩

end Rules

section Requests

/-- The frame goes out write by write, or the deadline passes on the way. -/
theorem sat_writeAll {rounds : Nat}
    {Q : Except Interrupt (Except ClientError Unit) → ConnWorld → Prop}
    (h : Writing clientId i call f rest s) (hrounds : rest.length ≤ rounds)
    (hend : ∀ result rest t, Writing clientId i call f rest t → Q (.ok result) t)
    (helapsed : ∀ t, Ready i call t → Q (.error .elapsed) t) :
    ConnSat clientId i (writeAll correlationId rounds rest).run Q s := by
  induction rounds generalizing rest s with
  | zero => exact Discipline.Sat.done fun t hrely _ => hend _ _ t (h.rely hrely)
  | succ rounds ih =>
      unfold writeAll
      by_cases hrest : rest = []
      · rw [hrest]
        exact Discipline.Sat.done fun t hrely _ => hend _ _ t (h.rely hrely)
      · rw [if_neg (by simpa using hrest)]
        refine Discipline.Sat.tryBind (sat_awaited (sat_write h hrest ?_ ?_ ?_ ?_))
        · intro n t hn ht u hrely
          dsimp only
          rw [if_neg hn]
          refine ih (ht.rely hrely) ?_
          rw [List.length_drop]
          exact Nat.sub_le_of_le_add (Nat.le_trans hrounds
            (Nat.add_le_add_left (Nat.one_le_iff_ne_zero.mpr hn) rounds))
        · intro t ht u hrely
          exact Discipline.Sat.done fun v hv _ => hend _ _ v ((ht.rely hrely).rely hv)
        · intro e t ht u hrely
          exact Discipline.Sat.done fun v hv _ => hend _ _ v ((ht.rely hrely).rely hv)
        · exact fun t ht u hrely => helapsed u (ht.rely hrely)

theorem sat_send {Q : Except Interrupt (Except ClientError Unit) → ConnWorld → Prop}
    (h : Ready i call s) (hadmitted : i ∈ s.admitted) (hf : FrameOf clientId s f)
    (k : ∀ result t, Ready i call t → Q result t) :
    ConnSat clientId i (send correlationId f).run Q s := by
  refine Discipline.Sat.tryBind (sat_awaited (sat_lockWriter h hadmitted hf ?_ ?_))
  · intro t ht u hrely
    refine Discipline.Sat.tryBind (sat_writeAll (ht.rely hrely) (Nat.le_refl _) ?_ ?_)
    · intro result rest v hv
      refine Discipline.Sat.liftBind (sat_unlockWriter hv fun w hw => ?_)
      exact Discipline.Sat.done fun x hx _ => k _ x (hw.rely hx)
    · exact fun v hv => k _ v hv
  · exact fun t ht u hrely => k _ u (ht.rely hrely)

theorem sat_failWith {e : ClientError} {Q : Except Interrupt α → ConnWorld → Prop}
    (h : Ready i call s) (k : ∀ result t, Ready i call t → Q result t) :
    ConnSat clientId i (failWith e : ConnTry α).run Q s :=
  Discipline.Sat.done fun t hrely _ => k _ t (h.rely hrely)

theorem sat_abandon {e : ClientError} {Q : Except Interrupt α → ConnWorld → Prop}
    (h : Ready i call s) (k : ∀ result t, Ready i call t → Q result t) :
    ConnSat clientId i (abandon correlationId e : ConnTry α).run Q s := by
  refine Discipline.Sat.liftBind (sat_quiet (fun _ _ _ _ => act_unregister)
    (fun t u hdrop => by cases hdrop) fun _ t hrely _ => ?_)
  exact sat_failWith (h.rely hrely) k

theorem sat_awaitResponse {reply : Nat} {Q : Except Interrupt Bytes → ConnWorld → Prop}
    (h : Ready i call s) (k : ∀ result t, Ready i call t → Q result t) :
    ConnSat clientId i (awaitResponse correlationId reply).run Q s := by
  have hdrop : ∀ t u, drop i (.reply correlationId reply) t = some u → Quiet t u := by
    intro t u hdrop
    cases hdrop
    exact quiet_unregister t correlationId
  refine Discipline.Sat.tryBind (sat_awaited (sat_quiet (fun _ _ _ _ => act_reply) hdrop ?_))
  intro r t hrely _ u hu
  have ht := (h.rely hrely).rely hu
  cases r with
  | error e => exact k _ u ht
  | ok r =>
      cases r with
      | error e => exact sat_abandon ht k
      | ok response =>
          cases response with
          | ok body => exact Discipline.Sat.done fun v hv _ => k _ v (ht.rely hv)
          | error e => exact sat_failWith ht k

/-- A request leaves the connection ready for the next, however it ends. -/
theorem sat_requestUnbounded {Q : Except Interrupt Bytes → ConnWorld → Prop} (h : Ready i call s)
    (k : ∀ result t, Ready i call t → Q result t) :
    ConnSat clientId i (requestUnbounded clientId call).run Q s := by
  refine Discipline.Sat.liftBind (sat_loadClosed h fun closed t ht hadmitted _ => ?_)
  cases closed with
  | true => exact sat_failWith ht k
  | false =>
      have hin := hadmitted rfl
      refine Discipline.Sat.tryBind (sat_supported ?_ fun _ u hu => k _ u (ht.rely hu))
      intro headerVersion u _ hu
      refine Discipline.Sat.tryBind (sat_supported ?_ fun _ v hv => k _ v ((ht.rely hu).rely hv))
      intro responseVersion v _ hv
      refine Discipline.Sat.liftBind (sat_quiet (fun _ _ _ _ => act_nextCorrelation)
        (fun t u hdrop => by cases hdrop) fun correlationId w hw _ => ?_)
      have hready := ((ht.rely hu).rely hv).rely hw
      have hin' := hw.admitted.mpr (hv.admitted.mpr (hu.admitted.mpr hin))
      cases hframe : requestFrame clientId call headerVersion correlationId with
      | error e => exact sat_failWith hready k
      | ok framed =>
          refine Discipline.Sat.liftBind (sat_quiet (fun _ _ _ _ => act_register)
            (fun t u hdrop => by cases hdrop) fun reply x hx _ => ?_)
          have hready' := hready.rely hx
          refine Discipline.Sat.tryBind (sat_send hready' (hx.admitted.mpr hin')
            (hready'.frame hframe) fun result y hy => ?_)
          cases result with
          | error e => exact k _ y hy
          | ok result =>
              cases result with
              | error e => exact sat_abandon hy k
              | ok _ => exact sat_awaitResponse hy k

theorem sat_answer {response : Response} (h : Ready i call s) :
    ConnSat clientId i (perform (.answer response)) (fun _ _ => True) s := by
  refine sat_perform ?_ (fun t _ _ u _ hdrop => by cases hdrop)
  intro t hrely hinv c r u _ hact
  have hleave := keeps_leave hinv (h.rely hrely).away
  have hquiet : Quiet (t.leave i) { t.leave i with answers := t.answers ++ [(i, response)] } :=
    ⟨id, rfl, rfl, rfl, rfl, rfl⟩
  rw [act_answer hact]
  exact ⟨keeps_trans hleave (hquiet.keeps hleave.1), fun _ _ _ => trivial⟩

theorem sat_request (h : Ready i call s) :
    ConnSat clientId i (request clientId call) (fun _ _ => True) s := by
  have hsleep : ∀ pause t u, drop i (.sleep pause) t = some u → Quiet t u := by
    intro pause t u hdrop
    cases hdrop
    exact .refl t
  have hthrottle : ConnSat clientId i waitOutThrottle (fun _ t => Ready i call t) s := by
    refine Discipline.Sat.bind (sat_quiet
      (fun _ _ _ _ hact => act_throttleRemaining hact ▸ .refl _)
      (fun t u hdrop => by cases hdrop) fun pause t hrely _ => ?_)
    have ht := h.rely hrely
    cases pause with
    | none => exact Discipline.Sat.done fun u hu _ => ht.rely hu
    | some pause =>
        exact sat_quiet (fun _ _ _ _ hact => act_sleep hact ▸ .refl _) (hsleep pause)
          fun _ u hu _ => ht.rely hu
  refine Discipline.Sat.bind (hthrottle.mono fun _ t _ ht => ?_)
  refine Discipline.Sat.bind (sat_requestUnbounded ht fun result u hu => ?_)
  cases result with
  | ok response => exact sat_answer hu
  | error e =>
      cases e with
      | failed e => exact sat_answer hu
      | elapsed =>
          refine Discipline.Sat.bind (sat_quiet (fun _ _ _ _ => act_failAll)
            (fun t u hdrop => by cases hdrop) fun _ v hv _ => ?_)
          exact sat_answer (hu.rely hv)

theorem conn_starts : (streamDiscipline clientId).Starts := by
  intro i call s t hinv hbegin
  obtain ⟨hlength, heq⟩ := Option.ite_none_right_eq_some.mp hbegin
  cases heq
  have hstarts : s.calls <+: s.calls ++ [call] := List.prefix_append _ _
  have hmem : ∀ j ∈ s.admitted, j < (s.calls ++ [call]).length := by
    intro j hj
    rw [List.length_append]
    exact Nat.lt_add_right _ (hinv.known j hj)
  refine ⟨⟨⟨?_, ?_, hinv.holder, hmem, hinv.torn⟩, fun j _ => ?_⟩, sat_request ⟨?_, ?_⟩⟩
  · exact fun hmid => wholeFrames_mono hstarts (hinv.whole hmid)
  · intro hmid
    obtain ⟨sent, cut, f, hsocket, hsent, hf, hcut⟩ := hinv.cut hmid
    exact ⟨sent, cut, f, hsocket, wholeFrames_mono hstarts hsent, frameOf_mono hstarts hf, hcut⟩
  · exact ⟨hstarts, Iff.rfl, Iff.rfl, fun _ => ⟨rfl, rfl⟩, fun h => ⟨h, rfl⟩⟩
  · rw [← hlength]
    exact List.getElem?_concat_length
  · intro heq
    have hlt := hinv.known i (hinv.holder i heq)
    exact Nat.ne_of_lt hlt hlength.symm

theorem streamInv_fresh : StreamInv clientId .fresh :=
  { whole := fun _ => ⟨[], rfl, fun _ h => by cases h⟩
    cut := fun h => by cases h
    holder := fun _ h => by cases h
    known := fun _ h => by cases h
    torn := fun h => by cases h.1 }

end Requests

theorem StreamInv.intact (h : StreamInv clientId w) : Intact clientId w := by
  cases hmid : w.midFrame with
  | false => exact ⟨w.socket, [], (List.append_nil _).symm, h.whole hmid, .inl rfl⟩
  | true =>
      obtain ⟨sent, cut, f, hsocket, hsent, hf, hcut⟩ := h.cut hmid
      exact ⟨sent, cut, hsocket, hsent, .inr ⟨f, hf, hcut⟩⟩

theorem StreamInv.torn_of_truncated (h : StreamInv clientId w) (ht : Truncated clientId w) :
    w.Torn := by
  refine ⟨?_, ht.1⟩
  cases hmid : w.midFrame with
  | false => exact absurd (h.whole hmid) ht.2
  | true => rfl

theorem clean_streamIntegrity (clientId : String) :
    StreamIntegrity clientId ((connMachine clientId).under cleanExec cleanDrop) := by
  intro pool hreach
  have hinit : ∀ s, s = .fresh → (streamDiscipline clientId).Inv s := by
    rintro s rfl
    exact streamInv_fresh
  have hholds := Discipline.Holds.of_reaches conn_starts hinit hreach
  refine ⟨hholds.1.intact, fun htruncated pool' hlater => ?_⟩
  obtain ⟨_, hrely⟩ := hholds.later conn_starts hlater
  have htorn := hholds.1.torn_of_truncated htruncated
  exact ((hrely pool'.tasks.length (Nat.le_refl _)).torn htorn).2

section Unclean

/-- Less than a length prefix is no whole frame. -/
theorem not_wholeFrames_singleton {byte : UInt8} : ¬ WholeFrames clientId w [byte] := by
  rintro ⟨frames, heq, hframes⟩
  cases frames with
  | nil => cases heq
  | cons f rest =>
      obtain ⟨call, _, headerVersion, correlationId, hf⟩ := hframes f List.mem_cons_self
      have hlength := congrArg List.length heq
      rw [List.flatten_cons, List.length_append, List.length_singleton] at hlength
      have hle := Nat.le_trans (length_frame hf) (Nat.le_add_right f.length rest.flatten.length)
      rw [← hlength] at hle
      exact absurd hle (by decide)

/-- A request of no body: `ApiVersions` at version 0. -/
def bareCall : ConnCall := { apiKey := 18, apiVersion := 0, body := [] }

/-- Two requests find the connection open; the first is dropped a byte into its frame. -/
def cutRun : List (Move ConnChoice ConnCall ConnWeather) :=
  [.start bareCall, .start bareCall,
    .act 0 (.now 0), .act 0 .go, .act 0 .go, .act 0 .go, .act 0 .go, .act 0 (.wrote 1),
    .act 1 (.now 0), .act 1 .go, .act 1 .go, .act 1 .go, .drop 0]

/-- The second, which waited for the lock, writes behind it. -/
def behindRun : List (Move ConnChoice ConnCall ConnWeather) := [.act 1 .go, .act 1 (.wrote 1)]

/-- A request dropped inside its frame leaves the next one behind a torn frame. -/
theorem not_streamIntegrity : ¬ StreamIntegrity "" (connMachine "") := by
  intro h
  have hruns : (((connMachine "").play (.fresh .fresh) cutRun).bind fun pool =>
      ((connMachine "").play pool behindRun).map fun pool' =>
        (pool.shared.writer, pool.shared.socket, pool'.shared.socket)) =
          some (none, [0], [0, 0]) := by decide
  obtain ⟨pool, hcut, hrest⟩ := Option.bind_eq_some_iff.mp hruns
  obtain ⟨pool', hbehind, heq⟩ := Option.map_eq_some_iff.mp hrest
  obtain ⟨hwriter, hsockets⟩ := Prod.mk.inj heq
  obtain ⟨hsocket, hsocket'⟩ := Prod.mk.inj hsockets
  have htruncated : Truncated "" pool.shared := by
    refine ⟨hwriter, ?_⟩
    rw [hsocket]
    exact not_wholeFrames_singleton
  have hsame := (h pool (.of_play rfl hcut)).2 htruncated pool' (.of_play .refl hbehind)
  rw [hsocket, hsocket'] at hsame
  cases hsame

/-- A write that fails a byte into its frame leaves the connection open. -/
example : ((connMachine "").play (.fresh .fresh)
      [.start bareCall, .act 0 (.now 0), .act 0 .go, .act 0 .go, .act 0 .go, .act 0 .go,
        .act 0 (.wrote 1), .act 0 .fails, .act 0 .go]).map
      (fun pool => (pool.shared.socket, pool.shared.writer, pool.shared.closed)) =
    some ([0], none, false) := by decide

end Unclean

end Odradek.Client.Conn
