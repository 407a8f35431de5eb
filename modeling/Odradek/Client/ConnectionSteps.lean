import Odradek.Client.Connection
import Odradek.Library.Pool

/-!
What an operation of a request leaves of the connection's write half, and the rules
of the request's combinators under any discipline. Most operations leave the write
half as it was; the others are read off one by one.
-/

namespace Odradek.Client.Conn

open Library Odradek.Protocol ConnWorld

variable {clientId : String} {i j : Nat} {s t u w : ConnWorld}

section Quiet

/-- The write half is as it was, and no closed connection open again. -/
structure Quiet (s t : ConnWorld) : Prop where
  closed : s.closed = true → t.closed = true
  writer : t.writer = s.writer
  socket : t.socket = s.socket
  midFrame : t.midFrame = s.midFrame
  admitted : t.admitted = s.admitted
  calls : t.calls = s.calls

theorem Quiet.refl (s : ConnWorld) : Quiet s s := ⟨id, rfl, rfl, rfl, rfl, rfl⟩

theorem Quiet.trans (h : Quiet s t) (h' : Quiet t u) : Quiet s u :=
  ⟨fun hs => h'.closed (h.closed hs), h'.writer.trans h.writer, h'.socket.trans h.socket,
    h'.midFrame.trans h.midFrame, h'.admitted.trans h.admitted, h'.calls.trans h.calls⟩

theorem quiet_setReply (w : ConnWorld) (reply : Nat) (r : Reply) : Quiet w (w.setReply reply r) :=
  ⟨id, rfl, rfl, rfl, rfl, rfl⟩

theorem quiet_hangUp (w : ConnWorld) (pending : Option Pending) : Quiet w (w.hangUp pending) := by
  cases pending with
  | none => exact .refl w
  | some pending => exact quiet_setReply w pending.reply .hungUp

theorem quiet_register (w : ConnWorld) (correlationId : Int32) (version : Int16) :
    Quiet w (w.register correlationId version) := by
  have h := quiet_hangUp w (w.inFlight.lookup correlationId)
  exact ⟨h.closed, h.writer, h.socket, h.midFrame, h.admitted, h.calls⟩

theorem quiet_unregister (w : ConnWorld) (correlationId : Int32) :
    Quiet w (w.unregister correlationId) := by
  have h := quiet_hangUp w (w.inFlight.lookup correlationId)
  exact ⟨h.closed, h.writer, h.socket, h.midFrame, h.admitted, h.calls⟩

theorem quiet_failAll (w : ConnWorld) : Quiet w w.failAll := by
  have hfold : ∀ (entries : List (Sigma fun _ : Int32 => Pending)) (w : ConnWorld),
      Quiet w (entries.foldl
        (fun w entry => w.setReply entry.2.reply (.sent (.error .connectionClosed))) w) := by
    intro entries
    induction entries with
    | nil => exact Quiet.refl
    | cons entry rest ih =>
        intro w
        exact (quiet_setReply w entry.2.reply _).trans (ih _)
  have h := hfold w.inFlight.entries w
  exact ⟨fun _ => rfl, h.writer, h.socket, h.midFrame, h.admitted, h.calls⟩

theorem quiet_readResponse (w : ConnWorld) (payload : Bytes) :
    Quiet w (w.readResponse payload) := by
  have hfail : Quiet w { w.failAll with reading := false } := by
    have h := quiet_failAll w
    exact ⟨h.closed, h.writer, h.socket, h.midFrame, h.admitted, h.calls⟩
  unfold readResponse
  split
  next => exact hfail
  next correlationId _ =>
      split
      next => exact hfail
      next pending _ =>
          dsimp only
          split
          next => exact ⟨id, rfl, rfl, rfl, rfl, rfl⟩
          next => exact ⟨id, rfl, rfl, rfl, rfl, rfl⟩

theorem quiet_noteThrottle (w : ConnWorld) (now ms : Int) : Quiet w (w.noteThrottle now ms) := by
  unfold noteThrottle
  split
  next => exact .refl w
  next => exact ⟨id, rfl, rfl, rfl, rfl, rfl⟩

theorem quiet_idle {e : ConnWeather} (h : idle e w = some u) : Quiet w u := by
  cases e with
  | response payload =>
      obtain ⟨_, heq⟩ := Option.ite_none_right_eq_some.mp h
      cases heq
      exact quiet_readResponse w payload
  | readFails =>
      obtain ⟨_, heq⟩ := Option.ite_none_right_eq_some.mp h
      cases heq
      have h := quiet_failAll w
      exact ⟨h.closed, h.writer, h.socket, h.midFrame, h.admitted, h.calls⟩
  | throttle now ms =>
      cases h
      exact quiet_noteThrottle w now ms

end Quiet

section Acts

variable {c : ConnChoice} {correlationId : Int32} {version : Int16} {rest : Bytes} {reply : Nat}
  {pause : Int} {response : Response}

theorem act_throttleRemaining {r : Option Int} (h : act i .throttleRemaining c w = some (r, u)) :
    u = w := by
  cases c with
  | now ms => cases h; rfl
  | _ => cases h

theorem act_sleep {r : Unit} (h : act i (.sleep pause) c w = some (r, u)) : u = w := by
  cases c with
  | go => cases h; rfl
  | _ => cases h

theorem act_loadClosed {r : Bool} (h : act i .loadClosed c w = some (r, u)) :
    r = w.closed ∧
      u = if w.closed then w else { w with admitted := w.admitted ++ [i] } := by
  cases c with
  | go => cases h; exact ⟨rfl, rfl⟩
  | _ => cases h

theorem act_nextCorrelation {r : Int32} (h : act i .nextCorrelation c w = some (r, u)) :
    Quiet w u := by
  cases c with
  | go => cases h; exact ⟨id, rfl, rfl, rfl, rfl, rfl⟩
  | _ => cases h

theorem act_register {r : Nat} (h : act i (.register correlationId version) c w = some (r, u)) :
    Quiet w u := by
  cases c with
  | go => cases h; exact quiet_register w correlationId version
  | _ => cases h

theorem act_unregister {r : Unit} (h : act i (.unregister correlationId) c w = some (r, u)) :
    Quiet w u := by
  cases c with
  | go => cases h; exact quiet_unregister w correlationId
  | _ => cases h

theorem act_lockWriter {r : Except Elapsed Unit}
    (h : act i (.lockWriter correlationId) c w = some (r, u)) :
    (r = .ok () ∧ w.writer = none ∧ u = { w with writer := some i }) ∨
      (c = .elapse ∧ r = .error .elapsed ∧ u = (w.leave i).unregister correlationId) := by
  cases c with
  | go =>
      obtain ⟨hfree, heq⟩ := Option.ite_none_right_eq_some.mp h
      cases heq
      exact .inl ⟨rfl, hfree, rfl⟩
  | elapse => cases h; exact .inr ⟨rfl, rfl, rfl⟩
  | _ => cases h

theorem act_write {r : Except Elapsed (Except ClientError Nat)}
    (h : act i (.write correlationId rest) c w = some (r, u)) :
    (∃ n, r = .ok (.ok n) ∧ n ≤ rest.length ∧ u = w.put rest n) ∨
      (r = .ok (.error .io) ∧ u = w) ∨
      (c = .elapse ∧ r = .error .elapsed ∧
        u = (w.failAll.unlockWriter i).unregister correlationId) := by
  cases c with
  | wrote n =>
      obtain ⟨hle, heq⟩ := Option.ite_none_right_eq_some.mp h
      cases heq
      exact .inl ⟨n, rfl, hle, rfl⟩
  | fails => cases h; exact .inr (.inl ⟨rfl, rfl⟩)
  | elapse => cases h; exact .inr (.inr ⟨rfl, rfl, rfl⟩)
  | _ => cases h

theorem act_unlockWriter {r : Unit} (h : act i .unlockWriter c w = some (r, u)) :
    u = w.unlockWriter i := by
  cases c with
  | go => cases h; rfl
  | _ => cases h

theorem act_reply {r : Except Elapsed (Except ClientError Response)}
    (h : act i (.reply correlationId reply) c w = some (r, u)) : Quiet w u := by
  cases c with
  | go =>
      delta act at h
      dsimp only at h
      split at h
      next => cases h; exact .refl _
      next => cases h; exact .refl _
      next => cases h
  | elapse => cases h; exact quiet_unregister w correlationId
  | _ => cases h

theorem act_failAll {r : Unit} (h : act i .failAll c w = some (r, u)) : Quiet w u := by
  cases c with
  | go => cases h; exact quiet_failAll w
  | _ => cases h

theorem act_answer {r : Unit} (h : act i (.answer response) c w = some (r, u)) :
    u = { w.leave i with answers := w.answers ++ [(i, response)] } := by
  cases c with
  | go => cases h; rfl
  | _ => cases h

end Acts

section Combinators

variable {σ : Type} {M : Machine σ ConnOp ConnOp.Res ConnChoice ConnCall ConnWeather}
  {D : Discipline M} {α : Type} {s : σ}

theorem sat_awaited {p : ConnProgram (Except Elapsed α)} {Q : Except Interrupt α → σ → Prop}
    (h : D.Sat i p (fun r t => ∀ u, D.Rely i t u → match r with
      | .ok a => Q (.ok a) u
      | .error _ => Q (.error .elapsed) u) s) :
    D.Sat i (awaited p).run Q s := by
  refine Discipline.Sat.liftBind (h.mono ?_)
  intro r t _ hr
  cases r with
  | ok a => exact Discipline.Sat.done fun u hrely _ => hr u hrely
  | error e =>
      cases e
      exact Discipline.Sat.done fun u hrely _ => hr u hrely

theorem sat_supported {apiKey : Int16} {a : Option α} {Q : Except Interrupt α → σ → Prop}
    (h : ∀ a' t, a = some a' → D.Rely i s t → Q (.ok a') t)
    (herror : ∀ e t, D.Rely i s t → Q (.error e) t) :
    D.Sat i (supported apiKey a).run Q s := by
  cases a with
  | some a => exact Discipline.Sat.done fun t hrely _ => h a t rfl hrely
  | none => exact Discipline.Sat.done fun t hrely _ => herror _ t hrely

end Combinators

end Odradek.Client.Conn
