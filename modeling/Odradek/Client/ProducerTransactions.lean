import Odradek.Client.ProducerCalls

/-!
What the calls that open and close transactions can come to, and the outcomes of
all calls side by side. These calls run to their end: no case of them is dropped.
-/

namespace Odradek.Client

open Library Library.Service Odradek.Protocol ProducerWorld Producer

variable {codecs : Codecs} {config : ProducerConfig}
  {okExec okDrop : ProducerOp → ProducerChoice → ProducerWorld → Bool}
  {s t u v : ProducerWorld} {r : Except ClientError Unit}

section Init

def initializedAs (w : ProducerWorld) (answers : List (Answer ProducerIdentity))
    (identity : ProducerIdentity) : ProducerWorld :=
  ((told w (.identified (.ok identity)) (w.announced && !applied answers)).note
    (.initialized identity)).setProducer
      { w.producer with
        identity := some identity
        sequences := ∅
        txnPartitions := []
        txnState := .ready }

variable (config) in
inductive Initializes (s : ProducerWorld) : Except ClientError Unit → ProducerWorld → Prop
  | refused (e : ClientError) : Initializes s (.error e) s
  | unissued (answers : List (Answer ProducerIdentity)) (e : ClientError) :
      s.producer.txnState = .uninitialized → verdict config answers = some (.error e) →
      Initializes s (.error e) (told s (.identified (.error e)) (s.announced && !applied answers))
  | issued (answers : List (Answer ProducerIdentity)) (identity : ProducerIdentity) :
      s.producer.txnState = .uninitialized → config.transactionalId.isSome →
      checkIdempotentAcks config.acks = .ok () → verdict config answers = some (.ok identity) →
      Initializes s (.ok ()) (initializedAs s answers identity)

/-- What `init_transactions` can come to. -/
theorem ends_initTransactions
    (h : (ProducerUnder codecs config okExec okDrop).Ends (initTransactions config).run s
      (some r) t) : Initializes config s r t := by
  have hrest := ends_liftBindOf ends_self h
  cases hid : config.transactionalId with
  | none =>
      simp only [hid] at hrest
      obtain ⟨heq, rfl⟩ := ends_done hrest
      cases heq
      exact .refused _
  | some _ =>
      simp only [hid] at hrest
      by_cases hstate : s.producer.txnState = .uninitialized
      case neg =>
        rw [if_neg hstate] at hrest
        obtain ⟨heq, rfl⟩ := ends_done hrest
        cases heq
        exact .refused _
      rw [if_pos hstate] at hrest
      rcases ends_checkedBind hrest with ⟨_, hacks, hrest⟩ | ⟨e, _, heq, rfl⟩
      case inr =>
        cases heq
        exact .refused e
      rcases ends_tryBind hrest with ⟨identity, u, hask, hrest⟩ | ⟨e, hask, heq⟩ | ⟨_, hnone⟩
      case inr.inr => cases hnone
      · rcases ends_initProducerId hask with ⟨answers, _, hverdict, _, heq, rfl⟩ | ⟨hnone, _⟩
        case inr => cases hnone
        cases heq
        have hrest := ends_liftBindOf ends_note hrest
        rcases ends_lift hrest with ⟨_, hmodify, heq⟩ | ⟨_, hnone⟩
        case inr => cases hnone
        obtain ⟨_, rfl⟩ := ends_modify hmodify
        cases heq
        exact .issued answers identity hstate (by rw [hid]; rfl) hacks hverdict
      · rcases ends_initProducerId hask with ⟨answers, _, hverdict, _, heq', rfl⟩ | ⟨hnone, _⟩
        case inr => cases hnone
        cases heq'
        cases heq
        exact .unissued answers e hstate hverdict

end Init

section Begin

def begun (w : ProducerWorld) : ProducerWorld :=
  (w.note .began).setProducer { w.producer with txnState := .opened }

inductive Begins (s : ProducerWorld) : Except ClientError Unit → ProducerWorld → Prop
  | refused (e : ClientError) : afterBegin s.producer.txnState = .error e →
      Begins s (.error e) s
  | begun : s.producer.txnState = .ready → Begins s (.ok ()) (begun s)

theorem ready_of_afterBegin {state next : TransactionState} (h : afterBegin state = .ok next) :
    state = .ready ∧ next = .opened := by
  cases state with
  | ready => cases h; exact ⟨rfl, rfl⟩
  | _ => cases h

theorem ends_beginTransaction
    (h : (ProducerUnder codecs config okExec okDrop).Ends beginTransaction.run s (some r) t) :
    Begins s r t := by
  have hrest := ends_liftBindOf ends_self h
  rcases ends_checkedBind hrest with ⟨next, hnext, hrest⟩ | ⟨e, hnext, heq, rfl⟩
  · obtain ⟨hready, rfl⟩ := ready_of_afterBegin hnext
    have hrest := ends_liftBindOf ends_note hrest
    rcases ends_lift hrest with ⟨_, hwrite, heq⟩ | ⟨_, hnone⟩
    case inr => cases hnone
    obtain ⟨_, rfl⟩ := ends_write hwrite
    cases heq
    exact .begun hready
  · cases heq
    exact .refused e hnext

end Begin

section End

/-- The coordinator has answered the end of a transaction. -/
def endedAs (w : ProducerWorld) (committed : Bool) (answers : List (Answer Unit))
    (answer : Except ClientError Unit) : ProducerWorld :=
  (told w (.ended committed answer) (w.announced && !applied answers)).setProducer
    (match answer with
    | .ok _ => { w.producer with txnPartitions := [], txnState := .ready }
    | .error e => w.producer.poison e)

variable (config okExec) in
inductive EndsTransaction (committed : Bool) (s : ProducerWorld) :
    Except ClientError Unit → ProducerWorld → Prop
  | refused (e : ClientError) : s.producer.txn config = .error e →
      EndsTransaction committed s (.error e) s
  | answered (txn : Txn) (answers : List (Answer Unit)) (answer : Except ClientError Unit) :
      s.producer.txn config = .ok txn → verdict config answers = some answer →
      okExec (.endTxn txn committed) (.replies answers) s = true →
      EndsTransaction committed s answer (endedAs s committed answers answer)

/-- What the end of a transaction can come to. -/
theorem ends_endTransaction {committed : Bool}
    (h : (ProducerUnder codecs config okExec okDrop).Ends (endTransaction config committed).run s
      (some r) t) : EndsTransaction config okExec committed s r t := by
  have hrest := ends_liftBindOf ends_self h
  rcases ends_checkedBind hrest with ⟨txn, htxn, hrest⟩ | ⟨e, htxn, heq, rfl⟩
  case inr =>
    cases heq
    exact .refused e htxn
  rcases ends_tryBind hrest with ⟨_, u, hcall, hrest⟩ | ⟨e, hcall, heq⟩ | ⟨_, hnone⟩
  case inr.inr => cases hnone
  · rcases ends_orPoison hcall with ⟨_, hask, _⟩ | ⟨_, _, _, heq, _⟩ | ⟨_, hnone⟩
    case inr.inl => cases heq
    case inr.inr => cases hnone
    obtain ⟨answers, hverdict, hok, rfl⟩ := ends_endTxn hask
    rcases ends_lift hrest with ⟨_, hmodify, heq⟩ | ⟨_, hnone⟩
    case inr => cases hnone
    obtain ⟨_, rfl⟩ := ends_modify hmodify
    cases heq
    exact .answered txn answers (.ok ()) htxn hverdict hok
  · rcases ends_orPoison hcall with ⟨_, _, heq'⟩ | ⟨_, u, hask, heq', rfl⟩ | ⟨_, hnone⟩
    case inl => cases heq'
    case inr.inr => cases hnone
    cases heq'
    cases heq
    obtain ⟨answers, hverdict, hok, rfl⟩ := ends_endTxn hask
    exact .answered txn answers (.error e) htxn hverdict hok

theorem opened_of_requireOpen {state : TransactionState} {verb : String}
    (h : requireOpen state verb = .ok ()) : state = .opened := by
  cases state with
  | opened => rfl
  | _ => cases h

variable (codecs config okExec okDrop) in
inductive Commits (s : ProducerWorld) : Except ClientError Unit → ProducerWorld → Prop
  | refused (e : ClientError) : requireOpen s.producer.txnState "commit" = .error e →
      Commits s (.error e) s
  | unflushed (e : ClientError) (u : ProducerWorld) : s.producer.txnState = .opened →
      Flushes codecs config okExec okDrop s (some (.error e)) u →
      Commits s (.error e) (poisoned u e)
  | failed (deliveries : List Delivery) (e : ClientError) (u t : ProducerWorld) :
      s.producer.txnState = .opened →
      Flushes codecs config okExec okDrop s (some (.ok deliveries)) u →
      EndsTransaction config okExec true u (.error e) t → Commits s (.error e) t
  | committed (deliveries : List Delivery) (u v : ProducerWorld) : s.producer.txnState = .opened →
      Flushes codecs config okExec okDrop s (some (.ok deliveries)) u →
      EndsTransaction config okExec true u (.ok ()) v → Commits s (.ok ()) (v.note .committed)

/-- What a commit can come to. -/
theorem ends_commitTransaction
    (h : (ProducerUnder codecs config okExec okDrop).Ends (commitTransaction config).run s
      (some r) t) : Commits codecs config okExec okDrop s r t := by
  have hrest := ends_liftBindOf ends_self h
  rcases ends_checkedBind hrest with ⟨_, hopen, hrest⟩ | ⟨e, hopen, heq, rfl⟩
  case inr =>
    cases heq
    exact .refused e hopen
  have hopened := opened_of_requireOpen hopen
  rcases ends_tryBind hrest with ⟨deliveries, u, hcall, hrest⟩ | ⟨e, hcall, heq⟩ | ⟨_, hnone⟩
  case inr.inr => cases hnone
  · rcases ends_orPoison hcall with ⟨_, hflush, heq⟩ | ⟨_, _, _, heq, _⟩ | ⟨_, hnone⟩
    case inr.inl => cases heq
    case inr.inr => cases hnone
    cases heq
    rcases ends_tryBind hrest with ⟨_, v, hend, hrest⟩ | ⟨e, hend, heq⟩ | ⟨_, hnone⟩
    case inr.inr => cases hnone
    · rcases ends_lift hrest with ⟨_, hnote, heq⟩ | ⟨_, hnone⟩
      case inr => cases hnone
      obtain ⟨_, rfl⟩ := ends_note hnote
      cases heq
      exact .committed deliveries u v hopened (ends_flush hflush) (ends_endTransaction hend)
    · cases heq
      exact .failed deliveries e u t hopened (ends_flush hflush) (ends_endTransaction hend)
  · rcases ends_orPoison hcall with ⟨_, _, heq'⟩ | ⟨_, u, hflush, heq', rfl⟩ | ⟨_, hnone⟩
    case inl => cases heq'
    case inr.inr => cases hnone
    cases heq'
    cases heq
    exact .unflushed e u hopened (ends_flush hflush)

def discarded (w : ProducerWorld) : ProducerWorld :=
  w.setProducer { w.producer with pending := ∅ }

variable (config okExec) in
inductive Aborts (s : ProducerWorld) : Except ClientError Unit → ProducerWorld → Prop
  | refused (e : ClientError) : s.producer.txnState ≠ .opened → s.producer.txnState ≠ .abortable →
      Aborts s (.error e) s
  | ended (r : Except ClientError Unit) (t : ProducerWorld) :
      s.producer.txnState = .opened ∨ s.producer.txnState = .abortable →
      EndsTransaction config okExec false (discarded s) r t → Aborts s r t

theorem ends_abortTransaction
    (h : (ProducerUnder codecs config okExec okDrop).Ends (abortTransaction config).run s
      (some r) t) : Aborts config okExec s r t := by
  have hrest := ends_liftBindOf ends_self h
  by_cases hstate : s.producer.txnState = .opened ∨ s.producer.txnState = .abortable
  · rw [if_pos hstate] at hrest
    have hend := ends_liftBindOf ends_write hrest
    exact .ended r t hstate (ends_endTransaction hend)
  · rw [if_neg hstate] at hrest
    obtain ⟨heq, rfl⟩ := ends_done hrest
    cases heq
    exact .refused _ (fun hopened => hstate (.inl hopened)) (fun habort => hstate (.inr habort))

end End

section Offsets

/-- The coordinator has answered for the group of some offsets. -/
def offsetsTold (w : ProducerWorld) (answers : List (Answer Unit))
    (answer : Except ClientError Unit) : ProducerWorld :=
  told w (.offsets answer) (w.announced || applied answers)

variable (config okExec) in
inductive SendsOffsets (s : ProducerWorld) : Except ClientError Unit → ProducerWorld → Prop
  | refused (e : ClientError) :
      requireOpen s.producer.txnState "send offsets to" = .error e ∨
        s.producer.txn config = .error e → SendsOffsets s (.error e) s
  | unannounced (txn : Txn) (groupId : String) (answers : List (Answer Unit)) (e : ClientError) :
      s.producer.txnState = .opened → s.producer.txn config = .ok txn →
      verdict config answers = some (.error e) →
      okExec (.addOffsets txn groupId) (.replies answers) s = true →
      SendsOffsets s (.error e) (poisoned (offsetsTold s answers (.error e)) e)
  | nothing (txn : Txn) (groupId : String) (answers : List (Answer Unit)) :
      s.producer.txnState = .opened → s.producer.txn config = .ok txn →
      verdict config answers = some (.ok ()) →
      okExec (.addOffsets txn groupId) (.replies answers) s = true →
      SendsOffsets s (.ok ()) (offsetsTold s answers (.ok ()))
  | answered (txn : Txn) (member : GroupMembership) (offsets : List TransactionalOffset)
      (answers answers' : List (Answer Unit)) (answer : Except ClientError Unit) :
      s.producer.txnState = .opened → s.producer.txn config = .ok txn →
      verdict config answers = some (.ok ()) →
      okExec (.addOffsets txn member.groupId) (.replies answers) s = true →
      verdict config answers' = some answer →
      okExec (.offsetCommit txn member offsets) (.replies answers')
        (offsetsTold s answers (.ok ())) = true →
      SendsOffsets s answer
        (match answer with
        | .ok _ => (offsetsTold s answers (.ok ())).note (.offsets answer)
        | .error e => poisoned ((offsetsTold s answers (.ok ())).note (.offsets answer)) e)

theorem ends_offsets {txn : Txn} {member : GroupMembership} {offsets : List TransactionalOffset}
    (h : (ProducerUnder codecs config okExec okDrop).Ends
      (do
        requested (perform (.addOffsets txn member.groupId))
        Producer.offsetCommit txn member offsets : ProducerTry Unit).run s (some r) t) :
    ∃ answers, ∃ answer, verdict config answers = some answer ∧
      okExec (.addOffsets txn member.groupId) (.replies answers) s = true ∧
      ((∃ e, answer = .error e ∧ r = .error e ∧ t = offsetsTold s answers (.error e)) ∨
        (answer = .ok () ∧ r = .ok () ∧ t = offsetsTold s answers (.ok ())) ∨
        (answer = .ok () ∧ ∃ answers', verdict config answers' = some r ∧
          okExec (.offsetCommit txn member offsets) (.replies answers')
            (offsetsTold s answers (.ok ())) = true ∧
          t = (offsetsTold s answers (.ok ())).note (.offsets r))) := by
  rcases ends_tryBind h with ⟨_, u, hask, hrest⟩ | ⟨e, hask, heq⟩ | ⟨_, hnone⟩
  case inr.inr => cases hnone
  · obtain ⟨answers, hverdict, hok, rfl⟩ := ends_addOffsets hask
    refine ⟨answers, .ok (), hverdict, hok, .inr ?_⟩
    unfold Producer.offsetCommit at hrest
    split at hrest
    · obtain ⟨heq, rfl⟩ := ends_done hrest
      cases heq
      exact .inl ⟨rfl, rfl, rfl⟩
    · obtain ⟨answers', hverdict', hok', rfl⟩ := ends_offsetCommit hrest
      exact .inr ⟨rfl, answers', hverdict', hok', rfl⟩
  · cases heq
    obtain ⟨answers, hverdict, hok, rfl⟩ := ends_addOffsets hask
    exact ⟨answers, .error e, hverdict, hok, .inl ⟨e, rfl, rfl, rfl⟩⟩

theorem ends_sendOffsetsToTransaction {member : GroupMembership}
    {offsets : List TransactionalOffset}
    (h : (ProducerUnder codecs config okExec okDrop).Ends
      (sendOffsetsToTransaction config member offsets).run s (some r) t) :
    SendsOffsets config okExec s r t := by
  have hrest := ends_liftBindOf ends_self h
  rcases ends_checkedBind hrest with ⟨_, hopen, hrest⟩ | ⟨e, hopen, heq, rfl⟩
  case inr =>
    cases heq
    exact .refused e (.inl hopen)
  have hopened := opened_of_requireOpen hopen
  rcases ends_checkedBind hrest with ⟨txn, htxn, hrest⟩ | ⟨e, htxn, heq, rfl⟩
  case inr =>
    cases heq
    exact .refused e (.inr htxn)
  rcases ends_orPoison hrest with ⟨_, hcall, heq⟩ | ⟨e, u, hcall, heq, rfl⟩ | ⟨_, hnone⟩
  case inr.inr => cases hnone
  · cases heq
    obtain ⟨answers, _, hverdict, hok, ⟨_, _, heq, _⟩ | ⟨rfl, _, rfl⟩ |
      ⟨rfl, answers', hverdict', hok', rfl⟩⟩ := ends_offsets hcall
    · cases heq
    · exact .nothing txn member.groupId answers hopened htxn hverdict hok
    · exact .answered txn member offsets answers answers' (.ok ()) hopened htxn hverdict hok
        hverdict' hok'
  · cases heq
    obtain ⟨answers, _, hverdict, hok, ⟨_, rfl, heq, rfl⟩ | ⟨_, heq, _⟩ |
      ⟨rfl, answers', hverdict', hok', rfl⟩⟩ := ends_offsets hcall
    · cases heq
      exact .unannounced txn member.groupId answers e hopened htxn hverdict hok
    · cases heq
    · exact .answered txn member offsets answers answers' (.error e) hopened htxn hverdict hok
        hverdict' hok'

end Offsets

section Calls

variable (codecs config okExec okDrop) in
inductive CallEnds (s : ProducerWorld) :
    ProducerCall → Option (Except ClientError Unit) → ProducerWorld → Prop
  | initTransactions (r : Except ClientError Unit) (t : ProducerWorld) :
      Initializes config s r t → CallEnds s .initTransactions (some r) t
  | beginTransaction (r : Except ClientError Unit) (t : ProducerWorld) :
      Begins s r t → CallEnds s .beginTransaction (some r) t
  | enqueue (key : PartitionKey) (record : Record)
      (out : Option (Except ClientError (Option Delivery))) (t : ProducerWorld) :
      Enqueues codecs config okExec okDrop key record s out t →
      CallEnds s (.enqueue key record) (out.map (Except.map fun _ => ())) t
  | enqueueKeyed (topic : String) (record : Record)
      (out : Option (Except ClientError (Option Delivery))) (t : ProducerWorld) :
      EnqueuesKeyed codecs config okExec okDrop topic record s out t →
      CallEnds s (.enqueueKeyed topic record) (out.map (Except.map fun _ => ())) t
  | produce (key : PartitionKey) (records : List Record)
      (out : Option (Except ClientError Int64)) (t : ProducerWorld) :
      Produces codecs config okExec okDrop key records s out t →
      CallEnds s (.produce key records) (out.map (Except.map fun _ => ())) t
  | flush (out : Option (Except ClientError (List Delivery))) (t : ProducerWorld) :
      Flushes codecs config okExec okDrop s out t →
      CallEnds s .flush (out.map (Except.map fun _ => ())) t
  | sendOffsets (member : GroupMembership) (offsets : List TransactionalOffset)
      (r : Except ClientError Unit) (t : ProducerWorld) :
      SendsOffsets config okExec s r t → CallEnds s (.sendOffsets member offsets) (some r) t
  | commitTransaction (r : Except ClientError Unit) (t : ProducerWorld) :
      Commits codecs config okExec okDrop s r t → CallEnds s .commitTransaction (some r) t
  | abortTransaction (r : Except ClientError Unit) (t : ProducerWorld) :
      Aborts config okExec s r t → CallEnds s .abortTransaction (some r) t

/-- A call that gives nothing back. -/
theorem ends_void {α : Type} {x : ProducerTry α} {out : Option (Except ClientError Unit)}
    (h : (ProducerUnder codecs config okExec okDrop).Ends
      (do let _ ← x : ProducerTry Unit).run s out t) :
    ∃ out', (ProducerUnder codecs config okExec okDrop).Ends x.run s out' t ∧
      out = out'.map (Except.map fun _ => ()) := by
  rcases ends_tryBind h with ⟨a, u, hx, hdone⟩ | ⟨e, hx, rfl⟩ | ⟨hx, rfl⟩
  · obtain ⟨rfl, rfl⟩ := ends_done hdone
    exact ⟨_, hx, rfl⟩
  · exact ⟨_, hx, rfl⟩
  · exact ⟨_, hx, rfl⟩

/-- What any call can come to. -/
theorem ends_call {call : ProducerCall} {out : Option (Except ClientError Unit)}
    (h : (ProducerUnder codecs config okExec okDrop).Ends (call.body config) s out t)
    (hdrop : out = none → call.mayDrop = true) :
    CallEnds codecs config okExec okDrop s call out t := by
  cases call with
  | enqueue key record =>
      obtain ⟨out', hcall, rfl⟩ := ends_void h
      exact .enqueue key record out' t (ends_enqueue hcall)
  | enqueueKeyed topic record =>
      obtain ⟨out', hcall, rfl⟩ := ends_void h
      exact .enqueueKeyed topic record out' t (ends_enqueueKeyed hcall)
  | produce key records =>
      obtain ⟨out', hcall, rfl⟩ := ends_void h
      exact .produce key records out' t (ends_produce hcall)
  | flush =>
      obtain ⟨out', hcall, rfl⟩ := ends_void h
      exact .flush out' t (ends_flush hcall)
  | initTransactions | beginTransaction | sendOffsets _ _ | commitTransaction | abortTransaction =>
      cases out with
      | none => cases hdrop rfl
      | some r =>
          first
          | exact .initTransactions r t (ends_initTransactions h)
          | exact .beginTransaction r t (ends_beginTransaction h)
          | exact .sendOffsets _ _ r t (ends_sendOffsetsToTransaction h)
          | exact .commitTransaction r t (ends_commitTransaction h)
          | exact .abortTransaction r t (ends_abortTransaction h)

/-- Induction over the calls a producer has served. -/
theorem sessions_induction {P : ProducerWorld → Prop} {mayDrop : ProducerCall → Bool}
    (hmay : ∀ call, mayDrop call = true → call.mayDrop = true)
    (hfresh : P (.fresh config))
    (hcall : ∀ {s call out t}, P s → (out = none → mayDrop call = true) →
      CallEnds codecs config okExec okDrop s call out t → P t)
    (h : ProducerSessions (ProducerUnder codecs config okExec okDrop) config mayDrop s) : P s :=
  Reachable.invariant (fun _ hinit => hinit ▸ hfresh)
    (fun _ call _ hs ⟨_, hends, hdrop⟩ =>
      hcall hs hdrop (ends_call hends fun hnone => hmay call (hdrop hnone))) h

end Calls

end Odradek.Client
