import Odradek.Client.ProducerFrame

/-!
The way out of a transaction. The coordinator ends what it has been told of, and
refuses to end what it has not: an abort, or a commit with nothing in the buffer,
gets through exactly when something was announced.
-/

namespace Odradek.Client

open Library Library.Service Odradek.Protocol ProducerWorld Producer

section Coordinator

/-- The coordinator's answers to an `EndTxn`: there must be a transaction to end. -/
def endsAnnounced (announced : Bool) (answers : List (Answer Unit)) : Bool :=
  answers.all fun a => a.sent && a.applied == announced &&
    match a.result with
    | .ok _ => announced
    | .error e => !announced && e == .broker .invalidTxnState

/-- Runs in which the coordinator answers every `EndTxn`; all else may fail in any way. -/
def coordinated : ProducerOp → ProducerChoice → ProducerWorld → Bool
  | .endTxn _ _, .replies answers, w => endsAnnounced w.announced answers
  | _, _, _ => true

def never : ProducerOp → ProducerChoice → ProducerWorld → Bool := fun _ _ _ => false

variable {codecs : Codecs} {config : ProducerConfig} {s t : ProducerWorld}

abbrev CoordinatedService (codecs : Codecs) (config : ProducerConfig) : ProducerService :=
  ProducerUnder codecs config coordinated never

abbrev CoordinatedSessions (codecs : Codecs) (config : ProducerConfig) : ProducerWorld → Prop :=
  ProducerSessions (CoordinatedService codecs config) config fun _ => false

/-- The call returns `Ok` and leaves the producer ready, however it goes. -/
def ReturnsReady (S : ProducerService) (config : ProducerConfig) (call : ProducerCall)
    (s : ProducerWorld) : Prop :=
  (∃ t, S.Ends (call.body config) s (some (.ok ())) t) ∧
    ∀ r t, S.Ends (call.body config) s (some r) t → r = .ok () ∧ t.producer.txnState = .ready

end Coordinator

section Ready

variable {codecs : Codecs} {config : ProducerConfig}
  {okExec okDrop : ProducerOp → ProducerChoice → ProducerWorld → Bool}
  {s t : ProducerWorld}

/-- What a transaction needs is there from `init_transactions` on. -/
structure Equipped (config : ProducerConfig) (p : Producer) : Prop where
  named : config.transactionalId = none → p.txnState = .disabled
  identified : p.txnState = .ready ∨ p.txnState = .opened ∨ p.txnState = .abortable →
    p.identity ≠ none

theorem Equipped.advance (h : Equipped config s.producer) (hadvances : Advances s t) :
    Equipped config t.producer := by
  rcases hadvances.state with heq | ⟨hs, ht⟩ | ⟨hs, ht⟩
  · refine ⟨fun hnone => heq.trans (h.named hnone), fun hstate => ?_⟩
    rw [heq] at hstate
    have hsome := h.identified hstate
    rw [hadvances.identity hsome]
    exact hsome
  · refine ⟨fun hnone => ?_, fun _ => ?_⟩
    · have hdisabled := h.named hnone
      rw [hs] at hdisabled
      cases hdisabled
    · have hsome := h.identified (.inr (.inl hs))
      rw [hadvances.identity hsome]
      exact hsome
  · refine ⟨fun hnone => absurd (h.named hnone) hs, fun hstate => ?_⟩
    rw [ht] at hstate
    rcases hstate with hstate | hstate | hstate <;> cases hstate

theorem Equipped.endsTransaction {committed : Bool} {r : Except ClientError Unit}
    (h : Equipped config s.producer) (hends : EndsTransaction config okExec committed s r t)  :
    Equipped config t.producer := by
  cases hends with
  | refused _ _ => exact h
  | answered txn answers _ htxn _ _ =>
      cases r with
      | error e =>
          exact Equipped.advance (s := told s (.ended committed (.error e))
            (s.announced && !applied answers)) h (.poisoned e)
      | ok _ =>
          unfold Producer.txn at htxn
          cases hname : config.transactionalId with
          | none => rw [hname] at htxn; cases htxn
          | some _ =>
              cases hidentity : s.producer.identity with
              | none => simp only [hname, hidentity] at htxn; cases htxn
              | some identity =>
                  refine ⟨fun hnone => ?_, fun _ => ?_⟩
                  · rw [hname] at hnone
                    cases hnone
                  · change s.producer.identity ≠ none
                    rw [hidentity]
                    exact fun hnone => (by cases hnone)

/-- No call takes away what a transaction needs. -/
theorem Equipped.call {call : ProducerCall} {out : Option (Except ClientError Unit)}
    (h : Equipped config s.producer) (hcall : CallEnds codecs config okExec okDrop s call out t) :
    Equipped config t.producer := by
  cases hcall with
  | initTransactions r _ hinit =>
      cases hinit with
      | refused _ => exact h
      | unissued _ _ _ _ => exact h.advance (.of_eq rfl rfl)
      | issued answers identity _ hname _ _ =>
          refine ⟨fun hnone => ?_, fun _ hnone => by cases hnone⟩
          rw [hnone] at hname
          cases hname
  | beginTransaction r _ hbegin =>
      cases hbegin with
      | refused _ _ => exact h
      | begun hready =>
          refine ⟨fun hnone => ?_, fun _ => h.identified (.inl hready)⟩
          have hdisabled := h.named hnone
          rw [hready] at hdisabled
          cases hdisabled
  | enqueue _ _ _ _ henqueues => exact h.advance ((Advances.frame s).enqueues .refl henqueues)
  | enqueueKeyed _ _ _ _ henqueues =>
      exact h.advance ((Advances.frame s).enqueuesKeyed .refl henqueues)
  | produce _ _ _ _ hproduces => exact h.advance ((Advances.frame s).produces .refl hproduces)
  | flush _ _ hflushes => exact h.advance ((Advances.frame s).flushes .refl hflushes)
  | sendOffsets _ _ r _ hsends =>
      cases hsends with
      | refused _ _ => exact h
      | unannounced _ _ answers e _ _ _ _ =>
          exact Equipped.advance (s := offsetsTold s answers (.error e)) h (.poisoned e)
      | nothing _ _ _ _ _ _ _ => exact h.advance (.of_eq rfl rfl)
      | answered _ _ _ answers answers' _ _ _ _ _ _ _ =>
          cases r with
          | ok _ => exact h.advance (.of_eq rfl rfl)
          | error e =>
              exact Equipped.advance
                (s := (offsetsTold s answers (.ok ())).note (.offsets (.error e))) h (.poisoned e)
  | commitTransaction _ _ hcommits =>
      cases hcommits with
      | refused _ _ => exact h
      | unflushed e u _ hflushes =>
          exact (h.advance ((Advances.frame s).flushes .refl hflushes)).advance (.poisoned e)
      | failed _ _ u _ _ hflushes hends =>
          exact (h.advance ((Advances.frame s).flushes .refl hflushes)).endsTransaction hends
      | committed _ u v _ hflushes hends =>
          exact Equipped.endsTransaction (t := v)
            (h.advance ((Advances.frame s).flushes .refl hflushes)) hends
  | abortTransaction _ _ haborts =>
      cases haborts with
      | refused _ _ _ => exact h
      | ended _ _ _ hends =>
          have hdiscarded : Equipped config (discarded s).producer := h.advance (.of_eq rfl rfl)
          exact hdiscarded.endsTransaction hends

theorem equipped_of_fresh : Equipped config (ProducerWorld.fresh config).producer := by
  refine ⟨fun hnone => ?_, fun hstate => ?_⟩
  · change (if config.transactionalId.isSome then TransactionState.uninitialized
      else .disabled) = .disabled
    rw [hnone]
    rfl
  · change (if config.transactionalId.isSome then TransactionState.uninitialized else
      .disabled) = _ ∨
      (if config.transactionalId.isSome then TransactionState.uninitialized else .disabled) = _ ∨
      (if config.transactionalId.isSome then TransactionState.uninitialized else .disabled) = _
      at hstate
    split at hstate <;> rcases hstate with hstate | hstate | hstate <;> cases hstate

theorem equipped_of_sessions {mayDrop : ProducerCall → Bool}
    (hmay : ∀ call, mayDrop call = true → call.mayDrop = true)
    (h : ProducerSessions (ProducerUnder codecs config okExec okDrop) config mayDrop s) :
    Equipped config s.producer :=
  sessions_induction (P := fun s => Equipped config s.producer) hmay equipped_of_fresh
    (fun hs _ hcall => hs.call hcall) h

theorem Equipped.txn (h : Equipped config s.producer)
    (hstate : s.producer.txnState = .opened ∨ s.producer.txnState = .abortable) :
    ∃ txn, s.producer.txn config = .ok txn := by
  unfold Producer.txn
  cases hname : config.transactionalId with
  | none =>
      have hdisabled := h.named hname
      rw [hdisabled] at hstate
      rcases hstate with hstate | hstate <;> cases hstate
  | some name =>
      cases hidentity : s.producer.identity with
      | none => exact absurd hidentity (h.identified (.inr hstate))
      | some identity => exact ⟨_, rfl⟩

end Ready

section WayOut

variable {codecs : Codecs} {config : ProducerConfig} {s t : ProducerWorld}

/-- What the coordinator has to say, where it is asked at all. -/
def endsWith (config : ProducerConfig) (announced : Bool) : Except ClientError Unit :=
  if config.maxAttempts = 0 then .error .connectionClosed
  else if announced then .ok ()
  else .error (.broker .invalidTxnState)

/-- What the coordinator answers is decided by whether there is a transaction to end. -/
theorem verdict_endsAnnounced {announced : Bool} {answers : List (Answer Unit)}
    {answer : Except ClientError Unit} (hverdict : verdict config answers = some answer)
    (hends : endsAnnounced announced answers = true) : answer = endsWith config announced := by
  obtain ⟨_, hloop⟩ := Option.ite_none_right_eq_some.mp hverdict
  unfold endsWith
  cases answers with
  | nil =>
      cases hmax : config.maxAttempts with
      | zero =>
          rw [hmax] at hloop
          cases hloop
          rfl
      | succ n =>
          rw [hmax] at hloop
          cases hloop
  | cons a rest =>
      obtain ⟨sent, applied, result⟩ := a
      have hfirst := (List.all_eq_true.mp hends) _ List.mem_cons_self
      cases hmax : config.maxAttempts with
      | zero =>
          rw [hmax] at hloop
          cases hloop
      | succ n =>
          rw [hmax] at hloop
          rw [if_neg (Nat.succ_ne_zero n)]
          cases result with
          | ok _ =>
              obtain ⟨_, hannounced⟩ := Bool.and_eq_true_iff.mp hfirst
              obtain ⟨_, heq⟩ := Option.ite_none_right_eq_some.mp hloop
              cases heq
              rw [if_pos hannounced]
          | error e =>
              obtain ⟨_, hrefused⟩ := Bool.and_eq_true_iff.mp hfirst
              obtain ⟨hannounced, hcode⟩ := Bool.and_eq_true_iff.mp hrefused
              obtain rfl : e = .broker .invalidTxnState := by simpa using hcode
              obtain ⟨_, heq⟩ := Option.ite_none_right_eq_some.mp hloop
              cases heq
              rw [if_neg (by simpa using hannounced)]

def coordinatorAnswers (config : ProducerConfig) (announced : Bool) : List (Answer Unit) :=
  if config.maxAttempts = 0 then []
  else [{ sent := true, applied := announced,
          result := if announced then .ok () else .error (.broker .invalidTxnState) }]

theorem endsAnnounced_coordinatorAnswers (announced : Bool) :
    endsAnnounced announced (coordinatorAnswers config announced) = true := by
  unfold coordinatorAnswers
  split
  · rfl
  · cases announced <;> rfl

theorem verdict_coordinatorAnswers (announced : Bool) :
    verdict config (coordinatorAnswers config announced) = some (endsWith config announced) := by
  unfold coordinatorAnswers endsWith verdict
  cases config.maxAttempts with
  | zero => rfl
  | succ n =>
      rw [if_neg (Nat.succ_ne_zero n), if_neg (Nat.succ_ne_zero n)]
      cases announced <;> rfl

theorem EndsTransaction.eq_endsWith {committed : Bool} {txn : Txn} {r : Except ClientError Unit}
    (htxn : s.producer.txn config = .ok txn)
    (h : EndsTransaction config coordinated committed s r t) :
    r = endsWith config s.announced ∧ (r = .ok () → t.producer.txnState = .ready) := by
  cases h with
  | refused e herror => rw [htxn] at herror; cases herror
  | answered _ answers _ _ hverdict hok =>
      refine ⟨verdict_endsAnnounced hverdict hok, ?_⟩
      rintro rfl
      rfl

theorem self_ends : (CoordinatedService codecs config).Ends self s (some s.producer) s :=
  Ends.perform ProducerChoice.go rfl

theorem write_ends {p : Producer} :
    (CoordinatedService codecs config).Ends (perform (.write p)) s (some ()) (s.setProducer p) :=
  Ends.perform ProducerChoice.go rfl

/-- An `EndTxn` the coordinator takes does come to its end. -/
theorem endTransaction_ends {committed : Bool} {txn : Txn}
    (htxn : s.producer.txn config = .ok txn) (hok : endsWith config s.announced = .ok ()) :
    ∃ t, (CoordinatedService codecs config).Ends (endTransaction config committed).run s
      (some (.ok ())) t := by
  let answers := coordinatorAnswers config s.announced
  let u := told s (.ended committed (.ok ())) (s.announced && !applied answers)
  have hasked : (CoordinatedService codecs config).exec (.endTxn txn committed) (.replies answers)
      s = some (.ok (), u) := by
    refine (if_pos (endsAnnounced_coordinatorAnswers s.announced)).trans ?_
    change (verdict config answers).map _ = _
    rw [verdict_coordinatorAnswers, hok]
    rfl
  have hask : (CoordinatedService codecs config).Ends
      (orPoison (requested (perform (.endTxn txn committed)))).run s (some (.ok ())) u :=
    Ends.tryBind (Ends.caught (x := requested (perform (.endTxn txn committed)))
      (Ends.perform (.replies answers) hasked)) .done
  have hmodify : (CoordinatedService codecs config).Ends
      (modify fun p => { p with txnPartitions := [], txnState := .ready }) u (some ())
      (u.setProducer { u.producer with txnPartitions := [], txnState := .ready }) :=
    Ends.bind self_ends write_ends
  have htaken : (CoordinatedService codecs config).Ends (checked (s.producer.txn config)).run s
      (some (.ok txn)) s := by
    rw [htxn]
    exact .done
  exact ⟨_, Ends.liftBind self_ends (Ends.tryBind htaken (Ends.tryBind hask
    (Ends.bind hmodify .done)))⟩

theorem endsWith_eq_ok {announced : Bool} :
    endsWith config announced = .ok () ↔ announced = true ∧ 0 < config.maxAttempts := by
  unfold endsWith
  split
  next hmax => simp only [hmax, Nat.lt_irrefl, and_false, reduceCtorEq]
  next hmax =>
    cases announced with
    | true => simp only [if_true, true_and, Nat.pos_of_ne_zero hmax]
    | false => simp only [Bool.false_eq_true, if_false, reduceCtorEq, false_and]

theorem abort_returnsReady_iff (hequipped : Equipped config s.producer)
    (hstate : s.producer.txnState = .opened ∨ s.producer.txnState = .abortable) :
    ReturnsReady (CoordinatedService codecs config) config .abortTransaction s ↔
      s.announced = true ∧ 0 < config.maxAttempts := by
  obtain ⟨txn, htxn⟩ := hequipped.txn hstate
  have hall : ∀ {r t}, (CoordinatedService codecs config).Ends
      ((ProducerCall.abortTransaction).body config) s (some r) t →
      r = endsWith config s.announced ∧ (r = .ok () → t.producer.txnState = .ready) := by
    intro r t h
    cases ends_abortTransaction h with
    | refused _ hopened habort => exact absurd hstate (not_or.mpr ⟨hopened, habort⟩)
    | ended _ _ _ hends => exact EndsTransaction.eq_endsWith (s := discarded s) htxn hends
  rw [← endsWith_eq_ok]
  constructor
  · rintro ⟨⟨t, h⟩, _⟩
    exact (hall h).1.symm
  · intro hok
    refine ⟨?_, fun r t h => ?_⟩
    · obtain ⟨t, hend⟩ : ∃ t, (CoordinatedService codecs config).Ends
          (endTransaction config false).run (discarded s) (some (.ok ())) t :=
        endTransaction_ends htxn hok
      refine ⟨t, Ends.liftBind self_ends ?_⟩
      rw [if_pos hstate]
      exact Ends.liftBind write_ends hend
    · obtain ⟨hr, hready⟩ := hall h
      exact ⟨hr.trans hok, hready (hr.trans hok)⟩

/-- A flush of nothing. -/
theorem flush_ends (hempty : s.producer.pending.keys = []) :
    (CoordinatedService codecs config).Ends (flush config).run s (some (.ok []))
    (s.drain []).2 := by
  have hdrain : (CoordinatedService codecs config).exec .drain (.order []) s =
      some ([], (s.drain []).2) := by
    change (if List.Perm [] s.producer.pending.keys then _ else _) = _
    rw [hempty]
    rfl
  exact Ends.liftBind (Ends.perform (.order []) hdrain) .done

theorem flushes_empty {out : Option (Except ClientError (List Delivery))}
    {okExec okDrop : ProducerOp → ProducerChoice → ProducerWorld → Bool}
    (hempty : s.producer.pending.keys = [])
    (h : Flushes codecs config okExec okDrop s out t) :
    out = some (.ok []) ∧ t = (s.drain []).2 := by
  have hnone : ∀ {keys : List PartitionKey}, keys.Perm s.producer.pending.keys → keys = [] := by
    intro keys hperm
    rw [hempty] at hperm
    exact hperm.eq_nil
  cases h with
  | empty _ => exact ⟨rfl, rfl⟩
  | unclaimed _ _ _ hperm hkeys _ | claimDropped _ _ hperm hkeys _
  | unstamped _ _ _ _ hperm hkeys _ _ | stampDropped _ _ _ hperm hkeys _ _
  | delivered _ _ _ _ _ _ _ _ hperm hkeys _ _ _ _ _
  | failed _ _ _ _ _ _ _ _ hperm hkeys _ _ _ _ _
  | deliveryDropped _ _ _ _ _ _ hperm hkeys _ _ _ _ => exact absurd (hnone hperm) hkeys

theorem commit_returnsReady_iff (hequipped : Equipped config s.producer)
    (hopened : s.producer.txnState = .opened) (hempty : s.producer.pending.keys = []) :
    ReturnsReady (CoordinatedService codecs config) config .commitTransaction s ↔
      s.announced = true ∧ 0 < config.maxAttempts := by
  obtain ⟨txn, htxn⟩ := hequipped.txn (.inl hopened)
  have hall : ∀ {r t}, (CoordinatedService codecs config).Ends
      ((ProducerCall.commitTransaction).body config) s (some r) t →
      r = endsWith config s.announced ∧ (r = .ok () → t.producer.txnState = .ready) := by
    intro r t h
    cases ends_commitTransaction h with
    | refused e hopen => rw [hopened] at hopen; cases hopen
    | unflushed e u _ hflush => cases (flushes_empty hempty hflush).1
    | failed _ e u _ _ hflush hends =>
        obtain ⟨_, rfl⟩ := flushes_empty hempty hflush
        exact EndsTransaction.eq_endsWith (s := (s.drain []).2) htxn hends
    | committed _ u v _ hflush hends =>
        obtain ⟨_, rfl⟩ := flushes_empty hempty hflush
        exact EndsTransaction.eq_endsWith (s := (s.drain []).2) (t := v) htxn hends
  rw [← endsWith_eq_ok]
  constructor
  · rintro ⟨⟨t, h⟩, _⟩
    exact (hall h).1.symm
  · intro hok
    refine ⟨?_, fun r t h => ?_⟩
    · obtain ⟨t, hend⟩ : ∃ t, (CoordinatedService codecs config).Ends
          (endTransaction config true).run (s.drain []).2 (some (.ok ())) t :=
        endTransaction_ends htxn hok
      have hchecked : (CoordinatedService codecs config).Ends
          (checked (requireOpen s.producer.txnState "commit")).run s (some (.ok ())) s := by
        rw [hopened]
        exact .done
      have hflush : (CoordinatedService codecs config).Ends (orPoison (flush config)).run s
          (some (.ok [])) (s.drain []).2 :=
        Ends.tryBind (Ends.caught (x := flush config) (flush_ends hempty)) .done
      have hnote : (CoordinatedService codecs config).Ends (perform (.note .committed)) t (some ())
          (t.note .committed) := Ends.perform ProducerChoice.go rfl
      exact ⟨t.note .committed, Ends.liftBind self_ends (Ends.tryBind hchecked
        (Ends.tryBind hflush (Ends.tryBind hend (Ends.bind hnote .done))))⟩
    · obtain ⟨hr, hready⟩ := hall h
      exact ⟨hr.trans hok, hready (hr.trans hok)⟩

/-- Where something was announced, and only there, an abort or an empty commit gets through. -/
theorem wayOut_iff_announced (codecs : Codecs) (config : ProducerConfig) (s : ProducerWorld)
    (h : CoordinatedSessions codecs config s) :
    ((s.producer.txnState = .opened ∨ s.producer.txnState = .abortable) →
      (ReturnsReady (CoordinatedService codecs config) config .abortTransaction s ↔
        s.announced = true ∧ 0 < config.maxAttempts)) ∧
    (s.producer.txnState = .opened → s.producer.pending.keys = [] →
      (ReturnsReady (CoordinatedService codecs config) config .commitTransaction s ↔
        s.announced = true ∧ 0 < config.maxAttempts)) := by
  have hequipped := equipped_of_sessions (fun _ hmay => by cases hmay) h
  exact ⟨fun hstate => abort_returnsReady_iff hequipped hstate,
    fun hopened hempty => commit_returnsReady_iff hequipped hopened hempty⟩

def Answer.took {α : Type} (value : α) : Answer α :=
  { sent := true, applied := true, result := .ok value }

def beginRun : List (ProducerCall × List (Turn ProducerChoice)) :=
  [(.initTransactions,
      [.go .go, .go (.identities [.took { id := 7, epoch := 0 }]), .go .go, .go .go, .go .go]),
    (.beginTransaction, [.go .go, .go .go, .go .go])]

/-- The coordinator hears of a partition, and then the batch cannot be encoded. -/
def announceRun : List (ProducerCall × List (Turn ProducerChoice)) :=
  beginRun ++ [(.produce ("t", 0) [],
    [.go .go, .go (.replies [.took ()]), .go .go, .go .go, .go .go, .go .go,
      .go (.flights [{ nowMs := 0, answers := [] }]), .go .go, .go .go, .go .go, .go .go])]

theorem coordinated_of_run (config : ProducerConfig)
    (calls : List (ProducerCall × List (Turn ProducerChoice))) (P : ProducerWorld → Bool)
    (h : ((CoordinatedService Codecs.stored config).replayAll (ProducerCall.body config)
      (fun _ => false) calls (.fresh config)).map P = some true) :
    ∃ s, CoordinatedSessions Codecs.stored config s ∧ P s = true := by
  obtain ⟨s, hrun, hp⟩ := Option.map_eq_some_iff.mp h
  exact ⟨s, .of_replayAll (.start rfl) hrun, hp⟩

theorem wayOut_announced : ∃ s, CoordinatedSessions Codecs.stored (.transactional "txn") s ∧
    s.producer.txnState = .abortable ∧
    ReturnsReady (CoordinatedService Codecs.stored (.transactional "txn"))
      (.transactional "txn") .abortTransaction s := by
  obtain ⟨s, hs, hp⟩ := coordinated_of_run (.transactional "txn") announceRun
    (fun s => s.producer.txnState = .abortable && s.announced) (by decide)
  obtain ⟨hstate, hannounced⟩ := Bool.and_eq_true_iff.mp hp
  have habortable := of_decide_eq_true hstate
  exact ⟨s, hs, habortable, ((wayOut_iff_announced Codecs.stored (.transactional "txn") s hs).1
    (.inr habortable)).mpr ⟨hannounced, by decide⟩⟩

/-- A transaction that is begun and never written to cannot be left again. -/
theorem not_wayOut : ¬ ∀ (codecs : Codecs) (config : ProducerConfig) (s : ProducerWorld),
    CoordinatedSessions codecs config s →
      ((s.producer.txnState = .opened ∨ s.producer.txnState = .abortable) →
        ReturnsReady (CoordinatedService codecs config) config .abortTransaction s) ∧
      (s.producer.txnState = .opened → s.producer.pending.keys = [] → s.announced = false →
        ReturnsReady (CoordinatedService codecs config) config .commitTransaction s ∧
          ReturnsReady (CoordinatedService codecs config) config .abortTransaction s) := by
  intro h
  obtain ⟨s, hs, hp⟩ := coordinated_of_run (.transactional "txn") beginRun
    (fun s => s.producer.txnState = .opened && !s.announced) (by decide)
  obtain ⟨hstate, hannounced⟩ := Bool.and_eq_true_iff.mp hp
  have hopened := of_decide_eq_true hstate
  have hequipped := equipped_of_sessions (fun _ hmay => by cases hmay) hs
  have hready := (h Codecs.stored (.transactional "txn") s hs).1 (.inl hopened)
  rw [((abort_returnsReady_iff hequipped (.inl hopened)).mp hready).1] at hannounced
  cases hannounced

end WayOut

end Odradek.Client
