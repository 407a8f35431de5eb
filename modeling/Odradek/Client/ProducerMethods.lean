import Odradek.Client.ProducerRules

/-!
What the shared parts of an enqueue, a produce and a flush can come to: claiming
the partitions, taking a stamp, delivering. Each is listed case by case, with the
world it ends in.
-/

namespace Odradek.Client

open Library Library.Service Odradek.Protocol ProducerWorld Producer

variable {codecs : Codecs} {config : ProducerConfig}
  {okExec okDrop : ProducerOp → ProducerChoice → ProducerWorld → Bool}
  {s t u v : ProducerWorld} {key : PartitionKey} {keys : List PartitionKey} {α : Type}

theorem ends_orPoison {call : ProducerTry α} {out : Option (Except ClientError α)}
    (h : (ProducerUnder codecs config okExec okDrop).Ends (orPoison call).run s out t) :
    (∃ a, (ProducerUnder codecs config okExec okDrop).Ends call.run s (some (.ok a)) t ∧
      out = some (.ok a)) ∨
      (∃ e u, (ProducerUnder codecs config okExec okDrop).Ends call.run s (some (.error e)) u ∧
        out = some (.error e) ∧ t = u.setProducer (u.producer.poison e)) ∨
      ((ProducerUnder codecs config okExec okDrop).Ends call.run s none t ∧ out = none) := by
  rcases ends_caughtBind h with ⟨r, u, hcall, hrest⟩ | hdropped
  · cases r with
    | ok a =>
        obtain ⟨rfl, rfl⟩ := ends_done hrest
        exact .inl ⟨a, hcall, rfl⟩
    | error e =>
        have hthrow := ends_liftBindOf ends_modify hrest
        obtain ⟨rfl, rfl⟩ := ends_done hthrow
        exact .inr (.inl ⟨e, u, hcall, rfl, rfl⟩)
  · exact .inr (.inr hdropped)

section Claims

/-- The coordinator has answered the announcement of some partitions. -/
def claimedTo (w : ProducerWorld) (fresh : List PartitionKey) (answers : List (Answer Unit))
    (answer : Except ClientError Unit) : ProducerWorld :=
  (told w (.claimed fresh answer) (w.announced || applied answers)).setProducer
    (match answer with
    | .ok _ => { w.producer with txnPartitions := w.producer.txnPartitions ++ fresh }
    | .error e => w.producer.poison e)

variable (config okExec okDrop) in
inductive Claims (keys : List PartitionKey) (s : ProducerWorld) :
    Option (Except ClientError Unit) → ProducerWorld → Prop
  | unneeded : s.producer.txnState = .disabled ∨
      (s.producer.txnState = .opened ∧ s.producer.unclaimed keys = []) →
      Claims keys s (some (.ok ())) s
  | refused (e : ClientError) : s.producer.txnState ≠ .disabled →
      requireProducible s.producer.txnState = .error e ∨
        (s.producer.unclaimed keys ≠ [] ∧ s.producer.txn config = .error e) →
      Claims keys s (some (.error e)) s
  | answered (txn : Txn) (answers : List (Answer Unit)) (answer : Except ClientError Unit) :
      s.producer.txnState = .opened → s.producer.txn config = .ok txn →
      s.producer.unclaimed keys ≠ [] → verdict config answers = some answer →
      okExec (.addPartitions txn (s.producer.unclaimed keys)) (.replies answers) s = true →
      Claims keys s (some answer) (claimedTo s (s.producer.unclaimed keys) answers answer)
  | dropped (txn : Txn) (answers : List (Answer Unit)) :
      s.producer.txnState = .opened →
      okDrop (.addPartitions txn (s.producer.unclaimed keys)) (.replies answers) s = true →
      Claims keys s none (abandoned { s with announced := s.announced || applied answers })

theorem opened_of_producible {state : TransactionState} (h : state ≠ .disabled)
    (hok : requireProducible state = .ok ()) : state = .opened := by
  cases state with
  | opened => rfl
  | disabled => exact absurd rfl h
  | _ => cases hok

/-- What the claims can come to. -/
theorem ends_claimPartitions {out : Option (Except ClientError Unit)}
    (h : (ProducerUnder codecs config okExec okDrop).Ends (claimPartitions config keys).run s
      out t) : Claims config okExec okDrop keys s out t := by
  have hrest := ends_liftBindOf ends_self h
  by_cases hdisabled : s.producer.txnState = .disabled
  · rw [if_pos hdisabled] at hrest
    obtain ⟨rfl, rfl⟩ := ends_done hrest
    exact .unneeded (.inl hdisabled)
  rw [if_neg hdisabled] at hrest
  rcases ends_checkedBind hrest with ⟨_, hcheck, hrest⟩ | ⟨e, hcheck, rfl, rfl⟩
  case inr => exact .refused e hdisabled (.inl hcheck)
  have hopened := opened_of_producible hdisabled hcheck
  dsimp only at hrest
  by_cases hfresh : s.producer.unclaimed keys = []
  · rw [if_pos (List.isEmpty_iff.mpr hfresh)] at hrest
    obtain ⟨rfl, rfl⟩ := ends_done hrest
    exact .unneeded (.inr ⟨hopened, hfresh⟩)
  rw [if_neg (fun hempty => hfresh (List.isEmpty_iff.mp hempty))] at hrest
  rcases ends_checkedBind hrest with ⟨txn, htxn, hrest⟩ | ⟨e, htxn, rfl, rfl⟩
  case inr => exact .refused e hdisabled (.inr ⟨hfresh, htxn⟩)
  have hadd : ∀ {out t}, (ProducerUnder codecs config okExec okDrop).Ends
      (Producer.addPartitions txn (s.producer.unclaimed keys)).run s out t →
      (ProducerUnder codecs config okExec okDrop).Ends
        (perform (.addPartitions txn (s.producer.unclaimed keys))) s out t := by
    intro out t hrun
    unfold Producer.addPartitions at hrun
    rw [if_neg (fun hempty => hfresh (List.isEmpty_iff.mp hempty))] at hrun
    exact hrun
  rcases ends_tryBind hrest with ⟨_, v, hcall, hrest⟩ | ⟨e, hcall, rfl⟩ | ⟨hcall, rfl⟩
  · rcases ends_orPoison hcall with ⟨_, hask, _⟩ | ⟨e, w, _, heq, _⟩ | ⟨_, hnone⟩
    case inr.inl => cases heq
    case inr.inr => cases hnone
    rcases ends_addPartitions (hadd hask)
      with ⟨answers, answer, hverdict, hok, heq, rfl⟩ | ⟨hnone, _⟩
    case inr => cases hnone
    cases heq
    rcases ends_lift hrest with ⟨_, hmodify, rfl⟩ | ⟨hmodify, _⟩
    case inr => cases (ends_modify hmodify).1
    obtain ⟨_, rfl⟩ := ends_modify hmodify
    exact .answered txn answers (.ok ()) hopened htxn hfresh hverdict hok
  · rcases ends_orPoison hcall with ⟨_, _, heq⟩ | ⟨e', w, hask, heq, rfl⟩ | ⟨_, hnone⟩
    case inl => cases heq
    case inr.inr => cases hnone
    cases heq
    rcases ends_addPartitions (hadd hask)
      with ⟨answers, answer, hverdict, hok, heq, rfl⟩ | ⟨hnone, _⟩
    case inr => cases hnone
    cases heq
    exact .answered txn answers (.error e) hopened htxn hfresh hverdict hok
  · rcases ends_orPoison hcall with ⟨_, _, heq⟩ | ⟨_, _, _, heq, _⟩ | ⟨hask, _⟩
    case inl => cases heq
    case inr.inl => cases heq
    rcases ends_addPartitions (hadd hask) with ⟨_, _, _, _, heq, _⟩ | ⟨_, answers, hok, rfl⟩
    case inl => cases heq
    exact .dropped txn answers hopened hok

end Claims

section Stamps

def identifiedAs (w : ProducerWorld) (answers : List (Answer ProducerIdentity))
    (identity : ProducerIdentity) : ProducerWorld :=
  (told w (.identified (.ok identity)) (w.announced && !applied answers)).setProducer
    { w.producer with identity := some identity }

variable (config okDrop) in
inductive Identifies (s : ProducerWorld) :
    Option (Except ClientError ProducerIdentity) → ProducerWorld → Prop
  | known (identity : ProducerIdentity) : s.producer.identity = some identity →
      Identifies s (some (.ok identity)) s
  | refused (e : ClientError) : s.producer.identity = none →
      requireProducible s.producer.txnState = .error e → Identifies s (some (.error e)) s
  | issued (answers : List (Answer ProducerIdentity)) (identity : ProducerIdentity) :
      s.producer.identity = none → requireProducible s.producer.txnState = .ok () →
      verdict config answers = some (.ok identity) →
      Identifies s (some (.ok identity)) (identifiedAs s answers identity)
  | unissued (answers : List (Answer ProducerIdentity)) (e : ClientError) :
      s.producer.identity = none → requireProducible s.producer.txnState = .ok () →
      verdict config answers = some (.error e) →
      Identifies s (some (.error e))
        (told s (.identified (.error e)) (s.announced && !applied answers))
  | dropped (answers : List (Answer ProducerIdentity)) : s.producer.identity = none →
      requireProducible s.producer.txnState = .ok () →
      okDrop .initProducerId (.identities answers) s = true →
      Identifies s none (abandoned { s with announced := s.announced && !applied answers })

/-- What asking for the identity can come to. -/
theorem ends_identify {out : Option (Except ClientError ProducerIdentity)}
    (h : (ProducerUnder codecs config okExec okDrop).Ends identify.run s out t) :
    Identifies config okDrop s out t := by
  have hrest := ends_liftBindOf ends_self h
  cases hidentity : s.producer.identity with
  | some identity =>
      rw [hidentity] at hrest
      obtain ⟨rfl, rfl⟩ := ends_done hrest
      exact .known identity hidentity
  | none =>
      rw [hidentity] at hrest
      rcases ends_checkedBind hrest with ⟨_, hcheck, hrest⟩ | ⟨e, hcheck, rfl, rfl⟩
      case inr => exact .refused e hidentity hcheck
      rcases ends_tryBind hrest with ⟨identity, u, hask, hrest⟩ | ⟨e, hask, rfl⟩ | ⟨hask, rfl⟩
      · rcases ends_initProducerId hask with ⟨answers, answer, hverdict, _, heq, rfl⟩ | ⟨hnone, _⟩
        case inr => cases hnone
        cases heq
        have hdone := ends_liftBindOf ends_modify hrest
        obtain ⟨rfl, rfl⟩ := ends_done hdone
        exact .issued answers identity hidentity hcheck hverdict
      · rcases ends_initProducerId hask with ⟨answers, answer, hverdict, _, heq, rfl⟩ | ⟨hnone, _⟩
        case inr => cases hnone
        cases heq
        exact .unissued answers e hidentity hcheck hverdict
      · rcases ends_initProducerId hask with ⟨_, _, _, _, heq, _⟩ | ⟨_, answers, hok, rfl⟩
        case inl => cases heq
        exact .dropped answers hidentity hcheck hok

variable (config okExec okDrop) in
inductive Stamps (key : PartitionKey) (records : Nat) (s : ProducerWorld) :
    Option (Except ClientError (Option BatchStamp)) → ProducerWorld → Prop
  | plain : config.idempotent = false → Stamps key records s (some (.ok none)) s
  | refused (e : ClientError) : config.idempotent = true →
      checkIdempotentAcks config.acks = .error e → Stamps key records s (some (.error e)) s
  | unidentified (e : ClientError) (t : ProducerWorld) : config.idempotent = true →
      checkIdempotentAcks config.acks = .ok () →
      Identifies config okDrop s (some (.error e)) t → Stamps key records s (some (.error e)) t
  | stamped (identity : ProducerIdentity) (u : ProducerWorld) : config.idempotent = true →
      checkIdempotentAcks config.acks = .ok () →
      Identifies config okDrop s (some (.ok identity)) u →
      okExec (.nextStamp identity key records) .go u = true →
      Stamps key records s (some (.ok (some (reserved u identity key records).1)))
        (reserved u identity key records).2
  | dropped (t : ProducerWorld) : config.idempotent = true →
      checkIdempotentAcks config.acks = .ok () → Identifies config okDrop s none t →
      Stamps key records s none t

theorem ends_batchStamp {records : Nat} {out : Option (Except ClientError (Option BatchStamp))}
    (h : (ProducerUnder codecs config okExec okDrop).Ends (batchStamp config key records).run s
      out t) : Stamps config okExec okDrop key records s out t := by
  unfold batchStamp at h
  by_cases hplain : config.idempotent = false
  · rw [if_pos hplain] at h
    obtain ⟨rfl, rfl⟩ := ends_done h
    exact .plain hplain
  rw [if_neg hplain] at h
  have hidempotent : config.idempotent = true := by simpa using hplain
  rcases ends_checkedBind h with ⟨_, hacks, hrest⟩ | ⟨e, hacks, rfl, rfl⟩
  case inr => exact .refused e hidempotent hacks
  rcases ends_tryBind hrest with ⟨identity, u, hask, hrest⟩ | ⟨e, hask, rfl⟩ | ⟨hask, rfl⟩
  · rcases ends_liftBind hrest with ⟨stamp, v, hnext, hdone⟩ | ⟨hnext, _⟩
    case inr => cases (ends_nextStamp hnext).2.1
    obtain ⟨hok, heq, rfl⟩ := ends_nextStamp hnext
    cases heq
    obtain ⟨rfl, rfl⟩ := ends_done hdone
    exact .stamped identity u hidempotent hacks (ends_identify hask) hok
  · exact .unidentified e t hidempotent hacks (ends_identify hask)
  · exact .dropped t hidempotent hacks (ends_identify hask)

end Stamps

end Odradek.Client
