import Odradek.Client.ProducerWorld

/-!
What each operation and each helper of the producer does to the world, read off
the program once. The condition a run may be under stays visible at its requests.
-/

namespace Odradek.Client

open Library Library.Service Odradek.Protocol ProducerWorld Producer

section Operations

variable {codecs : Codecs} {config : ProducerConfig}
  {okExec okDrop : ProducerOp → ProducerChoice → ProducerWorld → Bool}
  {s t u : ProducerWorld} {key : PartitionKey} {pending : PendingBatch}

variable (codecs config okExec okDrop) in
abbrev ProducerUnder : ProducerService := (producerService codecs config).under okExec okDrop

/-- An operation that waits for nothing and has one outcome. -/
theorem ends_sync {op : ProducerOp} {r : op.Res} {out : Option op.Res}
    (hact : ∀ c result, act codecs config op c s = some result → result = (r, u))
    (hwait : ∀ c, interrupt codecs config op c s = none)
    (h : (ProducerUnder codecs config okExec okDrop).Ends (perform op) s out t) :
    out = some r ∧ u = t := by
  rcases ends_perform h with ⟨c, r', hexec, rfl⟩ | ⟨c, hdrop, _⟩
  · have heq := hact c (r', t) (under_exec hexec).2
    cases heq
    exact ⟨rfl, rfl⟩
  · have hdrop' : (interrupt codecs config op c s).map abandoned = some t := (under_drop hdrop).2
    rw [hwait c] at hdrop'
    cases hdrop'

theorem ends_self {out : Option Producer}
    (h : (ProducerUnder codecs config okExec okDrop).Ends self s out t) :
    out = some s.producer ∧ s = t := by
  refine ends_sync (fun c result hact => ?_) (fun c => by cases c <;> rfl) h
  cases c with
  | go => cases hact; rfl
  | _ => cases hact

theorem ends_write {p : Producer} {out : Option Unit}
    (h : (ProducerUnder codecs config okExec okDrop).Ends (perform (.write p)) s out t) :
    out = some () ∧ s.setProducer p = t := by
  refine ends_sync (fun c result hact => ?_) (fun c => by cases c <;> rfl) h
  cases c with
  | go => cases hact; rfl
  | _ => cases hact

theorem ends_modify {f : Producer → Producer} {out : Option Unit}
    (h : (ProducerUnder codecs config okExec okDrop).Ends (modify f) s out t) :
    out = some () ∧ s.setProducer (f s.producer) = t :=
  ends_write (ends_bindOf (p := self) (f := fun p => perform (.write (f p))) ends_self h)

theorem ends_note {event : ProducerEvent} {out : Option Unit}
    (h : (ProducerUnder codecs config okExec okDrop).Ends (perform (.note event)) s out t) :
    out = some () ∧ s.note event = t := by
  refine ends_sync (fun c result hact => ?_) (fun c => by cases c <;> rfl) h
  cases c with
  | go => cases hact; rfl
  | _ => cases hact

theorem ends_restore {out : Option Unit}
    (h : (ProducerUnder codecs config okExec okDrop).Ends (perform (.restore key pending)) s
      out t) : out = some () ∧ s.restore key pending = t := by
  refine ends_sync (fun c result hact => ?_) (fun c => by cases c <;> rfl) h
  cases c with
  | go => cases hact; rfl
  | _ => cases hact

theorem ends_remove {out : Option PendingBatch}
    (h : (ProducerUnder codecs config okExec okDrop).Ends (perform (.remove key)) s out t) :
    out = some (s.producer.slot key) ∧ (s.remove key).2 = t := by
  refine ends_sync (fun c result hact => ?_) (fun c => by cases c <;> rfl) h
  cases c with
  | go => cases hact; rfl
  | _ => cases hact

theorem ends_drain {out : Option (List (PartitionKey × PendingBatch))}
    (h : (ProducerUnder codecs config okExec okDrop).Ends (perform .drain) s out t) :
    ∃ keys : List PartitionKey, keys.Perm s.producer.pending.keys ∧
      out = some (s.drain keys).1 ∧ t = (s.drain keys).2 := by
  rcases ends_perform h with ⟨c, r, hexec, rfl⟩ | ⟨c, hdrop, _⟩
  · have hact : act codecs config .drain c s = some (r, t) := (under_exec hexec).2
    cases c with
    | order keys =>
        obtain ⟨hperm, heq⟩ := Option.ite_none_right_eq_some.mp hact
        cases heq
        exact ⟨keys, hperm, rfl, rfl⟩
    | _ => cases hact
  · have hdrop' : drop codecs config .drain c s = some t := (under_drop hdrop).2
    cases c <;> cases hdrop'

def reserved (w : ProducerWorld) (identity : ProducerIdentity) (key : PartitionKey)
    (records : Nat) : BatchStamp × ProducerWorld :=
  let next := nextStamp identity w.producer.sequences key records
    (w.producer.txnState ≠ .disabled)
  (next.1, w.setProducer { w.producer with sequences := next.2 })

theorem ends_nextStamp {identity : ProducerIdentity} {records : Nat} {out : Option BatchStamp}
    (h : (ProducerUnder codecs config okExec okDrop).Ends
      (perform (.nextStamp identity key records)) s out t) :
    okExec (.nextStamp identity key records) .go s = true ∧
      out = some (reserved s identity key records).1 ∧
        t = (reserved s identity key records).2 := by
  rcases ends_perform h with ⟨c, r, hexec, rfl⟩ | ⟨c, hdrop, _⟩
  · obtain ⟨hok, hact⟩ := under_exec hexec
    have hact' : act codecs config (.nextStamp identity key records) c s = some (r, t) := hact
    cases c with
    | go => cases hact'; exact ⟨hok, rfl, rfl⟩
    | _ => cases hact'
  · have hdrop' : drop codecs config (.nextStamp identity key records) c s = some t :=
      (under_drop hdrop).2
    cases c <;> cases hdrop'

theorem ends_checkedBind {α β : Type} {r : Except ClientError α} {f : α → ProducerTry β}
    {out : Option (Except ClientError β)}
    (h : (ProducerUnder codecs config okExec okDrop).Ends (checked r >>= f).run s out t) :
    (∃ a, r = .ok a ∧ (ProducerUnder codecs config okExec okDrop).Ends (f a).run s out t) ∨
      ∃ e, r = .error e ∧ out = some (.error e) ∧ s = t := by
  rcases ends_tryBind h with ⟨a, u, hr, hrest⟩ | ⟨e, hr, hout⟩ | ⟨hr, _⟩
  · obtain ⟨heq, rfl⟩ := ends_done hr
    exact .inl ⟨a, (Option.some.inj heq).symm, hrest⟩
  · obtain ⟨heq, rfl⟩ := ends_done hr
    exact .inr ⟨e, (Option.some.inj heq).symm, hout, rfl⟩
  · cases (ends_done hr).1

end Operations

section Requests

variable {codecs : Codecs} {config : ProducerConfig}
  {okExec okDrop : ProducerOp → ProducerChoice → ProducerWorld → Bool}
  {s t u : ProducerWorld} {txn : Txn}

def told (w : ProducerWorld) (event : ProducerEvent) (announced : Bool) : ProducerWorld :=
  { w.note event with announced }

theorem ends_initProducerId {out : Option (Except ClientError ProducerIdentity)}
    (h : (ProducerUnder codecs config okExec okDrop).Ends (perform .initProducerId) s out t) :
    (∃ answers answer, verdict config answers = some answer ∧
      okExec .initProducerId (.identities answers) s = true ∧ out = some answer ∧
        t = told s (.identified answer) (s.announced && !applied answers)) ∨
      (out = none ∧ ∃ answers, okDrop .initProducerId (.identities answers) s = true ∧
        t = abandoned { s with announced := s.announced && !applied answers }) := by
  rcases ends_perform h with ⟨c, r, hexec, rfl⟩ | ⟨c, hdrop, rfl⟩
  · obtain ⟨hok, hact⟩ := under_exec hexec
    have hact' : act codecs config .initProducerId c s = some (r, t) := hact
    cases c with
    | identities answers =>
        obtain ⟨answer, hverdict, heq⟩ := Option.map_eq_some_iff.mp hact'
        cases heq
        exact .inl ⟨answers, _, hverdict, hok, rfl, rfl⟩
    | _ => cases hact'
  · obtain ⟨hok, hdropped⟩ := under_drop hdrop
    obtain ⟨v, hwait, rfl⟩ := Option.map_eq_some_iff.mp hdropped
    cases c with
    | identities answers =>
        obtain ⟨_, heq⟩ := Option.ite_none_right_eq_some.mp hwait
        cases heq
        exact .inr ⟨rfl, answers, hok, rfl⟩
    | _ => cases hwait

theorem ends_addPartitions {keys : List PartitionKey} {out : Option (Except ClientError Unit)}
    (h : (ProducerUnder codecs config okExec okDrop).Ends (perform (.addPartitions txn keys)) s
      out t) :
    (∃ answers answer, verdict config answers = some answer ∧
      okExec (.addPartitions txn keys) (.replies answers) s = true ∧ out = some answer ∧
        t = told s (.claimed keys answer) (s.announced || applied answers)) ∨
      (out = none ∧ ∃ answers, okDrop (.addPartitions txn keys) (.replies answers) s = true ∧
        t = abandoned { s with announced := s.announced || applied answers }) := by
  rcases ends_perform h with ⟨c, r, hexec, rfl⟩ | ⟨c, hdrop, rfl⟩
  · obtain ⟨hok, hact⟩ := under_exec hexec
    have hact' : act codecs config (.addPartitions txn keys) c s = some (r, t) := hact
    cases c with
    | replies answers =>
        obtain ⟨answer, hverdict, heq⟩ := Option.map_eq_some_iff.mp hact'
        cases heq
        exact .inl ⟨answers, _, hverdict, hok, rfl, rfl⟩
    | _ => cases hact'
  · obtain ⟨hok, hdropped⟩ := under_drop hdrop
    obtain ⟨v, hwait, rfl⟩ := Option.map_eq_some_iff.mp hdropped
    cases c with
    | replies answers =>
        obtain ⟨_, heq⟩ := Option.ite_none_right_eq_some.mp hwait
        cases heq
        exact .inr ⟨rfl, answers, hok, rfl⟩
    | _ => cases hwait

theorem ends_addOffsets {groupId : String} {r : Except ClientError Unit}
    (h : (ProducerUnder codecs config okExec okDrop).Ends (perform (.addOffsets txn groupId)) s
      (some r) t) :
    ∃ answers, verdict config answers = some r ∧
      okExec (.addOffsets txn groupId) (.replies answers) s = true ∧
      t = told s (.offsets r) (s.announced || applied answers) := by
  rcases ends_perform h with ⟨c, r', hexec, heq⟩ | ⟨c, _, hnone⟩
  · cases heq
    obtain ⟨hok, hact⟩ := under_exec hexec
    have hact' : act codecs config (.addOffsets txn groupId) c s = some (r, t) := hact
    cases c with
    | replies answers =>
        obtain ⟨answer, hverdict, heq⟩ := Option.map_eq_some_iff.mp hact'
        cases heq
        exact ⟨answers, hverdict, hok, rfl⟩
    | _ => cases hact'
  · cases hnone

theorem ends_offsetCommit {member : GroupMembership} {offsets : List TransactionalOffset}
    {r : Except ClientError Unit}
    (h : (ProducerUnder codecs config okExec okDrop).Ends
    (perform (.offsetCommit txn member offsets)) s
      (some r) t) :
    ∃ answers, verdict config answers = some r ∧
      okExec (.offsetCommit txn member offsets) (.replies answers) s = true ∧
      t = told s (.offsets r) (s.announced) := by
  rcases ends_perform h with ⟨c, r', hexec, heq⟩ | ⟨c, _, hnone⟩
  · cases heq
    obtain ⟨hok, hact⟩ := under_exec hexec
    have hact' : act codecs config (.offsetCommit txn member offsets) c s = some (r, t) := hact
    cases c with
    | replies answers =>
        obtain ⟨answer, hverdict, heq⟩ := Option.map_eq_some_iff.mp hact'
        cases heq
        exact ⟨answers, hverdict, hok, rfl⟩
    | _ => cases hact'
  · cases hnone

theorem ends_endTxn {committed : Bool} {r : Except ClientError Unit}
    (h : (ProducerUnder codecs config okExec okDrop).Ends (perform (.endTxn txn committed)) s
      (some r) t) :
    ∃ answers, verdict config answers = some r ∧
      okExec (.endTxn txn committed) (.replies answers) s = true ∧
      t = told s (.ended committed r) (s.announced && !applied answers) := by
  rcases ends_perform h with ⟨c, r', hexec, heq⟩ | ⟨c, _, hnone⟩
  · cases heq
    obtain ⟨hok, hact⟩ := under_exec hexec
    have hact' : act codecs config (.endTxn txn committed) c s = some (r, t) := hact
    cases c with
    | replies answers =>
        obtain ⟨answer, hverdict, heq⟩ := Option.map_eq_some_iff.mp hact'
        cases heq
        exact ⟨answers, hverdict, hok, rfl⟩
    | _ => cases hact'
  · cases hnone

theorem ends_deliver {parcels : List Parcel} {out : Option (List (Except ClientError Int64))}
    (h : (ProducerUnder codecs config okExec okDrop).Ends (perform (.deliver parcels)) s out t) :
    (∃ flights outcomes, okExec (.deliver parcels) (.flights flights) s = true ∧
      s.deliver codecs config parcels flights = some (outcomes, t) ∧ out = some outcomes) ∨
      (out = none ∧ ∃ flights v, okDrop (.deliver parcels) (.flights flights) s = true ∧
        s.scatter codecs config parcels flights = some v ∧ t = v.abandoned) := by
  rcases ends_perform h with ⟨c, r, hexec, rfl⟩ | ⟨c, hdrop, rfl⟩
  · obtain ⟨hok, hact⟩ := under_exec hexec
    have hact' : act codecs config (.deliver parcels) c s = some (r, t) := hact
    cases c with
    | flights flights => exact .inl ⟨flights, r, hok, hact', rfl⟩
    | _ => cases hact'
  · obtain ⟨hok, hdropped⟩ := under_drop hdrop
    obtain ⟨v, hwait, rfl⟩ := Option.map_eq_some_iff.mp hdropped
    cases c with
    | flights flights => exact .inr ⟨rfl, flights, v, hok, hwait, rfl⟩
    | _ => cases hwait

end Requests

end Odradek.Client
