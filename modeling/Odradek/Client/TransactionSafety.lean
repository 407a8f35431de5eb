import Odradek.Client.Cancelled

/-!
The safety of transactions. An `EndTxn` that commits goes out with an empty buffer,
after claims, deliveries and offsets that all came to `Ok`; a fenced producer stays
fenced and asks for nothing; and `Ready` is where a transaction ended or none has been.
-/

namespace Odradek.Client

open Library Library.Service Odradek.Protocol ProducerWorld Producer

section Whole

def returnedOk : ProducerEvent → Bool
  | .claimed _ answer => answer.isOk
  | .delivered _ answer => answer.isOk
  | .offsets answer => answer.isOk
  | _ => true

/-- A commit is asked for where every part succeeded and nothing is buffered. -/
def WholeCommits (log : ProducerLog) : Prop :=
  ∀ before after answer p, log = before ++ (ProducerEvent.ended true answer, p) :: after →
    (∀ entry ∈ sinceBegan before, returnedOk entry.1 = true) ∧ p.pending = ∅

/-- Put on the wire, or told to a caller as if. -/
def isRequest : ProducerEvent → Bool
  | .identified _ | .claimed _ _ | .offsets _ | .sent _ _ _ | .acked _ _ | .delivered _ _ |
    .ended _ _ => true
  | _ => false

variable {log new : ProducerLog} {event : ProducerEvent} {p : Producer}

theorem WholeCommits.append (h : WholeCommits log)
    (hnew : ∀ answer, event = .ended true answer →
      (∀ entry ∈ sinceBegan log, returnedOk entry.1 = true) ∧ p.pending = ∅) :
    WholeCommits (log ++ [(event, p)]) := by
  intro before after answer q heq
  rcases append_singleton_eq_append_cons heq with ⟨after', hlog⟩ | ⟨rfl, hentry, _⟩
  · exact h before after' answer q hlog
  · cases hentry
    exact hnew answer rfl

theorem sinceBegan_appends (h : ∀ entry ∈ new, entry.1 ≠ .began) :
    sinceBegan (log ++ new) = sinceBegan log ++ new := by
  induction new generalizing log with
  | nil => rw [List.append_nil, List.append_nil]
  | cons entry rest ih =>
      obtain ⟨event, p⟩ := entry
      have hrest : sinceBegan (log ++ [(event, p)] ++ rest) =
        sinceBegan (log ++ [(event, p)]) ++ rest :=
        ih fun e he => h e (List.mem_cons_of_mem _ he)
      rw [sinceBegan_append (h _ List.mem_cons_self), List.append_assoc, List.append_assoc] at hrest
      exact hrest

end Whole

section Sound

variable {codecs : Codecs} {config : ProducerConfig}
  {okExec okDrop : ProducerOp → ProducerChoice → ProducerWorld → Bool}
  {s t u v w : ProducerWorld} {key : PartitionKey} {keys : List PartitionKey} {record : Record}
  {records : List Record} {parcel : Parcel} {parcels : List Parcel} {pending : PendingBatch}
  {event : ProducerEvent}

def isBegan : ProducerEvent → Bool
  | .began => true
  | _ => false

/-- An event inside a transaction that tells of no failure. -/
def Fine (event : ProducerEvent) : Prop := returnedOk event = true ∧ isBegan event = false

/-- Where the transaction is still open nothing has failed. -/
def Sound (s t : ProducerWorld) : Prop := t.producer.txnState = .opened → Tells Fine s t

theorem Sound.of_tells (h : Tells Fine s t) : Sound s t := fun _ => h

theorem not_opened_of_poison (state : TransactionState) (e : ClientError) :
    afterFailure state e ≠ .opened := by
  cases state <;> simp only [afterFailure] <;> first | (split <;> exact fun h => (by cases h)) |
    exact fun h => (by cases h)

theorem Sound.poisoned (e : ClientError) : Sound s (poisoned t e) :=
  fun hopened => absurd hopened (not_opened_of_poison _ e)

theorem Sound.after (h : Tells Fine s t) (h' : Sound t u) : Sound s u :=
  fun hopened => h.trans (h' hopened)

theorem Sound.before (h : Sound s t) (h' : Tells Fine t u)
    (hstate : u.producer.txnState = t.producer.txnState) : Sound s u :=
  fun hopened => (h (hstate ▸ hopened)).trans h'

theorem tells_claims (h : Claims config okExec okDrop keys s (some (.ok ())) t) : Tells Fine s t :=
  h.buffers.2.mono fun _ ⟨_, hanswer, hevent⟩ => (by cases hanswer; rw [hevent]; exact ⟨rfl, rfl⟩)

theorem sound_claims {e : ClientError}
    (h : Claims config okExec okDrop keys s (some (.error e)) t) :
    Sound s t := by
  cases h with
  | refused _ _ _ => exact .of_tells .refl
  | answered _ answers _ _ _ _ _ _ =>
      exact Sound.poisoned
        (t := told s (.claimed (s.producer.unclaimed keys) (.error e))
          (s.announced || applied answers)) e

theorem tells_stamps {n : Nat} {out : Option (Except ClientError (Option BatchStamp))}
    (h : Stamps config okExec okDrop key n s out t) : Tells Fine s t :=
  h.buffers.2.mono fun _ ⟨_, hevent, _⟩ => (by rw [hevent]; exact ⟨rfl, rfl⟩)

theorem tells_stampsAll {batches : List (PartitionKey × PendingBatch)} {stamped : List Parcel}
    {out : Option (Except ClientError (List Parcel))}
    (h : StampsAll config okExec okDrop batches stamped s out t) : Tells Fine s t := by
  induction h with
  | nil => exact .refl
  | cons _ _ _ hstamp _ ih => exact (tells_stamps hstamp).trans ih
  | failed key pending _ hstamp =>
      exact (tells_stamps hstamp).trans (.of_eq log_restoredAll)
  | dropped _ _ hstamp => exact tells_stamps hstamp

theorem tells_delivers {offset : Int64}
    (h : Delivers codecs config okExec okDrop parcel s (some (.ok offset)) t) : Tells Fine s t := by
  cases h with
  | landed flight _ _ _ =>
      exact (fly_tells (fun _ _ => ⟨rfl, rfl⟩) ⟨rfl, rfl⟩).trans
        (.noted ⟨rfl, rfl⟩)

theorem tells_remove : Tells Fine s (s.remove key).2 := .of_eq rfl

theorem tells_drain : Tells Fine s (s.drain keys).2 :=
  Tells.trans (t := { s with
    producer := { s.producer with pending := ∅ }
    held := (s.drain keys).1.map fun batch => (batch.1, batch.2.records) }) (.of_eq rfl)
    (.noted ⟨rfl, rfl⟩)

theorem sound_flushesPartition {r : Except ClientError Delivery}
    (h : FlushesPartition codecs config okExec okDrop key s (some r) t) : Sound s t := by
  cases h with
  | unclaimed e u hclaims =>
      exact Sound.before (Sound.after tells_remove (sound_claims hclaims)) (.of_eq rfl) rfl
  | unstamped e u v hclaims hstamps =>
      exact .of_tells (tells_remove.trans ((tells_claims hclaims).trans
        ((tells_stamps hstamps).trans (.of_eq rfl))))
  | delivered stamp _ u v _ hclaims hstamps hdelivers =>
      exact .of_tells (tells_remove.trans ((tells_claims hclaims).trans
        ((tells_stamps hstamps).trans (tells_delivers hdelivers))))
  | failed stamp e u v w hclaims hstamps hdelivers => exact .poisoned e

/-- A flush that returns `Ok` has delivered all there was. -/
theorem tells_flushes {deliveries : List Delivery}
    (h : Flushes codecs config okExec okDrop s (some (.ok deliveries)) t) :
    Tells Fine s t ∧ t.producer.pending = ∅ := by
  cases h with
  | empty _ => exact ⟨tells_drain, rfl⟩
  | delivered keys stamped flights outcomes _ u v w hperm _ hclaims hstamps _ hdeliver hnone =>
      have hall := (failureOf_none hnone).2
      have hdelivered : Tells Fine v w := by
        refine deliver_tells (fun _ _ _ => ⟨rfl, rfl⟩) (fun _ _ => ⟨rfl, rfl⟩)
          (fun result hmem => ?_) hdeliver
        obtain ⟨offset, hoffset⟩ := hall result hmem
        rw [hoffset]
        exact ⟨rfl, rfl⟩
      rw [settled_of_ok hall]
      refine ⟨tells_drain.trans ((tells_claims hclaims).trans
        ((tells_stampsAll hstamps).trans hdelivered)), ?_⟩
      rw [(deliver_log hdeliver).1, (stampsAll_ok hstamps rfl).2.1, hclaims.buffers.1]
      rfl

theorem sound_flushes {r : Except ClientError (List Delivery)}
    (h : Flushes codecs config okExec okDrop s (some r) t) : Sound s t := by
  cases r with
  | ok deliveries => exact .of_tells (tells_flushes h).1
  | error e =>
      cases h with
      | unclaimed keys _ u _ _ hclaims =>
          have hrestored : Tells Fine u (restoredAll u (s.drain keys).1) := .of_eq log_restoredAll
          exact Sound.before (Sound.after tells_drain (sound_claims hclaims)) hrestored
            txnState_restoredAll
      | unstamped keys _ u _ _ _ hclaims hstamps =>
          exact .of_tells
            (tells_drain.trans ((tells_claims hclaims).trans (tells_stampsAll hstamps)))
      | failed _ _ _ _ worst _ _ _ _ _ _ _ _ _ _ => exact .poisoned worst.2

theorem sound_enqueues {r : Except ClientError (Option Delivery)}
    (h : Enqueues codecs config okExec okDrop key record s (some r) t) : Sound s t := by
  have hpushed : Tells Fine s (pushed s key record) := .of_eq rfl
  cases h with
  | buffered => exact .of_tells (hpushed.trans (.noted ⟨rfl, rfl⟩))
  | flushed _ u hflush =>
      exact Sound.before (Sound.after hpushed (sound_flushesPartition hflush))
        (.noted ⟨rfl, rfl⟩) rfl
  | failed _ _ hflush => exact Sound.after hpushed (sound_flushesPartition hflush)

theorem sound_enqueuesKeyed {topic : String} {r : Except ClientError (Option Delivery)}
    (h : EnqueuesKeyed codecs config okExec okDrop topic record s (some r) t) : Sound s t := by
  cases h with
  | unrouted _ => exact .of_tells .refl
  | routed _ cursor _ _ henqueues =>
      have hrotated : Tells Fine s (rotated s cursor) := .of_eq rfl
      exact Sound.after hrotated (sound_enqueues henqueues)

theorem sound_produces {r : Except ClientError Int64}
    (h : Produces codecs config okExec okDrop key records s (some r) t) : Sound s t := by
  cases h with
  | unclaimed _ _ hclaims => exact sound_claims hclaims
  | unstamped _ u _ hclaims hstamps =>
      exact .of_tells ((tells_claims hclaims).trans (tells_stamps hstamps))
  | delivered stamp _ u v _ hclaims hstamps hdelivers =>
      exact .of_tells ((tells_claims hclaims).trans ((tells_stamps hstamps).trans
        (tells_delivers hdelivers)))
  | failed stamp e u v w hclaims hstamps hdelivers => exact .poisoned e

/-- What holds between calls. -/
structure Whole (s : ProducerWorld) : Prop where
  parts : s.producer.txnState = .opened → ∀ entry ∈ sinceBegan s.log, returnedOk entry.1 = true
  log : WholeCommits s.log

theorem parts_of_tells (hs : ∀ entry ∈ sinceBegan s.log, returnedOk entry.1 = true)
    (h : Tells Fine s t) : ∀ entry ∈ sinceBegan t.log, returnedOk entry.1 = true := by
  obtain ⟨new, hnew, hall⟩ := h
  rw [hnew, sinceBegan_appends fun entry hmem heq => (by
    have hbegan := (hall entry hmem).2
    rw [heq] at hbegan
    cases hbegan)]
  intro entry hmem
  exact (List.mem_append.mp hmem).elim (hs entry) fun hentry => (hall entry hentry).1

theorem Whole.sound (h : Whole s) (hadvances : Advances s t) (hsound : Sound s t)
    (hlog : WholeCommits t.log) : Whole t := by
  refine ⟨fun hopened => parts_of_tells (h.parts ?_) (hsound hopened), hlog⟩
  rcases hadvances.state with heq | ⟨_, ht⟩ | ⟨_, ht⟩
  · exact heq ▸ hopened
  · rw [ht] at hopened; cases hopened
  · rw [ht] at hopened; cases hopened

theorem whole_frame :
    Frame codecs config okExec okDrop (fun w => WholeCommits w.log) fun _ => True :=
  plain_frame fun _ _ _ hlog hplain =>
    hlog.append fun _ heq => (by rw [heq] at hplain; cases hplain)

/-- The transaction is over, or an error was left. -/
theorem Whole.closed (hlog : WholeCommits t.log) (hstate : t.producer.txnState ≠ .opened) :
    Whole t :=
  ⟨fun hopened => absurd hopened hstate, hlog⟩

theorem Whole.endsTransaction {committed : Bool} {r : Except ClientError Unit}
    (hlog : WholeCommits s.log)
    (hparts : committed = true → (∀ entry ∈ sinceBegan s.log, returnedOk entry.1 = true) ∧
      s.producer.pending = ∅)
    (hequipped : ∃ txn, s.producer.txn config = .ok txn)
    (hends : EndsTransaction config okExec committed s r t) : Whole t := by
  cases hends with
  | refused _ herror =>
      obtain ⟨txn, htxn⟩ := hequipped
      rw [htxn] at herror
      cases herror
  | answered _ answers _ _ _ _ =>
      refine .closed (hlog.append fun answer heq => ?_) ?_
      · cases heq
        exact hparts rfl
      · cases r with
        | ok _ => exact fun heq => (by cases heq)
        | error e => exact not_opened_of_poison _ e

theorem Whole.committing {deliveries : List Delivery} {r : Except ClientError Unit}
    (h : Whole s) (hequipped : Equipped config s.producer)
    (hopened : s.producer.txnState = .opened)
    (hflushes : Flushes codecs config okExec okDrop s (some (.ok deliveries)) u)
    (hends : EndsTransaction config okExec true u r t) : Whole t := by
  have hadvances : Advances s u := (Advances.frame s).flushes .refl hflushes
  obtain ⟨htells, hpending⟩ := tells_flushes hflushes
  refine Whole.endsTransaction (whole_frame.flushes h.log hflushes)
    (fun _ => ⟨parts_of_tells (h.parts hopened) htells, hpending⟩) ?_ hends
  obtain ⟨txn, htxn⟩ := hequipped.txn (.inl hopened)
  have hidentity := hadvances.identity (hequipped.identified (.inr (.inl hopened)))
  refine ⟨txn, ?_⟩
  unfold Producer.txn at htxn ⊢
  rw [hidentity]
  exact htxn

theorem Whole.noted (h : Whole s) (hfine : Fine event)
    (hnew : ∀ answer, event ≠ .ended true answer) :
    Whole (s.note event) :=
  h.sound (.of_eq rfl rfl) (.of_tells (.noted hfine))
    (h.log.append fun answer heq => absurd heq (hnew answer))

/-- Every call leaves the transaction whole. -/
theorem Whole.call {call : ProducerCall} {r : Except ClientError Unit} (h : Whole s)
    (hequipped : Equipped config s.producer)
    (hcall : CallEnds codecs config okExec okDrop s call (some r) t) : Whole t := by
  generalize hout : some r = out at hcall
  cases hcall with
  | initTransactions _ _ hinit =>
      cases hinit with
      | refused _ => exact h
      | unissued answers e hstate _ =>
          refine .closed (h.log.append fun _ heq => by cases heq) ?_
          change s.producer.txnState ≠ .opened
          rw [hstate]
          exact fun heq => (by cases heq)
      | issued answers identity _ _ _ _ =>
          exact .closed ((h.log.append fun _ heq => by cases heq).append fun _ heq => by cases heq)
            fun heq => (by cases heq)
  | beginTransaction _ _ hbegin =>
      cases hbegin with
      | refused _ _ => exact h
      | begun hready =>
          refine ⟨fun _ entry hmem => ?_, h.log.append fun _ heq => by cases heq⟩
          have hnone : sinceBegan (begun s).log = [] := by
            change sinceBegan (s.log ++ [(.began, s.producer)]) = []
            rw [sinceBegan, List.foldl_append]
            rfl
          rw [hnone] at hmem
          cases hmem
  | enqueue _ _ out _ henqueues =>
      obtain ⟨r', rfl⟩ : ∃ r', out = some r' := by
        cases out with
        | none => cases hout
        | some r' => exact ⟨r', rfl⟩
      exact h.sound ((Advances.frame s).enqueues .refl henqueues) (sound_enqueues henqueues)
        (whole_frame.enqueues h.log henqueues)
  | enqueueKeyed _ _ out _ henqueues =>
      obtain ⟨r', rfl⟩ : ∃ r', out = some r' := by
        cases out with
        | none => cases hout
        | some r' => exact ⟨r', rfl⟩
      exact h.sound ((Advances.frame s).enqueuesKeyed .refl henqueues)
        (sound_enqueuesKeyed henqueues) (whole_frame.enqueuesKeyed h.log henqueues)
  | produce _ _ out _ hproduces =>
      obtain ⟨r', rfl⟩ : ∃ r', out = some r' := by
        cases out with
        | none => cases hout
        | some r' => exact ⟨r', rfl⟩
      exact h.sound ((Advances.frame s).produces .refl hproduces) (sound_produces hproduces)
        (whole_frame.produces h.log hproduces)
  | flush out _ hflushes =>
      obtain ⟨r', rfl⟩ : ∃ r', out = some r' := by
        cases out with
        | none => cases hout
        | some r' => exact ⟨r', rfl⟩
      exact h.sound ((Advances.frame s).flushes .refl hflushes) (sound_flushes hflushes)
        (whole_frame.flushes h.log hflushes)
  | sendOffsets _ _ r' _ hsends =>
      cases hsends with
      | refused _ _ => exact h
      | unannounced _ _ answers e _ _ _ _ =>
          exact .closed (h.log.append fun _ heq => by cases heq) (not_opened_of_poison _ e)
      | nothing _ _ answers _ _ _ _ =>
          exact h.sound (.of_eq rfl rfl) (.of_tells (.noted ⟨rfl, rfl⟩))
            (h.log.append fun _ heq => by cases heq)
      | answered _ _ _ answers answers' _ _ _ _ _ _ _ =>
          have hlog : WholeCommits (((offsetsTold s answers (.ok ())).note (.offsets r')).log) :=
            (h.log.append fun _ heq => by cases heq).append fun _ heq => by cases heq
          cases r' with
          | ok _ =>
              have hannounced : Tells Fine s (offsetsTold s answers (.ok ())) := .noted ⟨rfl, rfl⟩
              exact h.sound (.of_eq rfl rfl) (.of_tells (hannounced.trans (.noted ⟨rfl, rfl⟩))) hlog
          | error e => exact .closed hlog (not_opened_of_poison _ e)
  | commitTransaction _ _ hcommits =>
      cases hcommits with
      | refused _ _ => exact h
      | unflushed e u _ hflushes =>
          have hlog : WholeCommits u.log := whole_frame.flushes h.log hflushes
          exact .closed hlog (not_opened_of_poison _ e)
      | failed _ _ u _ hopened hflushes hends =>
          exact h.committing hequipped hopened hflushes hends
      | committed _ u v hopened hflushes hends =>
          have hv := h.committing hequipped hopened hflushes hends
          exact hv.noted ⟨rfl, rfl⟩ fun _ heq => by cases heq
  | abortTransaction _ _ haborts =>
      cases haborts with
      | refused _ _ _ => exact h
      | ended _ _ hstate hends =>
          exact Whole.endsTransaction (s := discarded s) h.log (fun heq => by cases heq)
            (hequipped.txn hstate) hends

end Sound

section Fenced

variable {codecs : Codecs} {config : ProducerConfig}
  {okExec okDrop : ProducerOp → ProducerChoice → ProducerWorld → Bool}
  {s t u : ProducerWorld} {key : PartitionKey} {keys : List PartitionKey} {record : Record}

def Hushed (s t : ProducerWorld) : Prop :=
  t.producer.txnState = .fenced ∧ Tells (fun event => isRequest event = false) s t

theorem Hushed.of_eq (hs : s.producer.txnState = .fenced)
    (hstate : t.producer.txnState = s.producer.txnState) (hlog : t.log = s.log) : Hushed s t :=
  ⟨hstate.trans hs, .of_eq hlog⟩

theorem refused_of_fenced {out : Option (Except ClientError Unit)}
    (hs : s.producer.txnState = .fenced) (h : Claims config okExec okDrop keys s out t) :
    (∃ e, out = some (.error e)) ∧ t = s := by
  have hnot : s.producer.txnState ≠ .opened := fun hopened => (by rw [hs] at hopened; cases hopened)
  cases h with
  | unneeded hneed =>
      rcases hneed with hdisabled | ⟨hopened, _⟩
      · rw [hs] at hdisabled
        cases hdisabled
      · exact absurd hopened hnot
  | refused e _ _ => exact ⟨⟨e, rfl⟩, rfl⟩
  | answered _ _ _ hopened _ _ _ _ => exact absurd hopened hnot
  | dropped _ _ hopened _ => exact absurd hopened hnot

theorem hushed_flushesPartition {out : Option (Except ClientError Delivery)}
    (hs : s.producer.txnState = .fenced)
    (h : FlushesPartition codecs config okExec okDrop key s out t) : Hushed s t := by
  have hremoved : (s.remove key).2.producer.txnState = .fenced := hs
  cases h with
  | unclaimed _ _ hclaims =>
      obtain ⟨_, rfl⟩ := refused_of_fenced hremoved hclaims
      exact .of_eq hs rfl rfl
  | claimDropped _ hclaims =>
      obtain ⟨_, rfl⟩ := refused_of_fenced hremoved hclaims
      exact .of_eq hs rfl rfl
  | unstamped _ _ _ hclaims _ | stampDropped _ _ hclaims _ | delivered _ _ _ _ _ hclaims _ _
  | failed _ _ _ _ _ hclaims _ _ | deliveryDropped _ _ _ _ hclaims _ _ =>
      obtain ⟨⟨_, heq⟩, _⟩ := refused_of_fenced hremoved hclaims
      cases heq

theorem hushed_flushes {out : Option (Except ClientError (List Delivery))}
    (hs : s.producer.txnState = .fenced) (h : Flushes codecs config okExec okDrop s out t) :
    Hushed s t := by
  have hdrained : ∀ keys, (s.drain keys).2.producer.txnState = .fenced := fun _ => hs
  have hdrain : ∀ keys, Tells (fun event => isRequest event = false) s (s.drain keys).2 :=
    fun keys => ⟨_, rfl, fun entry hmem => (by rw [List.mem_singleton.mp hmem]; rfl)⟩
  cases h with
  | empty _ => exact ⟨hs, hdrain []⟩
  | unclaimed keys _ u _ _ hclaims =>
      obtain ⟨_, rfl⟩ := refused_of_fenced (hdrained keys) hclaims
      exact ⟨txnState_restoredAll.trans hs, (hdrain keys).trans (.of_eq log_restoredAll)⟩
  | claimDropped keys _ _ _ hclaims | unstamped keys _ _ _ _ _ hclaims _
  | stampDropped keys _ _ _ _ hclaims _ | delivered keys _ _ _ _ _ _ _ _ _ hclaims _ _ _ _
  | failed keys _ _ _ _ _ _ _ _ _ hclaims _ _ _ _
  | deliveryDropped keys _ _ _ _ _ _ _ hclaims _ _ _ =>
      obtain ⟨⟨_, heq⟩, _⟩ := refused_of_fenced (hdrained keys) hclaims
      cases heq

theorem hushed_enqueues {out : Option (Except ClientError (Option Delivery))}
    (hs : s.producer.txnState = .fenced)
    (h : Enqueues codecs config okExec okDrop key record s out t) : Hushed s t := by
  have hpushed : (pushed s key record).producer.txnState = .fenced := hs
  have htells : Tells (fun event => isRequest event = false) s (pushed s key record) := .of_eq rfl
  cases h with
  | buffered => exact ⟨hs, htells.trans (.noted rfl)⟩
  | flushed _ u hflush =>
      obtain ⟨hu, hnew⟩ := hushed_flushesPartition hpushed hflush
      exact ⟨hu, (htells.trans hnew).trans (.noted rfl)⟩
  | failed _ _ hflush | dropped _ hflush =>
      obtain ⟨ht, hnew⟩ := hushed_flushesPartition hpushed hflush
      exact ⟨ht, htells.trans hnew⟩

/-- A fenced producer asks for nothing more. -/
theorem Hushed.call {call : ProducerCall} {out : Option (Except ClientError Unit)}
    (hs : s.producer.txnState = .fenced)
    (hcall : CallEnds codecs config okExec okDrop s call out t) : Hushed s t := by
  have hrefl : Hushed s s := .of_eq hs rfl rfl
  have hnot : ∀ {state}, s.producer.txnState = state → state = .fenced :=
    fun hstate => hstate.symm.trans hs
  cases hcall with
  | initTransactions _ _ hinit =>
      cases hinit with
      | refused _ => exact hrefl
      | unissued _ _ hstate _ | issued _ _ hstate _ _ _ => cases hnot hstate
  | beginTransaction _ _ hbegin =>
      cases hbegin with
      | refused _ _ => exact hrefl
      | begun hready => cases hnot hready
  | enqueue _ _ _ _ henqueues => exact hushed_enqueues hs henqueues
  | enqueueKeyed _ _ _ _ henqueues =>
      cases henqueues with
      | unrouted _ => exact hrefl
      | dropped => exact .of_eq hs rfl rfl
      | routed _ cursor _ _ henqueues =>
          obtain ⟨ht, hnew⟩ := hushed_enqueues (s := rotated s cursor) hs henqueues
          exact ⟨ht, hnew⟩
  | produce _ _ _ _ hproduces =>
      cases hproduces with
      | unclaimed _ _ hclaims | claimDropped _ hclaims =>
          obtain ⟨_, rfl⟩ := refused_of_fenced hs hclaims
          exact hrefl
      | unstamped _ _ _ hclaims _ | stampDropped _ _ hclaims _ | delivered _ _ _ _ _ hclaims _ _
      | failed _ _ _ _ _ hclaims _ _ | deliveryDropped _ _ _ _ hclaims _ _ =>
          obtain ⟨⟨_, heq⟩, _⟩ := refused_of_fenced hs hclaims
          cases heq
  | flush _ _ hflushes => exact hushed_flushes hs hflushes
  | sendOffsets _ _ _ _ hsends =>
      cases hsends with
      | refused _ _ => exact hrefl
      | unannounced _ _ _ _ hopened _ _ _ | nothing _ _ _ hopened _ _ _
      | answered _ _ _ _ _ _ hopened _ _ _ _ _ => cases hnot hopened
  | commitTransaction _ _ hcommits =>
      cases hcommits with
      | refused _ _ => exact hrefl
      | unflushed _ _ hopened _ | failed _ _ _ _ hopened _ _ | committed _ _ _ hopened _ _ =>
          cases hnot hopened
  | abortTransaction _ _ haborts =>
      cases haborts with
      | refused _ _ _ => exact hrefl
      | ended _ _ hstate _ => rcases hstate with hstate | hstate <;> cases hnot hstate

end Fenced

section Ready

variable {codecs : Codecs} {config : ProducerConfig}
  {okExec okDrop : ProducerOp → ProducerChoice → ProducerWorld → Bool}
  {s t u : ProducerWorld}

/-- An `EndTxn` came to `Ok` in between. -/
def Closes (s t : ProducerWorld) : Prop :=
  ∃ new committed p, t.log = s.log ++ new ∧ (ProducerEvent.ended committed (.ok ()), p) ∈ new

theorem Advances.ready (h : Advances s t) (ht : t.producer.txnState = .ready) :
    s.producer.txnState = .ready := by
  rcases h.state with heq | ⟨_, heq⟩ | ⟨_, heq⟩
  · exact heq.symm.trans ht
  · rw [heq] at ht; cases ht
  · rw [heq] at ht; cases ht

theorem closes_of_endsTransaction {committed : Bool} {r : Except ClientError Unit}
    (ht : t.producer.txnState = .ready) (h : EndsTransaction config okExec committed s r t) :
    s.producer.txnState = .ready ∨ Closes s t := by
  cases h with
  | refused _ _ => exact .inl ht
  | answered _ answers _ _ _ _ =>
      cases r with
      | ok _ => exact .inr ⟨_, committed, s.producer, rfl, List.mem_singleton_self _⟩
      | error e =>
          exact .inl (Advances.ready (s := told s (.ended committed (.error e))
            (s.announced && !applied answers)) (.poisoned e) ht)

theorem Closes.after (hlog : Tells (fun _ => True) s t) (h : Closes t u) : Closes s u := by
  obtain ⟨before, hbefore, _⟩ := hlog
  obtain ⟨new, committed, p, hnew, hmem⟩ := h
  refine ⟨before ++ new, committed, p, ?_, List.mem_append_right _ hmem⟩
  rw [hnew, hbefore, List.append_assoc]

theorem Closes.noted {event : ProducerEvent} (h : Closes s t) : Closes s (t.note event) := by
  obtain ⟨new, committed, p, hnew, hmem⟩ := h
  refine ⟨new ++ [(event, t.producer)], committed, p, ?_, List.mem_append_left _ hmem⟩
  change t.log ++ _ = _
  rw [hnew, List.append_assoc]

theorem ready_of_commits {r : Except ClientError Unit} (ht : t.producer.txnState = .ready)
    (h : Commits codecs config okExec okDrop s r t) : s.producer.txnState = .ready ∨
    Closes s t := by
  have hflushed : ∀ {deliveries u}, s.producer.txnState = .opened →
      Flushes codecs config okExec okDrop s (some (.ok deliveries)) u →
      ∀ {r v}, v.producer.txnState = .ready → EndsTransaction config okExec true u r v →
        Closes s v := by
    intro deliveries u hopened hflushes r v hv hends
    have hadvances : Advances s u := (Advances.frame s).flushes .refl hflushes
    rcases closes_of_endsTransaction hv hends with hready | hcloses
    · have hs := hadvances.ready hready
      rw [hopened] at hs
      cases hs
    · exact hcloses.after ((tells_flushes hflushes).1.mono fun _ _ => trivial)
  cases h with
  | refused _ _ => exact .inl ht
  | unflushed e u _ hflushes =>
      have hadvances : Advances s u := (Advances.frame s).flushes .refl hflushes
      exact .inl ((hadvances.trans (.poisoned e)).ready ht)
  | failed _ _ u _ hopened hflushes hends => exact .inr (hflushed hopened hflushes ht hends)
  | committed _ u v hopened hflushes hends =>
      exact .inr (hflushed hopened hflushes (v := v) ht hends).noted

/-- A producer is ready by its first `init_transactions` or an `EndTxn` that came
through. -/
theorem ready_of_call {call : ProducerCall} {out : Option (Except ClientError Unit)}
    (ht : t.producer.txnState = .ready)
    (hcall : CallEnds codecs config okExec okDrop s call out t) :
    s.producer.txnState = .ready ∨ (call = .initTransactions ∧ out = some (.ok ())) ∨
      Closes s t := by
  cases hcall with
  | initTransactions r _ hinit =>
      cases hinit with
      | refused _ | unissued _ _ _ _ => exact .inl ht
      | issued _ _ _ _ _ _ => exact .inr (.inl ⟨rfl, rfl⟩)
  | beginTransaction _ _ hbegin =>
      cases hbegin with
      | refused _ _ => exact .inl ht
      | begun hready => exact .inl hready
  | enqueue _ _ _ _ henqueues =>
      have hadvances : Advances s t := (Advances.frame s).enqueues .refl henqueues
      exact .inl (hadvances.ready ht)
  | enqueueKeyed _ _ _ _ henqueues =>
      have hadvances : Advances s t := (Advances.frame s).enqueuesKeyed .refl henqueues
      exact .inl (hadvances.ready ht)
  | produce _ _ _ _ hproduces =>
      have hadvances : Advances s t := (Advances.frame s).produces .refl hproduces
      exact .inl (hadvances.ready ht)
  | flush _ _ hflushes =>
      have hadvances : Advances s t := (Advances.frame s).flushes .refl hflushes
      exact .inl (hadvances.ready ht)
  | sendOffsets _ _ r _ hsends =>
      refine .inl ?_
      cases hsends with
      | refused _ _ | nothing _ _ _ _ _ _ _ => exact ht
      | unannounced _ _ answers e _ _ _ _ =>
          exact Advances.ready (s := offsetsTold s answers (.error e)) (.poisoned e) ht
      | answered _ _ _ answers answers' _ _ _ _ _ _ _ =>
          cases r with
          | ok _ => exact ht
          | error e =>
              exact Advances.ready
                (s := (offsetsTold s answers (.ok ())).note (.offsets (.error e))) (.poisoned e) ht
  | commitTransaction _ _ hcommits => exact (ready_of_commits ht hcommits).imp_right .inr
  | abortTransaction _ _ haborts =>
      cases haborts with
      | refused _ _ _ => exact .inl ht
      | ended _ _ _ hends => exact (closes_of_endsTransaction ht hends).imp_right .inr

end Ready

section Safety

variable {codecs : Codecs} {config : ProducerConfig} {s : ProducerWorld}

theorem whole_of_sessions {okExec okDrop : ProducerOp → ProducerChoice → ProducerWorld → Bool}
    (h : ProducerSessions (ProducerUnder codecs config okExec okDrop) config (fun _ => false) s) :
    Whole s := by
  have hmay : ∀ call : ProducerCall, false = true → call.mayDrop = true := fun _ hdrop => by
    cases hdrop
  have hboth : Equipped config s.producer ∧ Whole s := by
    refine sessions_induction (P := fun s => Equipped config s.producer ∧ Whole s) hmay ?_ ?_ h
    · refine ⟨equipped_of_fresh, fun _ entry hmem => (by cases hmem), fun before _ _ _ heq => ?_⟩
      cases before <;> cases heq
    · intro s call out t ⟨hequipped, hwhole⟩ hdrop hcall
      cases out with
      | none => cases hdrop rfl
      | some r => exact ⟨hequipped.call hcall, hwhole.call hequipped hcall⟩
  exact hboth.2

/-- Every sequence of calls, with every pattern of failures. -/
theorem transaction_safety (codecs : Codecs) (config : ProducerConfig) (s : ProducerWorld)
    (h : ProducerSessions (producerService codecs config) config (fun _ => false) s) :
    WholeCommits s.log ∧ ∀ (call : ProducerCall) (r : Except ClientError Unit)
        (t : ProducerWorld),
      (producerService codecs config).Ends (call.body config) s (some r) t →
        (s.producer.txnState = .fenced → t.producer.txnState = .fenced ∧
          ∃ new, t.log = s.log ++ new ∧ ∀ entry ∈ new, isRequest entry.1 = false) ∧
        (t.producer.txnState = .ready → s.producer.txnState = .ready ∨
          (call = .initTransactions ∧ r = .ok ()) ∨ Closes s t) := by
  rw [← Service.under_true (S := producerService codecs config)] at h
  refine ⟨(whole_of_sessions h).log, fun call r t hends => ?_⟩
  rw [← Service.under_true (S := producerService codecs config)] at hends
  have hcall := ends_call hends fun hnone => by cases hnone
  refine ⟨fun hs => Hushed.call hs hcall, fun ht => ?_⟩
  exact (ready_of_call ht hcall).imp_right (.imp_left fun ⟨hinit, hout⟩ =>
    ⟨hinit, Option.some.inj hout⟩)

def commitRun : List (ProducerCall × List (Turn ProducerChoice)) :=
  bufferRun ++ [(.commitTransaction, [.go .go, .go (.order [("t", 0)]), .go .go,
    .go (.replies [.took ()]), .go .go, .go .go, .go .go, .go .go,
    .go (.flights [{ nowMs := 0, answers := [.took 0] }])] ++ endTurns)]

theorem transaction_safety_once : ∃ s : ProducerWorld,
    (∃ answer p, (ProducerEvent.ended true answer, p) ∈ s.log) ∧ WholeCommits s.log := by
  have hrun : (((producerService Codecs.stored (.transactional "txn")).replayAll
      (ProducerCall.body (.transactional "txn")) (fun _ => false) commitRun
        (.fresh (.transactional "txn"))).map fun s => s.log.any fun entry =>
          match entry.1 with
          | .ended true _ => true
          | _ => false) = some true := by
    decide
  obtain ⟨s, hs, hany⟩ := Option.map_eq_some_iff.mp hrun
  refine ⟨s, ?_, (transaction_safety Codecs.stored (.transactional "txn") s
    (.of_replayAll (.start rfl) hs)).1⟩
  obtain ⟨⟨event, p⟩, hmem, hentry⟩ := List.any_eq_true.mp hany
  cases event with
  | ended committed answer =>
      cases committed with
      | true => exact ⟨answer, p, hmem⟩
      | false => cases hentry
  | _ => cases hentry

end Safety

end Odradek.Client
