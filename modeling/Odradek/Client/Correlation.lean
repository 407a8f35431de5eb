import Odradek.Client.ConnectionSteps
import Odradek.Library.AssocMap
import Odradek.Library.Recorder

/-!
Replies find their requests. Whatever the order of requests, responses, timeouts and
dropped futures, and however often the correlation ids have wrapped, a reply slot
belongs to one request, is filled once, and is in the table while it is empty.
-/

namespace Odradek.Client.Conn.Correlation

open Library Odradek.Protocol ConnWorld

section Journal

/-- What a connection does not keep: the id issued to each request, the request behind
each reply slot, the response frames, and the requests whose slots each of them filled. -/
structure Journal where
  issued : List (Nat × Int32)
  owners : List Nat
  frames : List Bytes
  delivered : List (Nat × Nat)
  dropped : List Nat

def Journal.empty : Journal :=
  { issued := [], owners := [], frames := [], delivered := [], dropped := [] }

/-- A slot holds what came of a frame, and not the end of the connection. -/
def isDelivery : Reply → Bool
  | .sent (.error .connectionClosed) => false
  | .sent _ => true
  | _ => false

/-- The slots that were empty and that reading a frame fills with a response. -/
def filled (w : ConnWorld) (payload : Bytes) : List Nat :=
  (List.range w.replies.length).filter fun reply =>
    w.replies[reply]? == some .waiting && (w.readResponse payload).replies[reply]?.any isDelivery

namespace Journal

def issue (j : Journal) (i : Nat) (correlationId : Int32) : Journal :=
  { j with issued := j.issued ++ [(i, correlationId)] }

def own (j : Journal) (i : Nat) : Journal := { j with owners := j.owners ++ [i] }

def deliver (j : Journal) (w : ConnWorld) (payload : Bytes) : Journal :=
  { j with
    frames := j.frames ++ [payload]
    delivered := j.delivered ++ ((filled w payload).filterMap fun reply => j.owners[reply]?).map
      fun i => (j.frames.length, i) }

end Journal

def journal : Recorder ConnWorld ConnOp ConnChoice ConnWeather Journal :=
  { exec := fun i op _ w j =>
      match op with
      | .nextCorrelation => j.issue i w.correlation
      | .register _ _ => j.own i
      | _ => j
    drop := fun i _ _ j => { j with dropped := j.dropped ++ [i] }
    idle := fun e w j =>
      match e with
      | .response payload => j.deliver w payload
      | _ => j }

abbrev recordedConn (clientId : String) :
    Machine (ConnWorld × Journal) ConnOp ConnOp.Res ConnChoice ConnCall ConnWeather :=
  (connMachine clientId).recorded journal

variable (s : ConnWorld × Journal)

/-- The payload of a response frame that went to the request and bears its own id. -/
def Answered (i : Nat) (body : Bytes) : Prop :=
  ∃ n frame correlationId call version, (n, i) ∈ s.2.delivered ∧ s.2.frames[n]? = some frame ∧
    (i, correlationId) ∈ s.2.issued ∧ peekCorrelationId frame = .ok correlationId ∧
    s.1.calls[i]? = some call ∧
    responseHeaderVersion call.apiKey call.apiVersion = some version ∧
    responseBody version frame = some (.ok body)

def Active (i : Nat) : Prop := (∀ r, (i, r) ∉ s.1.answers) ∧ i ∉ s.2.dropped

/-- A request that waits, with nothing in its reply slot. -/
def Awaits (correlationId : Int32) (pending : Pending) : Prop :=
  ∃ i call, s.2.owners[pending.reply]? = some i ∧ (i, correlationId) ∈ s.2.issued ∧
    s.1.calls[i]? = some call ∧
    responseHeaderVersion call.apiKey call.apiVersion = some pending.responseHeaderVersion ∧
    s.1.replies[pending.reply]? = some .waiting ∧ Active s i

structure Correlated : Prop where
  own : ∀ i body, (i, .ok body) ∈ s.1.answers → Answered s i body
  issuedOnce : ∀ i correlationId correlationId', (i, correlationId) ∈ s.2.issued →
    (i, correlationId') ∈ s.2.issued → correlationId = correlationId'
  deliveredOnce : ∀ n i i', (n, i) ∈ s.2.delivered → (n, i') ∈ s.2.delivered → i = i'
  waiting : ∀ correlationId pending, s.1.inFlight.lookup correlationId = some pending →
    Awaits s correlationId pending

end Journal

section Invariant

variable (s : ConnWorld × Journal)

structure Unseen (i : Nat) : Prop where
  unissued : ∀ correlationId, (i, correlationId) ∉ s.2.issued
  unowned : i ∉ s.2.owners
  active : Active s i

structure Inv : Prop where
  correlated : Correlated s
  slots : s.2.owners.length = s.1.replies.length
  single : ∀ (reply reply' i : Nat), s.2.owners[reply]? = some i → s.2.owners[reply']? = some i →
    reply = reply'
  sent : ∀ (reply : Nat) (body : Bytes), s.1.replies[reply]? = some (.sent (.ok body)) →
    ∃ i, s.2.owners[reply]? = some i ∧ Answered s i body
  framed : ∀ n i, (n, i) ∈ s.2.delivered → n < s.2.frames.length
  known : ∀ i, s.1.calls.length ≤ i → Unseen s i

/-- What the other requests and the reader may do to request `i`. -/
structure Rely (i : Nat) (s t : ConnWorld × Journal) : Prop where
  calls : s.1.calls <+: t.1.calls
  frames : s.2.frames <+: t.2.frames
  delivered : s.2.delivered ⊆ t.2.delivered
  owners : s.2.owners <+: t.2.owners
  issued : ∀ correlationId, (i, correlationId) ∈ t.2.issued ↔ (i, correlationId) ∈ s.2.issued
  own : ∀ reply : Nat, t.2.owners[reply]? = some i → s.2.owners[reply]? = some i
  active : Active s i → Active t i
  table : ∀ correlationId pending, t.1.inFlight.lookup correlationId = some pending →
    t.2.owners[pending.reply]? = some i → s.1.inFlight.lookup correlationId = some pending

variable {s t u : ConnWorld × Journal} {i : Nat} {body : Bytes} {β : Type}

theorem getElem?_of_isPrefix {xs ys : List β} {n : Nat} {x : β} (h : xs <+: ys)
    (hx : xs[n]? = some x) : ys[n]? = some x := by
  obtain ⟨rest, rfl⟩ := h
  rw [List.getElem?_append_left (List.getElem?_eq_some_iff.mp hx).1]
  exact hx

theorem Rely.refl : Rely i s s :=
  ⟨List.prefix_refl _, List.prefix_refl _, List.Subset.refl _, List.prefix_refl _,
    fun _ => Iff.rfl, fun _ => id, id, fun _ _ h _ => h⟩

theorem Rely.trans (h : Rely i s t) (h' : Rely i t u) : Rely i s u := by
  refine ⟨h.calls.trans h'.calls, h.frames.trans h'.frames,
    List.Subset.trans h.delivered h'.delivered,
    h.owners.trans h'.owners, fun c => (h'.issued c).trans (h.issued c),
    fun k hk => h.own k (h'.own k hk), fun ha => h'.active (h.active ha), ?_⟩
  intro correlationId pending hlookup howner
  exact h.table _ _ (h'.table _ _ hlookup howner) (h'.own _ howner)

theorem Answered.rely (h : Answered s i body) (hrely : Rely i s t) : Answered t i body := by
  obtain ⟨n, frame, correlationId, call, version, hn, hframe, hissued, hpeek, hcall, hrest⟩ := h
  exact ⟨n, frame, correlationId, call, version, hrely.delivered hn,
    getElem?_of_isPrefix hrely.frames hframe, (hrely.issued _).mpr hissued, hpeek,
    getElem?_of_isPrefix hrely.calls hcall, hrest⟩

theorem Answered.mono (h : Answered s i body) (hcalls : s.1.calls <+: t.1.calls)
    (hframes : s.2.frames <+: t.2.frames) (hdelivered : s.2.delivered ⊆ t.2.delivered)
    (hissued : s.2.issued ⊆ t.2.issued) : Answered t i body := by
  obtain ⟨n, frame, correlationId, call, version, hn, hframe, hmem, hpeek, hcall, hrest⟩ := h
  exact ⟨n, frame, correlationId, call, version, hdelivered hn,
    getElem?_of_isPrefix hframes hframe, hissued hmem, hpeek,
    getElem?_of_isPrefix hcalls hcall, hrest⟩

/-- A slot is entered under one id. -/
theorem Inv.key_eq (h : Inv s) {correlationId correlationId' : Int32} {pending pending' : Pending}
    (hlookup : s.1.inFlight.lookup correlationId = some pending)
    (hlookup' : s.1.inFlight.lookup correlationId' = some pending')
    (hreply : pending.reply = pending'.reply) : correlationId = correlationId' := by
  obtain ⟨i, _, howner, hissued, _⟩ := h.correlated.waiting _ _ hlookup
  obtain ⟨i', _, howner', hissued', _⟩ := h.correlated.waiting _ _ hlookup'
  rw [hreply, howner'] at howner
  cases howner
  exact h.correlated.issuedOnce i _ _ hissued hissued'

end Invariant

section Settling

/-- Entries leave the table, and their slots are filled with no payload. -/
structure Settles (w u : ConnWorld) : Prop where
  calls : u.calls = w.calls
  answers : u.answers = w.answers
  length : u.replies.length = w.replies.length
  table : ∀ correlationId pending, u.inFlight.lookup correlationId = some pending →
    w.inFlight.lookup correlationId = some pending ∧
      u.replies[pending.reply]? = w.replies[pending.reply]?
  sent : ∀ (reply : Nat) (body : Bytes), u.replies[reply]? = some (.sent (.ok body)) →
    w.replies[reply]? = some (.sent (.ok body))

variable {w u : ConnWorld} {j : Journal} {i : Nat} {body : Bytes} {correlationId : Int32}

theorem Settles.of_same (hcalls : u.calls = w.calls) (hanswers : u.answers = w.answers)
    (hreplies : u.replies = w.replies) (htable : u.inFlight = w.inFlight) : Settles w u :=
  ⟨hcalls, hanswers, congrArg List.length hreplies,
    fun _ _ h => ⟨htable ▸ h, by rw [hreplies]⟩, fun _ _ h => hreplies ▸ h⟩

theorem Settles.trans {v : ConnWorld} (h : Settles w u) (h' : Settles u v) : Settles w v := by
  refine ⟨h'.calls.trans h.calls, h'.answers.trans h.answers, h'.length.trans h.length, ?_,
    fun reply body hsent => h.sent _ _ (h'.sent _ _ hsent)⟩
  intro correlationId pending hlookup
  obtain ⟨hlookup', hreply⟩ := h'.table _ _ hlookup
  obtain ⟨hlookup'', hreply'⟩ := h.table _ _ hlookup'
  exact ⟨hlookup'', hreply.trans hreply'⟩

theorem Settles.answered (h : Settles w u) (ha : Answered (w, j) i body) :
    Answered (u, j) i body := by
  obtain ⟨n, frame, correlationId, call, version, hn, hframe, hissued, hpeek, hcall, hrest⟩ := ha
  exact ⟨n, frame, correlationId, call, version, hn, hframe, hissued, hpeek,
    h.calls.symm ▸ hcall, hrest⟩

theorem Settles.active (h : Settles w u) (ha : Active (w, j) i) : Active (u, j) i :=
  ⟨fun r hr => ha.1 r (h.answers ▸ hr), ha.2⟩

theorem Settles.awaits (h : Settles w u) {pending : Pending}
    (hreply : u.replies[pending.reply]? = w.replies[pending.reply]?)
    (ha : Awaits (w, j) correlationId pending) : Awaits (u, j) correlationId pending := by
  obtain ⟨i, call, howner, hissued, hcall, hversion, hwaiting, hactive⟩ := ha
  exact ⟨i, call, howner, hissued, h.calls.symm ▸ hcall, hversion, hreply.trans hwaiting,
    h.active hactive⟩

/-- Settled entries leave the others as the journal has them. -/
theorem Settles.inv (h : Settles w u) (hinv : Inv (w, j)) : Inv (u, j) := by
  have hcorrelated := hinv.correlated
  refine ⟨⟨?_, hcorrelated.issuedOnce, hcorrelated.deliveredOnce, ?_⟩,
    hinv.slots.trans h.length.symm, hinv.single, ?_, hinv.framed, ?_⟩
  · intro i body hanswer
    exact h.answered (hcorrelated.own i body (h.answers ▸ hanswer))
  · intro correlationId pending hlookup
    obtain ⟨hlookup', hreply⟩ := h.table _ _ hlookup
    exact h.awaits hreply (hcorrelated.waiting _ _ hlookup')
  · intro reply body hsent
    obtain ⟨i, howner, hanswered⟩ := hinv.sent _ _ (h.sent _ _ hsent)
    exact ⟨i, howner, h.answered hanswered⟩
  · intro i hi
    have hunseen := hinv.known i (h.calls ▸ hi)
    exact ⟨hunseen.unissued, hunseen.unowned, h.active hunseen.active⟩

theorem Settles.rely (h : Settles w u) : Rely i (w, j) (u, j) :=
  ⟨h.calls ▸ List.prefix_refl _, List.prefix_refl _, List.Subset.refl _, List.prefix_refl _,
    fun _ => Iff.rfl, fun _ => id, h.active, fun _ _ hlookup _ => (h.table _ _ hlookup).1⟩

section Filling

variable {payload : Bytes} {reply reply' : Nat} {pending : Pending}

/-- The end of the connection leaves a slot alone or fills it with an error. -/
theorem failAll_reply (w : ConnWorld) (reply : Nat) :
    w.failAll.replies[reply]? = w.replies[reply]? ∨
    w.failAll.replies[reply]? = some (.sent (.error .connectionClosed)) := by
  have hfold : ∀ (entries : List (Sigma fun _ : Int32 => Pending)) (w : ConnWorld),
      let closed := (entries.foldl (fun w entry =>
        w.setReply entry.2.reply (.sent (.error .connectionClosed))) w).replies[reply]?
      closed = w.replies[reply]? ∨ closed = some (.sent (.error .connectionClosed)) := by
    intro entries
    induction entries with
    | nil => exact fun w => .inl rfl
    | cons entry rest ih =>
        intro w
        have hset : (w.setReply entry.2.reply (.sent (.error .connectionClosed))).replies[reply]? =
            w.replies[reply]? ∨
            (w.setReply entry.2.reply (.sent (.error .connectionClosed))).replies[reply]? =
              some (.sent (.error .connectionClosed)) := by
          by_cases heq : entry.2.reply = reply
          · by_cases hlt : reply < w.replies.length
            · exact .inr (heq ▸ List.getElem?_set_self (heq ▸ hlt))
            · have hlength : (w.setReply entry.2.reply
                  (.sent (.error .connectionClosed))).replies.length = w.replies.length :=
                List.length_set
              refine .inl ?_
              rw [List.getElem?_eq_none (by omega), List.getElem?_eq_none (by omega)]
          · exact .inl (List.getElem?_set_ne heq)
        rcases ih (w.setReply entry.2.reply (.sent (.error .connectionClosed))) with h | h
        · rcases hset with hset | hset
          · exact .inl (h.trans hset)
          · exact .inr (h.trans hset)
        · exact .inr h
  exact hfold w.inFlight.entries w

/-- A frame fills no slot but the one its correlation id stands for. -/
theorem eq_of_mem_filled (h : reply ∈ filled w payload) :
    ∃ correlationId pending, peekCorrelationId payload = .ok correlationId ∧
      w.inFlight.lookup correlationId = some pending ∧ reply = pending.reply := by
  obtain ⟨_, hfilled⟩ := List.mem_filter.mp h
  obtain ⟨hwaiting, hdelivery⟩ := Bool.and_eq_true_iff.mp hfilled
  have hwaiting := eq_of_beq hwaiting
  have hfailed : w.failAll.replies[reply]?.any isDelivery ≠ true := by
    rcases failAll_reply w reply with heq | heq
    · rw [heq, hwaiting]
      decide
    · rw [heq]
      decide
  unfold readResponse at hdelivery
  split at hdelivery
  next => exact absurd hdelivery hfailed
  next correlationId hpeek =>
      split at hdelivery
      next => exact absurd hdelivery hfailed
      next pending hlookup =>
          refine ⟨correlationId, pending, hpeek, hlookup, ?_⟩
          by_contra hne
          dsimp only at hdelivery
          split at hdelivery
          all_goals
            rw [setReply, List.getElem?_set_ne (Ne.symm hne), hwaiting] at hdelivery
            cases hdelivery

theorem filled_unique (h : reply ∈ filled w payload) (h' : reply' ∈ filled w payload) :
    reply = reply' := by
  obtain ⟨_, _, hpeek, hlookup, rfl⟩ := eq_of_mem_filled h
  obtain ⟨_, _, hpeek', hlookup', rfl⟩ := eq_of_mem_filled h'
  cases hpeek.symm.trans hpeek'
  cases hlookup.symm.trans hlookup'
  rfl

theorem mem_filled (hpeek : peekCorrelationId payload = .ok correlationId)
    (hlookup : w.inFlight.lookup correlationId = some pending)
    (hwaiting : w.replies[pending.reply]? = some .waiting)
    (hbody : responseBody pending.responseHeaderVersion payload = some (.ok body)) :
    pending.reply ∈ filled w payload := by
  have hlt := (List.getElem?_eq_some_iff.mp hwaiting).1
  have hread : (w.readResponse payload).replies[pending.reply]? = some (.sent (.ok body)) := by
    simp only [readResponse, hpeek, hlookup, hbody]
    exact List.getElem?_set_self hlt
  refine List.mem_filter.mpr ⟨List.mem_range.mpr hlt, ?_⟩
  rw [hwaiting, hread]
  rfl

end Filling

/-- Putting a frame on record keeps the journal's account. -/
theorem Inv.deliver (hinv : Inv (w, j)) (payload : Bytes) : Inv (w, j.deliver w payload) := by
  have hgrown : ∀ {i body}, Answered (w, j) i body → Answered (w, j.deliver w payload) i body :=
    fun h => h.mono (List.prefix_refl _) (List.prefix_append _ _) (List.subset_append_left _ _)
      (List.Subset.refl _)
  have hnew : ∀ {n i}, (n, i) ∈ (j.deliver w payload).delivered → (n, i) ∉ j.delivered →
      n = j.frames.length ∧ ∃ reply ∈ filled w payload, j.owners[reply]? = some i := by
    intro n i hmem hold
    rcases List.mem_append.mp hmem with hmem | hmem
    · exact absurd hmem hold
    · obtain ⟨i', hi', heq⟩ := List.mem_map.mp hmem
      cases heq
      exact ⟨rfl, List.mem_filterMap.mp hi'⟩
  have hcorrelated := hinv.correlated
  refine ⟨⟨fun i body h => hgrown (hcorrelated.own i body h), hcorrelated.issuedOnce, ?_,
    hcorrelated.waiting⟩, hinv.slots, hinv.single, fun reply body hsent => ?_, ?_, fun i hi => ?_⟩
  · intro n i i' hi hi'
    by_cases hold : (n, i) ∈ j.delivered <;> by_cases hold' : (n, i') ∈ j.delivered
    · exact hcorrelated.deliveredOnce n i i' hold hold'
    · exact absurd (hnew hi' hold').1 (Nat.ne_of_lt (hinv.framed n i hold))
    · exact absurd (hnew hi hold).1 (Nat.ne_of_lt (hinv.framed n i' hold'))
    · obtain ⟨_, reply, hreply, howner⟩ := hnew hi hold
      obtain ⟨_, reply', hreply', howner'⟩ := hnew hi' hold'
      rw [filled_unique hreply hreply'] at howner
      exact Option.some.inj (howner.symm.trans howner')
  · obtain ⟨i, howner, hanswered⟩ := hinv.sent _ _ hsent
    exact ⟨i, howner, hgrown hanswered⟩
  · intro n i hmem
    rw [Journal.deliver, List.length_append]
    by_cases hold : (n, i) ∈ j.delivered
    · exact Nat.lt_add_right _ (hinv.framed n i hold)
    · rw [(hnew hmem hold).1]
      exact Nat.lt_succ_self _
  · have hunseen := hinv.known i hi
    exact ⟨hunseen.unissued, hunseen.unowned, hunseen.active⟩

theorem rely_deliver (payload : Bytes) : Rely i (w, j) (w, j.deliver w payload) :=
  ⟨List.prefix_refl _, List.prefix_append _ _, List.subset_append_left _ _, List.prefix_refl _,
    fun _ => Iff.rfl, fun _ => id, id, fun _ _ h _ => h⟩

/-- A slot that no entry points to any more is filled. -/
theorem Inv.setReply (hinv : Inv (w, j)) {reply : Nat} {r : Reply}
    (hfree : ∀ correlationId pending, w.inFlight.lookup correlationId = some pending →
      pending.reply ≠ reply)
    (hsent : ∀ body, r = .sent (.ok body) →
      ∃ i, j.owners[reply]? = some i ∧ Answered (w, j) i body) :
    Inv (w.setReply reply r, j) := by
  have hcorrelated := hinv.correlated
  have hlength : (w.setReply reply r).replies.length = w.replies.length := List.length_set
  refine ⟨⟨hcorrelated.own, hcorrelated.issuedOnce, hcorrelated.deliveredOnce, ?_⟩,
    hinv.slots.trans hlength.symm, hinv.single, ?_, hinv.framed, fun i hi => ?_⟩
  · intro correlationId pending hlookup
    obtain ⟨i, call, howner, hissued, hcall, hversion, hwaiting, hactive⟩ :=
      hcorrelated.waiting _ _ hlookup
    refine ⟨i, call, howner, hissued, hcall, hversion, ?_, hactive⟩
    exact (List.getElem?_set_ne (hfree _ _ hlookup).symm).trans hwaiting
  · intro reply' body hreply
    by_cases heq : reply = reply'
    · subst heq
      have hlt : reply < w.replies.length :=
        hlength ▸ (List.getElem?_eq_some_iff.mp hreply).1
      have hset : (w.setReply reply r).replies[reply]? = some r := List.getElem?_set_self hlt
      exact hsent body (Option.some.inj (hset.symm.trans hreply))
    · have hset : (w.setReply reply r).replies[reply']? = w.replies[reply']? :=
        List.getElem?_set_ne heq
      exact hinv.sent _ _ (hset.symm.trans hreply)
  · have hunseen := hinv.known i hi
    exact ⟨hunseen.unissued, hunseen.unowned, hunseen.active⟩

theorem rely_setReply {reply : Nat} {r : Reply} : Rely i (w, j) (w.setReply reply r, j) :=
  ⟨List.prefix_refl _, List.prefix_refl _, List.Subset.refl _, List.prefix_refl _,
    fun _ => Iff.rfl, fun _ => id, id, fun _ _ h _ => h⟩

theorem settles_erase (correlationId : Int32) :
    Settles w { w with inFlight := w.inFlight.erase correlationId } :=
  ⟨rfl, rfl, rfl, fun _ _ h => ⟨(lookup_erase_cases h).2, rfl⟩, fun _ _ h => h⟩

/-- An entry taken out leaves its slot to nobody else. -/
theorem Inv.reply_ne (hinv : Inv (w, j)) {pending : Pending}
    (hlookup : w.inFlight.lookup correlationId = some pending) {correlationId' : Int32}
    {pending' : Pending}
    (hlookup' : (w.inFlight.erase correlationId).lookup correlationId' = some pending') :
    pending'.reply ≠ pending.reply := by
  obtain ⟨hne, hold⟩ := lookup_erase_cases hlookup'
  exact fun hreply => hne (hinv.key_eq hold hlookup hreply)

theorem settles_unregister (hinv : Inv (w, j)) (correlationId : Int32) :
    Settles w (w.unregister correlationId) := by
  unfold unregister
  cases hlookup : w.inFlight.lookup correlationId with
  | none => exact settles_erase correlationId
  | some pending =>
      refine ⟨rfl, rfl, List.length_set, fun correlationId' pending' hlookup' => ?_, ?_⟩
      · refine ⟨(lookup_erase_cases hlookup').2, ?_⟩
        exact List.getElem?_set_ne (hinv.reply_ne hlookup hlookup').symm
      · intro reply body hreply
        by_cases heq : pending.reply = reply
        · subst heq
          have hlt := (List.getElem?_eq_some_iff.mp hreply).1
          have hset : (w.replies.set pending.reply .hungUp)[pending.reply]? = some .hungUp :=
            List.getElem?_set_self (by rwa [← List.length_set])
          cases hset.symm.trans hreply
        · exact (List.getElem?_set_ne heq).symm.trans hreply

theorem settles_failAll (w : ConnWorld) : Settles w w.failAll := by
  have hfold : ∀ (entries : List (Sigma fun _ : Int32 => Pending)) (w : ConnWorld),
      Settles w { entries.foldl (fun w entry =>
        w.setReply entry.2.reply (.sent (.error .connectionClosed))) w with inFlight := ∅ } := by
    intro entries
    induction entries with
    | nil =>
        intro w
        exact ⟨rfl, rfl, rfl, fun _ _ h => (by cases h), fun _ _ h => h⟩
    | cons entry rest ih =>
        intro w
        have hset : Settles w { w.setReply entry.2.reply (.sent (.error .connectionClosed)) with
            inFlight := ∅ } := by
          refine ⟨rfl, rfl, List.length_set, fun _ _ h => (by cases h), fun reply body hreply => ?_⟩
          by_cases heq : entry.2.reply = reply
          · subst heq
            have hlt := (List.getElem?_eq_some_iff.mp hreply).1
            have hnew : (w.replies.set entry.2.reply (.sent (.error .connectionClosed)))[
                entry.2.reply]? = some (.sent (.error .connectionClosed)) :=
              List.getElem?_set_self (by rwa [← List.length_set])
            cases hnew.symm.trans hreply
          · exact (List.getElem?_set_ne heq).symm.trans hreply
        have hrest := ih (w.setReply entry.2.reply (.sent (.error .connectionClosed)))
        refine ⟨hrest.calls.trans hset.calls, hrest.answers.trans hset.answers,
          hrest.length.trans hset.length, fun _ _ h => (by cases h), fun reply body hreply => ?_⟩
        exact hset.sent _ _ (hrest.sent _ _ hreply)
  have h := hfold w.inFlight.entries w
  exact ⟨h.calls, h.answers, h.length, fun _ _ hlookup => (by cases hlookup), h.sent⟩

end Settling

section Reader

variable {w : ConnWorld} {j : Journal} {i : Nat}

/-- Reading a response keeps the journal, and the other requests theirs. -/
theorem inv_readResponse (hinv : Inv (w, j)) (payload : Bytes) :
    Inv (w.readResponse payload, j.deliver w payload) ∧
      Rely i (w, j) (w.readResponse payload, j.deliver w payload) := by
  have hinv' := hinv.deliver payload
  have hrely : Rely i (w, j) (w, j.deliver w payload) := rely_deliver payload
  have hfail : Settles w { w.failAll with reading := false } := by
    have h := settles_failAll w
    exact ⟨h.calls, h.answers, h.length, h.table, h.sent⟩
  unfold readResponse
  split
  next => exact ⟨hfail.inv hinv', hrely.trans hfail.rely⟩
  next correlationId hpeek =>
      split
      next => exact ⟨hfail.inv hinv', hrely.trans hfail.rely⟩
      next pending hlookup =>
          have herased : Settles w { w with inFlight := w.inFlight.erase correlationId } :=
            settles_erase correlationId
          have hfree : ∀ correlationId' pending',
              (w.inFlight.erase correlationId).lookup correlationId' = some pending' →
                pending'.reply ≠ pending.reply :=
            fun _ _ hlookup' => hinv.reply_ne hlookup hlookup'
          have hrely' := hrely.trans herased.rely
          dsimp only
          split
          next response hresponse =>
              refine ⟨(herased.inv hinv').setReply hfree fun body heq => ?_,
                hrely'.trans rely_setReply⟩
              cases heq
              obtain ⟨i, call, howner, hissued, hcall, hversion, hwaiting, _⟩ :=
                hinv.correlated.waiting _ _ hlookup
              refine ⟨i, howner, j.frames.length, payload, correlationId, call, _, ?_,
                List.getElem?_concat_length, hissued, hpeek, hcall, hversion, hresponse⟩
              refine List.mem_append_right _ (List.mem_map_of_mem ?_)
              exact List.mem_filterMap.mpr
                ⟨pending.reply, mem_filled hpeek hlookup hwaiting hresponse, howner⟩
          next =>
              have hhung : Inv ({ w with inFlight := w.inFlight.erase correlationId }.setReply
                  pending.reply .hungUp, j.deliver w payload) :=
                (herased.inv hinv').setReply hfree fun body heq => by cases heq
              have hstopped :
                Settles ({ w with inFlight := w.inFlight.erase correlationId }.setReply
                  pending.reply .hungUp) { { w with
                    inFlight := w.inFlight.erase correlationId }.setReply pending.reply .hungUp with
                    reading := false } := .of_same rfl rfl rfl rfl
              exact ⟨hstopped.inv hhung, (hrely'.trans rely_setReply).trans hstopped.rely⟩

theorem inv_idle {e : ConnWeather} {s t : ConnWorld × Journal} {clientId : String} (hinv : Inv s)
    (h : (recordedConn clientId).idle e s = some t) : Inv t ∧ ∀ i, Rely i s t := by
  obtain ⟨w, j⟩ := s
  obtain ⟨u, j'⟩ := t
  obtain ⟨hidle, rfl⟩ := Machine.recorded_idle h
  have hsettles : Settles w u → Inv (u, j) ∧ ∀ i, Rely i (w, j) (u, j) :=
    fun hsettles => ⟨hsettles.inv hinv, fun _ => hsettles.rely⟩
  cases e with
  | response payload =>
      obtain ⟨_, heq⟩ := Option.ite_none_right_eq_some.mp hidle
      cases heq
      exact ⟨(inv_readResponse (i := 0) hinv payload).1, fun _ => (inv_readResponse hinv payload).2⟩
  | readFails =>
      obtain ⟨_, heq⟩ := Option.ite_none_right_eq_some.mp hidle
      cases heq
      have hfail := settles_failAll w
      exact hsettles ⟨hfail.calls, hfail.answers, hfail.length, hfail.table, hfail.sent⟩
  | throttle now ms =>
      obtain rfl : w.noteThrottle now ms = u := Option.some.inj hidle
      refine hsettles ?_
      unfold noteThrottle
      split
      · exact .of_same rfl rfl rfl rfl
      · exact .of_same rfl rfl rfl rfl

def discipline (clientId : String) : Discipline (recordedConn clientId) :=
  { Inv
    Rely
    refl := fun _ _ => .refl
    trans := fun _ _ _ _ => .trans
    idle := fun _ _ _ => inv_idle }

end Reader

section Phases

variable {s t : ConnWorld × Journal} {w u v : ConnWorld} {j : Journal} {i : Nat} {call : ConnCall}
  {correlationId : Int32} {version : Int16} {reply : Nat}

structure Under (i : Nat) (call : ConnCall) (s : ConnWorld × Journal) : Prop where
  called : s.1.calls[i]? = some call
  active : Active s i

structure Unissued (i : Nat) (call : ConnCall) (s : ConnWorld × Journal) : Prop
    extends Under i call s where
  unissued : ∀ correlationId, (i, correlationId) ∉ s.2.issued
  unowned : i ∉ s.2.owners

structure Issued (i : Nat) (call : ConnCall) (correlationId : Int32) (s : ConnWorld × Journal) :
    Prop extends Under i call s where
  issued : (i, correlationId) ∈ s.2.issued
  unowned : i ∉ s.2.owners

/-- Its reply slot is its own; the entry may be gone already. -/
structure Registered (i : Nat) (call : ConnCall) (correlationId : Int32) (reply : Nat)
    (s : ConnWorld × Journal) : Prop extends Under i call s where
  issued : (i, correlationId) ∈ s.2.issued
  owner : s.2.owners[reply]? = some i

structure Gone (i : Nat) (call : ConnCall) (s : ConnWorld × Journal) : Prop
    extends Under i call s where
  away : ∀ correlationId pending, s.1.inFlight.lookup correlationId = some pending →
    s.2.owners[pending.reply]? ≠ some i

theorem Under.rely (h : Under i call s) (hrely : Rely i s t) : Under i call t :=
  ⟨getElem?_of_isPrefix hrely.calls h.called, hrely.active h.active⟩

theorem Rely.unowned (hrely : Rely i s t) (h : i ∉ s.2.owners) : i ∉ t.2.owners := by
  intro hmem
  obtain ⟨reply, hreply⟩ := List.mem_iff_getElem?.mp hmem
  exact h (List.mem_of_getElem? (hrely.own reply hreply))

theorem Unissued.rely (h : Unissued i call s) (hrely : Rely i s t) : Unissued i call t :=
  ⟨h.toUnder.rely hrely, fun c hc => h.unissued c ((hrely.issued c).mp hc),
    hrely.unowned h.unowned⟩

theorem Issued.rely (h : Issued i call correlationId s) (hrely : Rely i s t) :
    Issued i call correlationId t :=
  ⟨h.toUnder.rely hrely, (hrely.issued _).mpr h.issued, hrely.unowned h.unowned⟩

theorem Registered.rely (h : Registered i call correlationId reply s) (hrely : Rely i s t) :
    Registered i call correlationId reply t :=
  ⟨h.toUnder.rely hrely, (hrely.issued _).mpr h.issued,
    getElem?_of_isPrefix hrely.owners h.owner⟩

theorem Gone.rely (h : Gone i call s) (hrely : Rely i s t) : Gone i call t := by
  refine ⟨h.toUnder.rely hrely, fun correlationId pending hlookup howner => ?_⟩
  exact h.away _ _ (hrely.table _ _ hlookup howner) (hrely.own _ howner)

theorem Unissued.gone (h : Unissued i call s) : Gone i call s :=
  ⟨h.toUnder, fun _ _ _ howner => h.unowned (List.mem_of_getElem? howner)⟩

theorem Issued.gone (h : Issued i call correlationId s) : Gone i call s :=
  ⟨h.toUnder, fun _ _ _ howner => h.unowned (List.mem_of_getElem? howner)⟩

/-- Its slot filled, the request has no entry left. -/
theorem Registered.gone (h : Registered i call correlationId reply s) (hinv : Inv s)
    (hfilled : s.1.replies[reply]? ≠ some .waiting) : Gone i call s := by
  refine ⟨h.toUnder, fun correlationId' pending hlookup howner => hfilled ?_⟩
  obtain ⟨_, _, _, _, _, _, hwaiting, _⟩ := hinv.correlated.waiting _ _ hlookup
  rwa [hinv.single reply pending.reply i h.owner howner]

theorem Registered.unregister (h : Registered i call correlationId reply (w, j))
    (hinv : Inv (w, j)) (hsettles : Settles w v) :
    Settles w (v.unregister correlationId) ∧ Gone i call (v.unregister correlationId, j) := by
  have hinv' := hsettles.inv hinv
  have hrest := settles_unregister hinv' correlationId
  have hall := hsettles.trans hrest
  refine ⟨hall, h.toUnder.rely hall.rely, fun correlationId' pending hlookup howner => ?_⟩
  have hlookup' : (v.inFlight.erase correlationId).lookup correlationId' = some pending := hlookup
  obtain ⟨hne, hold⟩ := lookup_erase_cases hlookup'
  obtain ⟨i', _, howner', hissued, _⟩ := hinv'.correlated.waiting _ _ hold
  cases howner.symm.trans howner'
  exact hne (hinv.correlated.issuedOnce i _ _ hissued h.issued)

end Phases

section Steps

variable {w u : ConnWorld} {j : Journal} {i : Nat} {call : ConnCall}
  {correlationId : Int32} {version : Int16} {reply : Nat}

/-- A step of request `i` that the others can live with. -/
def Keeps (i : Nat) (s t : ConnWorld × Journal) : Prop := Inv t ∧ ∀ i', i' ≠ i → Rely i' s t

theorem Keeps.trans {s t v : ConnWorld × Journal} (h : Keeps i s t) (h' : Keeps i t v) :
    Keeps i s v :=
  ⟨h'.1, fun i' hi' => (h.2 i' hi').trans (h'.2 i' hi')⟩

theorem Settles.keeps (h : Settles w u) (hinv : Inv (w, j)) : Keeps i (w, j) (u, j) :=
  ⟨h.inv hinv, fun _ _ => h.rely⟩

theorem mem_append_singleton_ne {κ : Type} {xs : List (Nat × κ)} {i' : Nat} {x y : κ} (hi : i' ≠ i)
    (h : (i', y) ∈ xs ++ [(i, x)]) : (i', y) ∈ xs := by
  rcases List.mem_append.mp h with h | h
  · exact h
  · cases List.mem_singleton.mp h
    exact absurd rfl hi

theorem getElem?_append_singleton {β : Type} {xs : List β} {n : Nat} {x y : β}
    (h : (xs ++ [x])[n]? = some y) : xs[n]? = some y ∨ (n = xs.length ∧ y = x) := by
  rcases Nat.lt_trichotomy n xs.length with hlt | heq | hgt
  · rw [List.getElem?_append_left hlt] at h
    exact .inl h
  · rw [heq, List.getElem?_concat_length] at h
    exact .inr ⟨heq, (Option.some.inj h).symm⟩
  · rw [List.getElem?_eq_none (by rw [List.length_append]; exact hgt)] at h
    cases h

theorem lt_of_called (h : Under i call (w, j)) {i' : Nat} (hi : w.calls.length ≤ i') : i' ≠ i :=
  Nat.ne_of_gt (Nat.lt_of_lt_of_le (List.getElem?_eq_some_iff.mp h.called).1 hi)

/-- Taking the next id keeps what the other requests rely on. -/
theorem keeps_issue (hinv : Inv (w, j)) (h : Unissued i call (w, j)) :
    Keeps i (w, j) ({ w with correlation := w.correlation + 1 }, j.issue i w.correlation) := by
  have hcorrelated := hinv.correlated
  have hsubset : j.issued ⊆ (j.issue i w.correlation).issued := List.subset_append_left _ _
  have hgrown : ∀ {i' body}, Answered (w, j) i' body →
      Answered ({ w with correlation := w.correlation + 1 }, j.issue i w.correlation) i' body :=
    fun h => h.mono (List.prefix_refl _) (List.prefix_refl _) (List.Subset.refl _) hsubset
  refine ⟨⟨⟨fun i' body h => hgrown (hcorrelated.own i' body h), ?_, hcorrelated.deliveredOnce, ?_⟩,
    hinv.slots, hinv.single, fun reply body hsent => ?_, hinv.framed, fun i' hi' => ?_⟩,
    fun i' hi' => ?_⟩
  · intro i' c c' hc hc'
    by_cases hi' : i' = i
    · subst hi'
      have hnew : ∀ {c}, (i', c) ∈ j.issued ++ [(i', w.correlation)] → c = w.correlation := by
        intro c hc
        rcases List.mem_append.mp hc with hc | hc
        · exact absurd hc (h.unissued c)
        · cases List.mem_singleton.mp hc
          rfl
      exact (hnew hc).trans (hnew hc').symm
    · exact hcorrelated.issuedOnce i' c c' (mem_append_singleton_ne hi' hc)
        (mem_append_singleton_ne hi' hc')
  · intro correlationId pending hlookup
    obtain ⟨i', call', howner, hissued, hrest⟩ := hcorrelated.waiting _ _ hlookup
    exact ⟨i', call', howner, hsubset hissued, hrest⟩
  · obtain ⟨i', howner, hanswered⟩ := hinv.sent _ _ hsent
    exact ⟨i', howner, hgrown hanswered⟩
  · have hunseen := hinv.known i' hi'
    refine ⟨fun c hc => ?_, hunseen.unowned, hunseen.active⟩
    exact hunseen.unissued c (mem_append_singleton_ne (lt_of_called h.toUnder hi') hc)
  · refine ⟨List.prefix_refl _, List.prefix_refl _, List.Subset.refl _, List.prefix_refl _,
      fun c => ⟨mem_append_singleton_ne hi', fun hc => hsubset hc⟩, fun _ => id, id,
      fun _ _ hlookup _ => hlookup⟩

theorem Unissued.issue (h : Unissued i call (w, j)) :
    Issued i call w.correlation
      ({ w with correlation := w.correlation + 1 }, j.issue i w.correlation) :=
  ⟨⟨h.called, h.active⟩, List.mem_append_right _ (List.mem_singleton_self _), h.unowned⟩

/-- The entry of a registered request, or one of the others'. -/
theorem lookup_register {correlationId' : Int32} {pending : Pending}
    (h : (w.register correlationId version).inFlight.lookup correlationId' = some pending) :
    (correlationId' = correlationId ∧
      pending = { responseHeaderVersion := version, reply := w.replies.length }) ∨
    (w.unregister correlationId).inFlight.lookup correlationId' = some pending := by
  rcases lookup_insert_cases h with ⟨rfl, rfl⟩ | ⟨hne, hold⟩
  · exact .inl ⟨rfl, rfl⟩
  · exact .inr ((AList.lookup_erase_ne hne).trans hold)

theorem keeps_register (hinv : Inv (w, j)) (h : Issued i call correlationId (w, j))
    (hversion : responseHeaderVersion call.apiKey call.apiVersion = some version) :
    Keeps i (w, j) (w.register correlationId version, j.own i) := by
  have hsettles := settles_unregister hinv correlationId
  have hinv' := hsettles.inv hinv
  have hcorrelated := hinv'.correlated
  have hlength : j.owners.length = w.replies.length := hinv.slots
  have hreplies : (w.register correlationId version).replies =
      (w.unregister correlationId).replies ++ [.waiting] := rfl
  have hold : ∀ {reply : Nat} {r : Reply}, (w.unregister correlationId).replies[reply]? = some r →
      (w.register correlationId version).replies[reply]? = some r :=
    fun h => getElem?_of_isPrefix (hreplies ▸ List.prefix_append _ _) h
  have hgrown : ∀ {i' body}, Answered (w.unregister correlationId, j) i' body →
      Answered (w.register correlationId version, j.own i) i' body :=
    fun h => h.mono (List.prefix_refl _) (List.prefix_refl _) (List.Subset.refl _)
      (List.Subset.refl _)
  have howned : ∀ {reply i' : Nat}, j.owners[reply]? = some i' →
      (j.own i).owners[reply]? = some i' :=
    fun h => getElem?_of_isPrefix (List.prefix_append _ _) h
  have hactive : ∀ {i'}, Active (w.unregister correlationId, j) i' →
      Active (w.register correlationId version, j.own i) i' := fun h => h
  have hi := hsettles.active h.active
  refine ⟨⟨⟨fun i' body h => hgrown (hcorrelated.own i' body h), hcorrelated.issuedOnce,
    hcorrelated.deliveredOnce, ?_⟩, ?_, ?_, ?_, hinv'.framed, fun i' hi' => ?_⟩, fun i' hi' => ?_⟩
  · intro correlationId' pending hlookup
    rcases lookup_register hlookup with ⟨rfl, rfl⟩ | hlookup'
    · refine ⟨i, call, hlength ▸ List.getElem?_concat_length, h.issued, ?_, hversion, ?_,
        hactive hi⟩
      · exact hsettles.calls.symm ▸ h.called
      · rw [hreplies, ← hsettles.length]
        exact List.getElem?_concat_length
    · obtain ⟨i', call', howner, hissued, hcall, hversion', hwaiting, ha⟩ :=
        hcorrelated.waiting _ _ hlookup'
      exact ⟨i', call', howned howner, hissued, hcall, hversion', hold hwaiting, hactive ha⟩
  · rw [hreplies, List.length_append, ← hinv'.slots]
    exact List.length_append
  · intro reply reply' i' howner howner'
    rcases getElem?_append_singleton howner with hfirst | ⟨hlast, heq⟩ <;>
      rcases getElem?_append_singleton howner' with hfirst' | ⟨hlast', heq'⟩
    · exact hinv.single reply reply' i' hfirst hfirst'
    · exact absurd (List.mem_of_getElem? (heq' ▸ hfirst)) h.unowned
    · exact absurd (List.mem_of_getElem? (heq ▸ hfirst')) h.unowned
    · exact hlast.trans hlast'.symm
  · intro reply body hsent
    rcases getElem?_append_singleton (hreplies ▸ hsent) with hfirst | ⟨_, heq⟩
    · obtain ⟨i', howner, hanswered⟩ := hinv'.sent _ _ hfirst
      exact ⟨i', howned howner, hgrown hanswered⟩
    · cases heq
  · have hunseen := hinv'.known i' hi'
    refine ⟨hunseen.unissued, fun hmem => ?_, hactive hunseen.active⟩
    rcases List.mem_append.mp hmem with hmem | hmem
    · exact hunseen.unowned hmem
    · exact lt_of_called h.toUnder (hsettles.calls ▸ hi') (List.mem_singleton.mp hmem)
  · refine ⟨hsettles.calls ▸ List.prefix_refl _, List.prefix_refl _, List.Subset.refl _,
      List.prefix_append _ _, fun _ => Iff.rfl, fun reply howner => ?_,
      fun ha => hactive (hsettles.active ha), fun correlationId' pending hlookup howner => ?_⟩
    · rcases getElem?_append_singleton howner with hfirst | ⟨_, heq⟩
      · exact hfirst
      · exact absurd heq hi'
    · rcases lookup_register hlookup with ⟨_, rfl⟩ | hlookup'
      · have hlast : (j.own i).owners[w.replies.length]? = some i :=
          hlength ▸ List.getElem?_concat_length
        exact absurd (Option.some.inj (howner.symm.trans hlast)) hi'
      · exact (hsettles.table _ _ hlookup').1

theorem Issued.register (h : Issued i call correlationId (w, j)) (hinv : Inv (w, j)) :
    Registered i call correlationId w.replies.length
      (w.register correlationId version, j.own i) := by
  have hsettles := settles_unregister hinv correlationId
  have hlength : j.owners.length = w.replies.length := hinv.slots
  refine ⟨⟨hsettles.calls.symm ▸ h.called, hsettles.active h.active⟩, h.issued, ?_⟩
  exact hlength ▸ List.getElem?_concat_length

/-- Answering the caller keeps what the other requests rely on. -/
theorem keeps_answer (hinv : Inv (w, j)) (h : Gone i call (w, j)) {response : Response}
    (hanswered : ∀ body, response = .ok body → Answered (w, j) i body) :
    Keeps i (w, j) ({ w.leave i with answers := w.answers ++ [(i, response)] }, j) := by
  have hcorrelated := hinv.correlated
  have hactive : ∀ {i'}, i' ≠ i → Active (w, j) i' →
      Active ({ w.leave i with answers := w.answers ++ [(i, response)] }, j) i' :=
    fun hi' ha => ⟨fun r hr => ha.1 r (mem_append_singleton_ne hi' hr), ha.2⟩
  refine ⟨⟨⟨?_, hcorrelated.issuedOnce, hcorrelated.deliveredOnce, ?_⟩, hinv.slots, hinv.single,
    hinv.sent, hinv.framed, fun i' hi' => ?_⟩, fun i' hi' => ?_⟩
  · intro i' body hmem
    rcases List.mem_append.mp hmem with hmem | hmem
    · exact hcorrelated.own i' body hmem
    · cases List.mem_singleton.mp hmem
      exact hanswered body rfl
  · intro correlationId pending hlookup
    obtain ⟨i', call', howner, hissued, hcall, hversion, hwaiting, ha⟩ :=
      hcorrelated.waiting _ _ hlookup
    refine ⟨i', call', howner, hissued, hcall, hversion, hwaiting, hactive ?_ ha⟩
    rintro rfl
    exact h.away _ _ hlookup howner
  · have hunseen := hinv.known i' hi'
    exact ⟨hunseen.unissued, hunseen.unowned,
      hactive (lt_of_called h.toUnder hi') hunseen.active⟩
  · exact ⟨List.prefix_refl _, List.prefix_refl _, List.Subset.refl _, List.prefix_refl _,
      fun _ => Iff.rfl, fun _ => id, hactive hi', fun _ _ hlookup _ => hlookup⟩

theorem keeps_drop (hinv : Inv (w, j)) (h : Gone i call (w, j)) :
    Keeps i (w, j) (w, { j with dropped := j.dropped ++ [i] }) := by
  have hcorrelated := hinv.correlated
  have hactive : ∀ {i'}, i' ≠ i → Active (w, j) i' →
      Active (w, { j with dropped := j.dropped ++ [i] }) i' := by
    intro i' hi' ha
    refine ⟨ha.1, fun hmem => ?_⟩
    rcases List.mem_append.mp hmem with hmem | hmem
    · exact ha.2 hmem
    · exact hi' (List.mem_singleton.mp hmem)
  refine ⟨⟨⟨hcorrelated.own, hcorrelated.issuedOnce, hcorrelated.deliveredOnce, ?_⟩, hinv.slots,
    hinv.single, hinv.sent, hinv.framed, fun i' hi' => ?_⟩, fun i' hi' => ?_⟩
  · intro correlationId pending hlookup
    obtain ⟨i', call', howner, hissued, hcall, hversion, hwaiting, ha⟩ :=
      hcorrelated.waiting _ _ hlookup
    refine ⟨i', call', howner, hissued, hcall, hversion, hwaiting, hactive ?_ ha⟩
    rintro rfl
    exact h.away _ _ hlookup howner
  · have hunseen := hinv.known i' hi'
    exact ⟨hunseen.unissued, hunseen.unowned,
      hactive (lt_of_called h.toUnder hi') hunseen.active⟩
  · exact ⟨List.prefix_refl _, List.prefix_refl _, List.Subset.refl _, List.prefix_refl _,
      fun _ => Iff.rfl, fun _ => id, hactive hi', fun _ _ hlookup _ => hlookup⟩

theorem keeps_begin (hinv : Inv (w, j)) (hlength : w.calls.length = i) :
    Keeps i (w, j) ({ w with calls := w.calls ++ [call] }, j) ∧
      Unissued i call ({ w with calls := w.calls ++ [call] }, j) := by
  have hcorrelated := hinv.correlated
  have hgrown : ∀ {i' body}, Answered (w, j) i' body →
      Answered ({ w with calls := w.calls ++ [call] }, j) i' body :=
    fun h => h.mono (List.prefix_append _ _) (List.prefix_refl _) (List.Subset.refl _)
      (List.Subset.refl _)
  have hunseen : ∀ i', w.calls.length ≤ i' →
      Unseen ({ w with calls := w.calls ++ [call] }, j) i' := by
    intro i' hi'
    have hunseen := hinv.known i' hi'
    exact ⟨hunseen.unissued, hunseen.unowned, hunseen.active⟩
  refine ⟨⟨⟨⟨fun i' body h => hgrown (hcorrelated.own i' body h), hcorrelated.issuedOnce,
    hcorrelated.deliveredOnce, ?_⟩, hinv.slots, hinv.single, ?_, hinv.framed, fun i' hi' => ?_⟩,
    fun i' _ => ?_⟩, ?_⟩
  · intro correlationId pending hlookup
    obtain ⟨i', call', howner, hissued, hcall, hrest⟩ := hcorrelated.waiting _ _ hlookup
    exact ⟨i', call', howner, hissued, getElem?_of_isPrefix (List.prefix_append _ _) hcall, hrest⟩
  · intro reply body hsent
    obtain ⟨i', howner, hanswered⟩ := hinv.sent _ _ hsent
    exact ⟨i', howner, hgrown hanswered⟩
  · refine hunseen i' (Nat.le_of_succ_le ?_)
    have hle : (w.calls ++ [call]).length ≤ i' := hi'
    rwa [List.length_append] at hle
  · exact ⟨List.prefix_append _ _, List.prefix_refl _, List.Subset.refl _, List.prefix_refl _,
      fun _ => Iff.rfl, fun _ => id, id, fun _ _ hlookup _ => hlookup⟩
  · have hi := hunseen i (Nat.le_of_eq hlength)
    exact ⟨⟨hlength ▸ List.getElem?_concat_length, hi.active⟩, hi.unissued, hi.unowned⟩

end Steps

end Odradek.Client.Conn.Correlation
