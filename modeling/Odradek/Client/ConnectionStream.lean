import Odradek.Client.ConnectionSteps

/-!
The bytes on a connection's socket: whole frames of its requests, and at most
one truncated frame that nothing follows. That holds where whoever leaves a
frame unfinished leaves no other request behind that found the connection open,
and a failed write finds it closed already.
-/

namespace Odradek.Client.Conn

open Library Odradek.Protocol ConnWorld

section Stream

variable (clientId : String)

/-- The frame of some request made on the connection. -/
def FrameOf (w : ConnWorld) (f : Bytes) : Prop :=
  ∃ call ∈ w.calls, ∃ headerVersion correlationId,
    requestFrame clientId call headerVersion correlationId = .ok f

def WholeFrames (w : ConnWorld) (bytes : Bytes) : Prop :=
  ∃ frames : List Bytes, bytes = frames.flatten ∧ ∀ f ∈ frames, FrameOf clientId w f

/-- Whole frames, then perhaps a proper prefix of one. -/
def Intact (w : ConnWorld) : Prop :=
  ∃ sent cut, w.socket = sent ++ cut ∧ WholeFrames clientId w sent ∧
    (cut = [] ∨ ∃ f, FrameOf clientId w f ∧ cut <+: f ∧ cut ≠ f)

/-- Nobody is writing, and the last frame is not whole. -/
def Truncated (w : ConnWorld) : Prop :=
  w.writer = none ∧ ¬ WholeFrames clientId w w.socket

/-- Byte-stream integrity of the pools a machine reaches. -/
def StreamIntegrity (M : ConnMachine) : Prop :=
  ∀ pool, M.Reaches (· = .fresh) pool →
    Intact clientId pool.shared ∧
      (Truncated clientId pool.shared → ∀ pool', M.Later pool pool' →
        pool'.shared.socket = pool.shared.socket)

end Stream

/-- No other request has found the connection open and not yet left its write half. -/
def ConnWorld.alone (w : ConnWorld) (i : Nat) : Bool := w.admitted.all fun j => j == i

/-- A write dropped in the middle of a frame leaves no other request behind. -/
def cleanDrop (i : Nat) (op : ConnOp) (w : ConnWorld) : Bool :=
  match op with
  | .write _ _ => !w.midFrame || w.alone i
  | _ => true

/-- The same of one that times out; one that fails finds the connection closed. -/
def cleanExec (i : Nat) (op : ConnOp) (c : ConnChoice) (w : ConnWorld) : Bool :=
  match op, c with
  | .write _ _, .elapse => !w.midFrame || w.alone i
  | .unlockWriter, _ => !w.midFrame || (w.closed && w.alone i)
  | _, _ => true

variable {clientId : String} {i j : Nat} {s t u v w : ConnWorld} {call : ConnCall}
  {α β : Type} {f : Bytes}

theorem frameOf_mono (hcalls : s.calls <+: t.calls) (h : FrameOf clientId s f) :
    FrameOf clientId t f := by
  obtain ⟨call, hmem, hframe⟩ := h
  exact ⟨call, hcalls.subset hmem, hframe⟩

theorem wholeFrames_mono {bytes : Bytes} (hcalls : s.calls <+: t.calls)
    (h : WholeFrames clientId s bytes) : WholeFrames clientId t bytes := by
  obtain ⟨frames, heq, hframes⟩ := h
  exact ⟨frames, heq, fun f hf => frameOf_mono hcalls (hframes f hf)⟩

theorem wholeFrames_append {sent : Bytes} (h : WholeFrames clientId w sent)
    (hf : FrameOf clientId w f) : WholeFrames clientId w (sent ++ f) := by
  obtain ⟨frames, rfl, hframes⟩ := h
  refine ⟨frames ++ [f], by rw [List.flatten_append, List.flatten_singleton], ?_⟩
  intro g hg
  rcases List.mem_append.mp hg with hold | hnew
  · exact hframes g hold
  · exact List.mem_singleton.mp hnew ▸ hf

/-- The write half free, and its last frame not whole. -/
def ConnWorld.Torn (w : ConnWorld) : Prop := w.midFrame = true ∧ w.writer = none

section Discipline

variable (clientId) in
/-- `midFrame` says how the socket ends, and a truncated frame leaves nobody behind. -/
structure StreamInv (w : ConnWorld) : Prop where
  whole : w.midFrame = false → WholeFrames clientId w w.socket
  cut : w.midFrame = true → ∃ sent cut f, w.socket = sent ++ cut ∧ WholeFrames clientId w sent ∧
    FrameOf clientId w f ∧ cut <+: f ∧ cut ≠ f
  holder : ∀ j, w.writer = some j → j ∈ w.admitted
  known : ∀ j ∈ w.admitted, j < w.calls.length
  torn : w.Torn → w.closed = true ∧ w.admitted = []

structure Rely (i : Nat) (s t : ConnWorld) : Prop where
  calls : s.calls <+: t.calls
  admitted : i ∈ t.admitted ↔ i ∈ s.admitted
  writer : t.writer = some i ↔ s.writer = some i
  held : s.writer = some i → t.socket = s.socket ∧ t.midFrame = s.midFrame
  torn : s.Torn → t.Torn ∧ t.socket = s.socket

theorem Rely.refl (i : Nat) (s : ConnWorld) : Rely i s s :=
  ⟨List.prefix_refl _, Iff.rfl, Iff.rfl, fun _ => ⟨rfl, rfl⟩, fun h => ⟨h, rfl⟩⟩

theorem Rely.trans (h : Rely i s t) (h' : Rely i t u) : Rely i s u := by
  refine ⟨h.calls.trans h'.calls, h'.admitted.trans h.admitted, h'.writer.trans h.writer, ?_, ?_⟩
  · intro hs
    obtain ⟨hsocket, hmid⟩ := h.held hs
    obtain ⟨hsocket', hmid'⟩ := h'.held (h.writer.mpr hs)
    exact ⟨hsocket'.trans hsocket, hmid'.trans hmid⟩
  · intro hs
    obtain ⟨ht, hsocket⟩ := h.torn hs
    obtain ⟨hu, hsocket'⟩ := h'.torn ht
    exact ⟨hu, hsocket'.trans hsocket⟩

theorem Rely.called (h : Rely i s t) (hs : s.calls[i]? = some call) : t.calls[i]? = some call := by
  obtain ⟨later, hcalls⟩ := h.calls
  rw [← hcalls, List.getElem?_append_left (List.getElem?_eq_some_iff.mp hs).1]
  exact hs

theorem Quiet.rely (h : Quiet s t) (i : Nat) : Rely i s t := by
  refine ⟨h.calls ▸ List.prefix_refl _, by rw [h.admitted], by rw [h.writer],
    fun _ => ⟨h.socket, h.midFrame⟩, fun hs => ⟨⟨?_, ?_⟩, h.socket⟩⟩
  · rw [h.midFrame]
    exact hs.1
  · rw [h.writer]
    exact hs.2

/-- A step that leaves the write half alone keeps the stream. -/
theorem Quiet.inv (h : Quiet s t) (hinv : StreamInv clientId s) : StreamInv clientId t := by
  have hcalls : s.calls <+: t.calls := h.calls ▸ List.prefix_refl _
  refine ⟨?_, ?_, ?_, ?_, ?_⟩
  · intro hmid
    rw [h.midFrame] at hmid
    rw [h.socket]
    exact wholeFrames_mono hcalls (hinv.whole hmid)
  · intro hmid
    rw [h.midFrame] at hmid
    obtain ⟨sent, cut, f, hsocket, hsent, hf, hstarts, hne⟩ := hinv.cut hmid
    exact ⟨sent, cut, f, h.socket.trans hsocket, wholeFrames_mono hcalls hsent,
      frameOf_mono hcalls hf, hstarts, hne⟩
  · rw [h.writer, h.admitted]
    exact hinv.holder
  · rw [h.admitted, h.calls]
    exact hinv.known
  · intro htorn
    obtain ⟨hclosed, hadmitted⟩ := hinv.torn ⟨h.midFrame ▸ htorn.1, h.writer ▸ htorn.2⟩
    exact ⟨h.closed hclosed, h.admitted.trans hadmitted⟩

variable (clientId) in
def streamDiscipline : Discipline ((connMachine clientId).under cleanExec cleanDrop) :=
  { Inv := StreamInv clientId
    Rely := Rely
    refl := Rely.refl
    trans := fun _ _ _ _ => Rely.trans
    idle := fun _ _ _ hinv hidle =>
      ⟨(quiet_idle hidle).inv hinv, (quiet_idle hidle).rely⟩ }

variable (clientId) in
abbrev Keeps (i : Nat) (s t : ConnWorld) : Prop := (streamDiscipline clientId).Keeps i s t

variable (clientId) in
abbrev ConnSat (i : Nat) (p : ConnProgram α) (Q : α → ConnWorld → Prop) (s : ConnWorld) : Prop :=
  (streamDiscipline clientId).Sat i p Q s

theorem Quiet.keeps (h : Quiet s t) (hinv : StreamInv clientId s) : Keeps clientId i s t :=
  ⟨h.inv hinv, fun j _ => h.rely j⟩

theorem keeps_trans (h : Keeps clientId i s t) (h' : Keeps clientId i t u) :
    Keeps clientId i s u :=
  ⟨h'.1, fun j hj => (h.2 j hj).trans (h'.2 j hj)⟩

end Discipline

section Steps

theorem mem_leave (h : j ≠ i) : j ∈ (w.leave i).admitted ↔ j ∈ w.admitted := by
  simp [leave, h]

/-- A request that does not hold the lock goes. -/
theorem keeps_leave (hinv : StreamInv clientId w) (haway : w.writer ≠ some i) :
    Keeps clientId i w (w.leave i) := by
  refine ⟨⟨hinv.whole, hinv.cut, ?_, ?_, ?_⟩, fun j hj => ?_⟩
  · intro j hj
    have hne : j ≠ i := fun heq => haway (heq ▸ hj)
    exact (mem_leave hne).mpr (hinv.holder j hj)
  · exact fun j hj => hinv.known j (List.mem_filter.mp hj).1
  · intro htorn
    obtain ⟨hclosed, hadmitted⟩ := hinv.torn htorn
    refine ⟨hclosed, ?_⟩
    simp only [leave, hadmitted, List.filter_nil]
  · exact ⟨List.prefix_refl _, mem_leave hj, Iff.rfl, fun _ => ⟨rfl, rfl⟩, fun h => ⟨h, rfl⟩⟩

/-- The lock is given up, and a frame left unfinished leaves nobody behind. -/
theorem keeps_unlockWriter (hinv : StreamInv clientId w) (hwriter : w.writer = some i)
    (hclean : w.midFrame = true → w.closed = true ∧ w.alone i = true) :
    Keeps clientId i w (w.unlockWriter i) := by
  refine ⟨⟨hinv.whole, hinv.cut, fun j hj => (by cases hj), ?_, ?_⟩, fun j hj => ?_⟩
  · exact fun j hj => hinv.known j (List.mem_filter.mp hj).1
  · intro htorn
    obtain ⟨hclosed, halone⟩ := hclean htorn.1
    refine ⟨hclosed, List.filter_eq_nil_iff.mpr fun j hj => ?_⟩
    rw [bne_iff_ne, not_not]
    exact beq_iff_eq.mp (List.all_eq_true.mp halone j hj)
  · have hother : w.writer ≠ some j := fun h => hj (Option.some.inj (h.symm.trans hwriter))
    refine ⟨List.prefix_refl _, mem_leave hj, ?_, fun h => absurd h hother, ?_⟩
    · exact ⟨fun h => (by cases h), fun h => absurd h hother⟩
    · intro htorn
      rw [Torn, hwriter] at htorn
      cases htorn.2

theorem keeps_abandonedWrite {correlationId : Int32} (hinv : StreamInv clientId w)
    (hwriter : w.writer = some i) (hclean : w.midFrame = true → w.alone i = true) :
    Keeps clientId i w ((w.failAll.unlockWriter i).unregister correlationId) := by
  have hfail := quiet_failAll w
  have hinv' : StreamInv clientId w.failAll := hfail.inv hinv
  have hunlock : Keeps clientId i w.failAll (w.failAll.unlockWriter i) := by
    refine keeps_unlockWriter hinv' (hfail.writer.trans hwriter) fun hmid => ⟨rfl, ?_⟩
    rw [alone, hfail.admitted]
    exact hclean (hfail.midFrame ▸ hmid)
  exact keeps_trans (hfail.keeps hinv)
    (keeps_trans hunlock ((quiet_unregister _ _).keeps hunlock.1))

theorem keeps_abandonedLock {correlationId : Int32} (hinv : StreamInv clientId w)
    (haway : w.writer ≠ some i) :
    Keeps clientId i w ((w.leave i).unregister correlationId) := by
  have hleave := keeps_leave hinv haway
  exact keeps_trans hleave ((quiet_unregister _ _).keeps hleave.1)

theorem keeps_admission (hinv : StreamInv clientId w) (hopen : w.closed = false)
    (hi : i < w.calls.length) :
    Keeps clientId i w { w with admitted := w.admitted ++ [i] } := by
  have hwhole : ¬ w.Torn := fun htorn => by
    rw [(hinv.torn htorn).1] at hopen
    cases hopen
  refine ⟨⟨hinv.whole, hinv.cut, ?_, ?_, fun htorn => absurd htorn hwhole⟩, fun j hj => ?_⟩
  · exact fun j hj => List.mem_append_left _ (hinv.holder j hj)
  · intro j hj
    rcases List.mem_append.mp hj with hold | hnew
    · exact hinv.known j hold
    · exact List.mem_singleton.mp hnew ▸ hi
  · refine ⟨List.prefix_refl _, ?_, Iff.rfl, fun _ => ⟨rfl, rfl⟩, fun h => absurd h hwhole⟩
    exact ⟨fun h => (List.mem_append.mp h).resolve_right fun h => hj (List.mem_singleton.mp h),
      List.mem_append_left _⟩

theorem keeps_lockWriter (hinv : StreamInv clientId w) (hfree : w.writer = none)
    (hi : i ∈ w.admitted) : Keeps clientId i w { w with writer := some i } := by
  have hwhole : ¬ w.Torn := fun htorn => by
    rw [(hinv.torn htorn).2] at hi
    cases hi
  refine ⟨⟨hinv.whole, hinv.cut, ?_, hinv.known, fun htorn => by cases htorn.2⟩, fun j hj => ?_⟩
  · intro j hj
    cases hj
    exact hi
  · refine ⟨List.prefix_refl _, Iff.rfl, ?_, fun _ => ⟨rfl, rfl⟩, fun h => absurd h hwhole⟩
    rw [hfree]
    exact ⟨fun h => absurd (Option.some.inj h).symm hj, fun h => (by cases h)⟩

variable (clientId) in
/-- Task `i` has put the frame `f` on the socket up to `rest`. -/
structure Writing (i : Nat) (call : ConnCall) (f rest : Bytes) (w : ConnWorld) : Prop where
  called : w.calls[i]? = some call
  writer : w.writer = some i
  frame : FrameOf clientId w f
  socket : ∃ sent cut, w.socket = sent ++ cut ∧ WholeFrames clientId w sent ∧ cut ++ rest = f ∧
    (w.midFrame = true ↔ cut ≠ [] ∧ rest ≠ [])

variable {rest : Bytes} {n : Nat}

theorem Writing.rely (h : Writing clientId i call f rest s) (hrely : Rely i s t) :
    Writing clientId i call f rest t := by
  obtain ⟨sent, cut, hsocket, hsent, hf, hmid⟩ := h.socket
  obtain ⟨hsocket', hmid'⟩ := hrely.held h.writer
  refine ⟨hrely.called h.called, hrely.writer.mpr h.writer,
    frameOf_mono hrely.calls h.frame, sent, cut,
    hsocket'.trans hsocket, wholeFrames_mono hrely.calls hsent, hf, ?_⟩
  rw [hmid']
  exact hmid

theorem Writing.start (hinv : StreamInv clientId w) (hfree : w.writer = none)
    (hcalled : w.calls[i]? = some call) (hi : i ∈ w.admitted) (hf : FrameOf clientId w f) :
    Writing clientId i call f f { w with writer := some i } := by
  have hmid : w.midFrame = false := by
    cases hmid : w.midFrame with
    | false => rfl
    | true =>
        rw [(hinv.torn ⟨hmid, hfree⟩).2] at hi
        cases hi
  refine ⟨hcalled, rfl, hf, w.socket, [], (List.append_nil _).symm, hinv.whole hmid, rfl, ?_⟩
  exact ⟨fun h => absurd (hmid.symm.trans h) Bool.false_ne_true, fun h => absurd rfl h.1⟩

theorem Writing.put (h : Writing clientId i call f rest w) (hn : n ≠ 0) (hrest : rest ≠ []) :
    Writing clientId i call f (rest.drop n) (w.put rest n) := by
  obtain ⟨sent, cut, hsocket, hsent, hf, _⟩ := h.socket
  refine ⟨h.called, h.writer, h.frame, sent, cut ++ rest.take n, ?_, hsent, ?_, ?_⟩
  · rw [ConnWorld.put, hsocket, List.append_assoc]
  · rw [List.append_assoc, List.take_append_drop, hf]
  · have htake : cut ++ rest.take n ≠ [] := by
      simp [hn, hrest]
    simp [ConnWorld.put, hn, htake]

/-- What `midFrame` says of the socket while the lock is held. -/
theorem Writing.inv (h : Writing clientId i call f rest w)
    (holder : ∀ j, w.writer = some j → j ∈ w.admitted)
    (known : ∀ j ∈ w.admitted, j < w.calls.length) : StreamInv clientId w := by
  obtain ⟨sent, cut, hsocket, hsent, hf, hmid⟩ := h.socket
  refine ⟨?_, ?_, holder, known, ?_⟩
  · intro hfalse
    rw [hsocket]
    by_cases hcut : cut = []
    · rw [hcut, List.append_nil]
      exact hsent
    · have hrest : rest = [] := by
        by_contra hrest
        rw [hmid.mpr ⟨hcut, hrest⟩] at hfalse
        cases hfalse
      rw [hrest, List.append_nil] at hf
      exact wholeFrames_append hsent (hf ▸ h.frame)
  · intro htrue
    refine ⟨sent, cut, f, hsocket, hsent, h.frame, ⟨rest, hf⟩, ?_⟩
    intro heq
    refine (hmid.mp htrue).2 ?_
    rw [heq] at hf
    exact List.append_right_eq_self.mp hf
  · intro htorn
    rw [Torn, h.writer] at htorn
    cases htorn.2

theorem keeps_put (hinv : StreamInv clientId w) (h : Writing clientId i call f rest w)
    (h' : Writing clientId i call f (rest.drop n) (w.put rest n)) :
    Keeps clientId i w (w.put rest n) := by
  refine ⟨h'.inv hinv.holder hinv.known, fun j hj => ?_⟩
  have hother : w.writer ≠ some j := fun heq => hj (Option.some.inj (heq.symm.trans h.writer))
  refine ⟨List.prefix_refl _, Iff.rfl, Iff.rfl, fun heq => absurd heq hother, ?_⟩
  intro htorn
  rw [Torn, h.writer] at htorn
  cases htorn.2

end Steps

end Odradek.Client.Conn
