import Odradek.Web.HubWorld

/-!
What holds of a hub at every operation of every interleaving, and what a call
may rely on between two of its own. `fine` restricts the runs looked at; the two
bounds that a respawn can break are stated under what it has to promise.
-/

namespace Odradek.Web

open Library

namespace HubWorld

def Did (w : HubWorld) (event : HubEvent) : Prop := ∃ i, (i, event) ∈ w.log

def mine (w : HubWorld) (i : Nat) : List HubEvent := (w.log.filter fun e => e.1 = i).map (·.2)

def Accepted (w : HubWorld) (topic : String) : Prop :=
  w.hub.gate = .any ∨ w.Did (.approved topic)

def Listed (w : HubWorld) (topic : String) (partitions : List Int) : Prop :=
  w.Did (.listed topic (.ok partitions))

/-- The gate accepted the topic, and the source listed the partition. -/
def Vetted (w : HubWorld) (key : PumpKey) : Prop :=
  w.Accepted key.1 ∧ ∃ partitions, w.Listed key.1 partitions ∧ key.2 ∈ partitions

def Born (w : HubWorld) (handle : PumpHandle) : Prop := w.Did (.started handle)

def InMap (w : HubWorld) (handle : PumpHandle) : Prop :=
  w.hub.pumps.lookup handle.key = some handle

def Gone (w : HubWorld) (handle : PumpHandle) : Prop := w.Did (.gone handle)

/-- Taken out of the map, one way or another. -/
def Left (w : HubWorld) (handle : PumpHandle) : Prop :=
  w.Gone handle ∨ w.Did (.released handle) ∨ w.Did (.drained handle)

/-- Exited, or bound to: a `Shutdown` is among its commands. -/
def Stopping (w : HubWorld) (channel : Nat) : Prop :=
  w.isOpen channel = false ∨
    ∃ pump, w.pumps[channel]? = some pump ∧ .shutdown ∈ pump.commands

/-- The next command of every pump, if there is one, is its `Shutdown`. -/
def Ending (w : HubWorld) : Prop :=
  ∀ pump ∈ w.pumps, ∀ command ∈ pump.commands.head?, command = .shutdown

instance (w : HubWorld) : Decidable w.Ending :=
  inferInstanceAs (Decidable (∀ pump ∈ w.pumps, ∀ command ∈ pump.commands.head?, _))

/-- Shut down, with every pump bound to exit before it answers again. -/
def Final (w : HubWorld) : Prop :=
  w.hub.shutDown = true ∧ (∀ handle, w.Born handle → w.Stopping handle.channel) ∧ w.Ending

/-- Every pump but those of `X` is in the map until it has left it. -/
def MappedBut (w : HubWorld) (X : List PumpHandle) : Prop :=
  ∀ handle, w.Born handle → handle ∉ X → (w.InMap handle ↔ ¬ w.Left handle)

abbrev Mapped (w : HubWorld) : Prop := w.MappedBut []

end HubWorld

open HubWorld

def Outcome.requests : Outcome → List Nat
  | .subscribed sub => [sub.request]
  | .subscribedTopic sub => sub.merged.map (·.request)
  | _ => []

section

variable (fine : Nat → HubOp → HubChoice → HubWorld → Bool)

/-- A respawn starts a pump only where the map has a place for it. -/
def RoomKept : Prop := ∀ i topic partition c w,
  fine i (.spawn .respawn topic partition) c w = true →
    (topic, partition) ∈ w.hub.pumps ∨ w.hub.pumps.entries.length < w.hub.maxPumps

/-- A respawn starts no pump in a hub that is shut down. -/
def NeverLate : Prop := ∀ i topic partition c w,
  fine i (.spawn .respawn topic partition) c w = true → w.hub.shutDown = false

/-- A shutdown returns when no round trip is queued ahead of a `Shutdown`. -/
def NoneWaiting : Prop := ∀ i c w, fine i (.answer .shutDown) c w = true → w.Ending

structure HubOk (w : HubWorld) : Prop where
  keyed : ∀ key handle, w.hub.pumps.lookup key = some handle →
    handle.key = key ∧ w.Born handle ∧ w.Vetted key
  cached : ∀ topic partitions, w.hub.topics.lookup topic = some partitions →
    w.Accepted topic ∧ w.Listed topic partitions
  cap : RoomKept fine → w.hub.pumps.entries.length ≤ w.hub.maxPumps
  shut : NeverLate fine → w.hub.shutDown = true → w.hub.pumps.entries = []

structure PumpsOk (w : HubWorld) : Prop where
  unique : ∀ i j handle handle', (i, .started handle) ∈ w.log → (j, .started handle') ∈ w.log →
    handle.channel = handle'.channel → i = j ∧ handle = handle'
  within : ∀ handle, w.Born handle → handle.channel < w.pumps.length
  left : ∀ handle, w.Left handle → w.Born handle ∧ w.Stopping handle.channel
  gone : ∀ handle, w.Gone handle → w.isOpen handle.channel = false
  caller : ∀ e ∈ w.log, e.1 < w.calls.length

structure RequestsOk (w : HubWorld) : Prop where
  born : ∀ (r : Nat) (q : Request), w.requests[r]? = some q → w.Born q.handle
  dropped : ∀ (r : Nat) (q : Request), w.requests[r]? = some q → q.state = .dropped →
    w.isOpen q.handle.channel = false
  queue : ∀ (c : Nat) (pump : PumpTask), w.pumps[c]? = some pump →
    ∀ front r back, pump.commands = front ++ .subscribe r :: back → .subscribe r ∉ front ∧
      ∃ q : Request, w.requests[r]? = some q ∧ q.state = .queued ∧ q.handle.channel = c

structure OutcomesOk (w : HubWorld) : Prop where
  served : ∀ o ∈ w.outcomes, ∀ r ∈ o.2.requests, ∃ q : Request, w.requests[r]? = some q ∧
    q.state = .served
  ran : NeverLate fine → w.shutdownRan = true →
    w.hub.shutDown = true ∧ ∀ handle, w.Born handle → w.Stopping handle.channel
  ending : NeverLate fine → NoneWaiting fine → w.shutdownRan = true → w.Ending

structure HubInv (w : HubWorld) : Prop where
  hub : HubOk fine w
  pumps : PumpsOk w
  requests : RequestsOk w
  outcomes : OutcomesOk fine w
  mapped : w.holder = none → w.Mapped
  held : ∀ i, w.holder = some i → i < w.calls.length

/-- What no step undoes. -/
structure Grown (s t : HubWorld) : Prop where
  gate : t.hub.gate = s.hub.gate
  shutDown : s.hub.shutDown = true → t.hub.shutDown = true
  did : ∀ event, s.Did event → t.Did event
  calls : s.calls.length ≤ t.calls.length
  closed : ∀ handle, s.Born handle → s.isOpen handle.channel = false →
    t.isOpen handle.channel = false
  stopping : ∀ handle, s.Born handle → s.Stopping handle.channel → t.Stopping handle.channel
  requests : ∀ (r : Nat) (q : Request), s.requests[r]? = some q → ∃ q' : Request,
    t.requests[r]? = some q' ∧
    q'.handle = q.handle ∧ (q.state = .served → q'.state = .served)
  outcomes : ∀ o ∈ s.outcomes, o ∈ t.outcomes
  quiet : NeverLate fine → s.hub.shutDown = true → t.pumps.length = s.pumps.length
  settled : NeverLate fine → s.hub.shutDown = true → ∀ handle, t.Born handle → s.Born handle
  final : NeverLate fine → s.Final → t.Final
  registered : NeverLate fine → s.Final → ∀ (r : Nat) (q' : Request), t.requests[r]? = some q' →
    q'.state = .served → ∃ q : Request, s.requests[r]? = some q ∧ q.state = .served

/-- What call `i` may expect of the others: nobody touches a hub it has locked. -/
structure Rely (i : Nat) (s t : HubWorld) : Prop where
  holder : t.holder = some i ↔ s.holder = some i
  mine : t.mine i = s.mine i
  hub : s.holder = some i → t.hub = s.hub
  born : s.holder = some i → ∀ handle, t.Born handle → s.Born handle
  left : s.holder = some i → ∀ handle, t.Left handle → s.Left handle
  grown : Grown fine s t

end

variable {fine : Nat → HubOp → HubChoice → HubWorld → Bool} {i : Nat} {s t u w : HubWorld}

theorem Grown.refl (fine : Nat → HubOp → HubChoice → HubWorld → Bool) (w : HubWorld) :
    Grown fine w w :=
  { gate := rfl
    shutDown := id
    did := fun _ => id
    calls := Nat.le_refl _
    closed := fun _ _ => id
    stopping := fun _ _ => id
    requests := fun _ q h => ⟨q, h, rfl, id⟩
    outcomes := fun _ => id
    quiet := fun _ _ => rfl
    settled := fun _ _ _ => id
    final := fun _ => id
    registered := fun _ _ _ q h hs => ⟨q, h, hs⟩ }

theorem Grown.trans (h : Grown fine s t) (h' : Grown fine t u) : Grown fine s u :=
  { gate := h'.gate.trans h.gate
    shutDown := fun hs => h'.shutDown (h.shutDown hs)
    did := fun e he => h'.did e (h.did e he)
    calls := Nat.le_trans h.calls h'.calls
    closed := fun handle hb hc => h'.closed handle (h.did _ hb) (h.closed handle hb hc)
    stopping := fun handle hb hc => h'.stopping handle (h.did _ hb) (h.stopping handle hb hc)
    requests := by
      intro r q hq
      obtain ⟨q', hq', hhandle, hserved⟩ := h.requests r q hq
      obtain ⟨q'', hq'', hhandle', hserved'⟩ := h'.requests r q' hq'
      exact ⟨q'', hq'', hhandle'.trans hhandle, fun hs => hserved' (hserved hs)⟩
    outcomes := fun o ho => h'.outcomes o (h.outcomes o ho)
    quiet := fun hn hs => (h'.quiet hn (h.shutDown hs)).trans (h.quiet hn hs)
    settled := fun hn hs handle hb =>
      h.settled hn hs handle (h'.settled hn (h.shutDown hs) handle hb)
    final := fun hn hs => h'.final hn (h.final hn hs)
    registered := by
      intro hn hs r q'' hq'' hserved
      obtain ⟨q', hq', hserved'⟩ := h'.registered hn (h.final hn hs) r q'' hq'' hserved
      exact h.registered hn hs r q' hq' hserved' }

theorem Rely.refl (i : Nat) (w : HubWorld) : Rely fine i w w :=
  { holder := Iff.rfl
    mine := rfl
    hub := fun _ => rfl
    born := fun _ _ => id
    left := fun _ _ => id
    grown := .refl fine w }

theorem Rely.trans (h : Rely fine i s t) (h' : Rely fine i t u) : Rely fine i s u :=
  { holder := h'.holder.trans h.holder
    mine := h'.mine.trans h.mine
    hub := fun hs => (h'.hub (h.holder.mpr hs)).trans (h.hub hs)
    born := fun hs handle hb => h.born hs handle (h'.born (h.holder.mpr hs) handle hb)
    left := fun hs handle hl => h.left hs handle (h'.left (h.holder.mpr hs) handle hl)
    grown := h.grown.trans h'.grown }

theorem Grown.accepted (h : Grown fine s t) {topic : String} (ha : s.Accepted topic) :
    t.Accepted topic := by
  rcases ha with hany | happroved
  · exact .inl (h.gate.trans hany)
  · exact .inr (h.did _ happroved)

theorem Grown.vetted (h : Grown fine s t) {key : PumpKey} (hv : s.Vetted key) : t.Vetted key := by
  obtain ⟨ha, partitions, hl, hmem⟩ := hv
  exact ⟨h.accepted ha, partitions, h.did _ hl, hmem⟩

theorem Grown.left (h : Grown fine s t) {handle : PumpHandle} (hl : s.Left handle) :
    t.Left handle := by
  rcases hl with hg | hr | hd
  · exact .inl (h.did _ hg)
  · exact .inr (.inl (h.did _ hr))
  · exact .inr (.inr (h.did _ hd))

/-- What holds of a map holds of it for as long as it is not written. -/
theorem HubOk.grown (h : HubOk fine s) (hgrown : Grown fine s t) (hhub : t.hub = s.hub) :
    HubOk fine t := by
  refine ⟨?_, ?_, by rw [hhub]; exact h.cap, by rw [hhub]; exact h.shut⟩
  · intro key handle hlookup
    rw [hhub] at hlookup
    obtain ⟨hkey, hborn, hvetted⟩ := h.keyed key handle hlookup
    exact ⟨hkey, hgrown.did _ hborn, hgrown.vetted hvetted⟩
  · intro topic partitions hlookup
    rw [hhub] at hlookup
    obtain ⟨haccepted, hlisted⟩ := h.cached topic partitions hlookup
    exact ⟨hgrown.accepted haccepted, hgrown.did _ hlisted⟩

/-- The map of a locked hub stays accounted for whatever the others do. -/
theorem MappedBut.rely {X : List PumpHandle} (h : s.MappedBut X) (hholder : s.holder = some i)
    (hrely : Rely fine i s t) : t.MappedBut X := by
  intro handle hb hx
  have hin : t.InMap handle ↔ s.InMap handle := by rw [InMap, InMap, hrely.hub hholder]
  have hleft : t.Left handle ↔ s.Left handle := ⟨hrely.left hholder handle, hrely.grown.left⟩
  rw [hin, hleft]
  exact h handle (hrely.born hholder handle hb) hx

end Odradek.Web
