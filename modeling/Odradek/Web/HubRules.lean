import Odradek.Web.HubOps

/-!
Reasoning about a call operation by operation. A `Trail` is what a call has put
on record; `HeldBut` is what it knows while it holds the lock: how the hub
differs from what it was, and which pumps are between the map and the record of
having left it.
-/

namespace Odradek.Web

open Library HubWorld

variable {fine : Nat → HubOp → HubChoice → HubWorld → Bool} {i : Nat} {s t u v w : HubWorld}
  {α β : Type} {Q : α → HubWorld → Prop}

/-- Run by call `i`, the program keeps the discipline and ends in `Q`. -/
abbrev HubSat (fine : Nat → HubOp → HubChoice → HubWorld → Bool) (i : Nat)
    (p : HubProgram α) (Q : α → HubWorld → Prop) (s : HubWorld) : Prop :=
  (hubDiscipline fine).Sat i p Q s

theorem keeps_grown (h : (hubDiscipline fine).Keeps i s t) : Grown fine s t :=
  (h.2 (i + 1) (Nat.succ_ne_self i)).grown

theorem did_of_mem_mine {e : HubEvent} (h : e ∈ w.mine i) : w.Did e := by
  obtain ⟨entry, hentry, rfl⟩ := List.mem_map.mp h
  exact ⟨entry.1, (List.mem_filter.mp hentry).1⟩

section Noted

variable (fine)

/-- Call `i` has written one entry, and the others have moved around it. -/
structure Noted (i : Nat) (event : HubEvent) (s t : HubWorld) : Prop where
  holder : t.holder = some i ↔ s.holder = some i
  mine : t.mine i = s.mine i ++ [event]
  hub : s.holder = some i → t.hub = s.hub
  born : s.holder = some i → ∀ handle, t.Born handle → s.Born handle
  left : s.holder = some i → ∀ handle, t.Left handle → s.Left handle ∨ event.Leaves handle
  grown : Grown fine s t

variable {fine} {event : HubEvent}

theorem Noted.did (h : Noted fine i event s t) : t.Did event := by
  refine did_of_mem_mine (i := i) ?_
  rw [h.mine]
  exact List.mem_append_right _ List.mem_cons_self

theorem Noted.left_of_leaves {handle : PumpHandle} (h : Noted fine i event s t)
    (hleaves : event.Leaves handle) : t.Left handle := by
  have hdid := h.did
  rcases hleaves with rfl | rfl | rfl
  · exact .inl hdid
  · exact .inr (.inl hdid)
  · exact .inr (.inr hdid)

/-- The entry itself, between two moves of the others. -/
theorem Noted.of_note (hrely : Rely fine i s t) (hgrown : Grown fine t u)
    (hholder : u.holder = t.holder) (hhub : u.hub = t.hub)
    (hlog : u.log = t.log ++ [(i, event)]) (hnew : ∀ handle, event ≠ .started handle)
    (hrely' : Rely fine i u v) : Noted fine i event s v := by
  have hdid : ∀ e, u.Did e ↔ t.Did e ∨ e = event := by
    intro e
    rw [Did, hlog]
    exact did_note
  have hleft : ∀ handle, u.Left handle ↔ t.Left handle ∨ event.Leaves handle := by
    intro handle
    rw [Left, Gone, Did, Did, Did, hlog]
    exact left_note
  have hmine : u.mine i = t.mine i ++ [event] := by
    rw [HubWorld.mine, hlog]
    exact mine_note_self
  refine ⟨?_, ?_, ?_, ?_, ?_, ?_⟩
  · rw [hrely'.holder, hholder, hrely.holder]
  · rw [hrely'.mine, hmine, hrely.mine]
  · intro hs
    have ht := hrely.holder.mpr hs
    rw [hrely'.hub (hholder.trans ht), hhub, hrely.hub hs]
  · intro hs handle hb
    have ht := hrely.holder.mpr hs
    have hu := (hdid _).mp (hrely'.born (hholder.trans ht) handle hb)
    exact hrely.born hs handle (hu.resolve_right (hnew handle).symm)
  · intro hs handle hl
    have ht := hrely.holder.mpr hs
    exact ((hleft _).mp (hrely'.left (hholder.trans ht) handle hl)).imp_left (hrely.left hs handle)
  · exact (hrely.grown.trans hgrown).trans hrely'.grown

theorem Noted.rely (h : Noted fine i event s t) (hrely : Rely fine i t u) :
    Noted fine i event s u :=
  { holder := hrely.holder.trans h.holder
    mine := hrely.mine.trans h.mine
    hub := fun hs => (hrely.hub (h.holder.mpr hs)).trans (h.hub hs)
    born := fun hs handle hb => h.born hs handle (hrely.born (h.holder.mpr hs) handle hb)
    left := fun hs handle hl => h.left hs handle (hrely.left (h.holder.mpr hs) handle hl)
    grown := h.grown.trans hrely.grown }

end Noted

section Trail

variable (fine)

/-- What call `i` has put on record since `s`: entries of `P` alone, and no pump
told to stop that it had not started. -/
structure Trail (i : Nat) (P : HubEvent → Prop) (s w : HubWorld) : Prop where
  grown : Grown fine s w
  mine : ∃ events, w.mine i = s.mine i ++ events ∧ ∀ e ∈ events, P e
  told : ∀ handle, .told handle ∈ w.mine i →
    .told handle ∈ s.mine i ∨ .started handle ∈ w.mine i ∨ P (.drained handle)

/-- Call `i` holds the lock it held in `s`. -/
structure HeldBut (i : Nat) (P : HubEvent → Prop) (X : List PumpHandle) (s w : HubWorld) : Prop
    extends Trail fine i P s w where
  holder : w.holder = some i
  mapped : w.MappedBut X
  entries : ∀ key handle, w.hub.pumps.lookup key = some handle →
    s.hub.pumps.lookup key = some handle ∨ .started handle ∈ w.mine i

abbrev Held (i : Nat) (P : HubEvent → Prop) (s w : HubWorld) : Prop := HeldBut fine i P [] s w

variable {fine} {P P' : HubEvent → Prop} {X Y : List PumpHandle} {handle : PumpHandle}
  {event : HubEvent}

theorem Trail.start : Trail fine i P w w :=
  ⟨.refl fine w, ⟨[], (List.append_nil _).symm, fun e he => by cases he⟩, fun _ h => .inl h⟩

theorem Trail.mem (h : Trail fine i P s w) {e : HubEvent} (he : e ∈ s.mine i) : e ∈ w.mine i := by
  obtain ⟨events, hmine, _⟩ := h.mine
  rw [hmine]
  exact List.mem_append_left _ he

theorem Trail.new (h : Trail fine i P s w) {e : HubEvent} (he : e ∈ w.mine i) :
    e ∈ s.mine i ∨ P e := by
  obtain ⟨events, hmine, hevents⟩ := h.mine
  rw [hmine] at he
  exact (List.mem_append.mp he).imp_right (hevents e)

theorem Trail.trans (h : Trail fine i P s t) (h' : Trail fine i P t u) : Trail fine i P s u := by
  obtain ⟨events, hmine, hevents⟩ := h.mine
  obtain ⟨events', hmine', hevents'⟩ := h'.mine
  refine ⟨h.grown.trans h'.grown, ⟨events ++ events', ?_, ?_⟩, ?_⟩
  · rw [hmine', hmine, List.append_assoc]
  · intro e he
    rcases List.mem_append.mp he with he | he
    · exact hevents e he
    · exact hevents' e he
  · intro handle htold
    rcases h'.told handle htold with hold | hnew
    · exact (h.told handle hold).imp_right (Or.imp_left h'.mem)
    · exact .inr hnew

theorem Trail.mono (h : Trail fine i P s w) (himp : ∀ e, P e → P' e) : Trail fine i P' s w := by
  obtain ⟨events, hmine, hevents⟩ := h.mine
  exact ⟨h.grown, ⟨events, hmine, fun e he => himp e (hevents e he)⟩,
    fun handle htold => (h.told handle htold).imp_right (Or.imp_right (himp _))⟩

theorem Trail.of_mine (h : Trail fine i P s t) (hgrown : Grown fine t u)
    (hmine : u.mine i = t.mine i) : Trail fine i P s u := by
  refine ⟨h.grown.trans hgrown, ?_, ?_⟩
  · rw [hmine]
    exact h.mine
  · rw [hmine]
    exact h.told

theorem Trail.rely (h : Trail fine i P s t) (hrely : Rely fine i t u) : Trail fine i P s u :=
  h.of_mine hrely.grown hrely.mine

/-- One more entry on the trail. -/
theorem Trail.snoc (h : Trail fine i P s t) (hgrown : Grown fine t u)
    (hmine : u.mine i = t.mine i ++ [event]) (hevent : P event)
    (htold : ∀ handle, event = .told handle → .started handle ∈ t.mine i ∨ P (.drained handle)) :
    Trail fine i P s u := by
  obtain ⟨events, hevents, hall⟩ := h.mine
  refine ⟨h.grown.trans hgrown, ⟨events ++ [event], ?_, ?_⟩, ?_⟩
  · rw [hmine, hevents, List.append_assoc]
  · intro e he
    rcases List.mem_append.mp he with he | he
    · exact hall e he
    · rw [List.mem_singleton.mp he]
      exact hevent
  · rw [hmine]
    intro handle hmem
    rcases List.mem_append.mp hmem with hold | hnew
    · exact (h.told handle hold).imp_right (Or.imp_left (List.mem_append_left _))
    · exact .inr ((htold handle (List.mem_singleton.mp hnew).symm).imp_left
        (List.mem_append_left _))

theorem Trail.noted (h : Trail fine i P s t) (hnoted : Noted fine i event t u) (hevent : P event)
    (htold : ∀ handle, event = .told handle → .started handle ∈ t.mine i ∨ P (.drained handle)) :
    Trail fine i P s u :=
  h.snoc hnoted.grown hnoted.mine hevent htold

theorem HeldBut.start (hholder : w.holder = some i) (hmapped : w.MappedBut X) :
    HeldBut fine i P X w w :=
  ⟨.start, hholder, hmapped, fun _ _ h => .inl h⟩

theorem HeldBut.rely (h : HeldBut fine i P X s t) (hrely : Rely fine i t u) :
    HeldBut fine i P X s u := by
  refine ⟨h.toTrail.rely hrely, hrely.holder.mpr h.holder,
    MappedBut.rely h.mapped h.holder hrely, ?_⟩
  rw [hrely.mine, hrely.hub h.holder]
  exact h.entries

theorem HeldBut.mono (h : HeldBut fine i P X s w) (himp : ∀ e, P e → P' e) :
    HeldBut fine i P' X s w :=
  { h with toTrail := h.toTrail.mono himp }

theorem HeldBut.trans (h : HeldBut fine i P X s t) (h' : HeldBut fine i P Y t u) :
    HeldBut fine i P Y s u := by
  refine ⟨h.toTrail.trans h'.toTrail, h'.holder, h'.mapped, ?_⟩
  intro key handle hlookup
  rcases h'.entries key handle hlookup with hold | hnew
  · exact (h.entries key handle hold).imp_right h'.mem
  · exact .inr hnew

/-- Pumps out of the map and on record need no exception. -/
theorem mapped_settle (h : w.MappedBut X)
    (hX : ∀ handle ∈ X, w.Born handle → handle ∉ Y → w.Left handle ∧ ¬ w.InMap handle) :
    w.MappedBut Y := by
  intro handle hborn hy
  by_cases hx : handle ∈ X
  · obtain ⟨hl, hin⟩ := hX handle hx hborn hy
    exact ⟨fun h => absurd h hin, fun h => absurd hl h⟩
  · exact h handle hborn hx

theorem HeldBut.settle (h : HeldBut fine i P X s w)
    (hX : ∀ handle ∈ X, w.Born handle → handle ∉ Y → w.Left handle ∧ ¬ w.InMap handle) :
    HeldBut fine i P Y s w :=
  { h with mapped := mapped_settle h.mapped hX }

/-- The holder writes an entry of the record; a pump that leaves may still be in the map. -/
theorem HeldBut.noted (h : HeldBut fine i P X s t) (hnoted : Noted fine i event t u)
    (hevent : P event)
    (htold : ∀ handle, event = .told handle → .started handle ∈ t.mine i ∨ P (.drained handle))
    (hX : ∀ handle ∈ X, handle ∈ Y) (hY : ∀ handle, event.Leaves handle → handle ∈ Y) :
    HeldBut fine i P Y s u := by
  refine ⟨h.toTrail.noted hnoted hevent htold, hnoted.holder.mpr h.holder, ?_, ?_⟩
  · intro handle hborn hy
    have hiff := h.mapped handle (hnoted.born h.holder handle hborn) fun hx => hy (hX handle hx)
    rw [InMap, hnoted.hub h.holder]
    refine hiff.trans (not_congr ⟨hnoted.grown.left, fun hl => ?_⟩)
    exact (hnoted.left h.holder handle hl).resolve_right fun hl => hy (hY handle hl)
  · intro key handle hlookup
    rw [hnoted.hub h.holder] at hlookup
    refine (h.entries key handle hlookup).imp_right fun hm => ?_
    rw [hnoted.mine]
    exact List.mem_append_left _ hm

/-- An entry that is neither a pump's leaving nor a call to stop. -/
theorem HeldBut.plain (h : HeldBut fine i P X s t) (hnoted : Noted fine i event t u)
    (hevent : P event) (htold : ∀ handle, event ≠ .told handle)
    (hleaves : ∀ handle, ¬ event.Leaves handle) : HeldBut fine i P X s u :=
  h.noted hnoted hevent (fun handle heq => absurd heq (htold handle)) (fun _ => id)
    fun handle hl => absurd hl (hleaves handle)

end Trail

section Rules

variable {P : HubEvent → Prop} {X Y : List PumpHandle} {handle : PumpHandle} {s₀ : HubWorld}

/-- The rule of one operation. -/
theorem sat_perform {op : HubOp} {Q : op.Res → HubWorld → Prop}
    (h : ∀ t, Rely fine i s t → HubInv fine t → i < t.calls.length →
      ∀ c r u, fine i op c t = true → act i op c t = some (r, u) →
        (hubDiscipline fine).Keeps i t u ∧ ∀ v, Rely fine i u v → HubInv fine v → Q r v) :
    HubSat fine i (perform op) Q s := by
  refine Discipline.Sat.perform ?_ (fun t _ _ u hu => by cases hu)
  intro t hrely hinv c r u hexec
  have hexec' : (if fine i op c t then HubWorld.exec i op c t else none) = some (r, u) := hexec
  split at hexec'
  next hfine =>
      unfold HubWorld.exec at hexec'
      split at hexec'
      next hi => exact h t hrely hinv hi c r u hfine hexec'
      next => cases hexec'
  next => cases hexec'

theorem sat_lock {Q : Unit → HubWorld → Prop}
    (k : ∀ t, t.holder = some i → t.Mapped → Grown fine s t → t.mine i = s.mine i →
      HubInv fine t → Q () t) :
    HubSat fine i (perform .lock) Q s := by
  refine sat_perform fun t hrely hinv hi c r u _ hact => ?_
  obtain ⟨hfree, rfl⟩ := act_lock hact
  have hkeeps : (hubDiscipline fine).Keeps i t { t with holder := some i } :=
    keeps_lock hinv hi hfree
  refine ⟨hkeeps, fun v hv hinv' => ?_⟩
  have hmapped : ({ t with holder := some i } : HubWorld).Mapped := hinv.mapped hfree
  refine k v (hv.holder.mpr rfl) (MappedBut.rely hmapped rfl hv) ?_ (hv.mine.trans hrely.mine) hinv'
  exact (hrely.grown.trans (keeps_grown hkeeps)).trans hv.grown

theorem sat_unlock {Q : Unit → HubWorld → Prop} (hheld : s.holder = some i) (hmapped : s.Mapped)
    (k : ∀ t, Grown fine s t → t.mine i = s.mine i → t.holder ≠ some i → HubInv fine t → Q () t) :
    HubSat fine i (perform .unlock) Q s := by
  refine sat_perform fun t hrely hinv _ c r u _ hact => ?_
  obtain ⟨hholder, rfl⟩ := act_unlock hact
  have hkeeps := keeps_unlock hinv hholder (MappedBut.rely hmapped hheld hrely)
  refine ⟨hkeeps, fun v hv hinv' => ?_⟩
  refine k v ((hrely.grown.trans (keeps_grown hkeeps)).trans hv.grown)
    (hv.mine.trans hrely.mine) (fun hheld => ?_) hinv'
  cases hv.holder.mp hheld

theorem sat_read {Q : Hub → HubWorld → Prop} (h : HeldBut fine i P X s₀ s)
    (k : ∀ t, Rely fine i s t → HeldBut fine i P X s₀ t → HubInv fine t → t.hub = s.hub →
      Q s.hub t) :
    HubSat fine i readHub Q s := by
  refine sat_perform fun t hrely hinv _ c r u _ hact => ?_
  obtain ⟨_, rfl, rfl⟩ := act_read hact
  refine ⟨keeps_refl hinv, fun v hv hinv' => ?_⟩
  have hsv := hrely.trans hv
  rw [hrely.hub h.holder]
  exact k v hsv (h.rely hsv) hinv' (hsv.hub h.holder)

/-- Writing the hub keeps the others' view of it, where the map allows it. -/
theorem sat_write {hub : Hub} {Q : Unit → HubWorld → Prop} (h : HeldBut fine i P X s₀ s)
    (hgate : hub.gate = s.hub.gate) (hshut : s.hub.shutDown = true → hub.shutDown = true)
    (hok : ∀ t, Grown fine s t → HubInv fine t → t.hub = s.hub → HubOk fine { t with hub })
    (hmap : ∀ t, HeldBut fine i P X s₀ t → Rely fine i s t → t.hub = s.hub →
      ({ t with hub } : HubWorld).MappedBut Y)
    (hentries : ∀ key handle, hub.pumps.lookup key = some handle →
      s.hub.pumps.lookup key = some handle ∨ .started handle ∈ s.mine i)
    (k : ∀ t, HeldBut fine i P Y s₀ t → HubInv fine t → Grown fine s t → t.mine i = s.mine i →
      t.hub = hub → Q () t) :
    HubSat fine i (perform (.write hub)) Q s := by
  refine sat_perform fun t hrely hinv _ c r u _ hact => ?_
  have ht := h.rely hrely
  have hhub := hrely.hub h.holder
  obtain ⟨hholder, rfl⟩ := act_write hact
  have hkeeps := keeps_write hinv hholder (hgate.trans (hhub ▸ rfl)) (hhub ▸ hshut)
    (hok t hrely.grown hinv hhub)
  refine ⟨hkeeps, fun v hv hinv' => ?_⟩
  have hnow : HeldBut fine i P Y s₀ { t with hub } := by
    refine ⟨ht.toTrail.of_mine (keeps_grown hkeeps) rfl, hholder, hmap t ht hrely hhub, ?_⟩
    intro key handle hlookup
    rcases hentries key handle hlookup with hold | hnew
    · exact ht.entries key handle (hhub ▸ hold)
    · exact .inr (hrely.mine ▸ hnew)
  exact k v (hnow.rely hv) hinv' ((hrely.grown.trans (keeps_grown hkeeps)).trans hv.grown)
    (hv.mine.trans hrely.mine) (hv.hub hholder)

theorem sat_note {event : HubEvent} {Q : Unit → HubWorld → Prop}
    (hnew : ∀ handle, event ≠ .started handle)
    (hleaves : ∀ handle, event.Leaves handle → s.holder = some i ∧ s.Born handle ∧
      s.Stopping handle.channel ∧ (event = .gone handle → s.isOpen handle.channel = false))
    (k : ∀ t, Noted fine i event s t → HubInv fine t → Q () t) :
    HubSat fine i (perform (.note event)) Q s := by
  refine sat_perform fun t hrely hinv hi c r u _ hact => ?_
  obtain rfl := act_note hact
  have hkeeps : (hubDiscipline fine).Keeps i t (t.note i event) := by
    refine keeps_note hinv hi hnew fun handle hl => ?_
    obtain ⟨hholder, hborn, hstop, hgone⟩ := hleaves handle hl
    have hgrown := hrely.grown
    exact ⟨hrely.holder.mpr hholder, hgrown.did _ hborn, hgrown.stopping handle hborn hstop,
      fun heq => hgrown.closed handle hborn (hgone heq)⟩
  exact ⟨hkeeps, fun v hv hinv' =>
    k v (.of_note hrely (keeps_grown hkeeps) rfl rfl rfl hnew hv) hinv'⟩

theorem sat_askGate {topic : String} {Q : Bool → HubWorld → Prop}
    (k : ∀ t, Rely fine i s t → HubInv fine t → Q false t)
    (k' : ∀ t, Noted fine i (.approved topic) s t → HubInv fine t → Q true t) :
    HubSat fine i (perform (.askGate topic)) Q s := by
  refine sat_perform fun t hrely hinv hi c approves u _ hact => ?_
  obtain rfl := act_askGate hact
  cases approves with
  | false => exact ⟨keeps_refl hinv, fun v hv hinv' => k v (hrely.trans hv) hinv'⟩
  | true =>
      have hnew : ∀ handle, HubEvent.approved topic ≠ .started handle := fun _ => nofun
      have hkeeps := keeps_note hinv hi hnew (fun handle hl => by
        rcases hl with hl | hl | hl <;> cases hl)
      exact ⟨hkeeps, fun v hv hinv' =>
        k' v (.of_note hrely (keeps_grown hkeeps) rfl rfl rfl hnew hv) hinv'⟩

theorem sat_listPartitions {topic : String} {Q : Except SourceError (List Int) → HubWorld → Prop}
    (k : ∀ answer t, Noted fine i (.listed topic answer) s t → HubInv fine t → Q answer t) :
    HubSat fine i (perform (.listPartitions topic)) Q s := by
  refine sat_perform fun t hrely hinv hi c answer u _ hact => ?_
  obtain rfl := act_listPartitions hact
  have hnew : ∀ handle, HubEvent.listed topic answer ≠ .started handle := fun _ => nofun
  have hkeeps := keeps_note hinv hi hnew (fun handle hl => by
    rcases hl with hl | hl | hl <;> cases hl)
  exact ⟨hkeeps, fun v hv hinv' =>
    k answer v (.of_note hrely (keeps_grown hkeeps) rfl rfl rfl hnew hv) hinv'⟩

theorem sat_create {topic : String} {partition : Int}
    {Q : Except SourceError Unit → HubWorld → Prop}
    (k : ∀ answer t, Rely fine i s t → HubInv fine t → Q answer t) :
    HubSat fine i (perform (.create topic partition)) Q s := by
  refine sat_perform fun t hrely hinv _ c answer u _ hact => ?_
  obtain rfl := act_create hact
  exact ⟨keeps_refl hinv, fun v hv hinv' => k answer v (hrely.trans hv) hinv'⟩

theorem sat_isDead {Q : Bool → HubWorld → Prop} (hborn : s.Born handle)
    (k : ∀ dead t, Rely fine i s t → HubInv fine t →
      (dead = true → t.isOpen handle.channel = false) →
      (s.isOpen handle.channel = false → dead = true) → Q dead t) :
    HubSat fine i (perform (.isDead handle)) Q s := by
  refine sat_perform fun t hrely hinv _ c r u _ hact => ?_
  obtain ⟨rfl, rfl⟩ := act_isDead hact
  refine ⟨keeps_refl hinv, fun v hv hinv' => k _ v (hrely.trans hv) hinv' ?_ ?_⟩
  · intro hdead
    exact hv.grown.closed handle (hrely.grown.did _ hborn) (by simpa using hdead)
  · intro hclosed
    rw [hrely.grown.closed handle hborn hclosed]
    rfl

theorem sat_send {position : Position} {filter : Filter} {Q : Nat → HubWorld → Prop}
    (hborn : s.Born handle)
    (k : ∀ r t, Noted fine i (.registering handle) s t → HubInv fine t →
      (∃ q : Request, t.requests[r]? = some q ∧ q.handle = handle) → Q r t) :
    HubSat fine i (perform (.subscribe handle position filter)) Q s := by
  refine sat_perform fun t hrely hinv hi c r u _ hact => ?_
  obtain ⟨rfl, rfl⟩ := act_subscribe hact
  have hasking : (hubDiscipline fine).Keeps i t (t.asking handle position filter) :=
    keeps_asking hinv (hrely.grown.did _ hborn)
  have hnew : ∀ h, HubEvent.registering handle ≠ .started h := fun _ => nofun
  have hkeeps := keeps_trans hasking (keeps_note
    hasking.1 hi hnew (fun h hl => by rcases hl with hl | hl | hl <;> cases hl))
  refine ⟨hkeeps, fun v hv hinv' =>
    k _ v (.of_note hrely (keeps_grown hkeeps) rfl rfl rfl hnew hv) hinv' ?_⟩
  obtain ⟨q, hq, hhandle, _⟩ := hv.grown.requests t.requests.length
    { handle, position, filter, state := .unsent }
    List.getElem?_concat_length
  exact ⟨q, hq, hhandle⟩

/-- What a reply says about the pump it was to come from. -/
def Answered (handle : PumpHandle) (w : HubWorld) : Except HubError Subscription → Prop
  | .ok sub => ∃ q : Request, w.requests[sub.request]? = some q ∧ q.state = .served
  | .error e => e = .pumpClosed ∧ w.isOpen handle.channel = false

theorem sat_reply {request : Nat} {Q : Except HubError Subscription → HubWorld → Prop}
    (hborn : s.Born handle)
    (hq : ∃ q : Request, s.requests[request]? = some q ∧ q.handle = handle)
    (k : ∀ result t, Rely fine i s t → HubInv fine t → Answered handle t result → Q result t) :
    HubSat fine i (perform (.reply request)) Q s := by
  refine sat_perform fun t hrely hinv _ c r u _ hact => ?_
  obtain ⟨q, hq, hhandle⟩ := hq
  obtain ⟨q', hq', hhandle', _⟩ := hrely.grown.requests request q hq
  obtain ⟨rfl, q₁, hq₁, hanswer⟩ := act_reply hact
  obtain rfl : q' = q₁ := Option.some.inj (hq'.symm.trans hq₁)
  refine ⟨keeps_refl hinv, fun v hv hinv' => k _ v (hrely.trans hv) hinv' ?_⟩
  rcases hanswer with ⟨hserved, rfl⟩ | ⟨hdropped, rfl⟩
  · obtain ⟨q'', hq'', _, hs⟩ := hv.grown.requests request q' hq'
    exact ⟨q'', hq'', hs hserved⟩
  · have hclosed := hinv.requests.dropped request q' hq' hdropped
    rw [hhandle', hhandle] at hclosed
    exact ⟨rfl, hv.grown.closed handle (hrely.grown.did _ hborn) hclosed⟩

theorem sat_shutdown {Q : Unit → HubWorld → Prop} (hborn : s.Born handle)
    (k : ∀ t, Noted fine i (.told handle) s t → HubInv fine t → t.Stopping handle.channel →
      Q () t) :
    HubSat fine i (perform (.shutdown handle)) Q s := by
  refine sat_perform fun t hrely hinv hi c r u _ hact => ?_
  have hnew : ∀ h, HubEvent.told handle ≠ .started h := fun _ => nofun
  have hplain : ∀ h, ¬ (HubEvent.told handle).Leaves h := by
    rintro h (hl | hl | hl) <;> cases hl
  have hborn' := hrely.grown.did _ hborn
  rcases act_shutdown hact with ⟨v, henqueue, rfl⟩ | ⟨hclosed, rfl⟩
  · obtain ⟨hfirst, hstop⟩ := keeps_enqueue (i := i) hinv henqueue
    obtain ⟨pump, _, _, rfl⟩ := enqueue_eq_some henqueue
    have hkeeps := keeps_trans hfirst (keeps_note hfirst.1 hi hnew
      fun h hl => absurd hl (hplain h))
    refine ⟨hkeeps, fun v hv hinv' =>
      k v (.of_note hrely (keeps_grown hkeeps) rfl rfl rfl hnew hv) hinv' ?_⟩
    exact hv.grown.stopping handle ((keeps_grown hkeeps).did _ hborn') hstop
  · have hkeeps := keeps_note hinv hi hnew fun h hl => absurd hl (hplain h)
    refine ⟨hkeeps, fun v hv hinv' =>
      k v (.of_note hrely (keeps_grown hkeeps) rfl rfl rfl hnew hv) hinv' ?_⟩
    exact hv.grown.stopping handle ((keeps_grown hkeeps).did _ hborn') (.inl hclosed)

/-- A new pump runs, is on record, and is in nobody's hands yet. -/
theorem sat_spawn {site : Site} {topic : String} {partition : Int}
    {Q : PumpHandle → HubWorld → Prop} (h : HeldBut fine i P X s₀ s)
    (hP : ∀ channel, P (.started { topic, partition, channel }))
    (hsite : site = .acquire → s.hub.shutDown = false)
    (k : ∀ handle t, handle.key = (topic, partition) → HeldBut fine i P (handle :: X) s₀ t →
      HubInv fine t → Grown fine s t → t.hub = s.hub → t.Born handle →
      .started handle ∈ t.mine i → ¬ t.Left handle →
      (RoomKept fine → site = .respawn → (topic, partition) ∈ s.hub.pumps ∨
        s.hub.pumps.entries.length < s.hub.maxPumps) →
      (NeverLate fine → s.hub.shutDown = false) → Q handle t) :
    HubSat fine i (perform (.spawn site topic partition)) Q s := by
  refine sat_perform fun t hrely hinv hi c r u hfine hact => ?_
  have ht := h.rely hrely
  have hhub := hrely.hub h.holder
  obtain ⟨rfl, hhandle, rfl⟩ := act_spawn hact
  generalize r = handle at hhandle
  have hnever : NeverLate fine → t.hub.shutDown = false := by
    intro hnever
    cases site with
    | acquire => exact hhub ▸ hsite rfl
    | respawn => exact hnever i topic partition _ t hfine
  have hkeeps : (hubDiscipline fine).Keeps i t (t.born i handle) :=
    keeps_born hinv hi ht.holder (by rw [hhandle]) hnever
  have hleft : ¬ t.Left handle := by
    intro hl
    have hlt := hinv.pumps.within handle (hinv.pumps.left handle hl).1
    rw [hhandle] at hlt
    exact Nat.lt_irrefl _ hlt
  have hnow : HeldBut fine i P (handle :: X) s₀ (t.born i handle) := by
    refine ⟨ht.toTrail.snoc (keeps_grown hkeeps) mine_note_self (hhandle ▸ hP _) nofun,
      ht.holder, ?_, ?_⟩
    · intro h' hborn hx
      have hborn' := (born_born.mp hborn).resolve_right fun heq =>
        hx (heq ▸ List.mem_cons_self)
      refine (ht.mapped h' hborn' fun hm => hx (List.mem_cons_of_mem _ hm)).trans ?_
      exact not_congr left_born.symm
    · intro key h' hlookup
      refine (ht.entries key h' hlookup).imp_right fun hm => ?_
      rw [mine_born]
      exact List.mem_append_left _ hm
  refine ⟨hkeeps, fun v hv hinv' => ?_⟩
  have hholder : (t.born i handle).holder = some i := ht.holder
  refine k handle v (by rw [hhandle]; rfl) (hnow.rely hv) hinv'
    ((hrely.grown.trans (keeps_grown hkeeps)).trans hv.grown)
    ((hv.hub hholder).trans hhub) (hv.grown.did _ (born_born.mpr (.inr rfl))) ?_ ?_ ?_
    (fun hn => hhub ▸ hnever hn)
  · rw [hv.mine, mine_born]
    exact List.mem_append_right _ List.mem_cons_self
  · exact fun hl => hleft (left_born.mp (hv.left hholder handle hl))
  · intro hroom hrespawn
    subst hrespawn
    rw [← hhub]
    exact hroom i topic partition _ t hfine

/-- The outcome goes to the caller once everything in it is vouched for. -/
theorem sat_answer {outcome : Outcome} {Q : Unit → HubWorld → Prop}
    (hserved : ∀ r ∈ outcome.requests, ∃ q : Request, s.requests[r]? = some q ∧ q.state = .served)
    (hran : NeverLate fine → outcome = .shutDown →
      s.hub.shutDown = true ∧ ∀ handle, s.Born handle → s.Stopping handle.channel)
    (k : ∀ t, Q () t) :
    HubSat fine i (perform (.answer outcome)) Q s := by
  refine sat_perform fun t hrely hinv _ c r u hfine hact => ?_
  have hgrown := hrely.grown
  obtain rfl := act_answer hact
  refine ⟨keeps_answer hinv ?_ ?_ ?_, fun v _ _ => k v⟩
  · intro r hr
    obtain ⟨q, hq, hs⟩ := hserved r hr
    obtain ⟨q', hq', _, hs'⟩ := hgrown.requests r q hq
    exact ⟨q', hq', hs' hs⟩
  · intro hnever hshut
    obtain ⟨hdown, hall⟩ := hran hnever hshut
    refine ⟨hgrown.shutDown hdown, fun handle hborn => ?_⟩
    have hold := hgrown.settled hnever hdown handle hborn
    exact hgrown.stopping handle hold (hall handle hold)
  · rintro hnone rfl
    exact hnone i _ t hfine

/-- The command goes out, and its reply comes back. -/
theorem sat_roundTrip {position : Position} {filter : Filter}
    {Q : Except HubError Subscription → HubWorld → Prop} (hborn : s.Born handle)
    (k : ∀ r t, Noted fine i (.registering handle) s t → HubInv fine t → Answered handle t r →
      Q r t) :
    HubSat fine i (handle.subscribe position filter).run Q s := by
  refine Discipline.Sat.liftBind (sat_send hborn fun request t hnoted hinv hq => ?_)
  refine sat_reply (hnoted.grown.did _ hborn) hq fun r u hrely hinv' hr => ?_
  exact k r u (hnoted.rely hrely) hinv' hr

theorem sat_locked {body : HubProgram α} {Q : α → HubWorld → Prop}
    (hbody : ∀ t, t.holder = some i → t.Mapped → Grown fine s t → t.mine i = s.mine i →
      HubInv fine t → HubSat fine i body (fun r u => u.holder = some i ∧ u.Mapped ∧
        ∀ v, Grown fine u v → v.mine i = u.mine i → v.holder ≠ some i → HubInv fine v →
          Q r v) t) :
    HubSat fine i (locked body) Q s := by
  refine Discipline.Sat.bind (sat_lock fun t hholder hmapped hgrown hmine hinv => ?_)
  refine Discipline.Sat.bind ((hbody t hholder hmapped hgrown hmine hinv).mono ?_)
  rintro r u _ ⟨hheld, hmapped', hrest⟩
  refine Discipline.Sat.bind (sat_unlock hheld hmapped' fun v hgrown' hmine' hfree hinv' => ?_)
  intro x hrely hinv''
  exact hrest x (hgrown'.trans hrely.grown) (hrely.mine.trans hmine')
    (fun hx => hfree (hrely.holder.mp hx)) hinv''

/-- A result to match on. -/
theorem sat_caught {x : HubTry α} {f : Except HubError α → HubTry β}
    {Q : Except HubError β → HubWorld → Prop}
    (h : HubSat fine i x.run (fun r t => HubSat fine i (f r).run Q t) s) :
    HubSat fine i (caught x >>= f).run Q s := by
  refine Discipline.Sat.tryBind (Discipline.Sat.bind (h.mono ?_))
  intro r t _ hr u hrely _
  exact hr.rely hrely

theorem sat_fromSource {call : HubProgram (Except SourceError α)}
    {Q : Except HubError α → HubWorld → Prop}
    (h : HubSat fine i call (fun r t => ∀ u, Rely fine i t u → HubInv fine u →
      Q (r.mapError .source) u) s) :
    HubSat fine i (fromSource call).run Q s :=
  Discipline.Sat.bind h

end Rules

end Odradek.Web
