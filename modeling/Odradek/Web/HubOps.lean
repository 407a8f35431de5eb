import Odradek.Web.HubSteps

/-!
The operations of a call: each keeps the invariant, and the other calls can live
with it.
-/

namespace Odradek.Web

open Library HubWorld

variable {fine : Nat → HubOp → HubChoice → HubWorld → Bool} {i : Nat} {w u v : HubWorld}

/-- The discipline every call keeps. -/
def hubDiscipline (fine : Nat → HubOp → HubChoice → HubWorld → Bool) :
    Discipline (hubMachine.under fine fun _ _ _ => true) :=
  { Inv := HubInv fine
    Rely := Rely fine
    refl := Rely.refl
    trans := fun _ _ _ _ => Rely.trans
    idle := fun _ _ _ hinv hidle => hinv.idle hidle }

theorem keeps_refl (hinv : HubInv fine w) : (hubDiscipline fine).Keeps i w w :=
  ⟨hinv, fun j _ => .refl j w⟩

theorem keeps_trans (h : (hubDiscipline fine).Keeps i w u)
    (h' : (hubDiscipline fine).Keeps i u v) : (hubDiscipline fine).Keeps i w v :=
  ⟨h'.1, fun j hj => (h.2 j hj).trans (h'.2 j hj)⟩

section Record

variable {event event' : HubEvent}

theorem did_note : (w.note i event).Did event' ↔ w.Did event' ∨ event' = event := by
  constructor
  · rintro ⟨j, hj⟩
    rcases List.mem_append.mp hj with hold | hnew
    · exact .inl ⟨j, hold⟩
    · exact .inr (Prod.mk.inj (List.mem_singleton.mp hnew)).2
  · rintro (⟨j, hj⟩ | rfl)
    · exact ⟨j, List.mem_append_left _ hj⟩
    · exact ⟨i, List.mem_append_right _ List.mem_cons_self⟩

theorem mine_note_self : (w.note i event).mine i = w.mine i ++ [event] := by
  simp [mine, note]

theorem mine_note_ne {j : Nat} (h : j ≠ i) : (w.note i event).mine j = w.mine j := by
  simp [mine, note, Ne.symm h]

/-- The entries by which a pump leaves the map. -/
def HubEvent.Leaves (handle : PumpHandle) (event : HubEvent) : Prop :=
  event = .gone handle ∨ event = .released handle ∨ event = .drained handle

theorem left_note {handle : PumpHandle} :
    (w.note i event).Left handle ↔ w.Left handle ∨ event.Leaves handle := by
  simp only [Left, Gone, did_note, HubEvent.Leaves, eq_comm (a := event)]
  constructor
  · rintro ((h | h) | (h | h) | (h | h)) <;> simp only [h, true_or, or_true]
  · rintro ((h | h | h) | (h | h | h)) <;> simp only [h, true_or, or_true]

/-- An entry that starts no pump; only the holder writes that one left the map. -/
theorem keeps_note (hinv : HubInv fine w) (hi : i < w.calls.length)
    (hnew : ∀ handle, event ≠ .started handle)
    (hleaves : ∀ handle, event.Leaves handle → w.holder = some i ∧ w.Born handle ∧
      w.Stopping handle.channel ∧ (event = .gone handle → w.isOpen handle.channel = false)) :
    (hubDiscipline fine).Keeps i w (w.note i event) := by
  have hdid : ∀ e, w.Did e → (w.note i event).Did e := fun e he => did_note.mpr (.inl he)
  have hborn : ∀ handle, (w.note i event).Born handle → w.Born handle :=
    fun h hh => (did_note.mp hh).resolve_right (hnew h).symm
  have hgrown : Grown fine w (w.note i event) :=
    { Grown.refl fine w with
      did := hdid
      settled := fun _ _ => hborn
      final := fun _ hfinal =>
        ⟨hfinal.1, fun handle hb => hfinal.2.1 handle (hborn handle hb), hfinal.2.2⟩ }
  refine ⟨⟨hinv.hub.grown hgrown rfl, ?_, ?_, ?_, ?_, hinv.held⟩, ?_⟩
  · refine ⟨?_, fun handle h => hinv.pumps.within handle (hborn handle h), ?_, ?_, ?_⟩
    · intro j k handle handle' hj hk
      have hold : ∀ l h, (l, HubEvent.started h) ∈ (w.note i event).log →
          (l, HubEvent.started h) ∈ w.log := by
        intro l h hmem
        refine (List.mem_append.mp hmem).resolve_right fun hin => ?_
        exact hnew h (Prod.mk.inj (List.mem_singleton.mp hin)).2.symm
      exact hinv.pumps.unique j k handle handle' (hold j handle hj) (hold k handle' hk)
    · intro handle h
      rcases left_note.mp h with hold | hl
      · obtain ⟨hb, hs⟩ := hinv.pumps.left handle hold
        exact ⟨hdid _ hb, hs⟩
      · obtain ⟨_, hb, hs, _⟩ := hleaves handle hl
        exact ⟨hdid _ hb, hs⟩
    · intro handle h
      rcases did_note.mp h with hold | heq
      · exact hinv.pumps.gone handle hold
      · exact (hleaves handle (.inl heq.symm)).2.2.2 heq.symm
    · intro e he
      rcases List.mem_append.mp he with hold | hin
      · exact hinv.pumps.caller e hold
      · rw [List.mem_singleton.mp hin]
        exact hi
  · exact ⟨fun r q hq => hdid _ (hinv.requests.born r q hq), hinv.requests.dropped,
      hinv.requests.queue⟩
  · refine ⟨hinv.outcomes.served, fun hnever hran => ?_, hinv.outcomes.ending⟩
    obtain ⟨hs, hall⟩ := hinv.outcomes.ran hnever hran
    exact ⟨hs, fun handle h => hall handle (hborn handle h)⟩
  · intro hholder handle h hx
    have hiff := hinv.mapped hholder handle (hborn handle h) hx
    refine hiff.trans (not_congr ⟨hgrown.left, fun hl => (left_note.mp hl).resolve_right ?_⟩)
    intro hl
    cases (hleaves handle hl).1.symm.trans hholder
  · intro j hj
    refine { holder := Iff.rfl, mine := mine_note_ne hj, hub := fun _ => rfl,
             born := fun _ => hborn, left := ?_, grown := hgrown }
    intro hholder handle hl
    refine (left_note.mp hl).resolve_right fun hl => hj ?_
    rw [(hleaves handle hl).1] at hholder
    exact (Option.some.inj hholder).symm

end Record

section Lock

theorem keeps_lock (hinv : HubInv fine w) (hi : i < w.calls.length) (hfree : w.holder = none) :
    (hubDiscipline fine).Keeps i w { w with holder := some i } := by
  refine ⟨⟨⟨hinv.hub.keyed, hinv.hub.cached, hinv.hub.cap, hinv.hub.shut⟩,
    ⟨hinv.pumps.unique, hinv.pumps.within, hinv.pumps.left, hinv.pumps.gone, hinv.pumps.caller⟩,
    ⟨hinv.requests.born, hinv.requests.dropped, hinv.requests.queue⟩,
    ⟨hinv.outcomes.served, hinv.outcomes.ran, hinv.outcomes.ending⟩, ?_,
    fun j hj => Option.some.inj hj ▸ hi⟩, ?_⟩
  · intro h
    cases h
  · intro j hj
    refine { holder := ?_, mine := rfl, hub := fun _ => rfl, born := fun _ _ => id,
             left := fun _ _ => id, grown := { Grown.refl fine w with } }
    rw [hfree]
    exact ⟨fun h => absurd (Option.some.inj h).symm hj, fun h => by cases h⟩

theorem keeps_unlock (hinv : HubInv fine w) (hholder : w.holder = some i) (hmapped : w.Mapped) :
    (hubDiscipline fine).Keeps i w { w with holder := none } := by
  refine ⟨⟨⟨hinv.hub.keyed, hinv.hub.cached, hinv.hub.cap, hinv.hub.shut⟩,
    ⟨hinv.pumps.unique, hinv.pumps.within, hinv.pumps.left, hinv.pumps.gone, hinv.pumps.caller⟩,
    ⟨hinv.requests.born, hinv.requests.dropped, hinv.requests.queue⟩,
    ⟨hinv.outcomes.served, hinv.outcomes.ran, hinv.outcomes.ending⟩, fun _ => hmapped, fun _ hj =>
      (by cases hj)⟩, ?_⟩
  intro j hj
  refine { holder := ?_, mine := rfl, hub := fun _ => rfl, born := fun _ _ => id,
           left := fun _ _ => id, grown := { Grown.refl fine w with } }
  rw [hholder]
  exact ⟨fun h => (by cases h), fun h => absurd (Option.some.inj h).symm hj⟩

/-- The holder puts another hub in place. -/
theorem keeps_write {hub : Hub} (hinv : HubInv fine w) (hholder : w.holder = some i)
    (hgate : hub.gate = w.hub.gate) (hshut : w.hub.shutDown = true → hub.shutDown = true)
    (hok : HubOk fine { w with hub }) : (hubDiscipline fine).Keeps i w { w with hub } := by
  refine ⟨⟨hok,
    ⟨hinv.pumps.unique, hinv.pumps.within, hinv.pumps.left, hinv.pumps.gone, hinv.pumps.caller⟩,
    ⟨hinv.requests.born, hinv.requests.dropped, hinv.requests.queue⟩,
    ⟨hinv.outcomes.served, fun hnever hran => ?_, hinv.outcomes.ending⟩, ?_, hinv.held⟩, ?_⟩
  · obtain ⟨hs, hall⟩ := hinv.outcomes.ran hnever hran
    exact ⟨hshut hs, hall⟩
  · intro h
    cases hholder.symm.trans h
  · intro j hj
    have hother : w.holder ≠ some j := by
      rw [hholder]
      exact fun h => hj (Option.some.inj h).symm
    exact { holder := Iff.rfl, mine := rfl, hub := fun h => absurd h hother,
            born := fun _ _ => id, left := fun _ _ => id,
            grown := { Grown.refl fine w with
              gate := hgate
              shutDown := hshut
              final := fun _ hfinal => ⟨hshut hfinal.1, hfinal.2⟩ } }

end Lock

section Spawn

variable {handle : PumpHandle}

def HubWorld.born (w : HubWorld) (i : Nat) (handle : PumpHandle) : HubWorld :=
  ({ w with pumps := w.pumps ++ [{ isOpen := true, commands := [] }] } : HubWorld).note i
    (.started handle)

theorem born_born {handle' : PumpHandle} :
    (w.born i handle).Born handle' ↔ w.Born handle' ∨ handle' = handle := by
  constructor
  · intro h
    exact (did_note.mp h).imp_right HubEvent.started.inj
  · rintro (h | rfl)
    · exact did_note.mpr (.inl h)
    · exact did_note.mpr (.inr rfl)

theorem left_born {handle' : PumpHandle} : (w.born i handle).Left handle' ↔ w.Left handle' := by
  constructor
  · intro h
    refine (left_note.mp h).resolve_right ?_
    rintro (h | h | h) <;> cases h
  · exact fun h => left_note.mpr (.inl h)

theorem mine_born : (w.born i handle).mine i = w.mine i ++ [.started handle] := mine_note_self

theorem getElem_born {c : Nat} (hc : c < w.pumps.length) :
    (w.born i handle).pumps[c]? = w.pumps[c]? := List.getElem?_append_left hc

theorem did_born {event : HubEvent} (h : w.Did event) : (w.born i handle).Did event :=
  did_note.mpr (.inl h)

theorem isOpen_born {c : Nat} (hc : c < w.pumps.length) :
    (w.born i handle).isOpen c = w.isOpen c := isOpen_congr (getElem_born hc)

theorem stopping_born {c : Nat} (hc : c < w.pumps.length) :
    (w.born i handle).Stopping c ↔ w.Stopping c := stopping_congr (getElem_born hc)

theorem grown_born (hinv : HubInv fine w) (hnever : NeverLate fine → w.hub.shutDown = false) :
    Grown fine w (w.born i handle) :=
  have hlt := hinv.pumps.within
  { Grown.refl fine w with
    did := fun _ => did_born
    closed := fun h hb hc => (isOpen_born (hlt h hb)).trans hc
    stopping := fun h hb hs => (stopping_born (hlt h hb)).mpr hs
    quiet := fun hn hs => by rw [hnever hn] at hs; cases hs
    settled := fun hn hs => by rw [hnever hn] at hs; cases hs
    final := fun hn hs => by rw [Final, hnever hn] at hs; cases hs.1 }

/-- A new pump has a channel of its own, and leaves those before it as they were. -/
theorem PumpsOk.spawn (hok : PumpsOk w) (hi : i < w.calls.length)
    (hchannel : handle.channel = w.pumps.length) : PumpsOk (w.born i handle) := by
  have hlt : ∀ h, w.Born h → h.channel < w.pumps.length := hok.within
  refine ⟨?_, ?_, ?_, ?_, ?_⟩
  · intro j k h h' hj hk heq
    rcases List.mem_append.mp hj with hj | hj <;> rcases List.mem_append.mp hk with hk | hk
    · exact hok.unique j k h h' hj hk heq
    · cases List.mem_singleton.mp hk
      have := hlt h ⟨j, hj⟩
      omega
    · cases List.mem_singleton.mp hj
      have := hlt h' ⟨k, hk⟩
      omega
    · cases List.mem_singleton.mp hj
      cases List.mem_singleton.mp hk
      exact ⟨rfl, rfl⟩
  · intro h hb
    show h.channel < (w.pumps ++ [_]).length
    rw [List.length_append]
    rcases born_born.mp hb with hold | rfl
    · exact Nat.lt_succ_of_lt (hlt h hold)
    · rw [hchannel]
      exact Nat.lt_succ_self _
  · intro h hl
    obtain ⟨hb, hs⟩ := hok.left h (left_born.mp hl)
    exact ⟨did_born hb, (stopping_born (hlt h hb)).mpr hs⟩
  · intro h hg
    have hold : w.Gone h := (did_note.mp hg).resolve_right HubEvent.noConfusion
    exact (isOpen_born (hlt h (hok.left h (.inl hold)).1)).trans (hok.gone h hold)
  · intro e he
    rcases List.mem_append.mp he with hold | hin
    · exact hok.caller e hold
    · rw [List.mem_singleton.mp hin]
      exact hi

/-- Nothing is queued for a new pump. -/
theorem RequestsOk.spawn (hok : RequestsOk w) (hpumps : PumpsOk w) :
    RequestsOk (w.born i handle) := by
  refine ⟨fun r q hq => did_born (hok.born r q hq), ?_, ?_⟩
  · intro r q hq hd
    exact (isOpen_born (hpumps.within _ (hok.born r q hq))).trans (hok.dropped r q hq hd)
  · intro c pump hpump front r back hsplit
    by_cases hc : c < w.pumps.length
    · rw [getElem_born hc] at hpump
      exact hok.queue c pump hpump front r back hsplit
    · rw [show (w.born i handle).pumps = w.pumps ++ [_] from rfl,
        List.getElem?_append_right (Nat.le_of_not_lt hc)] at hpump
      cases List.mem_singleton.mp (List.mem_of_getElem? hpump)
      cases front <;> cases hsplit

/-- A spawned pump changes nothing for the other calls. -/
theorem keeps_born (hinv : HubInv fine w) (hi : i < w.calls.length) (hholder : w.holder = some i)
    (hchannel : handle.channel = w.pumps.length)
    (hnever : NeverLate fine → w.hub.shutDown = false) :
    (hubDiscipline fine).Keeps i w (w.born i handle) := by
  have hgrown : Grown fine w (w.born i handle) := grown_born hinv hnever
  refine ⟨⟨hinv.hub.grown hgrown rfl, hinv.pumps.spawn hi hchannel,
    hinv.requests.spawn hinv.pumps, ?_, ?_, hinv.held⟩, ?_⟩
  · refine ⟨hinv.outcomes.served, fun hn hran => ?_, fun hn _ hran => ?_⟩
    · have hs := (hinv.outcomes.ran hn hran).1
      rw [hnever hn] at hs
      cases hs
    · have hs := (hinv.outcomes.ran hn hran).1
      rw [hnever hn] at hs
      cases hs
  · intro hnone
    cases hholder.symm.trans hnone
  · intro j hj
    have hother : w.holder ≠ some j := by
      rw [hholder]
      exact fun h => hj (Option.some.inj h).symm
    exact { holder := Iff.rfl, mine := mine_note_ne hj, hub := fun _ => rfl,
            born := fun h => absurd h hother, left := fun _ _ => left_born.mp, grown := hgrown }

end Spawn

section RoundTrips

variable {handle : PumpHandle}

theorem keeps_quiet (hinv : HubInv fine w) (hquiet : Quiet w u) (hrequests : RequestsOk u) :
    (hubDiscipline fine).Keeps i w u :=
  ⟨hquiet.inv hinv hrequests, fun j _ => hquiet.rely j⟩

def HubWorld.asking (w : HubWorld) (handle : PumpHandle) (position : Position) (filter : Filter) :
    HubWorld :=
  { w with requests := w.requests ++ [{ handle, position, filter, state := .unsent }] }

theorem keeps_asking {position : Position} {filter : Filter} (hinv : HubInv fine w)
    (hborn : w.Born handle) :
    (hubDiscipline fine).Keeps i w (w.asking handle position filter) := by
  have hcases : ∀ (r : Nat) (q : Request), (w.asking handle position filter).requests[r]? = some q →
      w.requests[r]? = some q ∨
        q = { handle, position, filter, state := .unsent } := by
    intro r q hq
    by_cases hr : r < w.requests.length
    · exact .inl ((List.getElem?_append_left hr).symm.trans hq)
    · right
      rw [asking, List.getElem?_append_right (Nat.le_of_not_lt hr)] at hq
      exact List.mem_singleton.mp (List.mem_of_getElem? hq)
  have hold : ∀ (r : Nat) (q : Request), w.requests[r]? = some q →
      (w.asking handle position filter).requests[r]? = some q := fun r q hq =>
    (List.getElem?_append_left (List.getElem?_eq_some_iff.mp hq).1).trans hq
  refine keeps_quiet hinv ⟨rfl, rfl, rfl, rfl, rfl, rfl, fun _ => id, fun _ => id, ?_,
    fun _ => id, ?_⟩ ⟨?_, ?_, ?_⟩
  · exact fun r q hq => ⟨q, hold r q hq, rfl, id⟩
  · intro _ r q hq hs
    rcases hcases r q hq with h | rfl
    · exact ⟨q, h, hs⟩
    · cases hs
  · intro r q hq
    rcases hcases r q hq with h | rfl
    · exact hinv.requests.born r q h
    · exact hborn
  · intro r q hq hd
    rcases hcases r q hq with h | rfl
    · exact hinv.requests.dropped r q h hd
    · cases hd
  · intro c pump hpump front r back hsplit
    obtain ⟨honce, q, hq, hrest⟩ := hinv.requests.queue c pump hpump front r back hsplit
    exact ⟨honce, q, hold r q hq, hrest⟩

/-- A `Shutdown` goes to the back of a queue. -/
theorem keeps_enqueue {c : Nat} (hinv : HubInv fine w) (h : w.enqueue c .shutdown = some u) :
    (hubDiscipline fine).Keeps i w u ∧ u.Stopping c := by
  obtain ⟨pump, hpump, _, rfl⟩ := enqueue_eq_some h
  have hlt := (List.getElem?_eq_some_iff.mp hpump).1
  have hpumps : (w.setPump c { pump with commands := pump.commands ++ [.shutdown] }).pumps =
      w.pumps.set c { pump with commands := pump.commands ++ [.shutdown] } := rfl
  have hisOpen := isOpen_enqueue hpump hpumps
  refine ⟨keeps_quiet hinv ⟨rfl, rfl, rfl, rfl, rfl, List.length_set,
      fun d hd => (hisOpen d).trans hd, fun d => stopping_enqueue hpump hpumps, ?_,
      fun _ hending => hending.enqueue hpump hpumps fun _ => rfl, ?_⟩
    ⟨hinv.requests.born, ?_, ?_⟩, ?_⟩
  · exact fun r q hq => ⟨q, hq, rfl, id⟩
  · exact fun _ r q hq hs => ⟨q, hq, hs⟩
  · intro r q hq hd
    exact (hisOpen _).trans (hinv.requests.dropped r q hq hd)
  · intro d pump' hpump' front r back hsplit
    rw [hpumps] at hpump'
    rcases set_cases hpump' with ⟨rfl, rfl⟩ | ⟨_, hold⟩
    · rcases append_split hsplit with ⟨heq, _⟩ | ⟨back', hsplit'⟩
      · cases heq
      · exact hinv.requests.queue d pump hpump front r back' hsplit'
    · exact hinv.requests.queue d pump' hold front r back hsplit
  · exact .inr ⟨_, List.getElem?_set_self hlt, List.mem_append_right _ List.mem_cons_self⟩

/-- A call returns. -/
theorem keeps_answer {outcome : Outcome} (hinv : HubInv fine w)
    (hserved : ∀ r ∈ outcome.requests, ∃ q : Request, w.requests[r]? = some q ∧ q.state = .served)
    (hran : NeverLate fine → outcome = .shutDown →
      w.hub.shutDown = true ∧ ∀ handle, w.Born handle → w.Stopping handle.channel)
    (hnone : NoneWaiting fine → outcome = .shutDown → w.Ending) :
    (hubDiscipline fine).Keeps i w { w with outcomes := w.outcomes ++ [(i, outcome)] } := by
  refine ⟨⟨⟨hinv.hub.keyed, hinv.hub.cached, hinv.hub.cap, hinv.hub.shut⟩,
    ⟨hinv.pumps.unique, hinv.pumps.within, hinv.pumps.left, hinv.pumps.gone, hinv.pumps.caller⟩,
    ⟨hinv.requests.born, hinv.requests.dropped, hinv.requests.queue⟩,
    ⟨?_, ?_, ?_⟩, hinv.mapped, hinv.held⟩, ?_⟩
  · intro o ho r hr
    rcases List.mem_append.mp ho with hold | hnew
    · exact hinv.outcomes.served o hold r hr
    · rw [List.mem_singleton.mp hnew] at hr
      exact hserved r hr
  · intro hnever hshut
    rw [shutdownRan, List.any_append, Bool.or_eq_true] at hshut
    rcases hshut with hold | hnew
    · exact hinv.outcomes.ran hnever hold
    · refine hran hnever ?_
      simpa using hnew
  · intro hnever hwaiting hshut
    rw [shutdownRan, List.any_append, Bool.or_eq_true] at hshut
    rcases hshut with hold | hnew
    · exact hinv.outcomes.ending hnever hwaiting hold
    · refine hnone hwaiting ?_
      simpa using hnew
  · intro j _
    exact { holder := Iff.rfl, mine := rfl, hub := fun _ => rfl, born := fun _ _ => id,
            left := fun _ _ => id,
            grown := { Grown.refl fine w with outcomes := fun o => List.mem_append_left _ } }

end RoundTrips

section Acts

variable {c : HubChoice}

theorem ifHolder_eq_some {α : Type} {out out' : α} (h : w.ifHolder i out = some out') :
    w.holder = some i ∧ out = out' := by
  unfold ifHolder at h
  split at h
  next hholder => exact ⟨hholder, Option.some.inj h⟩
  next => cases h

theorem act_lock {r : Unit} (h : act i .lock c w = some (r, u)) :
    w.holder = none ∧ u = { w with holder := some i } := by
  cases c with
  | go =>
      change (if w.holder = none then some ((), { w with holder := some i }) else none) = _ at h
      split at h
      next hfree =>
          cases h
          exact ⟨hfree, rfl⟩
      next => cases h
  | _ => cases h

theorem act_unlock {r : Unit} (h : act i .unlock c w = some (r, u)) :
    w.holder = some i ∧ u = { w with holder := none } := by
  cases c with
  | go =>
      obtain ⟨hholder, heq⟩ := ifHolder_eq_some h
      exact ⟨hholder, (Prod.mk.inj heq).2.symm⟩
  | _ => cases h

theorem act_read {r : Hub} (h : act i .read c w = some (r, u)) :
    w.holder = some i ∧ r = w.hub ∧ u = w := by
  cases c with
  | go =>
      obtain ⟨hholder, heq⟩ := ifHolder_eq_some h
      exact ⟨hholder, (Prod.mk.inj heq).1.symm, (Prod.mk.inj heq).2.symm⟩
  | _ => cases h

theorem act_write {hub : Hub} {r : Unit} (h : act i (.write hub) c w = some (r, u)) :
    w.holder = some i ∧ u = { w with hub } := by
  cases c with
  | go =>
      obtain ⟨hholder, heq⟩ := ifHolder_eq_some h
      exact ⟨hholder, (Prod.mk.inj heq).2.symm⟩
  | _ => cases h

theorem act_askGate {topic : String} {r : Bool} (h : act i (.askGate topic) c w = some (r, u)) :
    u = if r then w.note i (.approved topic) else w := by
  cases c with
  | gate approves =>
      cases h
      rfl
  | _ => cases h

theorem act_listPartitions {topic : String} {r : Except SourceError (List Int)}
    (h : act i (.listPartitions topic) c w = some (r, u)) : u = w.note i (.listed topic r) := by
  cases c with
  | partitions answer =>
      cases h
      rfl
  | _ => cases h

theorem act_create {topic : String} {partition : Int} {r : Except SourceError Unit}
    (h : act i (.create topic partition) c w = some (r, u)) : u = w := by
  cases c with
  | source answer =>
      cases h
      rfl
  | _ => cases h

theorem act_spawn {site : Site} {topic : String} {partition : Int} {r : PumpHandle}
    (h : act i (.spawn site topic partition) c w = some (r, u)) :
    c = .go ∧ r = { topic, partition, channel := w.pumps.length } ∧ u = w.born i r := by
  cases c with
  | go =>
      cases h
      exact ⟨rfl, rfl, rfl⟩
  | _ => cases h

theorem act_isDead {handle : PumpHandle} {r : Bool}
    (h : act i (.isDead handle) c w = some (r, u)) : r = !w.isOpen handle.channel ∧ u = w := by
  cases c with
  | go =>
      cases h
      exact ⟨rfl, rfl⟩
  | _ => cases h

theorem act_subscribe {handle : PumpHandle} {position : Position} {filter : Filter} {r : Nat}
    (h : act i (.subscribe handle position filter) c w = some (r, u)) :
    r = w.requests.length ∧
      u = (w.asking handle position filter).note i (.registering handle) := by
  cases c with
  | go =>
      cases h
      exact ⟨rfl, rfl⟩
  | _ => cases h

/-- A round trip ends with the pump's answer, or with its queue. -/
theorem act_reply {request : Nat} {r : Except HubError Subscription}
    (h : act i (.reply request) c w = some (r, u)) :
    u = w ∧ ∃ q : Request, w.requests[request]? = some q ∧
      ((q.state = .served ∧ r = .ok (subscription request q)) ∨
        (q.state = .dropped ∧ r = .error .pumpClosed)) := by
  cases c with
  | go =>
      simp only [act] at h
      split at h
      next q hq =>
          split at h
          next hserved =>
              cases h
              exact ⟨rfl, q, hq, .inl ⟨hserved, rfl⟩⟩
          next hdropped =>
              cases h
              exact ⟨rfl, q, hq, .inr ⟨hdropped, rfl⟩⟩
          next => cases h
      next => cases h
  | _ => cases h

theorem act_shutdown {handle : PumpHandle} {r : Unit}
    (h : act i (.shutdown handle) c w = some (r, u)) :
    (∃ v, w.enqueue handle.channel .shutdown = some v ∧ u = v.note i (.told handle)) ∨
      (w.isOpen handle.channel = false ∧ u = w.note i (.told handle)) := by
  cases c with
  | go =>
      change (if w.isOpen handle.channel then
        (w.enqueue handle.channel .shutdown).map fun w => ((), w.note i (.told handle))
        else some ((), w.note i (.told handle))) = _ at h
      split at h
      next =>
          obtain ⟨v, henqueue, heq⟩ := Option.map_eq_some_iff.mp h
          exact .inl ⟨v, henqueue, (Prod.mk.inj heq).2.symm⟩
      next hclosed =>
          cases h
          exact .inr ⟨Bool.eq_false_iff.mpr hclosed, rfl⟩
  | _ => cases h

theorem act_answer {outcome : Outcome} {r : Unit} (h : act i (.answer outcome) c w = some (r, u)) :
    u = { w with outcomes := w.outcomes ++ [(i, outcome)] } := by
  cases c with
  | go =>
      cases h
      rfl
  | _ => cases h

theorem act_note {event : HubEvent} {r : Unit} (h : act i (.note event) c w = some (r, u)) :
    u = w.note i event := by
  cases c with
  | go =>
      cases h
      rfl
  | _ => cases h

end Acts

end Odradek.Web
