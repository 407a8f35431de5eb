import Odradek.Web.HubInvariant

/-!
Each operation, and each move of the pumps, keeps the invariant and what the
other calls rely on.
-/

namespace Odradek.Web

open Library HubWorld

variable {fine : Nat → HubOp → HubChoice → HubWorld → Bool} {i : Nat} {w u : HubWorld}

section Channels

variable {c d : Nat} {pump : PumpTask}

theorem lt_of_isOpen (h : w.isOpen c = true) : c < w.pumps.length := by
  unfold isOpen at h
  split at h
  next hpump => exact (List.getElem?_eq_some_iff.mp hpump).1
  next => cases h

theorem isOpen_of_getElem (h : w.pumps[c]? = some pump) : w.isOpen c = pump.isOpen := by
  rw [isOpen, h]

theorem isOpen_congr (h : u.pumps[c]? = w.pumps[c]?) : u.isOpen c = w.isOpen c := by
  rw [isOpen, isOpen, h]

theorem stopping_congr (h : u.pumps[c]? = w.pumps[c]?) : u.Stopping c ↔ w.Stopping c := by
  rw [Stopping, Stopping, isOpen_congr h, h]

theorem isOpen_set (hlt : d < w.pumps.length) (hpumps : u.pumps = w.pumps.set d pump) :
    u.isOpen c = if c = d then pump.isOpen else w.isOpen c := by
  by_cases h : c = d
  · rw [if_pos h, isOpen, hpumps, h, List.getElem?_set_self hlt]
  · rw [if_neg h, isOpen, isOpen, hpumps, List.getElem?_set_ne (Ne.symm h)]

/-- One pump changed, and is no less stopping than before. -/
theorem stopping_set {old : PumpTask} (hold : w.pumps[d]? = some old)
    (hpumps : u.pumps = w.pumps.set d pump)
    (hstop : old.isOpen = false ∨ .shutdown ∈ old.commands →
      pump.isOpen = false ∨ .shutdown ∈ pump.commands) (h : w.Stopping c) : u.Stopping c := by
  have hlt := (List.getElem?_eq_some_iff.mp hold).1
  by_cases hc : c = d
  · subst hc
    have hnew : u.pumps[c]? = some pump := by rw [hpumps, List.getElem?_set_self hlt]
    have hwas : old.isOpen = false ∨ .shutdown ∈ old.commands := by
      rcases h with hclosed | ⟨pump', hpump', hmem⟩
      · exact .inl (isOpen_of_getElem hold ▸ hclosed)
      · rw [hold] at hpump'
        cases hpump'
        exact .inr hmem
    rcases hstop hwas with hclosed | hmem
    · exact .inl ((isOpen_of_getElem hnew).trans hclosed)
    · exact .inr ⟨pump, hnew, hmem⟩
  · exact (stopping_congr (by rw [hpumps, List.getElem?_set_ne (Ne.symm hc)])).mpr h

theorem HubWorld.Ending.set (h : w.Ending) (hpumps : u.pumps = w.pumps.set d pump)
    (hpump : ∀ command ∈ pump.commands.head?, command = .shutdown) : u.Ending := by
  intro other hmem
  rw [hpumps] at hmem
  rcases List.mem_or_eq_of_mem_set hmem with hold | rfl
  · exact h other hold
  · exact hpump

/-- A command at the back leaves the head alone, unless the queue was empty. -/
theorem HubWorld.Ending.enqueue {command : PumpCommand} (h : w.Ending)
    (hold : w.pumps[d]? = some pump)
    (hpumps : u.pumps = w.pumps.set d { pump with commands := pump.commands ++ [command] })
    (hempty : pump.commands = [] → command = .shutdown) : u.Ending := by
  refine h.set hpumps fun next hnext => ?_
  cases hcommands : pump.commands with
  | nil =>
      rw [hcommands] at hnext
      obtain rfl : command = next := Option.some.inj hnext
      exact hempty hcommands
  | cons head rest =>
      rw [hcommands] at hnext
      refine h pump (List.mem_of_getElem? hold) next ?_
      rw [hcommands]
      exact hnext

/-- A command appended: the splits of the longer queue. -/
theorem append_split {commands front back : List PumpCommand} {x y : PumpCommand}
    (h : commands ++ [x] = front ++ y :: back) :
    (y = x ∧ front = commands) ∨ ∃ back', commands = front ++ y :: back' := by
  rcases List.eq_nil_or_concat back with rfl | ⟨back', z, rfl⟩
  · obtain ⟨hfront, hx⟩ := List.append_inj' h rfl
    exact .inl ⟨(List.cons.inj hx).1.symm, hfront.symm⟩
  · right
    refine ⟨back', ?_⟩
    rw [List.concat_eq_append, ← List.cons_append, ← List.append_assoc] at h
    exact (List.append_inj' h rfl).1

end Channels

section Quiet

structure Quiet (w u : HubWorld) : Prop where
  hub : u.hub = w.hub
  holder : u.holder = w.holder
  log : u.log = w.log
  calls : u.calls = w.calls
  outcomes : u.outcomes = w.outcomes
  length : u.pumps.length = w.pumps.length
  closed : ∀ c, w.isOpen c = false → u.isOpen c = false
  stopping : ∀ c, w.Stopping c → u.Stopping c
  requests : ∀ (r : Nat) (q : Request), w.requests[r]? = some q → ∃ q' : Request,
    u.requests[r]? = some q' ∧ q'.handle = q.handle ∧
      (q.state = .served → q'.state = .served)
  ending : (∀ handle, w.Born handle → w.Stopping handle.channel) → w.Ending → u.Ending
  registered : w.Ending → ∀ (r : Nat) (q' : Request), u.requests[r]? = some q' →
    q'.state = .served → ∃ q : Request, w.requests[r]? = some q ∧ q.state = .served

variable (h : Quiet w u)

include h

theorem Quiet.did (event : HubEvent) : u.Did event ↔ w.Did event := by rw [Did, Did, h.log]

theorem Quiet.left (handle : PumpHandle) : u.Left handle ↔ w.Left handle := by
  simp only [Left, Gone, h.did]

theorem Quiet.grown : Grown fine w u :=
  { gate := by rw [h.hub]
    shutDown := by rw [h.hub]; exact id
    did := fun event => (h.did event).mpr
    calls := Nat.le_of_eq (congrArg List.length h.calls).symm
    closed := fun handle _ => h.closed handle.channel
    stopping := fun handle _ => h.stopping handle.channel
    requests := h.requests
    outcomes := fun o ho => h.outcomes ▸ ho
    quiet := fun _ _ => h.length
    settled := fun _ _ handle => (h.did _).mp
    final := by
      rintro _ ⟨hshut, hstop, hending⟩
      rw [← h.hub] at hshut
      exact ⟨hshut, fun handle hborn => h.stopping _ (hstop handle ((h.did _).mp hborn)),
        h.ending hstop hending⟩
    registered := fun _ hfinal => h.registered hfinal.2.2 }

theorem Quiet.rely (i : Nat) : Rely fine i w u :=
  { holder := by rw [h.holder]
    mine := by rw [mine, mine, h.log]
    hub := fun _ => h.hub
    born := fun _ handle => (h.did _).mp
    left := fun _ handle => (h.left handle).mp
    grown := h.grown }

theorem Quiet.inv (hinv : HubInv fine w) (hrequests : RequestsOk u) : HubInv fine u := by
  have hgrown : Grown fine w u := h.grown
  refine ⟨hinv.hub.grown hgrown h.hub, ?_, hrequests, ?_, ?_,
    by rw [h.holder, h.calls]; exact hinv.held⟩
  · refine ⟨by rw [h.log]; exact hinv.pumps.unique, ?_, ?_, ?_,
      by rw [h.log, h.calls]; exact hinv.pumps.caller⟩
    · intro handle hborn
      rw [h.length]
      exact hinv.pumps.within handle ((h.did _).mp hborn)
    · intro handle hleft
      obtain ⟨hborn, hstop⟩ := hinv.pumps.left handle ((h.left handle).mp hleft)
      exact ⟨hgrown.did _ hborn, h.stopping _ hstop⟩
    · intro handle hgone
      exact h.closed _ (hinv.pumps.gone handle ((h.did _).mp hgone))
  · refine ⟨?_, ?_, ?_⟩
    · intro o ho r hr
      rw [h.outcomes] at ho
      obtain ⟨q, hq, hserved⟩ := hinv.outcomes.served o ho r hr
      obtain ⟨q', hq', _, hs⟩ := h.requests r q hq
      exact ⟨q', hq', hs hserved⟩
    · intro hnever hran
      rw [shutdownRan, h.outcomes] at hran
      obtain ⟨hshut, hstop⟩ := hinv.outcomes.ran hnever hran
      exact ⟨h.hub ▸ hshut, fun handle hborn =>
        h.stopping _ (hstop handle ((h.did _).mp hborn))⟩
    · intro hnever hnone hran
      rw [shutdownRan, h.outcomes] at hran
      exact h.ending (hinv.outcomes.ran hnever hran).2 (hinv.outcomes.ending hnever hnone hran)
  · intro hholder handle hborn hx
    rw [h.holder] at hholder
    rw [InMap, h.hub, h.left]
    exact hinv.mapped hholder handle ((h.did _).mp hborn) hx

end Quiet

section Weather

variable {c r : Nat}

theorem atExit_cases (c : Nat) (q : Request) :
    Request.atExit c q = q ∨
      (q.handle.channel = c ∧ q.state = .queued ∧ Request.atExit c q =
        { q with state := .dropped }) := by
  unfold Request.atExit
  split
  next h => exact .inr ⟨h.1, h.2, rfl⟩
  next => exact .inl rfl

theorem getElem_exit {q' : Request} (h : (w.exit c).requests[r]? = some q') :
    ∃ q, w.requests[r]? = some q ∧ q' = Request.atExit c q := by
  rw [exit, List.getElem?_map] at h
  obtain ⟨q, hq, rfl⟩ := Option.map_eq_some_iff.mp h
  exact ⟨q, hq, rfl⟩

/-- An exit moves nothing that other calls rely on. -/
theorem Quiet.exit (hopen : w.isOpen c = true) : Quiet w (w.exit c) := by
  have hlt := lt_of_isOpen hopen
  have hset := fun d => isOpen_set (c := d) (u := w.exit c) hlt rfl
  refine ⟨rfl, rfl, rfl, rfl, rfl, List.length_set, ?_, ?_, ?_, ?_, ?_⟩
  · intro d hd
    rw [hset]
    split
    · rfl
    · exact hd
  · exact fun d => stopping_set (List.getElem?_eq_getElem hlt) rfl fun _ => .inl rfl
  · intro r q hq
    refine ⟨Request.atExit c q, by rw [HubWorld.exit, List.getElem?_map, hq]; rfl, ?_⟩
    rcases atExit_cases c q with heq | ⟨_, hqueued, heq⟩
    · rw [heq]
      exact ⟨rfl, id⟩
    · rw [heq]
      refine ⟨rfl, fun hs => ?_⟩
      rw [hqueued] at hs
      cases hs
  · exact fun _ hending => hending.set rfl fun _ hmem => (by cases hmem)
  · intro _ r q' hq' hserved
    obtain ⟨q, hq, rfl⟩ := getElem_exit hq'
    rcases atExit_cases c q with heq | ⟨_, _, heq⟩
    · rw [heq] at hserved
      exact ⟨q, hq, hserved⟩
    · rw [heq] at hserved
      cases hserved

theorem RequestsOk.exit (h : RequestsOk w) (hopen : w.isOpen c = true) :
    RequestsOk (w.exit c) := by
  have hlt := lt_of_isOpen hopen
  have hset := fun d => isOpen_set (c := d) (u := w.exit c) hlt rfl
  refine ⟨?_, ?_, ?_⟩
  · intro r q' hq'
    obtain ⟨q, hq, rfl⟩ := getElem_exit hq'
    have hborn := h.born r q hq
    rcases atExit_cases c q with heq | ⟨_, _, heq⟩
    · exact heq.symm ▸ hborn
    · exact heq.symm ▸ hborn
  · intro r q' hq' hdropped
    obtain ⟨q, hq, rfl⟩ := getElem_exit hq'
    rw [hset]
    rcases atExit_cases c q with heq | ⟨hc, _, heq⟩
    · rw [heq] at hdropped ⊢
      rw [h.dropped r q hq hdropped, ite_self]
    · rw [heq, if_pos hc]
  · intro d pump hpump front r back hsplit
    by_cases hd : c = d
    · subst hd
      rw [HubWorld.exit, List.getElem?_set_self hlt] at hpump
      cases hpump
      cases front <;> cases hsplit
    · rw [HubWorld.exit, List.getElem?_set_ne hd] at hpump
      obtain ⟨honce, q, hq, hqueued, hchannel⟩ := h.queue d pump hpump front r back hsplit
      refine ⟨honce, q, ?_, hqueued, hchannel⟩
      rcases atExit_cases c q with heq | ⟨hc, _, _⟩
      · rw [HubWorld.exit, List.getElem?_map, hq, Option.map_some, heq]
      · exact absurd (hc.symm.trans hchannel) hd

theorem enqueue_eq_some {command : PumpCommand} (h : w.enqueue c command = some u) :
    ∃ pump, w.pumps[c]? = some pump ∧ pump.isOpen = true ∧
      u = w.setPump c { pump with commands := pump.commands ++ [command] } := by
  unfold enqueue at h
  split at h
  next pump hpump =>
      split at h
      next hroom =>
          cases h
          exact ⟨pump, hpump, hroom.1, rfl⟩
      next => cases h
  next => cases h

/-- A round trip moved on, in `u`; the pumps may have moved with it. -/
theorem Quiet.of_set {q : Request} {state : RequestState}
    (hbase : u.hub = w.hub ∧ u.holder = w.holder ∧ u.log = w.log ∧ u.calls = w.calls ∧
      u.outcomes = w.outcomes)
    (hlength : u.pumps.length = w.pumps.length)
    (hclosed : ∀ c, w.isOpen c = false → u.isOpen c = false)
    (hstopping : ∀ c, w.Stopping c → u.Stopping c)
    (hrequests : u.requests = w.requests.set r { q with state := state })
    (hq : w.requests[r]? = some q) (hserved : q.state ≠ .served)
    (hending : (∀ handle, w.Born handle → w.Stopping handle.channel) → w.Ending → u.Ending)
    (hregistered : w.Ending → state ≠ .served) : Quiet w u := by
  obtain ⟨hhub, hholder, hlog, hcalls, houtcomes⟩ := hbase
  have hlt := (List.getElem?_eq_some_iff.mp hq).1
  refine ⟨hhub, hholder, hlog, hcalls, houtcomes, hlength, hclosed, hstopping, ?_, hending, ?_⟩
  · intro r' q' hq'
    rw [hrequests]
    by_cases hr : r = r'
    · subst hr
      rw [hq] at hq'
      cases hq'
      exact ⟨_, List.getElem?_set_self hlt, rfl, fun hs => absurd hs hserved⟩
    · rw [List.getElem?_set_ne hr]
      exact ⟨q', hq', rfl, id⟩
  · intro hhead r' q' hq' hs
    rw [hrequests] at hq'
    by_cases hr : r = r'
    · subst hr
      rw [List.getElem?_set_self hlt] at hq'
      cases hq'
      exact absurd hs (hregistered hhead)
    · rw [List.getElem?_set_ne hr] at hq'
      exact ⟨q', hq', hs⟩

theorem stopping_enqueue {pump : PumpTask} {command : PumpCommand}
    (hpump : w.pumps[c]? = some pump)
    (hpumps : u.pumps = w.pumps.set c { pump with commands := pump.commands ++ [command] })
    {d : Nat} (h : w.Stopping d) : u.Stopping d :=
  stopping_set hpump hpumps (fun hs => hs.imp_right fun hm => List.mem_append_left _ hm) h

theorem isOpen_enqueue {pump : PumpTask} {command : PumpCommand}
    (hpump : w.pumps[c]? = some pump)
    (hpumps : u.pumps = w.pumps.set c { pump with commands := pump.commands ++ [command] })
    (d : Nat) : u.isOpen d = w.isOpen d := by
  rw [isOpen_set (List.getElem?_eq_some_iff.mp hpump).1 hpumps]
  split
  next hd => rw [hd, isOpen_of_getElem hpump]
  next => rfl

theorem set_cases {α : Type} {xs : List α} {k l : Nat} {x y : α}
    (h : (xs.set k x)[l]? = some y) : (l = k ∧ y = x) ∨ (l ≠ k ∧ xs[l]? = some y) := by
  by_cases hl : k = l
  · subst hl
    have hlt : k < xs.length := by
      have := (List.getElem?_eq_some_iff.mp h).1
      rwa [List.length_set] at this
    rw [List.getElem?_set_self hlt] at h
    exact .inl ⟨rfl, (Option.some.inj h).symm⟩
  · rw [List.getElem?_set_ne hl] at h
    exact .inr ⟨Ne.symm hl, h⟩

theorem RequestsOk.of_set {q q' : Request} (h : RequestsOk w) (hlog : u.log = w.log)
    (hq : w.requests[r]? = some q) (hrequests : u.requests = w.requests.set r q')
    (hhandle : q'.handle = q.handle) (hclosed : ∀ c, w.isOpen c = false → u.isOpen c = false)
    (hdropped : q'.state = .dropped → u.isOpen q.handle.channel = false)
    (hqueue : ∀ (c : Nat) (pump : PumpTask), u.pumps[c]? = some pump →
      ∀ front r' back, pump.commands = front ++ .subscribe r' :: back → .subscribe r' ∉ front ∧
        ∃ q : Request, u.requests[r']? = some q ∧ q.state = .queued ∧ q.handle.channel = c) :
    RequestsOk u := by
  refine ⟨?_, ?_, hqueue⟩
  · intro r' q'' hq''
    rw [hrequests] at hq''
    rw [HubWorld.Born, Did, hlog]
    rcases set_cases hq'' with ⟨_, rfl⟩ | ⟨_, hold⟩
    · exact hhandle ▸ h.born r q hq
    · exact h.born r' q'' hold
  · intro r' q'' hq'' hd
    rw [hrequests] at hq''
    rcases set_cases hq'' with ⟨_, rfl⟩ | ⟨_, hold⟩
    · exact hhandle ▸ hdropped hd
    · exact hclosed _ (h.dropped r' q'' hold hd)

/-- A round trip that has not gone out is in no queue. -/
theorem RequestsOk.not_queued {q : Request} (h : RequestsOk w) (hq : w.requests[r]? = some q)
    (hstate : q.state ≠ .queued) {pump : PumpTask} (hpump : w.pumps[c]? = some pump) :
    .subscribe r ∉ pump.commands := by
  intro hmem
  obtain ⟨front, back, hsplit⟩ := List.append_of_mem hmem
  obtain ⟨_, q', hq', hqueued, _⟩ := h.queue c pump hpump front r back hsplit
  rw [hq] at hq'
  cases hq'
  exact hstate hqueued

/-- A command goes to the pump behind it. -/
theorem HubInv.send_open {q : Request} {pump : PumpTask} (hinv : HubInv fine w)
    (hq : w.requests[r]? = some q) (hunsent : q.state = .unsent)
    (hpump : w.pumps[q.handle.channel]? = some pump) (hopen : pump.isOpen = true)
    (hu : u = (w.setPump q.handle.channel
        { pump with commands := pump.commands ++ [.subscribe r] }).setRequest r
      { q with state := .queued }) :
    Quiet w u ∧ RequestsOk u := by
  have hserved : q.state ≠ .served := by rw [hunsent]; exact RequestState.noConfusion
  have hqueued : q.state ≠ .queued := by rw [hunsent]; exact RequestState.noConfusion
  have hpumps : u.pumps = w.pumps.set q.handle.channel
      { pump with commands := pump.commands ++ [.subscribe r] } := by rw [hu]; rfl
  have hrequests : u.requests =
      w.requests.set r { q with state := .queued } := by rw [hu]; rfl
  have hisOpen := isOpen_enqueue hpump hpumps
  have hlt := (List.getElem?_eq_some_iff.mp hq).1
  refine ⟨?_, ?_⟩
  · refine Quiet.of_set (by rw [hu]; exact ⟨rfl, rfl, rfl, rfl, rfl⟩)
      (by rw [hpumps, List.length_set]) (fun d hd => (hisOpen d).trans hd)
      (fun d => stopping_enqueue hpump hpumps) hrequests hq hserved ?_
      (fun _ => RequestState.noConfusion)
    intro hstop hending
    refine hending.enqueue hpump hpumps fun hempty => ?_
    -- The pump is stopping and still open: its `Shutdown` is ahead.
    rcases hstop _ (hinv.requests.born r q hq) with hcl | ⟨pump', hpump', hmem⟩
    · rw [isOpen_of_getElem hpump, hopen] at hcl
      cases hcl
    · obtain rfl : pump = pump' := Option.some.inj (hpump.symm.trans hpump')
      rw [hempty] at hmem
      cases hmem
  · refine hinv.requests.of_set (by rw [hu]; rfl) hq hrequests rfl
      (fun d hd => (hisOpen d).trans hd) RequestState.noConfusion ?_
    have hothers : ∀ d (pump' : PumpTask), w.pumps[d]? = some pump' → ∀ front r' back,
        pump'.commands = front ++ .subscribe r' :: back → .subscribe r' ∉ front ∧
        ∃ q : Request, u.requests[r']? = some q ∧ q.state = .queued ∧ q.handle.channel = d := by
      intro d pump' hpump' front r' back hsplit
      obtain ⟨honce, q', hq', hrest⟩ := hinv.requests.queue d pump' hpump' front r' back hsplit
      refine ⟨honce, q', ?_, hrest⟩
      have hne : r ≠ r' := by
        rintro rfl
        rw [hq] at hq'
        cases hq'
        exact hqueued hrest.1
      rw [hrequests, List.getElem?_set_ne hne, hq']
    intro d pump' hpump' front r' back hsplit
    rw [hpumps] at hpump'
    rcases set_cases hpump' with ⟨rfl, rfl⟩ | ⟨_, hold⟩
    · rcases append_split hsplit with ⟨heq, rfl⟩ | ⟨back', hsplit'⟩
      · cases heq
        refine ⟨hinv.requests.not_queued hq hqueued hpump,
          { q with state := .queued }, ?_, rfl, rfl⟩
        rw [hrequests, List.getElem?_set_self hlt]
      · exact hothers _ pump hpump front r' back' hsplit'
    · exact hothers d pump' hold front r' back hsplit

/-- A command finds its pump gone. -/
theorem HubInv.send_closed {q : Request} (hinv : HubInv fine w)
    (hq : w.requests[r]? = some q) (hunsent : q.state = .unsent)
    (hclosed : w.isOpen q.handle.channel = false)
    (hu : u = w.setRequest r { q with state := .dropped }) :
    Quiet w u ∧ RequestsOk u := by
  have hserved : q.state ≠ .served := by rw [hunsent]; exact RequestState.noConfusion
  have hqueued : q.state ≠ .queued := by rw [hunsent]; exact RequestState.noConfusion
  have hrequests : u.requests = w.requests.set r { q with state := .dropped } := by rw [hu]; rfl
  have hpumps : u.pumps = w.pumps := by rw [hu]; rfl
  refine ⟨?_, ?_⟩
  · refine Quiet.of_set (by rw [hu]; exact ⟨rfl, rfl, rfl, rfl, rfl⟩) (by rw [hpumps])
      (fun d hd => by rwa [isOpen, hpumps]) (fun d hd => ?_) hrequests hq hserved ?_
      (fun _ => RequestState.noConfusion)
    · exact (stopping_congr (by rw [hpumps])).mpr hd
    · intro _ hending
      rwa [Ending, hpumps]
  · refine hinv.requests.of_set (by rw [hu]; rfl) hq hrequests rfl
      (fun d hd => by rwa [isOpen, hpumps]) (fun _ => by rwa [isOpen, hpumps]) ?_
    intro d pump hpump front r' back hsplit
    rw [hpumps] at hpump
    obtain ⟨honce, q', hq', hrest⟩ := hinv.requests.queue d pump hpump front r' back hsplit
    refine ⟨honce, q', ?_, hrest⟩
    have hne : r ≠ r' := by
      rintro rfl
      rw [hq] at hq'
      cases hq'
      exact hqueued hrest.1
    rw [hrequests, List.getElem?_set_ne hne, hq']

/-- A command that arrives moves nothing else, and its queue stays in order. -/
theorem HubInv.send (hinv : HubInv fine w) (h : w.send r = some u) :
    Quiet w u ∧ RequestsOk u := by
  unfold HubWorld.send at h
  split at h
  next q hq =>
      split at h
      next hunsent =>
          split at h
          next =>
              obtain ⟨v, henqueue, rfl⟩ := Option.map_eq_some_iff.mp h
              obtain ⟨pump, hpump, hopen, rfl⟩ := enqueue_eq_some henqueue
              exact hinv.send_open hq hunsent hpump hopen rfl
          next hclosed =>
              cases h
              exact hinv.send_closed hq hunsent (Bool.eq_false_iff.mpr hclosed) rfl
      next => cases h
  next => cases h

/-- The pump answers the command at the head of its queue. -/
theorem HubInv.serve_subscribe {q : Request} {pump : PumpTask} {rest : List PumpCommand}
    (hinv : HubInv fine w) (hpump : w.pumps[c]? = some pump)
    (hcommands : pump.commands = .subscribe r :: rest) (hq : w.requests[r]? = some q)
    (hu : u = (w.setPump c { pump with commands := rest }).setRequest r
      { q with state := .served }) :
    Quiet w u ∧ RequestsOk u := by
  have hpumps : u.pumps = w.pumps.set c { pump with commands := rest } := by rw [hu]; rfl
  have hrequests : u.requests = w.requests.set r { q with state := .served } := by rw [hu]; rfl
  obtain ⟨_, q', hq', hqueued, hchannel⟩ :=
    hinv.requests.queue c pump hpump [] r rest hcommands
  obtain rfl : q = q' := Option.some.inj (hq.symm.trans hq')
  have hserved : q.state ≠ .served := by rw [hqueued]; exact RequestState.noConfusion
  have hlt := (List.getElem?_eq_some_iff.mp hpump).1
  have hisOpen : ∀ d, u.isOpen d = w.isOpen d := by
    intro d
    rw [isOpen_set hlt hpumps]
    split
    next hd => rw [hd, isOpen_of_getElem hpump]
    next => rfl
  have hstopping : ∀ d, w.Stopping d → u.Stopping d := by
    intro d
    refine stopping_set hpump hpumps fun hs => hs.imp_right fun hm => ?_
    rw [hcommands] at hm
    exact (List.mem_cons.mp hm).resolve_left PumpCommand.noConfusion
  -- An ending pump has no round trip to take.
  have hnot : ¬ w.Ending := by
    intro hending
    have hhead := hending pump (List.mem_of_getElem? hpump) (.subscribe r)
    rw [hcommands] at hhead
    cases hhead rfl
  refine ⟨?_, ?_⟩
  · exact Quiet.of_set (by rw [hu]; exact ⟨rfl, rfl, rfl, rfl, rfl⟩)
      (by rw [hpumps, List.length_set]) (fun d hd => (hisOpen d).trans hd) hstopping hrequests hq
      hserved (fun _ hending => absurd hending hnot) fun hending => absurd hending hnot
  · refine hinv.requests.of_set (by rw [hu]; rfl) hq hrequests rfl
      (fun d hd => (hisOpen d).trans hd) RequestState.noConfusion ?_
    intro d pump' hpump' front r' back hsplit
    rw [hpumps] at hpump'
    rcases set_cases hpump' with ⟨rfl, rfl⟩ | ⟨hd, hold⟩
    · have hsplit' : pump.commands = (.subscribe r :: front) ++ .subscribe r' :: back := by
        rw [hcommands, List.cons_append]
        exact congrArg _ hsplit
      obtain ⟨honce, q', hq', hqueued', hchannel'⟩ :=
        hinv.requests.queue d pump hpump _ r' back hsplit'
      have hne : r ≠ r' := by
        rintro rfl
        exact honce List.mem_cons_self
      refine ⟨fun hm => honce (List.mem_cons_of_mem _ hm), q', ?_, hqueued', hchannel'⟩
      rw [hrequests, List.getElem?_set_ne hne, hq']
    · obtain ⟨honce, q', hq', hqueued', hchannel'⟩ :=
        hinv.requests.queue d pump' hold front r' back hsplit
      refine ⟨honce, q', ?_, hqueued', hchannel'⟩
      have hne : r ≠ r' := by
        rintro rfl
        rw [hq] at hq'
        cases hq'
        exact hd (hchannel'.symm.trans hchannel)
      rw [hrequests, List.getElem?_set_ne hne, hq']

/-- A pump that takes a command moves nothing that other calls rely on. -/
theorem HubInv.serve (hinv : HubInv fine w) (h : w.serve c = some u) :
    Quiet w u ∧ RequestsOk u := by
  unfold HubWorld.serve at h
  split at h
  next pump hpump =>
      split at h
      next hopen =>
          split at h
          next r rest hcommands =>
              split at h
              next q hq =>
                  cases h
                  exact hinv.serve_subscribe hpump hcommands hq rfl
              next => cases h
          next =>
              cases h
              have hisOpen := (isOpen_of_getElem hpump).trans hopen
              exact ⟨.exit hisOpen, hinv.requests.exit hisOpen⟩
          next => cases h
      next => cases h
  next => cases h

/-- Whatever the pumps do. -/
theorem HubInv.idle {e : Weather} (hinv : HubInv fine w) (h : HubWorld.idle e w = some u) :
    HubInv fine u ∧ ∀ i, Rely fine i w u := by
  have hquiet : Quiet w u ∧ RequestsOk u := by
    cases e with
    | send r => exact hinv.send h
    | serve c => exact hinv.serve h
    | die c =>
        simp only [HubWorld.idle] at h
        split at h
        next hopen =>
            cases h
            exact ⟨.exit hopen, hinv.requests.exit hopen⟩
        next => cases h
  exact ⟨hquiet.1.inv hinv hquiet.2, hquiet.1.rely⟩

end Weather

end Odradek.Web
