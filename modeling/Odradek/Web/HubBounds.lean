import Odradek.Web.HubShared

/-!
Every interleaving of calls: the pumps stay within the gate, within the cap
where a respawn has a place for its pump, and a shutdown is final where no
respawn comes after it and no round trip waits ahead of it.
-/

namespace Odradek.Web

open Library HubWorld

variable {fine : Nat → HubOp → HubChoice → HubWorld → Bool} {i : Nat} {s t u v w : HubWorld}
  {outcome : Outcome}

section Calls

variable (fine) in
/-- What a call has to show for its outcome. -/
structure Vouched (outcome : Outcome) (w : HubWorld) : Prop where
  served : ∀ r ∈ outcome.requests,
    ∃ q : Request, w.requests[r]? = some q ∧ q.state = .served
  final : NeverLate fine → outcome = .shutDown →
    w.hub.shutDown = true ∧ ∀ handle, w.Born handle → w.Stopping handle.channel

theorem Vouched.grown (h : Vouched fine outcome s) (hgrown : Grown fine s t) :
    Vouched fine outcome t := by
  refine ⟨?_, ?_⟩
  · intro r hr
    obtain ⟨q, hq, hserved⟩ := h.served r hr
    obtain ⟨q', hq', _, hs⟩ := hgrown.requests r q hq
    exact ⟨q', hq', hs hserved⟩
  · intro hnever hshut
    obtain ⟨hdown, hall⟩ := h.final hnever hshut
    refine ⟨hgrown.shutDown hdown, fun handle hborn => ?_⟩
    have hold := hgrown.settled hnever hdown handle hborn
    exact hgrown.stopping handle hold (hall handle hold)

theorem Vouched.ofTry {α : Type} {requests : α → List Nat} {ok : α → Outcome}
    {r : Except HubError α} (h : Served requests w r) (hok : ∀ a, (ok a).requests = requests a)
    (hne : ∀ a, ok a ≠ .shutDown) : Vouched fine (.ofTry ok r) w := by
  cases r with
  | ok a =>
      refine ⟨fun request hm => h a rfl request (hok a ▸ hm), fun _ hshut => absurd hshut (hne a)⟩
  | error e => exact ⟨fun _ hm => absurd hm List.not_mem_nil, fun _ hshut => (by cases hshut)⟩

theorem ofTry_failed {α : Type} {ok : α → Outcome} {r : Except HubError α} {e : HubError}
    (hok : ∀ a, ok a ≠ .failed e) (h : Outcome.ofTry ok r = .failed e) : r = .error e := by
  cases r with
  | ok a => exact absurd h (hok a)
  | error e' =>
      cases h
      rfl

/-- What a failed call of this kind has undone. -/
def HubCall.Undoes (i : Nat) (w : HubWorld) : HubCall → Prop
  | .shared (.subscribeTopic _ _ _) => RolledBack i false w
  | .owned (.subscribeTopic _ _ _) => RolledBack i true w
  | _ => True

/-- A call that owns the hub serves as recorded, and undoes what it fails at. -/
theorem sat_owned {request : HubRequest} {Q : Outcome → HubWorld → Prop}
    (hholder : s.holder = some i) (hmapped : s.Mapped) (hmine : s.mine i = [])
    (k : ∀ outcome t, t.holder = some i → t.Mapped → HubInv fine t → Vouched fine outcome t →
      (∀ e, outcome = .failed e → (HubCall.owned request).Undoes i t) → Q outcome t) :
    HubSat fine i request.owned Q s := by
  have hstart : Held fine i (fun _ => True) s s := .start hholder hmapped
  cases request with
  | subscribe topic partition position filter =>
      refine Discipline.Sat.bind (sat_subscribe hstart (fun _ _ => trivial) (fun _ => trivial) ?_)
      intro r t ht hinv _ hserved u hrely hinv'
      have hu := ht.rely hrely
      exact k _ u hu.holder hu.mapped hinv' (.ofTry (hserved.grown hrely.grown)
        (fun _ => rfl) fun _ => Outcome.noConfusion) fun _ _ => trivial
  | subscribeTopic topic position filter =>
      refine Discipline.Sat.bind (sat_subscribeTopic hholder hmapped hmine ?_)
      intro r t hheld hmapped' hinv _ hserved hundone u hrely hinv'
      refine k _ u (hrely.holder.mpr hheld) (MappedBut.rely hmapped' hheld hrely) hinv'
        (.ofTry (hserved.grown hrely.grown) (fun _ => rfl) fun _ => Outcome.noConfusion) ?_
      intro e heq
      exact (hundone e (ofTry_failed (fun _ => Outcome.noConfusion) heq)).of_mine
        hrely.grown hrely.mine
  | reapExitedPumps =>
      refine Discipline.Sat.bind (sat_reapExitedPumps hstart (fun _ => trivial) ?_)
      intro count pumps t ht hinv _ _ _ u hrely hinv'
      have hu := ht.rely hrely
      exact k _ u hu.holder hu.mapped hinv'
        ⟨fun _ hm => absurd hm List.not_mem_nil, fun _ hshut => (by cases hshut)⟩
        fun _ _ => trivial
  | forgetTopics =>
      refine Discipline.Sat.bind (Discipline.Sat.bind (sat_read hstart ?_))
      intro t _ ht hinv hhub
      refine sat_write ht (by rw [hhub]) (by rw [hhub]; exact id) ?_ ?_ ?_ ?_ (Y := [])
      · intro u _ hinv' hhub'
        have hok := hinv'.hub.forgetTopics
        rw [hhub', hhub] at hok
        exact hok
      · intro u hu _ hhub' handle hborn hnot
        rw [← hhub, ← hhub']
        exact hu.mapped handle hborn hnot
      · exact fun _ _ hlookup => .inl (hhub ▸ hlookup)
      · intro u hu hinv' _ _ _ v hrely hinv''
        have hv := hu.rely hrely
        exact k _ v hv.holder hv.mapped hinv''
          ⟨fun _ hm => absurd hm List.not_mem_nil, fun _ hshut => (by cases hshut)⟩
          fun _ _ => trivial
  | shutdown =>
      refine Discipline.Sat.bind (sat_hubShutdown hholder hmapped ?_)
      intro t hheld hmapped' hinv _ hdown hall u hrely hinv'
      have hvouched : Vouched fine .shutDown t :=
        ⟨fun _ hm => absurd hm List.not_mem_nil, fun _ _ => ⟨hdown, hall⟩⟩
      exact k _ u (hrely.holder.mpr hheld) (MappedBut.rely hmapped' hheld hrely) hinv'
        (hvouched.grown hrely.grown) fun _ _ => trivial

theorem HubCall.Undoes.of_mine {call : HubCall} (h : call.Undoes i s) (hgrown : Grown fine s t)
    (hmine : t.mine i = s.mine i) : call.Undoes i t := by
  cases call with
  | shared request =>
      cases request <;> first | trivial | exact RolledBack.of_mine h hgrown hmine
  | owned request =>
      cases request <;> first | trivial | exact RolledBack.of_mine h hgrown hmine

/-- A call with the lock over all of it. -/
theorem sat_lockedOwned {request : HubRequest} {Q : Outcome → HubWorld → Prop}
    (hmine : s.mine i = [])
    (k : ∀ outcome t, t.holder ≠ some i → HubInv fine t → Vouched fine outcome t →
      (∀ e, outcome = .failed e → (HubCall.owned request).Undoes i t) → Q outcome t) :
    HubSat fine i (locked request.owned) Q s := by
  refine sat_locked fun t hholder hmapped _ hmine' _ => ?_
  refine sat_owned hholder hmapped (hmine'.trans hmine) ?_
  intro outcome u hheld hmapped' _ hvouched hundone
  refine ⟨hheld, hmapped', fun v hgrown hmine_v hfree hinv => k outcome v hfree hinv
    (hvouched.grown hgrown) fun e heq => ?_⟩
  exact (hundone e heq).of_mine hgrown hmine_v

/-- So does any call, whoever shares the hub. -/
theorem sat_outcome {call : HubCall} {Q : Outcome → HubWorld → Prop} (hmine : s.mine i = [])
    (hfree : s.holder ≠ some i)
    (k : ∀ outcome t, t.holder ≠ some i → HubInv fine t → Vouched fine outcome t →
      (∀ e, outcome = .failed e → call.Undoes i t) → Q outcome t) :
    HubSat fine i call.outcome Q s := by
  cases call with
  | owned request => exact sat_lockedOwned hmine k
  | shared request =>
  cases request with
  | subscribe topic partition position filter =>
      have hstart : Roam fine i (fun _ => True) s s := ⟨.start, hfree⟩
      refine Discipline.Sat.bind (sat_sharedSubscribe hstart (fun _ _ => trivial)
        (fun _ => trivial) ?_)
      intro r t ht hinv _ hserved u hrely hinv'
      exact k _ u (ht.rely hrely).free hinv' (.ofTry (hserved.grown hrely.grown) (fun _ => rfl)
        fun _ => Outcome.noConfusion) fun _ _ => trivial
  | subscribeTopic topic position filter =>
      refine Discipline.Sat.bind (sat_sharedTopic hmine hfree ?_)
      intro r t hfree' hinv _ hserved hundone u hrely hinv'
      refine k _ u (fun hholder => hfree' (hrely.holder.mp hholder)) hinv'
        (.ofTry (hserved.grown hrely.grown) (fun _ => rfl)
        fun _ => Outcome.noConfusion) fun e heq => ?_
      exact (hundone e (ofTry_failed (fun _ => Outcome.noConfusion) heq)).of_mine
        hrely.grown hrely.mine
  | reapExitedPumps | forgetTopics | shutdown =>
      exact sat_lockedOwned hmine fun outcome t hfree' hinv hvouched _ =>
        k outcome t hfree' hinv hvouched fun _ _ => trivial

theorem keeps_begin {call : HubCall} (hinv : HubInv fine s)
    (hbegin : HubWorld.begin i call s = some t) :
    (hubDiscipline fine).Keeps i s t ∧ t.mine i = [] ∧ t.holder ≠ some i := by
  unfold HubWorld.begin at hbegin
  split at hbegin
  next hlength =>
      cases hbegin
      have hle : s.calls.length ≤ (s.calls ++ [call]).length := by
        rw [List.length_append]
        exact Nat.le_add_right _ _
      refine ⟨⟨⟨⟨hinv.hub.keyed, hinv.hub.cached, hinv.hub.cap, hinv.hub.shut⟩,
        ⟨hinv.pumps.unique, hinv.pumps.within, hinv.pumps.left, hinv.pumps.gone,
          fun e he => Nat.lt_of_lt_of_le (hinv.pumps.caller e he) hle⟩,
        ⟨hinv.requests.born, hinv.requests.dropped, hinv.requests.queue⟩,
        ⟨hinv.outcomes.served, hinv.outcomes.ran, hinv.outcomes.ending⟩, hinv.mapped,
        fun j hj => Nat.lt_of_lt_of_le (hinv.held j hj) hle⟩, ?_⟩, ?_⟩
      · intro j _
        exact { holder := Iff.rfl, mine := rfl, hub := fun _ => rfl, born := fun _ _ => id,
                left := fun _ _ => id, grown := { Grown.refl fine s with calls := hle } }
      · refine ⟨?_, fun hholder => Nat.lt_irrefl i (hlength ▸ hinv.held i hholder)⟩
        show (s.log.filter fun e => e.1 = i).map (·.2) = []
        rw [List.map_eq_nil_iff, List.filter_eq_nil_iff]
        intro e he heq
        have hlt := hinv.pumps.caller e he
        rw [hlength, of_decide_eq_true heq] at hlt
        exact Nat.lt_irrefl _ hlt
  next => cases hbegin

/-- Every call keeps the discipline to its end. -/
theorem hub_starts : (hubDiscipline fine).Starts := by
  intro i call s t hinv hbegin
  obtain ⟨hkeeps, hmine, hfree⟩ := keeps_begin hinv hbegin
  refine ⟨hkeeps, Discipline.Sat.bind (sat_outcome hmine hfree ?_)⟩
  intro outcome u _ _ hvouched _
  exact sat_answer hvouched.served hvouched.final fun _ => trivial

/-- A hub of which nothing has been asked is in order. -/
theorem HubInv.initial (h : w.Initial) : HubInv fine w := by
  obtain ⟨gate, maxPumps, rfl⟩ := h
  refine ⟨⟨?_, ?_, ?_, ?_⟩, ⟨?_, ?_, ?_, ?_, ?_⟩, ⟨?_, ?_, ?_⟩, ⟨?_, ?_, ?_⟩, ?_,
    fun _ hj => (by cases hj)⟩
  · exact fun _ _ hlookup => (by cases hlookup)
  · exact fun _ _ hlookup => (by cases hlookup)
  · exact fun _ => Nat.zero_le _
  · exact fun _ _ => rfl
  · exact fun _ _ _ _ hm => absurd hm List.not_mem_nil
  · exact fun _ ⟨_, hm⟩ => absurd hm List.not_mem_nil
  · rintro handle (⟨_, hm⟩ | ⟨_, hm⟩ | ⟨_, hm⟩) <;> exact absurd hm List.not_mem_nil
  · exact fun _ ⟨_, hm⟩ => absurd hm List.not_mem_nil
  · exact fun _ hm => absurd hm List.not_mem_nil
  · exact fun _ _ hq => (by cases hq)
  · exact fun _ _ hq => (by cases hq)
  · exact fun _ _ hpump => (by cases hpump)
  · exact fun _ hm => absurd hm List.not_mem_nil
  · exact fun _ hran => (by cases hran)
  · exact fun _ _ hran => (by cases hran)
  · exact fun _ _ ⟨_, hm⟩ => absurd hm List.not_mem_nil

/-- Every pool some run reaches keeps the invariant. -/
theorem hub_reaches (fine : Nat → HubOp → HubChoice → HubWorld → Bool)
    {pool : Pool HubWorld HubOp HubOp.Res}
    (h : (hubMachine.under fine fun _ _ _ => true).Reaches HubWorld.Initial pool) :
    (hubDiscipline fine).Holds pool :=
  .of_reaches hub_starts (fun _ => .initial) h

end Calls

section Gate

/-- No pump outside the gate, and none for a partition the source did not list. -/
theorem pumps_vetted {pool : Pool HubWorld HubOp HubOp.Res} {key : PumpKey}
    (h : hubMachine.Reaches HubWorld.Initial pool) (hkey : key ∈ pool.shared.hub.pumps) :
    pool.shared.Vetted key := by
  have hholds := hub_reaches (fun _ _ _ _ => true) h
  obtain ⟨handle, hlookup⟩ := Option.isSome_iff_exists.mp (AList.lookup_isSome.mpr hkey)
  exact (hholds.1.hub.keyed key handle hlookup).2.2

end Gate

section Cap

/-- A respawn starts a pump where its key still has an entry, or one is free. -/
def respawnsInPlace (_ : Nat) (op : HubOp) (_ : HubChoice) (w : HubWorld) : Bool :=
  match op with
  | .spawn .respawn topic partition =>
    decide ((topic, partition) ∈ w.hub.pumps ∨ w.hub.pumps.entries.length < w.hub.maxPumps)
  | _ => true

theorem respawnsInPlace_roomKept : RoomKept respawnsInPlace :=
  fun _ _ _ _ _ h => of_decide_eq_true h

theorem pumps_le_maxPumps {pool : Pool HubWorld HubOp HubOp.Res}
    (h : (hubMachine.under respawnsInPlace fun _ _ _ => true).Reaches HubWorld.Initial pool) :
    pool.shared.hub.pumps.entries.length ≤ pool.shared.hub.maxPumps :=
  (hub_reaches _ h).1.hub.cap respawnsInPlace_roomKept

end Cap

section Final

/-- A respawn finds the hub up, and a shutdown returns when nobody is queued ahead of it. -/
def timely (_ : Nat) (op : HubOp) (_ : HubChoice) (w : HubWorld) : Bool :=
  match op with
  | .spawn .respawn _ _ => !w.hub.shutDown
  | .answer .shutDown => decide w.Ending
  | _ => true

theorem timely_neverLate : NeverLate timely :=
  fun _ _ _ _ _ h => Bool.not_eq_true' _ ▸ h

theorem timely_noneWaiting : NoneWaiting timely := fun _ _ _ h => of_decide_eq_true h

abbrev TimelyMachine : HubMachine := hubMachine.under timely fun _ _ _ => true

/-- Of a shutdown that has returned in `pool`: the map is empty, no pump is started, and the
only subscriptions handed out are those a pump had registered by then. -/
def ShutdownFinal (pool later : Pool HubWorld HubOp HubOp.Res) : Prop :=
  later.shared.hub.pumps.entries = [] ∧
    later.shared.pumps.length = pool.shared.pumps.length ∧
    (∀ handle, later.shared.Born handle → pool.shared.Born handle) ∧
    ∀ o ∈ later.shared.outcomes, ∀ r ∈ o.2.requests,
      ∃ q : Request, pool.shared.requests[r]? = some q ∧ q.state = .served

theorem shutdown_final {pool later : Pool HubWorld HubOp HubOp.Res}
    (h : TimelyMachine.Reaches HubWorld.Initial pool) (hran : pool.shared.shutdownRan = true)
    (hlater : TimelyMachine.Later pool later) : ShutdownFinal pool later := by
  have hnever := timely_neverLate
  have hholds := hub_reaches _ h
  obtain ⟨hholds', hrely⟩ := hholds.later hub_starts hlater
  have hgrown : Grown timely pool.shared later.shared :=
    (hrely later.tasks.length (Nat.le_refl _)).grown
  obtain ⟨hdown, hstopping⟩ := hholds.1.outcomes.ran hnever hran
  have hending := hholds.1.outcomes.ending hnever timely_noneWaiting hran
  refine ⟨hholds'.1.hub.shut hnever (hgrown.shutDown hdown), hgrown.quiet hnever hdown,
    hgrown.settled hnever hdown, ?_⟩
  intro o ho r hr
  obtain ⟨q', hq', hserved⟩ := hholds'.1.outcomes.served o ho r hr
  exact hgrown.registered hnever ⟨hdown, hstopping, hending⟩ r q' hq' hserved

end Final

section Runs

abbrev HubMove := Move HubChoice HubCall Weather

def steps (i n : Nat) : List HubMove := List.replicate n (.act i .go)

def subscribeCall (partition : Int) : HubMove :=
  .start (.shared (.subscribe "t" partition .earliest .default))

/-- Call 0 starts the pump of partition 0, and its command is on its way there. -/
def onePump : List HubMove :=
  subscribeCall 0 :: steps 0 5 ++ [.act 0 (.partitions (.ok [0, 1]))] ++ steps 0 5 ++
    [.act 0 (.source (.ok ()))] ++ steps 0 5 ++ [.idle (.send 0)]

def oneSubscriber : List HubMove := onePump ++ .idle (.serve 0) :: steps 0 2

/-- Call 1 starts the pump of partition 1, and has yet to subscribe. -/
def secondPump : List HubMove :=
  subscribeCall 1 :: steps 1 9 ++ [.act 1 (.source (.ok ()))] ++ steps 1 4

/-- Call 1 is handed that pump, and has yet to subscribe. -/
def twoSubscribers : List HubMove := oneSubscriber ++ subscribeCall 0 :: steps 1 5

/-- Call 1 finds its pump gone, and starts another in its place. -/
def respawned : List HubMove :=
  steps 1 1 ++ [.idle (.send 1)] ++ steps 1 4 ++ [.act 1 (.source (.ok ()))] ++ steps 1 4

/-- The pump dies, and its slot goes to partition 1 before call 1 is back. -/
def slotTaken : List HubMove :=
  twoSubscribers ++ .idle (.die 0) :: subscribeCall 1 :: steps 2 10 ++
    [.act 2 (.source (.ok ()))] ++ steps 2 4 ++ respawned

/-- Two pumps under a cap of one, and the lock free. -/
theorem not_pumps_le_maxPumps : ¬ ∀ pool, hubMachine.Reaches HubWorld.Initial pool →
    pool.shared.holder = none →
    pool.shared.hub.pumps.entries.length ≤ pool.shared.hub.maxPumps := by
  intro h
  have hplay : (hubMachine.play (.fresh (.fresh (.new .any 1))) slotTaken).map
      (fun pool => (pool.shared.holder, pool.shared.hub.pumps.entries.length,
        pool.shared.hub.maxPumps)) = some (none, 2, 1) := by decide
  obtain ⟨pool, hpool, heq⟩ := Option.map_eq_some_iff.mp hplay
  obtain ⟨hfree, hlength, hmax⟩ : pool.shared.holder = none ∧
      pool.shared.hub.pumps.entries.length = 2 ∧ pool.shared.hub.maxPumps = 1 := by
    simpa only [Prod.mk.injEq] using heq
  have hle := h pool (.of_play ⟨_, _, rfl⟩ hpool) hfree
  rw [hlength, hmax] at hle
  exact absurd hle (by decide)

/-- The pump of partition 0 dies, and call 1 puts another in its place, under a cap of one. -/
theorem pumps_le_maxPumps_respawned : ∃ pool : Pool HubWorld HubOp HubOp.Res,
    pool.shared.pumps.length = 2 ∧ pool.shared.hub.pumps.entries.length = 1 ∧
      pool.shared.hub.pumps.entries.length ≤ pool.shared.hub.maxPumps := by
  have hplay : ((hubMachine.under respawnsInPlace fun _ _ _ => true).play
      (.fresh (.fresh (.new .any 1))) (twoSubscribers ++ .idle (.die 0) :: respawned)).map
      (fun pool => (pool.shared.pumps.length, pool.shared.hub.pumps.entries.length)) =
        some (2, 1) := by decide
  obtain ⟨pool, hpool, hlengths⟩ := Option.map_eq_some_iff.mp hplay
  obtain ⟨hstarted, hlength⟩ := Prod.mk.inj hlengths
  exact ⟨pool, hstarted, hlength, pumps_le_maxPumps (.of_play ⟨_, _, rfl⟩ hpool)⟩

/-- A shutdown comes and goes before call 1 is back. -/
def shutDownMeanwhile : List HubMove := twoSubscribers ++ .start (.shared .shutdown) :: steps 2 9

/-- A shutdown comes and goes while call 0 is queued. -/
def shutDownBehind : List HubMove := onePump ++ .start (.shared .shutdown) :: steps 1 9

def respawnsInTime (_ : Nat) (op : HubOp) (_ : HubChoice) (w : HubWorld) : Bool :=
  match op with
  | .spawn .respawn _ _ => !w.hub.shutDown
  | _ => true

/-- A late respawn fills the map again; without one, call 0 is still registered. -/
theorem not_shutdown_final :
    (¬ ∀ pool later, hubMachine.Reaches HubWorld.Initial pool → pool.shared.shutdownRan = true →
      hubMachine.Later pool later → ShutdownFinal pool later) ∧
    ¬ ∀ pool later,
      (hubMachine.under respawnsInTime fun _ _ _ => true).Reaches HubWorld.Initial pool →
      pool.shared.shutdownRan = true →
      (hubMachine.under respawnsInTime fun _ _ _ => true).Later pool later →
      ShutdownFinal pool later := by
  constructor
  · intro h
    have hplay : (hubMachine.play (.fresh (.fresh (.new .any 1))) shutDownMeanwhile).map
        (fun pool => (pool.shared.shutdownRan,
          (hubMachine.play pool (.idle (.serve 0) :: respawned)).map
            fun later => later.shared.hub.pumps.entries.length)) = some (true, some 1) := by decide
    obtain ⟨pool, hpool, heq⟩ := Option.map_eq_some_iff.mp hplay
    obtain ⟨hran, hlater⟩ := Prod.mk.inj heq
    obtain ⟨later, hplay', hlength⟩ := Option.map_eq_some_iff.mp hlater
    have hempty := (h pool later (.of_play ⟨_, _, rfl⟩ hpool) hran (.of_play .refl hplay')).1
    rw [hempty] at hlength
    cases hlength
  · intro h
    have hplay : ((hubMachine.under respawnsInTime fun _ _ _ => true).play
        (.fresh (.fresh (.new .any 1))) shutDownBehind).map
        (fun pool => (pool.shared.shutdownRan, pool.shared.requests.map (·.state),
          ((hubMachine.under respawnsInTime fun _ _ _ => true).play pool
            (.idle (.serve 0) :: steps 0 2)).map
              fun later => later.shared.outcomes.flatMap (·.2.requests))) =
          some (true, [.queued], some [0]) := by decide
    obtain ⟨pool, hpool, heq⟩ := Option.map_eq_some_iff.mp hplay
    simp only [Prod.mk.injEq] at heq
    obtain ⟨hran, hqueued, hlater⟩ := heq
    obtain ⟨later, hplay', hrequests⟩ := Option.map_eq_some_iff.mp hlater
    obtain ⟨_, _, _, hserved⟩ :=
      h pool later (.of_play ⟨_, _, rfl⟩ hpool) hran (.of_play .refl hplay')
    have hmem : 0 ∈ later.shared.outcomes.flatMap (·.2.requests) := by
      rw [hrequests]
      exact List.mem_singleton_self 0
    obtain ⟨o, ho, hr⟩ := List.mem_flatMap.mp hmem
    obtain ⟨q, hq, hstate⟩ := hserved o ho 0 hr
    have hmapped : (pool.shared.requests.map (·.state))[0]? = some q.state := by
      rw [List.getElem?_map, hq]
      rfl
    rw [hqueued, hstate] at hmapped
    cases hmapped

/-- Two pumps are shut down; call 1 gets its command to one of them, behind the
`Shutdown`, and fails. -/
theorem shutdown_final_overtaken : ∃ pool later : Pool HubWorld HubOp HubOp.Res,
    pool.shared.pumps.length = 2 ∧
      later.shared.outcomes.map (fun o => decide (o.2 = .failed .pumpClosed)) =
        [false, false, true] ∧
      ShutdownFinal pool later := by
  have hplay : (TimelyMachine.play (.fresh (.fresh (.new .any 2)))
      (oneSubscriber ++ secondPump ++ .start (.shared .shutdown) :: steps 2 11)).map
      (fun pool => (pool.shared.shutdownRan, pool.shared.pumps.length,
        (TimelyMachine.play pool
          (steps 1 1 ++ [.idle (.send 1), .idle (.serve 1)] ++ steps 1 7)).map fun later =>
            later.shared.outcomes.map fun o => decide (o.2 = .failed .pumpClosed))) =
        some (true, 2, some [false, false, true]) := by decide
  obtain ⟨pool, hpool, heq⟩ := Option.map_eq_some_iff.mp hplay
  simp only [Prod.mk.injEq] at heq
  obtain ⟨hran, hpumps, hlater⟩ := heq
  obtain ⟨later, hplay', houtcomes⟩ := Option.map_eq_some_iff.mp hlater
  exact ⟨pool, later, hpumps, houtcomes,
    shutdown_final (.of_play ⟨_, _, rfl⟩ hpool) hran (.of_play .refl hplay')⟩

/-- A gate lets topic `t` in and keeps topic `u` out. -/
def gated : List HubMove :=
  subscribeCall 0 :: steps 0 2 ++ [.act 0 (.gate true)] ++ steps 0 2 ++ [.act 0 (.gate true)] ++
    steps 0 1 ++ [.act 0 (.partitions (.ok [0, 1]))] ++ steps 0 5 ++ [.act 0 (.source (.ok ()))] ++
    steps 0 5 ++ .start (.shared (.subscribe "u" 0 .earliest .default)) :: steps 1 2 ++
    [.act 1 (.gate false)] ++ steps 1 2

theorem pumps_vetted_gated : ∃ pool : Pool HubWorld HubOp HubOp.Res,
    pool.shared.hub.gate = .predicate ∧ pool.shared.hub.pumps.keys = [("t", 0)] ∧
      (1, .failed (.denied "u")) ∈ pool.shared.outcomes ∧ pool.shared.Vetted ("t", 0) := by
  have hplay : (hubMachine.play (.fresh (.fresh (.new .predicate 2))) gated).map
      (fun pool => (pool.shared.hub.gate, pool.shared.hub.pumps.keys,
        decide ((1, Outcome.failed (.denied "u")) ∈ pool.shared.outcomes))) =
        some (.predicate, [("t", 0)], true) := by decide
  obtain ⟨pool, hpool, heq⟩ := Option.map_eq_some_iff.mp hplay
  simp only [Prod.mk.injEq] at heq
  obtain ⟨hgate, hkeys, hdenied⟩ := heq
  have hmem : ("t", 0) ∈ pool.shared.hub.pumps :=
    AList.mem_keys.mpr (hkeys ▸ List.mem_singleton_self _)
  exact ⟨pool, hgate, hkeys, of_decide_eq_true hdenied,
    pumps_vetted (.of_play ⟨_, _, rfl⟩ hpool) hmem⟩

end Runs

end Odradek.Web
