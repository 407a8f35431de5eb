import Odradek.Web.HubBounds

/-!
A topic-level subscribe that fails, with the hub to itself: which of the pumps
it started are gone again, and that it stops no other.
-/

namespace Odradek.Web

open Library HubWorld

variable {i : Nat} {s t u w : HubWorld} {events : List HubEvent}

section Alone

/-- A `Shutdown` waits among the commands of a pump. -/
def HubWorld.ToldToStop (w : HubWorld) (channel : Nat) : Prop :=
  ∃ pump, w.pumps[channel]? = some pump ∧ .shutdown ∈ pump.commands

/-- Only call `i` and the pumps have moved: what it wrote, and that a pump has
been told to stop by nobody else. -/
structure Alone (i : Nat) (events : List HubEvent) (s t : HubWorld) : Prop where
  log : t.log = s.log ++ events.map fun e => (i, e)
  told : ∀ channel, t.ToldToStop channel →
    s.ToldToStop channel ∨ ∃ handle, .told handle ∈ events ∧ handle.channel = channel
  holder : t.holder = s.holder ∨ t.holder = none ∨ t.holder = some i

theorem Alone.trans {events' : List HubEvent} (h : Alone i events s t)
    (h' : Alone i events' t u) : Alone i (events ++ events') s u := by
  refine ⟨?_, ?_, ?_⟩
  · rw [h'.log, h.log, List.append_assoc, List.map_append]
  · intro channel htold
    rcases h'.told channel htold with hold | ⟨handle, hm, hchannel⟩
    · rcases h.told channel hold with hold | ⟨handle, hm, hchannel⟩
      · exact .inl hold
      · exact .inr ⟨handle, List.mem_append_left _ hm, hchannel⟩
    · exact .inr ⟨handle, List.mem_append_right _ hm, hchannel⟩
  · rcases h'.holder with heq | hnone | hmine
    · rw [heq]
      exact h.holder
    · exact .inr (.inl hnone)
    · exact .inr (.inr hmine)

/-- The pumps were left alone too. -/
theorem Alone.of_pumps (hlog : t.log = s.log ++ events.map fun e => (i, e))
    (hpumps : t.pumps = s.pumps)
    (hholder : t.holder = s.holder ∨ t.holder = none ∨ t.holder = some i) :
    Alone i events s t := by
  refine ⟨hlog, fun channel htold => .inl ?_, hholder⟩
  rwa [ToldToStop, ← hpumps]

theorem Alone.refl : Alone i [] s s :=
  .of_pumps (List.append_nil _).symm rfl (.inl rfl)

theorem Alone.note {event : HubEvent} : Alone i [event] s (s.note i event) :=
  .of_pumps rfl rfl (.inl rfl)

theorem Alone.enqueue {handle : PumpHandle} (h : s.enqueue handle.channel .shutdown = some t) :
    Alone i [.told handle] s (t.note i (.told handle)) := by
  obtain ⟨pump, hpump, _, rfl⟩ := enqueue_eq_some h
  refine ⟨rfl, ?_, .inl rfl⟩
  rintro channel ⟨pump', hpump', hm⟩
  rcases set_cases hpump' with ⟨rfl, rfl⟩ | ⟨_, hold⟩
  · exact .inr ⟨handle, List.mem_cons_self, rfl⟩
  · exact .inl ⟨pump', hold, hm⟩

theorem Alone.born {handle : PumpHandle} : Alone i [.started handle] s (s.born i handle) := by
  refine ⟨rfl, ?_, .inl rfl⟩
  rintro channel ⟨pump, hpump, hm⟩
  left
  by_cases hlt : channel < s.pumps.length
  · exact ⟨pump, (getElem_born hlt).symm.trans hpump, hm⟩
  · have hlast := (List.getElem?_append_right (Nat.le_of_not_lt hlt)).symm.trans hpump
    cases List.mem_singleton.mp (List.mem_of_getElem? hlast)
    cases hm

/-- Each operation of the call adds what it puts on record, and moves nothing else. -/
theorem alone_of_act {op : HubOp} {c : HubChoice} {r : op.Res} (h : act i op c s = some (r, t)) :
    ∃ events, Alone i events s t := by
  cases op with
  | lock =>
      obtain ⟨_, rfl⟩ := act_lock h
      exact ⟨[], .of_pumps (List.append_nil _).symm rfl (.inr (.inr rfl))⟩
  | unlock =>
      obtain ⟨_, rfl⟩ := act_unlock h
      exact ⟨[], .of_pumps (List.append_nil _).symm rfl (.inr (.inl rfl))⟩
  | read =>
      obtain ⟨_, _, rfl⟩ := act_read h
      exact ⟨[], .refl⟩
  | write hub =>
      obtain ⟨_, rfl⟩ := act_write h
      exact ⟨[], .of_pumps (List.append_nil _).symm rfl (.inl rfl)⟩
  | askGate topic =>
      obtain rfl := act_askGate h
      cases (show Bool from r) with
      | false => exact ⟨[], .refl⟩
      | true => exact ⟨_, .note⟩
  | listPartitions topic =>
      obtain rfl := act_listPartitions h
      exact ⟨_, .note⟩
  | create topic partition =>
      obtain rfl := act_create h
      exact ⟨[], .refl⟩
  | spawn site topic partition =>
      obtain ⟨_, _, rfl⟩ := act_spawn h
      exact ⟨_, .born⟩
  | isDead handle =>
      obtain ⟨_, rfl⟩ := act_isDead h
      exact ⟨[], .refl⟩
  | subscribe handle position filter =>
      obtain ⟨_, rfl⟩ := act_subscribe h
      exact ⟨[.registering handle], .of_pumps rfl rfl (.inl rfl)⟩
  | reply request =>
      obtain ⟨rfl, _⟩ := act_reply h
      exact ⟨[], .refl⟩
  | shutdown handle =>
      rcases act_shutdown h with ⟨v, henqueue, rfl⟩ | ⟨_, rfl⟩
      · exact ⟨_, .enqueue henqueue⟩
      · exact ⟨_, .note⟩
  | answer outcome =>
      obtain rfl := act_answer h
      exact ⟨[], .of_pumps (List.append_nil _).symm rfl (.inl rfl)⟩
  | note event =>
      obtain rfl := act_note h
      exact ⟨_, .note⟩

theorem toldToStop_of_exit {c channel : Nat} (h : (w.exit c).ToldToStop channel) :
    w.ToldToStop channel := by
  obtain ⟨pump, hpump, hm⟩ := h
  rcases set_cases hpump with ⟨_, rfl⟩ | ⟨_, hold⟩
  · cases hm
  · exact ⟨pump, hold, hm⟩

theorem alone_of_idle {e : Weather} (h : HubWorld.idle e s = some t) : Alone i [] s t := by
  have hexit : ∀ c, Alone i [] s (s.exit c) := fun c =>
    ⟨(List.append_nil _).symm, fun channel htold => .inl (toldToStop_of_exit htold), .inl rfl⟩
  cases e <;> simp only [HubWorld.idle] at h
  case send request =>
      unfold HubWorld.send at h
      split at h
      next q hq =>
          split at h
          next =>
              split at h
              next =>
                  obtain ⟨v, henqueue, rfl⟩ := Option.map_eq_some_iff.mp h
                  obtain ⟨pump, hpump, _, rfl⟩ := enqueue_eq_some henqueue
                  refine ⟨(List.append_nil _).symm, ?_, .inl rfl⟩
                  rintro channel ⟨pump', hpump', hm⟩
                  rcases set_cases hpump' with ⟨rfl, rfl⟩ | ⟨_, hold⟩
                  · rcases List.mem_append.mp hm with hm | hm
                    · exact .inl ⟨pump, hpump, hm⟩
                    · cases List.mem_singleton.mp hm
                  · exact .inl ⟨pump', hold, hm⟩
              next =>
                  cases h
                  exact .of_pumps (List.append_nil _).symm rfl (.inl rfl)
          next => cases h
      next => cases h
  case serve c =>
      unfold HubWorld.serve at h
      split at h
      next pump hpump =>
          split at h
          next =>
              split at h
              next r rest hcommands =>
                  split at h
                  next q hq =>
                      cases h
                      refine ⟨(List.append_nil _).symm, ?_, .inl rfl⟩
                      rintro channel ⟨pump', hpump', hm⟩
                      rcases set_cases hpump' with ⟨rfl, rfl⟩ | ⟨_, hold⟩
                      · refine .inl ⟨pump, hpump, ?_⟩
                        rw [hcommands]
                        exact List.mem_cons_of_mem _ hm
                      · exact .inl ⟨pump', hold, hm⟩
                  next => cases h
              next =>
                  cases h
                  exact hexit c
              next => cases h
          next => cases h
      next => cases h
  case die c =>
      split at h
      · cases h
        exact hexit c
      · cases h

theorem alone_of_runs {α : Type} {p : HubProgram α} {a : α} (h : hubMachine.Runs i p s a t) :
    ∃ events, Alone i events s t := by
  induction h with
  | done => exact ⟨[], .refl⟩
  | idle e hidle _ ih =>
      obtain ⟨events, hrest⟩ := ih
      exact ⟨events, (alone_of_idle hidle).trans hrest⟩
  | exec c hexec _ ih =>
      obtain ⟨events, hrest⟩ := ih
      have hact : HubWorld.exec i _ c _ = some _ := hexec
      unfold HubWorld.exec at hact
      split at hact
      · obtain ⟨events', hfirst⟩ := alone_of_act hact
        exact ⟨events' ++ events, hfirst.trans hrest⟩
      · cases hact

end Alone

section Rollback

def topicCall (owned : Bool) (topic : String) (position : TopicPosition) (filter : Filter) :
    HubCall :=
  if owned then .owned (.subscribeTopic topic position filter)
  else .shared (.subscribeTopic topic position filter)

def HubWorld.Running (w : HubWorld) (handle : PumpHandle) : Prop :=
  w.Born handle ∧ ¬ w.Stopping handle.channel

/-- The pumps that ran before call `i` and have not died run on, no other does,
and none of the call's own is in the map. -/
def LeavesNoTrace (i : Nat) (s t : HubWorld) : Prop :=
  (∀ handle, t.Running handle ↔ s.Running handle ∧ t.isOpen handle.channel = true) ∧
    ∀ handle, .started handle ∈ t.mine i → ∀ key, t.hub.pumps.lookup key ≠ some handle

theorem stopping_iff {c : Nat} : w.Stopping c ↔ w.isOpen c = false ∨ w.ToldToStop c := Iff.rfl

variable {owned : Bool} {topic : String} {position : TopicPosition} {filter : Filter}
  {e : HubError} {pool : Pool HubWorld HubOp HubOp.Res}

abbrev everyStep : Nat → HubOp → HubChoice → HubWorld → Bool := fun _ _ _ _ => true

/-- What a failed call that had the hub to itself has done. -/
structure FailedAlone (i : Nat) (owned : Bool) (s t : HubWorld) : Prop where
  invFirst : HubInv everyStep s
  inv : HubInv everyStep t
  grown : Grown everyStep s t
  undone : RolledBack i owned t
  mapped : t.Mapped
  fresh : s.mine i = []
  alone : Alone i (t.mine i) s t

/-- A failed call has undone what it started, and moved nothing else. -/
theorem failedAlone (hinv : HubInv everyStep w) (hfree : w.holder = none)
    (hbegin : hubMachine.begin i (topicCall owned topic position filter) w = some s)
    (hruns : hubMachine.Runs i (topicCall owned topic position filter).outcome s (.failed e) t) :
    FailedAlone i owned s t := by
  obtain ⟨hkeeps, hmine, hnot⟩ := keeps_begin hinv hbegin
  obtain ⟨events, halone⟩ := alone_of_runs hruns
  have hsat : HubSat everyStep i (topicCall owned topic position filter).outcome
      (fun outcome u => u.holder ≠ some i ∧ ∀ e, outcome = .failed e → RolledBack i owned u) s := by
    refine sat_outcome hmine hnot fun outcome u hnot' _ _ hundone => ⟨hnot', ?_⟩
    intro e heq
    have hdone := hundone e heq
    cases owned <;> exact hdone
  obtain ⟨hinv', ⟨hnot', hundone⟩, hothers⟩ := hsat.runs hkeeps.1 hruns
  have hholder : s.holder = w.holder := by
    have hbegin' : HubWorld.begin i (topicCall owned topic position filter) w = some s := hbegin
    unfold HubWorld.begin at hbegin'
    split at hbegin'
    · cases hbegin'
      rfl
    · cases hbegin'
  have hnone : t.holder = none := by
    rcases halone.holder with heq | hnone | hmine'
    · exact heq.trans (hholder.trans hfree)
    · exact hnone
    · exact absurd hmine' hnot'
  have hevents : t.mine i = events := by
    have hfirst : (s.log.filter fun e => e.1 = i).map (·.2) = [] := hmine
    rw [HubWorld.mine, halone.log, List.filter_append, List.map_append, hfirst, List.nil_append,
      List.filter_eq_self.mpr (by simp), List.map_map]
    exact List.map_id _
  exact ⟨hkeeps.1, hinv', (hothers (i + 1) (Nat.succ_ne_self i)).grown, hundone e rfl,
    hinv'.mapped hnone, hmine, hevents ▸ halone⟩

namespace FailedAlone

variable {handle : PumpHandle} (h : FailedAlone i owned s t)

include h

/-- The pumps of the call are none that were there before it. -/
theorem not_born (hm : .started handle ∈ t.mine i) : ¬ s.Born handle := by
  rintro ⟨j, hj⟩
  have hold : (j, .started handle) ∈ t.log := by
    rw [h.alone.log]
    exact List.mem_append_left _ hj
  have hnew : (i, .started handle) ∈ t.log := by
    rw [h.alone.log]
    exact List.mem_append_right _ (List.mem_map.mpr ⟨_, hm, rfl⟩)
  have heq := (h.inv.pumps.unique i j handle handle hnew hold rfl).1
  have hmine : .started handle ∈ s.mine i :=
    List.mem_map.mpr ⟨(j, .started handle), List.mem_filter.mpr ⟨hj, by simp [heq]⟩, rfl⟩
  rw [h.fresh] at hmine
  cases hmine

theorem did_cases {event : HubEvent} (hdid : t.Did event) : s.Did event ∨ event ∈ t.mine i := by
  obtain ⟨j, hj⟩ := hdid
  rw [h.alone.log] at hj
  rcases List.mem_append.mp hj with hold | hnew
  · exact .inl ⟨j, hold⟩
  · obtain ⟨event', hm, heq⟩ := List.mem_map.mp hnew
    exact .inr ((Prod.mk.inj heq).2 ▸ hm)

/-- A pump the call started is gone from the map if it was taken back, or found dead. -/
theorem left_iff (hm : .started handle ∈ t.mine i) :
    t.Left handle ↔ Covered i owned t handle ∨ t.Gone handle := by
  have hold : ¬ s.Left handle := fun hl => h.not_born hm (h.invFirst.pumps.left handle hl).1
  constructor
  · rintro (hgone | hreleased | hdrained)
    · exact .inr hgone
    · rcases h.did_cases hreleased with hbefore | hmine
      · exact absurd (.inr (.inl hbefore)) hold
      · exact .inl (h.undone.released handle hmine)
    · rcases h.did_cases hdrained with hbefore | hmine
      · exact absurd (.inr (.inr hbefore)) hold
      · exact absurd hmine (h.undone.drained handle)
  · rintro (hcovered | hgone)
    · exact h.undone.left handle hm hcovered
    · exact .inl hgone

/-- The call stops no pump that ran before it. -/
theorem running_of_before (hbefore : s.Running handle) (hopen : t.isOpen handle.channel = true) :
    t.Running handle := by
  refine ⟨h.grown.did _ hbefore.1, fun hstop => ?_⟩
  rcases stopping_iff.mp hstop with hclosed | htold
  · rw [hopen] at hclosed
    cases hclosed
  rcases h.alone.told _ htold with hold | ⟨handle', hm, hchannel⟩
  · exact hbefore.2 (.inr hold)
  · have hstarted := h.undone.told handle' hm
    obtain ⟨j, hj⟩ := h.grown.did _ hbefore.1
    obtain ⟨k, hk⟩ := did_of_mem_mine hstarted
    have heq := (h.inv.pumps.unique k j handle' handle hk hj hchannel).2
    exact h.not_born (heq ▸ hstarted) hbefore.1

/-- No trace is left exactly where every pump the call started is covered or gone. -/
theorem leavesNoTrace_iff : LeavesNoTrace i s t ↔
    ∀ handle, .started handle ∈ t.mine i → Covered i owned t handle ∨ t.Gone handle := by
  constructor
  · intro hclean handle hm
    refine (h.left_iff hm).mp ?_
    by_contra hleft
    have hin := (h.mapped handle (did_of_mem_mine hm) List.not_mem_nil).mpr hleft
    exact hclean.2 handle hm _ hin
  · intro hall
    have hleft : ∀ handle, .started handle ∈ t.mine i → t.Left handle :=
      fun handle hm => (h.left_iff hm).mpr (hall handle hm)
    refine ⟨fun handle => ⟨fun hrunning => ?_, fun hb => h.running_of_before hb.1 hb.2⟩, ?_⟩
    · refine ⟨⟨?_, fun hstop => ?_⟩, ?_⟩
      · refine (h.did_cases hrunning.1).resolve_right fun hm => ?_
        exact hrunning.2 (h.inv.pumps.left handle (hleft handle hm)).2
      · have hborn : s.Born handle := by
          refine (h.did_cases hrunning.1).resolve_right fun hm => ?_
          exact hrunning.2 (h.inv.pumps.left handle (hleft handle hm)).2
        exact hrunning.2 (h.grown.stopping handle hborn hstop)
      · exact Bool.eq_true_of_not_eq_false fun hclosed => hrunning.2 (.inl hclosed)
    · intro handle hm key hlookup
      have hkey := (h.inv.hub.keyed key handle hlookup).1
      have hin : t.InMap handle := by
        rw [InMap, hkey]
        exact hlookup
      exact (h.mapped handle (did_of_mem_mine hm) List.not_mem_nil).mp hin (hleft handle hm)

end FailedAlone

/-- From any hub some run reaches, with its lock free. -/
theorem failedTopic_leavesNoTrace_iff (hreach : hubMachine.Reaches HubWorld.Initial pool)
    (hfree : pool.shared.holder = none)
    (hbegin : hubMachine.begin i (topicCall owned topic position filter) pool.shared = some s)
    (hruns : hubMachine.Runs i (topicCall owned topic position filter).outcome s (.failed e) t) :
    LeavesNoTrace i s t ↔
      ∀ handle, .started handle ∈ t.mine i → Covered i owned t handle ∨ t.Gone handle :=
  (failedAlone (hub_reaches everyStep hreach).1 hfree hbegin hruns).leavesNoTrace_iff

end Rollback

section Runs

abbrev SoloMove := Weather ⊕ HubChoice

def alone (n : Nat) : List SoloMove := List.replicate n (.inr .go)

def sourceGone : SourceError := { kind := .unavailable, message := "gone" }

/-- A topic-level subscribe over a dead entry for partition 0, refused at partition 1. -/
def deadEntryReplaced : List SoloMove :=
  alone 15 ++ .inr (.source (.ok ())) :: alone 4 ++ [.inl (.send 1), .inl (.serve 1)] ++ alone 9 ++
    .inr (.source (.error sourceGone)) :: alone 2

def topicSolo (moves : List HubMove) (i : Nat) (owned : Bool) (solo : List SoloMove) :
    Option (Pool HubWorld HubOp HubOp.Res × HubWorld × Outcome × HubWorld) :=
  (hubMachine.play (.fresh (.fresh (.new .any 2))) moves).bind fun pool =>
    (hubMachine.begin i (topicCall owned "t" .earliest .default) pool.shared).bind fun s =>
      (hubMachine.solo i solo (topicCall owned "t" .earliest .default).outcome s).map fun out =>
        (pool, s, out)

theorem topicSolo_spec {moves : List HubMove} {owned : Bool} {solo : List SoloMove}
    {outcome : Outcome} {pool : Pool HubWorld HubOp HubOp.Res}
    (h : topicSolo moves i owned solo = some (pool, s, outcome, t)) :
    hubMachine.Reaches HubWorld.Initial pool ∧
      hubMachine.begin i (topicCall owned "t" .earliest .default) pool.shared = some s ∧
      hubMachine.Runs i (topicCall owned "t" .earliest .default).outcome s outcome t := by
  obtain ⟨pool', hplay, hrest⟩ := Option.bind_eq_some_iff.mp h
  obtain ⟨s', hbegin, hrest⟩ := Option.bind_eq_some_iff.mp hrest
  obtain ⟨out, hsolo, heq⟩ := Option.map_eq_some_iff.mp hrest
  cases heq
  exact ⟨.of_play ⟨_, _, rfl⟩ hplay, hbegin, .of_solo hsolo⟩

/-- The new pump of partition 0 stays. -/
theorem not_leavesNoTrace : ¬ ∀ (pool : Pool HubWorld HubOp HubOp.Res) (i : Nat) (s t : HubWorld)
    (owned : Bool) (topic : String) (position : TopicPosition) (filter : Filter) (e : HubError),
    hubMachine.Reaches HubWorld.Initial pool → pool.shared.holder = none →
    hubMachine.begin i (topicCall owned topic position filter) pool.shared = some s →
    hubMachine.Runs i (topicCall owned topic position filter).outcome s (.failed e) t →
    LeavesNoTrace i s t := by
  intro h
  have hcomputed : (topicSolo (oneSubscriber ++ [.idle (.die 0)]) 1 true deadEntryReplaced).map
      (fun out => (out.1.shared.holder, out.2.2.1,
        decide (.started ⟨"t", 0, 1⟩ ∈ out.2.2.2.mine 1 ∧
          out.2.2.2.hub.pumps.lookup ("t", 0) = some (⟨"t", 0, 1⟩ : PumpHandle)))) =
      some (none, .failed (.source sourceGone), true) := by decide
  obtain ⟨⟨pool, s, outcome, t⟩, hout, heq⟩ := Option.map_eq_some_iff.mp hcomputed
  obtain ⟨hfree, hrest⟩ := Prod.mk.inj heq
  obtain ⟨houtcome, hstays⟩ := Prod.mk.inj hrest
  obtain ⟨hmine, hlookup⟩ := of_decide_eq_true hstays
  obtain ⟨hreach, hbegin, hruns⟩ := topicSolo_spec hout
  have houtcome' : outcome = .failed (.source sourceGone) := houtcome
  rw [houtcome'] at hruns
  exact (h pool 1 s t true _ _ _ _ hreach hfree hbegin hruns).2 _ hmine _ hlookup

/-- A first topic-level subscribe, refused at partition 1. -/
def secondRefused : List SoloMove :=
  alone 3 ++ .inr (.partitions (.ok [0, 1])) :: alone 13 ++ .inr (.source (.ok ())) :: alone 11 ++
    .inr (.source (.error sourceGone)) :: alone 6

/-- Its one pump is taken back. -/
theorem failedTopic_leavesNoTrace_one : ∃ s t : HubWorld,
    .started ⟨"t", 0, 0⟩ ∈ t.mine 0 ∧ LeavesNoTrace 0 s t := by
  have hcomputed : (topicSolo [] 0 false secondRefused).map
      (fun out => (out.1.shared.holder, out.2.2.1, out.2.2.2.mine 0)) =
      some (none, .failed (.source sourceGone), [.listed "t" (.ok [0, 1]), .before [],
        .started ⟨"t", 0, 0⟩, .told ⟨"t", 0, 0⟩, .released ⟨"t", 0, 0⟩]) := by decide
  obtain ⟨⟨pool, s, outcome, t⟩, hout, heq⟩ := Option.map_eq_some_iff.mp hcomputed
  obtain ⟨hfree, hrest⟩ := Prod.mk.inj heq
  obtain ⟨houtcome, hmine⟩ := Prod.mk.inj hrest
  obtain ⟨hreach, hbegin, hruns⟩ := topicSolo_spec hout
  have houtcome' : outcome = .failed (.source sourceGone) := houtcome
  have hmine' : t.mine 0 = [.listed "t" (.ok [0, 1]), .before [], .started ⟨"t", 0, 0⟩,
    .told ⟨"t", 0, 0⟩, .released ⟨"t", 0, 0⟩] := hmine
  rw [houtcome'] at hruns
  refine ⟨s, t, by simp [hmine'],
    (failedTopic_leavesNoTrace_iff hreach hfree hbegin hruns).mpr fun handle _ => ?_⟩
  refine .inl ⟨⟨[], by simp [hmine'], List.not_mem_nil⟩, .inr fun handle' => ?_⟩
  simp [hmine']

end Runs

end Odradek.Web
