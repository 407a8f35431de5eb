import Odradek.Web.AskedPositions
import Odradek.Web.Latest

/-!
A pump over a store. The store is written to by others and answers what the pump
asks its source. Where its contents stay in order and its answers come from them,
a run over the store is a run over a source that honours its contract.
-/

namespace Odradek.Web

open Library

section Errors

/-- A channel that has carried nothing but events. -/
def Channel.Clean (c : Channel) : Prop := c.parked = [] ∧ ∀ item ∈ c.sent, item.event?.isSome

theorem Channel.Clean.put {c : Channel} (h : c.Clean) (event : Event) :
    (c.put (.event event)).Clean := by
  refine ⟨h.1, fun item hitem => ?_⟩
  rcases List.mem_append.mp hitem with hitem | hitem
  · exact h.2 item hitem
  · rw [List.mem_singleton.mp hitem]
    rfl

theorem Channel.Clean.trySend {c c' : Channel} {event : Event} (h : c.Clean)
    (hsend : c.trySend (.event event) = .ok c') : c'.Clean := by
  unfold Channel.trySend at hsend
  split at hsend
  · cases hsend
  · split at hsend <;> cases hsend
    exact h.put event

theorem Channel.Clean.unpark {c : Channel} (h : c.Clean) : c.unpark = c := by
  unfold Channel.unpark
  rw [h.1]

section Sub

variable {sub : SubState} {event : Event}

theorem SubState.pushLive_clean (h : sub.sender.Clean) : (sub.pushLive event).sender.Clean := by
  unfold SubState.pushLive
  split
  · exact h
  · split
    · exact h
    · split
      next hsend => exact h.trySend hsend
      · exact h
      · exact h

theorem SubState.pushRunStep_clean {sub' : SubState} (h : sub.sender.Clean)
    (hstep : sub.pushRunStep event = .shown sub') : sub'.sender.Clean := by
  unfold SubState.pushRunStep at hstep
  split at hstep
  · split at hstep <;> cases hstep
    next hsend => exact h.trySend hsend
  · cases hstep
    exact h

theorem SubState.advanceFromRing_sender (ring : Ring) (edge : Cursor) :
    (sub.advanceFromRing ring edge).1.sender = sub.sender := by
  rcases World.advanceFromRing_cases sub ring edge with heq | ⟨_, _, heq⟩ | ⟨_, _, _, _, heq⟩ <;>
    rw [heq]

end Sub

namespace World

variable {config : PumpConfig} {w w' w'' : World}

def Clean (w : World) : Prop := ∀ s ∈ w.subscribers, s.state.sender.Clean

/-- A step that leaves the log alone and gives no stream an error. -/
structure Calm (w w' : World) : Prop where
  log : w'.log = w.log
  settled : w'.settled = w.settled
  clean : w.Clean → w'.Clean

theorem Calm.trans (h : w.Calm w') (h' : w'.Calm w'') : w.Calm w'' where
  log := h'.log.trans h.log
  settled := h'.settled.trans h.settled
  clean := fun hclean => h'.clean (h.clean hclean)

theorem calm_of_subset (hsubs : ∀ t ∈ w'.subscribers, t ∈ w.subscribers)
    (hlog : w'.log = w.log) (hsettled : w'.settled = w.settled) : w.Calm w' :=
  ⟨hlog, hsettled, fun hclean t ht => hclean t (hsubs t ht)⟩

theorem calm_goto (pc : Pc) : w.Calm (w.goto pc) := calm_of_subset (fun _ => id) rfl rfl

theorem calm_withList (list : List Subscriber) (pc : Pc)
    (hlist : w.Clean → ∀ t ∈ list, t.state.sender.Clean) :
    w.Calm ((w.withList list).goto pc) where
  log := rfl
  settled := rfl
  clean hclean t ht := by
    rcases List.mem_append.mp ht with ht | ht
    · exact hlist hclean t ht
    · exact hclean t (List.mem_append_right _ ht)

theorem calm_onSub {index : Nat} {f : SubState → SubState} {pc : Pc}
    (hf : ∀ s, w.pump.subs.list[index]? = some s → s.state.sender.Clean →
      (f s.state).sender.Clean) :
    w.Calm ((w.onSub index f).goto pc) := by
  refine calm_withList _ pc fun hclean => forall_modify ?_ ?_
  · exact fun t ht => hclean t (List.mem_append_left _ ht)
  · exact fun s hs => hf s hs (hclean s (List.mem_append_left _ (List.mem_of_getElem? hs)))

theorem calm_onChannel (id : Nat) {f : Channel → Channel}
    (hf : ∀ c : Channel, c.Clean → (f c).Clean) : w.Calm (w.onChannel id f) where
  log := rfl
  settled := rfl
  clean hclean t ht := by
    rw [subscribers, onChannel, ← List.map_append] at ht
    obtain ⟨s, hs, rfl⟩ := List.mem_map.mp ht
    dsimp only
    split
    · exact hf _ (hclean s hs)
    · exact hclean s hs

theorem calm_exit : w.Calm w.exit := by
  refine calm_of_subset (fun t ht => ?_) rfl rfl
  simp only [subscribers, exit, withList, World.goto, List.nil_append, List.mem_append] at ht ⊢
  exact ht.symm

theorem calm_retainLive : w.Calm w.retainLive := by
  refine calm_of_subset (fun t ht => ?_) rfl rfl
  simp only [subscribers, retainLive, withList, World.goto, List.mem_append,
    List.mem_filter] at ht ⊢
  tauto

theorem calm_subscribe {position : Position} {filter : Filter} {pc : Pc} :
    w.Calm ((w.subscribe config position filter).goto pc) where
  log := rfl
  settled := rfl
  clean hclean t ht := by
    simp only [subscribers, subscribe, World.goto, List.append_assoc, List.mem_append,
      List.mem_singleton] at ht
    rcases ht with ht | rfl | ht
    · exact hclean t (List.mem_append_left _ ht)
    · exact ⟨rfl, fun item hitem => absurd hitem List.not_mem_nil⟩
    · exact hclean t (List.mem_append_right _ ht)

private theorem calm_pushRun {index : Nat} {s : Subscriber} {event : Event}
    {onward stalled closed : Pc} (hs : w.pump.subs.list[index]? = some s) :
    w.Calm (match s.state.pushRunStep event with
      | .shown sub => (w.onSub index fun _ => sub).goto onward
      | .stalled => w.goto stalled
      | .closed => (w.onSub index fun sub => { sub with closed := true }).goto closed) := by
  cases hstep : s.state.pushRunStep event with
  | shown sub =>
      refine calm_onSub fun t ht hclean => ?_
      obtain rfl : s = t := Option.some.inj (hs.symm.trans ht)
      exact SubState.pushRunStep_clean hclean hstep
  | stalled => exact calm_goto _
  | closed => exact calm_onSub fun _ _ hclean => hclean

/-- The pump's own steps give no stream an error. -/
theorem calm_tick (hstep : w.tick = some w') : w.Calm w' := by
  unfold tick at hstep
  split at hstep
  next => cases hstep; exact calm_retainLive
  next cursor pushed event rest nextAfter _ =>
      cases hstep
      have hpushed := calm_withList (w := w) (w.pump.subs.list.map fun s : Subscriber =>
        { s with state := s.state.pushLive event }) .loopHead (by
          intro hclean t ht
          obtain ⟨s, hs, rfl⟩ := List.mem_map.mp ht
          exact SubState.pushLive_clean (hclean s (List.mem_append_left _ hs)))
      exact ⟨rfl, rfl, hpushed.clean⟩
  next => cases hstep; exact calm_of_subset (fun _ => id) rfl rfl
  next =>
      split at hstep
      · cases hstep; exact calm_goto _
      next s hs =>
          split at hstep <;> cases hstep
          next sub heq =>
              refine calm_onSub fun t ht hclean => ?_
              obtain rfl : s = t := Option.some.inj (hs.symm.trans ht)
              have hsender := s.state.advanceFromRing_sender w.pump.ring
              rw [← hsender, heq] at hclean
              exact hclean
          next => exact calm_goto _
  next =>
      obtain ⟨s, hs, rfl⟩ := Option.map_eq_some_iff.mp hstep
      exact calm_pushRun hs
  next => cases hstep; exact calm_onSub fun _ _ hclean => hclean
  next =>
      split at hstep
      · cases hstep; exact calm_goto _
      next hnext =>
          cases hstep
          obtain ⟨_, _, heq⟩ := Option.map_eq_some_iff.mp hnext
          cases heq
          exact calm_of_subset (fun _ => id) rfl rfl
  next =>
      obtain ⟨s, hs, rfl⟩ := Option.map_eq_some_iff.mp hstep
      exact calm_pushRun hs
  next => cases hstep; exact calm_onSub fun _ _ hclean => hclean
  next => cases hstep

theorem calm_fetched {batch : SourceBatch} (hstep : w.fetched config (.ok batch) = some w') :
    Calm { w with settled := max w.settled batch.nextAfter } w' := by
  simp only [fetched] at hstep
  split at hstep
  · cases hstep
    exact calm_of_subset (fun _ => id) rfl rfl
  · obtain ⟨s, _, rfl⟩ := Option.map_eq_some_iff.mp hstep
    exact calm_onSub fun _ _ hclean => hclean
  · cases hstep

/-- An error of the source moves neither the log nor what is settled of it. -/
structure Failed (w w' : World) : Prop where
  log : w'.log = w.log
  settled : w'.settled = w.settled

theorem failed_liveError (e : SourceError) (retry : Pc) :
    w.Failed (w.liveError config e retry) := by
  simp only [liveError]
  split <;> exact ⟨rfl, rfl⟩

theorem failed_fetched {e : SourceError} (hstep : w.fetched config (.error e) = some w') :
    w.Failed w' := by
  simp only [fetched] at hstep
  split at hstep
  · cases hstep
    exact failed_liveError e _
  · split at hstep <;> cases hstep <;> exact ⟨rfl, rfl⟩
  · cases hstep

/-- What a step is, as far as the log and the errors of streams go. -/
theorem step_calm {a : Action} (hstep : w.step config a = some w') :
    w.Calm w' ∨ (∃ event, a = .append event) ∨
    (∃ batch, a = .fetched (.ok batch) ∧
      Calm { w with settled := max w.settled batch.nextAfter } w') ∨
    (∃ e, (a = .fetched (.error e) ∨ a = .liveStart (.error e)) ∧ w.Failed w') := by
  cases a with
  | append event => exact .inr (.inl ⟨event, rfl⟩)
  | receive id | dropReceiver id =>
      cases hstep
      exact .inl (calm_onChannel id fun _ hclean => hclean)
  | unpark id =>
      cases hstep
      exact .inl (calm_onChannel id fun _ hclean => hclean.unpark.symm ▸ hclean)
  | tick => exact .inl (calm_tick hstep)
  | fetched answer =>
      cases answer with
      | ok batch =>
          have hfetched : w.fetched config (.ok batch) = some w' := hstep
          exact .inr (.inr (.inl ⟨batch, rfl, calm_fetched hfetched⟩))
      | error e => exact .inr (.inr (.inr ⟨e, .inl rfl, failed_fetched hstep⟩))
  | command c =>
      cases c with
      | subscribe position filter =>
          simp only [step] at hstep
          split at hstep <;> cases hstep <;> exact .inl calm_subscribe
      | shutdown =>
          simp only [step] at hstep
          split at hstep <;> cases hstep <;> exact .inl calm_exit
  | commandsClosed | idleTimeout =>
      simp only [step] at hstep
      split at hstep <;> cases hstep
      exact .inl calm_exit
  | noCommand =>
      simp only [step] at hstep
      split at hstep <;> cases hstep <;> exact .inl (calm_goto _)
  | liveStart answer =>
      cases answer with
      | ok start =>
          simp only [step] at hstep
          split at hstep <;> cases hstep
          exact .inl (calm_of_subset (fun _ => id) rfl rfl)
      | error e =>
          simp only [step] at hstep
          split at hstep <;> cases hstep
          exact .inr (.inr (.inr ⟨e, .inr rfl, failed_liveError e _⟩))

end World
end Errors

section Shown

/-- A live subscriber has been shown the window up to the front. -/
theorem Progress.sent_of_live {v : View} {s : Subscriber} {start front : Cursor}
    (h : Progress v s) (hlive : s.state.mode = .live)
    (hstart : s.resolvedStart v.liveStart = some start) (hfront : v.front = .at front) :
    s.state.sender.sent = s.state.filter.shown (Event.window start front v.log) := by
  cases h with
  | waiting hnone _ _ _ => cases hnone.symm.trans hstart
  | catchingUp _ _ hmode _ => cases hmode.symm.trans hlive
  | live start' front' hstart' hfront' _ hshown _ =>
      obtain rfl : start' = start := Option.some.inj (hstart'.symm.trans hstart)
      obtain rfl : front' = front := LiveEdge.at.inj (hfront'.symm.trans hfront)
      exact hshown.sent

/-- Items that are all events have no error behind them. -/
theorem events_of_items {events shown : List Event} {errors : List StreamError}
    (h : events.map StreamItem.event ++ errors.map StreamItem.error =
      shown.map StreamItem.event) : events = shown ∧ errors = [] := by
  cases errors with
  | nil =>
      refine ⟨List.map_injective_iff.mpr (fun _ _ heq => StreamItem.event.inj heq) ?_, rfl⟩
      exact (List.append_nil _).symm.trans h
  | cons e errors =>
      have hmem : StreamItem.error e ∈ shown.map StreamItem.event := by
        rw [← h]
        exact List.mem_append_right _ List.mem_cons_self
      obtain ⟨_, _, heq⟩ := List.mem_map.mp hmem
      cases heq

end Shown

/-- A store under a source: what a write may make of it, what the source shows of
it, and what the source may answer. -/
structure Store (σ : Type) where
  write : σ → σ → Prop
  contents : σ → List Event
  liveStart : σ → Except SourceError Cursor → Prop
  fetch : σ → Cursor → Except SourceError SourceBatch → Prop

/-- What a source owes its pump: contents that only grow, past every position it
has handed out, and answers that are taken from them. -/
structure Store.Lawful {σ : Type} (store : Store σ) (Inv : σ → Prop) (horizon : σ → Cursor) :
    Prop where
  ascending : ∀ s, Inv s → Ascending Event.offset (store.contents s)
  below : ∀ s, Inv s → ∀ e ∈ store.contents s, (e.offset : Cursor) ≤ horizon s
  write : ∀ s s', Inv s → store.write s s' → Inv s' ∧ horizon s ≤ horizon s' ∧
    ∃ events, store.contents s' = store.contents s ++ events ∧
      ∀ e ∈ events, horizon s < (e.offset : Cursor)
  liveStart : ∀ s start, Inv s → store.liveStart s (.ok start) →
    ∀ e ∈ store.contents s, (e.offset : Cursor) ≤ start
  fetch : ∀ s after batch, Inv s → store.fetch s after (.ok batch) →
    batch.events = Event.window after batch.nextAfter (store.contents s) ∧
      batch.nextAfter ≤ horizon s

/-- Every position the source speaks of is below `i64::MAX`. -/
structure Store.Bounded {σ : Type} (store : Store σ) (Inv : σ → Prop) : Prop where
  contents : ∀ s, Inv s → ∀ e ∈ store.contents s, e.offset < i64Max
  liveStart : ∀ s answer, Inv s → store.liveStart s answer → World.Below (.liveStart answer)
  fetch : ∀ s after answer, Inv s → store.fetch s after answer → World.Below (.fetched answer)

structure Backed (σ : Type) where
  store : σ
  world : World

namespace Backed

variable {σ : Type}

/-- The log a pump is given grows by these events, one by one. -/
def extend (w : World) (events : List Event) : World :=
  events.foldl (fun w event => { w with log := w.log ++ [event], settled := event.offset }) w

/-- The answers of a pump's source are the store's, and only writes add to the log. -/
def Allows (store : Store σ) (t : Backed σ) : Action → Prop
  | .append _ => False
  | .liveStart answer => store.liveStart t.store answer
  | .fetched answer => ∃ after, t.world.asked = some after ∧ store.fetch t.store after answer
  | _ => True

/-- Somebody writes to the store, or the pump and those around it take a step. -/
inductive Next (store : Store σ) (config : PumpConfig) :
    Backed σ → Option Action → Backed σ → Prop
  | write {t : Backed σ} {s' : σ} {events : List Event} :
      store.write t.store s' → store.contents s' = store.contents t.store ++ events →
      Next store config t none { store := s', world := extend t.world events }
  | pump {t : Backed σ} {a : Action} {w' : World} :
      Allows store t a → t.world.step config a = some w' →
      Next store config t (some a) { t with world := w' }

structure Spawned (store : Store σ) (Inv : σ → Prop) (horizon : σ → Cursor)
    (config : PumpConfig) (t : Backed σ) : Prop where
  inv : Inv t.store
  start : t.world = World.start config (store.contents t.store) (horizon t.store)

abbrev Reached (store : Store σ) (Inv : σ → Prop) (horizon : σ → Cursor)
    (config : PumpConfig) : Backed σ → Prop :=
  Reachable (Spawned store Inv horizon config) (Next store config)

section Extending

variable {config : PumpConfig}

theorem extend_log (w : World) (events : List Event) :
    (extend w events).log = w.log ++ events ∧
      (extend w events).subscribers = w.subscribers := by
  induction events generalizing w with
  | nil => exact ⟨(List.append_nil _).symm, rfl⟩
  | cons event events ih =>
      obtain ⟨hlog, hsubs⟩ := ih { w with log := w.log ++ [event], settled := event.offset }
      refine ⟨?_, hsubs⟩
      rw [extend, List.foldl_cons]
      exact hlog.trans (List.append_assoc _ _ _)

theorem extend_settled_le (w : World) {events : List Event} {high : Cursor}
    (hw : w.settled ≤ high) (h : ∀ e ∈ events, (e.offset : Cursor) ≤ high) :
    (extend w events).settled ≤ high := by
  induction events generalizing w with
  | nil => exact hw
  | cons event events ih =>
      exact ih _ (h event List.mem_cons_self) fun e he => h e (List.mem_cons_of_mem _ he)

/-- Each event is appended past all that is settled. -/
theorem extend_reached {w : World} {events : List Event} (h : w.Reached config)
    (hasc : Ascending Event.offset events)
    (hpast : ∀ e ∈ events, w.settled < (e.offset : Cursor)) :
    (extend w events).Reached config := by
  induction events generalizing w with
  | nil => exact h
  | cons event events ih =>
      obtain ⟨hfirst, hasc⟩ := Ascending.cons_iff.mp hasc
      have happended : World.Next config w (.append event)
          { w with log := w.log ++ [event], settled := event.offset } :=
        ⟨hpast event List.mem_cons_self, rfl⟩
      exact ih (.step _ h happended) hasc fun e he => WithBot.coe_lt_coe.mpr (hfirst e he)

theorem extend_below {w : World} {events : List Event} (h : w.ReachedBelow config)
    (hbelow : ∀ e ∈ events, e.offset < i64Max) : (extend w events).ReachedBelow config := by
  induction events generalizing w with
  | nil => exact h
  | cons event events ih =>
      have happended : World.Below (.append event) ∧ w.step config (.append event) =
          some { w with log := w.log ++ [event], settled := event.offset } :=
        ⟨hbelow event List.mem_cons_self, rfl⟩
      exact ih (.step _ h happended) fun e he => hbelow e (List.mem_cons_of_mem _ he)

end Extending

/-- What a run over a store keeps. -/
structure Refines (store : Store σ) (Inv : σ → Prop) (horizon : σ → Cursor)
    (config : PumpConfig) (t : Backed σ) : Prop where
  inv : Inv t.store
  reached : t.world.Reached config
  log : t.world.log = store.contents t.store
  settled : t.world.settled ≤ horizon t.store

section Refinement

variable {store : Store σ} {Inv : σ → Prop} {horizon : σ → Cursor} {config : PumpConfig}
  {t t' : Backed σ}

theorem Spawned.refines (lawful : store.Lawful Inv horizon)
    (h : Spawned store Inv horizon config t) : Refines store Inv horizon config t := by
  refine ⟨h.inv, .start ⟨?_, ?_, ?_⟩, ?_, ?_⟩
  all_goals rw [h.start]
  · exact lawful.ascending _ h.inv
  · exact lawful.below _ h.inv
  · rfl
  · rfl
  · exact le_rfl

/-- A store's own answers honour the contract. -/
theorem Refines.honours (h : Refines store Inv horizon config t)
    (lawful : store.Lawful Inv horizon) {a : Action} (hallows : Allows store t a) :
    t.world.Honours a := by
  cases a with
  | append event => exact hallows.elim
  | liveStart answer =>
      cases answer with
      | ok start =>
          intro e he
          rw [h.log] at he
          exact lawful.liveStart _ _ h.inv hallows e he
      | error e => trivial
  | fetched answer =>
      cases answer with
      | ok batch =>
          obtain ⟨after, hasked, hfetch⟩ := hallows
          intro cursor hcursor
          obtain rfl : after = cursor := Option.some.inj (hasked.symm.trans hcursor)
          rw [h.log]
          exact (lawful.fetch _ _ _ h.inv hfetch).1
      | error e => trivial
  | receive id | dropReceiver id | unpark id | command c | commandsClosed | noCommand
  | idleTimeout | tick => trivial

/-- The pump's log stays the store's, whoever moves. -/
theorem Refines.next (h : Refines store Inv horizon config t)
    (lawful : store.Lawful Inv horizon) {a : Option Action} (hnext : Next store config t a t') :
    Refines store Inv horizon config t' := by
  cases hnext with
  | @write s' events hwrite hcontents =>
      obtain ⟨hinv, hle, added, hadded, hpast⟩ := lawful.write _ _ h.inv hwrite
      obtain rfl : added = events := List.append_cancel_left (hadded.symm.trans hcontents)
      have hasc : Ascending Event.offset added := by
        have hall := lawful.ascending _ hinv
        rw [hcontents] at hall
        exact (List.pairwise_append.mp hall).2.1
      have hmem : ∀ e ∈ added, e ∈ store.contents s' := fun e he =>
        hcontents ▸ List.mem_append_right _ he
      refine ⟨hinv, extend_reached h.reached hasc fun e he => lt_of_le_of_lt h.settled (hpast e he),
        ?_, extend_settled_le _ (le_trans h.settled hle) fun e he =>
          lawful.below _ hinv e (hmem e he)⟩
      rw [(extend_log _ _).1, h.log, hcontents]
  | @pump a w' hallows hstep =>
      have hreached : w'.Reached config := .step a h.reached ⟨h.honours lawful hallows, hstep⟩
      rcases World.step_calm hstep with hcalm | ⟨event, rfl⟩ | ⟨batch, rfl, hcalm⟩ | ⟨e, _, hfailed⟩
      · exact ⟨h.inv, hreached, hcalm.log.trans h.log, hcalm.settled.trans_le h.settled⟩
      · exact hallows.elim
      · obtain ⟨after, _, hfetch⟩ := hallows
        refine ⟨h.inv, hreached, hcalm.log.trans h.log, hcalm.settled.trans_le ?_⟩
        exact max_le h.settled (lawful.fetch _ _ _ h.inv hfetch).2
      · exact ⟨h.inv, hreached, hfailed.log.trans h.log, hfailed.settled.trans_le h.settled⟩

/-- The refinement: every run over a lawful store. -/
theorem Reached.refines (lawful : store.Lawful Inv horizon)
    (h : Reached store Inv horizon config t) : Refines store Inv horizon config t :=
  h.invariant (fun _ hspawned => hspawned.refines lawful) fun _ _ _ hrefines hnext =>
    hrefines.next lawful hnext

theorem Spawned.below (bounded : store.Bounded Inv) (h : Spawned store Inv horizon config t) :
    t.world.ReachedBelow config := by
  have hcontents := bounded.contents _ h.inv
  refine .start ⟨?_, ?_⟩ <;> rw [h.start]
  · exact hcontents
  · rfl

/-- Nothing the store does puts a position out of reach. -/
theorem Refines.below (h : Refines store Inv horizon config t) (lawful : store.Lawful Inv horizon)
    (bounded : store.Bounded Inv) (hbelow : t.world.ReachedBelow config) {a : Option Action}
    (hnext : Next store config t a t') : t'.world.ReachedBelow config := by
  have hinv := (h.next lawful hnext).inv
  cases hnext with
  | write _ hcontents =>
      refine extend_below hbelow fun e he => bounded.contents _ hinv e ?_
      exact hcontents ▸ List.mem_append_right _ he
  | @pump a _ hallows hstep =>
      refine .step a hbelow ⟨?_, hstep⟩
      cases a with
      | append event => exact hallows.elim
      | liveStart answer => exact bounded.liveStart _ _ hinv hallows
      | fetched answer =>
          obtain ⟨after, _, hfetch⟩ := hallows
          exact bounded.fetch _ _ _ hinv hfetch
      | receive id | dropReceiver id | unpark id | command c | commandsClosed | noCommand
      | idleTimeout | tick => trivial

theorem Reached.below (lawful : store.Lawful Inv horizon) (bounded : store.Bounded Inv)
    (h : Reached store Inv horizon config t) : t.world.ReachedBelow config :=
  h.invariant_under (P := fun t => t.world.ReachedBelow config)
    (fun _ hreached => Reached.refines lawful hreached) (fun _ hspawned => hspawned.below bounded)
    fun _ _ _ hrefines hbelow hnext => hrefines.below lawful bounded hbelow hnext

theorem Refines.clean (h : Refines store Inv horizon config t)
    (hstart : ∀ s e, Inv s → ¬ store.liveStart s (.error e))
    (hfetch : ∀ s after e, Inv s → ¬ store.fetch s after (.error e)) (hclean : t.world.Clean)
    {a : Option Action} (hnext : Next store config t a t') : t'.world.Clean := by
  cases hnext with
  | write _ _ =>
      rw [World.Clean, (extend_log _ _).2]
      exact hclean
  | pump hallows hstep =>
      rcases World.step_calm hstep with hcalm | ⟨event, rfl⟩ | ⟨batch, rfl, hcalm⟩ |
        ⟨e, rfl | rfl, _⟩
      · exact hcalm.clean hclean
      · exact hallows.elim
      · exact hcalm.clean hclean
      · obtain ⟨after, _, hanswer⟩ := hallows
        exact absurd hanswer (hfetch _ _ e h.inv)
      · exact absurd hallows (hstart _ e h.inv)

/-- A store that answers without errors gives no stream one. -/
theorem Reached.clean (lawful : store.Lawful Inv horizon)
    (h : Reached store Inv horizon config t)
    (hstart : ∀ s e, Inv s → ¬ store.liveStart s (.error e))
    (hfetch : ∀ s after e, Inv s → ¬ store.fetch s after (.error e)) : t.world.Clean := by
  refine h.invariant_under (P := fun t => t.world.Clean)
    (fun _ hreached => Reached.refines lawful hreached) (fun t hspawned => ?_)
    fun _ _ _ hrefines hclean hnext => hrefines.clean hstart hfetch hclean hnext
  rw [World.Clean, hspawned.start]
  exact fun s hs => absurd hs List.not_mem_nil

end Refinement

/-- A channel that carried no error carried events. -/
theorem clean_errors {c : Channel} {events : List Event} {errors : List StreamError}
    (hclean : c.Clean)
    (hsent : c.sent = events.map StreamItem.event ++ errors.map StreamItem.error) :
    errors = [] := by
  cases errors with
  | nil => rfl
  | cons e errors =>
      have hmem : StreamItem.error e ∈ c.sent := by
        rw [hsent]
        exact List.mem_append_right _ List.mem_cons_self
      cases hclean.2 _ hmem

end Backed

end Odradek.Web
