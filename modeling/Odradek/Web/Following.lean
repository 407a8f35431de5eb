import Odradek.Web.Delivery

/-!
Every operation of the pump, of a reader and of the log keeps what is known of
a subscriber. One lemma an operation: the log grows, the live edge is found or
moves, an event is pushed live, a run is pushed one event at a time, a
subscriber catches up with the edge.
-/

namespace Odradek.Web

open Library

variable {v v' : View} {s : Subscriber}

structure View.Grown (v v' : View) : Prop where
  log : ∃ new, v'.log = v.log ++ new ∧ ∀ e ∈ new, v.settled < (e.offset : Cursor)
  settled : v.settled ≤ v'.settled
  liveStart : v'.liveStart = v.liveStart
  front : v'.front = v.front

theorem View.Grown.window (h : v.Grown v') {low high : Cursor}
    (final : high ≤ low ∨ high ≤ v.settled) :
    Event.window low high v'.log = Event.window low high v.log := by
  obtain ⟨new, hlog, hnew⟩ := h.log
  rcases final with hle | hle
  · simp only [Event.window, window_eq_nil_of_le hle]
  · rw [hlog]
    exact window_append_of_gt fun e he => lt_of_le_of_lt hle (hnew e he)

theorem ShownTo.grown {start seen : Cursor} (h : ShownTo v s start seen) (hg : v.Grown v') :
    ShownTo v' s start seen where
  sent := by rw [h.sent, hg.window h.final]
  le := h.le
  final := h.final.imp_right fun hle => le_trans hle hg.settled

theorem Delivered.grown (h : Delivered v s) (hg : v.Grown v') : Delivered v' s := by
  obtain ⟨events, errors, hsent, hlen, hstart⟩ := h
  refine ⟨events, errors, hsent, hlen, ?_⟩
  rw [hg.liveStart]
  cases hs : s.resolvedStart v.liveStart with
  | none => simpa [hs] using hstart
  | some start =>
      obtain ⟨new, hlog, _⟩ := hg.log
      simp only [hs] at hstart ⊢
      refine hstart.trans ?_
      rw [Subscriber.owed, Subscriber.owed, hlog, after_append]
      exact (List.prefix_append _ _).filter _

theorem Progress.grown (h : Progress v s) (hg : v.Grown v') : Progress v' s := by
  cases h with
  | waiting hs hf hm hn =>
      exact .waiting (by rwa [hg.liveStart]) (by rwa [hg.front]) hm hn
  | catchingUp start hs hm hshown =>
      exact .catchingUp start (by rwa [hg.liveStart]) hm (hshown.grown hg)
  | live start front hs hf hm hshown hr =>
      refine .live start front (by rwa [hg.liveStart]) (by rwa [hg.front]) hm (hshown.grown hg) ?_
      refine hr.imp (fun hc => ⟨hc.1, hc.2.1, ?_⟩) fun hc => ?_
      · rw [hg.window (hshown.final.imp_left fun hle => le_trans hle hc.1)]
        exact hc.2.2
      · rw [hg.window hshown.final]
        exact hc

theorem Following.grown (h : Following v s) (hg : v.Grown v') : Following v' s where
  ended hc := (h.ended hc).grown hg
  channel := h.channel
  progress hc := (h.progress hc).grown hg

theorem Delivered.resolve (h : Delivered v s) {edge : Cursor} (hu : v.liveStart = .unknown)
    (front : LiveEdge) : Delivered { v with liveStart := .at edge, front } s := by
  obtain ⟨events, errors, hsent, hlen, hstart⟩ := h
  refine ⟨events, errors, hsent, hlen, ?_⟩
  rw [hu] at hstart
  cases hs : s.resolvedStart .unknown with
  | none =>
      simp only [hs] at hstart
      simp only [resolvedStart_waiting hs, hstart, List.nil_prefix]
  | some start =>
      simp only [hs] at hstart
      simpa only [resolvedStart_at hs] using hstart

/-- The source says where "now" is: those waiting for it start there. -/
theorem Following.resolve (h : Following v s) {edge : Cursor}
    (hu : v.liveStart = .unknown) (hf : v.front = .unknown) :
    Following { v with liveStart := .at edge, front := .at edge } s where
  channel := h.channel
  ended hc := (h.ended hc).resolve hu _
  progress hc := by
    cases h.progress hc with
    | waiting hs _ hm hn =>
        rw [hu] at hs
        refine .live edge edge (resolvedStart_waiting hs) rfl hm ⟨?_, le_rfl, .inl le_rfl⟩ (.inr ?_)
        · simp [hn, Event.window, window_eq_nil_of_le (le_refl edge), Filter.shown]
        · exact window_eq_nil_of_le (le_refl edge) _
    | catchingUp start hs hm hshown =>
        rw [hu] at hs
        exact .catchingUp start (resolvedStart_at hs) hm ⟨hshown.sent, hshown.le, hshown.final⟩
    | live _ _ _ hfront _ _ _ => simp [hf] at hfront

theorem Delivered.front (h : Delivered v s) (front : LiveEdge) : Delivered { v with front } s := h

/-- The edge moves over a stretch of the log that holds no entry. -/
theorem Following.advance (h : Following v s) (hv : v.Ordered) {front edge : Cursor}
    (hf : v.front = .at front) (hle : front ≤ edge)
    (final : edge = front ∨ edge ≤ v.settled) (empty : Event.window front edge v.log = []) :
    Following { v with front := .at edge } s where
  channel := h.channel
  ended hc := (h.ended hc).front _
  progress hc := by
    cases h.progress hc with
    | waiting _ hfront _ _ => simp [hf] at hfront
    | catchingUp start hs hm hshown =>
        exact .catchingUp start hs hm ⟨hshown.sent, hshown.le, hshown.final⟩
    | live start f hs hfront hm hshown hr =>
        obtain rfl : front = f := by simpa [hf] using hfront
        have widen : ∀ low, low ≤ front →
            Event.window low edge v.log = Event.window low front v.log :=
          fun low hlow => Event.window_extend hv.ascending hlow hle empty
        refine .live start edge hs rfl hm ⟨?_, le_trans hshown.le hle, ?_⟩ ?_
        · rw [widen start hshown.le]
          exact hshown.sent
        · rcases final with rfl | hfin
          · exact hshown.final
          · exact .inr hfin
        · rcases hr with ⟨hc, hcf, hw⟩ | hw
          · exact .inl ⟨hc, le_trans hcf hle, by rw [widen _ hcf]; exact hw⟩
          · exact .inr (by rw [widen start hshown.le]; exact hw)

section Push

variable {event : Event} {channel : Channel}

theorem Channel.trySend_ok (h : s.state.sender.trySend (.event event) = .ok channel) :
    channel = s.state.sender.put (.event event) := by
  unfold Channel.trySend at h
  split at h
  · cases h
  · split at h <;> cases h
    rfl

theorem Channel.trySend_full (h : s.state.sender.trySend (.event event) = .full) :
    s.state.sender.capacity ≤ s.state.sender.queued := by
  unfold Channel.trySend at h
  split at h
  · cases h
  · split at h
    · assumption
    · cases h

theorem ChannelOpen.put {c : Channel} (h : ChannelOpen c) (item : StreamItem) :
    ChannelOpen (c.put item) where
  parked := h.parked
  queued := by simpa [Channel.put] using h.queued
  capacity := h.capacity

/-- What was shown up to `seen` and the next entry, shown if it matches. -/
theorem ShownTo.next {start seen : Cursor} {c : Channel} (h : ShownTo v s start seen)
    (hv : v.Ordered) (hone : Event.window seen event.offset v.log = [event])
    (hsent : c.sent = s.state.sender.sent ++
      if s.state.filter.matchesEvent event then [.event event] else []) :
    ShownTo v { s with state := { s.state with sender := c, cursor := event.offset } } start
      event.offset := by
  have hmem : event ∈ Event.window seen event.offset v.log := by simp [hone]
  obtain ⟨hlog, hlt, -⟩ := mem_window.mp hmem
  refine ⟨?_, le_trans h.le hlt.le, .inr (hv.below _ hlog)⟩
  simp only [Event.window_split hv.ascending h.le hlt.le, hone, Filter.shown_append,
    Filter.shown_singleton]
  rw [hsent, h.sent]

theorem Progress.pushed {front : Cursor} {start : Cursor} {c : Channel} (hv : v.Ordered)
    (hs : s.resolvedStart v.liveStart = some start) (hm : s.state.mode = .live)
    (h : ShownTo v s start front) (hone : Event.window front event.offset v.log = [event])
    (hsent : c.sent = s.state.sender.sent ++
      if s.state.filter.matchesEvent event then [.event event] else []) :
    Progress { v with front := .at event.offset }
      { s with state := { s.state with sender := c, cursor := event.offset } } := by
  have hn := h.next hv hone hsent
  refine .live start event.offset hs rfl hm ⟨hn.sent, hn.le, hn.final⟩ (.inl ⟨hn.le, le_rfl, ?_⟩)
  exact window_eq_nil_of_le (le_refl _) _

/-- `push_live` of the event that follows the front moves the front to it. -/
theorem Following.pushLive (h : Following v s) (hv : v.Ordered) {front : Cursor}
    (hf : v.front = .at front) (hone : Event.window front event.offset v.log = [event]) :
    Following { v with front := .at event.offset } { s with state := s.state.pushLive event } := by
  have hmem : event ∈ Event.window front event.offset v.log := by simp [hone]
  obtain ⟨hlog, hlt, -⟩ := mem_window.mp hmem
  cases hc : s.state.closed with
  | true =>
      have hsame : s.state.pushLive event = s.state := by simp [SubState.pushLive, hc]
      rw [hsame]
      exact ⟨fun _ => (h.ended hc).front _, by simp [hc], by simp [hc]⟩
  | false =>
      cases h.progress hc with
      | waiting _ hfront _ _ => simp [hf] at hfront
      | catchingUp start hs hm hshown =>
          have hsame : s.state.pushLive event = s.state := by simp [SubState.pushLive, hm]
          rw [hsame]
          refine ⟨by simp [hc], h.channel, fun _ => .catchingUp start hs hm ?_⟩
          exact ⟨hshown.sent, hshown.le, hshown.final⟩
      | live start f hs hfront hm hshown hr =>
          obtain rfl : front = f := by simpa [hf] using hfront
          cases hmatch : s.state.filter.matchesEvent event with
          | false =>
              have hpush : s.state.pushLive event = { s.state with cursor := event.offset } := by
                simp [SubState.pushLive, hm, hc, hmatch]
              rw [hpush]
              exact ⟨by simp [hc], h.channel,
                fun _ => .pushed hv hs hm hshown hone (by simp [hmatch])⟩
          | true =>
              cases hsend : s.state.sender.trySend (.event event) with
              | ok channel =>
                  have hpush : s.state.pushLive event =
                      { s.state with sender := channel, cursor := event.offset } := by
                    simp [SubState.pushLive, hm, hc, hmatch, hsend]
                  have hch := Channel.trySend_ok hsend
                  rw [hpush]
                  refine ⟨by simp [hc], fun _ => ?_, fun _ => .pushed hv hs hm hshown hone ?_⟩
                  · rw [hch]
                    exact (h.channel hc).put _
                  · simp [hch, Channel.put, hmatch]
              | closed =>
                  have hpush : s.state.pushLive event = { s.state with closed := true } := by
                    simp [SubState.pushLive, hm, hc, hmatch, hsend]
                  rw [hpush]
                  exact ⟨fun _ => h.delivered hv, by simp, by simp⟩
              | full =>
                  have hpush : s.state.pushLive event = { s.state with mode := .catchingUp } := by
                    simp [SubState.pushLive, hm, hc, hmatch, hsend]
                  rw [hpush]
                  refine ⟨by simp [hc], h.channel, fun _ => .catchingUp start hs rfl ?_⟩
                  -- A full queue holds something, so the subscriber has been shown an
                  -- event and its cursor is where catch-up resumes.
                  have hsome : Event.window start front v.log ≠ [] := by
                    intro hnil
                    have hopen := h.channel hc
                    have hnone : s.state.sender.sent = [] := by
                      rw [hshown.sent, hnil]; rfl
                    have hfull := Channel.trySend_full hsend
                    have hq := hopen.queued
                    have hcap := hopen.capacity
                    simp only [hnone, List.length_nil] at hq
                    omega
                  obtain ⟨hstart, hcf, hgap⟩ := hr.resolve_right hsome
                  refine ⟨?_, hstart, hshown.final.imp (le_trans hcf) (le_trans hcf)⟩
                  simp only [hshown.sent, Event.window_extend hv.ascending hstart hcf hgap]

/-- One turn of `push_run` shows a catching-up subscriber the entry after its
cursor and leaves the rest of the run after the new one. -/
theorem Following.pushRunStep (h : Following v s) (hv : v.Ordered) (hc : s.state.closed = false)
    (hm : s.state.mode = .catchingUp) {high : Cursor} {rest : List Event} {sub : SubState}
    (hw : Event.window s.state.cursor high v.log = event :: rest)
    (hstep : s.state.pushRunStep event = .shown sub) :
    Following v { s with state := sub } ∧ sub.closed = false ∧ sub.mode = .catchingUp ∧
      Event.window sub.cursor high v.log = rest ∧ sub.cursor ≤ high := by
  obtain ⟨_, hhigh, hone, hrest⟩ := window_eq_cons hv.ascending hw
  have shownNext : ∀ c : Channel, ChannelOpen c → c.sent = s.state.sender.sent ++
      (if s.state.filter.matchesEvent event then [.event event] else []) →
      Following v { s with state := { s.state with sender := c, cursor := event.offset } } := by
    intro c hopen hsent
    cases h.progress hc with
    | waiting _ _ hlive _ | live _ _ _ _ hlive _ _ => simp [hm] at hlive
    | catchingUp start hs _ hshown =>
        exact ⟨by simp [hc], fun _ => hopen,
          fun _ => .catchingUp start hs hm (hshown.next hv hone hsent)⟩
  unfold SubState.pushRunStep at hstep
  split at hstep
  next hmatch =>
      split at hstep
      next channel hsend =>
          cases hstep
          have hch := Channel.trySend_ok hsend
          refine ⟨shownNext channel ?_ ?_, hc, hm, hrest, hhigh⟩
          · rw [hch]
            exact (h.channel hc).put _
          · simp [hch, Channel.put, hmatch]
      all_goals cases hstep
  next hmatch =>
      cases hstep
      exact ⟨shownNext s.state.sender (h.channel hc) (by simp [hmatch]), hc, hm, hrest, hhigh⟩

end Push

theorem Following.close (h : Following v s) (hv : v.Ordered) :
    Following v { s with state := { s.state with closed := true } } where
  ended _ := h.delivered hv
  channel hc := by simp at hc
  progress hc := by simp at hc

theorem Following.failed (h : Following v s) (hv : v.Ordered) (hc : s.state.closed = false)
    (e : SourceError) : Following v { s with state := s.state.fail e } where
  ended _ := h.fail hv hc e
  channel hc := by simp [SubState.fail] at hc
  progress hc := by simp [SubState.fail] at hc

/-- A subscriber that has been shown everything up to the edge is at the edge. -/
theorem Following.goLive (h : Following v s) (hv : v.Ordered) (hm : s.state.mode = .catchingUp)
    {edge : Cursor} (hf : v.front = .at edge) (hle : s.state.cursor ≤ edge)
    (final : edge ≤ s.state.cursor ∨ edge ≤ v.settled)
    (empty : Event.window s.state.cursor edge v.log = []) :
    Following v { s with state := { s.state with mode := .live } } where
  ended := h.ended
  channel := h.channel
  progress hc := by
    cases h.progress hc with
    | waiting _ _ hlive _ | live _ _ _ _ hlive _ _ => simp [hm] at hlive
    | catchingUp start hs _ hshown =>
        refine .live start edge hs hf rfl ⟨?_, le_trans hshown.le hle, ?_⟩
          (.inl ⟨hshown.le, hle, empty⟩)
        · simp only [hshown.sent, Event.window_extend hv.ascending hshown.le hle empty]
        · rcases final with hfin | hfin
          · exact hshown.final.imp (le_trans hfin) (le_trans hfin)
          · exact .inr hfin

/-- A catching-up subscriber crosses a stretch of the log without entries. -/
theorem Following.cross (h : Following v s) (hv : v.Ordered) (hm : s.state.mode = .catchingUp)
    {next : Cursor} (hn : next ≤ v.settled)
    (empty : Event.window s.state.cursor next v.log = []) :
    Following v { s with state := { s.state with cursor := max s.state.cursor next } } where
  ended := h.ended
  channel := h.channel
  progress hc := by
    cases h.progress hc with
    | waiting _ _ hlive _ | live _ _ _ _ hlive _ _ => simp [hm] at hlive
    | catchingUp start hs _ hshown =>
        refine .catchingUp start hs hm ?_
        rcases le_total next s.state.cursor with hle | hle
        · simpa only [max_eq_left hle] using
            (⟨hshown.sent, hshown.le, hshown.final⟩ : ShownTo v { s with state :=
              { s.state with cursor := s.state.cursor } } start s.state.cursor)
        · simp only [max_eq_right hle]
          refine ⟨?_, le_trans hshown.le hle, .inr hn⟩
          simp only [hshown.sent, Event.window_extend hv.ascending hshown.le hle empty]

/-- Nothing is known of a subscriber's error count, nor of its queue but what
has been put into it. -/
theorem Following.frame (h : Following v s) {c : Channel} {errors : Nat}
    (hsent : c.sent = s.state.sender.sent) (hparked : c.parked = s.state.sender.parked)
    (hqueued : c.queued ≤ s.state.sender.queued)
    (hcapacity : c.capacity = s.state.sender.capacity) :
    Following v { s with state := { s.state with sender := c, catchUpErrors := errors } } where
  ended hc := by
    obtain ⟨events, es, h1, h2, h3⟩ := h.ended hc
    exact ⟨events, es, hsent.trans h1, by rw [hparked]; exact h2, h3⟩
  channel hc := by
    have hopen := h.channel hc
    refine ⟨hparked.trans hopen.parked, ?_, hcapacity ▸ hopen.capacity⟩
    rw [hsent]
    exact le_trans hqueued hopen.queued
  progress hc := by
    cases h.progress hc with
    | waiting hs hf hm hn => exact .waiting hs hf hm (hsent.trans hn)
    | catchingUp start hs hm hshown =>
        exact .catchingUp start hs hm ⟨hsent.trans hshown.sent, hshown.le, hshown.final⟩
    | live start front hs hf hm hshown hr =>
        exact .live start front hs hf hm ⟨hsent.trans hshown.sent, hshown.le, hshown.final⟩ hr

theorem Delivered.frame (h : Delivered v s) {c : Channel} (hsent : c.sent = s.state.sender.sent)
    (hparked : c.parked = s.state.sender.parked) :
    Delivered v { s with state := { s.state with sender := c } } := by
  obtain ⟨events, errors, h1, h2, h3⟩ := h
  exact ⟨events, errors, hsent.trans h1, by rw [hparked]; exact h2, h3⟩

/-- A parked error reaches the stream last, or not at all. -/
theorem Delivered.unpark (h : Delivered v s) :
    Delivered v { s with state := { s.state with sender := s.state.sender.unpark } } := by
  obtain ⟨events, errors, hsent, hlen, hstart⟩ := h
  unfold Channel.unpark
  split
  · exact ⟨events, errors, hsent, hlen, hstart⟩
  next e rest hparked =>
      rw [hparked, List.length_cons] at hlen
      unfold Channel.trySend
      split
      next channel hsend =>
          split at hsend
          · cases hsend
          split at hsend <;> cases hsend
          refine ⟨events, errors ++ [e], ?_, ?_, hstart⟩
          · simp [Channel.put, hsent]
          · simp only [List.length_append, List.length_singleton]
            omega
      · exact ⟨events, errors, hsent, by simp only; omega, hstart⟩
      · exact ⟨events, errors, hsent, by rw [hparked, List.length_cons]; exact hlen, hstart⟩

theorem Following.unpark (h : Following v s) (hv : v.Ordered) :
    Following v { s with state := { s.state with sender := s.state.sender.unpark } } := by
  cases hc : s.state.closed with
  | true => exact ⟨fun _ => (h.delivered hv).unpark, by simp [hc], by simp [hc]⟩
  | false =>
      have hsame : s.state.sender.unpark = s.state.sender := by
        simp [Channel.unpark, (h.channel hc).parked]
      rw [hsame]
      exact h

end Odradek.Web
