import Odradek.Acceptance.Blame

/-!
What the exchanges of the server checks leave behind: an error is never there
without its cause in the trace, and a result only where every connection was
opened. A scope says which connections and requests an exchange keeps to.
-/

namespace Odradek.Acceptance.Server

open Library Odradek.Protocol Odradek.Client

/-- The check an exchange belongs to, whose its connections are, and what it asks
besides metadata. -/
structure Scope where
  check : SweepCheck
  site : Site
  asks : Int16 → Request → Prop

namespace Scope

def Within (S : Scope) : Op → Prop
  | .connect site _ | .authenticate site _ => site = S.site
  | .call c => (∃ topic, c.request = .metadata topic) ∨ S.asks c.version c.request
  | .sleep | .clock => True

/-- Nothing stands in the way of going on. -/
structure Clear (S : Scope) (t : Trace) : Prop where
  within : ∀ e ∈ t, S.Within e.1
  opened : ¬ Unopened S.site t

def Trouble (S : Scope) (t : Trace) : CheckError → Prop
  | .violation _ => S.Clear t ∧ S.check.Unanswered t
  | .infra _ => (∀ e ∈ t, S.Within e.1) ∧ (Unopened S.site t ∨ S.check.Unanswered t)

def Ended (S : Scope) (t : Trace) : Verdict → Prop
  | .pass => False
  | .fail _ => (∀ e ∈ t, S.Within e.1) ∧ S.check.Unanswered t
  | .skipped _ | .error _ => ∀ e ∈ t, S.Within e.1

def Sound (S : Scope) {α : Type} (t : Trace) (x : Checked α) (Q : Trace → α → Prop) : Prop :=
  Program.After t x (fun u a => S.Clear u ∧ Q u a) S.Trouble

def Fair (S : Scope) {α : Type} (t : Trace) (x : Judged α) (Q : Trace → α → Prop) : Prop :=
  Program.After t x (fun u a => S.Clear u ∧ Q u a) S.Ended

end Scope

/-- One trace goes on where the other stopped, and asks nothing that is put off. -/
def Keeps (t t' : Trace) : Prop := ∃ u, t' = t ++ u ∧ ∀ e ∈ u, ¬ e.1.Deferrable

/-- One trace goes on where the other stopped, and no topic is created. -/
def Leaves (t t' : Trace) : Prop := ∃ u, t' = t ++ u ∧ ∀ e ∈ u, createdId e = none

/-- No topic was created but the one of this id. -/
def Creates (id : Uuid) (t : Trace) : Prop := ∀ e ∈ t, ∀ i, createdId e = some i → i = id

section Keeping

variable {t t' t'' : Trace} {W : Event → Prop}

theorem Keeps.refl : Keeps t t := ⟨[], (List.append_nil t).symm, List.forall_mem_nil _⟩

theorem Keeps.trans (h : Keeps t t') (h' : Keeps t' t'') : Keeps t t'' := by
  obtain ⟨u, rfl, hu⟩ := h
  obtain ⟨v, rfl, hv⟩ := h'
  exact ⟨u ++ v, List.append_assoc t u v, List.forall_mem_append.mpr ⟨hu, hv⟩⟩

theorem Keeps.blamed (h : Keeps t t') (hblamed : Blamed W t) : Blamed W t' := by
  obtain ⟨u, rfl, hu⟩ := h
  exact hblamed.append_plain hu

theorem createdId_eq_none {e : Event} (h : ¬ e.1.Deferrable) : createdId e = none := by
  unfold createdId
  split
  · exact absurd rfl h
  · rfl

theorem Keeps.leaves (h : Keeps t t') : Leaves t t' := by
  obtain ⟨u, ht', hu⟩ := h
  exact ⟨u, ht', fun e hmem => createdId_eq_none (hu e hmem)⟩

theorem Leaves.trans (h : Leaves t t') (h' : Leaves t' t'') : Leaves t t'' := by
  obtain ⟨u, rfl, hu⟩ := h
  obtain ⟨v, rfl, hv⟩ := h'
  exact ⟨u ++ v, List.append_assoc t u v, List.forall_mem_append.mpr ⟨hu, hv⟩⟩

theorem leaves_snoc {e : Event} (h : createdId e = none) : Leaves t (t ++ [e]) :=
  ⟨[e], rfl, List.forall_mem_singleton.mpr h⟩

theorem Leaves.creates {id : Uuid} (h : Leaves t t') (ht : Creates id t) : Creates id t' := by
  obtain ⟨u, rfl, hu⟩ := h
  refine List.forall_mem_append.mpr ⟨ht, fun e hmem i hi => ?_⟩
  rw [hu e hmem] at hi
  cases hi

theorem Creates.handedOut {id : Uuid} (h : Creates id t) (hout : HandedOut t) : id ≠ zeroUuid := by
  obtain ⟨e, hmem, i, hi, hne⟩ := hout
  rw [← h e hmem i hi]
  exact hne

end Keeping

section Versions

variable {α β : Type}

/-- Neither for nor against the subject. -/
def Unjudged (verdict : Verdict) : Prop :=
  (∃ details, verdict = .error details) ∨ ∃ reason, verdict = .skipped reason

def Unjudges (r : Except Verdict α) : Prop := ∀ verdict, r = .error verdict → Unjudged verdict

theorem Unjudges.bind {r : Except Verdict α} {f : α → Except Verdict β} (hr : Unjudges r)
    (hf : ∀ a, Unjudges (f a)) : Unjudges (r >>= f) := by
  cases r with
  | ok a => exact hf a
  | error verdict =>
      intro v hv
      exact hr v (congrArg Except.error (Except.error.inj hv))

theorem unjudges_ok (a : α) : Unjudges (.ok a) := fun _ h => by cases h

theorem unjudges_range (ctx : ServerCtx) (apiKey : Int16) : Unjudges (ctx.range apiKey) := by
  intro verdict h
  unfold ServerCtx.range at h
  split at h
  · cases h
  · cases h
    exact .inl ⟨_, rfl⟩

theorem unjudges_negotiate (api : String) (advertised : Option (Int16 × Int16))
    (checkMin checkMax : Int16) : Unjudges (negotiate api advertised checkMin checkMax) := by
  intro verdict h
  unfold negotiate at h
  split at h
  · cases h
    exact .inr ⟨_, rfl⟩
  · dsimp only at h
    generalize (if _ ≤ checkMax then _ else checkMax) = version at h
    split at h
    · cases h
      exact .inr ⟨_, rfl⟩
    · cases h

theorem unjudges_negotiateAll (api : String) (advertised : Option (Int16 × Int16))
    (checkMin checkMax : Int16) : Unjudges (negotiateAll api advertised checkMin checkMax) :=
  (unjudges_negotiate _ _ _ _).bind fun _ => unjudges_ok _

theorem unjudges_flowVersions (ctx : ServerCtx) : Unjudges (flowVersions ctx) := by
  refine (unjudges_range ctx 19).bind fun create => (unjudges_negotiate _ _ _ _).bind fun _ => ?_
  refine (unjudges_range ctx 0).bind fun produce => (unjudges_negotiate _ _ _ _).bind fun _ => ?_
  refine Unjudges.bind ?_ fun _ => unjudges_ok _
  exact (unjudges_range ctx 3).bind fun metadata => unjudges_negotiate _ _ _ _

end Versions

section Exchanges

variable {t : Trace}

theorem settleAttempts_pos (config : ProbeConfig) : 0 < config.settleAttempts :=
  Nat.lt_of_lt_of_le Nat.zero_lt_one (Nat.le_max_right _ _)

theorem meets_sleep {Q : Trace → Prop} (h : Q (t ++ [⟨.sleep, ()⟩])) :
    sleep.Meets fun u _ => Q (t ++ u) := Program.meets_perform fun _ => h

theorem keeps_sleep : Keeps t (t ++ [⟨.sleep, ()⟩]) :=
  ⟨_, rfl, List.forall_mem_singleton.mpr id⟩

/-- There is a header version for everything the checks ask. -/
theorem requestHeaderVersion_isSome (request : Request) (version : Int16) :
    ∃ header, requestHeaderVersion request.apiKey version = some header := by
  cases request <;> exact ⟨_, rfl⟩

theorem apiCall_eq (conn : Conn) (version : Int16) (correlation : Int32) (request : Request) :
    apiCall conn version correlation request =
      ExceptT.mk (send { conn, version, correlation, request }) := by
  obtain ⟨header, hheader⟩ := requestHeaderVersion_isSome request version
  rw [apiCall, hheader]

/-- One exchange, whatever its answer. -/
theorem apiCall_after {conn : Conn} {version : Int16} {correlation : Int32} {request : Request} :
    Program.After t (apiCall conn version correlation request)
      (fun t' resp => t' = t ++ [⟨.call { conn, version, correlation, request }, .ok resp⟩])
      fun t' e => t' = t ++ [⟨.call { conn, version, correlation, request }, .error e⟩] := by
  rw [apiCall_eq]
  change (send { conn, version, correlation, request }).Meets _
  refine Program.meets_perform fun r => ?_
  cases r with
  | ok resp => rfl
  | error e => rfl

inductive Opening (site : Site) (addr : String) : Trace → Except CheckError Conn → Prop
  | connected {conn : Conn} : Opening site addr [⟨.connect site addr, .ok ()⟩] (.ok conn)
  | authenticated {conn : Conn} :
      Opening site addr [⟨.connect site addr, .ok ()⟩, ⟨.authenticate site conn, .ok ()⟩] (.ok conn)
  | refused {e details : String} :
      Opening site addr [⟨.connect site addr, .error e⟩] (.error (.infra details))
  | rejected {conn : Conn} {e : CheckError} :
      Opening site addr [⟨.connect site addr, .ok ()⟩, ⟨.authenticate site conn, .error e⟩]
        (.error e)

theorem uniqueTopic_meets (ctx : ServerCtx) (tag : String) :
    (uniqueTopic ctx tag).Meets fun u _ => ∃ nanos, u = [⟨.clock, nanos⟩] :=
  Program.meets_bind (Program.meets_perform (Q := fun u nanos => u = [⟨.clock, nanos⟩])
    fun _ => rfl) fun u nanos hu =>
      Program.meets_done ⟨nanos, (List.append_nil u).trans hu⟩

theorem connect_after (ctx : ServerCtx) (site : Site) (addr : String) :
    Program.After [] (connect ctx site addr) (fun t _ => t = [⟨.connect site addr, .ok ()⟩])
      fun t e => Opening site addr t (.error e) := by
  refine Program.meets_bind (Program.meets_perform (Q := fun t r =>
    t = [⟨.connect site addr, r⟩]) fun _ => rfl) fun t r ht => ?_
  rw [ht]
  cases r with
  | ok _ => exact Program.meets_done rfl
  | error e =>
      dsimp only
      split
      · exact Program.meets_done .refused
      · exact Program.meets_done .refused

theorem openConn_after (ctx : ServerCtx) (site : Site) (addr : String) :
    Program.After [] (openConn ctx site addr) (fun t conn => Opening site addr t (.ok conn))
      fun t e => Opening site addr t (.error e) := by
  refine Program.after_bind (connect_after ctx site addr) fun t conn ht => ?_
  rw [ht]
  split
  · refine Program.meets_bind (Program.meets_perform (Q := fun t r =>
      t = [⟨.authenticate site conn, r⟩]) fun _ => rfl) fun u r hu => Program.meets_done ?_
    rw [hu]
    cases r with
    | ok _ => exact .authenticated
    | error e => exact .rejected
  · exact Program.after_pure .connected

end Exchanges

namespace Scope

variable {S : Scope} {α β : Type} {t u : Trace}

section Rules

theorem clear_nil : S.Clear [] := ⟨List.forall_mem_nil _, fun ⟨_, hmem, _⟩ => by cases hmem⟩

theorem Clear.append (ht : S.Clear t) (hu : S.Clear u) : S.Clear (t ++ u) where
  within := List.forall_mem_append.mpr ⟨ht.within, hu.within⟩
  opened := fun h => (unopened_append.mp h).elim ht.opened hu.opened

theorem Clear.snoc {e : Event} (ht : S.Clear t) (hwithin : S.Within e.1)
    (hopened : ¬ Unopens S.site e) : S.Clear (t ++ [e]) :=
  ht.append ⟨List.forall_mem_singleton.mpr hwithin,
    fun ⟨_, hmem, h⟩ => hopened (List.mem_singleton.mp hmem ▸ h)⟩

theorem Trouble.context {e : CheckError} (h : S.Trouble t e) (what : String) :
    S.Trouble t (e.context what) := by
  cases e with
  | infra details => exact h
  | violation details => exact h

theorem Trouble.ended {e : CheckError} (h : S.Trouble t e) : S.Ended t e.intoVerdict := by
  cases e with
  | infra details => exact h.1
  | violation details => exact ⟨h.1.within, h.2⟩

theorem Ended.atVersion {verdict : Verdict} (h : S.Ended t verdict) (version : Int16) :
    S.Ended t (verdict.atVersion version) := by
  cases verdict <;> exact h

theorem sound_pure {a : α} {Q : Trace → α → Prop} (ht : S.Clear t) (h : Q t a) :
    S.Sound t (pure a) Q := Program.after_pure ⟨ht, h⟩

theorem sound_violation {details : String} {Q : Trace → α → Prop} (ht : S.Clear t)
    (h : S.check.Unanswered t) : S.Sound t (throw (.violation details)) Q :=
  Program.after_throw ⟨ht, h⟩

theorem sound_bind {x : Checked α} {f : α → Checked β} {Q : Trace → α → Prop}
    {R : Trace → β → Prop} (hx : S.Sound t x Q)
    (hf : ∀ u a, S.Clear u → Q u a → S.Sound u (f a) R) : S.Sound t (x >>= f) R :=
  Program.after_bind hx fun u a h => hf u a h.1 h.2

theorem Sound.imp {x : Checked α} {Q R : Trace → α → Prop} (hx : S.Sound t x Q)
    (h : ∀ u a, Q u a → R u a) : S.Sound t x R :=
  Program.After.imp hx (fun u a hQ => ⟨hQ.1, h u a hQ.2⟩) fun _ _ => id

theorem fair_pure {a : α} {Q : Trace → α → Prop} (ht : S.Clear t) (h : Q t a) :
    S.Fair t (pure a) Q := Program.after_pure ⟨ht, h⟩

theorem fair_throw {verdict : Verdict} {Q : Trace → α → Prop} (h : S.Ended t verdict) :
    S.Fair t (throw verdict) Q := Program.after_throw h

theorem fair_fail {details : String} {Q : Trace → α → Prop} (ht : S.Clear t)
    (h : S.check.Unanswered t) : S.Fair t (throw (.fail details)) Q :=
  fair_throw ⟨ht.within, h⟩

theorem fair_bind {x : Judged α} {f : α → Judged β} {Q : Trace → α → Prop}
    {R : Trace → β → Prop} (hx : S.Fair t x Q)
    (hf : ∀ u a, S.Clear u → Q u a → S.Fair u (f a) R) : S.Fair t (x >>= f) R :=
  Program.after_bind hx fun u a h => hf u a h.1 h.2

theorem fair_given {r : Except Verdict α} {Q : Trace → α → Prop} (ht : S.Clear t)
    (ok : ∀ a, r = .ok a → Q t a) (error : ∀ verdict, r = .error verdict → S.Ended t verdict) :
    S.Fair t (Program.given r) Q :=
  Program.after_given (fun a h => ⟨ht, ok a h⟩) error

theorem ended_of_unjudged {verdict : Verdict} (h : Unjudged verdict)
    (within : ∀ e ∈ t, S.Within e.1) : S.Ended t verdict := by
  obtain ⟨_, rfl⟩ | ⟨_, rfl⟩ := h
  · exact within
  · exact within

theorem fair_unjudged {r : Except Verdict α} {Q : Trace → α → Prop} (ht : S.Clear t)
    (hr : Unjudges r) (ok : ∀ a, r = .ok a → Q t a) : S.Fair t (Program.given r) Q :=
  fair_given ht ok fun verdict h => ended_of_unjudged (hr verdict h) ht.within

theorem Sound.fair {x : Checked α} {Q : Trace → α → Prop} (hx : S.Sound t x Q) :
    S.Fair t (Program.mapError CheckError.intoVerdict x) Q :=
  Program.after_mapError hx fun _ _ => Trouble.ended

theorem Sound.fair_context {x : Checked α} {Q : Trace → α → Prop} (hx : S.Sound t x Q)
    (what : String) :
    S.Fair t (Program.mapError (fun e => (e.context what).intoVerdict) x) Q :=
  Program.after_mapError hx fun _ _ h => (h.context what).ended

theorem Sound.fair_atVersion {x : Checked α} {Q : Trace → α → Prop} (hx : S.Sound t x Q)
    (version : Int16) :
    S.Fair t (Program.mapError (fun e => e.intoVerdict.atVersion version) x) Q :=
  Program.after_mapError hx fun _ _ h => h.ended.atVersion version

/-- What an exchange does for itself, it does in any run. -/
theorem Sound.frame {x : Checked α} {Q : Trace → α → Prop} (hx : S.Sound [] x Q)
    (ht : S.Clear t) :
    S.Sound t x fun t' a => ∃ u, t' = t ++ u ∧ S.Clear u ∧ Q u a := by
  refine Program.After.imp (Program.After.frame hx) ?_ ?_
  · intro t' a ⟨u, ht', hu, hQ⟩
    rw [ht']
    exact ⟨ht.append hu, u, rfl, hu, hQ⟩
  · intro t' e ⟨u, ht', h⟩
    rw [ht']
    cases e with
    | violation details => exact ⟨ht.append h.1, blamed_append_right h.2⟩
    | infra details =>
        exact ⟨List.forall_mem_append.mpr ⟨ht.within, h.1⟩,
          h.2.imp (fun h => unopened_append.mpr (.inr h)) blamed_append_right⟩

/-- The same within a wider scope. -/
theorem Fair.widen {T : Scope} {x : Judged α} {Q : Trace → α → Prop} (hx : T.Fair [] x Q)
    (hcheck : T.check = S.check) (hsite : T.site = S.site)
    (hasks : ∀ version request, T.asks version request → S.asks version request)
    (ht : S.Clear t) :
    S.Fair t x fun t' a => ∃ u, t' = t ++ u ∧ T.Clear u ∧ Q u a := by
  have hwithin (u : Trace) (hu : ∀ e ∈ u, T.Within e.1) : ∀ e ∈ t ++ u, S.Within e.1 := by
    refine List.forall_mem_append.mpr ⟨ht.within, fun e hmem => ?_⟩
    have he := hu e hmem
    unfold Scope.Within at he ⊢
    split at he
    · exact he.trans hsite
    · exact he.trans hsite
    · exact he.imp_right (hasks _ _)
    · trivial
    · trivial
  refine Program.After.imp (Program.After.frame hx) ?_ ?_
  · intro t' a ⟨u, ht', hu, hQ⟩
    rw [ht']
    refine ⟨⟨hwithin u hu.within, fun h => ?_⟩, u, rfl, hu, hQ⟩
    exact (unopened_append.mp h).elim ht.opened (hsite ▸ hu.opened)
  · intro t' verdict ⟨u, ht', h⟩
    rw [ht']
    cases verdict with
    | pass => exact h
    | fail details => exact ⟨hwithin u h.1, blamed_append_right (hcheck ▸ h.2)⟩
    | skipped reason => exact hwithin u h
    | error details => exact hwithin u h

/-- Where no topic may be created, none is. -/
theorem created_of_within (hu : ∀ e ∈ u, S.Within e.1)
    (hasks : ∀ version topic replicas, ¬ S.asks version (.createTopics topic replicas false)) :
    ∀ e ∈ u, createdId e = none := by
  intro e hmem
  have he := hu e hmem
  unfold createdId
  split
  · obtain ⟨_, h⟩ | h := he
    · cases h
    · exact absurd h (hasks _ _ _)
  · rfl

end Rules

section Operations

theorem Clear.sleep (ht : S.Clear t) : S.Clear (t ++ [⟨.sleep, ()⟩]) := ht.snoc trivial id

theorem apiCall_sound {conn : Conn} {version : Int16} {correlation : Int32} {request : Request}
    {Q : Trace → request.Response → Prop} (ht : S.Clear t)
    (hasks : (∃ topic, request = .metadata topic) ∨ S.asks version request)
    (hQ : ∀ resp, Q (t ++ [⟨.call { conn, version, correlation, request }, .ok resp⟩]) resp) :
    S.Sound t (apiCall conn version correlation request) Q := by
  refine Program.After.imp apiCall_after (fun u resp hu => ?_) fun u e hu => ?_
  · rw [hu]
    exact ⟨ht.snoc hasks id, hQ resp⟩
  · have hclear : S.Clear u := hu ▸ ht.snoc hasks id
    have hwrong : S.check.Unanswered u := hu ▸ blamed_last fun resp h => by cases h
    cases e with
    | infra details => exact ⟨hclear.within, .inr hwrong⟩
    | violation details => exact ⟨hclear, hwrong⟩

theorem clear_connected {site : Site} {addr : String} (hsite : S.site = site) :
    S.Clear [⟨.connect site addr, .ok ()⟩] :=
  clear_nil.snoc hsite.symm fun ⟨_, _, h⟩ => by cases h

theorem clear_of_opening {site : Site} {addr : String} {conn : Conn} (hsite : S.site = site)
    (h : Opening site addr t (.ok conn)) : S.Clear t ∧ ∀ e ∈ t, ¬ e.1.Deferrable := by
  cases h with
  | connected => exact ⟨clear_connected hsite, List.forall_mem_singleton.mpr id⟩
  | authenticated =>
      refine ⟨(clear_connected hsite).append (clear_nil.snoc hsite.symm fun ⟨_, _, h⟩ => ?_), ?_⟩
      · cases h
      · exact List.forall_mem_cons.mpr ⟨id, List.forall_mem_singleton.mpr id⟩

/-- A connection that does not open is trouble where the check opened it. -/
theorem trouble_of_opening {site : Site} {addr : String} {e : CheckError} (hsite : S.site = site)
    (h : Opening site addr t (.error e)) : S.Trouble t e := by
  cases h with
  | @refused reason _ =>
      exact ⟨List.forall_mem_singleton.mpr hsite.symm,
        .inl ⟨_, List.mem_cons_self, hsite.symm, reason, rfl⟩⟩
  | @rejected conn _ =>
      have hconnected : S.Clear [⟨.connect site addr, .ok ()⟩] := clear_connected hsite
      cases e with
      | infra details =>
          refine ⟨List.forall_mem_cons.mpr ⟨hsite.symm, List.forall_mem_singleton.mpr hsite.symm⟩,
            .inl ⟨_, List.mem_cons_of_mem _ List.mem_cons_self, hsite.symm, details, rfl⟩⟩
      | violation details =>
          refine ⟨hconnected.append (clear_nil.snoc hsite.symm fun ⟨_, _, h⟩ => ?_), ?_⟩
          · cases h
          · exact blamed_last (t := [_]) ⟨details, rfl⟩

theorem openConn_sound {ctx : ServerCtx} {site : Site} {addr : String} (hsite : S.site = site)
    (ht : S.Clear t) : S.Sound t (openConn ctx site addr) fun t' _ => Keeps t t' := by
  have hopen : S.Sound [] (openConn ctx site addr) fun u _ => ∀ e ∈ u, ¬ e.1.Deferrable :=
    Program.After.imp (openConn_after ctx site addr) (fun _ _ => clear_of_opening hsite)
      fun _ _ => trouble_of_opening hsite
  exact (hopen.frame ht).imp fun u _ ⟨v, hu, _, hv⟩ => ⟨v, hu, hv⟩

/-- The attempts of a loop that waits between them. -/
theorem sound_attempts {σ : Type} {body : Nat → σ → Checked (σ ⊕ α)}
    {I : Nat → Trace → σ → Prop} {D : Trace → α → Prop} {s : σ}
    (rest : ∀ attempt t s, I attempt t s → I attempt (t ++ [⟨.sleep, ()⟩]) s)
    (step : ∀ attempt t s, S.Clear t → I attempt t s →
      S.Sound t (body attempt s) fun t out => match out with
        | .inl s => I (attempt + 1) t s
        | .inr a => D t a)
    (n : Nat) (ht : S.Clear t) (first : I 0 t s) :
    S.Sound t (Program.attempts sleep body n 0 s) fun t out => match out with
      | .inl s => I n t s
      | .inr a => D t a := by
  have hloop := Program.after_attempts (I := fun attempt t s => S.Clear t ∧ I attempt t s)
    (D := fun t a => S.Clear t ∧ D t a) (E := S.Trouble)
    (fun attempt t s h => meets_sleep (Q := fun t => S.Clear t ∧ I attempt t s)
      ⟨h.1.sleep, rest attempt t s h.2⟩)
    (fun attempt t s h => Program.After.imp (step attempt t s h.1 h.2)
      (fun u out hout => by cases out <;> exact hout) fun _ _ => id)
    n 0 t s ⟨ht, first⟩
  refine Program.After.imp hloop (fun u out hout => ?_) fun _ _ => id
  rw [Nat.zero_add] at hout
  cases out with
  | inl s => exact hout
  | inr a => exact hout

end Operations

section Controller

variable {ctx : ServerCtx} {site : Site} {bootstrap conn : Conn} {version : Int16}
  {correlation : Int32} {topic : String} {replicas : Int16} {validateOnly : Bool}

theorem metadata_sound {asked : Option String} (ht : S.Clear t) :
    S.Sound t (apiCall conn version correlation (.metadata asked)) fun t' _ => Keeps t t' :=
  apiCall_sound ht (.inl ⟨asked, rfl⟩) fun _ =>
    ⟨_, rfl, List.forall_mem_singleton.mpr fun h => by cases h⟩

theorem adminConn_sound (hsite : S.site = site) (ht : S.Clear t) :
    S.Sound t (adminConn ctx site bootstrap correlation) fun t' _ => Keeps t t' := by
  unfold adminConn
  split
  · exact openConn_sound hsite ht
  · refine sound_bind (Q := fun u _ => Keeps t u) ?_ fun u located hu hkeeps =>
      (openConn_sound hsite hu).imp fun v _ => hkeeps.trans
    exact sound_bind (metadata_sound ht) fun u resp hu hkeeps => sound_pure hu hkeeps

theorem createdCode_of_head {resp : CreateTopicsResponse} {result : CreatableTopicResult}
    (h : resp.topics.head? = some result) : createdCode resp = result.errorCode := by
  rw [createdCode, h]
  rfl

/-- An answer that sends the suite elsewhere is not one that a check requires, and
created nothing. -/
theorem elsewhere_wrong {resp : CreateTopicsResponse}
    (h : createdCode resp = .notController) :
    S.check.Wrong ⟨.call ⟨conn, version, correlation,
      .createTopics topic replicas validateOnly⟩, .ok resp⟩ := by
  intro answer hanswer haccepts
  cases hanswer
  obtain ⟨result, hresult, haccepts⟩ := haccepts
  rw [createdCode_of_head hresult] at h
  rw [h] at haccepts
  cases validateOnly with
  | true => exact haccepts rfl
  | false => cases haccepts

theorem elsewhere_created {resp : CreateTopicsResponse}
    (h : createdCode resp = .notController) :
    createdId ⟨.call ⟨conn, version, correlation,
      .createTopics topic replicas validateOnly⟩, .ok resp⟩ = none := by
  cases validateOnly with
  | true => rfl
  | false =>
      rw [createdId, Option.map_eq_none_iff, Option.filter_eq_none_iff]
      intro result hresult
      rw [← createdCode_of_head hresult, h]
      decide

/-- The last of the answers about a topic, from whoever is the controller. -/
def Answered (version : Int16) (topic : String) (replicas : Int16) (validateOnly : Bool)
    (t t' : Trace) (resp : CreateTopicsResponse) : Prop :=
  createdCode resp ≠ .notController ∧ ∃ s conn correlation, Leaves t s ∧
    t' = s ++ [⟨.call ⟨conn, version, correlation,
      .createTopics topic replicas validateOnly⟩, .ok resp⟩]

theorem createAtController_sound (hsite : S.site = site)
    (hasks : S.asks version (.createTopics topic replicas validateOnly)) (ht : S.Clear t) :
    S.Sound t (createAtController ctx site bootstrap version topic replicas
      validateOnly correlation)
      fun t' out => match out with
        | .inl _ => S.check.Unanswered t' ∧ Leaves t t'
        | .inr resp => Answered version topic replicas validateOnly t t' resp := by
  refine sound_bind (adminConn_sound hsite ht) fun u controller hu hkeeps => ?_
  refine sound_bind (Q := fun v resp => v = u ++ [⟨.call ⟨controller, version, correlation,
      .createTopics topic replicas validateOnly⟩, .ok resp⟩])
    (apiCall_sound hu (.inr hasks) fun _ => rfl) fun v resp hv heq => ?_
  split
  case isTrue h =>
    refine sound_pure hv ?_
    rw [heq]
    exact ⟨blamed_last (elsewhere_wrong h), hkeeps.leaves.trans (leaves_snoc (elsewhere_created h))⟩
  case isFalse h =>
    exact sound_pure hv ⟨h, u, controller, correlation, hkeeps.leaves, heq⟩

/-- Creation at the controller goes on with the last answer, whoever gave it. -/
theorem createTopicsAtController_sound (hsite : S.site = site)
    (hasks : S.asks version (.createTopics topic replicas validateOnly)) (ht : S.Clear t) :
    S.Sound t (createTopicsAtController ctx site bootstrap version topic replicas validateOnly
      correlation) (Answered version topic replicas validateOnly t) := by
  refine sound_bind (sound_attempts
    (I := fun attempt u _ => (attempt = 0 ∨ S.check.Unanswered u) ∧ Leaves t u)
    (D := Answered version topic replicas validateOnly t) ?_ ?_ _ ht ⟨.inl rfl, Keeps.refl.leaves⟩)
    fun u out hu hout => ?_
  · intro attempt u last ⟨hfirst, hleaves⟩
    exact ⟨hfirst.imp id keeps_sleep.blamed, hleaves.trans keeps_sleep.leaves⟩
  · intro attempt u last hu ⟨_, hleaves⟩
    refine (createAtController_sound hsite hasks hu).imp fun v out hout => ?_
    cases out with
    | inl last => exact ⟨.inr hout.1, hleaves.trans hout.2⟩
    | inr resp =>
        obtain ⟨hcode, s, conn, correlation, hs, hv⟩ := hout
        exact ⟨hcode, s, conn, correlation, hleaves.trans hs, hv⟩
  · cases out with
    | inr resp => exact sound_pure hu hout
    | inl last =>
        have hpos := settleAttempts_pos ctx.config
        exact sound_violation hu (hout.1.resolve_left (by omega))

end Controller

section Producing

variable {ctx : ServerCtx} {bootstrap conn : Conn} {version : Int16} {correlation : Int32}
  {topic : String}

theorem connectToLeader_sound (hsite : S.site = .needed) (ht : S.Clear t) :
    S.Sound t (connectToLeader ctx bootstrap version topic correlation)
      fun t' _ => Keeps t t' := by
  refine sound_bind (sound_attempts (I := fun _ u _ => Keeps t u) (D := fun u _ => Keeps t u)
    ?_ ?_ _ ht Keeps.refl) fun u out hu hout => ?_
  · exact fun attempt u _ hkeeps => hkeeps.trans keeps_sleep
  · intro attempt u _ hu hkeeps
    refine sound_bind (Q := fun v _ => Keeps u v) ?_ fun v located hv hkeeps' => ?_
    · exact sound_bind (metadata_sound hu) fun v resp hv hkeeps => sound_pure hv hkeeps
    · cases located with
      | none => exact sound_pure hv (hkeeps.trans hkeeps')
      | some addr =>
          exact sound_bind (openConn_sound hsite hv) fun w conn hw hkeeps'' =>
            sound_pure hw ((hkeeps.trans hkeeps').trans hkeeps'')
  · cases out with
    | inr conn => exact sound_pure hu hout
    | inl _ => exact (openConn_sound hsite hu).imp fun v _ => hout.trans

/-- The topic of a flow is the only one created on the way. -/
theorem createForFlow_fair (hsite : S.site = .needed)
    (hcreate : ∀ version topic replicas, S.asks version (.createTopics topic replicas false))
    (ht : S.Clear t) (hnone : Leaves [] t) :
    S.Fair t (createForFlow ctx bootstrap version topic) fun t' id => Creates id t' := by
  refine fair_bind ((createTopicsAtController_sound hsite (hcreate _ _ _) ht).fair_context _)
    fun u resp hu hanswered => ?_
  obtain ⟨_, s, conn, correlation, hs, rfl⟩ := hanswered
  cases hhead : resp.topics.head? with
  | none =>
      refine fair_fail hu (blamed_last fun answer hanswer haccepts => ?_)
      cases hanswer
      obtain ⟨result, hresult, _⟩ := haccepts
      rw [hhead] at hresult
      cases hresult
  | some result =>
      dsimp only
      split
      case isTrue hok =>
        refine fair_pure hu (List.forall_mem_append.mpr ⟨?_, List.forall_mem_singleton.mpr ?_⟩)
        · exact (hnone.trans hs).creates (List.forall_mem_nil _)
        · intro i hi
          rw [createdId, hhead, Option.filter_some, if_pos hok] at hi
          exact (Option.some.inj hi).symm
      case isFalse hok =>
        refine fair_fail hu (blamed_last fun answer hanswer haccepts => hok ?_)
        cases hanswer
        obtain ⟨other, hother, haccepts⟩ := haccepts
        rw [hhead] at hother
        cases hother
        exact haccepts

/-- A Produce answer that a check requires says so itself. -/
theorem produce_wrong {sent : Bytes} {resp : ProduceResponse}
    (h : ∀ partition, producedPartition resp = some partition → partition.errorCode.isOk ≠ true) :
    S.check.Wrong ⟨.call ⟨conn, version, correlation, .produce topic sent⟩, .ok resp⟩ := by
  intro answer hanswer ⟨partition, hpartition, hok⟩
  cases hanswer
  exact h partition hpartition hok

/-- One attempt appends the records, or leaves the check something to wait for. -/
theorem produceAttempt_fair {versions : FlowVersions} {topicId : Uuid} {sent : Bytes}
    {state : Conn × ErrorCode} (hsite : S.site = .needed)
    (hproduce : ∀ version topic sent, S.asks version (.produce topic sent))
    (ht : S.Clear t) (hid : Creates topicId t) :
    S.Fair t (produceAttempt ctx bootstrap versions topic topicId sent state)
      fun t' out => Creates topicId t' ∧ match out with
        | .inl _ => S.check.Unanswered t'
        | .inr produced => produced.topicId = topicId ∧ produced.sent = sent := by
  refine fair_bind ((apiCall_sound (Q := fun u resp => u = t ++ [⟨.call ⟨state.1, versions.produce,
    11, .produce topic sent⟩, .ok resp⟩]) ht (.inr (hproduce _ _ _)) fun _ => rfl).fair_context _)
    fun u resp hu heq => ?_
  have hcreates : Creates topicId u := by
    rw [heq]
    exact (leaves_snoc rfl).creates hid
  have hwrong (h : ∀ partition, producedPartition resp = some partition →
      partition.errorCode.isOk ≠ true) : S.check.Unanswered u := by
    rw [heq]
    exact blamed_last (produce_wrong h)
  cases hpartition : resp.responses.head?.bind List.head? with
  | none =>
      refine fair_fail hu (hwrong fun partition h => ?_)
      rw [producedPartition, hpartition] at h
      cases h
  | some partition =>
      have hwrong (h : partition.errorCode.isOk ≠ true) : S.check.Unanswered u := by
        refine hwrong fun other hother => ?_
        rw [producedPartition, hpartition] at hother
        cases hother
        exact h
      dsimp only
      split
      case isTrue hok => exact fair_pure hu ⟨hcreates, rfl, rfl⟩
      case isFalse hok =>
        split
        · exact fair_fail hu (hwrong hok)
        · refine fair_bind (Q := fun v _ => Keeps u v)
            (Program.after_lift (meets_sleep (Q := fun v => S.Clear v ∧ Keeps u v)
              ⟨hu.sleep, keeps_sleep⟩)) fun v _ hv hkeeps => ?_
          refine fair_bind ((connectToLeader_sound hsite hv).fair_context _)
            fun w conn hw hkeeps' => ?_
          have hkept := hkeeps.trans hkeeps'
          exact fair_pure hw ⟨hkept.leaves.creates hcreates, hkept.blamed (hwrong hok)⟩

/-- The loop ends with the records appended, or with a fair verdict. -/
theorem produceSet_fair {versions : FlowVersions} {topicId : Uuid} {sent : Bytes}
    (hsite : S.site = .needed)
    (hproduce : ∀ version topic sent, S.asks version (.produce topic sent))
    (ht : S.Clear t) (hid : Creates topicId t) :
    S.Fair t (produceSet ctx bootstrap versions topic topicId sent)
      fun t' produced => Creates produced.topicId t' ∧ produced.sent = sent := by
  refine fair_bind ((connectToLeader_sound hsite ht).fair_context _) fun u conn hu hkeeps => ?_
  refine Program.after_bind (Program.after_attempts
    (I := fun attempt v _ => S.Clear v ∧ (attempt = 0 ∨ S.check.Unanswered v) ∧ Creates topicId v)
    (D := fun v produced => S.Clear v ∧ Creates produced.topicId v ∧ produced.sent = sent)
    ?_ ?_ _ 0 u _ ⟨hu, .inl rfl, hkeeps.leaves.creates hid⟩) fun v out hout => ?_
  · intro attempt v _ h
    refine Program.meets_done ?_
    rw [List.append_nil]
    exact h
  · intro attempt v state ⟨hv, _, hcreates⟩
    refine Program.After.imp (produceAttempt_fair hsite hproduce hv hcreates)
      (fun w out ⟨hw, hcreates, hout⟩ => ?_) fun _ _ => id
    cases out with
    | inl state => exact ⟨hw, .inr hout, hcreates⟩
    | inr produced =>
        obtain ⟨hid, hsent⟩ := hout
        exact ⟨hw, hid.symm ▸ hcreates, hsent⟩
  · cases out with
    | inr produced => exact fair_pure hout.1 hout.2
    | inl state =>
        have hpos := settleAttempts_pos ctx.config
        exact fair_fail hout.1 (hout.2.1.resolve_left (by omega))

/-- Nothing but the topic it returns is created, and what it sent is the probe batch. -/
theorem produceFlow_fair {tag : String} (hsite : S.site = .needed)
    (hcreate : ∀ version topic replicas, S.asks version (.createTopics topic replicas false))
    (hproduce : ∀ version topic sent, S.asks version (.produce topic sent)) :
    S.Fair [] (produceFlow ctx tag)
      fun t produced => Creates produced.topicId t ∧ (probeBatch ctx).encode =
        .ok produced.sent := by
  refine fair_bind (Q := fun u _ => Leaves [] u)
    (fair_unjudged clear_nil (unjudges_flowVersions ctx) fun _ _ => Keeps.refl.leaves)
    fun u versions hu hnone => ?_
  refine fair_bind (openConn_sound hsite hu).fair fun v bootstrap hv hkeeps => ?_
  refine fair_bind (Q := fun w _ => Leaves [] w)
    (Program.after_lift ((uniqueTopic_meets ctx tag).imp fun x topic ⟨nanos, hx⟩ => ?_))
    fun w topic hw hnone => ?_
  · rw [hx]
    exact ⟨hv.snoc trivial id, (hnone.trans hkeeps.leaves).trans (leaves_snoc rfl)⟩
  refine fair_bind (createForFlow_fair hsite hcreate hw hnone) fun x topicId hx hid => ?_
  refine fair_bind (Q := fun y sent => Creates topicId y ∧ (probeBatch ctx).encode = .ok sent)
    (fair_given hx (fun sent hsent => ⟨hid, ?_⟩) fun verdict h => ?_) fun y sent hy hsent => ?_
  · cases hencode : (probeBatch ctx).encode with
    | ok bytes =>
        rw [hencode] at hsent
        cases hsent
        rfl
    | error e =>
        rw [hencode] at hsent
        cases hsent
  · cases hencode : (probeBatch ctx).encode with
    | ok bytes =>
        rw [hencode] at h
        cases h
    | error e =>
        rw [hencode] at h
        cases h
        exact hx.within
  · refine Program.After.imp (produceSet_fair hsite hproduce hy hsent.1)
      (fun z produced h => ⟨h.1, h.2.1, ?_⟩) fun _ _ => id
    rw [h.2.2]
    exact hsent.2

end Producing

section Coordinating

variable {ctx : ServerCtx} {conn : Conn} {version : Int16} {correlation : Int32}
  {group topic : String}

theorem coordinatorConn_sound (hsite : S.site = .needed)
    (hasks : ∀ version, S.asks version (.findCoordinator group)) (ht : S.Clear t) :
    S.Sound t (coordinatorConn ctx group) fun _ _ => True := by
  refine sound_bind (Q := fun _ _ => True) ?_ fun u addr hu _ =>
    (openConn_sound hsite hu).imp fun _ _ _ => trivial
  unfold awaitCoordinator awaitCoordinatorAt
  split
  · exact sound_pure ht trivial
  · refine sound_bind (openConn_sound hsite ht) fun u conn hu _ => ?_
    refine sound_bind (sound_attempts (I := fun _ _ _ => True) (D := fun _ _ => True)
      (fun _ _ _ _ => trivial) ?_ _ hu trivial) fun v out hv _ => ?_
    · intro attempt v _ hv _
      refine sound_bind (Q := fun _ _ => True) (apiCall_sound hv (.inr (hasks _)) fun _ => trivial)
        fun w resp hw _ => sound_pure hw ?_
      split <;> exact trivial
    · cases out with
      | inl _ => exact sound_pure hv trivial
      | inr endpoint => exact sound_pure hv trivial

theorem awaitTopicKnown_sound (ht : S.Clear t) :
    S.Sound t (awaitTopicKnown ctx conn topic correlation) fun _ _ => True := by
  unfold awaitTopicKnown
  split
  · exact sound_pure ht trivial
  · refine sound_bind (sound_attempts (I := fun _ _ _ => True) (D := fun _ _ => True)
      (fun _ _ _ _ => trivial) ?_ _ ht trivial) fun u out hu _ => sound_pure hu trivial
    intro attempt u _ hu _
    refine sound_bind (metadata_sound hu) fun v resp hv _ => sound_pure hv ?_
    split <;> exact trivial

theorem commitOffset_sound {topicId : Uuid} {offset : Int64}
    (hasks : S.asks version (.offsetCommit group topic topicId offset)) (ht : S.Clear t) :
    S.Sound t (commitOffset conn version group topic topicId offset correlation)
      fun _ _ => True := by
  refine sound_bind (Q := fun u resp => u = t ++ [⟨.call ⟨conn, version, correlation,
      .offsetCommit group topic topicId offset⟩, .ok resp⟩])
    (apiCall_sound ht (.inr hasks) fun _ => rfl) fun u resp hu heq => ?_
  have hwrong (h : ∀ code, committedCode resp version topic topicId = some code →
      code.isOk ≠ true) : S.check.Unanswered u := by
    rw [heq]
    refine blamed_last fun answer hanswer ⟨code, hcode, hok⟩ => ?_
    cases hanswer
    exact h code hcode hok
  cases hcode : committedCode resp version topic topicId with
  | none =>
      refine sound_violation hu (hwrong fun code h => ?_)
      rw [hcode] at h
      cases h
  | some code =>
      dsimp only
      split
      case isTrue => exact sound_pure hu trivial
      case isFalse hok =>
        refine sound_violation hu (hwrong fun other h => ?_)
        rw [hcode] at h
        cases h
        exact hok

/-- One attempt commits, or ends with a violation that was seen. -/
theorem commitAttempt_sound {produced : ProducedTopic} {offset : Int64}
    (hsite : S.site = .needed) (hfind : ∀ version, S.asks version (.findCoordinator group))
    (hcommit : S.asks version (.offsetCommit group produced.topic produced.topicId offset))
    (ht : S.Clear t) :
    S.Sound t (commitAttempt ctx group produced offset version correlation)
      fun t' out => match out with
        | .inl e => (∃ details, e = .violation details) ∧ S.check.Unanswered t'
        | .inr _ => True := by
  refine sound_bind (coordinatorConn_sound hsite hfind ht) fun u conn hu _ => ?_
  refine sound_bind (awaitTopicKnown_sound hu) fun v _ hv _ => ?_
  refine Program.after_bind (Program.after_caught (commitOffset_sound hcommit hv))
    fun w committed hcommitted => ?_
  cases committed with
  | ok _ => exact sound_pure hcommitted.1 trivial
  | error e =>
      cases e with
      | infra details => exact Program.after_throw hcommitted
      | violation details =>
          dsimp only
          split
          · exact sound_pure hcommitted.1 ⟨⟨details, rfl⟩, hcommitted.2⟩
          · exact Program.after_throw hcommitted

theorem commitOffsetSettled_sound {produced : ProducedTopic} {offset : Int64}
    (hsite : S.site = .needed) (hfind : ∀ version, S.asks version (.findCoordinator group))
    (hcommit : S.asks version (.offsetCommit group produced.topic produced.topicId offset))
    (ht : S.Clear t) :
    S.Sound t (commitOffsetSettled ctx group produced offset version correlation)
      fun _ _ => True := by
  refine sound_bind (sound_attempts (I := fun attempt u last => attempt = 0 ∨
      (∃ details, last = .violation details) ∧ S.check.Unanswered u) (D := fun _ _ => True)
    ?_ ?_ _ ht (.inl rfl)) fun u out hu hout => ?_
  · exact fun attempt u last h => h.imp id fun h => ⟨h.1, keeps_sleep.blamed h.2⟩
  · intro attempt u last hu _
    refine (commitAttempt_sound hsite hfind hcommit hu).imp fun v out hout => ?_
    cases out with
    | inl e => exact .inr hout
    | inr conn => exact trivial
  · cases out with
    | inr conn => exact sound_pure hu trivial
    | inl last =>
        have hpos := settleAttempts_pos ctx.config
        obtain ⟨⟨details, rfl⟩, hunanswered⟩ := hout.resolve_left (by omega)
        exact sound_violation hu hunanswered

end Coordinating

end Scope

end Odradek.Acceptance.Server
