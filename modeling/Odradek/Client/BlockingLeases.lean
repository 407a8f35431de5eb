import Odradek.Client.ClusterRules
import Odradek.Library.Tally
import Mathlib.Data.List.Induction
import Mathlib.Order.Bounds.Basic

/-!
The blocking pools of `cluster.rs` under every interleaving. One action is one critical
section of `blocking_broker`, of `release`, of the drop of a lease or of
`forget_broker`, or the end of a dial; a call that is cancelled is cancelled while it
dials, the one place where it waits. What else happens to the caches leaves the pools
alone. A connection that is dialed is one nobody has.
-/

namespace Odradek.Client.Cluster

open Library

section Sections

variable (config : ClusterConfig)

/-- The first section of `blocking_broker`. -/
def popIdle (nodeId : Int32) (s : ClusterState) : Option Link × ClusterState :=
  match s.blocking.lookup nodeId with
  | none => (none, s)
  | some pool =>
    match pool.idle.getLast? with
    | none => (none, s)
    | some conn =>
      (some conn,
        { s with blocking := s.blocking.insert nodeId { pool with idle := pool.idle.dropLast } })

/-- The last section of `blocking_broker`. -/
def countOut (nodeId : Int32) (s : ClusterState) : ClusterState :=
  { s with blocking := s.blocking.insert nodeId (checkOut (poolOf s nodeId)) }

def offer (conn : Link) (pool : BlockingPool) : BlockingPool :=
  if pool.idle.length < min pool.peak config.blockingIdleMax then
    { pool with idle := pool.idle ++ [conn] }
  else pool

/-- The section of `release`, ahead of the drop of the lease. -/
def handBack (lease : Lease) (s : ClusterState) : ClusterState :=
  { s with
    blocking := s.blocking.insert lease.nodeId
      (offer config lease.conn (poolOf s lease.nodeId)) }

theorem release_eq (lease : Lease) (s : ClusterState) :
    release config lease s = dropLease lease (handBack config lease s) := rfl

theorem popIdle_eq (nodeId : Int32) (s : ClusterState) :
    popIdle nodeId s = match (poolOf s nodeId).idle.getLast? with
      | none => (none, s)
      | some conn => (some conn, { s with
          blocking := s.blocking.insert nodeId
            { poolOf s nodeId with idle := (poolOf s nodeId).idle.dropLast } }) := by
  unfold popIdle poolOf
  cases s.blocking.lookup nodeId with
  | none => rfl
  | some pool =>
      simp only [Option.getD_some]

/-- With nothing in between, the sections are `blocking_broker`. -/
theorem blockingBroker_eq (net : Network) (nodeId : Int32) (s : ClusterState) :
    blockingBroker net nodeId s =
      match popIdle nodeId s with
      | (some conn, t) => .ok { conn, nodeId } (countOut nodeId t)
      | (none, t) =>
        match t.brokers.lookup nodeId with
        | none => .error (unknownBroker nodeId) t
        | some info =>
          match net.dial info.addr with
          | .ok conn => .ok { conn, nodeId } (countOut nodeId t)
          | .error e => .error e t := by
  rw [popIdle_eq]
  cases hidle : (poolOf s nodeId).idle.getLast? with
  | some conn =>
      simp only [blockingBroker_idle hidle, countOut, poolOf, AList.lookup_insert, Option.getD_some,
        AList.insert_insert]
  | none =>
      unfold blockingBroker
      refine (Routed.bind_ok rfl).trans ?_
      unfold poolOf at hidle
      rw [hidle]
      dsimp only
      cases s.brokers.lookup nodeId with
      | none => rfl
      | some info => cases hdial : net.dial info.addr with
        | ok conn =>
            dsimp only
            exact (Routed.bind_ok (Routed.lift_ok hdial)).trans (by rw [hdial]; rfl)
        | error e =>
            dsimp only
            exact (Routed.bind_error (Routed.lift_error hdial)).trans (by rw [hdial])

end Sections

/-- How far a call of `blocking_broker` is, and with what in hand. -/
inductive Calling
  | lacking (nodeId : Int32)
  | dialing (nodeId : Int32)
  | carrying (nodeId : Int32) (conn : Link)
  | over
  deriving DecidableEq

/-- A lease whose `release` has given the connection back lives on until it is dropped. -/
inductive Stage
  | held
  | returned
  | dropped
  deriving DecidableEq

structure Leased where
  lease : Lease
  stage : Stage

/-- The caches, every call and every lease so far, and the number of dials that came through. -/
structure Leasing where
  state : ClusterState
  calls : List Calling
  leases : List Leased
  dials : Nat

inductive LeaseAction
  | lease (nodeId : Int32)
  | look (call : Nat)
  | dialed (call : Nat) (connected : Bool)
  | cancel (call : Nat)
  | count (call : Nat)
  | handBack (lease : Nat)
  | drop (lease : Nat)
  | forget (nodeId : Int32)
  | elsewhere (state : ClusterState)

namespace Leasing

variable (config : ClusterConfig)

def start (bootstrap : Link) : Leasing where
  state :=
    { control := some bootstrap, brokers := ∅, topics := ∅, conns := ∅, blocking := ∅
      controller := none, coordinators := ∅ }
  calls := []
  leases := []
  dials := 0

def step (w : Leasing) : LeaseAction → Option Leasing
  | .lease nodeId =>
    match popIdle nodeId w.state with
    | (some conn, s) => some { w with state := s, calls := w.calls ++ [.carrying nodeId conn] }
    | (none, s) =>
      if (s.brokers.lookup nodeId).isSome then
        some { w with state := s, calls := w.calls ++ [.lacking nodeId] }
      else some { w with state := s, calls := w.calls ++ [.over] }
  | .look call =>
    match w.calls[call]? with
    | some (.lacking nodeId) =>
      if (w.state.brokers.lookup nodeId).isSome then
        some { w with calls := w.calls.set call (.dialing nodeId) }
      else some { w with calls := w.calls.set call .over }
    | _ => none
  | .dialed call connected =>
    match w.calls[call]? with
    | some (.dialing nodeId) =>
      if connected then
        some { w with
          calls := w.calls.set call (.carrying nodeId { id := w.dials })
          dials := w.dials + 1 }
      else some { w with calls := w.calls.set call .over }
    | _ => none
  | .cancel call =>
    match w.calls[call]? with
    | some (.dialing _) => some { w with calls := w.calls.set call .over }
    | _ => none
  | .count call =>
    match w.calls[call]? with
    | some (.carrying nodeId conn) =>
      some { w with
        state := countOut nodeId w.state
        calls := w.calls.set call .over
        leases := w.leases ++ [{ lease := { conn, nodeId }, stage := .held }] }
    | _ => none
  | .handBack lease =>
    match w.leases[lease]? with
    | some { lease := l, stage := .held } =>
      some { w with
        state := Cluster.handBack config l w.state
        leases := w.leases.set lease { lease := l, stage := .returned } }
    | _ => none
  | .drop lease =>
    match w.leases[lease]? with
    | some { lease := l, stage } =>
      if stage = .dropped then none
      else some { w with
        state := dropLease l w.state
        leases := w.leases.set lease { lease := l, stage := .dropped } }
    | none => none
  | .forget nodeId => some { w with state := w.state.forgetBroker nodeId }
  | .elsewhere s => some { w with state := { s with blocking := w.state.blocking } }

def run : Leasing → List LeaseAction → Option Leasing
  | w, [] => some w
  | w, action :: actions => (w.step config action).bind (run · actions)

/-- The leases of a broker that have not been dropped. -/
def live (w : Leasing) (nodeId : Int32) : Nat :=
  w.leases.countP fun l => l.lease.nodeId == nodeId && l.stage != .dropped

/-- What the outstanding count of a broker has been in a run. -/
def counts (w : Leasing) (actions : List LeaseAction) (nodeId : Int32) : Set Nat :=
  { k | ∃ before w', before <+: actions ∧ run config w before = some w' ∧
    (poolOf w'.state nodeId).outstanding = k }

variable {config} {w w' : Leasing} {actions : List LeaseAction} {action : LeaseAction}

theorem run_concat : run config w (actions ++ [action]) =
    (run config w actions).bind (·.step config action) := by
  induction actions generalizing w with
  | nil =>
      simp only [List.nil_append, run, Option.bind_some]
      exact Option.bind_fun_some _
  | cons first actions ih =>
      simp only [List.cons_append, run, Option.bind_assoc]
      exact congrArg _ (funext fun _ => ih)

theorem counts_concat (nodeId : Int32) (hrun : run config w (actions ++ [action]) = some w') :
    counts config w (actions ++ [action]) nodeId =
      insert (poolOf w'.state nodeId).outstanding (counts config w actions nodeId) := by
  ext k
  constructor
  · rintro ⟨before, v, hbefore, hv, hk⟩
    obtain rfl | hbefore := List.prefix_concat_iff.mp hbefore
    · cases hrun.symm.trans hv
      exact .inl hk.symm
    · exact .inr ⟨before, v, hbefore, hv, hk⟩
  · rintro (rfl | ⟨before, v, hbefore, hv, hk⟩)
    · exact ⟨_, w', List.prefix_rfl, hrun, rfl⟩
    · exact ⟨before, v, hbefore.trans (List.prefix_append _ _), hv, hk⟩

end Leasing

section Pools

variable {s t : ClusterState} {nodeId n : Int32} {pool : BlockingPool}

theorem poolOf_insert (h : t.blocking = s.blocking.insert nodeId pool) :
    poolOf t n = if n = nodeId then pool else poolOf s n := by
  unfold poolOf
  rw [h]
  split
  case isTrue hn => rw [hn, AList.lookup_insert, Option.getD_some]
  case isFalse hn => rw [AList.lookup_insert_ne hn]

/-- How often a connection is idle in some pool. -/
def idleCount (s : ClusterState) (conn : Link) : Nat :=
  totalOf (fun pool => pool.idle.count conn) s.blocking

theorem idleCount_insert (conn : Link) (h : t.blocking = s.blocking.insert nodeId pool) :
    idleCount t conn + (poolOf s nodeId).idle.count conn =
      idleCount s conn + pool.idle.count conn := by
  have hinsert := totalOf_insert (fun pool => pool.idle.count conn) s.blocking nodeId pool
  have hold : ((s.blocking.lookup nodeId).map fun pool => pool.idle.count conn).getD 0 =
      (poolOf s nodeId).idle.count conn := by
    unfold poolOf
    cases s.blocking.lookup nodeId with
    | none => rfl
    | some pool => rfl
  rw [hold, ← h] at hinsert
  exact hinsert

theorem dropLease_eq (lease : Lease) (s : ClusterState) :
    (∃ pool, s.blocking.lookup lease.nodeId = some pool ∧ dropLease lease s =
      { s with
        blocking := s.blocking.insert lease.nodeId
          { pool with outstanding := pool.outstanding - 1 } }) ∨
    s.blocking.lookup lease.nodeId = none ∧ dropLease lease s = s := by
  unfold dropLease
  cases s.blocking.lookup lease.nodeId with
  | none => exact .inr ⟨rfl, rfl⟩
  | some pool => exact .inl ⟨pool, rfl, rfl⟩

end Pools

section Accounts

variable {config : ClusterConfig} {w w' : Leasing} {nodeId : Int32}

namespace Leasing

/-- Whether a call has this connection in hand, counted or not. -/
def carries (conn : Link) : Calling → Bool
  | .carrying _ c => c == conn
  | _ => false

def holds (conn : Link) (l : Leased) : Bool := l.lease.conn == conn && l.stage == .held

/-- In how many places a connection is: idle, carried by a call or held by a lease. -/
def owners (w : Leasing) (conn : Link) : Nat :=
  idleCount w.state conn + w.calls.countP (carries conn) + w.leases.countP (holds conn)

end Leasing

structure Balanced (config : ClusterConfig) (pool : BlockingPool) (live : Nat) : Prop where
  counted : pool.outstanding = live
  bounded : pool.outstanding ≤ pool.peak
  capped : pool.idle.length ≤ min pool.peak config.blockingIdleMax

theorem Balanced.offer {pool : BlockingPool} {live : Nat} (conn : Link)
    (h : Balanced config pool live) : Balanced config (offer config conn pool) live := by
  unfold Cluster.offer
  split
  case isTrue hroom =>
      refine ⟨h.counted, h.bounded, ?_⟩
      rw [List.length_append, List.length_singleton]
      exact hroom
  case isFalse => exact h

theorem peak_offer (conn : Link) (pool : BlockingPool) :
    (offer config conn pool).peak = pool.peak := by
  unfold offer
  split
  · rfl
  · rfl

theorem count_offer (config : ClusterConfig) (conn c : Link) (pool : BlockingPool) :
    (offer config conn pool).idle.count c ≤ pool.idle.count c + if conn = c then 1 else 0 := by
  unfold offer
  split
  · rw [List.count_append, List.count_singleton]
    simp only [beq_iff_eq]
    exact Nat.le_refl _
  · exact Nat.le_add_right _ _

structure Accounts (config : ClusterConfig) (w : Leasing) : Prop where
  pools : ∀ n, Balanced config (poolOf w.state n) (w.live n)
  single : ∀ conn, w.owners conn ≤ 1
  fresh : ∀ conn : Link, w.dials ≤ conn.id → w.owners conn = 0

/-- What a step may do: no connection gets another owner but one that was just dialed, and
a peak rises as far as what it is the peak of. -/
structure Passes (config : ClusterConfig) (w w' : Leasing) : Prop where
  pools : ∀ n, Balanced config (poolOf w'.state n) (w'.live n)
  peaks : ∀ n, (poolOf w'.state n).peak =
    max (poolOf w.state n).peak (poolOf w'.state n).outstanding
  owners : ∀ conn, w'.owners conn ≤ w.owners conn +
    if w.dials = conn.id ∧ w'.dials = w.dials + 1 then 1 else 0
  dials : w.dials ≤ w'.dials

/-- The accounts stay in order over a step that passes. -/
theorem Accounts.passes (h : Accounts config w) (hpasses : Passes config w w') :
    Accounts config w' where
  pools := hpasses.pools
  single := fun conn => by
    have howners := hpasses.owners conn
    split at howners
    next hnew =>
        have hfresh := h.fresh conn (Nat.le_of_eq hnew.1)
        omega
    next => exact Nat.le_trans howners (h.single conn)
  fresh := fun conn hid => by
    have howners := hpasses.owners conn
    have hdials := hpasses.dials
    have hfresh := h.fresh conn (by omega)
    rw [if_neg (by omega)] at howners
    omega

/-- A step that leaves the pools and the leases alone. -/
theorem Passes.of_same (h : Accounts config w) (hblocking : w'.state.blocking = w.state.blocking)
    (hleases : w'.leases = w.leases) (hdials : w.dials ≤ w'.dials)
    (hcalls : ∀ conn, w'.calls.countP (Leasing.carries conn) ≤
      w.calls.countP (Leasing.carries conn) +
        if w.dials = conn.id ∧ w'.dials = w.dials + 1 then 1 else 0) :
    Passes config w w' := by
  have hpool (n : Int32) : poolOf w'.state n = poolOf w.state n := by
    unfold poolOf
    rw [hblocking]
  have hlive (n : Int32) : w'.live n = w.live n := by
    unfold Leasing.live
    rw [hleases]
  refine ⟨fun n => ?_, fun n => ?_, fun conn => ?_, hdials⟩
  · rw [hpool, hlive]
    exact h.pools n
  · rw [hpool, Nat.max_eq_left (h.pools n).bounded]
  · have hconn := hcalls conn
    unfold Leasing.owners idleCount
    rw [hblocking, hleases]
    omega

/-- A step that replaces one pool. -/
theorem Passes.of_insert (h : Accounts config w) {pool : BlockingPool}
    (hblocking : w'.state.blocking = w.state.blocking.insert nodeId pool)
    (hpool : Balanced config pool (w'.live nodeId))
    (hpeak : pool.peak = max (poolOf w.state nodeId).peak pool.outstanding)
    (hlive : ∀ n, n ≠ nodeId → w'.live n = w.live n) (hdials : w'.dials = w.dials)
    (howners : ∀ conn, pool.idle.count conn + w'.calls.countP (Leasing.carries conn) +
        w'.leases.countP (Leasing.holds conn) ≤
      (poolOf w.state nodeId).idle.count conn + w.calls.countP (Leasing.carries conn) +
        w.leases.countP (Leasing.holds conn)) :
    Passes config w w' := by
  refine ⟨fun n => ?_, fun n => ?_, fun conn => ?_, Nat.le_of_eq hdials.symm⟩
  · rw [poolOf_insert hblocking]
    split
    case isTrue hn => exact hn ▸ hpool
    case isFalse hn =>
      rw [hlive n hn]
      exact h.pools n
  · rw [poolOf_insert hblocking]
    split
    case isTrue hn => rw [hn, hpeak]
    case isFalse hn => rw [Nat.max_eq_left (h.pools n).bounded]
  · have hidle := idleCount_insert conn hblocking
    have hconn := howners conn
    unfold Leasing.owners
    omega

/-- How the live leases of a broker change when one lease does. -/
theorem live_set {leases : List Leased} {i : Nat} {l : Leased} (hl : leases[i]? = some l)
    (l' : Leased) (n : Int32) :
    (leases.set i l').countP (fun l => l.lease.nodeId == n && l.stage != .dropped) +
        (if l.lease.nodeId = n ∧ l.stage ≠ .dropped then 1 else 0) =
      leases.countP (fun l => l.lease.nodeId == n && l.stage != .dropped) +
        if l'.lease.nodeId = n ∧ l'.stage ≠ .dropped then 1 else 0 := by
  have hset := countP_set_add (p := fun l => l.lease.nodeId == n && l.stage != .dropped) hl l'
  simpa only [Bool.and_eq_true, beq_iff_eq, bne_iff_ne] using hset

/-- What no longer carries a connection owns none. -/
theorem calls_set_le {calls : List Calling} {i : Nat} {c c' : Calling} (hc : calls[i]? = some c)
    (hfree : ∀ conn, Leasing.carries conn c' = false) (conn : Link) :
    (calls.set i c').countP (Leasing.carries conn) ≤ calls.countP (Leasing.carries conn) := by
  have hset := countP_set_add (p := Leasing.carries conn) hc c'
  rw [hfree] at hset
  simp only [Bool.false_eq_true, if_false] at hset
  omega

theorem lease_passes (h : Accounts config w) (hstep : w.step config (.lease nodeId) = some w') :
    Passes config w w' := by
  simp only [Leasing.step, popIdle_eq] at hstep
  have hpool := h.pools nodeId
  cases hidle : (poolOf w.state nodeId).idle.getLast? with
  | none =>
      rw [hidle] at hstep
      have hadds (c : Calling) (hc : ∀ conn, Leasing.carries conn c = false) :
          Passes config w { w with calls := w.calls ++ [c] } := by
        refine .of_same h rfl rfl (Nat.le_refl _) fun conn => ?_
        rw [countP_concat, hc]
        simp only [Bool.false_eq_true, if_false]
        omega
      dsimp only at hstep
      split at hstep
      · cases hstep
        exact hadds _ fun _ => rfl
      · cases hstep
        exact hadds _ fun _ => rfl
  | some conn =>
      rw [hidle] at hstep
      cases hstep
      have hsplit :
          (poolOf w.state nodeId).idle.dropLast ++ [conn] = (poolOf w.state nodeId).idle :=
        List.dropLast_append_getLast? conn hidle
      refine .of_insert h rfl ⟨hpool.counted, hpool.bounded, ?_⟩ ?_ (fun _ _ => rfl) rfl
        fun c => ?_
      · refine Nat.le_trans ?_ hpool.capped
        rw [List.length_dropLast]
        exact Nat.sub_le _ _
      · exact (Nat.max_eq_left hpool.bounded).symm
      · have hcount := congrArg (List.count c) hsplit
        rw [List.count_append] at hcount
        rw [countP_concat]
        by_cases hc : conn = c
        · simp [Leasing.carries, hc] at hcount ⊢
          omega
        · simp [Leasing.carries, hc] at hcount ⊢
          omega

theorem look_passes {call : Nat} (h : Accounts config w)
    (hstep : w.step config (.look call) = some w') : Passes config w w' := by
  simp only [Leasing.step] at hstep
  split at hstep
  next nodeId hcall =>
      have hsets (c : Calling) (hc : ∀ conn, Leasing.carries conn c = false) :
          Passes config w { w with calls := w.calls.set call c } :=
        .of_same h rfl rfl (Nat.le_refl _) fun conn =>
          Nat.le_trans (calls_set_le hcall hc conn) (Nat.le_add_right _ _)
      split at hstep
      · cases hstep
        exact hsets _ fun _ => rfl
      · cases hstep
        exact hsets _ fun _ => rfl
  next => cases hstep

theorem dialed_passes {call : Nat} {connected : Bool} (h : Accounts config w)
    (hstep : w.step config (.dialed call connected) = some w') : Passes config w w' := by
  simp only [Leasing.step] at hstep
  split at hstep
  next nodeId hcall =>
      cases connected with
      | false =>
          cases hstep
          exact .of_same h rfl rfl (Nat.le_refl _) fun conn =>
            Nat.le_trans (calls_set_le hcall (fun _ => rfl) conn) (Nat.le_add_right _ _)
      | true =>
          cases hstep
          refine .of_same h rfl rfl (Nat.le_succ _) fun conn => ?_
          have hset := countP_set_add (p := Leasing.carries conn) hcall
            (.carrying nodeId { id := w.dials })
          simp only [Leasing.carries, Bool.false_eq_true, if_false, beq_iff_eq] at hset
          have hid : (({ id := w.dials } : Link) = conn) ↔ w.dials = conn.id := by
            cases conn
            simp
          simp only [hid] at hset
          simp only [and_true]
          omega
  next => cases hstep

theorem cancel_passes {call : Nat} (h : Accounts config w)
    (hstep : w.step config (.cancel call) = some w') : Passes config w w' := by
  simp only [Leasing.step] at hstep
  split at hstep
  next nodeId hcall =>
      cases hstep
      exact .of_same h rfl rfl (Nat.le_refl _) fun conn =>
        Nat.le_trans (calls_set_le hcall (fun _ => rfl) conn) (Nat.le_add_right _ _)
  next => cases hstep

theorem count_passes {call : Nat} (h : Accounts config w)
    (hstep : w.step config (.count call) = some w') : Passes config w w' := by
  simp only [Leasing.step] at hstep
  split at hstep
  next nodeId conn hcall =>
      cases hstep
      have hpool := h.pools nodeId
      have hlive (n : Int32) : Leasing.live
          { w with
            state := countOut nodeId w.state
            calls := w.calls.set call .over
            leases := w.leases ++ [{ lease := { conn, nodeId }, stage := .held }] } n =
          w.live n + if n = nodeId then 1 else 0 := by
        unfold Leasing.live
        rw [countP_concat]
        simp [@eq_comm _ n]
      refine .of_insert h rfl ⟨?_, ?_, ?_⟩ rfl (fun n hn => ?_) rfl fun c => ?_
      · rw [hlive, if_pos rfl, ← hpool.counted]
        rfl
      · exact Nat.le_max_right _ _
      · have hcapped := hpool.capped
        dsimp only [checkOut]
        omega
      · rw [hlive, if_neg hn, Nat.add_zero]
      · have hset := countP_set_add (p := Leasing.carries c) hcall .over
        rw [countP_concat]
        by_cases hc : conn = c
        · simp [Leasing.carries, Leasing.holds, checkOut, hc] at hset ⊢
          omega
        · simp [Leasing.carries, Leasing.holds, checkOut, hc] at hset ⊢
          omega
  next => cases hstep

theorem handBack_passes {lease : Nat} (h : Accounts config w)
    (hstep : w.step config (.handBack lease) = some w') : Passes config w w' := by
  simp only [Leasing.step] at hstep
  split at hstep
  next l hlease =>
      cases hstep
      have hpool := h.pools l.nodeId
      have hlive (n : Int32) : Leasing.live
          { w with
            state := handBack config l w.state
            leases := w.leases.set lease { lease := l, stage := .returned } } n = w.live n := by
        have hset := live_set hlease { lease := l, stage := .returned } n
        unfold Leasing.live
        simpa using hset
      have hoffer := hpool.offer l.conn
      refine .of_insert h rfl ?_ ?_ (fun n _ => hlive n) rfl fun c => ?_
      · rw [hlive]
        exact hoffer
      · rw [peak_offer, Nat.max_eq_left]
        exact Nat.le_trans hoffer.bounded (Nat.le_of_eq (peak_offer l.conn _))
      · have hset := countP_set_add (p := Leasing.holds c) hlease
          { lease := l, stage := .returned }
        have hidle := count_offer config l.conn c (poolOf w.state l.nodeId)
        by_cases hc : l.conn = c
        · rw [if_pos hc] at hidle
          simp [Leasing.holds, hc] at hset
          dsimp only
          omega
        · rw [if_neg hc] at hidle
          simp [Leasing.holds, hc] at hset
          dsimp only
          omega
  next => cases hstep

theorem drop_passes {lease : Nat} (h : Accounts config w)
    (hstep : w.step config (.drop lease) = some w') : Passes config w w' := by
  simp only [Leasing.step] at hstep
  split at hstep
  next l stage hlease =>
      split at hstep
      · cases hstep
      next hstage =>
        cases hstep
        have hpool := h.pools l.nodeId
        have hlive (n : Int32) : Leasing.live
            { w with
              state := dropLease l w.state
              leases := w.leases.set lease { lease := l, stage := .dropped } } n +
            (if l.nodeId = n then 1 else 0) = w.live n := by
          have hset := live_set hlease { lease := l, stage := .dropped } n
          unfold Leasing.live
          simpa [hstage] using hset
        have hhere := hlive l.nodeId
        rw [if_pos rfl] at hhere
        have hholds (c : Link) :
            (w.leases.set lease { lease := l, stage := .dropped }).countP (Leasing.holds c) ≤
              w.leases.countP (Leasing.holds c) := by
          have hset := countP_set_add (p := Leasing.holds c) hlease
            { lease := l, stage := .dropped }
          have hfree : Leasing.holds c { lease := l, stage := .dropped } = false := by
            simp [Leasing.holds]
          rw [hfree] at hset
          simp only [Bool.false_eq_true, if_false] at hset
          omega
        obtain ⟨pool, hlookup, hdrop⟩ | ⟨hlookup, _⟩ := dropLease_eq l w.state
        · have hpoolOf : poolOf w.state l.nodeId = pool := by
            unfold poolOf
            rw [hlookup, Option.getD_some]
          rw [hpoolOf] at hpool
          have hcounted := hpool.counted
          have hbounded := hpool.bounded
          refine .of_insert h (congrArg ClusterState.blocking hdrop) ⟨?_, ?_, hpool.capped⟩ ?_
            (fun n hn => ?_) rfl fun c => ?_
          · dsimp only
            omega
          · dsimp only
            omega
          · rw [hpoolOf]
            dsimp only
            omega
          · have hthere := hlive n
            rwa [if_neg fun hl => hn hl.symm] at hthere
          · have hconn := hholds c
            rw [hpoolOf]
            dsimp only
            omega
        · -- A live lease is one that its pool has counted.
          have hcounted := hpool.counted
          unfold poolOf at hcounted
          rw [hlookup] at hcounted
          change 0 = _ at hcounted
          omega
  next => cases hstep

theorem forget_passes (h : Accounts config w)
    (hstep : w.step config (.forget nodeId) = some w') : Passes config w w' := by
  cases hstep
  cases hlookup : w.state.blocking.lookup nodeId with
  | none =>
      refine .of_same h ?_ rfl (Nat.le_refl _) fun _ => Nat.le_add_right _ _
      simp only [ClusterState.forgetBroker, ClusterState.clearIdle, hlookup]
  | some pool =>
      have hpoolOf : poolOf w.state nodeId = pool := by
        unfold poolOf
        rw [hlookup, Option.getD_some]
      have hpool := h.pools nodeId
      rw [hpoolOf] at hpool
      have hblocking : (w.state.forgetBroker nodeId).blocking =
          w.state.blocking.insert nodeId { pool with idle := [] } := by
        simp only [ClusterState.forgetBroker, ClusterState.clearIdle, hlookup]
      refine .of_insert h hblocking ⟨hpool.counted, hpool.bounded, Nat.zero_le _⟩ ?_
        (fun _ _ => rfl) rfl fun c => ?_
      · rw [hpoolOf]
        exact (Nat.max_eq_left hpool.bounded).symm
      · dsimp only
        rw [List.count_nil]
        omega

theorem step_passes (h : Accounts config w) {action : LeaseAction}
    (hstep : w.step config action = some w') : Passes config w w' := by
  cases action with
  | lease nodeId => exact lease_passes h hstep
  | look call => exact look_passes h hstep
  | dialed call connected => exact dialed_passes h hstep
  | cancel call => exact cancel_passes h hstep
  | count call => exact count_passes h hstep
  | handBack lease => exact handBack_passes h hstep
  | drop lease => exact drop_passes h hstep
  | forget nodeId => exact forget_passes h hstep
  | elsewhere state =>
      cases hstep
      exact .of_same h rfl rfl (Nat.le_refl _) fun _ => Nat.le_add_right _ _

theorem start_accounts (bootstrap : Link) : Accounts config (.start bootstrap) where
  pools := fun _ => ⟨rfl, Nat.le_refl _, Nat.zero_le _⟩
  single := fun _ => Nat.zero_le _
  fresh := fun _ _ => rfl

variable {bootstrap : Link} {actions : List LeaseAction}

theorem run_accounts (hrun : Leasing.run config (.start bootstrap) actions = some w) :
    Accounts config w := by
  induction actions using List.reverseRecOn generalizing w with
  | nil =>
      cases hrun
      exact start_accounts bootstrap
  | append_singleton actions action ih =>
      rw [Leasing.run_concat] at hrun
      obtain ⟨v, hv, hstep⟩ := Option.bind_eq_some_iff.mp hrun
      exact (ih hv).passes (step_passes (ih hv) hstep)

/-- The peak is one of the counts there have been, and none is above it. -/
theorem run_peak (hrun : Leasing.run config (.start bootstrap) actions = some w)
    (nodeId : Int32) :
    IsGreatest (Leasing.counts config (.start bootstrap) actions nodeId)
      (poolOf w.state nodeId).peak := by
  induction actions using List.reverseRecOn generalizing w with
  | nil =>
      cases hrun
      refine ⟨⟨[], _, List.prefix_rfl, rfl, rfl⟩, ?_⟩
      rintro k ⟨before, v, hbefore, hv, hk⟩
      rw [List.prefix_nil.mp hbefore] at hv
      cases hv
      exact Nat.le_of_eq hk.symm
  | append_singleton actions action ih =>
      rw [Leasing.counts_concat nodeId hrun]
      rw [Leasing.run_concat] at hrun
      obtain ⟨v, hv, hstep⟩ := Option.bind_eq_some_iff.mp hrun
      have hpasses := step_passes (run_accounts hv) hstep
      rw [hpasses.peaks nodeId, Nat.max_comm]
      exact (ih hv).insert _

/-- In every interleaving the pools are accounted for, and no two leases hold one connection. -/
theorem run_balanced (config : ClusterConfig) (bootstrap : Link) (actions : List LeaseAction)
    (w : Leasing) (hrun : Leasing.run config (.start bootstrap) actions = some w) :
    (∀ nodeId,
      (poolOf w.state nodeId).outstanding = w.live nodeId ∧
      IsGreatest (Leasing.counts config (.start bootstrap) actions nodeId)
        (poolOf w.state nodeId).peak ∧
      (poolOf w.state nodeId).idle.length ≤
        min (poolOf w.state nodeId).peak config.blockingIdleMax) ∧
    ∀ (i j : Nat) (l l' : Leased), w.leases[i]? = some l → w.leases[j]? = some l' →
      l.stage = .held → l'.stage = .held → l.lease.conn = l'.lease.conn → i = j := by
  have haccounts := run_accounts hrun
  constructor
  · intro nodeId
    have hpool := haccounts.pools nodeId
    exact ⟨hpool.counted, run_peak hrun nodeId, hpool.capped⟩
  · intro i j l l' hl hl' hheld hheld' hconn
    have hsingle := haccounts.single l'.lease.conn
    have hone : w.leases.countP (Leasing.holds l'.lease.conn) ≤ 1 :=
      Nat.le_trans (Nat.le_add_left _ _) hsingle
    refine eq_of_countP_le_one hone hl hl' ?_ ?_
    · simp [Leasing.holds, hheld, hconn]
    · simp [Leasing.holds, hheld']

/-- A dial that is cancelled while another call dials, and a connection that is taken again
before the lease that gave it back is dropped. -/
def takenAgain : List LeaseAction :=
  [.elsewhere { (Leasing.start { id := 0 }).state with
      brokers := AList.insert 7 { nodeId := 7, host := "b", port := 9092 } ∅ },
    .lease 7, .look 0, .lease 7, .look 1, .dialed 0 true, .cancel 1, .count 0, .handBack 0,
    .lease 7, .count 2, .drop 0, .forget 7]

theorem run_balanced_takenAgain :
    ∃ w, Leasing.run { bootstrapServers := [], blockingIdleMax := 4 } (.start { id := 0 })
        takenAgain = some w ∧
      (poolOf w.state 7).peak = 2 ∧ w.live 7 = 1 ∧ (poolOf w.state 7).outstanding = w.live 7 := by
  refine ⟨_, rfl, rfl, rfl, ?_⟩
  exact ((run_balanced { bootstrapServers := [], blockingIdleMax := 4 } { id := 0 } takenAgain _
    rfl).1 7).1

end Accounts

end Odradek.Client.Cluster
