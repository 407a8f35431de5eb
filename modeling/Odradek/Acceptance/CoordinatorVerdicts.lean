import Odradek.Acceptance.SweepVerdicts

/-!
The verdict of the sweep over FindCoordinator, which keeps nothing of a version but
its failure: a version that could not be asked counts as one that passed. So its
verdicts are earned where nothing got in the way, or something was refuted besides.
-/

namespace Odradek.Acceptance.Server

open Library Odradek.Protocol Odradek.Client

def Hampers (e : Event) : Prop := (∃ site, Unopens site e) ∨ Broken e

def Hampered (t : Trace) : Prop := ∃ e ∈ t, Hampers e

/-- Something was answered, and wrongly. -/
def SweepCheck.Refuted (check : SweepCheck) (t : Trace) : Prop :=
  Blamed (fun e => check.Wrong e ∧ ¬ Broken e) t

section Refuting

variable {W W' : Event → Prop} {t u : Trace} {f : Event}

theorem Blamed.imp (h : Blamed W t) (weaken : ∀ e, W e → W' e) : Blamed W' t := by
  induction t with
  | nil => exact h
  | cons e t ih => exact Or.imp (And.imp_left (weaken e)) ih h

theorem hampered_append : Hampered (t ++ u) ↔ Hampered t ∨ Hampered u := by
  simp only [Hampered, List.mem_append, or_and_right, exists_or]

/-- Where all before is asked again, the last answer is what counts. -/
theorem blamed_snoc_iff (again : ∀ e ∈ t, W e → Deferred e ∧ e.1.Repeats f.1) :
    Blamed W (t ++ [f]) ↔ W f := by
  induction t with
  | nil => exact ⟨fun h => (h.resolve_right id).1, fun h => blamed_last (t := []) h⟩
  | cons e t ih =>
      have ih := ih fun e hmem => again e (List.mem_cons_of_mem _ hmem)
      refine ⟨fun h => ?_, fun h => .inr (ih.mpr h)⟩
      obtain ⟨hW, hlast⟩ | h := h
      · obtain ⟨hdeferred, hrepeats⟩ := again e List.mem_cons_self hW
        exact absurd hrepeats
          (hlast hdeferred f (List.mem_append_right _ List.mem_cons_self))
      · exact ih.mp h

theorem not_blamed (h : ∀ e ∈ t, ¬ W e) : ¬ Blamed W t := by
  induction t with
  | nil => exact id
  | cons e t ih =>
      intro hblamed
      obtain hW | hblamed := hblamed
      · exact h e List.mem_cons_self hW.1
      · exact ih (fun e hmem => h e (List.mem_cons_of_mem _ hmem)) hblamed

end Refuting

section Answers

variable {version : Int16} {group : String} {resp : FindCoordinatorResponse}

/-- A verdict that says whether something holds. -/
def Decides (verdict : Verdict) (holds : Prop) : Prop :=
  (verdict = .pass ∧ holds) ∨ (∃ details, verdict = .fail details) ∧ ¬ holds

theorem judgeEndpoint_decides (group : String) (code : ErrorCode) (key : Option String)
    (host : String) (port : Int32) :
    Decides (judgeEndpoint group code key host port)
      (code.isOk = true ∧ (∀ k, key = some k → k = group) ∧ plausibleAddress host port = true) := by
  unfold judgeEndpoint
  split
  case isTrue hok => exact .inr ⟨⟨_, rfl⟩, fun h => by rw [h.1] at hok; cases hok⟩
  case isFalse hok =>
    split
    case isTrue hkey =>
      obtain ⟨k, hk, hne⟩ := (Option.any_eq_true _ _).mp hkey
      exact .inr ⟨⟨_, rfl⟩, fun h => (bne_iff_ne.mp hne) (h.2.1 k hk)⟩
    case isFalse hkey =>
      split
      case isTrue hplausible =>
        exact .inr ⟨⟨_, rfl⟩, fun h => by rw [h.2.2] at hplausible; cases hplausible⟩
      case isFalse hplausible =>
        refine .inl ⟨rfl, ?_, fun k hk => ?_, ?_⟩
        · simpa only [Bool.not_eq_true', Bool.not_eq_false] using hok
        · refine Decidable.byContradiction fun hne => hkey ?_
          exact (Option.any_eq_true _ _).mpr ⟨k, hk, bne_iff_ne.mpr hne⟩
        · simpa only [Bool.not_eq_true', Bool.not_eq_false] using hplausible

theorem Decides.congr {verdict : Verdict} {P P' : Prop} (h : Decides verdict P) (hP : P ↔ P') :
    Decides verdict P' := h.imp (And.imp_right hP.mp) (And.imp_right (mt hP.mpr))

/-- Both shapes of the answer are judged by the same three facts. -/
theorem judgeCoordinator_decides (version : Int16) (group : String)
    (resp : FindCoordinatorResponse) :
    Decides (judgeCoordinator version group resp) (Coordinates version group resp) := by
  unfold judgeCoordinator Coordinates
  split
  · split
    case h_1 c hc =>
      refine (judgeEndpoint_decides _ _ _ _ _).congr ?_
      rw [hc]
      constructor
      · exact fun ⟨hok, hkey, hplausible⟩ => ⟨c, rfl, hok, hkey c.key rfl, hplausible⟩
      · intro ⟨c', hc', hok, hkey, hplausible⟩
        cases hc'
        exact ⟨hok, fun k hk => Option.some.inj hk ▸ hkey, hplausible⟩
    case h_2 hnot => exact .inr ⟨⟨_, rfl⟩, fun ⟨c, hc, _⟩ => hnot c hc⟩
  · exact (judgeEndpoint_decides _ _ _ _ _).congr
      ⟨fun ⟨hok, _, hplausible⟩ => ⟨hok, hplausible⟩,
        fun ⟨hok, hplausible⟩ => ⟨hok, nofun, hplausible⟩⟩

theorem Coordinates.isOk (h : Coordinates version group resp) :
    (coordinatorError resp version).isOk = true := by
  unfold Coordinates at h
  unfold coordinatorError
  split at h
  case isTrue hbatched =>
    obtain ⟨c, hc, hok, _⟩ := h
    rw [if_pos hbatched, hc]
    exact hok
  case isFalse hbatched =>
    rw [if_neg hbatched]
    exact h.1

theorem settling_not_ok {code : ErrorCode} (h : isCoordinatorSettling code = true) :
    code.isOk ≠ true := by
  unfold isCoordinatorSettling at h
  rw [Bool.or_eq_true, beq_iff_eq, beq_iff_eq] at h
  obtain rfl | rfl := h
  · decide
  · decide

end Answers

section OneVersion

variable {ctx : ServerCtx} {conn : Conn} {version : Int16} {correlation : Int32} {group : String}
  {t u : Trace}

def asked (version : Int16) (group : String) (conn : Conn) (correlation : Int32)
    (r : Except CheckError FindCoordinatorResponse) : Event :=
  ⟨.call ⟨conn, version, correlation, .findCoordinator group⟩, r⟩

/-- The coordinator is not known yet, and nothing else is amiss. -/
def Unsettled (version : Int16) (group : String) (e : Event) : Prop :=
  ((∀ c, e.1 ≠ .call c) ∧ ¬ SweepCheck.findCoordinator.Wrong e ∧ ¬ Hampers e) ∨
    ∃ conn correlation resp, e = asked version group conn correlation (.ok resp) ∧
      isCoordinatorSettling (coordinatorError resp version) = true

def Settling (version : Int16) (group : String) (t : Trace) : Prop :=
  ∀ e ∈ t, Unsettled version group e

/-- Nothing else is asked, and at no other version. -/
def AsksAt (version : Int16) (t : Trace) : Prop :=
  ∀ e ∈ t, ∀ c, e.1 = .call c → c.version = version

def Covers (version : Int16) (t : Trace) : Prop :=
  (SweptApi.plain 10 0 6).Covered .findCoordinator version t

/-- What one version's verdict says of its exchanges. -/
def Tells (version : Int16) (t : Trace) : Verdict → Prop
  | .pass => ¬ Hampered t ∧ ¬ SweepCheck.findCoordinator.Refuted t ∧ Covers version t
  | .fail _ => SweepCheck.findCoordinator.Refuted t
  | .error _ => Hampered t ∧ ¬ SweepCheck.findCoordinator.Refuted t ∧ ¬ Covers version t
  | .skipped _ => False

theorem not_hampers_asked (conn : Conn) (correlation : Int32) (resp : FindCoordinatorResponse) :
    ¬ Hampers (asked version group conn correlation (.ok resp)) := by
  intro h
  obtain ⟨_, h⟩ | ⟨_, h⟩ := h
  · exact h
  · cases h

theorem Unsettled.not_hampers {e : Event} (h : Unsettled version group e) : ¬ Hampers e := by
  obtain ⟨_, _, h⟩ | ⟨conn, correlation, resp, rfl, _⟩ := h
  · exact h
  · exact not_hampers_asked conn correlation resp

theorem Unsettled.not_spoken {e : Event} (h : Unsettled version group e) {version' : Int16} :
    ¬ (SweptApi.plain 10 0 6).Spoken .findCoordinator version' e := by
  obtain ⟨hcall, _⟩ | ⟨conn, correlation, resp, rfl, hsettling⟩ := h
  · obtain ⟨op, r⟩ := e
    cases op with
    | call c => exact absurd rfl (hcall c)
    | _ => exact id
  · intro ⟨_, _, _, answer, hanswer, haccepts⟩
    cases hanswer
    exact settling_not_ok hsettling (haccepts rfl).isOk

/-- Behind answers that only put the suite off, the last one decides. -/
theorem Settling.refuted_iff {r : Except CheckError FindCoordinatorResponse}
    (ht : Settling version group t) :
    SweepCheck.findCoordinator.Refuted (t ++ [asked version group conn correlation r]) ↔
      SweepCheck.findCoordinator.Wrong (asked version group conn correlation r) ∧
        ¬ Broken (asked version group conn correlation r) := by
  refine blamed_snoc_iff fun e hmem ⟨hwrong, _⟩ => ?_
  obtain ⟨_, hnot, _⟩ | ⟨conn, correlation, resp, rfl, hsettling⟩ := ht e hmem
  · exact absurd hwrong hnot
  · exact ⟨⟨resp, rfl, hsettling⟩, rfl, rfl⟩

theorem Settling.snoc {e : Event} (ht : Settling version group t)
    (he : Unsettled version group e) : Settling version group (t ++ [e]) :=
  List.forall_mem_append.mpr ⟨ht, List.forall_mem_singleton.mpr he⟩

theorem Settling.not_hampered (ht : Settling version group t) : ¬ Hampered t :=
  fun ⟨e, hmem, h⟩ => (ht e hmem).not_hampers h

theorem Settling.not_covers (ht : Settling version group t) : ¬ Covers version t :=
  fun ⟨e, hmem, h⟩ => (ht e hmem).not_spoken h

theorem Settling.asksAt (ht : Settling version group t) : AsksAt version t := by
  intro e hmem c hc
  obtain ⟨hnot, _⟩ | ⟨conn, correlation, resp, rfl, _⟩ := ht e hmem
  · exact absurd hc (hnot c)
  · cases hc
    rfl

theorem unsettled_connect {site : Site} {addr : String} :
    Unsettled version group ⟨.connect site addr, .ok ()⟩ := by
  refine .inl ⟨nofun, id, fun h => ?_⟩
  obtain ⟨_, _, _, h⟩ | h := h
  · cases h
  · exact h

theorem unsettled_authenticate {site : Site} {conn : Conn} :
    Unsettled version group ⟨.authenticate site conn, .ok ()⟩ := by
  refine .inl ⟨nofun, fun ⟨_, h⟩ => ?_, fun h => ?_⟩
  · cases h
  · obtain ⟨_, _, _, h⟩ | h := h
    · cases h
    · exact h

theorem unsettled_sleep : Unsettled version group ⟨.sleep, ()⟩ :=
  .inl ⟨nofun, id, fun h => h.elim (fun ⟨_, h⟩ => h) id⟩

theorem Opening.settling {site : Site} {addr : String} {conn : Conn}
    (h : Opening site addr t (.ok conn)) : Settling version group t := by
  cases h with
  | connected => exact List.forall_mem_singleton.mpr unsettled_connect
  | authenticated =>
      exact List.forall_mem_cons.mpr
        ⟨unsettled_connect, List.forall_mem_singleton.mpr unsettled_authenticate⟩

/-- Where the connection does not open, nothing is asked. -/
theorem Opening.tells {site : Site} {addr : String} {e : CheckError}
    (h : Opening site addr t (.error e)) :
    Tells version t e.intoVerdict ∧ AsksAt version t := by
  cases h with
  | @refused reason _ =>
      refine ⟨⟨⟨_, List.mem_cons_self, .inl ⟨site, rfl, reason, rfl⟩⟩, not_blamed ?_, ?_⟩, ?_⟩
      · exact List.forall_mem_singleton.mpr And.left
      · intro ⟨e, hmem, h⟩
        rw [List.mem_singleton.mp hmem] at h
        exact h
      · exact List.forall_mem_singleton.mpr nofun
  | @rejected conn _ =>
      have hasks : AsksAt version
          [⟨.connect site addr, .ok ()⟩, ⟨.authenticate site conn, .error e⟩] :=
        List.forall_mem_cons.mpr ⟨nofun, List.forall_mem_singleton.mpr nofun⟩
      cases e with
      | violation details =>
          have hrefuted : SweepCheck.findCoordinator.Refuted
              ([⟨.connect site addr, .ok ()⟩] ++
                [⟨.authenticate site conn, .error (.violation details)⟩]) :=
            blamed_last ⟨⟨details, rfl⟩, id⟩
          exact ⟨hrefuted, hasks⟩
      | infra details =>
          refine ⟨⟨⟨_, List.mem_cons_of_mem _ List.mem_cons_self, .inl ⟨site, rfl, details, rfl⟩⟩,
            not_blamed ?_, ?_⟩, hasks⟩
          · refine List.forall_mem_cons.mpr ⟨And.left, List.forall_mem_singleton.mpr ?_⟩
            exact fun ⟨⟨_, h⟩, _⟩ => by cases h
          · intro ⟨e, hmem, h⟩
            obtain rfl | hmem := List.mem_cons.mp hmem
            · exact h
            · rw [List.mem_singleton.mp hmem] at h
              exact h

/-- The loop ends with an answer that is not put off. -/
def Settled (version : Int16) (group : String) (t : Trace) (resp : FindCoordinatorResponse) :
    Prop :=
  ∃ s conn correlation, Settling version group s ∧
    t = s ++ [asked version group conn correlation (.ok resp)]

theorem AsksAt.snoc {r : Except CheckError FindCoordinatorResponse} (ht : AsksAt version t) :
    AsksAt version (t ++ [asked version group conn correlation r]) :=
  List.forall_mem_append.mpr ⟨ht, List.forall_mem_singleton.mpr fun c hc => by cases hc; rfl⟩

/-- One attempt settles the coordinator, puts it off, or ends with what it saw. -/
theorem askForGroup_after {attempt : Nat} (ht : Settling version group t) :
    Program.After t (askForGroup conn version group correlation attempt)
      (fun t' out => match out with
        | .inl _ => Settling version group t' ∧ SweepCheck.findCoordinator.Refuted t'
        | .inr resp => Settled version group t' resp)
      fun t' e => Tells version t' e.intoVerdict ∧ AsksAt version t' := by
  refine Program.after_bind (Program.After.imp apiCall_after (fun _ _ => id) fun u e hu => ?_)
    fun u resp hu => ?_
  · rw [hu]
    refine ⟨?_, ht.asksAt.snoc⟩
    cases e with
    | violation details => exact ht.refuted_iff.mpr ⟨nofun, fun ⟨_, h⟩ => by cases h⟩
    | infra details =>
        refine ⟨⟨_, List.mem_append_right _ List.mem_cons_self, .inr ⟨details, rfl⟩⟩,
          fun h => (ht.refuted_iff.mp h).2 ⟨details, rfl⟩, fun ⟨e, hmem, h⟩ => ?_⟩
        obtain hmem | hmem := List.mem_append.mp hmem
        · exact (ht e hmem).not_spoken h
        · rw [List.mem_singleton.mp hmem] at h
          obtain ⟨_, _, _, _, h, _⟩ := h
          cases h
  · rw [hu]
    refine Program.after_pure ?_
    by_cases hsettling : isCoordinatorSettling (coordinatorError resp version) = true
    · rw [if_pos hsettling]
      have hlast : Unsettled version group
          (asked version group conn (correlation + attemptId attempt) (.ok resp)) :=
        .inr ⟨_, _, _, rfl, hsettling⟩
      refine ⟨ht.snoc hlast, ht.refuted_iff.mpr ⟨fun answer hanswer haccepts => ?_, ?_⟩⟩
      · cases hanswer
        exact settling_not_ok hsettling (haccepts rfl).isOk
      · exact fun ⟨_, h⟩ => by cases h
    · rw [if_neg hsettling]
      exact ⟨t, _, _, ht, rfl⟩

/-- The answer that counts, judged. -/
theorem Settled.tells {resp : FindCoordinatorResponse} (h : Settled version group t resp) :
    Tells version t (judgeCoordinator version group resp) ∧ AsksAt version t := by
  obtain ⟨s, conn, correlation, hs, rfl⟩ := h
  refine ⟨?_, hs.asksAt.snoc⟩
  obtain ⟨hpass, hholds⟩ | ⟨⟨details, hfail⟩, hnot⟩ := judgeCoordinator_decides version group resp
  · rw [hpass]
    refine ⟨fun h => ?_, fun h => (hs.refuted_iff.mp h).1 resp rfl fun _ => hholds, ?_⟩
    · obtain h | ⟨e, hmem, h⟩ := hampered_append.mp h
      · exact hs.not_hampered h
      · rw [List.mem_singleton.mp hmem] at h
        exact not_hampers_asked conn correlation resp h
    · exact ⟨_, List.mem_append_right _ List.mem_cons_self, rfl, rfl, trivial, resp, rfl,
        fun _ => hholds⟩
  · rw [hfail]
    refine hs.refuted_iff.mpr ⟨fun answer hanswer haccepts => ?_, fun ⟨_, h⟩ => by cases h⟩
    cases hanswer
    exact hnot (haccepts rfl)

theorem findCoordinatorAt_meets (ctx : ServerCtx) (version : Int16) (group : String)
    (correlation : Int32) :
    (findCoordinatorAt ctx version group correlation).Meets fun t verdict =>
      Tells version t verdict ∧ AsksAt version t := by
  refine judge_meets ?_
  refine Program.after_bind (Program.after_mapError (openConn_after _ _ _) fun _ _ => Opening.tells)
    fun t conn ht => ?_
  refine Program.after_bind (Program.after_mapError (Program.after_attempts
    (I := fun attempt u _ => Settling version group u ∧
      (attempt = 0 ∨ SweepCheck.findCoordinator.Refuted u))
    (D := Settled version group) ?_ ?_ _ 0 t _ ⟨ht.settling, .inl rfl⟩) fun _ _ => id)
    fun u out hout => ?_
  · intro attempt u _ ⟨hu, hrefuted⟩
    exact meets_sleep (Q := fun u => Settling version group u ∧
      (attempt = 0 ∨ SweepCheck.findCoordinator.Refuted u))
      ⟨hu.snoc unsettled_sleep, hrefuted.imp id keeps_sleep.blamed⟩
  · intro attempt u _ ⟨hu, _⟩
    refine Program.After.imp (askForGroup_after hu) (fun v out hout => ?_) fun _ _ => id
    cases out with
    | inl last => exact ⟨hout.1, .inr hout.2⟩
    | inr resp => exact hout
  · cases out with
    | inl last =>
        have hpos := settleAttempts_pos ctx.config
        exact Program.after_throw ⟨hout.2.resolve_left (by omega), hout.1.asksAt⟩
    | inr resp => exact Program.after_pure hout.tells

end OneVersion

section Sweep

variable {ctx : ServerCtx} {version : Int16} {group : String} {past : List Int16} {t u : Trace}

/-- What the sweep leaves behind as long as no version failed. -/
structure Unrefuted (past : List Int16) (t : Trace) : Prop where
  asks : ∀ e ∈ t, ∀ c, e.1 = .call c → c.version ∈ past
  refuted : ¬ SweepCheck.findCoordinator.Refuted t
  hampered : Hampered t → ∃ version ∈ past, ¬ Covers version t
  covered : ¬ Hampered t → ∀ version ∈ past, Covers version t

theorem covers_append : Covers version (t ++ u) ↔ Covers version t ∨ Covers version u := by
  simp only [Covers, SweptApi.Covered, List.mem_append, or_and_right, exists_or]

/-- No version is covered by what was asked at others. -/
theorem not_covers (h : ∀ e ∈ t, ∀ c, e.1 = .call c → c.version ≠ version) :
    ¬ Covers version t := by
  intro ⟨⟨op, r⟩, hmem, hspoken⟩
  cases op with
  | call c => exact h _ hmem c rfl hspoken.1
  | _ => exact hspoken

theorem unrefuted_nil : Unrefuted [] [] where
  asks := List.forall_mem_nil _
  refuted := id
  hampered := fun ⟨_, hmem, _⟩ => absurd hmem List.not_mem_nil
  covered := fun _ => List.forall_mem_nil _

/-- A version that was not refuted joins the ones before it. -/
theorem Unrefuted.snoc (h : Unrefuted past t) (hfresh : version ∉ past) (hasks : AsksAt version u)
    (hrefuted : ¬ SweepCheck.findCoordinator.Refuted u)
    (hhampered : Hampered u → ¬ Covers version u) (hcovered : ¬ Hampered u → Covers version u) :
    Unrefuted (past ++ [version]) (t ++ u) where
  asks := List.forall_mem_append.mpr
    ⟨fun e hmem c hc => List.mem_append_left _ (h.asks e hmem c hc),
      fun e hmem c hc => List.mem_append_right _ (List.mem_singleton.mpr (hasks e hmem c hc))⟩
  refuted := fun hblamed => hblamed.split.elim h.refuted hrefuted
  hampered := by
    intro hhamper
    obtain hhamper | hhamper := hampered_append.mp hhamper
    · obtain ⟨version', hmem, hnot⟩ := h.hampered hhamper
      refine ⟨version', List.mem_append_left _ hmem, fun hcovers => ?_⟩
      refine (covers_append.mp hcovers).elim hnot (not_covers fun e he c hc heq => hfresh ?_)
      rw [← hasks e he c hc, heq]
      exact hmem
    · refine ⟨version, List.mem_append_right _ List.mem_cons_self, fun hcovers => ?_⟩
      refine (covers_append.mp hcovers).elim (not_covers fun e he c hc heq => hfresh ?_)
        (hhampered hhamper)
      rw [← heq]
      exact h.asks e he c hc
  covered := by
    intro hnot
    rw [hampered_append, not_or] at hnot
    exact List.forall_mem_append.mpr
      ⟨fun v hmem => covers_append.mpr (.inl (h.covered hnot.1 v hmem)),
        List.forall_mem_singleton.mpr (covers_append.mpr (.inr (hcovered hnot.2)))⟩

def Refutes (t : Trace) (verdict : Verdict) : Prop :=
  (∃ details, verdict = .fail details) ∧ SweepCheck.findCoordinator.Refuted t

/-- One version of the sweep, after versions none of which failed. -/
theorem coordinatorAt_after {swept : Int16 × Nat} (ht : Unrefuted past t)
    (hfresh : swept.1 ∉ past) :
    Program.After t (coordinatorAt ctx group swept)
      (fun t' _ => Unrefuted (past ++ [swept.1]) t') Refutes := by
  refine Program.after_bind (Q := fun t' verdict => ∃ u, t' = t ++ u ∧
      Tells swept.1 u verdict ∧ AsksAt swept.1 u)
    (Program.after_lift ((findCoordinatorAt_meets ctx swept.1 group _).imp
      fun u verdict h => ⟨u, rfl, h⟩)) fun t' verdict ⟨u, ht', htells, hasks⟩ => ?_
  rw [ht']
  cases verdict with
  | pass =>
      exact Program.after_pure (ht.snoc hfresh hasks htells.2.1 (fun h => absurd h htells.1)
        fun _ => htells.2.2)
  | fail details => exact Program.after_throw ⟨⟨_, rfl⟩, blamed_append_right htells⟩
  | skipped reason => exact htells.elim
  | error details =>
      exact Program.after_pure (ht.snoc hfresh hasks htells.2.1 (fun _ => htells.2.2)
        fun h => absurd htells.1 h)

/-- The sweep's verdict is earned exactly where nothing hampered it, or something was
refuted besides. -/
theorem findCoordinatorGroup_judges (ctx : ServerCtx) :
    (findCoordinatorGroup ctx).Meets fun t verdict =>
      SweepCheck.findCoordinator.Judges ctx t verdict ↔
        ¬ Hampered t ∨ SweepCheck.findCoordinator.Refuted t := by
  refine judge_meets ?_
  refine Program.after_bind (Q := fun t versions => t = [] ∧
      versionsOf ctx 10 "FindCoordinator" 0 6 = .ok versions)
    (Program.after_given (fun _ h => ⟨rfl, h⟩) fun verdict h => ?_)
    fun t versions ⟨hnil, hversions⟩ => ?_
  · have hended : (whole .findCoordinator).Ended [] verdict :=
      Scope.ended_of_unjudged (unjudges_versionsOf 10 0 6 verdict h) (List.forall_mem_nil _)
    exact iff_of_true hended.judges (.inl fun ⟨_, hmem, _⟩ => by cases hmem)
  rw [hnil]
  refine Program.after_bind (Program.After.imp (Program.after_each
    (I := fun past u _ => Unrefuted (past.map Prod.fst) u) (E := Refutes)
    (fun past swept later heq u _ hu => ?_) unrefuted_nil) (fun _ _ => id)
    fun u verdict hrefutes => ?_) fun u _ hu => Program.after_pure ?_
  · refine Program.After.imp (coordinatorAt_after hu ?_) (fun v _ hv => ?_) fun _ _ => id
    · have hnodup := nodup_versionsOf hversions
      rw [← List.zipIdx_map_fst 0 versions, ← heq, List.map_append, List.map_cons] at hnodup
      exact fun hmem => (List.disjoint_of_nodup_append hnodup) hmem List.mem_cons_self
    · rw [List.map_append]
      exact hv
  · obtain ⟨⟨details, rfl⟩, hrefuted⟩ := hrefutes
    have hunanswered : SweepCheck.findCoordinator.Unanswered u :=
      Blamed.imp hrefuted fun _ => And.left
    exact iff_of_true ⟨fun _ _ => hunanswered, nofun, fun _ h => absurd hunanswered h⟩
      (.inr hrefuted)
  · rw [List.zipIdx_map_fst] at hu
    constructor
    · refine fun hjudges => .inl fun hhampered => ?_
      obtain ⟨version, hmem, hnot⟩ := hu.hampered hhampered
      exact hnot (hjudges.pass rfl _ List.mem_cons_self version
        ((SweptApi.negotiated_iff ctx (.plain 10 0 6) _ version).mpr ⟨versions, hversions, hmem⟩)
        nofun)
    · intro hspared
      have hnot := hspared.resolve_right hu.refuted
      refine ⟨nofun, fun _ api hapi version hnegotiated _ => ?_, fun ⟨site, e, hmem, he⟩ =>
        absurd ⟨e, hmem, .inl ⟨site, he⟩⟩ hnot⟩
      obtain rfl := List.mem_singleton.mp hapi
      obtain ⟨versions', hversions', hmem⟩ :=
        (SweptApi.negotiated_iff ctx _ "FindCoordinator" version).mp hnegotiated
      rw [show versions' = versions from Except.ok.inj (hversions'.symm.trans hversions)] at hmem
      exact hu.covered hnot version hmem

end Sweep

end Odradek.Acceptance.Server
