import Odradek.Web.HubMethods

/-!
The methods that put pumps into the map and take them out: `acquire`, `respawn`
and `forget`, under the lock.
-/

namespace Odradek.Web

open Library HubWorld

variable {fine : Nat → HubOp → HubChoice → HubWorld → Bool} {i : Nat} {s s₀ t u v w : HubWorld}
  {P : HubEvent → Prop} {X Y : List PumpHandle} {handle stale : PumpHandle} {topic : String}
  {partition : Int}

/-- A pump the hub has handed out for a key. -/
structure Handed (key : PumpKey) (w : HubWorld) (handle : PumpHandle) : Prop where
  key_eq : handle.key = key
  born : w.Born handle
  vetted : w.Vetted key

theorem Handed.grown {key : PumpKey} (h : Handed key s handle) (hgrown : Grown fine s t) :
    Handed key t handle :=
  ⟨h.key_eq, hgrown.did _ h.born, hgrown.vetted h.vetted⟩

section Spawn

/-- A pump started and not yet in the map. -/
structure Spawned (fine : Nat → HubOp → HubChoice → HubWorld → Bool) (i : Nat) (site : Site)
    (key : PumpKey) (hub : Hub) (w : HubWorld) (handle : PumpHandle) : Prop where
  key_eq : handle.key = key
  born : w.Born handle
  mine : .started handle ∈ w.mine i
  stays : ¬ w.Left handle
  room : RoomKept fine → site = .respawn →
    key ∈ hub.pumps ∨ hub.pumps.entries.length < hub.maxPumps
  up : NeverLate fine → hub.shutDown = false

/-- A spawn fails with the hub as it was, or starts a pump. -/
theorem sat_spawnPump {site : Site} {Q : Except HubError PumpHandle → HubWorld → Prop}
    (h : HeldBut fine i P X s₀ s) (hP : ∀ channel, P (.started { topic, partition, channel }))
    (hsite : site = .acquire → s.hub.shutDown = false)
    (kerr : ∀ e t, HeldBut fine i P X s₀ t → HubInv fine t → Grown fine s t → t.hub = s.hub →
      Q (.error e) t)
    (kok : ∀ handle t, HeldBut fine i P (handle :: X) s₀ t → HubInv fine t → Grown fine s t →
      t.hub = s.hub → Spawned fine i site (topic, partition) s.hub t handle → Q (.ok handle) t) :
    HubSat fine i (Hub.spawnPump site topic partition).run Q s := by
  refine Discipline.Sat.tryBind (sat_fromSource (sat_create ?_))
  intro answer t hrely hinv u hrely' hinv'
  have hsu := hrely.trans hrely'
  have hu := h.rely hsu
  have hhub := hsu.hub h.holder
  cases answer with
  | error e => exact kerr _ u hu hinv' hsu.grown hhub
  | ok _ =>
      refine Discipline.Sat.bind (sat_spawn hu hP (fun heq => hhub ▸ hsite heq) ?_)
      intro handle v hkey hv hinv₂ hgrown hhub' hborn hmine hleft hroom hup w hrely₃ hinv₃
      rw [hhub] at hroom hup
      refine kok handle w (hv.rely hrely₃) hinv₃ (hsu.grown.trans (hgrown.trans hrely₃.grown))
        ((hrely₃.hub hv.holder).trans (hhub'.trans hhub)) ⟨hkey, hrely₃.grown.did _ hborn,
          by rw [hrely₃.mine]; exact hmine, fun hl => hleft (hrely₃.left hv.holder handle hl),
          hroom, hup⟩

/-- The new pump goes into the map, where every other pump of its key has left it. -/
theorem sat_insertPump (site : Site) {key : PumpKey} {Q : Unit → HubWorld → Prop}
    (h : HeldBut fine i P (handle :: X) s₀ s) (hspawned : Spawned fine i site key s.hub s handle)
    (hvetted : s.Vetted key)
    (hroom : site = .acquire → key ∈ s.hub.pumps ∨ s.hub.pumps.entries.length < s.hub.maxPumps)
    (hX : ∀ handle' ∈ X, s.Left handle' ∧ handle'.key = key)
    (hold : ∀ handle', handle'.key = key → s.InMap handle' → handle' ∈ X)
    (k : ∀ t, Held fine i P s₀ t → HubInv fine t → Grown fine s t → t.mine i = s.mine i →
      Q () t) :
    HubSat fine i (modifyHub fun hub => hub.insertPump key handle) Q s := by
  refine Discipline.Sat.bind (sat_read h fun t hrely ht hinv hhub => ?_)
  rw [← hhub] at hspawned hroom
  have hroom' : RoomKept fine →
      key ∈ t.hub.pumps ∨ t.hub.pumps.entries.length < t.hub.maxPumps := by
    intro hkept
    cases site with
    | acquire => exact hroom rfl
    | respawn => exact hspawned.room hkept rfl
  refine sat_write ht (by rw [hhub]; rfl) (by rw [hhub]; exact id) ?_ ?_ ?_ ?_ (Y := [])
  · intro u hgrown hinv' hhub'
    have hok := hinv'.hub.insertPump key hspawned.key_eq
      ((hrely.grown.trans hgrown).did _ hspawned.born) ((hrely.grown.trans hgrown).vetted hvetted)
      (hhub' ▸ hroom') (hhub' ▸ hspawned.up)
    rw [hhub', hhub] at hok
    exact hok
  · intro u hu hrely' hhub'
    have hsu := hrely.trans hrely'
    rw [← hhub, ← hhub']
    refine mapped_insert hu.mapped hspawned.key_eq
      (fun hl => hspawned.stays (hsu.left h.holder handle hl)) ?_ ?_
    · intro handle' hkey _ hin
      refine hold handle' hkey ?_
      rwa [InMap, ← hhub, ← hhub']
    · exact fun handle' hm => ⟨hsu.grown.left (hX handle' hm).1, (hX handle' hm).2⟩
  · intro key' handle' hlookup
    rcases lookup_insert_cases hlookup with ⟨_, rfl⟩ | ⟨_, hold'⟩
    · exact .inr (hrely.mine ▸ hspawned.mine)
    · exact .inl (hhub ▸ hold')
  · intro u hu hinv' hgrown hmine _
    exact k u hu hinv' (hrely.grown.trans hgrown) (hmine.trans hrely.mine)

end Spawn

section Acquire

theorem sat_livePump {key : PumpKey} {Q : Option PumpHandle → HubWorld → Prop}
    (h : HeldBut fine i P X s₀ s)
    (k : ∀ found t, HeldBut fine i P X s₀ t → HubInv fine t → Grown fine s t → t.hub = s.hub →
      (∀ handle, found = some handle → s.hub.pumps.lookup key = some handle) →
      (found = none → ∀ handle, s.hub.pumps.lookup key = some handle →
        t.isOpen handle.channel = false) → Q found t) :
    HubSat fine i (Hub.livePump key) Q s := by
  refine Discipline.Sat.bind (sat_read h fun t hrely ht hinv hhub => ?_)
  split
  next handle hlookup =>
      have hborn := (hinv.hub.keyed key handle (hhub ▸ hlookup)).2.1
      refine Discipline.Sat.bind (sat_isDead hborn fun dead u hrely' hinv' hdead _ => ?_)
      have hu := ht.rely hrely'
      intro v hrely'' hinv''
      refine k _ v (hu.rely hrely'') hinv''
        (hrely.grown.trans (hrely'.grown.trans hrely''.grown))
        ((hrely''.hub hu.holder).trans ((hrely'.hub ht.holder).trans hhub)) ?_ ?_
      · intro found heq
        cases dead <;> cases heq
        exact hlookup
      · intro heq handle' hlookup'
        rw [hlookup] at hlookup'
        cases hlookup'
        cases dead with
        | false => cases heq
        | true =>
            exact hrely''.grown.closed handle (hrely'.grown.did _ hborn) (hdead rfl)
  next hnone =>
      intro u hrely' hinv'
      refine k _ u (ht.rely hrely') hinv' (hrely.grown.trans hrely'.grown)
        ((hrely'.hub ht.holder).trans hhub) nofun ?_
      intro _ handle hlookup
      rw [hnone] at hlookup
      cases hlookup

/-- The hub hands out the pump of the map, or a new one. -/
theorem sat_acquire {Q : Except HubError (PumpHandle × Bool) → HubWorld → Prop}
    (h : Held fine i P s₀ s) (hP : ∀ e : HubEvent, e.Basic (topic, partition) → P e)
    (k : ∀ r t, Held fine i P s₀ t → HubInv fine t → Grown fine s t →
      (∀ handle created, r = .ok (handle, created) → Handed (topic, partition) t handle ∧
        (created = true → .started handle ∈ t.mine i)) → Q r t) :
    HubSat fine i (Hub.acquire topic partition).run Q s := by
  refine Discipline.Sat.tryBind (sat_checkTopic h (hP _ trivial) fun r t ht hinv hst hhub _ => ?_)
  cases r with
  | error e => exact k _ t ht hinv hst nofun
  | ok _ =>
  refine Discipline.Sat.liftBind (sat_livePump ht ?_)
  intro found u hu hinv₁ htu hhub₁ hfound hdead
  have hsu := hst.trans htu
  cases found with
  | some handle =>
      intro v hrely hinv₂
      refine k _ v (hu.rely hrely) hinv₂ (hsu.trans hrely.grown) fun handle' created heq => ?_
      cases heq
      have hlookup := hfound handle rfl
      rw [← hhub₁, ← hrely.hub hu.holder] at hlookup
      obtain ⟨hkey, hborn, hvetted⟩ := hinv₂.hub.keyed _ handle hlookup
      exact ⟨⟨hkey, hborn, hvetted⟩, nofun⟩
  | none =>
  refine Discipline.Sat.tryBind (sat_checkPartition hu (hP _ trivial) (fun _ => hP _ trivial) ?_)
  intro r v hv hinv₂ huv hsame hok
  cases r with
  | error e => exact k _ v hv hinv₂ (hsu.trans huv) nofun
  | ok _ =>
  obtain ⟨hvetted, hup⟩ := hok rfl
  refine Discipline.Sat.liftBind (sat_reapExitedPumps hv (fun _ => hP _ trivial) ?_)
  intro count pumps x hx hinv₃ hvx hhub₃ hlive
  have hsx := (hsu.trans huv).trans hvx
  -- The entry of the key, if there was one, is among those that went.
  have hnone : ∀ handle, x.hub.pumps.lookup (topic, partition) ≠ some handle := by
    intro handle hlookup
    rw [hhub₃] at hlookup
    obtain ⟨hlookup', hopen⟩ := hlive _ handle hlookup
    have hborn : v.Born handle := (hinv₂.hub.keyed _ handle hlookup').2.1
    rw [hsame] at hlookup'
    have hclosed := hdead rfl handle (hhub₁ ▸ hlookup')
    have hborn' : u.Born handle := (hinv₁.hub.keyed _ handle hlookup').2.1
    rw [huv.closed handle hborn' hclosed] at hopen
    cases hopen
  refine Discipline.Sat.liftBind (sat_read hx fun y hrely₄ hy hinv₄ hhub₄ => ?_)
  have hsy := hsx.trans hrely₄.grown
  split
  next =>
      intro z hrely₅ hinv₅
      exact k _ z (hy.rely hrely₅) hinv₅ (hsy.trans hrely₅.grown) nofun
  next hfull =>
      have hup' : y.hub.shutDown = false := by rw [hhub₄, hhub₃]; exact hup
      have hvetted' := (hvx.trans hrely₄.grown).vetted hvetted
      refine Discipline.Sat.tryBind (sat_spawnPump hy (fun _ => hP _ rfl) (fun _ => hup') ?_ ?_)
      · exact fun e z hz hinv₅ hgrown _ => k _ z hz hinv₅ (hsy.trans hgrown) nofun
      · intro handle z hz hinv₅ hyz hhub₅ hspawned
        have hhub₆ : z.hub = x.hub := hhub₅.trans hhub₄
        refine Discipline.Sat.liftBind (sat_insertPump .acquire hz (hhub₅ ▸ hspawned)
          (hyz.vetted hvetted') ?_ (fun _ hm => absurd hm List.not_mem_nil) ?_ ?_)
        · intro _
          rw [hhub₆]
          by_cases hmem : (topic, partition) ∈ x.hub.pumps
          · exact .inl hmem
          · exact .inr (Nat.lt_of_not_le fun hle => hfull ⟨hle, hmem⟩)
        · intro handle' hkey hin
          rw [InMap, hkey, hhub₆] at hin
          exact absurd hin (hnone handle')
        · intro a ha hinv₆ hza hmine b hrely₇ hinv₇
          refine k _ b (ha.rely hrely₇) hinv₇ ((hsy.trans hyz).trans (hza.trans hrely₇.grown))
            fun handle' created heq => ?_
          cases heq
          refine ⟨⟨hspawned.key_eq, (hza.trans hrely₇.grown).did _ hspawned.born,
            ((hyz.trans hza).trans hrely₇.grown).vetted hvetted'⟩, fun _ => ?_⟩
          rw [hrely₇.mine, hmine]
          exact hspawned.mine

end Acquire

section Respawn

/-- A stale pump's entry goes, if it is still there. -/
theorem sat_removePump {key : PumpKey} {Q : Unit → HubWorld → Prop}
    (h : HeldBut fine i P X s₀ s)
    (hY : ∀ handle, handle.key = key → s.InMap handle → handle ∈ Y) (hXY : ∀ handle ∈ X, handle ∈ Y)
    (k : ∀ t, HeldBut fine i P Y s₀ t → HubInv fine t → Grown fine s t → t.mine i = s.mine i →
      t.hub = s.hub.removePump key → Q () t) :
    HubSat fine i (perform (.write (s.hub.removePump key))) Q s := by
  refine sat_write h rfl id ?_ ?_ ?_ k
  · intro t _ hinv hhub
    have hok := hinv.hub.removePump key
    rw [hhub] at hok
    exact hok
  · intro t ht _ hhub
    have hmapped := mapped_shrink (s.hub.removePump key).pumps (Y := Y) ht.mapped ?_ hXY
    · rw [hhub] at hmapped
      exact hmapped
    · intro handle hnot
      have hin : t.InMap handle ↔ s.InMap handle := by rw [InMap, InMap, hhub]
      by_cases hkey : handle.key = key
      · rw [hin, show (s.hub.removePump key).pumps.lookup handle.key = none by
          rw [hkey]; exact AList.lookup_erase key s.hub.pumps]
        exact ⟨fun h => (by cases h), fun h => absurd (hY handle hkey h) hnot⟩
      · rw [hin]
        exact iff_of_eq (congrArg (· = some handle) (AList.lookup_erase_ne hkey))
  · exact fun key' handle hlookup => .inl (lookup_erase_cases hlookup).2

theorem not_inMap_of_removePump {key : PumpKey} (hhub : t.hub = s.hub.removePump key)
    (hkey : handle.key = key) : ¬ t.InMap handle := by
  intro hin
  rw [InMap, hhub, hkey] at hin
  exact (lookup_erase_cases hin).1 rfl

/-- The stale pump's place is taken by a new one, or somebody else's is handed out. -/
theorem sat_replacePump {Q : Except HubError PumpHandle → HubWorld → Prop}
    (h : HeldBut fine i P [stale] s₀ s) (hP : ∀ e : HubEvent, e.Basic (topic, partition) → P e)
    (hleft : s.Left stale) (hstale : Handed (topic, partition) s stale)
    (honly : ∀ handle, handle.key = (topic, partition) → s.InMap handle → handle = stale)
    (k : ∀ r t, Held fine i P s₀ t → HubInv fine t → Grown fine s t →
      (∀ handle, r = .ok handle → Handed (topic, partition) t handle) → Q r t) :
    HubSat fine i (Hub.replacePump topic partition).run Q s := by
  refine sat_caught (sat_spawnPump h (fun _ => hP _ rfl) (fun heq => by cases heq) ?_ ?_)
  · intro e t ht hinv hgrown hhub
    have hsettle : ∀ u, HeldBut fine i P [stale] s₀ u → Grown fine s u →
        (¬ u.InMap stale) → Held fine i P s₀ u := by
      intro u hu hgrown' hnot
      refine hu.settle fun handle hm _ _ => ?_
      rw [List.mem_singleton.mp hm]
      exact ⟨hgrown'.left hleft, hnot⟩
    refine Discipline.Sat.liftBind (Discipline.Sat.bind (sat_read ht ?_))
    intro u hrely hu hinv' hhub'
    rw [← hhub']
    refine sat_removePump hu (Y := [stale]) ?_ (fun _ => id) ?_
    · intro handle hkey hin
      rw [InMap, hhub', hhub] at hin
      exact List.mem_singleton.mpr (honly handle hkey hin)
    · intro v hv hinv'' hgrown' hmine hhub'' w hrely' hinv₃
      have hv' := hsettle v hv (hgrown.trans (hrely.grown.trans hgrown'))
        (not_inMap_of_removePump hhub'' hstale.key_eq)
      exact k _ w (hv'.rely hrely') hinv₃
        (hgrown.trans (hrely.grown.trans (hgrown'.trans hrely'.grown)))
        fun _ heq => by cases heq
  · intro handle t ht hinv hgrown hhub hspawned
    refine Discipline.Sat.liftBind (sat_insertPump .respawn ht (hhub ▸ hspawned)
      (hgrown.vetted hstale.vetted) (fun heq => by cases heq) ?_ ?_ ?_)
    · intro handle' hm
      rw [List.mem_singleton.mp hm]
      exact ⟨hgrown.left hleft, hstale.key_eq⟩
    · intro handle' hkey hin
      rw [InMap, hhub] at hin
      exact List.mem_singleton.mpr (honly handle' hkey hin)
    · intro u hu hinv' hgrown' hmine v hrely hinv''
      have hsv := hgrown.trans (hgrown'.trans hrely.grown)
      refine k _ v (hu.rely hrely) hinv'' hsv fun handle' heq => ?_
      cases heq
      exact ⟨hspawned.key_eq, (hgrown'.trans hrely.grown).did _ hspawned.born,
        hsv.vetted hstale.vetted⟩

/-- A stale pump is on record as given up. -/
theorem sat_giveUp {key : PumpKey} {Q : Unit → HubWorld → Prop} (h : Held fine i P s₀ s)
    (hP : P (.gone stale)) (hstale : Handed key s stale)
    (hclosed : s.isOpen stale.channel = false)
    (k : ∀ t, HeldBut fine i P [stale] s₀ t → HubInv fine t → Grown fine s t → t.Left stale →
      Handed key t stale → Q () t) :
    HubSat fine i (perform (.note (.gone stale))) Q s := by
  refine sat_note nofun ?_ ?_
  · intro handle hl
    rcases hl with hl | hl | hl <;> cases hl
    exact ⟨h.holder, hstale.born, .inl hclosed, fun _ => hclosed⟩
  · intro t hnoted hinv
    refine k t (h.noted hnoted hP nofun (fun _ hm => absurd hm List.not_mem_nil) ?_) hinv
      hnoted.grown (hnoted.left_of_leaves (.inl rfl)) (hstale.grown hnoted.grown)
    rintro handle (hl | hl | hl) <;> cases hl
    exact List.mem_cons_self

/-- Another pump has the entry. -/
theorem not_inMap_of_samePump {current : PumpHandle} (key : PumpKey)
    (hlookup : w.hub.pumps.lookup key = some current) (hkey : stale.key = key)
    (hsame : ¬ current.samePump stale = true) : ¬ w.InMap stale := by
  intro hin
  rw [InMap, hkey, hlookup] at hin
  cases hin
  exact hsame (beq_self_eq_true _)

/-- The stale pump is the only one that can have the entry. -/
theorem eq_of_samePump (hinv : HubInv fine w) {current : PumpHandle} {key : PumpKey}
    (hlookup : w.hub.pumps.lookup key = some current) (hstale : w.Born stale)
    (hsame : current.samePump stale = true) : current = stale := by
  obtain ⟨i, hi⟩ := (hinv.hub.keyed key current hlookup).2.1
  obtain ⟨j, hj⟩ := hstale
  exact (hinv.pumps.unique i j current stale hi hj (eq_of_beq hsame)).2

/-- A respawn hands out a pump of the key, or fails. -/
theorem sat_respawn {Q : Except HubError PumpHandle → HubWorld → Prop} (h : Held fine i P s₀ s)
    (hP : ∀ e : HubEvent, e.Basic (topic, partition) → P e)
    (hstale : Handed (topic, partition) s stale) (hclosed : s.isOpen stale.channel = false)
    (k : ∀ r t, Held fine i P s₀ t → HubInv fine t → Grown fine s t →
      (∀ handle, r = .ok handle → Handed (topic, partition) t handle) → Q r t) :
    HubSat fine i (Hub.respawn topic partition stale).run Q s := by
  refine Discipline.Sat.liftBind (sat_giveUp h (hP _ trivial) hstale hclosed ?_)
  intro t ht hinv hgrown hleft hstale'
  refine Discipline.Sat.liftBind (sat_read ht fun u hrely hu hinv' hhub => ?_)
  have hsu := hgrown.trans hrely.grown
  have hstale'' := hstale'.grown hrely.grown
  have hleft' := hrely.grown.left hleft
  split
  next current hlookup =>
      have hlookup' : u.hub.pumps.lookup (topic, partition) = some current := hhub ▸ hlookup
      split
      next hsame =>
          have heq := eq_of_samePump hinv' hlookup' hstale''.born hsame
          refine sat_replacePump hu hP hleft' hstale'' ?_ ?_
          · intro handle hkey hin
            rw [InMap, hkey, hlookup'] at hin
            exact (Option.some.inj hin).symm.trans heq
          · exact fun r v hv hinv'' hgrown' hok => k r v hv hinv'' (hsu.trans hgrown') hok
      next hsame =>
          intro v hrely' hinv''
          have hlookup'' : v.hub.pumps.lookup (topic, partition) = some current := by
            rw [hrely'.hub hu.holder, hlookup']
          have hv : Held fine i P s₀ v := (hu.rely hrely').settle fun handle hm _ _ => by
            rw [List.mem_singleton.mp hm]
            exact ⟨hrely'.grown.left hleft',
              not_inMap_of_samePump _ hlookup'' hstale''.key_eq hsame⟩
          refine k _ v hv hinv'' (hsu.trans hrely'.grown) fun handle heq => ?_
          cases heq
          obtain ⟨hkey, hborn, hvetted⟩ := hinv''.hub.keyed _ _ hlookup''
          exact ⟨hkey, hborn, hvetted⟩
  next hnone =>
      refine sat_replacePump hu hP hleft' hstale'' ?_ ?_
      · intro handle hkey hin
        rw [InMap, hkey, hhub, hnone] at hin
        cases hin
      · exact fun r v hv hinv'' hgrown' hok => k r v hv hinv'' (hsu.trans hgrown') hok

/-- A pump that was handed out and is gone leaves the map. -/
theorem sat_forget {Q : Unit → HubWorld → Prop} (h : Held fine i P s₀ s)
    (hP : P (.gone stale)) (hstale : Handed (topic, partition) s stale)
    (hclosed : s.isOpen stale.channel = false)
    (k : ∀ t, Held fine i P s₀ t → HubInv fine t → Grown fine s t → t.Left stale → Q () t) :
    HubSat fine i (Hub.forget topic partition stale) Q s := by
  refine Discipline.Sat.bind (sat_giveUp h hP hstale hclosed ?_)
  intro t ht hinv hgrown hleft hstale'
  refine Discipline.Sat.bind (sat_read ht fun u hrely hu hinv' hhub => ?_)
  have hsu := hgrown.trans hrely.grown
  have hleft' := hrely.grown.left hleft
  have hdone : ∀ v, HeldBut fine i P [stale] s₀ v → Grown fine u v → ¬ v.InMap stale →
      Held fine i P s₀ v := by
    intro v hv hgrown' hnot
    refine hv.settle fun handle hm _ _ => ?_
    rw [List.mem_singleton.mp hm]
    exact ⟨hgrown'.left hleft', hnot⟩
  split
  next current hlookup =>
      rw [← hhub] at hlookup
      split
      next hsame =>
          have heq := eq_of_samePump hinv' hlookup (hstale'.grown hrely.grown).born hsame
          rw [← hhub]
          refine sat_removePump hu (Y := [stale]) ?_ (fun _ => id) ?_
          · intro handle hkey hin
            rw [InMap, hkey, hlookup, heq] at hin
            exact List.mem_singleton.mpr (Option.some.inj hin).symm
          · intro v hv hinv'' hgrown' _ hhub'
            have hv' := hdone v hv hgrown' (not_inMap_of_removePump hhub' hstale.key_eq)
            exact k v hv' hinv'' (hsu.trans hgrown') (hgrown'.left hleft')
      next hsame =>
          intro v hrely' hinv''
          have hnot : ¬ v.InMap stale := by
            refine not_inMap_of_samePump (topic, partition) ?_ hstale.key_eq hsame
            rw [hrely'.hub hu.holder, hlookup]
          exact k v (hdone v (hu.rely hrely') hrely'.grown hnot) hinv''
            (hsu.trans hrely'.grown) (hrely'.grown.left hleft')
  next hnone =>
      intro v hrely' hinv''
      have hnot : ¬ v.InMap stale := by
        intro hin
        rw [InMap, hstale.key_eq, hrely'.hub hu.holder, hhub, hnone] at hin
        cases hin
      exact k v (hdone v (hu.rely hrely') hrely'.grown hnot) hinv''
        (hsu.trans hrely'.grown) (hrely'.grown.left hleft')

end Respawn

end Odradek.Web
