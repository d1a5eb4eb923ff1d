import OpenBitFun.DevicePresence

/-!
# The tasks that hold the gate

Each step of a task keeps the invariant of the world (`Inv.proceed`): a step shows what it changes
for its own device, and that it leaves the other devices alone (`GoesOn`). With the events beside
the gate this gives the invariant of every run, and with it the theorem about the directory.
-/

namespace OpenBitFun

open List

namespace DeviceDirectory

namespace World

open DeviceManager

variable {w w' : World} {holder : Holder} {c : ConnId}

/-! ## Taking the gate -/

/-- While the gate is free, every flag is right and no active connection has a revoked token. -/
theorem Inv.synced (h : w.Inv) (hgate : w.gate = none) (account device : String) :
    Synced (w.rows.lookup (account, device)) (w.manager.device account device).isSome :=
  h.free account device fun _ hsome => by rw [hgate] at hsome; cases hsome

theorem Inv.clean_of_free (h : w.Inv) (hgate : w.gate = none) {account device : String}
    {conn : DeviceConn} (hconn : w.manager.device account device = some conn) :
    conn.authToken ∉ w.revoked := by
  rcases h.clean account device conn hconn with hnot | ⟨holder, hsome, -⟩
  · exact hnot
  · rw [hgate] at hsome
    cases hsome

theorem Inv.start (h : w.Inv) (hgate : w.gate = none)
    {connections : AssocMap ConnId Connection} (hplaced : w.Placed connections)
    (hheld : Held { w with connections := connections, gate := some holder } holder) :
    Inv { w with connections := connections, gate := some holder } := by
  refine ⟨h.manager, fun account device _ => h.synced hgate account device, fun holder' hsome => ?_,
    hplaced.pending, hplaced.active, h.tokens, h.revoked, h.issued,
    fun account device conn hconn => .inl (h.clean_of_free hgate hconn)⟩
  rw [← Option.some.inj hsome]
  exact hheld

theorem Inv.startActivation (h : w.Inv) (hgate : w.gate = none) {connId : ConnId}
    (hwaiting : w.isIn connId .waiting = true) : (w.perform (.startActivation connId)).Inv := by
  obtain ⟨identity, hlookup⟩ := exists_of_isIn hwaiting
  have hconn := h.not_active hlookup ⟨by simp, by simp⟩
  have hplaced := h.moveTo connId .activating (.inr (.inr rfl)) (.inl hconn)
  rw [perform, hlookup]
  refine h.start hgate hplaced ⟨rfl, h.synced hgate _ _, fun c htask => ?_, by simp,
    by simp [GateStep.isLate], fun hnext => hnext.elim (by simp) (by simp), by simp⟩
  cases htask
  exact (lookup_moveTo _ _ _ _).trans (by rw [if_pos rfl, hlookup]; rfl)

theorem Inv.startClose (h : w.Inv) (hgate : w.gate = none) {connId : ConnId}
    (hrunning : w.isIn connId .running = true) : (w.perform (.startClose connId)).Inv := by
  obtain ⟨identity, hlookup⟩ := exists_of_isIn hrunning
  have hnone := h.not_pending hlookup ⟨by simp, by simp⟩
  have hplaced := h.moveTo connId .closing (.inl hnone) (.inr (.inr rfl))
  rw [perform, hlookup]
  refine h.start hgate hplaced ⟨rfl, h.synced hgate _ _, by simp, fun c htask => ?_,
    by simp [GateStep.isLate], fun hnext => hnext.elim (by simp) (by simp), by simp⟩
  cases htask
  exact (lookup_moveTo _ _ _ _).trans (by rw [if_pos rfl, hlookup]; rfl)

/-- A logout or a deletion takes the gate. -/
theorem Inv.startRevocation (h : w.Inv) (hgate : w.gate = none) (task : Task)
    (htask : ∀ c, task ≠ .activation c ∧ task ≠ .close c) (identity : Identity)
    {next : GateStep} (hnext : next = .checkToken ∨ next = .deleteRow)
    (hfor : next.isFor task = true) : Inv { w with gate := some ⟨task, identity, next⟩ } := by
  refine h.start hgate ⟨h.pending, h.active⟩ ⟨hfor, ?_, fun c heq => absurd heq (htask c).1,
    fun c heq => absurd heq (htask c).2, fun _ c heq => ?_, ?_, ?_⟩
  · rcases hnext with rfl | rfl
    · exact h.synced hgate _ _
    · exact h.synced hgate _ _
  · exact absurd heq (not_or.mpr (htask c))
  · rcases hnext with rfl | rfl
    · exact fun heq => heq.elim nofun nofun
    · exact fun heq => heq.elim nofun nofun
  · rcases hnext with rfl | rfl
    · exact nofun
    · exact nofun

/-! ## The holder goes on -/

/-- What has to be shown of a step of the holder that keeps the gate. -/
structure GoesOn (w : World) (holder : Holder) (s : DeviceManager)
    (rows : AssocMap (String × String) Bool) (stored : AssocMap String (String × String))
    (dead : List String) (next : GateStep) : Prop where
  isFor : next.isFor holder.task = true
  manager : s.Inv
  pending : ∀ c p, s.pendingConnections.lookup c = some p →
    w.manager.pendingConnections.lookup c = some p
  device : ∀ account device conn, s.device account device = some conn →
    w.manager.device account device = some conn
  other : ∀ account device, holder.identity.key ≠ (account, device) →
    s.device account device = w.manager.device account device ∧
      rows.lookup (account, device) = w.rows.lookup (account, device)
  allows : next.Allows (rows.lookup holder.identity.key)
    (s.device holder.identity.account holder.identity.device).isSome
  late : next.isLate = true → ∀ c, holder.task = .activation c ∨ holder.task = .close c →
    ¬s.Known c
  tokens : ∀ token key, stored.lookup token = some key →
    w.tokens.lookup token = some key ∧ token ∉ dead
  revoked : ∀ token ∈ dead, (w.issued.lookup token).isSome
  issued : next = .promote ∨ next = .revoke →
    w.issued.lookup holder.identity.token = some holder.identity.key
  notRevoked : next = .promote → holder.identity.token ∉ dead
  clean : ∀ account device conn, s.device account device = some conn →
    conn.authToken ∉ dead ∨ ClosesNext { holder with next := next } account device conn.authToken

/-- **A step of the holder of the gate.** -/
theorem Inv.goOn (h : w.Inv) (hgate : w.gate = some holder) {s : DeviceManager}
    {rows : AssocMap (String × String) Bool} {stored : AssocMap String (String × String)}
    {dead : List String} {next : GateStep} (hgoes : GoesOn w holder s rows stored dead next) :
    Inv ({ w with
      manager := s
      rows := rows
      tokens := stored
      revoked := dead }.goOn holder next) := by
  have hheld := h.held holder hgate
  refine ⟨hgoes.manager, fun account device hother => ?_, fun holder' hsome => ?_,
    fun c p hp => h.pending c p (hgoes.pending c p hp),
    fun account device conn hconn => h.active account device conn (hgoes.device _ _ _ hconn),
    fun token key hlookup => ?_, hgoes.revoked,
    fun account device conn hconn => h.issued account device conn (hgoes.device _ _ _ hconn),
    fun account device conn hconn => ?_⟩
  · have hne : holder.identity.key ≠ (account, device) := hother { holder with next := next } rfl
    obtain ⟨hdevice, hrow⟩ := hgoes.other account device hne
    have hsynced := h.free account device fun holder' hsome => by
      rw [hgate, Option.some_inj] at hsome
      rw [← hsome]
      exact hne
    rw [← hdevice, ← hrow] at hsynced
    exact hsynced
  · rw [← Option.some.inj hsome]
    exact ⟨hgoes.isFor, hgoes.allows, hheld.activating, hheld.closing, hgoes.late, hgoes.issued,
      hgoes.notRevoked⟩
  · obtain ⟨hlookup', hnot⟩ := hgoes.tokens token key hlookup
    exact ⟨(h.tokens token key hlookup').1, hnot⟩
  · exact (hgoes.clean account device conn hconn).imp_right fun hcloses => ⟨_, rfl, hcloses⟩

/-- Before a step that closes nothing, no active connection has a revoked token. -/
theorem Inv.clean_of_next (h : w.Inv) (hgate : w.gate = some holder)
    (hnext : holder.next ≠ .disconnectToken ∧ holder.next ≠ .disconnectDevice)
    {account device : String} {conn : DeviceConn}
    (hconn : w.manager.device account device = some conn) : conn.authToken ∉ w.revoked := by
  rcases h.clean account device conn hconn with hnot | ⟨holder', hsome, -, hcloses⟩
  · exact hnot
  · rw [hgate, Option.some_inj] at hsome
    rw [← hsome] at hcloses
    exact hcloses.elim (fun hboth => absurd hboth.1 hnext.1) fun heq => absurd heq hnext.2

/-- A step that changes the row of the device at most. -/
theorem Inv.goOn_rows (h : w.Inv) (hgate : w.gate = some holder)
    (hnext : holder.next ≠ .disconnectToken ∧ holder.next ≠ .disconnectDevice)
    (rows : AssocMap (String × String) Bool) {next : GateStep}
    (hfor : next.isFor holder.task = true)
    (hother : ∀ key, key ≠ holder.identity.key → rows.lookup key = w.rows.lookup key)
    (hallows : next.Allows (rows.lookup holder.identity.key)
      (w.manager.device holder.identity.account holder.identity.device).isSome)
    (hlate : next.isLate = true → ∀ c, holder.task = .activation c ∨ holder.task = .close c →
      ¬w.manager.Known c)
    (hissued : next = .promote ∨ next = .revoke →
      w.issued.lookup holder.identity.token = some holder.identity.key)
    (hnotRevoked : next = .promote → holder.identity.token ∉ w.revoked) :
    Inv ({ w with rows := rows }.goOn holder next) :=
  h.goOn hgate ⟨hfor, h.manager, fun _ _ hp => hp, fun _ _ _ hconn => hconn,
    fun _ _ hne => ⟨rfl, hother _ hne.symm⟩, hallows, hlate,
    fun token key hlookup => ⟨hlookup, (h.tokens token key hlookup).2⟩, h.revoked, hissued,
    hnotRevoked, fun _ _ _ hconn => .inl (h.clean_of_next hgate hnext hconn)⟩

theorem lookup_setOnline (rows : AssocMap (String × String) Bool) (key key' : String × String)
    (online : Bool) : (setOnline rows key online).lookup key' =
      if key' = key then (rows.lookup key).map fun _ => online else rows.lookup key' :=
  AssocMap.lookup_modify _ _ _ _

theorem Inv.of_current (h : w.Inv) {identity : Identity} (hcurrent : w.current identity = true) :
    w.issued.lookup identity.token = some identity.key ∧ identity.token ∉ w.revoked :=
  h.tokens _ _ (eq_of_beq hcurrent)

/-- A check of the token, and where the holder goes on. -/
theorem Inv.goOn_check (h : w.Inv) (hgate : w.gate = some holder)
    (hnext : holder.next ≠ .disconnectToken ∧ holder.next ≠ .disconnectDevice)
    {yes no : GateStep} (hyesFor : yes.isFor holder.task = true)
    (hnoFor : no.isFor holder.task = true) (hyes : yes.isLate = false)
    (hyesAllows : yes.Allows (w.rows.lookup holder.identity.key)
      (w.manager.device holder.identity.account holder.identity.device).isSome)
    (hnoAllows : no.Allows (w.rows.lookup holder.identity.key)
      (w.manager.device holder.identity.account holder.identity.device).isSome)
    (hno : no ≠ .promote ∧ no ≠ .revoke)
    (hnoLate : no.isLate = true → ∀ c, holder.task = .activation c ∨ holder.task = .close c →
      ¬w.manager.Known c) :
    (w.goOn holder (if w.current holder.identity then yes else no)).Inv := by
  cases hcurrent : w.current holder.identity with
  | true =>
    obtain ⟨hissued, hnotRevoked⟩ := h.of_current hcurrent
    refine h.goOn_rows hgate hnext w.rows hyesFor (fun _ _ => rfl) hyesAllows ?_
      (fun _ => hissued) fun _ => hnotRevoked
    intro hlate
    rw [if_pos rfl, hyes] at hlate
    cases hlate
  | false =>
    exact h.goOn_rows hgate hnext w.rows hnoFor (fun _ _ => rfl) hnoAllows hnoLate
      (fun heq => (heq.elim hno.1 hno.2).elim) fun heq => absurd heq hno.1

/-! ## The steps of the holder -/

theorem task_of_activation {next : GateStep} {task : Task} (hfor : next.isFor task = true)
    (hnext : next = .checkFirst ∨ next = .upsert ∨ next = .setOnline ∨ next = .checkSecond) :
    ∃ c, task = .activation c := by
  cases task with
  | activation c => exact ⟨c, rfl⟩
  | close c => rcases hnext with rfl | rfl | rfl | rfl <;> cases hfor
  | logout => rcases hnext with rfl | rfl | rfl | rfl <;> cases hfor
  | deletion => rcases hnext with rfl | rfl | rfl | rfl <;> cases hfor

theorem task_of_logout {next : GateStep} {task : Task} (hfor : next.isFor task = true)
    (hnext : next = .checkToken ∨ next = .revoke) : task = .logout := by
  cases task with
  | logout => rfl
  | activation c => rcases hnext with rfl | rfl <;> cases hfor
  | close c => rcases hnext with rfl | rfl <;> cases hfor
  | deletion => rcases hnext with rfl | rfl <;> cases hfor

theorem task_of_deletion {next : GateStep} {task : Task} (hfor : next.isFor task = true)
    (hnext : next = .deleteRow ∨ next = .disconnectDevice) : task = .deletion := by
  cases task with
  | deletion => rfl
  | activation c => rcases hnext with rfl | rfl <;> cases hfor
  | close c => rcases hnext with rfl | rfl <;> cases hfor
  | logout => rcases hnext with rfl | rfl <;> cases hfor

/-- Releasing the gate, with the task's connection moved on. -/
theorem Inv.free_gate (h : w.Inv) (hgate : w.gate = some holder)
    (hnext : holder.next ≠ .disconnectToken ∧ holder.next ≠ .disconnectDevice)
    (hsynced : Synced (w.rows.lookup holder.identity.key)
      (w.manager.device holder.identity.account holder.identity.device).isSome)
    {connections : AssocMap ConnId Connection} (hplaced : w.Placed connections) :
    Inv { w with connections := connections, gate := none } := by
  refine ⟨h.manager, fun account device _ => ?_, nofun, hplaced.pending, hplaced.active, h.tokens,
    h.revoked, h.issued, fun account device conn hconn => .inl (h.clean_of_next hgate hnext hconn)⟩
  by_cases hkey : holder.identity.key = (account, device)
  · cases hkey
    exact hsynced
  · refine h.free account device fun holder' hsome => ?_
    rw [hgate, Option.some_inj] at hsome
    rw [← hsome]
    exact hkey

theorem Inv.release (h : w.Inv) (hgate : w.gate = some holder) (hnext : holder.next = .release)
    (refused : Bool) : (w.proceed holder refused).Inv := by
  have hheld := h.held holder hgate
  have hallows := hheld.allows
  have hlate := hheld.late
  rw [hnext] at hallows hlate
  have hno : holder.next ≠ .disconnectToken ∧ holder.next ≠ .disconnectDevice := by
    rw [hnext]
    exact ⟨nofun, nofun⟩
  -- the connection of the task is unknown by now
  have hnot : ∀ c, holder.task = .activation c ∨ holder.task = .close c →
      w.manager.pendingConnections.lookup c = none ∧ w.manager.connToDevice.lookup c = none := by
    intro c htask
    have hunknown := hlate rfl c htask
    rwa [Known, not_or, Option.not_isSome_iff_eq_none, Option.not_isSome_iff_eq_none] at hunknown
  rw [proceed, hnext]
  dsimp only
  cases htask : holder.task with
  | activation c =>
    obtain ⟨hnotPending, hnotActive⟩ := hnot c (.inl htask)
    exact h.free_gate hgate hno hallows
      (h.moveTo c .refused (.inl hnotPending) (.inl hnotActive))
  | close c =>
    obtain ⟨hnotPending, hnotActive⟩ := hnot c (.inr htask)
    exact h.free_gate hgate hno hallows (h.moveTo c .gone (.inl hnotPending) (.inl hnotActive))
  | logout => exact h.free_gate hgate hno hallows ⟨h.pending, h.active⟩
  | deletion => exact h.free_gate hgate hno hallows ⟨h.pending, h.active⟩

/-- The connection of an activation is not active, and pending only for the identity. -/
theorem Inv.of_activation (h : w.Inv) (hgate : w.gate = some holder)
    (htask : holder.task = .activation c) :
    w.manager.connToDevice.lookup c = none ∧
      ∀ p, w.manager.pendingConnections.lookup c = some p → p.userId = holder.identity.account ∧
        p.deviceId = holder.identity.device ∧ p.authToken = holder.identity.token := by
  have hlookup := (h.held holder hgate).activating c htask
  refine ⟨h.not_active hlookup ⟨nofun, nofun⟩, fun p hp => ?_⟩
  obtain ⟨connection, hlookup', hidentity, -⟩ := h.pending c p hp
  rw [hlookup, Option.some_inj] at hlookup'
  rw [← hlookup'] at hidentity
  dsimp only at hidentity
  rw [hidentity]
  exact ⟨rfl, rfl, rfl⟩

theorem not_known_of_maps {s : DeviceManager} (hpending : s.pendingConnections.lookup c = none)
    (hactive : s.connToDevice.lookup c = none) : ¬s.Known c := by
  rw [Known, hpending, hactive]
  simp

theorem Inv.promote_step (h : w.Inv) (hgate : w.gate = some holder)
    (hnext : holder.next = .promote) (refused : Bool) : (w.proceed holder refused).Inv := by
  have hheld := h.held holder hgate
  have hrow : w.rows.lookup holder.identity.key = some true := by
    have hallows := hheld.allows
    rw [hnext] at hallows
    exact hallows
  have hno : holder.next ≠ .disconnectToken ∧ holder.next ≠ .disconnectDevice := by
    rw [hnext]
    exact ⟨by simp, by simp⟩
  rw [proceed, hnext]
  dsimp only
  cases htask : holder.task with
  | activation c =>
    dsimp only
    obtain ⟨hnotActive, hmatches⟩ := h.of_activation hgate htask
    have hown : ∀ c', holder.task = .activation c' ∨ holder.task = .close c' → c' = c := by
      intro c' htask'
      rw [htask] at htask'
      rcases htask' with heq | heq <;> cases heq
      rfl
    have hproject : ∀ s : DeviceManager, s.Inv →
        (∀ c' p, s.pendingConnections.lookup c' = some p →
          w.manager.pendingConnections.lookup c' = some p) →
        s.pendingConnections.lookup c = none → s.connToDevice = w.manager.connToDevice →
        s.users = w.manager.users → Inv ({ w with manager := s }.goOn holder .project) := by
      intro s hinv hpending hnone hconns husers
      have hdevice : ∀ account device, s.device account device =
          w.manager.device account device := by
        intro account device
        rw [DeviceManager.device, DeviceManager.device, husers]
      refine h.goOn hgate ⟨by rw [htask]; rfl, hinv, hpending, fun account device conn hconn => ?_,
        fun account device _ => ⟨hdevice _ _, rfl⟩, fun _ => hrow, fun _ c' htask' => ?_,
        fun token key hlookup => ⟨hlookup, (h.tokens token key hlookup).2⟩, h.revoked,
        fun heq => heq.elim (by simp) (by simp), by simp, fun account device conn hconn => .inl ?_⟩
      · rw [← hdevice]
        exact hconn
      · rw [hown c' htask']
        exact not_known_of_maps hnone (hconns ▸ hnotActive)
      · rw [hdevice] at hconn
        exact h.clean_of_next hgate hno hconn
    rcases w.manager.activatePending_cases holder.identity.account holder.identity.device
      holder.identity.token c refused with ⟨heq, hnone⟩ | ⟨pending, hpending, -, -, htoken, heq⟩
    · rw [heq, if_neg Bool.false_ne_true]
      refine hproject w.manager h.manager (fun _ _ hp => hp) ?_ rfl rfl
      rw [Option.eq_none_iff_forall_ne_some]
      intro p hp
      exact hnone p hp (hmatches p hp)
    · rw [heq]
      cases refused with
      | true =>
        rw [if_pos rfl, if_neg Bool.false_ne_true]
        refine hproject _ (h.manager.erasePending c _) (fun c' p hp => ?_) ?_ rfl rfl
        · change (w.manager.pendingConnections.erase c).lookup c' = some p at hp
          rw [AssocMap.lookup_erase] at hp
          split at hp
          · cases hp
          · exact hp
        · exact (AssocMap.lookup_erase _ _ _).trans (if_pos rfl)
      | false =>
        rw [if_neg Bool.false_ne_true, if_pos rfl]
        -- the connection takes the device over, and the gate is given back
        have hactivate := h.manager.activatePending holder.identity.account
          holder.identity.device holder.identity.token c false
        have hkeeps := h.manager.keeps_activatePending none holder.identity.account
          holder.identity.device holder.identity.token c false
        rw [heq, if_neg Bool.false_ne_true] at hactivate hkeeps
        have hlookup := hheld.activating c htask
        have hnotRevoked := hheld.notRevoked hnext
        have hissued := hheld.issued (.inl hnext)
        let s : DeviceManager := { w.manager with
          pendingConnections := w.manager.pendingConnections.erase c : DeviceManager }.promote
            holder.identity.account holder.identity.device c pending
        have hdevice : ∀ account device, s.device account device =
            if account = holder.identity.account ∧ device = holder.identity.device then
              some ⟨c, pending.authToken, pending.deviceName, pending.forceCloseTx⟩
            else w.manager.device account device := fun account device => device_promote pending _ _
        refine ⟨hactivate, fun account device _ => ?_, by simp, fun c' p hp => ?_,
          fun account device conn hconn => ?_, h.tokens, h.revoked,
          fun account device conn hconn => ?_, fun account device conn hconn => .inl ?_⟩
        · change Synced _ (s.device account device).isSome
          rw [hdevice]
          split
          · rename_i hkey
            rw [hkey.1, hkey.2]
            exact congrArg (Option.getD · false) hrow
          · rename_i hkey
            refine h.free account device fun holder' hsome => ?_
            rw [hgate, Option.some_inj] at hsome
            rw [← hsome, key_ne_iff]
            exact hkey
        · have hp' := hkeeps.pending c' p hp
          obtain ⟨connection, hconnection, hrest⟩ := h.pending c' p hp'
          refine ⟨connection, ?_, hrest⟩
          refine (lookup_moveTo _ _ _ _).trans ?_
          rw [if_neg]
          · exact hconnection
          · rintro rfl
            change s.pendingConnections.lookup c' = some p at hp
            rw [pending_promote] at hp
            change (w.manager.pendingConnections.erase c').lookup c' = some p at hp
            rw [AssocMap.lookup_erase, if_pos rfl] at hp
            cases hp
        · change s.device account device = some conn at hconn
          rw [hdevice] at hconn
          split at hconn
          · rename_i hkey
            cases hconn
            refine ⟨⟨holder.identity, .running⟩, ?_, ?_, .inl rfl⟩
            · exact (lookup_moveTo _ _ _ _).trans (by rw [if_pos rfl, hlookup]; rfl)
            · rw [hkey.1, hkey.2]
              rfl
          · obtain ⟨connection, hconnection, hrest⟩ := h.active account device conn hconn
            refine ⟨connection, ?_, hrest⟩
            refine (lookup_moveTo _ _ _ _).trans ?_
            rw [if_neg]
            · exact hconnection
            · rintro rfl
              rw [h.manager.conn_of_device hconn] at hnotActive
              cases hnotActive
        · change s.device account device = some conn at hconn
          rw [hdevice] at hconn
          split at hconn
          · rename_i hkey
            cases hconn
            change w.issued.lookup pending.authToken = _
            rw [htoken, hissued, hkey.1, hkey.2]
            rfl
          · exact h.issued account device conn hconn
        · change s.device account device = some conn at hconn
          rw [hdevice] at hconn
          split at hconn
          · cases hconn
            change pending.authToken ∉ w.revoked
            rw [htoken]
            exact hnotRevoked
          · exact h.clean_of_next hgate hno hconn
  | close c => exact h
  | logout => exact h
  | deletion => exact h

/-- The close handler unregisters its connection. -/
theorem Inv.unregister_step (h : w.Inv) (hgate : w.gate = some holder)
    (hnext : holder.next = .unregister) (refused : Bool) : (w.proceed holder refused).Inv := by
  have hheld := h.held holder hgate
  have hsynced : Synced (w.rows.lookup holder.identity.key)
      (w.manager.device holder.identity.account holder.identity.device).isSome := by
    have hallows := hheld.allows
    rw [hnext] at hallows
    exact hallows
  have hno : holder.next ≠ .disconnectToken ∧ holder.next ≠ .disconnectDevice := by
    rw [hnext]
    exact ⟨nofun, nofun⟩
  rw [proceed, hnext]
  dsimp only
  cases htask : holder.task with
  | close c =>
    dsimp only
    have hlookup := hheld.closing c htask
    have hnotPending := h.not_pending hlookup ⟨nofun, nofun⟩
    have hkeeps := h.manager.keeps_unregister c
    -- its connection is the one of its own device, if it is active still
    have hdevice : (∀ account device, (w.manager.unregister c).2.device account device =
          w.manager.device account device) ∨
        ∀ account device, (w.manager.unregister c).2.device account device =
          if account = holder.identity.account ∧ device = holder.identity.device then none
          else w.manager.device account device := by
      rcases h.manager.unregister_cases c with
        ⟨account, device, conn, users, hconn, rfl, hdevice, heq⟩ | ⟨p, hp, -⟩ | ⟨-, heq⟩
      · obtain ⟨connection, hconnection, hkey, -⟩ := h.active account device conn hconn
        rw [hlookup, Option.some_inj] at hconnection
        rw [← hconnection] at hkey
        cases hkey
        rw [heq]
        exact .inr hdevice
      · rw [hnotPending] at hp
        cases hp
      · rw [heq]
        exact .inl fun _ _ => rfl
    have hsub : ∀ account device conn, (w.manager.unregister c).2.device account device =
        some conn → w.manager.device account device = some conn := by
      intro account device conn hconn
      rcases hdevice with hdevice | hdevice
      · rw [← hdevice]
        exact hconn
      · rw [hdevice] at hconn
        split at hconn
        · cases hconn
        · exact hconn
    refine h.goOn hgate ⟨by rw [htask]; rfl, h.manager.unregister c, hkeeps.pending, hsub,
      fun account device hne => ⟨?_, rfl⟩, fun honline => ?_, fun _ c' htask' => ?_,
      fun token key hlookup => ⟨hlookup, (h.tokens token key hlookup).2⟩, h.revoked,
      fun heq => heq.elim nofun nofun, nofun,
      fun account device conn hconn => .inl (h.clean_of_next hgate hno (hsub _ _ _ hconn))⟩
    · rcases hdevice with hdevice | hdevice
      · exact hdevice account device
      · rw [hdevice, if_neg (key_ne_iff.mp hne)]
    · refine hsynced.covered ?_
      obtain ⟨conn, hconn⟩ := Option.isSome_iff_exists.mp honline
      rw [hsub _ _ conn hconn]
      rfl
    · rw [htask] at htask'
      rcases htask' with heq | heq
      · cases heq
      · cases heq
        exact h.manager.not_known_unregister c
  | activation c => exact h
  | logout => exact h
  | deletion => exact h

/-- Closing the connections of the holder's device that have some tokens. -/
theorem Inv.disconnect_step (h : w.Inv) (hgate : w.gate = some holder)
    (test : String → Bool) {next : GateStep} (hfor : next.isFor holder.task = true)
    (hallows : next.Allows (w.rows.lookup holder.identity.key)
      ((w.manager.device holder.identity.account holder.identity.device).filter
        fun conn => !test conn.authToken).isSome)
    (hlate : ∀ c, holder.task = .activation c ∨ holder.task = .close c →
      holder.task = .activation c ∧ test holder.identity.token = true)
    (hnext : next ≠ .promote ∧ next ≠ .revoke)
    (hcloses : holder.next = .disconnectDevice ∨ test holder.identity.token = true)
    (hall : holder.next = .disconnectDevice → ∀ token, test token = true) :
    Inv ({ w with
      manager := (w.manager.disconnectWhere holder.identity.account holder.identity.device
        test).2 }.goOn holder next) := by
  have hkeeps := keeps_disconnectWhere none w.manager holder.identity.account
    holder.identity.device test
  have hinv := h.manager.disconnectWhere holder.identity.account holder.identity.device test
  have hdevice : ∀ account device, (w.manager.disconnectWhere holder.identity.account
      holder.identity.device test).2.device account device =
      if account = holder.identity.account ∧ device = holder.identity.device then
        (w.manager.device holder.identity.account holder.identity.device).filter
          fun conn => !test conn.authToken
      else w.manager.device account device := fun account device =>
    device_disconnectWhere _ _ _ test account device
  have hsub : ∀ account device conn, (w.manager.disconnectWhere holder.identity.account
      holder.identity.device test).2.device account device = some conn →
      w.manager.device account device = some conn ∧
        (holder.identity.key = (account, device) → test conn.authToken = false) := by
    intro account device conn hconn
    rw [hdevice] at hconn
    split at hconn
    · rename_i hkey
      obtain ⟨hconn, htest⟩ := Option.filter_eq_some_iff.mp hconn
      rw [Bool.not_eq_true'] at htest
      rw [hkey.1, hkey.2]
      exact ⟨hconn, fun _ => htest⟩
    · rename_i hkey
      exact ⟨hconn, fun heq => absurd heq (key_ne_iff.mpr hkey)⟩
  refine h.goOn hgate ⟨hfor, hinv, hkeeps.pending, fun account device conn hconn =>
      (hsub account device conn hconn).1, fun account device hne => ⟨?_, rfl⟩, ?_,
    fun _ c htask hknown => ?_,
    fun token key hlookup => ⟨hlookup, (h.tokens token key hlookup).2⟩, h.revoked,
    fun heq => (heq.elim hnext.1 hnext.2).elim, fun heq => absurd heq hnext.1,
    fun account device conn hconn => .inl ?_⟩
  · rw [hdevice, if_neg (key_ne_iff.mp hne)]
  · rw [hdevice, if_pos ⟨rfl, rfl⟩]
    exact hallows
  · -- the pending connection of the activation was closed, and it is not active
    obtain ⟨hactivation, htest⟩ := hlate c htask
    obtain ⟨hnotActive, hmatches⟩ := h.of_activation hgate hactivation
    rcases hkeeps.known h.manager hinv hknown with hpending | hactive
    · rcases hknown with hpending' | hactive'
      · obtain ⟨p, hp⟩ := Option.isSome_iff_exists.mp hpending'
        obtain ⟨hp', hstays⟩ := (pending_disconnectWhere test).mp hp
        obtain ⟨huser, hdevice, htoken⟩ := hmatches p hp'
        exact hstays ⟨huser, hdevice, htoken ▸ htest⟩
      · obtain ⟨dev, hdev⟩ := Option.isSome_iff_exists.mp hactive'
        obtain ⟨conn, hconn, rfl⟩ := (hinv.inverse _ _ _).mp hdev
        rw [h.manager.conn_of_device (hsub _ _ conn hconn).1] at hnotActive
        cases hnotActive
    · rw [hnotActive] at hactive
      cases hactive
  · obtain ⟨hconn', htest⟩ := hsub account device conn hconn
    rcases h.clean account device conn hconn' with hnot | ⟨holder', hsome, hkey, hcloses'⟩
    · exact hnot
    · rw [hgate, Option.some_inj] at hsome
      rw [← hsome] at hkey hcloses'
      have hfalse := htest hkey
      rcases hcloses' with ⟨hstep, htoken⟩ | hstep
      · rw [← htoken] at hfalse
        rcases hcloses with heq | htrue
        · rw [hstep] at heq
          cases heq
        · rw [htrue] at hfalse
          cases hfalse
      · rw [hall hstep] at hfalse
        cases hfalse

theorem Inv.revoke_step (h : w.Inv) (hgate : w.gate = some holder) (hnext : holder.next = .revoke)
    (refused : Bool) : (w.proceed holder refused).Inv := by
  have hheld := h.held holder hgate
  have hallows := hheld.allows
  have hfor := hheld.isFor
  rw [hnext] at hallows hfor
  have hissued := hheld.issued (.inr hnext)
  have hno : holder.next ≠ .disconnectToken ∧ holder.next ≠ .disconnectDevice := by
    rw [hnext]
    exact ⟨nofun, nofun⟩
  rw [proceed, hnext]
  refine h.goOn hgate ⟨?_, h.manager, fun _ _ hp => hp, fun _ _ _ hconn => hconn,
    fun _ _ _ => ⟨rfl, rfl⟩, Synced.covered hallows, nofun, fun token key hlookup => ?_,
    fun token hmem => ?_, fun heq => heq.elim nofun nofun, nofun,
    fun account device conn hconn => ?_⟩
  · rw [task_of_logout hfor (.inr rfl)]
    rfl
  · rw [AssocMap.lookup_erase] at hlookup
    split at hlookup
    · cases hlookup
    · rename_i hne
      refine ⟨hlookup, fun hmem => ?_⟩
      rcases mem_append.mp hmem with hmem | hmem
      · exact (h.tokens token key hlookup).2 hmem
      · exact hne (mem_singleton.mp hmem)
  · rcases mem_append.mp hmem with hmem | hmem
    · exact h.revoked token hmem
    · rw [mem_singleton.mp hmem, hissued]
      rfl
  · by_cases htoken : conn.authToken = holder.identity.token
    · -- the token was issued for one device
      have hsame := h.issued account device conn hconn
      rw [htoken, hissued, Option.some_inj] at hsame
      exact .inr ⟨hsame, .inl ⟨rfl, htoken.symm⟩⟩
    · refine .inl fun hmem => ?_
      rcases mem_append.mp hmem with hmem | hmem
      · exact h.clean_of_next hgate hno hconn hmem
      · exact htoken (mem_singleton.mp hmem)

/-- A deletion removes the row and revokes the tokens of the device. -/
theorem Inv.deleteRow_step (h : w.Inv) (hgate : w.gate = some holder)
    (hnext : holder.next = .deleteRow) (refused : Bool) : (w.proceed holder refused).Inv := by
  have hheld := h.held holder hgate
  have hallows := hheld.allows
  have hfor := hheld.isFor
  rw [hnext] at hallows hfor
  have htask := task_of_deletion hfor (.inl rfl)
  have hno : holder.next ≠ .disconnectToken ∧ holder.next ≠ .disconnectDevice := by
    rw [hnext]
    exact ⟨nofun, nofun⟩
  have herase : ∀ key, (w.rows.erase holder.identity.key).lookup key =
      if key = holder.identity.key then none else w.rows.lookup key := fun key =>
    AssocMap.lookup_erase _ _ _
  have hdead : ∀ token, token ∈ w.revoked ++ (w.tokens.keys.filter fun token =>
      w.tokens.lookup token == some holder.identity.key) ↔
      token ∈ w.revoked ∨ w.tokens.lookup token = some holder.identity.key := by
    intro token
    rw [mem_append, mem_filter, beq_iff_eq]
    refine or_congr_right (and_iff_right_of_imp fun hlookup => ?_)
    exact AssocMap.mem_of_lookup hlookup
  have hgoes : ∀ next, next.isFor .deletion = true →
      next.Allows none (w.manager.device holder.identity.account holder.identity.device).isSome →
      (next ≠ .promote ∧ next ≠ .revoke) →
      (next ≠ .disconnectDevice →
        w.manager.device holder.identity.account holder.identity.device = none) →
      GoesOn w holder w.manager (w.rows.erase holder.identity.key)
        (w.tokens.retain (· != holder.identity.key))
        (w.revoked ++ w.tokens.keys.filter fun token =>
          w.tokens.lookup token == some holder.identity.key) next := by
    intro next hnextFor hnextAllows hnextNe hnone
    refine ⟨htask ▸ hnextFor, h.manager, fun _ _ hp => hp, fun _ _ _ hconn => hconn,
      fun account device hne => ⟨rfl, ?_⟩, ?_, fun _ c hc => ?_, fun token key hlookup => ?_,
      fun token hmem => ?_, fun heq => (heq.elim hnextNe.1 hnextNe.2).elim,
      fun heq => absurd heq hnextNe.1, fun account device conn hconn => ?_⟩
    · rw [herase, if_neg hne.symm]
    · rw [herase, if_pos rfl]
      exact hnextAllows
    · rw [htask] at hc
      exact hc.elim nofun nofun
    · rw [AssocMap.lookup_retain, Option.filter_eq_some_iff, bne_iff_ne] at hlookup
      refine ⟨hlookup.1, fun hmem => ?_⟩
      rcases (hdead token).mp hmem with hmem | hkey
      · exact (h.tokens token key hlookup.1).2 hmem
      · rw [hlookup.1, Option.some_inj] at hkey
        exact hlookup.2 hkey
    · rcases (hdead token).mp hmem with hmem | hkey
      · exact h.revoked token hmem
      · rw [(h.tokens token _ hkey).1]
        rfl
    · by_cases hkey : w.tokens.lookup conn.authToken = some holder.identity.key
      · -- the token was issued for this device
        have hsame := h.issued account device conn hconn
        rw [(h.tokens _ _ hkey).1, Option.some_inj] at hsame
        refine .inr ⟨hsame, .inr ?_⟩
        by_contra hne
        cases hsame
        rw [hnone hne] at hconn
        cases hconn
      · refine .inl fun hmem => ?_
        rcases (hdead _).mp hmem with hmem | heq
        · exact h.clean_of_next hgate hno hconn hmem
        · exact hkey heq
  rw [proceed, hnext]
  dsimp only
  cases hrow : w.rows.lookup holder.identity.key with
  | none =>
    -- a device without a row is not owned
    have hoffline : w.manager.device holder.identity.account holder.identity.device = none := by
      rw [hrow] at hallows
      rw [← Option.not_isSome_iff_eq_none, Bool.not_eq_true]
      exact Eq.symm hallows
    refine h.goOn hgate (hgoes .release rfl ?_ ⟨nofun, nofun⟩ fun _ => hoffline)
    rw [hoffline]
    rfl
  | some flag => exact h.goOn hgate (hgoes .disconnectDevice rfl nofun ⟨nofun, nofun⟩
      fun hne => absurd rfl hne)

/-- The steps that read the directory or write the flag. -/
theorem Inv.project_step (h : w.Inv) (hgate : w.gate = some holder)
    (hnext : holder.next = .project) (refused : Bool) : (w.proceed holder refused).Inv := by
  have hheld := h.held holder hgate
  have hallows := hheld.allows
  have hfor := hheld.isFor
  have hlate := hheld.late
  rw [hnext] at hallows hfor hlate
  have hno : holder.next ≠ .disconnectToken ∧ holder.next ≠ .disconnectDevice := by
    rw [hnext]
    exact ⟨nofun, nofun⟩
  rw [proceed, hnext]
  dsimp only
  rw [isDeviceOnline_eq]
  cases honline : (w.manager.device holder.identity.account holder.identity.device).isSome with
  | true =>
    rw [if_pos rfl]
    refine h.goOn_rows hgate hno w.rows (by cases holder.task <;> rfl) (fun _ _ => rfl) ?_
      (fun _ => hlate rfl) (fun heq => heq.elim nofun nofun) nofun
    rw [honline] at hallows ⊢
    exact congrArg (Option.getD · false) (hallows rfl)
  | false =>
    rw [if_neg Bool.false_ne_true]
    refine h.goOn_rows hgate hno w.rows ?_ (fun _ _ => rfl) honline (fun _ => hlate rfl)
      (fun heq => heq.elim nofun nofun) nofun
    cases htask : holder.task with
    | activation c => rfl
    | close c => rfl
    | logout => rfl
    | deletion => rw [htask] at hfor; cases hfor

/-- **Every step of the holder** keeps the invariant. -/
theorem Inv.proceed (h : w.Inv) (hgate : w.gate = some holder) (refused : Bool) :
    (w.proceed holder refused).Inv := by
  have hheld := h.held holder hgate
  have hallows := hheld.allows
  have hfor := hheld.isFor
  cases hnext : holder.next with
  | promote => exact h.promote_step hgate hnext refused
  | unregister => exact h.unregister_step hgate hnext refused
  | revoke => exact h.revoke_step hgate hnext refused
  | deleteRow => exact h.deleteRow_step hgate hnext refused
  | project => exact h.project_step hgate hnext refused
  | release => exact h.release hgate hnext refused
  | checkFirst =>
    rw [hnext] at hallows hfor
    rw [World.proceed, hnext]
    obtain ⟨c, htask⟩ := task_of_activation hfor (.inl rfl)
    exact h.goOn_check hgate (by rw [hnext]; exact ⟨nofun, nofun⟩) (by rw [htask]; rfl)
      (by rw [htask]; rfl) rfl hallows (Synced.covered hallows) ⟨nofun, nofun⟩ nofun
  | checkSecond =>
    rw [hnext] at hallows hfor
    rw [World.proceed, hnext]
    obtain ⟨c, htask⟩ := task_of_activation hfor (.inr (.inr (.inr rfl)))
    exact h.goOn_check hgate (by rw [hnext]; exact ⟨nofun, nofun⟩) (by rw [htask]; rfl)
      (by rw [htask]; rfl) rfl hallows (fun _ => hallows) ⟨nofun, nofun⟩ nofun
  | checkToken =>
    rw [hnext] at hallows hfor
    rw [World.proceed, hnext]
    have htask := task_of_logout hfor (.inl rfl)
    refine h.goOn_check hgate (by rw [hnext]; exact ⟨nofun, nofun⟩) (by rw [htask]; rfl)
      (by rw [htask]; rfl) rfl hallows hallows ⟨nofun, nofun⟩ fun _ c hc => ?_
    rw [htask] at hc
    exact hc.elim nofun nofun
  | upsert =>
    rw [hnext] at hallows hfor
    rw [World.proceed, hnext]
    refine h.goOn_rows hgate (by rw [hnext]; exact ⟨nofun, nofun⟩) _ ?_ (fun key hne => ?_)
      ⟨?_, ?_⟩ nofun (fun heq => heq.elim nofun nofun) nofun
    · obtain ⟨c, htask⟩ := task_of_activation hfor (.inr (.inl rfl))
      rw [htask]
      rfl
    · rw [lookup_upsert, if_neg hne]
    · exact (getD_lookup_upsert _ _ _).trans hallows
    · rw [lookup_upsert, if_pos rfl]
      rfl
  | setOnline =>
    rw [hnext] at hallows hfor
    rw [World.proceed, hnext]
    refine h.goOn_rows hgate (by rw [hnext]; exact ⟨nofun, nofun⟩) _ ?_ (fun key hne => ?_) ?_
      nofun (fun heq => heq.elim nofun nofun) nofun
    · obtain ⟨c, htask⟩ := task_of_activation hfor (.inr (.inr (.inl rfl)))
      rw [htask]
      rfl
    · rw [lookup_setOnline, if_neg hne]
    · obtain ⟨flag, hflag⟩ := Option.isSome_iff_exists.mp hallows.2
      change (setOnline w.rows holder.identity.key true).lookup holder.identity.key = some true
      rw [lookup_setOnline, if_pos rfl, hflag]
      rfl
  | setOffline =>
    have hlate := hheld.late
    rw [hnext] at hallows hfor hlate
    rw [World.proceed, hnext]
    refine h.goOn_rows hgate (by rw [hnext]; exact ⟨nofun, nofun⟩) _ ?_ (fun key hne => ?_) ?_
      (fun _ => hlate rfl) (fun heq => heq.elim nofun nofun) nofun
    · cases holder.task <;> rfl
    · rw [lookup_setOnline, if_neg hne]
    · change Synced ((setOnline w.rows holder.identity.key false).lookup holder.identity.key) _
      rw [lookup_setOnline, if_pos rfl]
      refine Eq.trans ?_ (Eq.symm hallows)
      cases w.rows.lookup holder.identity.key <;> rfl
  | disconnectToken =>
    rw [hnext] at hallows hfor
    rw [World.proceed, hnext]
    refine h.disconnect_step hgate (· == holder.identity.token) ?_ (fun honline => hallows ?_)
      (fun c hc => ?_) ⟨nofun, nofun⟩ (.inr (beq_self_eq_true _)) fun heq => ?_
    · cases htask : holder.task with
      | activation c => rfl
      | logout => rfl
      | close c => rw [htask] at hfor; cases hfor
      | deletion => rw [htask] at hfor; cases hfor
    · obtain ⟨conn, hconn⟩ := Option.isSome_iff_exists.mp honline
      rw [(Option.filter_eq_some_iff.mp hconn).1]
      rfl
    · refine ⟨hc.resolve_right fun heq => ?_, beq_self_eq_true _⟩
      rw [heq] at hfor
      cases hfor
    · rw [hnext] at heq
      cases heq
  | disconnectDevice =>
    rw [hnext] at hallows hfor
    rw [World.proceed, hnext]
    have htask := task_of_deletion hfor (.inr rfl)
    refine h.disconnect_step hgate (fun _ => true) (by rw [htask]; rfl) ?_ (fun c hc => ?_)
      ⟨nofun, nofun⟩ (.inr rfl) fun _ _ => rfl
    · have hnone : (w.manager.device holder.identity.account holder.identity.device).filter
          (fun conn => !(fun _ => true) conn.authToken) = none := by
        rw [Option.filter_eq_none_iff]
        exact fun _ _ => Bool.false_ne_true
      rw [hnone]
      cases hrow : w.rows.lookup holder.identity.key with
      | none => rfl
      | some flag =>
        cases flag with
        | false => rfl
        | true => exact absurd hrow hallows
    · rw [htask] at hc
      exact hc.elim nofun nofun

/-- **The step lemma.** -/
theorem Inv.step (h : w.Inv) {event : Event} (hstep : Step w event w') : w'.Inv := by
  obtain ⟨henabled, rfl⟩ := hstep
  cases event with
  | login account device token =>
    exact h.login account device (Option.isNone_iff_eq_none.mp henabled)
  | expire token => exact h.expire token
  | connect connId identity deviceName forceCloseTx =>
    obtain ⟨hnone, -⟩ := Bool.and_eq_true_iff.mp henabled
    exact h.connect (Option.isNone_iff_eq_none.mp hnone) identity deviceName forceCloseTx
  | startActivation connId =>
    obtain ⟨hgate, hwaiting⟩ := Bool.and_eq_true_iff.mp henabled
    exact h.startActivation (Option.isNone_iff_eq_none.mp hgate) hwaiting
  | startClose connId =>
    obtain ⟨hgate, hrunning⟩ := Bool.and_eq_true_iff.mp henabled
    exact h.startClose (Option.isNone_iff_eq_none.mp hgate) hrunning
  | startLogout identity =>
    exact h.startRevocation (Option.isNone_iff_eq_none.mp henabled) .logout
      (fun _ => ⟨nofun, nofun⟩) identity (.inl rfl) rfl
  | startDeletion account device =>
    exact h.startRevocation (Option.isNone_iff_eq_none.mp henabled) .deletion
      (fun _ => ⟨nofun, nofun⟩) ⟨account, device, ""⟩ (.inr rfl) rfl
  | proceed refused =>
    obtain ⟨holder, hgate⟩ := Option.isSome_iff_exists.mp henabled
    rw [perform, hgate]
    exact h.proceed hgate refused
  | giveUp connId => exact h.giveUp henabled

theorem Inv.run (h : w.Inv) {tr : List Event} (hrun : Run Step w tr w') : w'.Inv :=
  hrun.invariant h fun _ _ _ h hstep => h.step hstep

/-- What holds while the gate is free. -/
structure Projected (w : World) : Prop where
  /-- the stored flag of a device says whether it has an active connection -/
  online : w.gate = none → ∀ account device online,
    w.rows.lookup (account, device) = some online →
    online = w.manager.isDeviceOnline account device
  /-- a device with an active connection is stored -/
  stored : w.gate = none → ∀ account device,
    w.manager.isDeviceOnline account device = true →
    w.rows.lookup (account, device) = some true
  /-- no active connection has a revoked token -/
  revoked : w.gate = none → ∀ account device conn,
    w.manager.device account device = some conn → conn.authToken ∉ w.revoked
  /-- a connection whose set-up was refused is neither pending nor active -/
  refused : ∀ connId, w.isIn connId .refused = true → ¬w.manager.Known connId

theorem projected_of_run {tr : List Event} (hrun : Run Step new tr w) : w.Projected := by
  have h := inv_new.run hrun
  refine ⟨fun hgate account device online hrow => ?_, fun hgate account device honline => ?_,
    fun hgate account device conn hconn => h.clean_of_free hgate hconn, fun connId hrefused => ?_⟩
  · have hsynced := h.synced hgate account device
    rw [hrow] at hsynced
    rw [isDeviceOnline_eq]
    exact hsynced
  · rw [isDeviceOnline_eq] at honline
    exact (h.synced hgate account device).covered honline
  · obtain ⟨identity, hlookup⟩ := exists_of_isIn hrefused
    exact not_known_of_maps (h.not_pending hlookup ⟨nofun, nofun⟩)
      (h.not_active hlookup ⟨nofun, nofun⟩)

end World

/-- **The directory**: consistent after every run of its operations, and, after every run of the
tasks that use it, projected onto the stored flags whenever the gate is free. -/
theorem directory_consistent_projected :
    (∀ tr w, Run Directory.Step .new tr w → w.Consistent) ∧
      ∀ tr w, Run World.Step .new tr w → w.Projected :=
  ⟨fun _ _ hrun => Directory.consistent_of_run hrun, fun _ _ hrun => World.projected_of_run hrun⟩

/-! ## Scripts -/

/-- Performs operations one after the other. -/
def Directory.performAll (w : Directory) : List Operation → List (Operation × Answer) × Directory
  | [] => ([], w)
  | operation :: operations =>
    let outcome := w.perform operation
    let rest := outcome.2.performAll operations
    ((operation, outcome.1) :: rest.1, rest.2)

/-- The test whether operations can be performed one after the other. -/
def Directory.admitsAll (w : Directory) : List Operation → Bool
  | [] => true
  | operation :: operations => w.admits operation && (w.perform operation).2.admitsAll operations

theorem Directory.run_performAll {w : Directory} {script : List Operation}
    (h : w.admitsAll script = true) :
    Run Step w (w.performAll script).1 (w.performAll script).2 := by
  induction script generalizing w with
  | nil => exact .refl
  | cons operation script ih =>
    rw [admitsAll, Bool.and_eq_true] at h
    exact (ih h.2).cons ⟨h.1, rfl⟩

/-- The test whether events can happen one after the other. -/
def World.admitsAll (w : World) : List Event → Bool
  | [] => true
  | event :: events => w.enabled event && (w.perform event).admitsAll events

theorem World.run_perform {w : World} {script : List Event} (h : w.admitsAll script = true) :
    Run Step w script (script.foldl perform w) := by
  induction script generalizing w with
  | nil => exact .refl
  | cons event script ih =>
    rw [admitsAll, Bool.and_eq_true] at h
    exact (ih h.2).cons ⟨h.1, rfl⟩

/-- A device reconnects, and its old connection closes late; then it logs out. -/
theorem directory_consistent_projected_after_reconnect :
    (Directory.performAll .new [
      .registerPending "user" "device" "token" "name" 1 10,
      .activatePending "user" "device" "token" 1 false,
      .registerPending "user" "device" "other" "name" 2 20,
      .activatePending "user" "device" "other" 2 false,
      .unregister 1,
      .disconnectDeviceIfToken "user" "device" "other"]).2.Consistent ∧
    (([.login "user" "device" "token", .login "user" "device" "other",
      .connect 1 ⟨"user", "device", "token"⟩ "name" 10, .startActivation 1, .proceed false,
      .proceed false, .proceed false, .proceed false, .proceed false,
      .connect 2 ⟨"user", "device", "other"⟩ "name" 20, .startActivation 2, .proceed false,
      .proceed false, .proceed false, .proceed false, .proceed false,
      .startClose 1, .proceed false, .proceed false, .proceed false,
      .startLogout ⟨"user", "device", "other"⟩, .proceed false, .proceed false, .proceed false,
      .proceed false, .proceed false, .proceed false] : List Event).foldl World.perform
        .new).Projected :=
  ⟨directory_consistent_projected.1 _ _ (Directory.run_performAll (by decide +kernel)),
    directory_consistent_projected.2 _ _ (World.run_perform (by decide +kernel))⟩

end DeviceDirectory

end OpenBitFun
