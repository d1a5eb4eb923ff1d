import OpenBitFun.DeviceDirectory

/-!
# The stored online flags

The directory together with the database and the tasks that change both: setting a connection up
(`presence.rs`), its close handler, a logout and the deletion of a device (`device_lifecycle.rs`,
`routes/auth.rs`, `routes/devices.rs`). All of them change ownership only while they hold one gate,
and each piece of work between two database calls is a step (`GateStep`). Beside the gate,
connections register, devices log in, tokens expire, and a set-up that was refused unregisters.

While a task holds the gate, the flag of its device and the ownership may differ in ways that
depend on how far the task has come (`GateStep.Allows`); when it gives the gate back they agree.
-/

namespace OpenBitFun

namespace DeviceDirectory

/-! ## Tasks -/

/-- `Identity`, as far as the directory reads it. -/
structure Identity where
  account : String
  device : String
  token : String
  deriving DecidableEq, Repr

/-- The device of an identity. -/
def Identity.key (identity : Identity) : String × String := (identity.account, identity.device)

/-- How far a connection has come. -/
inductive Phase where
  /-- registered, before its set-up gets the gate -/
  | waiting
  | activating
  /-- not activated, before it unregisters -/
  | refused
  | running
  | closing
  | gone
  deriving DecidableEq, Repr

/-- A connection of an identity. -/
structure Connection where
  identity : Identity
  phase : Phase
  deriving DecidableEq, Repr

/-- What the gate is held for. -/
inductive Task where
  | activation (connId : ConnId)
  | close (connId : ConnId)
  | logout
  | deletion
  deriving DecidableEq, Repr

/-- What the holder of the gate does next. -/
inductive GateStep where
  /-- the first check of the token in `activate_pending_device_if_authorized` -/
  | checkFirst
  | upsert
  | setOnline
  /-- the second check, in `complete_pending_device_activation_if_authorized` -/
  | checkSecond
  | promote
  /-- the close handler -/
  | unregister
  /-- the check of the token in `logout` -/
  | checkToken
  | revoke
  | disconnectToken
  /-- `delete_for_user` -/
  | deleteRow
  | disconnectDevice
  /-- the read of the directory in `project_device_offline_if_unowned` -/
  | project
  | setOffline
  | release
  deriving DecidableEq, Repr

/-- The holder of the gate. -/
structure Holder where
  task : Task
  identity : Identity
  next : GateStep
  deriving DecidableEq, Repr

/-- The directory, the rows of devices with their online flags, the device tokens and the tasks.
Which device a token was issued for and which tokens were revoked is logged. -/
structure World where
  manager : DeviceManager
  rows : AssocMap (String × String) Bool
  tokens : AssocMap String (String × String)
  issued : AssocMap String (String × String)
  revoked : List String
  connections : AssocMap ConnId Connection
  gate : Option Holder

/-- What happens. -/
inductive Event where
  | login (account device token : String)
  | expire (token : String)
  | connect (connId : ConnId) (identity : Identity) (deviceName : String) (forceCloseTx : ℕ)
  | startActivation (connId : ConnId)
  | startClose (connId : ConnId)
  | startLogout (identity : Identity)
  | startDeletion (account device : String)
  /-- the next step of the holder of the gate -/
  | proceed (refused : Bool)
  | giveUp (connId : ConnId)
  deriving DecidableEq

namespace World

/-- Nothing is stored and nobody is connected. -/
def new : World := ⟨.new, ∅, ∅, ∅, [], ∅, none⟩

/-- The token is a device token of the identity (`registered_device_token_is_current`). -/
def current (w : World) (identity : Identity) : Bool :=
  w.tokens.lookup identity.token == some identity.key

/-- The row of a device is there, and an existing one keeps its flag (`DeviceRow::upsert`). -/
def upsert (rows : AssocMap (String × String) Bool) (key : String × String) :
    AssocMap (String × String) Bool :=
  match rows.lookup key with
  | none => rows.insert key false
  | some _ => rows

/-- `DeviceRow::set_online`. -/
def setOnline (rows : AssocMap (String × String) Bool) (key : String × String) (online : Bool) :
    AssocMap (String × String) Bool :=
  rows.modify key fun _ => online

/-- A connection has come to another phase. -/
def moveTo (w : World) (connId : ConnId) (phase : Phase) : AssocMap ConnId Connection :=
  w.connections.modify connId fun connection => { connection with phase := phase }

/-- The holder of the gate goes on. -/
def goOn (w : World) (holder : Holder) (next : GateStep) : World :=
  { w with gate := some { holder with next := next } }

/-- The connections after their task gave the gate back. -/
def released (w : World) : Task → AssocMap ConnId Connection
  | .activation connId => w.moveTo connId .refused
  | .close connId => w.moveTo connId .gone
  | _ => w.connections

/-- The next step of the holder of the gate. -/
def proceed (w : World) (holder : Holder) (refused : Bool) : World :=
  let identity := holder.identity
  match holder.next with
  | .checkFirst => w.goOn holder (if w.current identity then .upsert else .disconnectToken)
  | .upsert => { w with rows := upsert w.rows identity.key }.goOn holder .setOnline
  | .setOnline => { w with rows := setOnline w.rows identity.key true }.goOn holder .checkSecond
  | .checkSecond => w.goOn holder (if w.current identity then .promote else .disconnectToken)
  | .promote =>
    match holder.task with
    | .activation connId =>
      let outcome := w.manager.activatePending identity.account identity.device identity.token
        connId refused
      if outcome.1 then
        { w with manager := outcome.2, connections := w.moveTo connId .running, gate := none }
      else { w with manager := outcome.2 }.goOn holder .project
    | _ => w
  | .unregister =>
    match holder.task with
    | .close connId => { w with manager := (w.manager.unregister connId).2 }.goOn holder .project
    | _ => w
  | .checkToken => w.goOn holder (if w.current identity then .revoke else .release)
  | .revoke =>
    { w with
      tokens := w.tokens.erase identity.token
      revoked := w.revoked ++ [identity.token] }.goOn holder .disconnectToken
  | .disconnectToken =>
    { w with
      manager := (w.manager.disconnectDeviceIfToken identity.account identity.device
        identity.token).2 }.goOn holder .project
  | .deleteRow =>
    { w with
      rows := w.rows.erase identity.key
      tokens := w.tokens.retain (· != identity.key)
      revoked := w.revoked ++
        w.tokens.keys.filter fun token => w.tokens.lookup token == some identity.key }.goOn holder
      (if (w.rows.lookup identity.key).isSome then .disconnectDevice else .release)
  | .disconnectDevice =>
    { w with
      manager := (w.manager.disconnectDevice identity.account identity.device).2 }.goOn holder
      .release
  | .project =>
    w.goOn holder
      (if w.manager.isDeviceOnline identity.account identity.device then .release
      else .setOffline)
  | .setOffline => { w with rows := setOnline w.rows identity.key false }.goOn holder .release
  | .release => { w with connections := w.released holder.task, gate := none }

/-- What an event does. -/
def perform (w : World) : Event → World
  | .login account device token =>
    { w with
      rows := upsert w.rows (account, device)
      tokens := w.tokens.insert token (account, device)
      issued := w.issued.insert token (account, device) }
  | .expire token => { w with tokens := w.tokens.erase token }
  | .connect connId identity deviceName forceCloseTx =>
    { w with
      manager := w.manager.registerPending identity.account identity.device identity.token
        deviceName connId forceCloseTx
      connections := w.connections.insert connId ⟨identity, .waiting⟩ }
  | .startActivation connId =>
    match w.connections.lookup connId with
    | none => w
    | some connection =>
      { w with
        connections := w.moveTo connId .activating
        gate := some ⟨.activation connId, connection.identity, .checkFirst⟩ }
  | .startClose connId =>
    match w.connections.lookup connId with
    | none => w
    | some connection =>
      { w with
        connections := w.moveTo connId .closing
        gate := some ⟨.close connId, connection.identity, .unregister⟩ }
  | .startLogout identity => { w with gate := some ⟨.logout, identity, .checkToken⟩ }
  | .startDeletion account device =>
    { w with gate := some ⟨.deletion, ⟨account, device, ""⟩, .deleteRow⟩ }
  | .proceed refused =>
    match w.gate with
    | none => w
    | some holder => w.proceed holder refused
  | .giveUp connId =>
    { w with
      manager := (w.manager.unregister connId).2
      connections := w.moveTo connId .gone }

/-- A connection is in a phase. -/
def isIn (w : World) (connId : ConnId) (phase : Phase) : Bool :=
  (w.connections.lookup connId).any (·.phase == phase)

/-- When an event can happen: tokens and connection ids are new, and a connection is set up for a
device that has a row. -/
def enabled (w : World) : Event → Bool
  | .login _ _ token => (w.issued.lookup token).isNone
  | .expire _ => true
  | .connect connId identity _ _ =>
    (w.connections.lookup connId).isNone && (w.rows.lookup identity.key).isSome
  | .startActivation connId => w.gate.isNone && w.isIn connId .waiting
  | .startClose connId => w.gate.isNone && w.isIn connId .running
  | .startLogout _ => w.gate.isNone
  | .startDeletion _ _ => w.gate.isNone
  | .proceed _ => w.gate.isSome
  | .giveUp connId => w.isIn connId .refused

/-- One event. -/
def Step (w : World) (event : Event) (w' : World) : Prop :=
  w.enabled event = true ∧ w.perform event = w'

end World

/-! ## What holds while the gate is held -/

/-- The flag of a device that has a row says whether the device is owned, and a device without a
row is not. -/
def Synced (row : Option Bool) (online : Bool) : Prop := row.getD false = online

/-- A device that is owned has a row that says so. -/
def Covered (row : Option Bool) (online : Bool) : Prop := online = true → row = some true

/-- How row and ownership of the holder's device are related before a step. -/
def GateStep.Allows : GateStep → Option Bool → Bool → Prop
  | .setOnline, row, online => Synced row online ∧ row.isSome
  | .checkSecond, row, _ => row = some true
  | .promote, row, _ => row = some true
  | .disconnectToken, row, online => Covered row online
  | .project, row, online => Covered row online
  | .setOffline, _, online => online = false
  | .disconnectDevice, row, _ => row ≠ some true
  | _, row, online => Synced row online

theorem Synced.covered {row : Option Bool} {online : Bool} (h : Synced row online) :
    Covered row online := by
  rintro rfl
  cases row with
  | none => cases h
  | some flag => exact congrArg some h

/-- The steps after which a task only projects and gives the gate back. -/
def GateStep.isLate : GateStep → Bool
  | .project | .setOffline | .release => true
  | _ => false

/-- The steps of each task. -/
def GateStep.isFor : GateStep → Task → Bool
  | .checkFirst, .activation _ | .upsert, .activation _ | .setOnline, .activation _
  | .checkSecond, .activation _ | .promote, .activation _ => true
  | .unregister, .close _ => true
  | .checkToken, .logout | .revoke, .logout => true
  | .deleteRow, .deletion | .disconnectDevice, .deletion => true
  | .disconnectToken, .activation _ | .disconnectToken, .logout => true
  | .project, .activation _ | .project, .close _ | .project, .logout => true
  | .setOffline, .activation _ | .setOffline, .close _ | .setOffline, .logout => true
  | .release, _ => true
  | _, _ => false

namespace World

open DeviceManager

variable {w w' : World} {holder : Holder} {c : ConnId}

/-- What holds while a task holds the gate. -/
structure Held (w : World) (holder : Holder) : Prop where
  isFor : holder.next.isFor holder.task = true
  allows : holder.next.Allows (w.rows.lookup holder.identity.key)
    (w.manager.device holder.identity.account holder.identity.device).isSome
  activating : ∀ c, holder.task = .activation c →
    w.connections.lookup c = some ⟨holder.identity, .activating⟩
  closing : ∀ c, holder.task = .close c →
    w.connections.lookup c = some ⟨holder.identity, .closing⟩
  late : holder.next.isLate = true → ∀ c, holder.task = .activation c ∨ holder.task = .close c →
    ¬w.manager.Known c
  issued : holder.next = .promote ∨ holder.next = .revoke →
    w.issued.lookup holder.identity.token = some holder.identity.key
  notRevoked : holder.next = .promote → holder.identity.token ∉ w.revoked

/-- The holder of the gate has revoked a token, and has not closed its connection yet. -/
def ClosesNext (holder : Holder) (account device token : String) : Prop :=
  holder.identity.key = (account, device) ∧
    (holder.next = .disconnectToken ∧ holder.identity.token = token ∨
      holder.next = .disconnectDevice)

/-- **The invariant of the world.** -/
structure Inv (w : World) : Prop where
  manager : w.manager.Inv
  /-- the flags of all devices but the holder's are right -/
  free : ∀ account device, (∀ holder, w.gate = some holder →
      holder.identity.key ≠ (account, device)) →
    Synced (w.rows.lookup (account, device)) (w.manager.device account device).isSome
  held : ∀ holder, w.gate = some holder → w.Held holder
  /-- pending connections are being set up -/
  pending : ∀ c p, w.manager.pendingConnections.lookup c = some p →
    ∃ connection, w.connections.lookup c = some connection ∧
      connection.identity = ⟨p.userId, p.deviceId, p.authToken⟩ ∧
      (connection.phase = .waiting ∨ connection.phase = .activating)
  /-- active connections run, or are being closed -/
  active : ∀ account device conn, w.manager.device account device = some conn →
    ∃ connection, w.connections.lookup conn.connId = some connection ∧
      connection.identity.key = (account, device) ∧
      (connection.phase = .running ∨ connection.phase = .closing)
  /-- tokens that are stored were issued, and are not revoked -/
  tokens : ∀ token key, w.tokens.lookup token = some key →
    w.issued.lookup token = some key ∧ token ∉ w.revoked
  revoked : ∀ token ∈ w.revoked, (w.issued.lookup token).isSome
  /-- an active connection has a token of its device -/
  issued : ∀ account device conn, w.manager.device account device = some conn →
    w.issued.lookup conn.authToken = some (account, device)
  /-- which is not revoked, unless it is about to be closed -/
  clean : ∀ account device conn, w.manager.device account device = some conn →
    conn.authToken ∉ w.revoked ∨
    ∃ holder, w.gate = some holder ∧ ClosesNext holder account device conn.authToken

theorem inv_new : Inv new where
  manager := DeviceManager.inv_new
  free := fun _ _ _ => rfl
  held := nofun
  pending := nofun
  active := nofun
  tokens := nofun
  revoked := nofun
  issued := nofun
  clean := nofun

theorem key_ne_iff {identity : Identity} {account device : String} :
    identity.key ≠ (account, device) ↔
      ¬(account = identity.account ∧ device = identity.device) := by
  rw [Identity.key, Ne, Prod.mk.injEq, eq_comm, @eq_comm _ identity.device]

/-- A connection that is not being set up is not pending. -/
theorem Inv.not_pending (h : w.Inv) {connection : Connection}
    (hlookup : w.connections.lookup c = some connection)
    (hphase : connection.phase ≠ .waiting ∧ connection.phase ≠ .activating) :
    w.manager.pendingConnections.lookup c = none := by
  rw [Option.eq_none_iff_forall_ne_some]
  intro p hp
  obtain ⟨connection', hlookup', -, hphase'⟩ := h.pending c p hp
  rw [hlookup, Option.some_inj] at hlookup'
  rw [← hlookup'] at hphase'
  exact hphase'.elim hphase.1 hphase.2

/-- A connection that neither runs nor is being closed is not active. -/
theorem Inv.not_active (h : w.Inv) {connection : Connection}
    (hlookup : w.connections.lookup c = some connection)
    (hphase : connection.phase ≠ .running ∧ connection.phase ≠ .closing) :
    w.manager.connToDevice.lookup c = none := by
  rw [Option.eq_none_iff_forall_ne_some]
  intro dev hdev
  obtain ⟨conn, hconn, rfl⟩ := (h.manager.inverse _ _ _).mp hdev
  obtain ⟨connection', hlookup', -, hphase'⟩ := h.active _ _ conn hconn
  rw [hlookup, Option.some_inj] at hlookup'
  rw [← hlookup'] at hphase'
  exact hphase'.elim hphase.1 hphase.2

/-- Connections that are not there are unknown. -/
theorem Inv.not_known_of_none (h : w.Inv) (hnone : w.connections.lookup c = none) :
    ¬w.manager.Known c := by
  rintro (hpending | hactive)
  · obtain ⟨p, hp⟩ := Option.isSome_iff_exists.mp hpending
    obtain ⟨connection, hlookup, -⟩ := h.pending c p hp
    rw [hnone] at hlookup
    cases hlookup
  · obtain ⟨dev, hdev⟩ := Option.isSome_iff_exists.mp hactive
    obtain ⟨conn, hconn, rfl⟩ := (h.manager.inverse _ _ _).mp hdev
    obtain ⟨connection, hlookup, -⟩ := h.active _ _ conn hconn
    rw [hnone] at hlookup
    cases hlookup

/-! ## Rows -/

theorem lookup_upsert (rows : AssocMap (String × String) Bool) (key key' : String × String) :
    (upsert rows key).lookup key' =
      if key' = key then some ((rows.lookup key).getD false) else rows.lookup key' := by
  rw [upsert]
  cases hrow : rows.lookup key with
  | none => exact AssocMap.lookup_insert _ _ _ _
  | some flag =>
    dsimp only
    split
    · rename_i heq
      rw [heq]
      exact hrow
    · rfl

/-- A row that is inserted says that its device is offline, as no row does. -/
theorem getD_lookup_upsert (rows : AssocMap (String × String) Bool) (key key' : String × String) :
    ((upsert rows key).lookup key').getD false = (rows.lookup key').getD false := by
  rw [lookup_upsert]
  split
  · rename_i heq
    rw [heq]
    rfl
  · rfl

theorem lookup_upsert_eq_true (rows : AssocMap (String × String) Bool)
    (key key' : String × String) :
    (upsert rows key).lookup key' = some true ↔ rows.lookup key' = some true := by
  rw [lookup_upsert]
  split
  · rename_i heq
    rw [heq]
    cases rows.lookup key with
    | none => exact iff_of_false nofun nofun
    | some flag => exact Iff.rfl
  · exact Iff.rfl

theorem isSome_lookup_upsert {rows : AssocMap (String × String) Bool} (key : String × String)
    {key' : String × String} (h : (rows.lookup key').isSome) :
    ((upsert rows key).lookup key').isSome := by
  rw [lookup_upsert]
  split
  · rfl
  · exact h

theorem allows_upsert {next : GateStep} {rows : AssocMap (String × String) Bool}
    {key : String × String} {online : Bool} (h : next.Allows (rows.lookup key) online)
    (key' : String × String) : next.Allows ((upsert rows key').lookup key) online := by
  have hsynced : Synced (rows.lookup key) online → Synced ((upsert rows key').lookup key) online :=
    fun h => (getD_lookup_upsert _ _ _).trans h
  have hcovered : Covered (rows.lookup key) online →
      Covered ((upsert rows key').lookup key) online :=
    fun h honline => (lookup_upsert_eq_true _ _ _).mpr (h honline)
  cases next with
  | setOnline => exact ⟨hsynced h.1, isSome_lookup_upsert key' h.2⟩
  | checkSecond => exact (lookup_upsert_eq_true _ _ _).mpr h
  | promote => exact (lookup_upsert_eq_true _ _ _).mpr h
  | disconnectToken => exact hcovered h
  | project => exact hcovered h
  | setOffline => exact h
  | disconnectDevice => exact fun htrue => h ((lookup_upsert_eq_true _ _ _).mp htrue)
  | checkFirst => exact hsynced h
  | upsert => exact hsynced h
  | unregister => exact hsynced h
  | checkToken => exact hsynced h
  | revoke => exact hsynced h
  | deleteRow => exact hsynced h
  | release => exact hsynced h

/-! ## Events beside the gate -/

theorem Inv.login (h : w.Inv) (account device : String) {token : String}
    (hnew : w.issued.lookup token = none) : (w.perform (.login account device token)).Inv := by
  have hissued : ∀ token' key, w.issued.lookup token' = some key →
      (w.issued.insert token (account, device)).lookup token' = some key := by
    intro token' key hlookup
    rw [AssocMap.lookup_insert, if_neg]
    · exact hlookup
    · rintro rfl
      rw [hnew] at hlookup
      cases hlookup
  have hrevoked : token ∉ w.revoked := by
    intro hmem
    have hsome := h.revoked token hmem
    rw [hnew] at hsome
    cases hsome
  refine ⟨h.manager, fun account' device' hother => ?_, fun holder hgate => ?_, h.pending,
    h.active, fun token' key hlookup => ?_, fun token' hmem => ?_,
    fun account' device' conn hconn => hissued _ _ (h.issued _ _ _ hconn), h.clean⟩
  · exact (getD_lookup_upsert _ _ _).trans (h.free account' device' hother)
  · have hheld := h.held holder hgate
    exact ⟨hheld.isFor, allows_upsert hheld.allows _, hheld.activating, hheld.closing, hheld.late,
      fun hnext => hissued _ _ (hheld.issued hnext), hheld.notRevoked⟩
  · change (w.tokens.insert token (account, device)).lookup token' = some key at hlookup
    rw [AssocMap.lookup_insert] at hlookup
    split at hlookup
    · rename_i heq
      cases hlookup
      rw [heq]
      exact ⟨(AssocMap.lookup_insert _ _ _ _).trans (if_pos rfl), hrevoked⟩
    · obtain ⟨hlookup', hnot⟩ := h.tokens token' key hlookup
      exact ⟨hissued _ _ hlookup', hnot⟩
  · obtain ⟨key, hkey⟩ := Option.isSome_iff_exists.mp (h.revoked token' hmem)
    rw [perform, hissued token' key hkey]
    rfl

theorem Inv.expire (h : w.Inv) (token : String) : (w.perform (.expire token)).Inv := by
  refine ⟨h.manager, h.free, fun holder hgate => ?_, h.pending, h.active,
    fun token' key hlookup => ?_, h.revoked, h.issued, h.clean⟩
  · have hheld := h.held holder hgate
    exact ⟨hheld.isFor, hheld.allows, hheld.activating, hheld.closing, hheld.late, hheld.issued,
      hheld.notRevoked⟩
  · change (w.tokens.erase token).lookup token' = some key at hlookup
    rw [AssocMap.lookup_erase] at hlookup
    split at hlookup
    · cases hlookup
    · exact h.tokens token' key hlookup

theorem Inv.connect (h : w.Inv) {connId : ConnId} (hnone : w.connections.lookup connId = none)
    (identity : Identity) (deviceName : String) (forceCloseTx : ℕ) :
    (w.perform (.connect connId identity deviceName forceCloseTx)).Inv := by
  have hfresh := h.not_known_of_none hnone
  have hlookup : ∀ c, (w.connections.insert connId ⟨identity, .waiting⟩).lookup c =
      if c = connId then some ⟨identity, .waiting⟩ else w.connections.lookup c := fun c =>
    AssocMap.lookup_insert _ _ _ _
  have hkept : ∀ c connection, w.connections.lookup c = some connection →
      (w.connections.insert connId ⟨identity, .waiting⟩).lookup c = some connection := by
    intro c connection hc
    rw [hlookup, if_neg]
    · exact hc
    · rintro rfl
      rw [hnone] at hc
      cases hc
  refine ⟨h.manager.registerPending hfresh _ _ _ _ _, h.free, fun holder hgate => ?_,
    fun c p hp => ?_, fun account device conn hconn => ?_, h.tokens, h.revoked, h.issued, h.clean⟩
  · have hheld := h.held holder hgate
    refine ⟨hheld.isFor, hheld.allows, fun c htask => hkept c _ (hheld.activating c htask),
      fun c htask => hkept c _ (hheld.closing c htask), fun hlate c htask hknown => ?_,
      hheld.issued, hheld.notRevoked⟩
    rcases known_registerPending _ _ _ _ _ hknown with rfl | hknown
    · rcases htask with htask | htask
      · rw [hheld.activating c htask] at hnone
        cases hnone
      · rw [hheld.closing c htask] at hnone
        cases hnone
    · exact hheld.late hlate c htask hknown
  · change (w.manager.pendingConnections.insert connId _).lookup c = some p at hp
    change ∃ connection, (w.connections.insert connId ⟨identity, .waiting⟩).lookup c = _ ∧ _
    rw [AssocMap.lookup_insert] at hp
    rw [hlookup]
    split at hp
    · rename_i heq
      cases hp
      rw [if_pos heq]
      exact ⟨_, rfl, rfl, .inl rfl⟩
    · rename_i hne
      rw [if_neg hne]
      exact h.pending c p hp
  · obtain ⟨connection, hconnection, hmatches⟩ := h.active account device conn hconn
    exact ⟨connection, hkept _ _ hconnection, hmatches⟩

/-- The connections after one has come to another phase. -/
theorem lookup_moveTo (w : World) (connId c : ConnId) (phase : Phase) :
    (w.moveTo connId phase).lookup c =
      if c = connId then (w.connections.lookup connId).map fun connection =>
        { connection with phase := phase }
      else w.connections.lookup c :=
  AssocMap.lookup_modify _ _ _ _

/-- Connections are in the phases in which the manager has them. -/
structure Placed (w : World) (connections : AssocMap ConnId Connection) : Prop where
  pending : ∀ c p, w.manager.pendingConnections.lookup c = some p →
    ∃ connection, connections.lookup c = some connection ∧
      connection.identity = ⟨p.userId, p.deviceId, p.authToken⟩ ∧
      (connection.phase = .waiting ∨ connection.phase = .activating)
  active : ∀ account device conn, w.manager.device account device = some conn →
    ∃ connection, connections.lookup conn.connId = some connection ∧
      connection.identity.key = (account, device) ∧
      (connection.phase = .running ∨ connection.phase = .closing)

/-- A connection that is unknown, or keeps its kind of phase, comes to another phase. -/
theorem Inv.moveTo (h : w.Inv) (connId : ConnId) (phase : Phase)
    (hpending : w.manager.pendingConnections.lookup connId = none ∨ phase = .waiting ∨
      phase = .activating)
    (hactive : w.manager.connToDevice.lookup connId = none ∨ phase = .running ∨
      phase = .closing) : w.Placed (w.moveTo connId phase) := by
  refine ⟨fun c p hp => ?_, fun account device conn hconn => ?_⟩
  · obtain ⟨connection, hlookup, hidentity, hphase⟩ := h.pending c p hp
    rw [lookup_moveTo]
    by_cases hc : c = connId
    · rw [← hc, if_pos rfl, hlookup]
      refine ⟨_, rfl, hidentity, ?_⟩
      rw [← hc, hp] at hpending
      exact hpending.resolve_left nofun
    · rw [if_neg hc]
      exact ⟨connection, hlookup, hidentity, hphase⟩
  · obtain ⟨connection, hlookup, hkey, hphase⟩ := h.active account device conn hconn
    rw [lookup_moveTo]
    by_cases hc : conn.connId = connId
    · rw [← hc, if_pos rfl, hlookup]
      refine ⟨_, rfl, hkey, ?_⟩
      rw [← hc, h.manager.conn_of_device hconn] at hactive
      exact hactive.resolve_left nofun
    · rw [if_neg hc]
      exact ⟨connection, hlookup, hkey, hphase⟩

theorem exists_of_isIn {connId : ConnId} {phase : Phase} (h : w.isIn connId phase = true) :
    ∃ identity, w.connections.lookup connId = some ⟨identity, phase⟩ := by
  rw [isIn] at h
  cases hlookup : w.connections.lookup connId with
  | none =>
    rw [hlookup] at h
    cases h
  | some connection =>
    rw [hlookup, Option.any_some, beq_iff_eq] at h
    exact ⟨connection.identity, congrArg some (by rw [← h])⟩

theorem Inv.giveUp (h : w.Inv) {connId : ConnId} (hrefused : w.isIn connId .refused = true) :
    (w.perform (.giveUp connId)).Inv := by
  obtain ⟨identity, hlookup⟩ := exists_of_isIn hrefused
  have hnotPending := h.not_pending hlookup ⟨by simp, by simp⟩
  have hnotActive := h.not_active hlookup ⟨by simp, by simp⟩
  have hnot : ¬w.manager.Known connId := by
    rw [Known, hnotPending, hnotActive]
    simp
  rw [perform, h.manager.unregister_of_not_known hnot]
  have hplaced := h.moveTo connId .gone (.inl hnotPending) (.inl hnotActive)
  refine ⟨h.manager, h.free, fun holder hgate => ?_, hplaced.pending, hplaced.active, h.tokens,
    h.revoked, h.issued, h.clean⟩
  have hheld := h.held holder hgate
  have hkept : ∀ c phase, phase ≠ .refused →
      w.connections.lookup c = some ⟨holder.identity, phase⟩ →
      (w.moveTo connId .gone).lookup c = some ⟨holder.identity, phase⟩ := by
    intro c phase hphase hc
    rw [lookup_moveTo, if_neg]
    · exact hc
    · rintro rfl
      rw [hlookup, Option.some_inj] at hc
      exact hphase (congrArg Connection.phase hc).symm
  exact ⟨hheld.isFor, hheld.allows, fun c htask => hkept c _ (by simp) (hheld.activating c htask),
    fun c htask => hkept c _ (by simp) (hheld.closing c htask), hheld.late, hheld.issued,
    hheld.notRevoked⟩

end World

end DeviceDirectory

end OpenBitFun
