import Mathlib
import OpenBitFun.AssocMap
import OpenBitFun.Run

/-!
# The device directory of the relay

Which connection owns which device (`device_manager.rs`). Every operation holds one lock from
beginning to end. A connection is pending until its token was checked a second time; then it is
active, and the directory maps its device to it and it to its device. The directory also closes
connections: it keeps a log here of the force-close channels it has signalled, which the program
does not keep. What is sent through a connection's queue is left out; `refused` says that the queue
is closed, or does not take the first message.
-/

namespace OpenBitFun

namespace DeviceDirectory

/-! ## Data -/

/-- `ConnId`. -/
abbrev ConnId := ℕ

/-- `DeviceConn`; a force-close channel is known by a number. -/
structure DeviceConn where
  connId : ConnId
  authToken : String
  deviceName : String
  forceCloseTx : ℕ
  deriving DecidableEq, Repr

/-- `PendingDeviceConn`. -/
structure PendingDeviceConn where
  userId : String
  deviceId : String
  authToken : String
  deviceName : String
  forceCloseTx : ℕ
  deriving DecidableEq, Repr

/-- `DeviceManager`, as far as it is about connections. -/
structure DeviceManager where
  users : AssocMap String (AssocMap String DeviceConn)
  connToDevice : AssocMap ConnId (String × String)
  pendingConnections : AssocMap ConnId PendingDeviceConn
  /-- the force-close channels that were signalled -/
  signals : List ℕ

namespace DeviceManager

/-- `DeviceManager::new`. -/
def new : DeviceManager := ⟨∅, ∅, ∅, []⟩

/-- The active connection of a device. -/
def device (s : DeviceManager) (userId deviceId : String) : Option DeviceConn :=
  (s.users.lookup userId).bind (·.lookup deviceId)

/-- `is_device_online`. -/
def isDeviceOnline (s : DeviceManager) (userId deviceId : String) : Bool :=
  (s.users.lookup userId).any fun devices => (devices.lookup deviceId).isSome

/-! ## Operations -/

/-- `register_pending`. -/
def registerPending (s : DeviceManager) (userId deviceId authToken deviceName : String)
    (connId : ConnId) (forceCloseTx : ℕ) : DeviceManager :=
  { s with
    pendingConnections :=
      s.pendingConnections.insert connId ⟨userId, deviceId, authToken, deviceName, forceCloseTx⟩
    signals :=
      match s.pendingConnections.lookup connId with
      | some previous => s.signals ++ [previous.forceCloseTx]
      | none => s.signals }

/-- The last part of `activate_pending_inner`: the connection takes the device over. -/
def promote (s : DeviceManager) (userId deviceId : String) (connId : ConnId)
    (pending : PendingDeviceConn) : DeviceManager :=
  let entry := (s.users.lookup userId).getD ∅
  let s :=
    match entry.lookup deviceId with
    | some prior =>
      if prior.connId ≠ connId then
        { s with
          connToDevice := s.connToDevice.erase prior.connId
          signals := s.signals ++ [prior.forceCloseTx] }
      else s
    | none => s
  { s with
    users := s.users.insert userId (entry.insert deviceId
      ⟨connId, pending.authToken, pending.deviceName, pending.forceCloseTx⟩)
    connToDevice := s.connToDevice.insert connId (userId, deviceId) }

/-- `activate_pending_inner`. -/
def activatePending (s : DeviceManager) (userId deviceId authToken : String) (connId : ConnId)
    (refused : Bool) : Bool × DeviceManager :=
  match (s.pendingConnections.lookup connId).filter fun pending =>
      pending.userId == userId && pending.deviceId == deviceId &&
        pending.authToken == authToken with
  | none => (false, s)
  | some pending =>
    let s := { s with pendingConnections := s.pendingConnections.erase connId }
    if refused then (false, { s with signals := s.signals ++ [pending.forceCloseTx] })
    else (true, s.promote userId deviceId connId pending)

/-- `unregister`. -/
def unregister (s : DeviceManager) (connId : ConnId) : Option (String × String) × DeviceManager :=
  let removed := s.connToDevice.lookup connId
  let s := { s with connToDevice := s.connToDevice.erase connId }
  let unregisterPending :=
    match s.pendingConnections.lookup connId with
    | some pending =>
      (some (pending.userId, pending.deviceId),
        { s with pendingConnections := s.pendingConnections.erase connId })
    | none => (removed, s)
  match removed with
  | some (userId, deviceId) =>
    match s.users.lookup userId with
    | some devices =>
      if (devices.lookup deviceId).any (·.connId == connId) then
        (some (userId, deviceId),
          { s with users := s.users.insert userId (devices.erase deviceId) })
      else (none, s)
    | none => unregisterPending
  | none => unregisterPending

/-- `disconnect_pending`. -/
def disconnectPending (s : DeviceManager) (connId : ConnId) : Bool × DeviceManager :=
  match s.pendingConnections.lookup connId with
  | none => (false, s)
  | some pending =>
    (true, { s with
      pendingConnections := s.pendingConnections.erase connId
      signals := s.signals ++ [pending.forceCloseTx] })

/-- One turn of the loop that closes pending connections. -/
def disconnectOne (state : Bool × DeviceManager) (connId : ConnId) : Bool × DeviceManager :=
  let outcome := state.2.disconnectPending connId
  (state.1 || outcome.1, outcome.2)

/-- The part about the active connection, if its token passes the test. -/
def disconnectActive (s : DeviceManager) (userId deviceId : String) (test : String → Bool) :
    Bool × DeviceManager :=
  match (s.device userId deviceId).filter fun conn => test conn.authToken with
  | none => (false, s)
  | some conn =>
    (true, { s with
      users := s.users.modify userId (·.erase deviceId)
      connToDevice := s.connToDevice.erase conn.connId
      signals := s.signals ++ [conn.forceCloseTx] })

/-- The pending connections of a device whose token passes the test. -/
def pendingIds (s : DeviceManager) (userId deviceId : String) (test : String → Bool) :
    List ConnId :=
  (s.pendingConnections.iter.filter fun entry =>
    entry.2.userId == userId && entry.2.deviceId == deviceId && test entry.2.authToken).map (·.1)

/-- Closes the connections of a device whose token passes the test. -/
def disconnectWhere (s : DeviceManager) (userId deviceId : String) (test : String → Bool) :
    Bool × DeviceManager :=
  let active := s.disconnectActive userId deviceId test
  (active.2.pendingIds userId deviceId test).foldl disconnectOne active

/-- `disconnect_device`. -/
def disconnectDevice (s : DeviceManager) (userId deviceId : String) : Bool × DeviceManager :=
  s.disconnectWhere userId deviceId fun _ => true

/-- `disconnect_device_if_token`. -/
def disconnectDeviceIfToken (s : DeviceManager) (userId deviceId authToken : String) :
    Bool × DeviceManager :=
  s.disconnectWhere userId deviceId (· == authToken)

/-! ## Looking things up -/

variable {s : DeviceManager} {userId deviceId : String} {connId : ConnId}

theorem isDeviceOnline_eq : s.isDeviceOnline userId deviceId =
    (s.device userId deviceId).isSome := by
  rw [isDeviceOnline, device]
  cases s.users.lookup userId with
  | none => rfl
  | some devices => rfl

/-- The devices after those of one user were changed. -/
theorem device_insert (s : DeviceManager) (userId : String) (devices : AssocMap String DeviceConn)
    (userId' deviceId' : String) :
    ((s.users.insert userId devices).lookup userId').bind (·.lookup deviceId') =
      if userId' = userId then devices.lookup deviceId' else s.device userId' deviceId' := by
  rw [AssocMap.lookup_insert]
  split <;> rfl

theorem lookup_getD_empty (s : DeviceManager) (userId deviceId : String) :
    ((s.users.lookup userId).getD ∅).lookup deviceId = s.device userId deviceId := by
  rw [device]
  cases s.users.lookup userId with
  | none => rfl
  | some devices => rfl

/-- The devices after a connection took one over. -/
theorem device_promote (pending : PendingDeviceConn) (userId' deviceId' : String) :
    (s.promote userId deviceId connId pending).device userId' deviceId' =
      if userId' = userId ∧ deviceId' = deviceId then
        some ⟨connId, pending.authToken, pending.deviceName, pending.forceCloseTx⟩
      else s.device userId' deviceId' := by
  have husers : (s.promote userId deviceId connId pending).users =
      s.users.insert userId (((s.users.lookup userId).getD ∅).insert deviceId
        ⟨connId, pending.authToken, pending.deviceName, pending.forceCloseTx⟩) := by
    rw [promote]
    dsimp only
    split
    · split <;> rfl
    · rfl
  rw [device, husers, device_insert]
  split
  · rename_i huser
    rw [AssocMap.lookup_insert]
    by_cases hdevice : deviceId' = deviceId
    · rw [if_pos hdevice, if_pos ⟨huser, hdevice⟩]
    · rw [if_neg hdevice, if_neg fun h => hdevice h.2, lookup_getD_empty, huser]
  · rename_i huser
    rw [if_neg fun h => huser h.1]

/-- The connections after one took a device over. -/
theorem connToDevice_promote (pending : PendingDeviceConn) (connId' : ConnId) :
    (s.promote userId deviceId connId pending).connToDevice.lookup connId' =
      if connId' = connId then some (userId, deviceId)
      else if (s.device userId deviceId).any (·.connId == connId') then none
      else s.connToDevice.lookup connId' := by
  rw [promote, lookup_getD_empty]
  dsimp only
  rw [AssocMap.lookup_insert]
  split
  · rfl
  · rename_i hne
    cases s.device userId deviceId with
    | none => rfl
    | some prior =>
      rw [Option.any_some]
      dsimp only
      split
      · rw [AssocMap.lookup_erase]
        by_cases hprior : connId' = prior.connId
        · rw [if_pos hprior, if_pos (beq_iff_eq.mpr hprior.symm)]
        · rw [if_neg hprior, if_neg fun h => hprior (eq_of_beq h).symm]
      · rename_i hsame
        rw [not_not] at hsame
        rw [if_neg]
        rw [hsame, beq_iff_eq]
        exact fun h => hne h.symm

theorem device_erase (userId' deviceId' : String) :
    ((s.users.modify userId (·.erase deviceId)).lookup userId').bind (·.lookup deviceId') =
      if userId' = userId ∧ deviceId' = deviceId then none else s.device userId' deviceId' := by
  rw [AssocMap.lookup_modify]
  by_cases huser : userId' = userId
  · rw [if_pos huser, device, huser]
    cases hdevices : s.users.lookup userId with
    | none =>
      rw [Option.map_none, Option.bind_none]
      split <;> rfl
    | some devices =>
      rw [Option.map_some, Option.bind_some, AssocMap.lookup_erase, Option.bind_some]
      simp only [true_and]
  · rw [if_neg huser, if_neg fun h => huser h.1]
    rfl

theorem mem_pendingIds {test : String → Bool} :
    connId ∈ s.pendingIds userId deviceId test ↔
      ∃ p, s.pendingConnections.lookup connId = some p ∧ p.userId = userId ∧
        p.deviceId = deviceId ∧ test p.authToken = true := by
  rw [pendingIds, List.mem_map]
  simp only [List.mem_filter, Bool.and_eq_true, beq_iff_eq]
  refine ⟨?_, ?_⟩
  · rintro ⟨⟨c, p⟩, ⟨hmem, ⟨huser, hdevice⟩, htest⟩, rfl⟩
    exact ⟨p, AssocMap.mem_iter.mp hmem, huser, hdevice, htest⟩
  · rintro ⟨p, hp, huser, hdevice, htest⟩
    exact ⟨(connId, p), ⟨AssocMap.mem_iter.mpr hp, ⟨huser, hdevice⟩, htest⟩, rfl⟩

end DeviceManager

end DeviceDirectory

end OpenBitFun
