import OpenBitFun.DeviceManager

/-!
# One live connection for each device

The two maps of the directory are inverse to each other, and no connection is both pending and
active (`Inv`). Connection ids are drawn from a counter, so an id is registered once: what has left
the directory does not come back. A connection leaves through its own `unregister`, or the
directory signals its force-close channel.
-/

namespace OpenBitFun

open List

namespace DeviceDirectory

namespace DeviceManager

variable {s s' : DeviceManager} {userId deviceId authToken : String} {connId c : ConnId} {x : ℕ}
  {conn : DeviceConn} {pending : PendingDeviceConn}

/-! ## The invariant -/

/-- The directory knows a connection. -/
def Known (s : DeviceManager) (connId : ConnId) : Prop :=
  (s.pendingConnections.lookup connId).isSome ∨ (s.connToDevice.lookup connId).isSome

/-- A connection with its force-close channel is pending or active. -/
def Has (s : DeviceManager) (connId : ConnId) (forceCloseTx : ℕ) : Prop :=
  (∃ pending, s.pendingConnections.lookup connId = some pending ∧
    pending.forceCloseTx = forceCloseTx) ∨
  ∃ userId deviceId conn, s.device userId deviceId = some conn ∧ conn.connId = connId ∧
    conn.forceCloseTx = forceCloseTx

/-- **The invariant of the directory.** -/
structure Inv (s : DeviceManager) : Prop where
  /-- the active map and `conn_to_device` are inverse to each other -/
  inverse : ∀ userId deviceId connId, s.connToDevice.lookup connId = some (userId, deviceId) ↔
    ∃ conn, s.device userId deviceId = some conn ∧ conn.connId = connId
  /-- no connection is both pending and active -/
  disjoint : ∀ connId, (s.pendingConnections.lookup connId).isSome →
    s.connToDevice.lookup connId = none

theorem inv_new : Inv new where
  inverse := fun _ _ _ => iff_of_false nofun fun ⟨_, hconn, _⟩ => nomatch hconn
  disjoint := nofun

theorem Inv.conn_of_device (h : s.Inv) (hconn : s.device userId deviceId = some conn) :
    s.connToDevice.lookup conn.connId = some (userId, deviceId) :=
  (h.inverse _ _ _).mpr ⟨conn, hconn, rfl⟩

/-- What an operation does to the connections there were, `own` apart: they stay, or their
force-close channels are signalled. No connection becomes pending, and the active ones were active
on the same device, or pending for it. -/
structure Keeps (own : Option ConnId) (s s' : DeviceManager) : Prop where
  signals : ∀ x ∈ s.signals, x ∈ s'.signals
  has : ∀ c x, s.Has c x → s'.Has c x ∨ own = some c ∨ x ∈ s'.signals
  pending : ∀ c p, s'.pendingConnections.lookup c = some p → s.pendingConnections.lookup c = some p
  active : ∀ userId deviceId conn, s'.device userId deviceId = some conn →
    s.device userId deviceId = some conn ∨
    ∃ p, s.pendingConnections.lookup conn.connId = some p ∧ p.userId = userId ∧
      p.deviceId = deviceId ∧ p.authToken = conn.authToken

theorem Keeps.refl (own : Option ConnId) (s : DeviceManager) : Keeps own s s :=
  ⟨fun _ hx => hx, fun _ _ hhas => .inl hhas, fun _ _ hpending => hpending,
    fun _ _ _ hactive => .inl hactive⟩

theorem Keeps.known {own : Option ConnId} (h : Keeps own s s') (hinv : s.Inv) (hinv' : s'.Inv)
    (hknown : s'.Known c) : s.Known c := by
  rcases hknown with hpending | hactive
  · obtain ⟨p, hp⟩ := Option.isSome_iff_exists.mp hpending
    exact .inl (h.pending c p hp ▸ rfl)
  · obtain ⟨dev, hdev⟩ := Option.isSome_iff_exists.mp hactive
    obtain ⟨conn, hconn, rfl⟩ := (hinv'.inverse _ _ _).mp hdev
    rcases h.active _ _ conn hconn with hactive | ⟨p, hp, -⟩
    · exact .inr (hinv.conn_of_device hactive ▸ rfl)
    · exact .inl (hp ▸ rfl)

theorem Keeps.trans {own : Option ConnId} {s₁ s₂ s₃ : DeviceManager} (h : Keeps own s₁ s₂)
    (h' : Keeps own s₂ s₃) : Keeps own s₁ s₃ := by
  refine ⟨fun x hx => h'.signals x (h.signals x hx), fun c x hhas => ?_,
    fun c p hp => h.pending c p (h'.pending c p hp), fun userId deviceId conn hconn => ?_⟩
  · rcases h.has c x hhas with hhas | hown | hx
    · exact h'.has c x hhas
    · exact .inr (.inl hown)
    · exact .inr (.inr (h'.signals x hx))
  · rcases h'.active userId deviceId conn hconn with hconn | ⟨p, hp, hmatches⟩
    · exact h.active userId deviceId conn hconn
    · exact .inr ⟨p, h.pending _ p hp, hmatches⟩

/-! ## Registering -/

theorem Inv.registerPending (h : s.Inv) (hfresh : ¬s.Known connId)
    (userId deviceId authToken deviceName : String) (forceCloseTx : ℕ) :
    (s.registerPending userId deviceId authToken deviceName connId forceCloseTx).Inv := by
  rw [Known, not_or, Option.not_isSome_iff_eq_none, Option.not_isSome_iff_eq_none] at hfresh
  refine ⟨h.inverse, fun c hc => ?_⟩
  change s.connToDevice.lookup c = none
  change ((s.pendingConnections.insert connId _).lookup c).isSome at hc
  rw [AssocMap.lookup_insert] at hc
  split at hc
  · rename_i heq
    rw [heq]
    exact hfresh.2
  · exact h.disjoint c hc

theorem has_registerPending (hfresh : ¬s.Known connId)
    (userId deviceId authToken deviceName : String) (forceCloseTx : ℕ) (hhas : s.Has c x) :
    (s.registerPending userId deviceId authToken deviceName connId forceCloseTx).Has c x := by
  rcases hhas with ⟨pending, hpending, hx⟩ | hactive
  · refine .inl ⟨pending, ?_, hx⟩
    refine (AssocMap.lookup_insert _ _ _ _).trans ?_
    rw [if_neg]
    · exact hpending
    · rintro rfl
      exact hfresh (.inl (hpending ▸ rfl))
  · exact .inr hactive

theorem known_registerPending (userId deviceId authToken deviceName : String) (forceCloseTx : ℕ)
    (hknown :
      (s.registerPending userId deviceId authToken deviceName connId forceCloseTx).Known c) :
    c = connId ∨ s.Known c := by
  rcases hknown with hpending | hactive
  · change ((s.pendingConnections.insert connId _).lookup c).isSome at hpending
    rw [AssocMap.lookup_insert] at hpending
    split at hpending
    · rename_i heq
      exact .inl heq
    · exact .inr (.inl hpending)
  · exact .inr (.inr hactive)

theorem signals_registerPending (hfresh : ¬s.Known connId)
    (userId deviceId authToken deviceName : String) (forceCloseTx : ℕ) :
    (s.registerPending userId deviceId authToken deviceName connId forceCloseTx).signals =
      s.signals := by
  rw [Known, not_or, Option.not_isSome_iff_eq_none, Option.not_isSome_iff_eq_none] at hfresh
  rw [DeviceManager.registerPending, hfresh.1]

/-! ## Pending connections that leave -/

theorem Inv.erasePending (h : s.Inv) (connId : ConnId) (signals : List ℕ) :
    Inv { s with
      pendingConnections := s.pendingConnections.erase connId
      signals := signals } := by
  refine ⟨h.inverse, fun c hc => ?_⟩
  change ((s.pendingConnections.erase connId).lookup c).isSome at hc
  rw [AssocMap.lookup_erase] at hc
  split at hc
  · cases hc
  · exact h.disjoint c hc

/-- A pending connection leaves and is told, or leaves by itself. -/
theorem keeps_erasePending {own : Option ConnId} {signals : List ℕ}
    (hsignals : ∀ x ∈ s.signals, x ∈ signals)
    (hown : ∀ pending, s.pendingConnections.lookup connId = some pending →
      own = some connId ∨ pending.forceCloseTx ∈ signals) :
    Keeps own s { s with
      pendingConnections := s.pendingConnections.erase connId
      signals := signals } := by
  refine ⟨hsignals, fun c x hhas => ?_, fun c p hp => ?_, fun _ _ _ hconn => .inl hconn⟩
  · rcases hhas with ⟨pending, hpending, hx⟩ | hactive
    · by_cases heq : c = connId
      · subst heq
        rcases hown pending hpending with hown | hsignal
        · exact .inr (.inl hown)
        · exact .inr (.inr (hx ▸ hsignal))
      · refine .inl (.inl ⟨pending, ?_, hx⟩)
        exact (AssocMap.lookup_erase _ _ _).trans ((if_neg heq).trans hpending)
    · exact .inl (.inr hactive)
  · change (s.pendingConnections.erase connId).lookup c = some p at hp
    rw [AssocMap.lookup_erase] at hp
    split at hp
    · cases hp
    · exact hp

theorem Inv.disconnectPending (h : s.Inv) (connId : ConnId) :
    (s.disconnectPending connId).2.Inv := by
  rw [DeviceManager.disconnectPending]
  split
  · exact h
  · exact h.erasePending _ _

theorem keeps_disconnectPending (own : Option ConnId) (s : DeviceManager) (connId : ConnId) :
    Keeps own s (s.disconnectPending connId).2 := by
  rw [disconnectPending]
  split
  · exact .refl own s
  · rename_i pending hpending
    refine keeps_erasePending (fun x hx => mem_append_left _ hx) fun pending' hpending' => ?_
    rw [hpending, Option.some_inj] at hpending'
    rw [← hpending']
    exact .inr (mem_append_right _ (mem_singleton_self _))

theorem lookup_disconnectPending (s : DeviceManager) (connId c : ConnId) :
    (s.disconnectPending connId).2.pendingConnections.lookup c =
      if c = connId then none else s.pendingConnections.lookup c := by
  rw [disconnectPending]
  cases hlookup : s.pendingConnections.lookup connId with
  | none =>
    change s.pendingConnections.lookup c = _
    by_cases heq : c = connId
    · rw [if_pos heq, heq]
      exact hlookup
    · rw [if_neg heq]
  | some pending => exact AssocMap.lookup_erase _ _ _

theorem device_disconnectPending (s : DeviceManager) (connId : ConnId) :
    (s.disconnectPending connId).2.users = s.users ∧
      (s.disconnectPending connId).2.connToDevice = s.connToDevice := by
  rw [disconnectPending]
  split <;> exact ⟨rfl, rfl⟩

/-- The loop that closes pending connections. -/
theorem foldl_disconnectOne (ids : List ConnId) (state : Bool × DeviceManager) :
    (∀ c, (ids.foldl disconnectOne state).2.pendingConnections.lookup c =
      if c ∈ ids then none else state.2.pendingConnections.lookup c) ∧
    (ids.foldl disconnectOne state).2.users = state.2.users ∧
    (ids.foldl disconnectOne state).2.connToDevice = state.2.connToDevice ∧
    (∀ own, Keeps own state.2 (ids.foldl disconnectOne state).2) ∧
    (state.2.Inv → (ids.foldl disconnectOne state).2.Inv) := by
  induction ids generalizing state with
  | nil => exact ⟨fun _ => rfl, rfl, rfl, fun own => .refl own _, id⟩
  | cons connId ids ih =>
    obtain ⟨hlookup, husers, hconns, hkeeps, hinv⟩ := ih (disconnectOne state connId)
    obtain ⟨husers', hconns'⟩ := device_disconnectPending state.2 connId
    refine ⟨fun c => ?_, husers.trans husers', hconns.trans hconns',
      fun own => (keeps_disconnectPending own _ _).trans (hkeeps own),
      fun h => hinv (h.disconnectPending connId)⟩
    have hfirst : (disconnectOne state connId).2.pendingConnections.lookup c =
      if c = connId then none else state.2.pendingConnections.lookup c :=
      lookup_disconnectPending _ _ _
    rw [foldl_cons, hlookup, hfirst]
    simp only [mem_cons]
    by_cases hmem : c ∈ ids
    · rw [if_pos hmem, if_pos (.inr hmem)]
    · rw [if_neg hmem]
      simp only [hmem, or_false]

/-! ## Active connections that leave -/

/-- The active connection of a device is removed. -/
theorem Inv.eraseActive (h : s.Inv) (hconn : s.device userId deviceId = some conn)
    {users : AssocMap String (AssocMap String DeviceConn)}
    (hdevice : ∀ userId' deviceId', (users.lookup userId').bind (·.lookup deviceId') =
      if userId' = userId ∧ deviceId' = deviceId then none else s.device userId' deviceId')
    (signals : List ℕ) :
    Inv { s with
      users := users
      connToDevice := s.connToDevice.erase conn.connId
      signals := signals } := by
  refine ⟨fun userId' deviceId' c => ?_, fun c hc => ?_⟩
  · change (s.connToDevice.erase conn.connId).lookup c = _ ↔
      ∃ conn', (users.lookup userId').bind (·.lookup deviceId') = some conn' ∧ _
    rw [AssocMap.lookup_erase, hdevice]
    by_cases hdev : userId' = userId ∧ deviceId' = deviceId
    · rw [if_pos hdev]
      refine iff_of_false (fun hlookup => ?_) fun ⟨_, hnone, _⟩ => nomatch hnone
      split at hlookup
      · cases hlookup
      · rename_i hne
        obtain ⟨conn', hconn', rfl⟩ := (h.inverse _ _ _).mp hlookup
        rw [hdev.1, hdev.2, hconn, Option.some_inj] at hconn'
        exact hne (congrArg DeviceConn.connId hconn'.symm)
    · rw [if_neg hdev, ← h.inverse]
      split
      · rename_i heq
        rw [heq, h.conn_of_device hconn]
        refine iff_of_false nofun fun hsame => hdev ?_
        cases hsame
        exact ⟨rfl, rfl⟩
      · exact Iff.rfl
  · change (s.connToDevice.erase conn.connId).lookup c = none
    rw [AssocMap.lookup_erase]
    split
    · rfl
    · exact h.disjoint c hc

/-- An active connection leaves and is told, or leaves by itself. -/
theorem keeps_eraseActive (hconn : s.device userId deviceId = some conn)
    {users : AssocMap String (AssocMap String DeviceConn)}
    (hdevice : ∀ userId' deviceId', (users.lookup userId').bind (·.lookup deviceId') =
      if userId' = userId ∧ deviceId' = deviceId then none else s.device userId' deviceId')
    {own : Option ConnId} {signals : List ℕ} (hsignals : ∀ x ∈ s.signals, x ∈ signals)
    (hown : own = some conn.connId ∨ conn.forceCloseTx ∈ signals) :
    Keeps own s { s with
      users := users
      connToDevice := s.connToDevice.erase conn.connId
      signals := signals } := by
  refine ⟨hsignals, fun c x hhas => ?_, fun _ _ hp => hp,
    fun userId' deviceId' conn' hconn' => .inl ?_⟩
  · rcases hhas with hpending | ⟨userId', deviceId', conn', hconn', rfl, rfl⟩
    · exact .inl (.inl hpending)
    · by_cases hdev : userId' = userId ∧ deviceId' = deviceId
      · rw [hdev.1, hdev.2, hconn, Option.some_inj] at hconn'
        rw [← hconn']
        exact .inr hown
      · refine .inl (.inr ⟨userId', deviceId', conn', ?_, rfl, rfl⟩)
        exact (hdevice userId' deviceId').trans ((if_neg hdev).trans hconn')
  · change (users.lookup userId').bind (·.lookup deviceId') = some conn' at hconn'
    rw [hdevice] at hconn'
    split at hconn'
    · cases hconn'
    · exact hconn'

theorem Inv.disconnectActive (h : s.Inv) (userId deviceId : String) (test : String → Bool) :
    (s.disconnectActive userId deviceId test).2.Inv := by
  rw [DeviceManager.disconnectActive]
  cases hfilter : (s.device userId deviceId).filter fun conn => test conn.authToken with
  | none => exact h
  | some conn =>
    exact h.eraseActive (Option.filter_eq_some_iff.mp hfilter).1 device_erase _

theorem keeps_disconnectActive (own : Option ConnId) (s : DeviceManager)
    (userId deviceId : String) (test : String → Bool) :
    Keeps own s (s.disconnectActive userId deviceId test).2 := by
  rw [disconnectActive]
  cases hfilter : (s.device userId deviceId).filter fun conn => test conn.authToken with
  | none => exact .refl own s
  | some conn =>
    exact keeps_eraseActive (Option.filter_eq_some_iff.mp hfilter).1 device_erase
      (fun x hx => mem_append_left _ hx)
      (.inr (mem_append_right _ (mem_singleton_self _)))

/-- The devices after an active connection was removed, if its token passes the test. -/
theorem device_disconnectActive (test : String → Bool) (userId' deviceId' : String) :
    (s.disconnectActive userId deviceId test).2.device userId' deviceId' =
      if userId' = userId ∧ deviceId' = deviceId then
        (s.device userId deviceId).filter fun conn => !test conn.authToken
      else s.device userId' deviceId' := by
  have hsame : ∀ o, s.device userId deviceId = o → s.device userId' deviceId' =
      if userId' = userId ∧ deviceId' = deviceId then o else s.device userId' deviceId' := by
    intro o ho
    split
    · rename_i hdev
      rw [hdev.1, hdev.2]
      exact ho
    · rfl
  rw [disconnectActive]
  cases hconn : s.device userId deviceId with
  | none => exact hsame none hconn
  | some conn =>
    rw [Option.filter_some, Option.filter_some]
    cases htest : test conn.authToken with
    | true => exact device_erase userId' deviceId'
    | false => exact hsame (some conn) hconn

theorem pending_disconnectActive (test : String → Bool) :
    (s.disconnectActive userId deviceId test).2.pendingConnections = s.pendingConnections := by
  rw [disconnectActive]
  split <;> rfl

/-- The devices after the connections of one were closed. -/
theorem device_disconnectWhere (s : DeviceManager) (userId deviceId : String)
    (test : String → Bool) (userId' deviceId' : String) :
    (s.disconnectWhere userId deviceId test).2.device userId' deviceId' =
      if userId' = userId ∧ deviceId' = deviceId then
        (s.device userId deviceId).filter fun conn => !test conn.authToken
      else s.device userId' deviceId' := by
  obtain ⟨-, husers, -⟩ := foldl_disconnectOne
    ((s.disconnectActive userId deviceId test).2.pendingIds userId deviceId test)
    (s.disconnectActive userId deviceId test)
  rw [← device_disconnectActive]
  exact congrArg (fun users => (AList.lookup userId' users).bind (·.lookup deviceId')) husers

theorem pending_disconnectWhere (test : String → Bool) :
    (s.disconnectWhere userId deviceId test).2.pendingConnections.lookup connId = some pending ↔
      s.pendingConnections.lookup connId = some pending ∧
        ¬(pending.userId = userId ∧ pending.deviceId = deviceId ∧
          test pending.authToken = true) := by
  obtain ⟨hlookup, -⟩ := foldl_disconnectOne
    ((s.disconnectActive userId deviceId test).2.pendingIds userId deviceId test)
    (s.disconnectActive userId deviceId test)
  rw [disconnectWhere, hlookup, pending_disconnectActive]
  split
  · rename_i hmem
    obtain ⟨p, hp, hmatches⟩ := mem_pendingIds.mp hmem
    rw [pending_disconnectActive] at hp
    refine iff_of_false nofun fun ⟨hpending, hnot⟩ => hnot ?_
    rw [hp, Option.some_inj] at hpending
    rw [← hpending]
    exact hmatches
  · rename_i hmem
    refine (and_iff_left_of_imp fun hpending hmatches => hmem ?_).symm
    rw [mem_pendingIds, pending_disconnectActive]
    exact ⟨pending, hpending, hmatches⟩

theorem Inv.disconnectWhere (h : s.Inv) (userId deviceId : String) (test : String → Bool) :
    (s.disconnectWhere userId deviceId test).2.Inv := by
  obtain ⟨-, -, -, -, hinv⟩ := foldl_disconnectOne
    ((s.disconnectActive userId deviceId test).2.pendingIds userId deviceId test)
    (s.disconnectActive userId deviceId test)
  exact hinv (h.disconnectActive userId deviceId test)

theorem keeps_disconnectWhere (own : Option ConnId) (s : DeviceManager)
    (userId deviceId : String) (test : String → Bool) :
    Keeps own s (s.disconnectWhere userId deviceId test).2 := by
  obtain ⟨-, -, -, hkeeps, -⟩ := foldl_disconnectOne
    ((s.disconnectActive userId deviceId test).2.pendingIds userId deviceId test)
    (s.disconnectActive userId deviceId test)
  exact (keeps_disconnectActive own s userId deviceId test).trans (hkeeps own)

/-! ## Taking a device over -/

theorem pending_promote : (s.promote userId deviceId connId pending).pendingConnections =
    s.pendingConnections := by
  rw [promote]
  dsimp only
  split
  · split <;> rfl
  · rfl

theorem signals_promote : (s.promote userId deviceId connId pending).signals =
    s.signals ++ match s.device userId deviceId with
      | some prior => if prior.connId ≠ connId then [prior.forceCloseTx] else []
      | none => [] := by
  rw [promote, lookup_getD_empty]
  cases s.device userId deviceId with
  | none => exact (append_nil _).symm
  | some prior =>
    dsimp only
    split
    · rfl
    · exact (append_nil _).symm

/-- **A connection takes its device over.** -/
theorem Inv.promote (h : s.Inv) (hpending : s.pendingConnections.lookup connId = none)
    (hconn : s.connToDevice.lookup connId = none) (userId deviceId : String)
    (pending : PendingDeviceConn) : (s.promote userId deviceId connId pending).Inv := by
  have hnew : ∀ userId deviceId conn, s.device userId deviceId = some conn →
      conn.connId ≠ connId := by
    rintro userId deviceId conn hdevice rfl
    rw [h.conn_of_device hdevice] at hconn
    cases hconn
  refine ⟨fun userId' deviceId' c => ?_, fun c hc => ?_⟩
  · rw [connToDevice_promote, device_promote]
    by_cases hdev : userId' = userId ∧ deviceId' = deviceId
    · rw [if_pos hdev]
      obtain ⟨rfl, rfl⟩ := hdev
      split
      · rename_i heq
        exact iff_of_true rfl ⟨_, rfl, heq.symm⟩
      · rename_i hne
        refine iff_of_false (fun hlookup => ?_) ?_
        · split at hlookup
          · cases hlookup
          · rename_i hprior
            obtain ⟨prior, hdevice, hid⟩ := (h.inverse _ _ _).mp hlookup
            rw [hdevice, Option.any_some] at hprior
            exact hprior (beq_iff_eq.mpr hid)
        · rintro ⟨conn, hsome, rfl⟩
          rw [← Option.some.inj hsome] at hne
          exact hne rfl
    · rw [if_neg hdev]
      split
      · rename_i heq
        refine iff_of_false (fun hsame => hdev ?_) ?_
        · cases hsame
          exact ⟨rfl, rfl⟩
        · rintro ⟨conn, hdevice, hid⟩
          exact hnew _ _ _ hdevice (hid.trans heq)
      · split
        · -- the connection that lost the device has no other one
          rename_i hprior
          refine iff_of_false nofun ?_
          rintro ⟨conn, hdevice, rfl⟩
          cases hown : s.device userId deviceId with
          | none =>
            rw [hown] at hprior
            cases hprior
          | some prior =>
            rw [hown, Option.any_some, beq_iff_eq] at hprior
            have hmap := h.conn_of_device hdevice
            rw [← hprior, h.conn_of_device hown] at hmap
            cases hmap
            exact hdev ⟨rfl, rfl⟩
        · exact h.inverse userId' deviceId' c
  · rw [pending_promote] at hc
    rw [connToDevice_promote]
    split
    · rename_i heq
      rw [heq, hpending] at hc
      cases hc
    · split
      · rfl
      · exact h.disjoint c hc

/-- Activation: nothing, or the pending connection leaves, or it takes its device over. -/
theorem activatePending_cases (userId deviceId authToken : String) (connId : ConnId)
    (refused : Bool) :
    s.activatePending userId deviceId authToken connId refused = (false, s) ∧
      (∀ pending, s.pendingConnections.lookup connId = some pending →
        ¬(pending.userId = userId ∧ pending.deviceId = deviceId ∧
          pending.authToken = authToken)) ∨
    ∃ pending, s.pendingConnections.lookup connId = some pending ∧
      pending.userId = userId ∧ pending.deviceId = deviceId ∧ pending.authToken = authToken ∧
      s.activatePending userId deviceId authToken connId refused =
        if refused then (false, { s with
          pendingConnections := s.pendingConnections.erase connId
          signals := s.signals ++ [pending.forceCloseTx] })
        else (true, { s with
          pendingConnections := s.pendingConnections.erase connId : DeviceManager }.promote
            userId deviceId connId pending) := by
  rw [activatePending]
  cases hfilter : (s.pendingConnections.lookup connId).filter fun pending =>
      pending.userId == userId && pending.deviceId == deviceId &&
        pending.authToken == authToken with
  | none =>
    refine .inl ⟨rfl, fun pending hpending hmatches => ?_⟩
    rw [Option.filter_eq_none_iff] at hfilter
    apply hfilter pending hpending
    simp [hmatches]
  | some pending =>
    obtain ⟨hpending, hmatches⟩ := Option.filter_eq_some_iff.mp hfilter
    simp only [Bool.and_eq_true, beq_iff_eq] at hmatches
    exact .inr ⟨pending, hpending, hmatches.1.1, hmatches.1.2, hmatches.2, rfl⟩

theorem Inv.activatePending (h : s.Inv) (userId deviceId authToken : String) (connId : ConnId)
    (refused : Bool) : (s.activatePending userId deviceId authToken connId refused).2.Inv := by
  rcases s.activatePending_cases userId deviceId authToken connId refused with
    ⟨heq, -⟩ | ⟨pending, hpending, -, -, -, heq⟩
  · rw [heq]
    exact h
  · rw [heq]
    split
    · exact h.erasePending _ _
    · refine (h.erasePending connId s.signals).promote ?_ ?_ _ _ _
      · exact (AssocMap.lookup_erase _ _ _).trans (if_pos rfl)
      · exact h.disjoint connId (hpending ▸ rfl)

theorem Inv.keeps_activatePending (h : s.Inv) (own : Option ConnId)
    (userId deviceId authToken : String) (connId : ConnId) (refused : Bool) :
    Keeps own s (s.activatePending userId deviceId authToken connId refused).2 := by
  rcases s.activatePending_cases userId deviceId authToken connId refused with
    ⟨heq, -⟩ | ⟨pending, hpending, huser, hdevice, htoken, heq⟩
  · rw [heq]
    exact .refl own s
  · rw [heq]
    split
    · refine keeps_erasePending (fun x hx => mem_append_left _ hx)
        fun pending' hpending' => ?_
      rw [hpending, Option.some_inj] at hpending'
      rw [← hpending']
      exact .inr (mem_append_right _ (mem_singleton_self _))
    · let s₁ := { s with pendingConnections := s.pendingConnections.erase connId }
      have hlookup : ∀ c, s₁.pendingConnections.lookup c =
          if c = connId then none else s.pendingConnections.lookup c := fun c =>
        AssocMap.lookup_erase _ _ _
      refine ⟨fun x hx => ?_, fun c x hhas => ?_, fun c p hp => ?_,
        fun userId' deviceId' conn hconn => ?_⟩
      · change x ∈ (s₁.promote _ _ _ _).signals
        rw [signals_promote]
        exact mem_append_left _ hx
      · change (s₁.promote _ _ _ _).Has c x ∨ _ ∨ x ∈ (s₁.promote _ _ _ _).signals
        rcases hhas with ⟨pending', hpending', hx⟩ | ⟨userId', deviceId', conn, hconn, hid, hx⟩
        · by_cases hc : c = connId
          · -- the pending connection is the active one now
            refine .inl (.inr ⟨userId, deviceId, ⟨connId, pending.authToken, pending.deviceName,
              pending.forceCloseTx⟩, ?_, hc.symm, ?_⟩)
            · rw [device_promote, if_pos ⟨rfl, rfl⟩]
            · rw [hc, hpending, Option.some_inj] at hpending'
              rw [← hx, ← hpending']
          · refine .inl (.inl ⟨pending', ?_, hx⟩)
            rw [pending_promote, hlookup, if_neg hc]
            exact hpending'
        · by_cases hdev : userId' = userId ∧ deviceId' = deviceId
          · -- the connection that loses the device is told
            obtain ⟨rfl, rfl⟩ := hdev
            refine .inr (.inr ?_)
            rw [signals_promote]
            have hdevice : s₁.device userId' deviceId' = some conn := hconn
            rw [hdevice]
            dsimp only
            have hne : conn.connId ≠ connId := by
              rintro rfl
              have hnone := h.disjoint _ (by rw [hpending]; rfl)
              rw [h.conn_of_device hconn] at hnone
              cases hnone
            rw [if_pos hne, hx]
            exact mem_append_right _ (mem_singleton_self _)
          · refine .inl (.inr ⟨userId', deviceId', conn, ?_, hid, hx⟩)
            rw [device_promote, if_neg hdev]
            exact hconn
      · change (s₁.promote _ _ _ _).pendingConnections.lookup c = some p at hp
        rw [pending_promote, hlookup] at hp
        split at hp
        · cases hp
        · exact hp
      · change (s₁.promote _ _ _ _).device userId' deviceId' = some conn at hconn
        rw [device_promote] at hconn
        split at hconn
        · rename_i hdev
          rw [← Option.some.inj hconn, hdev.1, hdev.2]
          exact .inr ⟨pending, hpending, huser, hdevice, rfl⟩
        · exact .inl hconn

/-! ## Closing -/

/-- A connection unregisters: it leaves if it is known. -/
theorem Inv.unregister_cases (h : s.Inv) (connId : ConnId) :
    (∃ userId deviceId conn users, s.device userId deviceId = some conn ∧
      conn.connId = connId ∧
      (∀ userId' deviceId', (AList.lookup userId' users).bind (·.lookup deviceId') =
        if userId' = userId ∧ deviceId' = deviceId then none else s.device userId' deviceId') ∧
      s.unregister connId = (some (userId, deviceId),
        { s with users := users, connToDevice := s.connToDevice.erase conn.connId })) ∨
    (∃ pending, s.pendingConnections.lookup connId = some pending ∧
      s.unregister connId = (some (pending.userId, pending.deviceId),
        { s with pendingConnections := s.pendingConnections.erase connId })) ∨
    (¬s.Known connId ∧ s.unregister connId = (none, s)) := by
  cases hlookup : s.connToDevice.lookup connId with
  | some dev =>
    obtain ⟨userId, deviceId⟩ := dev
    obtain ⟨conn, hconn, hid⟩ := (h.inverse _ _ _).mp hlookup
    cases hdevices : s.users.lookup userId with
    | none =>
      rw [device, hdevices] at hconn
      cases hconn
    | some devices =>
      have hdevice : devices.lookup deviceId = some conn := by
        rw [device, hdevices, Option.bind_some] at hconn
        exact hconn
      refine .inl ⟨userId, deviceId, conn, s.users.insert userId (devices.erase deviceId), hconn,
        hid, fun userId' deviceId' => ?_, ?_⟩
      · rw [device_insert, AssocMap.lookup_erase]
        by_cases huser : userId' = userId
        · rw [huser, device, hdevices, Option.bind_some]
          simp only [if_true, true_and]
        · rw [if_neg huser, if_neg fun hdev => huser hdev.1]
      · rw [unregister, hlookup]
        dsimp only
        rw [hdevices]
        dsimp only
        rw [hdevice, Option.any_some, hid, if_pos (beq_self_eq_true _)]
  | none =>
    have herase : s.connToDevice.erase connId = s.connToDevice := by
      apply AList.ext
      exact kerase_of_notMem_keys (AssocMap.notMem_of_lookup hlookup)
    right
    rw [unregister, hlookup, herase]
    dsimp only
    cases hpending : s.pendingConnections.lookup connId with
    | some pending => exact .inl ⟨pending, rfl, rfl⟩
    | none =>
      refine .inr ⟨?_, rfl⟩
      rw [Known, hlookup, hpending]
      simp

/-- An unknown connection that unregisters. -/
theorem Inv.unregister_of_not_known (h : s.Inv) (hnot : ¬s.Known c) :
    s.unregister c = (none, s) := by
  rcases h.unregister_cases c with ⟨userId, deviceId, conn, -, hconn, rfl, -⟩ |
    ⟨pending, hpending, -⟩ | ⟨-, heq⟩
  · exact absurd (.inr (by rw [h.conn_of_device hconn]; rfl)) hnot
  · exact absurd (.inl (by rw [hpending]; rfl)) hnot
  · exact heq

theorem Inv.unregister (h : s.Inv) (connId : ConnId) : (s.unregister connId).2.Inv := by
  rcases h.unregister_cases connId with ⟨userId, deviceId, conn, users, hconn, -, hdevice, heq⟩ |
    ⟨pending, -, heq⟩ | ⟨-, heq⟩
  · rw [heq]
    exact h.eraseActive hconn hdevice s.signals
  · rw [heq]
    exact h.erasePending connId s.signals
  · rw [heq]
    exact h

/-- A connection that has unregistered is unknown. -/
theorem Inv.not_known_unregister (h : s.Inv) (connId : ConnId) :
    ¬(s.unregister connId).2.Known connId := by
  rcases h.unregister_cases connId with ⟨userId, deviceId, conn, users, hconn, rfl, -, heq⟩ |
    ⟨pending, hpending, heq⟩ | ⟨hnot, heq⟩
  · rw [heq]
    rintro (hpending | hactive)
    · have hnone := h.disjoint _ hpending
      rw [h.conn_of_device hconn] at hnone
      cases hnone
    · change ((s.connToDevice.erase conn.connId).lookup conn.connId).isSome at hactive
      rw [AssocMap.lookup_erase, if_pos rfl] at hactive
      cases hactive
  · rw [heq]
    rintro (hpending' | hactive)
    · change ((s.pendingConnections.erase connId).lookup connId).isSome at hpending'
      rw [AssocMap.lookup_erase, if_pos rfl] at hpending'
      cases hpending'
    · change (s.connToDevice.lookup connId).isSome at hactive
      rw [h.disjoint connId (hpending ▸ rfl)] at hactive
      cases hactive
  · rw [heq]
    exact hnot

theorem Inv.keeps_unregister (h : s.Inv) (connId : ConnId) :
    Keeps (some connId) s (s.unregister connId).2 := by
  rcases h.unregister_cases connId with ⟨userId, deviceId, conn, users, hconn, hid, hdevice, heq⟩ |
    ⟨pending, -, heq⟩ | ⟨-, heq⟩
  · rw [heq]
    exact keeps_eraseActive hconn hdevice (fun _ hx => hx) (.inl (congrArg some hid.symm))
  · rw [heq]
    exact keeps_erasePending (fun _ hx => hx) fun _ _ => .inl rfl
  · rw [heq]
    exact .refl _ s

end DeviceManager

/-! ## Runs -/

/-- The operations on the directory. -/
inductive Operation where
  | registerPending (userId deviceId authToken deviceName : String) (connId : ConnId)
    (forceCloseTx : ℕ)
  | activatePending (userId deviceId authToken : String) (connId : ConnId) (refused : Bool)
  | unregister (connId : ConnId)
  | disconnectPending (connId : ConnId)
  | disconnectDevice (userId deviceId : String)
  | disconnectDeviceIfToken (userId deviceId authToken : String)
  deriving DecidableEq

/-- What the caller of an operation gets. -/
inductive Answer where
  | done
  | flag (flag : Bool)
  | removed (device : Option (String × String))
  deriving DecidableEq

/-- The directory, and the connection ids that were registered. -/
structure Directory where
  manager : DeviceManager
  used : List ConnId

namespace Directory

open DeviceManager

variable {w w' : Directory} {c : ConnId}

/-- A new directory. -/
def new : Directory := ⟨.new, []⟩

/-- What an operation does. -/
def perform (w : Directory) : Operation → Answer × Directory
  | .registerPending userId deviceId authToken deviceName connId forceCloseTx =>
    (.done, ⟨w.manager.registerPending userId deviceId authToken deviceName connId forceCloseTx,
      connId :: w.used⟩)
  | .activatePending userId deviceId authToken connId refused =>
    let outcome := w.manager.activatePending userId deviceId authToken connId refused
    (.flag outcome.1, ⟨outcome.2, w.used⟩)
  | .unregister connId =>
    let outcome := w.manager.unregister connId
    (.removed outcome.1, ⟨outcome.2, w.used⟩)
  | .disconnectPending connId =>
    let outcome := w.manager.disconnectPending connId
    (.flag outcome.1, ⟨outcome.2, w.used⟩)
  | .disconnectDevice userId deviceId =>
    let outcome := w.manager.disconnectDevice userId deviceId
    (.flag outcome.1, ⟨outcome.2, w.used⟩)
  | .disconnectDeviceIfToken userId deviceId authToken =>
    let outcome := w.manager.disconnectDeviceIfToken userId deviceId authToken
    (.flag outcome.1, ⟨outcome.2, w.used⟩)

/-- A connection id is registered once. -/
def admits (w : Directory) : Operation → Bool
  | .registerPending _ _ _ _ connId _ => !w.used.contains connId
  | _ => true

/-- One operation and its answer. -/
def Step (w : Directory) (call : Operation × Answer) (w' : Directory) : Prop :=
  w.admits call.1 = true ∧ w.perform call.1 = (call.2, w')

/-- The invariant of runs: what is known was registered. -/
structure Inv (w : Directory) : Prop where
  manager : w.manager.Inv
  used : ∀ connId, w.manager.Known connId → connId ∈ w.used

theorem inv_new : Inv new :=
  ⟨DeviceManager.inv_new, fun _ hknown => hknown.elim nofun nofun⟩

/-- The connection that acts on itself. -/
def own : Operation → Option ConnId
  | .unregister connId => some connId
  | _ => none

/-- What a step does to the connections there were. -/
structure Effect (operation : Operation) (w w' : Directory) : Prop where
  inv : w'.Inv
  used : ∀ connId ∈ w.used, connId ∈ w'.used
  signals : ∀ x ∈ w.manager.signals, x ∈ w'.manager.signals
  has : ∀ c x, w.manager.Has c x →
    w'.manager.Has c x ∨ own operation = some c ∨ x ∈ w'.manager.signals
  pending : ∀ c ∈ w.used, ∀ p, w'.manager.pendingConnections.lookup c = some p →
    w.manager.pendingConnections.lookup c = some p
  active : ∀ userId deviceId conn, w'.manager.device userId deviceId = some conn →
    w.manager.device userId deviceId = some conn ∨
    ∃ p, w.manager.pendingConnections.lookup conn.connId = some p

theorem Inv.effect_of_keeps (h : w.Inv) {operation : Operation} {s : DeviceManager}
    (hinv : s.Inv) (hkeeps : Keeps (own operation) w.manager s) :
    Effect operation w ⟨s, w.used⟩ where
  inv := ⟨hinv, fun connId hknown => h.used connId (hkeeps.known h.manager hinv hknown)⟩
  used := fun _ hmem => hmem
  signals := hkeeps.signals
  has := hkeeps.has
  pending := fun c _ => hkeeps.pending c
  active := fun userId deviceId conn hconn =>
    (hkeeps.active userId deviceId conn hconn).imp_right fun ⟨p, hp, _⟩ => ⟨p, hp⟩

/-- **The step lemma.** -/
theorem Inv.effect (h : w.Inv) {call : Operation × Answer} (hstep : Step w call w') :
    Effect call.1 w w' := by
  obtain ⟨operation, answer⟩ := call
  obtain ⟨hadmits, hperform⟩ := hstep
  have hw' : w' = (w.perform operation).2 := (congrArg Prod.snd hperform).symm
  rw [hw']
  cases operation with
  | registerPending userId deviceId authToken deviceName connId forceCloseTx =>
    have hused : connId ∉ w.used := by
      rw [← contains_iff_mem, Bool.not_eq_true]
      exact Bool.not_eq_true' _ |>.mp hadmits
    have hfresh : ¬w.manager.Known connId := fun hknown => hused (h.used connId hknown)
    refine ⟨⟨h.manager.registerPending hfresh _ _ _ _ _, fun c hknown => ?_⟩,
      fun c hc => mem_cons_of_mem _ hc, fun x hx => ?_,
      fun c x hhas => .inl (has_registerPending hfresh _ _ _ _ _ hhas),
      fun c hc p hp => ?_, fun _ _ _ hconn => .inl hconn⟩
    · rcases known_registerPending _ _ _ _ _ hknown with rfl | hknown
      · exact mem_cons_self
      · exact mem_cons_of_mem _ (h.used c hknown)
    · change x ∈ (w.manager.registerPending _ _ _ _ _ _).signals
      rw [signals_registerPending hfresh]
      exact hx
    · change (w.manager.pendingConnections.insert connId _).lookup c = some p at hp
      rw [AssocMap.lookup_insert] at hp
      split at hp
      · rename_i heq
        rw [heq] at hc
        exact absurd hc hused
      · exact hp
  | activatePending userId deviceId authToken connId refused =>
    exact h.effect_of_keeps (h.manager.activatePending _ _ _ _ _)
      (h.manager.keeps_activatePending _ _ _ _ _ _)
  | unregister connId =>
    exact h.effect_of_keeps (h.manager.unregister connId) (h.manager.keeps_unregister connId)
  | disconnectPending connId =>
    exact h.effect_of_keeps (h.manager.disconnectPending connId) (keeps_disconnectPending _ _ _)
  | disconnectDevice userId deviceId =>
    exact h.effect_of_keeps (h.manager.disconnectWhere _ _ _) (keeps_disconnectWhere _ _ _ _ _)
  | disconnectDeviceIfToken userId deviceId authToken =>
    exact h.effect_of_keeps (h.manager.disconnectWhere _ _ _) (keeps_disconnectWhere _ _ _ _ _)

/-- A connection that has left stays away. -/
theorem Inv.gone (h : w.Inv) {operation : Operation} (heffect : Effect operation w w')
    (hused : c ∈ w.used) (hnot : ¬w.manager.Known c) : ¬w'.manager.Known c := by
  rintro (hpending | hactive)
  · obtain ⟨p, hp⟩ := Option.isSome_iff_exists.mp hpending
    exact hnot (.inl (heffect.pending c hused p hp ▸ rfl))
  · obtain ⟨dev, hdev⟩ := Option.isSome_iff_exists.mp hactive
    obtain ⟨conn, hconn, rfl⟩ := (heffect.inv.manager.inverse _ _ _).mp hdev
    rcases heffect.active _ _ conn hconn with hactive | ⟨p, hp⟩
    · exact hnot (.inr (h.manager.conn_of_device hactive ▸ rfl))
    · exact hnot (.inl (hp ▸ rfl))

theorem Inv.run (h : w.Inv) {tr : List (Operation × Answer)} (hrun : Run Step w tr w') : w'.Inv :=
  hrun.invariant h fun _ _ _ h hstep => (h.effect hstep).inv

/-- A connection that has left does not come back. -/
theorem Inv.gone_run (h : w.Inv) {tr : List (Operation × Answer)} (hrun : Run Step w tr w')
    (hused : c ∈ w.used) (hnot : ¬w.manager.Known c) : ¬w'.manager.Known c := by
  have hall : w'.Inv ∧ c ∈ w'.used ∧ ¬w'.manager.Known c :=
    hrun.invariant (P := fun w => w.Inv ∧ c ∈ w.used ∧ ¬w.manager.Known c) ⟨h, hused, hnot⟩
      fun _ _ _ ⟨h, hused, hnot⟩ hstep =>
        have heffect := h.effect hstep
        ⟨heffect.inv, heffect.used c hused, h.gone heffect hused hnot⟩
  exact hall.2.2

/-- What the directory guarantees in a state. -/
structure Consistent (w : Directory) : Prop where
  /-- the maps are inverse: a device has one live connection, and a connection one device -/
  inverse : ∀ userId deviceId connId,
    w.manager.connToDevice.lookup connId = some (userId, deviceId) ↔
      ∃ conn, w.manager.device userId deviceId = some conn ∧ conn.connId = connId
  /-- no connection is both pending and active -/
  disjoint : ∀ connId, ¬((w.manager.pendingConnections.lookup connId).isSome ∧
    (w.manager.connToDevice.lookup connId).isSome)
  /-- a connection that another one has replaced is unknown from then on, and its unregistering
  changes nothing -/
  superseded : ∀ call w', Step w call w' → ∀ userId deviceId conn conn',
    w.manager.device userId deviceId = some conn →
    w'.manager.device userId deviceId = some conn' → conn'.connId ≠ conn.connId →
    ∀ tr w'', Run Step w' tr w'' → w''.manager.unregister conn.connId = (none, w''.manager)
  /-- a connection that has left another way stays away too -/
  gone : ∀ connId ∈ w.used, ¬w.manager.Known connId →
    ∀ tr w', Run Step w tr w' → ¬w'.manager.Known connId
  /-- a connection that leaves was signalled, unless it has unregistered itself -/
  signalled : ∀ call w', Step w call w' → ∀ connId forceCloseTx,
    w.manager.Has connId forceCloseTx → ¬w'.manager.Has connId forceCloseTx →
    call.1 = .unregister connId ∨ forceCloseTx ∈ w'.manager.signals
  /-- after `disconnect_device_if_token` no connection of the device holds the token -/
  token : ∀ userId deviceId authToken answer w',
    Step w (.disconnectDeviceIfToken userId deviceId authToken, answer) w' →
    (∀ conn, w'.manager.device userId deviceId = some conn → conn.authToken ≠ authToken) ∧
    ∀ connId pending, w'.manager.pendingConnections.lookup connId = some pending →
      pending.userId = userId → pending.deviceId = deviceId → pending.authToken ≠ authToken

theorem own_eq_some {operation : Operation} (h : own operation = some c) :
    operation = .unregister c := by
  cases operation with
  | unregister connId => exact congrArg Operation.unregister (Option.some.inj h)
  | registerPending _ _ _ _ _ _ => cases h
  | activatePending _ _ _ _ _ => cases h
  | disconnectPending _ => cases h
  | disconnectDevice _ _ => cases h
  | disconnectDeviceIfToken _ _ _ => cases h

/-- A connection that loses its device to another one is not known any more. -/
theorem Inv.superseded (h : w.Inv) {operation : Operation} (heffect : Effect operation w w')
    {userId deviceId : String} {conn conn' : DeviceConn}
    (hconn : w.manager.device userId deviceId = some conn)
    (hconn' : w'.manager.device userId deviceId = some conn')
    (hne : conn'.connId ≠ conn.connId) : ¬w'.manager.Known conn.connId := by
  have hmap := h.manager.conn_of_device hconn
  have hused : conn.connId ∈ w.used := h.used _ (.inr (by rw [hmap]; rfl))
  have hnone : ∀ p, w.manager.pendingConnections.lookup conn.connId ≠ some p := by
    intro p hp
    rw [h.manager.disjoint _ (hp ▸ rfl)] at hmap
    cases hmap
  rintro (hpending | hactive)
  · obtain ⟨p, hp⟩ := Option.isSome_iff_exists.mp hpending
    exact hnone p (heffect.pending _ hused p hp)
  · obtain ⟨dev, hdev⟩ := Option.isSome_iff_exists.mp hactive
    obtain ⟨conn'', hconn'', hid⟩ := (heffect.inv.manager.inverse _ _ _).mp hdev
    rcases heffect.active _ _ conn'' hconn'' with hbefore | ⟨p, hp⟩
    · -- it would still be on its device
      have hsame := h.manager.conn_of_device hbefore
      rw [hid, hmap] at hsame
      cases hsame
      rw [hconn', Option.some_inj] at hconn''
      rw [← hconn''] at hid
      exact hne hid
    · rw [hid] at hp
      exact hnone p hp

/-- **The directory is consistent** in every state of every run. -/
theorem consistent_of_run {tr : List (Operation × Answer)} (hrun : Run Step new tr w) :
    w.Consistent := by
  have h := inv_new.run hrun
  refine ⟨h.manager.inverse, fun connId ⟨hpending, hactive⟩ => ?_,
    fun call w' hstep userId deviceId conn conn' hconn hconn' hne tr w'' hrun => ?_,
    fun connId hused hnot tr w' hrun => h.gone_run hrun hused hnot,
    fun call w' hstep connId forceCloseTx hhas hnot => ?_,
    fun userId deviceId authToken answer w' hstep => ?_⟩
  · rw [h.manager.disjoint connId hpending] at hactive
    cases hactive
  · have heffect := h.effect hstep
    have hused : conn.connId ∈ w'.used := by
      refine heffect.used _ (h.used _ (.inr ?_))
      rw [h.manager.conn_of_device hconn]
      rfl
    exact (heffect.inv.run hrun).manager.unregister_of_not_known
      (heffect.inv.gone_run hrun hused (h.superseded heffect hconn hconn' hne))
  · rcases (h.effect hstep).has connId forceCloseTx hhas with hhas | hown | hsignal
    · exact absurd hhas hnot
    · exact .inl (own_eq_some hown)
    · exact .inr hsignal
  · have hw' : w' = (w.perform (.disconnectDeviceIfToken userId deviceId authToken)).2 :=
      (congrArg Prod.snd hstep.2).symm
    rw [hw']
    refine ⟨fun conn hconn htoken => ?_, fun connId pending hpending huser hdevice htoken => ?_⟩
    · have hafter := device_disconnectWhere w.manager userId deviceId (· == authToken)
        userId deviceId
      rw [if_pos ⟨rfl, rfl⟩] at hafter
      obtain ⟨-, htest⟩ := Option.filter_eq_some_iff.mp (hafter.symm.trans hconn)
      rw [htoken, beq_self_eq_true] at htest
      cases htest
    · have hafter := (pending_disconnectWhere _).mp hpending
      exact hafter.2 ⟨huser, hdevice, beq_iff_eq.mpr htoken⟩

end Directory

end DeviceDirectory

end OpenBitFun
