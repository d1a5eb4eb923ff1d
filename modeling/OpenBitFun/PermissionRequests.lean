import Mathlib
import OpenBitFun.AssocMap
import OpenBitFun.PermissionPlan
import OpenBitFun.Run

/-!
# Pending permission requests

The manager that holds the permission requests of running tools until somebody replies or cancels
them (`permission.rs`). Every operation holds one lock from beginning to end, so operations do not
overlap; a snapshot sees the state between two of them.

A registration is known by its sequence number, because a request's id may be used again once the
request is settled. The manager keeps three logs here that the program does not keep: what was
registered, what was sent to the waiter of each registration, and which events were sent about it.
The stores are read through their answers: `audit` and `commit` say whether they accept.
-/

namespace OpenBitFun

namespace PermissionRequests

open ToolPermissions (PermissionGrant)

/-! ## Data -/

/-- `PermissionRequestSourceKind`. -/
inductive PermissionRequestSourceKind where
  | toolCall
  | provider
  | extension
  deriving DecidableEq, Repr

/-- `PermissionRequest`, as far as the manager reads it. -/
structure PermissionRequest where
  requestId : String
  roundId : String
  order : ℕ
  toolCallId : Option String
  projectId : String
  sessionId : String
  action : String
  saveResources : List String
  sourceKind : PermissionRequestSourceKind
  deriving DecidableEq, Repr

/-- `PermissionReply`. -/
inductive PermissionReply where
  | once
  | onceWithInput (updatedInput : Json.Value)
  | always
  | reject (feedback : Option String)

/-- `PermissionReplySource`. -/
inductive PermissionReplySource where
  | user
  | autoApprove
  | system
  deriving DecidableEq, Repr

/-- `PermissionWaitOutcome`. -/
inductive PermissionWaitOutcome where
  | replied (reply : PermissionReply)
  | cancelled (reason : String)

/-- `PermissionRequestEvent`. -/
inductive PermissionRequestEvent where
  | asked (request : PermissionRequest)
  | replied (requestId : String) (reply : PermissionReply) (source : PermissionReplySource)
  | cancelled (requestId reason : String)

/-- `PermissionRequestManagerError`. -/
inductive PermissionRequestManagerError where
  | invalidReply (text : String)
  | duplicateRequest (requestId : String)
  | requestNotFound (requestId : String)
  | replyStore (error : String)
  | auditStore (error : String)
  deriving DecidableEq, Repr

/-- `PendingPermission`; the sender is the channel of the registration. -/
structure PendingPermission where
  request : PermissionRequest
  dialogTurnId : Option String
  interactive : Bool
  registrationSequence : ℕ
  deriving DecidableEq, Repr

/-- `PendingPermissionReceiver`: the request and the channel its waiter listens to. -/
structure PendingPermissionReceiver where
  requestId : String
  registrationSequence : ℕ
  deriving DecidableEq, Repr

/-- `PermissionReplyResolution`. -/
structure PermissionReplyResolution where
  request : PermissionRequest
  reply : PermissionReply
  savedGrants : List PermissionGrant
  resolvedRequestIds : List String

/-- `PermissionRequestSnapshot`. -/
structure PermissionRequestSnapshot where
  revision : ℕ
  requests : List PermissionRequest
  deriving DecidableEq, Repr

/-- `PermissionRequestManager`, with the logs of what was registered and sent. -/
structure PermissionRequestManager where
  pending : AssocMap String PendingPermission
  nextRegistrationSequence : ℕ
  snapshotRevision : ℕ
  /-- every registration so far -/
  registered : List PendingPermission
  /-- what was sent through the channel of a registration -/
  outcomes : List (ℕ × PermissionWaitOutcome)
  /-- the events, with the registrations they are about -/
  events : List (ℕ × PermissionRequestEvent)

namespace PermissionRequestManager

/-- `PermissionRequestManager::new`. -/
def new : PermissionRequestManager := ⟨∅, 0, 0, [], [], []⟩

/-! ## Registering -/

/-- The check of a batch: the first id that is repeated or already pending. -/
def findDuplicate (s : PermissionRequestManager) : (requestIds : List String) →
    (requests : List PermissionRequest) → Option String
  | _, [] => none
  | requestIds, request :: requests =>
    if requestIds.contains request.requestId then some request.requestId
    else if (s.pending.lookup request.requestId).isSome then some request.requestId
    else s.findDuplicate (requestIds ++ [request.requestId]) requests

/-- Inserts one request of a batch. -/
def insertPending (dialogTurnId : Option String) (interactive : Bool)
    (s : PermissionRequestManager) (request : PermissionRequest) : PermissionRequestManager :=
  let entry : PendingPermission := ⟨request, dialogTurnId, interactive, s.nextRegistrationSequence⟩
  { s with
    pending := s.pending.insert request.requestId entry
    nextRegistrationSequence := s.nextRegistrationSequence + 1
    registered := s.registered ++ [entry] }

/-- Removes requests without an outcome: their channels close. -/
def removePending (s : PermissionRequestManager) (requests : List PermissionRequest) :
    PermissionRequestManager :=
  let removed := requests.any fun request => (s.pending.lookup request.requestId).isSome
  { s with
    pending := requests.foldl (fun pending request => pending.erase request.requestId) s.pending
    snapshotRevision := if removed then s.snapshotRevision + 1 else s.snapshotRevision }

/-- `register_batch_with_visibility`. -/
def registerBatchWithVisibility (s : PermissionRequestManager) (requests : List PermissionRequest)
    (dialogTurnId : Option String) (interactive : Bool) (audit : Except String Unit) :
    Except PermissionRequestManagerError (List PendingPermissionReceiver) ×
      PermissionRequestManager :=
  if requests.isEmpty then (.ok [], s)
  else match s.findDuplicate [] requests with
    | some requestId => (.error (.duplicateRequest requestId), s)
    | none =>
      let sequences := requests.zipIdx s.nextRegistrationSequence
      let receivers := sequences.map fun (request, sequence) => ⟨request.requestId, sequence⟩
      let s := requests.foldl (insertPending dialogTurnId interactive) s
      let s := { s with snapshotRevision := s.snapshotRevision + 1 }
      match audit with
      | .error error => (.error (.auditStore error), s.removePending requests)
      | .ok () =>
        let asked :=
          if interactive then
            sequences.map fun (request, sequence) => (sequence, .asked request)
          else []
        (.ok receivers, { s with events := s.events ++ asked })

/-! ## The order of pending requests -/

/-- The key pending requests are sorted by. -/
abbrev OrderKey := ℕ ×ₗ ℕ ×ₗ ℕ ×ₗ String

/-- Two requests of one session and round. -/
def sameRound (p q : PendingPermission) : Bool :=
  p.request.sessionId == q.request.sessionId && p.request.roundId == q.request.roundId

/-- The first registration of an entry's round among the entries that count. -/
def firstRegistration (entries : List PendingPermission) (counts : PendingPermission → Bool)
    (p : PendingPermission) : ℕ :=
  (((entries.filter fun q => counts q && sameRound p q).map (·.registrationSequence)).min?).getD
    p.registrationSequence

/-- The sort key of an entry. -/
def orderKey (entries : List PendingPermission) (counts : PendingPermission → Bool)
    (p : PendingPermission) : OrderKey :=
  toLex (firstRegistration entries counts p, toLex (p.request.order,
    toLex (p.registrationSequence, p.request.requestId)))

/-- `ordered_pending_requests`, from the entries in the order in which they are visited. -/
def orderedPendingRequests (entries : List PendingPermission)
    (counts : PendingPermission → Bool) : List PermissionRequest :=
  (((entries.filter counts).map fun p => (orderKey entries counts p, p.request)).insertionSort
    fun left right => left.1 ≤ right.1).map (·.2)

/-- The entries that are pending. -/
def entries (s : PermissionRequestManager) : List PendingPermission := s.pending.iter.map (·.2)

/-- `interactive_pending_snapshot`: the map may visit its entries in any order. -/
def Snapshot (s : PermissionRequestManager) (snapshot : PermissionRequestSnapshot) : Prop :=
  ∃ visited : List PendingPermission, visited.Perm s.entries ∧
    snapshot = ⟨s.snapshotRevision, orderedPendingRequests visited (·.interactive)⟩

/-! ## Settling -/

/-- Settles one request, if it is pending: its waiter gets the outcome, and its observers an
event. The flag says whether some request was settled. -/
def settleRequest (outcome : PermissionWaitOutcome) (event : String → PermissionRequestEvent)
    (state : Bool × PermissionRequestManager) (request : PermissionRequest) :
    Bool × PermissionRequestManager :=
  match state.2.pending.lookup request.requestId with
  | none => state
  | some entry =>
    (true,
      { state.2 with
        pending := state.2.pending.erase request.requestId
        outcomes := state.2.outcomes ++ [(entry.registrationSequence, outcome)]
        events :=
          if entry.interactive then
            state.2.events ++ [(entry.registrationSequence, event request.requestId)]
          else state.2.events })

/-- The loops that settle requests, which raise the revision if they settled one. -/
def settleRequests (s : PermissionRequestManager) (outcome : PermissionWaitOutcome)
    (event : String → PermissionRequestEvent) (requests : List PermissionRequest) :
    PermissionRequestManager :=
  let state := requests.foldl (settleRequest outcome event) (false, s)
  if state.1 then { state.2 with snapshotRevision := state.2.snapshotRevision + 1 } else state.2

/-- `grants_for_reply`. -/
def grantsForReply (request : PermissionRequest) (reply : PermissionReply) (createdAtMs : ℤ) :
    List PermissionGrant :=
  match reply with
  | .always =>
    (request.saveResources.foldl
      (fun unique resource => if unique.contains resource then unique else unique ++ [resource])
      []).map fun resource => ⟨request.projectId, request.action, resource, createdAtMs⟩
  | _ => []

/-- The check of an edited approval before the manager is locked. -/
def replyIsInvalid (includeFollowing : Bool) : PermissionReply → Bool
  | .onceWithInput updatedInput => includeFollowing || !updatedInput.asObject.isSome
  | _ => false

/-- The check of an edited approval against its request. -/
def ownerRejectsInput (request : PermissionRequest) : PermissionReply → Bool
  | .onceWithInput _ => request.sourceKind ≠ .toolCall || request.toolCallId.isNone
  | _ => false

/-- The requests that a reply with `include_following` resolves. -/
def follows (request : PermissionRequest) (p : PendingPermission) : Bool :=
  p.request.sessionId == request.sessionId && p.request.roundId == request.roundId &&
    p.request.order ≥ request.order

/-- `reply_from`. -/
def replyFrom (s : PermissionRequestManager) (requestId : String) (includeFollowing : Bool)
    (reply : PermissionReply) (source : PermissionReplySource) (timestampMs : ℤ)
    (commit : Except String Unit) :
    Except PermissionRequestManagerError PermissionReplyResolution × PermissionRequestManager :=
  if replyIsInvalid includeFollowing reply then
    (.error (.invalidReply "Edited approval requires an object input and a single request"), s)
  else match s.pending.lookup requestId with
    | none => (.error (.requestNotFound requestId), s)
    | some entry =>
      let request := entry.request
      if ownerRejectsInput request reply then
        (.error (.invalidReply "This permission owner does not support edited input"), s)
      else
        let resolutionRequests :=
          if includeFollowing then orderedPendingRequests s.entries (follows request)
          else [request]
        let grants := resolutionRequests.flatMap (grantsForReply · reply timestampMs)
        match commit with
        | .error error => (.error (.replyStore error), s)
        | .ok () =>
          (.ok ⟨request, reply, grants, resolutionRequests.map (·.requestId)⟩,
            s.settleRequests (.replied reply) (.replied · reply source) resolutionRequests)

/-- `cancel_requests`. -/
def cancelRequests (s : PermissionRequestManager) (requests : List PermissionRequest)
    (reason : String) (audit : Except String Unit) :
    Except PermissionRequestManagerError Unit × PermissionRequestManager :=
  match audit with
  | .error error => (.error (.auditStore error), s)
  | .ok () => (.ok (), s.settleRequests (.cancelled reason) (.cancelled · reason) requests)

/-- `cancel_request`. -/
def cancelRequest (s : PermissionRequestManager) (requestId reason : String)
    (audit : Except String Unit) :
    Except PermissionRequestManagerError Bool × PermissionRequestManager :=
  match s.pending.lookup requestId with
  | none => (.ok false, s)
  | some entry =>
    match s.cancelRequests [entry.request] reason audit with
    | (.error error, s) => (.error error, s)
    | (.ok (), s) => (.ok true, s)

/-- `cancel_session`. -/
def cancelSession (s : PermissionRequestManager) (sessionId reason : String)
    (audit : Except String Unit) :
    Except PermissionRequestManagerError (List String) × PermissionRequestManager :=
  let requests := orderedPendingRequests s.entries fun p => p.request.sessionId == sessionId
  match s.cancelRequests requests reason audit with
  | (.error error, s) => (.error error, s)
  | (.ok (), s) => (.ok (requests.map (·.requestId)), s)

end PermissionRequestManager

end PermissionRequests

end OpenBitFun
