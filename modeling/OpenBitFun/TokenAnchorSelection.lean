import OpenBitFun.TokenAnchorRetention

/-!
# Which anchor is selected

The digest of a prefix encodes its messages without ambiguity, as far as they count: every message
ends with a byte that is in no text, and its role and its kind have no zero byte. So an anchor
matches exactly the messages that begin like its own.
-/

namespace OpenBitFun

open List

theorem Utf8.notMem_encode (text : List Char) : (0xff : UInt8) ∉ Utf8.encode text := by
  induction text with
  | nil => exact not_mem_nil
  | cons c text ih =>
    rw [encode_cons, mem_append, not_or]
    refine ⟨fun hmem => ?_, ih⟩
    have hbyte : ∀ n : ℕ, n < 255 → (0xff : UInt8) ≠ UInt8.ofNat n := by
      intro n hn heq
      have hnat := congrArg UInt8.toNat heq
      rw [UInt8.toNat_ofNat', Nat.mod_eq_of_lt (by omega)] at hnat
      exact absurd hnat (Nat.ne_of_gt hn)
    have hvalid : c.val.toNat < 0xD800 ∨ 0xDFFF < c.val.toNat ∧ c.val.toNat < 0x110000 := c.valid
    rw [String.utf8EncodeChar] at hmem
    generalize c.val.toNat = n at hvalid hmem
    split at hmem
    · rename_i hone
      exact hbyte n (by omega) (mem_singleton.1 hmem)
    · split at hmem
      · simp only [mem_cons, not_mem_nil, or_false] at hmem
        rcases hmem with h | h
        · exact hbyte _ (by omega) h
        · exact hbyte _ (by omega) h
      · split at hmem
        · simp only [mem_cons, not_mem_nil, or_false] at hmem
          rcases hmem with h | h | h
          · exact hbyte _ (by omega) h
          · exact hbyte _ (by omega) h
          · exact hbyte _ (by omega) h
        · simp only [mem_cons, not_mem_nil, or_false] at hmem
          rcases hmem with h | h | h | h
          · exact hbyte _ (by omega) h
          · exact hbyte _ (by omega) h
          · exact hbyte _ (by omega) h
          · exact hbyte _ (by omega) h

/-- Lists that go on with the same separator, which is not before it. -/
theorem append_cons_inj {α : Type*} {a : α} {before before' behind behind' : List α}
    (h : before ++ a :: behind = before' ++ a :: behind') (hnot : a ∉ before)
    (hnot' : a ∉ before') : before = before' ∧ behind = behind' := by
  induction before generalizing before' with
  | nil =>
    cases before' with
    | nil => exact ⟨rfl, tail_eq_of_cons_eq h⟩
    | cons b before' =>
      obtain ⟨rfl, -⟩ := cons_eq_cons.1 h
      exact absurd mem_cons_self hnot'
  | cons b before ih =>
    cases before' with
    | nil =>
      obtain ⟨rfl, -⟩ := cons_eq_cons.1 h
      exact absurd mem_cons_self hnot
    | cons c before' =>
      obtain ⟨rfl, hrest⟩ := cons_eq_cons.1 h
      obtain ⟨rfl, hbehind⟩ := ih hrest (fun hmem => hnot (mem_cons_of_mem _ hmem))
        fun hmem => hnot' (mem_cons_of_mem _ hmem)
      exact ⟨rfl, hbehind⟩

theorem append_cons_inj_last {α : Type*} {a : α} {before before' behind behind' : List α}
    (h : before ++ a :: behind = before' ++ a :: behind') (hnot : a ∉ behind)
    (hnot' : a ∉ behind') : before = before' ∧ behind = behind' := by
  have hreverse := congrArg List.reverse h
  rw [reverse_append, reverse_append, reverse_cons, reverse_cons,
    append_assoc, append_assoc, singleton_append, singleton_append] at hreverse
  obtain ⟨hbehind, hbefore⟩ := append_cons_inj hreverse (by rwa [mem_reverse])
    (by rwa [mem_reverse])
  exact ⟨reverse_injective hbefore, reverse_injective hbehind⟩

namespace TokenAnchors

/-! ## The digest -/

/-- What of a message counts in a prefix: not the id of a system message. -/
structure PrefixEntry where
  id : Option String
  role : MessageRole
  semanticKind : Option MessageSemanticKind
  deriving DecidableEq, Repr

/-- What of a message counts. -/
def Message.entry (message : Message) : PrefixEntry :=
  ⟨if message.role ≠ .system then some message.id else none, message.role, message.semanticKind⟩

/-- The bytes of an optional kind. -/
def kindBytes (kind : Option MessageSemanticKind) : List UInt8 :=
  kind.elim [] fun kind => asBytes (semanticKindTag kind)

theorem zero_notMem_role (role : MessageRole) : (0 : UInt8) ∉ asBytes role.debug := by
  cases role <;> decide +kernel

theorem zero_notMem_kind (kind : Option MessageSemanticKind) : (0 : UInt8) ∉ kindBytes kind := by
  rcases kind with _ | kind
  · decide +kernel
  · cases kind <;> decide +kernel

theorem asBytes_injective {text text' : String} (h : asBytes text = asBytes text') :
    text = text' := by
  rw [← String.ofList_toList (s := text), Utf8.encode_injective h, String.ofList_toList]

theorem debug_injective {role role' : MessageRole} (h : role.debug = role'.debug) :
    role = role' := by
  cases role <;> cases role' <;> first | rfl | exact absurd h (by decide +kernel)

theorem kindBytes_injective {kind kind' : Option MessageSemanticKind}
    (h : kindBytes kind = kindBytes kind') : kind = kind' := by
  rcases kind with _ | kind
  · rcases kind' with _ | kind'
    · rfl
    · cases kind' <;> exact absurd h (by decide +kernel)
  · rcases kind' with _ | kind'
    · cases kind <;> exact absurd h (by decide +kernel)
    · have htag := asBytes_injective h
      cases kind <;> cases kind' <;> first | rfl | exact absurd htag (by decide +kernel)

/-- The bytes of a message before the separator. -/
def bodyBytes (message : Message) : List UInt8 :=
  (if message.role ≠ .system then asBytes message.id ++ [0] else []) ++
    asBytes message.role.debug ++ 0 :: kindBytes message.semanticKind

theorem messageBytes_eq (message : Message) :
    messageBytes message = bodyBytes message ++ [0xff] := by
  rw [messageBytes, bodyBytes, append_assoc, append_assoc, append_assoc]
  simp only [append_assoc, cons_append, nil_append]
  rfl

theorem notMem_bodyBytes (message : Message) : (0xff : UInt8) ∉ bodyBytes message := by
  have htext : ∀ text : String, (0xff : UInt8) ∉ asBytes text := fun text =>
    Utf8.notMem_encode text.toList
  have hkind : (0xff : UInt8) ∉ kindBytes message.semanticKind := by
    cases message.semanticKind with
    | none => exact not_mem_nil
    | some kind => exact htext _
  rw [bodyBytes, mem_append, mem_append, mem_cons, not_or, not_or, not_or]
  refine ⟨⟨?_, htext _⟩, by decide, hkind⟩
  split
  · rw [mem_append, not_or]
    exact ⟨htext _, by decide⟩
  · exact not_mem_nil

/-- The bytes of a message say what counts of it. -/
theorem entry_eq_of_bodyBytes {message message' : Message}
    (h : bodyBytes message = bodyBytes message') : message.entry = message'.entry := by
  obtain ⟨hfront, hkind⟩ := append_cons_inj_last h (zero_notMem_kind _) (zero_notMem_kind _)
  have hrole := zero_notMem_role message.role
  have hrole' := zero_notMem_role message'.role
  rw [Message.entry, Message.entry, kindBytes_injective hkind]
  split at hfront
  · rename_i huser
    split at hfront
    · rename_i huser'
      rw [append_assoc, append_assoc, singleton_append, singleton_append]
        at hfront
      obtain ⟨hid, hdebug⟩ := append_cons_inj_last hfront hrole hrole'
      rw [if_pos huser, if_pos huser', asBytes_injective hid,
        debug_injective (asBytes_injective hdebug)]
    · -- only the message of a user has a zero byte before its kind
      rw [nil_append] at hfront
      rw [← hfront] at hrole'
      exact absurd (mem_append_left _ (mem_append_right _ mem_cons_self)) hrole'
  · rename_i hsystem
    split at hfront
    · rw [nil_append] at hfront
      rw [hfront] at hrole
      exact absurd (mem_append_left _ (mem_append_right _ mem_cons_self)) hrole
    · rename_i hsystem'
      rw [if_neg hsystem, if_neg hsystem', not_not.1 hsystem, not_not.1 hsystem']

theorem messageBytes_of_entry {message message' : Message} (h : message.entry = message'.entry) :
    messageBytes message = messageBytes message' := by
  have hid := congrArg PrefixEntry.id h
  have hrole : message.role = message'.role := congrArg PrefixEntry.role h
  have hkind : message.semanticKind = message'.semanticKind := congrArg PrefixEntry.semanticKind h
  rw [messageBytes, messageBytes, hrole, hkind]
  rw [Message.entry, Message.entry, hrole] at hid
  split
  · rename_i huser
    rw [if_pos huser, if_pos huser] at hid
    rw [Option.some.inj hid]
  · rfl

/-- The bytes of a prefix say what counts of its messages, and nothing else. -/
theorem flatMap_messageBytes_eq_iff {messages messages' : List Message} :
    messages.flatMap messageBytes = messages'.flatMap messageBytes ↔
      messages.map (·.entry) = messages'.map (·.entry) := by
  induction messages generalizing messages' with
  | nil =>
    cases messages' with
    | nil => exact iff_of_true rfl rfl
    | cons message' messages' =>
      refine iff_of_false (fun h => ?_) (fun h => by cases h)
      rw [flatMap_cons, messageBytes_eq, flatMap_nil] at h
      simp at h
  | cons message messages ih =>
    cases messages' with
    | nil =>
      refine iff_of_false (fun h => ?_) (fun h => by cases h)
      rw [flatMap_cons, messageBytes_eq, flatMap_nil] at h
      simp at h
    | cons message' messages' =>
      rw [flatMap_cons, flatMap_cons, map_cons, map_cons, cons_eq_cons,
        ← ih]
      refine ⟨fun h => ?_, fun h => ?_⟩
      · rw [messageBytes_eq, messageBytes_eq, append_assoc, append_assoc,
          singleton_append, singleton_append] at h
        obtain ⟨hbody, hrest⟩ := append_cons_inj h (notMem_bodyBytes _) (notMem_bodyBytes _)
        exact ⟨entry_eq_of_bodyBytes hbody, hrest⟩
      · rw [messageBytes_of_entry h.1, h.2]

/-! ## The selection -/

/-- The messages begin as the anchored ones. -/
def SamePrefix (anchored messages : List Message) : Prop :=
  anchored.length ≤ messages.length ∧
    anchored.map (·.entry) = (messages.take anchored.length).map (·.entry) ∧
    anchored.getLast?.map (·.id) = (messages.take anchored.length).getLast?.map (·.id)

instance (anchored messages : List Message) : Decidable (SamePrefix anchored messages) :=
  inferInstanceAs (Decidable (_ ∧ _ ∧ _))

/-- A request whose tokens are recorded. -/
structure AnchorRequest where
  uuid : String
  unixMs : ℕ
  input : TokenAnchorInput
  messages : List Message

section

variable {sha256 : List UInt8 → String}

/-- The anchor of a request. -/
def AnchorRequest.anchor (sha256 : List UInt8 → String) (request : AnchorRequest) : TokenAnchor :=
  .fromRequestPrefix sha256 request.uuid request.unixMs request.input request.messages

/-- The digest is the one of the anchored messages just where the same counts. -/
theorem digestMismatch_eq_none_iff (hsha : Function.Injective sha256) (request : AnchorRequest)
    (messages : List Message) :
    (request.anchor sha256).digestMismatch sha256 messages = none ↔
      request.messages.map (·.entry) =
        (messages.take request.messages.length).map (·.entry) := by
  have hdigest : digestMessagePrefix sha256 (messages.take request.messages.length) =
      digestMessagePrefix sha256 request.messages ↔
      request.messages.map (·.entry) =
        (messages.take request.messages.length).map (·.entry) := by
    rw [digestMessagePrefix, digestMessagePrefix, hsha.eq_iff, flatMap_messageBytes_eq_iff]
    exact eq_comm
  rw [← hdigest, TokenAnchor.digestMismatch]
  change (if digestMessagePrefix sha256 (messages.take request.messages.length) ≠
    digestMessagePrefix sha256 request.messages then some _ else none) = none ↔ _
  split
  · rename_i hne
    exact iff_of_false (fun h => by cases h) hne
  · rename_i heq
    exact iff_of_true rfl (not_not.1 heq)

/-- An anchor matches the messages that begin as its own. -/
theorem prefixMismatchReason_eq_none_iff (hsha : Function.Injective sha256)
    (request : AnchorRequest) (messages : List Message) :
    (request.anchor sha256).prefixMismatchReason sha256 messages = none ↔
      SamePrefix request.messages messages := by
  have hdigest := digestMismatch_eq_none_iff hsha request messages
  have hcount : (request.anchor sha256).prefixMessageCount = request.messages.length := rfl
  have hlast : (request.anchor sha256).prefixLastMessageId =
    request.messages.getLast?.map (·.id) := rfl
  rw [TokenAnchor.prefixMismatchReason, SamePrefix, ← hdigest, hcount, hlast]
  split
  · rename_i hlong
    exact iff_of_false (fun h => by cases h) fun h => absurd h.1 (Nat.not_le.2 hlong)
  · rename_i hlong
    have hle := Nat.le_of_not_lt hlong
    rw [and_iff_right hle]
    rcases eq_nil_or_concat request.messages with hnil | ⟨before, last, hconcat⟩
    · rw [hnil]
      exact (and_iff_left rfl).symm
    · have hlength : request.messages.length = before.length + 1 := by
        rw [hconcat, length_concat]
      have hid : request.messages.getLast?.map (·.id) = some last.id := by
        rw [hconcat, concat_eq_append, getLast?_concat]
        rfl
      have hcurrent : (messages.take request.messages.length).getLast?.map (·.id) =
          messages[before.length]?.map (·.id) := by
        rw [getLast?_eq_getElem?, length_take, Nat.min_eq_left hle, hlength,
          Nat.add_sub_cancel, getElem?_take_of_lt (Nat.lt_succ_self _)]
      rw [hid, hcurrent, hlength]
      dsimp only
      split
      · rename_i hne
        exact iff_of_false (fun h => by cases h) fun h => hne h.2.symm
      · rename_i heq
        exact (and_iff_left (not_not.1 heq).symm).symm

namespace TokenAnchorStore

/-- The loop selects the first anchor that is of the model and matches. -/
theorem selectFrom_selected (messages : List Message) (modelId : Option String)
    (anchors : List TokenAnchor) : ∀ skipped,
    (selectFrom sha256 messages modelId skipped anchors).selected =
      anchors.find? fun anchor => modelId.all (· = anchor.modelId) ∧
        anchor.prefixMismatchReason sha256 messages = none := by
  induction anchors with
  | nil => exact fun skipped => rfl
  | cons anchor anchors ih =>
    intro skipped
    rw [selectFrom]
    have hmodel : modelId.any (· ≠ anchor.modelId) = !modelId.all (· = anchor.modelId) := by
      cases modelId with
      | none => rfl
      | some id => exact decide_not
    rw [hmodel]
    cases hall : modelId.all (· = anchor.modelId) with
    | false =>
      rw [find?_cons_of_neg (by simp [hall])]
      exact ih _
    | true =>
      cases hreason : anchor.prefixMismatchReason sha256 messages with
      | some reason =>
        rw [find?_cons_of_neg (by simp [hreason])]
        exact ih _
      | none =>
        rw [find?_cons_of_pos (by simp [hall, hreason])]
        rfl

/-- Some anchors that are appended, one after the other. -/
def appendAll (store : TokenAnchorStore) (appended : List TokenAnchor) : TokenAnchorStore :=
  appended.foldl (fun store anchor => (store.append anchor).2) store

/-- A store holds what the rule leaves of all anchors of a session. -/
theorem lookup_appendAll (appended : List TokenAnchor) (sessionId : String) :
    (((new.appendAll appended).anchorsBySession.lookup sessionId).getD []) =
      retentionRule TOKEN_ANCHOR_RECENT_RETAIN_COUNT (·.turnId)
        (appended.filter (·.sessionId = sessionId)) := by
  induction appended using List.reverseRecOn with
  | nil => rfl
  | append_singleton appended anchor ih =>
    have hstore : new.appendAll (appended ++ [anchor]) =
        ((new.appendAll appended).append anchor).2 := by
      rw [appendAll, foldl_concat, appendAll]
    rw [hstore, append, filter_append]
    dsimp only
    rw [AssocMap.lookup_insert]
    split
    · rename_i hsession
      subst hsession
      rw [Option.getD_some, applyAnchorRetention_eq, ih, retain_retain_concat,
        filter_cons_of_pos (by simp), filter_nil]
    · rename_i hother
      rw [ih, filter_cons_of_neg (by simpa using Ne.symm hother), filter_nil,
        append_nil]

/-- A session holds what the rule leaves of all its anchors, however they were appended, and of
these the latest one is selected that is of the model and begins as the messages do. -/
theorem retained_and_selected (hsha : Function.Injective sha256) :
    (∀ (appended : List TokenAnchor) (sessionId : String),
      (new.appendAll appended).anchors sessionId =
        retentionRule TOKEN_ANCHOR_RECENT_RETAIN_COUNT (·.turnId)
          (appended.filter (·.sessionId = sessionId))) ∧
    ∀ (requests : List AnchorRequest) (sessionId : String) (messages : List Message)
      (modelId : Option String),
      (selectLatestMatchingForModel sha256 (new.appendAll (requests.map (·.anchor sha256)))
        sessionId messages modelId).selected =
      ((retentionRule TOKEN_ANCHOR_RECENT_RETAIN_COUNT (·.input.turnId)
        (requests.filter (·.input.sessionId = sessionId))).reverse.find? fun request =>
          modelId.all (· = request.input.modelId) ∧ SamePrefix request.messages messages).map
        (·.anchor sha256) := by
  refine ⟨lookup_appendAll, fun requests sessionId messages modelId => ?_⟩
  have hretained : (((new.appendAll (requests.map (·.anchor sha256))).anchorsBySession.lookup
      sessionId).getD []) = (retentionRule TOKEN_ANCHOR_RECENT_RETAIN_COUNT (·.input.turnId)
        (requests.filter (·.input.sessionId = sessionId))).map (·.anchor sha256) := by
    rw [lookup_appendAll, filter_map, retentionRule_map]
    rfl
  have hselected : (selectLatestMatchingForModel sha256
      (new.appendAll (requests.map (·.anchor sha256))) sessionId messages modelId).selected =
      (((new.appendAll (requests.map (·.anchor sha256))).anchorsBySession.lookup
        sessionId).getD []).reverse.find? fun anchor => modelId.all (· = anchor.modelId) ∧
          anchor.prefixMismatchReason sha256 messages = none := by
    rw [selectLatestMatchingForModel]
    cases (new.appendAll (requests.map (·.anchor sha256))).anchorsBySession.lookup sessionId with
    | none => rfl
    | some anchors => exact selectFrom_selected messages modelId anchors.reverse []
  rw [hselected, hretained, ← map_reverse, find?_map]
  refine congrArg (Option.map _) (congrArg (List.find? · _) (funext fun request => ?_))
  rw [Function.comp_apply, decide_eq_decide, prefixMismatchReason_eq_none_iff hsha]
  rfl

/-- An injective stand-in for a digest: every byte as a character. -/
def bytesAsText (bytes : List UInt8) : String :=
  String.ofList (bytes.map fun byte => Char.ofNat byte.toNat)

theorem bytesAsText_injective : Function.Injective bytesAsText := by
  intro bytes bytes' h
  have hlist := congrArg String.toList h
  rw [bytesAsText, bytesAsText, String.toList_ofList, String.toList_ofList] at hlist
  refine map_injective_iff.2 (fun byte byte' hbyte => ?_) hlist
  have hnat := congrArg (fun c : Char => c.val.toNat) hbyte
  have hvalid : ∀ b : UInt8, b.toNat.isValidChar := fun b => .inl (by
    have := b.toNat_lt
    omega)
  rw [Utf8.toNat_ofNat (hvalid byte), Utf8.toNat_ofNat (hvalid byte')] at hnat
  exact UInt8.toNat_inj.1 hnat

/-- Of two models that counted the same messages each has its own anchor. -/
theorem retained_and_selected_two_models :
    let message : Message := ⟨"message", .user, some .actualUserInput⟩
    let request : String → AnchorRequest := fun modelId =>
      ⟨modelId, 0, ⟨"session", "turn", "round", modelId, 1, 0, 0, 0⟩, [message]⟩
    (selectLatestMatchingForModel bytesAsText
      (new.appendAll ([request "a", request "b"].map (·.anchor bytesAsText))) "session"
      [message, message] (some "a")).selected = some ((request "a").anchor bytesAsText) := by
  intro message request
  rw [(retained_and_selected bytesAsText_injective).2]
  rfl

end TokenAnchorStore

end

end TokenAnchors

end OpenBitFun
