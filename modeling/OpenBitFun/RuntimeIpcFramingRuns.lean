import Mathlib
import OpenBitFun.RuntimeIpcFraming

/-!
# The reader stays in step with the writer

Whatever is dropped and however the stream is cut, the buffer and the rest of the stream are the
frames that have not been read, and the buffer does not reach beyond the first of them.
-/

namespace OpenBitFun

open List

namespace RuntimeIpc

universe u

variable {F : Type u} {codec : FrameCodec F} {maxBytes : ℕ}

/-! ## The header -/

@[simp] theorem length_u32ToBytes (n : ℕ) : (u32ToBytes n).length = 4 := rfl

/-- The header of a size reads as the size. -/
theorem u32FromBytes_toBytes {n : ℕ} (hn : n < 2 ^ 32) (more : List UInt8) :
    u32FromBytes (u32ToBytes n ++ more) = n := by
  have htake : (u32ToBytes n ++ more).take 4 = u32ToBytes n := rfl
  rw [u32FromBytes, htake]
  simp only [u32ToBytes, foldl_cons, foldl_nil, UInt8.toNat_ofNat']
  omega

/-- The header can be read from the first four bytes that are there. -/
theorem u32FromBytes_of_append {n : ℕ} (hn : n < 2 ^ 32) {buffer rest more : List UInt8}
    (h : buffer ++ rest = u32ToBytes n ++ more) (hlen : 4 ≤ buffer.length) :
    u32FromBytes buffer = n := by
  have htake : buffer.take 4 = u32ToBytes n := by
    have h4 := congrArg (List.take 4) h
    rw [take_append_of_le_length hlen] at h4
    exact h4
  rw [← u32FromBytes_toBytes hn [], append_nil, u32FromBytes, htake, u32FromBytes]
  rfl

/-! ## Filling the buffer -/

/-- What a run of `fill` has done. -/
structure Filled (target : ℕ) (buffer stream : List UInt8)
    (result : Option (Except RuntimeIpcIoError PUnit.{u + 1})) (buffer' rest : List UInt8) :
    Prop where
  /-- It moves bytes from the stream to the buffer. -/
  moved : buffer' ++ rest = buffer ++ stream
  /-- It does not take bytes beyond the target. -/
  length_le : buffer'.length ≤ max buffer.length target
  /-- It is dropped only while the target is not reached. -/
  dropped : result = none → buffer'.length < target
  /-- It comes back with the target reached. -/
  filled : ∀ done, result = some (.ok done) → target ≤ buffer'.length
  /-- It fails at the end of the stream. -/
  failed : ∀ e, result = some (.error e) → e = .io ∧ rest = [] ∧ buffer'.length < target

/-- Every run of the loop of `fill` is one that moves bytes up to the target. -/
theorem filled_of_exec_fillFrom {target rounds : ℕ} {buffer stream buffer' rest : List UInt8}
    {result : Option (Except RuntimeIpcIoError PUnit.{u + 1})}
    (hrounds : target - buffer.length ≤ rounds)
    (h : (fillFrom target rounds buffer).Exec stream result buffer' rest) :
    Filled target buffer stream result buffer' rest := by
  induction rounds generalizing buffer stream with
  | zero =>
    obtain ⟨rfl, rfl, rfl⟩ := Resumable.exec_done h
    exact ⟨rfl, by omega, by simp, fun _ _ => by omega, by simp⟩
  | succ rounds ih =>
    rw [fillFrom] at h
    by_cases htarget : buffer.length < target
    · rw [if_pos htarget] at h
      cases h with
      | drop => exact ⟨rfl, by omega, fun _ => htarget, by simp, by simp⟩
      | @read _ _ _ _ items stream _ _ hne hle hnext =>
        -- a byte at least has come, so that a round less is enough for what is missing
        have hpos : 0 < items.length := length_pos_iff.2 hne
        have hbound : items.length ≤ target - buffer.length := Nat.le_trans hle (Nat.min_le_left ..)
        simp only [isEmpty_eq_false_iff.2 hne, Bool.false_eq_true, if_false] at hnext
        have hfilled := ih (by rw [length_append]; omega) hnext
        refine ⟨?_, ?_, hfilled.dropped, hfilled.filled, hfilled.failed⟩
        · rw [hfilled.moved, append_assoc]
        · have := hfilled.length_le
          rw [length_append] at this
          omega
      | finish hnext =>
        obtain ⟨rfl, rfl, rfl⟩ := Resumable.exec_done hnext
        exact ⟨rfl, by omega, by simp, by simp, by rintro e ⟨⟩; exact ⟨rfl, rfl, htarget⟩⟩
    · rw [if_neg htarget] at h
      obtain ⟨rfl, rfl, rfl⟩ := Resumable.exec_done h
      exact ⟨rfl, by omega, by simp, fun _ _ => by omega, by simp⟩

/-- Every run of `fill` is one that moves bytes up to the target. -/
theorem filled_of_exec {target : ℕ} {buffer stream buffer' rest : List UInt8}
    {result : Option (Except RuntimeIpcIoError PUnit.{u + 1})}
    (h : (fill target buffer).Exec stream result buffer' rest) :
    Filled target buffer stream result buffer' rest :=
  filled_of_exec_fillFrom (Nat.le_refl _) h

/-! ## One frame -/

/-- `read_strict` on a frame that fits comes back with the frame, and has then read just this frame;
when it is dropped it has not read all of it. -/
theorem exec_readStrict {payload more buffer stream buffer' rest : List UInt8}
    {result : Option (Except RuntimeIpcIoError F)}
    (hsize : payload.length < 2 ^ 32) (hfits : payload.length ≤ maxBytes)
    (hplace : buffer ++ stream = u32ToBytes payload.length ++ payload ++ more)
    (hwithin : buffer.length < 4 + payload.length)
    (h : (readStrict codec maxBytes buffer).Exec stream result buffer' rest) :
    (result = none ∧ buffer' ++ rest = buffer ++ stream ∧ buffer'.length < 4 + payload.length) ∨
      (result = some (parseStrictFrame codec payload) ∧ buffer' = [] ∧ rest = more) := by
  have hlen := congrArg List.length hplace
  simp only [length_append, length_u32ToBytes] at hlen
  rw [readStrict] at h
  obtain ⟨hdropped, rfl⟩ | ⟨header, read, middle, hheader, hrest⟩ := Resumable.exec_bind h
  · -- the header is not there yet
    have hfilled := filled_of_exec hdropped
    have hshort := hfilled.dropped rfl
    exact .inl ⟨rfl, hfilled.moved, by omega⟩
  · have hfilled := filled_of_exec hheader
    have hmoved := congrArg List.length hfilled.moved
    have hheld := hfilled.length_le
    simp only [length_append] at hmoved
    cases read with
    | error e =>
      obtain ⟨-, rfl, hshort⟩ := hfilled.failed e rfl
      simp only [length_nil] at hmoved
      omega
    | ok =>
      have hfour := hfilled.filled _ rfl
      have hheaderPlace : header ++ middle = u32ToBytes payload.length ++ (payload ++ more) := by
        rw [hfilled.moved, hplace, append_assoc]
      have hsizeRead := u32FromBytes_of_append hsize hheaderPlace hfour
      simp only [hsizeRead, if_neg (Nat.not_lt.2 hfits)] at hrest
      obtain ⟨hdropped, rfl⟩ | ⟨all, read, middle', hall, hdone⟩ := Resumable.exec_bind hrest
      · have hfilled' := filled_of_exec hdropped
        have hshort := hfilled'.dropped rfl
        refine .inl ⟨rfl, ?_, by omega⟩
        rw [hfilled'.moved, hfilled.moved]
      · have hfilled' := filled_of_exec hall
        have hmoved' := congrArg List.length hfilled'.moved
        have hheld' := hfilled'.length_le
        simp only [length_append] at hmoved'
        cases read with
        | error e =>
          obtain ⟨-, rfl, hshort⟩ := hfilled'.failed e rfl
          simp only [length_nil] at hmoved'
          omega
        | ok =>
          have hfull := hfilled'.filled _ rfl
          obtain ⟨rfl, rfl, rfl⟩ := Resumable.exec_done hdone
          -- the buffer is the frame, since it reaches just as far
          have hwhole : all ++ rest = (u32ToBytes payload.length ++ payload) ++ more := by
            rw [hfilled'.moved, hfilled.moved, hplace]
          obtain ⟨hall, rfl⟩ := append_inj hwhole (by
            rw [length_append, length_u32ToBytes]; omega)
          refine .inr ⟨?_, rfl, rfl⟩
          rw [hall, drop_left' (length_u32ToBytes _)]

/-- `read_strict` on a frame that is over the limit reads the header only. -/
theorem exec_readStrict_tooLarge {size : ℕ} {more buffer stream buffer' rest : List UInt8}
    {result : Option (Except RuntimeIpcIoError F)}
    (hsize : size < 2 ^ 32) (hlarge : maxBytes < size)
    (hplace : buffer ++ stream = u32ToBytes size ++ more) (hwithin : buffer.length ≤ 4)
    (h : (readStrict codec maxBytes buffer).Exec stream result buffer' rest) :
    (result = none ∨ result = some (.error (.frameTooLarge size maxBytes))) ∧
      buffer' ++ rest = buffer ++ stream ∧ buffer'.length ≤ 4 := by
  have hlen := congrArg List.length hplace
  simp only [length_append, length_u32ToBytes] at hlen
  rw [readStrict] at h
  obtain ⟨hdropped, rfl⟩ | ⟨header, read, middle, hheader, hrest⟩ := Resumable.exec_bind h
  · have hfilled := filled_of_exec hdropped
    have hshort := hfilled.dropped rfl
    exact ⟨.inl rfl, hfilled.moved, by omega⟩
  · have hfilled := filled_of_exec hheader
    have hmoved := congrArg List.length hfilled.moved
    have hheld := hfilled.length_le
    simp only [length_append] at hmoved
    cases read with
    | error e =>
      obtain ⟨-, rfl, hshort⟩ := hfilled.failed e rfl
      simp only [length_nil] at hmoved
      omega
    | ok =>
      have hfour := hfilled.filled _ rfl
      have hsizeRead := u32FromBytes_of_append hsize (hfilled.moved.trans hplace) hfour
      simp only [hsizeRead, if_pos hlarge] at hrest
      obtain ⟨rfl, rfl, rfl⟩ := Resumable.exec_done hrest
      exact ⟨.inr rfl, hfilled.moved, by omega⟩

/-- `read_strict` at the end of the stream. -/
theorem exec_readStrict_end {buffer' rest : List UInt8}
    {result : Option (Except RuntimeIpcIoError F)}
    (h : (readStrict codec maxBytes []).Exec [] result buffer' rest) :
    (result = none ∨ result = some (.error .io)) ∧ buffer' = [] ∧ rest = [] := by
  rw [readStrict] at h
  obtain ⟨hdropped, rfl⟩ | ⟨header, read, middle, hheader, hrest⟩ := Resumable.exec_bind h
  · obtain ⟨rfl, rfl⟩ := append_eq_nil_iff.1 (filled_of_exec hdropped).moved
    exact ⟨.inl rfl, rfl, rfl⟩
  · have hfilled := filled_of_exec hheader
    obtain ⟨rfl, rfl⟩ := append_eq_nil_iff.1 hfilled.moved
    cases read with
    | error e =>
      obtain ⟨rfl, -, -⟩ := hfilled.failed e rfl
      obtain ⟨rfl, rfl, rfl⟩ := Resumable.exec_done hrest
      exact ⟨.inr rfl, rfl, rfl⟩
    | ok => exact absurd (hfilled.filled _ rfl) (by decide)

/-- `parse_strict_frame` does not fail as a stream does. -/
theorem parseStrictFrame_ne_io (bytes : List UInt8) :
    parseStrictFrame codec bytes ≠ .error .io := by
  rw [parseStrictFrame]
  cases codec.fromSlice bytes with
  | error e => simp
  | ok original =>
    dsimp only
    cases codec.fromValue original with
    | error e => simp
    | ok frame =>
      dsimp only
      cases codec.toValue frame with
      | error e => simp
      | ok canonical =>
        dsimp only
        cases firstUnknownField original canonical "$" with
        | none => simp
        | some path => simp

/-! ## What is on the wire -/

/-- What is relied on of `serde`: what it writes for a frame is read as the frame, and has no field
that the frame does not have. -/
def FrameCodec.Lawful (codec : FrameCodec F) : Prop :=
  ∀ frame, (codec.toWriter frame).2 = none → ∃ original canonical,
    codec.fromSlice (codec.toWriter frame).1.flatten = .ok original ∧
      codec.fromValue original = .ok frame ∧ codec.toValue frame = .ok canonical ∧
        firstUnknownField original canonical "$" = none

/-- Bytes that are written as a frame, and the result that reading them has to have. -/
inductive Sent (codec : FrameCodec F) (maxBytes : ℕ) :
    List UInt8 → Except RuntimeIpcIoError F → Prop
  | frame {frame : F} {bytes : List UInt8} :
    writeFrameWithLimit codec maxBytes frame = .ok bytes → Sent codec maxBytes bytes (.ok frame)
  /-- Any payload, which may not be the JSON of a frame. -/
  | payload {payload bytes : List UInt8} :
    writeSerializedFrameWithLimit maxBytes payload = .ok bytes →
      Sent codec maxBytes bytes (parseStrictFrame codec payload)

/-- A payload with its header that fits, and what the payload parses to. -/
def Framed (codec : FrameCodec F) (maxBytes : ℕ) (bytes : List UInt8)
    (result : Except RuntimeIpcIoError F) : Prop :=
  ∃ payload, bytes = u32ToBytes payload.length ++ payload ∧ payload.length ≤ maxBytes ∧
    result = parseStrictFrame codec payload

/-- A `CappedWriter` takes the writes as they are. -/
theorem cappedWrites_eq {bytes written : List UInt8} {inputs : List (List UInt8)}
    (h : cappedWrites maxBytes bytes inputs = some written) :
    written = bytes ++ inputs.flatten := by
  induction inputs generalizing bytes with
  | nil =>
    rw [cappedWrites, Option.some.injEq] at h
    rw [← h, flatten_nil, append_nil]
  | cons input inputs ih =>
    rw [cappedWrites] at h
    split at h
    · cases h
    · rw [ih h, flatten_cons, append_assoc]

/-- What is written as a serialised frame is its header and itself. -/
theorem framed_of_writeSerialized {payload bytes : List UInt8}
    (h : writeSerializedFrameWithLimit maxBytes payload = .ok bytes) :
    Framed codec maxBytes bytes (parseStrictFrame codec payload) := by
  rw [writeSerializedFrameWithLimit] at h
  split at h
  · cases h
  · rename_i hfits
    cases h
    exact ⟨payload, rfl, Nat.not_lt.1 hfits, rfl⟩

/-- The JSON of a frame parses to the frame. -/
theorem parseStrictFrame_of_lawful (hcodec : codec.Lawful) {frame : F}
    (h : (codec.toWriter frame).2 = none) :
    parseStrictFrame codec (codec.toWriter frame).1.flatten = .ok frame := by
  obtain ⟨original, canonical, hslice, hvalue, hto, hunknown⟩ := hcodec frame h
  simp only [parseStrictFrame, hslice, hvalue, hto, hunknown]

/-- All that is written is a payload with its header. -/
theorem Sent.framed (hcodec : codec.Lawful) {bytes : List UInt8}
    {result : Except RuntimeIpcIoError F} (h : Sent codec maxBytes bytes result) :
    Framed codec maxBytes bytes result := by
  cases h with
  | payload h => exact framed_of_writeSerialized h
  | @frame frame _ h =>
    rw [writeFrameWithLimit, serializeFrameWithLimit] at h
    cases hwrites : cappedWrites maxBytes [] (codec.toWriter frame).1 with
    | none => simp only [hwrites] at h; cases h
    | some written =>
      cases herror : (codec.toWriter frame).2 with
      | some message => simp only [hwrites, herror] at h; cases h
      | none =>
        simp only [hwrites, herror] at h
        have hframed : Framed codec maxBytes _ _ := framed_of_writeSerialized h
        rw [cappedWrites_eq hwrites, nil_append,
          parseStrictFrame_of_lawful hcodec herror] at hframed
        exact hframed

/-! ## Sessions -/

/-- The results of `read_strict` that are not the end of the stream. -/
def delivered : List (Outcome F) → List (Except RuntimeIpcIoError F)
  | [] => []
  | .frame (.error .io) :: outcomes => delivered outcomes
  | .frame result :: outcomes => result :: delivered outcomes
  | _ :: outcomes => delivered outcomes

/-- A call that found the end of the stream. -/
def Outcome.AtEnd : Outcome F → Prop
  | .frame result => result = .error .io
  | .frameStart result => result = .error .io
  | .dropped => False

/-- What comes behind the frames: a header that declares a size, and more. -/
def declared : Option (UInt32 × List UInt8) → List UInt8
  | none => []
  | some (size, more) => u32ToBytes size.toNat ++ more

/-- Where the reader is: what is in the buffer and the rest of the stream are the frames that have
not been read, and the buffer has not all of the first of them. -/
structure InStep (segments : List (List UInt8)) (oversized : Option (UInt32 × List UInt8))
    (buffer stream : List UInt8) : Prop where
  /-- No byte is lost. -/
  place : buffer ++ stream = segments.flatten ++ declared oversized
  /-- No byte beyond the frame has been read. -/
  within : ∀ segment ∈ segments.head?, buffer.length < segment.length
  /-- No byte beyond a header that is too large has been read. -/
  header : segments = [] → buffer.length ≤ 4

/-- What a session has read. -/
structure Reads (segments : List (List UInt8)) (results : List (Except RuntimeIpcIoError F))
    (oversized : Option (UInt32 × List UInt8)) (maxBytes : ℕ) (outcomes : List (Outcome F))
    (buffer rest : List UInt8) (k : ℕ) : Prop where
  /-- The results are those of the first frames, each once and in order, and then only refusals of
  the size that is too large. -/
  delivered : ∃ refusals, delivered outcomes = results.take k ++ refusals ∧
    (refusals ≠ [] → k = segments.length) ∧ ∀ refusal ∈ refusals, ∃ size more,
      oversized = some (size, more) ∧ refusal = .error (.frameTooLarge size.toNat maxBytes)
  /-- The reader is at the frame behind them. -/
  inStep : InStep (segments.drop k) oversized buffer rest
  /-- The end of the stream is found behind all frames only. -/
  atEnd : (∃ outcome ∈ outcomes, outcome.AtEnd) → k = segments.length ∧ oversized = none

/-- A result that is not the end of the stream is given back. -/
theorem delivered_frame {result : Except RuntimeIpcIoError F} (h : result ≠ .error .io)
    (outcomes : List (Outcome F)) :
    RuntimeIpc.delivered (.frame result :: outcomes) = result :: RuntimeIpc.delivered outcomes := by
  cases result with
  | ok frame => rfl
  | error e => cases e with
    | io => exact absurd rfl h
    | _ => rfl

section steps

variable {segments : List (List UInt8)} {results : List (Except RuntimeIpcIoError F)}
  {oversized : Option (UInt32 × List UInt8)} {outcomes : List (Outcome F)}
  {buffer stream buffer' rest : List UInt8} {k : ℕ}

/-- Moving bytes up to less than a header keeps the reader in step. -/
theorem InStep.moved (h : InStep segments oversized buffer stream)
    (hframed : ∀ segment ∈ segments, 4 ≤ segment.length)
    (hmoved : buffer' ++ rest = buffer ++ stream) (hlen : buffer'.length ≤ max buffer.length 1) :
    InStep segments oversized buffer' rest := by
  refine ⟨hmoved.trans h.place, fun segment hsegment => ?_, fun hnil => ?_⟩
  · have hold := h.within segment hsegment
    have hfour := hframed segment (mem_of_mem_head? hsegment)
    omega
  · have hold := h.header hnil
    omega

/-- With nothing left the reader is behind all frames. -/
theorem InStep.ended (h : InStep segments oversized buffer [])
    (hshort : buffer.length < 4) : segments = [] ∧ oversized = none := by
  have hlen := congrArg List.length h.place
  cases segments with
  | cons segment segments =>
    have hwithin := h.within segment rfl
    simp only [append_nil, length_append, flatten_cons] at hlen
    omega
  | nil =>
    cases oversized with
    | none => exact ⟨rfl, rfl⟩
    | some large =>
      simp only [append_nil, length_append, flatten_nil, declared,
        length_u32ToBytes, length_nil] at hlen
      omega

/-- Once the stream is used up no frame is left. -/
theorem InStep.all_of_nil (h : InStep (segments.drop k) oversized buffer [])
    (hk : k ≤ segments.length) : k = segments.length := by
  have hlen := congrArg List.length h.place
  cases hdrop : segments.drop k with
  | nil => exact Nat.le_antisymm hk (drop_eq_nil_iff.1 hdrop)
  | cons segment left =>
    have hwithin := h.within segment (by rw [hdrop]; rfl)
    simp only [hdrop, append_nil, length_append, flatten_cons] at hlen
    omega

theorem Reads.nil (h : InStep segments oversized buffer rest) :
    Reads segments results oversized maxBytes [] buffer rest 0 where
  delivered := ⟨[], rfl, fun hne => absurd rfl hne, by simp⟩
  inStep := h
  atEnd := by simp

/-- A call before a session that gives nothing back. -/
theorem Reads.cons (h : Reads segments results oversized maxBytes outcomes buffer rest k)
    (hk : k ≤ segments.length) {outcome : Outcome F}
    (hdelivered : RuntimeIpc.delivered (outcome :: outcomes) = RuntimeIpc.delivered outcomes)
    (hend : outcome.AtEnd → segments = [] ∧ oversized = none) :
    Reads segments results oversized maxBytes (outcome :: outcomes) buffer rest k where
  delivered := by rw [hdelivered]; exact h.delivered
  inStep := h.inStep
  atEnd := by
    rintro ⟨other, hother, hat⟩
    rcases mem_cons.1 hother with rfl | hother
    · obtain ⟨rfl, hnone⟩ := hend hat
      exact ⟨Nat.le_zero.1 hk, hnone⟩
    · exact h.atEnd ⟨other, hother, hat⟩

/-- A frame that is read before a session behind it. -/
theorem Reads.frame (h : Reads segments results oversized maxBytes outcomes buffer rest k)
    (segment : List UInt8) {result : Except RuntimeIpcIoError F} (hne : result ≠ .error .io) :
    Reads (segment :: segments) (result :: results) oversized maxBytes
      (.frame result :: outcomes) buffer rest (k + 1) where
  delivered := by
    obtain ⟨refusals, hdelivered, hk, hrefusals⟩ := h.delivered
    refine ⟨refusals, ?_, fun hsome => ?_, hrefusals⟩
    · rw [delivered_frame hne, hdelivered, take_succ_cons, cons_append]
    · rw [hk hsome, length_cons]
  inStep := h.inStep
  atEnd := by
    rintro ⟨other, hother, hat⟩
    rcases mem_cons.1 hother with rfl | hother
    · exact absurd hat hne
    · obtain ⟨hk, hnone⟩ := h.atEnd ⟨other, hother, hat⟩
      exact ⟨by rw [hk, length_cons], hnone⟩

/-- A size that is refused before a session behind all frames. -/
theorem Reads.refuse {size : UInt32} {more : List UInt8}
    (h : Reads [] [] (some (size, more)) maxBytes outcomes buffer rest 0) :
    Reads (F := F) [] [] (some (size, more)) maxBytes
      (.frame (.error (.frameTooLarge size.toNat maxBytes)) :: outcomes) buffer rest 0 where
  delivered := by
    obtain ⟨refusals, hdelivered, hk, hrefusals⟩ := h.delivered
    refine ⟨.error (.frameTooLarge size.toNat maxBytes) :: refusals, ?_, fun _ => rfl, ?_⟩
    · rw [delivered_frame (by simp), hdelivered]
      rfl
    · intro refusal hrefusal
      rcases mem_cons.1 hrefusal with rfl | hrefusal
      · exact ⟨size, more, rfl, rfl⟩
      · exact hrefusals refusal hrefusal
  inStep := h.inStep
  atEnd := by
    rintro ⟨other, hother, hat⟩
    rcases mem_cons.1 hother with rfl | hother
    · cases hat
    · exact h.atEnd ⟨other, hother, hat⟩

end steps

/-- A header takes four bytes of every frame. -/
theorem Framed.four_le {bytes : List UInt8} {result : Except RuntimeIpcIoError F}
    (h : Framed codec maxBytes bytes result) : 4 ≤ bytes.length := by
  obtain ⟨payload, rfl, -, -⟩ := h
  rw [length_append, length_u32ToBytes]
  omega

/-- Every frame of a stream has a header. -/
theorem four_le_of_framed {segments : List (List UInt8)}
    {results : List (Except RuntimeIpcIoError F)}
    (h : List.Forall₂ (Framed codec maxBytes) segments results) :
    ∀ segment ∈ segments, 4 ≤ segment.length := by
  induction h with
  | nil => simp
  | cons hframed _ ih => exact forall_mem_cons.2 ⟨hframed.four_le, ih⟩

/-- A session that starts in step reads the frames that are left. -/
theorem reads_of_inStep (hlimit : maxBytes < 2 ^ 32) {segments : List (List UInt8)}
    {results : List (Except RuntimeIpcIoError F)} {oversized : Option (UInt32 × List UInt8)}
    (hlarge : ∀ large ∈ oversized, maxBytes < large.1.toNat)
    {buffer stream buffer' rest : List UInt8} {outcomes : List (Outcome F)}
    (h : Session codec maxBytes buffer stream outcomes buffer' rest)
    (hframed : List.Forall₂ (Framed codec maxBytes) segments results)
    (hstep : InStep segments oversized buffer stream) :
    ∃ k ≤ segments.length,
      Reads segments results oversized maxBytes outcomes buffer' rest k := by
  induction h generalizing segments results with
  | nil => exact ⟨0, Nat.zero_le _, .nil hstep⟩
  | dropWait hwait _ ih =>
    have hfilled := filled_of_exec hwait
    obtain ⟨k, hk, hreads⟩ := ih hframed
      (hstep.moved (four_le_of_framed hframed) hfilled.moved hfilled.length_le)
    exact ⟨k, hk, hreads.cons hk rfl False.elim⟩
  | wait hwait _ ih =>
    have hfilled := filled_of_exec hwait
    have hstep' := hstep.moved (four_le_of_framed hframed) hfilled.moved hfilled.length_le
    obtain ⟨k, hk, hreads⟩ := ih hframed hstep'
    refine ⟨k, hk, hreads.cons hk rfl fun hend => ?_⟩
    obtain ⟨-, rfl, hshort⟩ := hfilled.failed .io (congrArg some hend)
    exact hstep'.ended (by omega)
  | @dropRead _ stream _ _ _ _ _ hread _ ih =>
    cases hframed with
    | cons hsegment hframed =>
      rename_i segment _ segments results
      obtain ⟨payload, rfl, hfits, rfl⟩ := hsegment
      have hwithin := hstep.within _ rfl
      have hplace := hstep.place
      rw [flatten_cons, append_assoc] at hplace
      rw [length_append, length_u32ToBytes] at hwithin
      obtain ⟨-, hmoved, hshort⟩ | ⟨hsome, -, -⟩ :=
        exec_readStrict (Nat.lt_of_le_of_lt hfits hlimit) hfits hplace hwithin hread
      · have hstep' : InStep ((u32ToBytes payload.length ++ payload) :: segments) oversized _ _ :=
          ⟨hmoved.trans hstep.place, fun segment hmem => by
            cases hmem
            rw [length_append, length_u32ToBytes]
            exact hshort, nofun⟩
        obtain ⟨k, hk, hreads⟩ := ih (.cons ⟨payload, rfl, hfits, rfl⟩ hframed) hstep'
        exact ⟨k, hk, hreads.cons hk rfl False.elim⟩
      · cases hsome
    | nil =>
      cases oversized with
      | some large =>
        obtain ⟨-, hmoved, hshort⟩ := exec_readStrict_tooLarge large.1.toNat_lt (hlarge large rfl)
          hstep.place (hstep.header rfl) hread
        obtain ⟨k, hk, hreads⟩ := ih .nil ⟨hmoved.trans hstep.place, nofun, fun _ => hshort⟩
        exact ⟨k, hk, hreads.cons hk rfl False.elim⟩
      | none =>
        obtain ⟨rfl, rfl⟩ := append_eq_nil_iff.1 hstep.place
        obtain ⟨-, rfl, rfl⟩ := exec_readStrict_end hread
        obtain ⟨k, hk, hreads⟩ := ih .nil hstep
        exact ⟨k, hk, hreads.cons hk rfl False.elim⟩
  | read hread _ ih =>
    cases hframed with
    | cons hsegment hframed =>
      rename_i segment _ segments results
      obtain ⟨payload, rfl, hfits, rfl⟩ := hsegment
      have hwithin := hstep.within _ rfl
      have hplace := hstep.place
      rw [flatten_cons, append_assoc] at hplace
      rw [length_append, length_u32ToBytes] at hwithin
      obtain ⟨hnone, -, -⟩ | ⟨hsome, rfl, rfl⟩ :=
        exec_readStrict (Nat.lt_of_le_of_lt hfits hlimit) hfits hplace hwithin hread
      · cases hnone
      · cases hsome
        have hfour := four_le_of_framed hframed
        obtain ⟨k, hk, hreads⟩ := ih hframed ⟨rfl, fun segment hmem => by
          have := hfour segment (mem_of_mem_head? hmem)
          rw [length_nil]
          omega, fun _ => Nat.zero_le _⟩
        exact ⟨k + 1, Nat.succ_le_succ hk, hreads.frame _ (parseStrictFrame_ne_io payload)⟩
    | nil =>
      cases oversized with
      | some large =>
        obtain ⟨hresult, hmoved, hshort⟩ := exec_readStrict_tooLarge large.1.toNat_lt
          (hlarge large rfl) hstep.place (hstep.header rfl) hread
        obtain ⟨k, hk, hreads⟩ := ih .nil ⟨hmoved.trans hstep.place, nofun, fun _ => hshort⟩
        obtain rfl := Nat.le_zero.1 hk
        rcases hresult with hnone | hsome
        · cases hnone
        · cases hsome
          exact ⟨0, Nat.le_refl 0, hreads.refuse⟩
      | none =>
        obtain ⟨rfl, rfl⟩ := append_eq_nil_iff.1 hstep.place
        obtain ⟨hresult, rfl, rfl⟩ := exec_readStrict_end hread
        obtain ⟨k, hk, hreads⟩ := ih .nil hstep
        rcases hresult with hnone | hsome
        · cases hnone
        · cases hsome
          exact ⟨k, hk, hreads.cons hk rfl fun _ => ⟨rfl, rfl⟩⟩

/-- Frames that are written within the limit are read as they were written, each once and in order,
however the stream is cut and whichever calls are dropped. A payload that is no frame gives one
error and leaves the reader at the next frame; a size that is over the limit is refused with no more
than the header read. (Both limits of the source are below `2 ^ 32`.) -/
theorem session_reads (hcodec : codec.Lawful) (hlimit : maxBytes < 2 ^ 32)
    {segments : List (List UInt8)} {results : List (Except RuntimeIpcIoError F)}
    (hsent : List.Forall₂ (Sent codec maxBytes) segments results)
    {oversized : Option (UInt32 × List UInt8)}
    (hlarge : ∀ large ∈ oversized, maxBytes < large.1.toNat)
    {outcomes : List (Outcome F)} {buffer rest : List UInt8}
    (h : Session codec maxBytes [] (segments.flatten ++ declared oversized) outcomes buffer rest) :
    ∃ k ≤ segments.length, Reads segments results oversized maxBytes outcomes buffer rest k ∧
      (rest = [] → k = segments.length) := by
  have hframed : List.Forall₂ (Framed codec maxBytes) segments results :=
    hsent.imp fun _ _ hsent => hsent.framed hcodec
  have hfour := four_le_of_framed hframed
  have hstep : InStep segments oversized [] (segments.flatten ++ declared oversized) := by
    refine ⟨rfl, fun segment hmem => ?_, fun _ => Nat.zero_le _⟩
    have := hfour segment (mem_of_mem_head? hmem)
    rw [length_nil]
    omega
  obtain ⟨k, hk, hreads⟩ := reads_of_inStep hlimit hlarge h hframed hstep
  refine ⟨k, hk, hreads, ?_⟩
  rintro rfl
  exact hreads.inStep.all_of_nil hk

/-- Frames that are one bit, for a run of the reader. -/
def bitCodec : FrameCodec Bool where
  toWriter frame := ([[if frame then 1 else 0]], none)
  fromSlice bytes := match bytes with
    | [byte] => .ok (.bool (byte == 1))
    | _ => .error "expected value"
  fromValue value := match value with
    | .bool frame => .ok frame
    | _ => .error "invalid type"
  toValue frame := .ok (.bool frame)

theorem bitCodec_lawful : bitCodec.Lawful := by
  intro frame _
  cases frame with
  | false => exact ⟨.bool false, .bool false, rfl, rfl, rfl, rfl⟩
  | true => exact ⟨.bool true, .bool true, rfl, rfl, rfl, rfl⟩

/-- A read that is dropped in the header. -/
theorem exec_header : (readStrict bitCodec 1 []).Exec [0, 0, 0, 1, 1] none [0, 0] [0, 1, 1] := by
  refine @Resumable.Exec.read _ _ _ _ _ _ _ [0, 0] [0, 1, 1] _ _ (by decide) ?_ ?_
  · decide
  · exact .drop _ _ _ _

theorem exec_rest : (readStrict bitCodec 1 [0, 0]).Exec [0, 1, 1] (some (.ok true)) [] [] := by
  refine @Resumable.Exec.read _ _ _ _ _ _ _ [0, 1] [1] _ _ (by decide) ?_ ?_
  · decide
  · have hsize : u32FromBytes [0, 0, 0, 1] = 1 := by decide
    -- the size has to be a number before the second `fill` can be run
    simp only [isEmpty_cons, Bool.false_eq_true, ↓reduceIte, fillFrom, cons_append,
      nil_append, length_cons, length_nil, Nat.zero_add, Nat.reduceAdd,
      Nat.lt_irrefl, gt_iff_lt, fill, Resumable.bind, hsize, Nat.reduceSub]
    refine @Resumable.Exec.read _ _ _ _ _ _ _ [1] [] _ _ (by decide) ?_ ?_
    · decide
    · exact .done _ _ _

theorem session_reads_bit : ∃ k ≤ 1, Reads [[0, 0, 0, 1, 1]] [.ok true] none 1
    [.dropped, .frame (.ok true)] [] [] k ∧ ([] = ([] : List UInt8) → k = 1) :=
  session_reads bitCodec_lawful (by decide) (.cons (@Sent.frame _ _ _ true _ rfl) .nil)
    (by simp) (.dropRead exec_header (.read exec_rest (.nil [] [])))

end RuntimeIpc

end OpenBitFun
