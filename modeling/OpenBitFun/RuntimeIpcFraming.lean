import OpenBitFun.Json
import OpenBitFun.Resumable

/-!
# Frames of the runtime's socket

A frame is four bytes with its size, big end first, and the JSON of the frame (`framing.rs`). The
reader keeps what it has read of a frame in a buffer, so that a read that is dropped is taken up by
the next one. What `serde` makes of a frame is left to a codec.
-/

namespace OpenBitFun

namespace RuntimeIpc

open Json

universe u

/-- `RuntimeIpcIoError`. -/
inductive RuntimeIpcIoError where
  | frameTooLarge (size maxBytes : ℕ)
  | io
  | serialize (message : String)
  | deserialize (message : String)
  | unknownField (path : String)
  deriving DecidableEq, Repr

/-- What `serde` does with frames. -/
structure FrameCodec (F : Type u) where
  /-- The writes of `serde_json::to_writer`, and the error behind them. -/
  toWriter : F → List (List UInt8) × Option String
  /-- `serde_json::from_slice` to a value. -/
  fromSlice : List UInt8 → Except String Value
  /-- `serde_json::from_value`. -/
  fromValue : Value → Except String F
  /-- `serde_json::to_value`. -/
  toValue : F → Except String Value

variable {F : Type u} (codec : FrameCodec F) (maxBytes : ℕ)

/-! ## Writing -/

/-- The writes that a `CappedWriter` takes: nothing if one of them is over the limit. -/
def cappedWrites (bytes : List UInt8) : List (List UInt8) → Option (List UInt8)
  | [] => some bytes
  | input :: inputs =>
    if input.length > maxBytes - bytes.length then none else cappedWrites (bytes ++ input) inputs

/-- `serialize_frame_with_limit`, with `encode_json_with_limit` in it. -/
def serializeFrameWithLimit (frame : F) : Except RuntimeIpcIoError (List UInt8) :=
  match cappedWrites maxBytes [] (codec.toWriter frame).1 with
  | none => .error (.frameTooLarge (maxBytes + 1) maxBytes)
  | some bytes => match (codec.toWriter frame).2 with
    | some message => .error (.serialize message)
    | none => .ok bytes

/-- `write_u32`: big end first. -/
def u32ToBytes (n : ℕ) : List UInt8 :=
  [UInt8.ofNat (n / 2 ^ 24 % 2 ^ 8), UInt8.ofNat (n / 2 ^ 16 % 2 ^ 8),
    UInt8.ofNat (n / 2 ^ 8 % 2 ^ 8), UInt8.ofNat (n % 2 ^ 8)]

/-- `write_serialized_frame_with_limit`: the bytes that are written. -/
def writeSerializedFrameWithLimit (bytes : List UInt8) : Except RuntimeIpcIoError (List UInt8) :=
  if bytes.length > maxBytes then .error (.frameTooLarge bytes.length maxBytes)
  else .ok (u32ToBytes bytes.length ++ bytes)

/-- `write_frame_with_limit`: the bytes that are written. -/
def writeFrameWithLimit (frame : F) : Except RuntimeIpcIoError (List UInt8) :=
  match serializeFrameWithLimit codec maxBytes frame with
  | .error e => .error e
  | .ok bytes => writeSerializedFrameWithLimit maxBytes bytes

/-! ## Parsing -/

mutual

/-- `first_unknown_field`: the path of a field that the frame does not have. -/
def firstUnknownField (original canonical : Value) (path : String) : Option String :=
  match original, canonical with
  | .object original, .object canonical => firstUnknownInFields original canonical path
  | .array original, .array canonical => firstUnknownInItems original canonical 0 path
  | _, _ => none

/-- The loop over the fields of an object. -/
def firstUnknownInFields (original canonical : List (String × Value)) (path : String) :
    Option String :=
  match original with
  | [] => none
  | (key, value) :: original =>
    let nextPath := path ++ "." ++ key
    match lookup key canonical with
    | none => some nextPath
    | some canonicalValue =>
      (firstUnknownField value canonicalValue nextPath).or
        (firstUnknownInFields original canonical path)

/-- The loop over the items of an array. -/
def firstUnknownInItems (original canonical : List Value) (index : ℕ) (path : String) :
    Option String :=
  match original, canonical with
  | item :: original, canonicalItem :: canonical =>
    (firstUnknownField item canonicalItem (path ++ "[" ++ toString index ++ "]")).or
      (firstUnknownInItems original canonical (index + 1) path)
  | _, _ => none

end

/-- `parse_strict_frame`. -/
def parseStrictFrame (bytes : List UInt8) : Except RuntimeIpcIoError F :=
  match codec.fromSlice bytes with
  | .error e => .error (.deserialize e)
  | .ok original => match codec.fromValue original with
    | .error e => .error (.deserialize e)
    | .ok frame => match codec.toValue frame with
      | .error e => .error (.serialize e)
      | .ok canonical => match firstUnknownField original canonical "$" with
        | some path => .error (.unknownField path)
        | none => .ok frame

/-! ## Reading -/

/-- A process of the reader: its state is the buffer. -/
abbrev Reading (α : Type u) := Resumable (List UInt8) UInt8 α

/-- The bytes that `fill` reads at once. -/
def chunkSize : ℕ := 8 * 1024

/-- The loop of `fill`, which reads a byte at least in each round. -/
def fillFrom (target : ℕ) : (rounds : ℕ) → List UInt8 → Reading (Except RuntimeIpcIoError PUnit)
  | 0, buffer => .done buffer (.ok ⟨⟩)
  | rounds + 1, buffer =>
    if buffer.length < target then
      .read buffer (min (target - buffer.length) chunkSize) fun read =>
        if read.isEmpty then .done buffer (.error .io)
        else fillFrom target rounds (buffer ++ read)
    else .done buffer (.ok ⟨⟩)

/-- `fill`. -/
def fill (target : ℕ) (buffer : List UInt8) : Reading (Except RuntimeIpcIoError PUnit) :=
  fillFrom target (target - buffer.length) buffer

/-- `u32::from_be_bytes` of the first four bytes. -/
def u32FromBytes (bytes : List UInt8) : ℕ :=
  (bytes.take 4).foldl (fun n byte => n * 2 ^ 8 + byte.toNat) 0

/-- `read_strict`. -/
def readStrict (buffer : List UInt8) : Reading (Except RuntimeIpcIoError F) :=
  (fill 4 buffer).bind fun buffer header => match header with
    | .error e => .done buffer (.error e)
    | .ok _ =>
      let size := u32FromBytes buffer
      if size > maxBytes then .done buffer (.error (.frameTooLarge size maxBytes))
      else (fill (size + 4) buffer).bind fun buffer payload => match payload with
        | .error e => .done buffer (.error e)
        | .ok _ => .done [] (parseStrictFrame codec (buffer.drop 4))

/-- `wait_for_frame_start`. -/
def waitForFrameStart (buffer : List UInt8) : Reading (Except RuntimeIpcIoError PUnit) :=
  fill 1 buffer

/-! ## Sessions -/

/-- What has become of a call on the reader. -/
inductive Outcome (F : Type u) where
  /-- The future was dropped. -/
  | dropped
  | frameStart (result : Except RuntimeIpcIoError PUnit.{u + 1})
  | frame (result : Except RuntimeIpcIoError F)

/-- Calls on one reader, one after another: its buffer and what is left of the stream. -/
inductive Session : List UInt8 → List UInt8 → List (Outcome F) → List UInt8 → List UInt8 → Prop
  | nil (buffer stream : List UInt8) : Session buffer stream [] buffer stream
  | dropWait {buffer stream middle left buffer' rest : List UInt8} {outcomes : List (Outcome F)} :
    (waitForFrameStart.{u} buffer).Exec stream none middle left →
      Session middle left outcomes buffer' rest →
        Session buffer stream (.dropped :: outcomes) buffer' rest
  | wait {buffer stream middle left buffer' rest : List UInt8} {outcomes : List (Outcome F)}
    {result : Except RuntimeIpcIoError PUnit} :
    (waitForFrameStart buffer).Exec stream (some result) middle left →
      Session middle left outcomes buffer' rest →
        Session buffer stream (.frameStart result :: outcomes) buffer' rest
  | dropRead {buffer stream middle left buffer' rest : List UInt8} {outcomes : List (Outcome F)} :
    (readStrict codec maxBytes buffer).Exec stream none middle left →
      Session middle left outcomes buffer' rest →
        Session buffer stream (.dropped :: outcomes) buffer' rest
  | read {buffer stream middle left buffer' rest : List UInt8} {outcomes : List (Outcome F)}
    {result : Except RuntimeIpcIoError F} :
    (readStrict codec maxBytes buffer).Exec stream (some result) middle left →
      Session middle left outcomes buffer' rest →
        Session buffer stream (.frame result :: outcomes) buffer' rest

end RuntimeIpc

end OpenBitFun
