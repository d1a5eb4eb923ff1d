import Mathlib
import OpenBitFun.AssocMap
import OpenBitFun.Run
import OpenBitFun.Text

/-!
# The output of background commands

The output of a command that goes on in the background is captured in chunks
(`background_command_output.rs`). A capture keeps the last chunks, up to a number of bytes, and
numbers all of them; a reader gives the number it has read up to and gets the chunks after it, or a
snapshot to start over from. Everything happens under the lock of the records, so a step is what
one holder of the lock does. Which capture a session stands for is looked up before, in an index
of its own: here a reader names its capture, and any capture may be read at any time.
-/

namespace OpenBitFun

namespace BackgroundCommandOutput

/-! ## Captures -/

/-- `u64::MAX`, and `usize::MAX` on the machines the program runs on. -/
def wordMax : ℕ := 2 ^ 64 - 1

/-- `saturating_add`. -/
def saturatingAdd (m n : ℕ) : ℕ := min (m + n) wordMax

/-- `BACKGROUND_COMMAND_OUTPUT_CAPTURE_LIMIT_BYTES`. -/
def captureLimitBytes : ℕ := 1024 * 1024

/-- `BACKGROUND_COMMAND_OUTPUT_COMPLETED_TTL`, in nanoseconds. -/
def completedTtl : ℕ := 30 * 60 * 10 ^ 9

/-- `MAX_BACKGROUND_COMMAND_OUTPUT_RECORDS`. -/
def maxRecords : ℕ := 128

/-- A `String`: nothing that is allocated is longer than `isize::MAX` bytes. -/
structure Output where
  text : List Char
  fits : Text.byteLength text < 2 ^ 63
  deriving DecidableEq

/-- `len`, in bytes. -/
def Output.len (o : Output) : ℕ := Text.byteLength o.text

/-- `BackgroundCommandOutputStatus`. -/
inductive Status where
  | running
  | exited
  | interrupted
  | killed
  | pruned
  | failed
  deriving DecidableEq, Repr

/-- `ExecTerminalSize`. -/
structure ExecTerminalSize where
  cols : UInt16
  rows : UInt16
  deriving DecidableEq

/-- `BackgroundCommandOutputChunk`. -/
structure Chunk where
  cursor : ℕ
  text : Output
  bytes : ℕ
  deriving DecidableEq

/-- `BackgroundCommandOutputRecord`. Instants are in nanoseconds. -/
structure Record where
  agentSessionId : Option String
  command : String
  workdir : Option String
  remote : Bool
  tty : Bool
  terminalSize : Option ExecTerminalSize
  execSessionId : Option Int
  status : Status
  exitCode : Option Int
  startedAt : ℕ
  endedAt : Option ℕ
  completedAt : Option ℕ
  chunks : List Chunk
  nextCursor : ℕ
  retainedBytes : ℕ
  truncatedFromStart : Bool

/-- `BackgroundCommandOutputMetadata`. -/
structure Metadata where
  agentSessionId : Option String
  execSessionId : Option Int
  command : String
  workdir : Option String
  remote : Bool
  tty : Bool
  terminalSize : Option ExecTerminalSize
  status : Status
  exitCode : Option Int
  startedAt : ℕ
  endedAt : Option ℕ
  retainedBytes : ℕ
  retainedLimitBytes : ℕ
  truncatedFromStart : Bool
  deriving DecidableEq

/-- `StartBackgroundCommandOutputCapture`. -/
structure StartRequest where
  captureId : String
  agentSessionId : Option String
  command : String
  workdir : Option String
  remote : Bool
  tty : Bool
  terminalSize : Option ExecTerminalSize

/-- `ReadBackgroundCommandOutputResponse`. -/
structure ReadResponse where
  metadata : Metadata
  cursor : ℕ
  reset : Bool
  snapshot : Option (List Char)
  chunks : List Output
  deriving DecidableEq

namespace Record

/-- The record that `start_capture` inserts. -/
def start (request : StartRequest) (nowUnixSeconds : ℕ) : Record where
  agentSessionId := request.agentSessionId
  command := request.command
  workdir := request.workdir
  remote := request.remote
  tty := request.tty
  terminalSize := request.terminalSize.filter fun _ => request.tty
  execSessionId := none
  status := .running
  exitCode := none
  startedAt := nowUnixSeconds
  endedAt := none
  completedAt := none
  chunks := []
  nextCursor := 0
  retainedBytes := 0
  truncatedFromStart := false

/-- `snapshot`. -/
def snapshot (r : Record) : List Char := r.chunks.flatMap (·.text.text)

/-- `metadata`. -/
def metadata (r : Record) : Metadata where
  agentSessionId := r.agentSessionId
  execSessionId := r.execSessionId
  command := r.command
  workdir := r.workdir
  remote := r.remote
  tty := r.tty
  terminalSize := r.terminalSize
  status := r.status
  exitCode := r.exitCode
  startedAt := r.startedAt
  endedAt := r.endedAt
  retainedBytes := r.retainedBytes
  retainedLimitBytes := captureLimitBytes
  truncatedFromStart := r.truncatedFromStart

/-- `finish_record`. -/
def finish (nowUnixSeconds now : ℕ) (status : Status) (exitCode : Option Int) (r : Record) :
    Record :=
  { r with
    status
    exitCode
    endedAt := some (r.endedAt.getD nowUnixSeconds)
    completedAt := some (r.completedAt.getD now) }

/-- `update_lifecycle`. -/
def updateLifecycle (nowUnixSeconds now : ℕ) (execSessionId : Int) (status : Status)
    (exitCode : Option Int) (r : Record) : Record :=
  let updated := { r with execSessionId := some execSessionId, status, exitCode }
  if status = .running then updated else updated.finish nowUnixSeconds now status exitCode

/-- The loop of `append_chunk` over the front of the queue: with the bytes that are retained and
the mark of truncation. -/
def evict : List Chunk → (retainedBytes : ℕ) → (truncated : Bool) → List Chunk × ℕ × Bool
  | [], retainedBytes, truncated => ([], retainedBytes, truncated)
  | dropped :: chunks, retainedBytes, truncated =>
    if retainedBytes > captureLimitBytes then
      evict chunks (retainedBytes - dropped.bytes) true
    else
      (dropped :: chunks, retainedBytes, truncated)

/-- `append_chunk`, for a text that is not empty. -/
def appendChunk (text : Output) (r : Record) : Record :=
  let chunks := r.chunks ++ [⟨r.nextCursor, text, text.len⟩]
  let kept := evict chunks (saturatingAdd r.retainedBytes text.len) r.truncatedFromStart
  { r with
    chunks := kept.1
    nextCursor := saturatingAdd r.nextCursor 1
    retainedBytes := kept.2.1
    truncatedFromStart := kept.2.2 }

/-- The reset rule of `read`: the reader's cursor is before the first chunk. -/
def shouldReset (r : Record) (cursor : Option ℕ) : Bool :=
  match cursor, r.chunks.head? with
  | some cursor, some first => cursor < first.cursor
  | _, _ => false

/-- `read`, once it has the record. -/
def read (r : Record) (cursor : Option ℕ) : ReadResponse where
  metadata := r.metadata
  cursor := r.nextCursor
  reset := r.shouldReset cursor
  snapshot := if cursor.isNone || r.shouldReset cursor then some r.snapshot else none
  chunks :=
    match cursor.filter fun _ => !r.shouldReset cursor with
    | some cursor => (r.chunks.filter fun chunk => chunk.cursor ≥ cursor).map Chunk.text
    | none => []

/-- The retained output, chunk by chunk. -/
def retained (r : Record) : List Output := r.chunks.map Chunk.text

end Record

/-! ## The records -/

/-- The records of the captures, by their ids. -/
abbrev Records := AssocMap String Record

/-- The records that outlive a cleanup: all but those completed long ago, and the one that is about
to be read. -/
def Records.cleanup (now : ℕ) (keep : String) (records : Records) : Records :=
  records.retainEntries fun captureId r =>
    captureId == keep || r.completedAt.all fun completedAt => now - completedAt ≤ completedTtl

/-- Completed captures go before the others, and older ones first. -/
def Record.age (r : Record) : Bool ×ₗ ℕ := toLex (r.completedAt.isNone, r.startedAt)

/-- `prune_record_count`: the oldest record goes as long as there are too many. A map is visited in
any order, so any oldest record may be the one. -/
inductive Pruned : Records → Records → Prop
  | done {records : Records} (h : records.size ≤ maxRecords) : Pruned records records
  | drop {records records' : Records} {captureId : String} {oldest : Record}
      (hmany : records.size > maxRecords) (hmem : records.lookup captureId = some oldest)
      (hmin : ∀ id r, records.lookup id = some r → oldest.age ≤ r.age)
      (hrest : Pruned (records.erase captureId) records') : Pruned records records'

/-- What has happened to the captures. -/
inductive Event where
  /-- a capture is started, under an id that may have been used before -/
  | started (captureId : String)
  | appended (captureId : String) (text : Output)
  /-- a reader with a cursor is answered; the record retained the output -/
  | answered (captureId : String) (retained : List Output) (cursor : Option ℕ)
    (response : ReadResponse)
  deriving DecidableEq

/-- What the holders of the lock do. -/
inductive Operation where
  | startCapture (request : StartRequest) (nowUnixSeconds : ℕ)
  | setSessionId (captureId : String) (execSessionId : Option Int)
  | updateLifecycle (captureId : String) (execSessionId : Int) (status : Status)
    (exitCode : Option Int) (nowUnixSeconds now : ℕ)
  | finish (captureId : String) (status : Status) (exitCode : Option Int)
    (nowUnixSeconds now : ℕ)
  | appendChunk (captureId : String) (text : Output)
  | read (captureId : String) (cursor : Option ℕ)
  | cleanup (now : ℕ) (keep : String)

/-- The records and the events so far. -/
structure World where
  records : Records
  log : List Event

namespace World

/-- No capture was started yet. -/
def new : World := ⟨∅, []⟩

/-- What an operation does, but for the pruning when a capture is started. -/
def perform (w : World) : Operation → World
  | .startCapture request nowUnixSeconds =>
    ⟨w.records.insert request.captureId (.start request nowUnixSeconds),
      w.log ++ [.started request.captureId]⟩
  | .setSessionId captureId execSessionId =>
    { w with records := w.records.modify captureId fun r => { r with execSessionId } }
  | .updateLifecycle captureId execSessionId status exitCode nowUnixSeconds now =>
    { w with
      records := w.records.modify captureId
        (.updateLifecycle nowUnixSeconds now execSessionId status exitCode) }
  | .finish captureId status exitCode nowUnixSeconds now =>
    { w with records := w.records.modify captureId (.finish nowUnixSeconds now status exitCode) }
  | .appendChunk captureId text =>
    if text.text = [] then
      w
    else
      match w.records.lookup captureId with
      | none => w
      | some r =>
        ⟨w.records.insert captureId (r.appendChunk text), w.log ++ [.appended captureId text]⟩
  | .read captureId cursor =>
    match w.records.lookup captureId with
    | none => w
    | some r => { w with log := w.log ++ [.answered captureId r.retained cursor (r.read cursor)] }
  | .cleanup now keep => { w with records := w.records.cleanup now keep }

end World

/-- One step: an operation, and the pruning of the records after a capture is started. -/
inductive Step : World → Operation → World → Prop
  | start {w : World} {request : StartRequest} {nowUnixSeconds : ℕ} {records : Records}
      (h : Pruned (w.perform (.startCapture request nowUnixSeconds)).records records) :
      Step w (.startCapture request nowUnixSeconds)
        { w.perform (.startCapture request nowUnixSeconds) with records }
  | other {w : World} {operation : Operation}
      (h : ∀ request now, operation ≠ .startCapture request now) :
      Step w operation (w.perform operation)

end BackgroundCommandOutput

end OpenBitFun
