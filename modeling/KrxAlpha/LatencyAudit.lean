import KrxAlpha.JsonRead
import KrxAlpha.LineBytes
import KrxAlpha.LossAudit
import KrxAlpha.MarketPhases
import Mathlib.Data.List.Sort

/-! Delivery latency of a journal. Samples are kept by minute and connection while they fit into
a budget of bytes; when they do not, the newest minutes are given up and only their samples
counted. What was given up is collected later, in batches, by reading the files again. -/
namespace KrxAlpha.LatencyAudit
open JsonText LineBytes

/-- A record as `_decode_envelope` returns it. -/
structure JournalEnvelope extends Envelope where
  raw : String
  exchangeEventTime : String

/-- A field that is to be a text; anything else is the empty one. -/
def textField (fields : List (List Char × Value)) (name : String) : String :=
  match Dict.find name.toList fields with
  | some (.string text) => String.ofList text
  | _ => ""

/-- `_decode_envelope`, with `_parse_int` for the sequence number. -/
def decodeEnvelope (parseInt : Option Value → Option Int) (line : List UInt8) : Option JournalEnvelope :=
  match (decode line).bind loads with
  | some (.object fields) =>
    match Dict.find "raw".toList fields, Dict.find "recv_wall_ns".toList fields with
    | some (.string raw), some (.int recv) =>
      some
        { raw := String.ofList raw
          recvNs := recv
          connId := textField fields "conn_id"
          connSeq := parseInt (Dict.find "conn_seq".toList fields)
          exchangeEventTime := textField fields "exchange_event_time"
          symbol := textField fields "symbol" }
    | _, _ => none
  | _ => none

theorem decode_envelope_blank (parseInt : Option Value → Option Int)
    (blank : isBlank line = true) : decodeEnvelope parseInt line = none := by
  have unread : (decode line).bind loads = none := by
    cases read : decode line with
    | none => rfl
    | some text => exact loads_blank (decoded_blank blank read)
  rw [decodeEnvelope, unread]

/-- A file as `_iter_line_batches` yields it: pieces of whole lines, and whether an error ended
them. -/
structure JournalFile where
  blobs : List (List UInt8)
  truncated : Bool

/-- `_MINUTE_SAMPLE_OVERHEAD_BYTES` -/
def minuteSampleOverheadBytes : Nat := 80

/-- `_TICK_STREAM` -/
def tickStream : String := "H0STCNT0"

/-- `_KEY_SEP` -/
def keySep : Char := '|'

structure LatencyMinute (F : Type) where
  minuteKst : String
  count : Nat
  p50S : F
  maxS : F
  minS : F
  secondaryCount : Nat
  secondaryMaxS : F

/-- What the first pass notes whatever the budget is. -/
structure StreamFacts where
  rows : Nat := 0
  missing : Nat := 0
  failed : Bool := false
  order : List String := []
  counts : Dict String Nat := ∅
  eventSeconds : List Int := []
  spans : Dict String (Int × Int) := ∅
  symbols : Dict String (List String) := ∅

structure StreamAccumulator (F : Type) extends StreamFacts where
  samples : Dict String (List F) := ∅
  evicted : List String := []
  storedBytes : Int := 0

inductive LatencyError where
  | sampleCountChanged
  | noSamples
  deriving DecidableEq

inductive AuditStatus where
  | ok
  | partially
  | unavailable
  deriving DecidableEq

/-- First and last second of the day without an event, and how many these are. -/
structure EventHole where
  start : Int
  stop : Int
  seconds : Int

structure StreamLatency (F : Type) where
  stream : String
  status : AuditStatus
  reason : String
  rows : Nat
  eventTimeMissing : Nat
  minutes : List (LatencyMinute F)
  eventHoles : List EventHole
  eventHoleSeconds : Int

/-- What the audit of one stream is given. Seconds are of a type `F`, `δ` is the rest of the
derivation. A value that the source computes under `except` is `none` where it raises. Of the
decoder, such as `decodeEnvelope`, only this matters: a blank line is no record. -/
structure StreamAudit (F δ : Type) where
  stream : String
  decodeEnvelope : List UInt8 → Option JournalEnvelope
  decode_blank : ∀ line, isBlank line = true → decodeEnvelope line = none
  /-- `_tick_body(vendor, raw).get("chetime")`, if it is a text -/
  tickChetime : String → Option String
  /-- the second at which the time of day begins on the audited day -/
  eventEpoch : Chetime → Int
  /-- `fromtimestamp(second, tz=_KST).strftime("%H:%M")` -/
  kstMinute : Int → Option String
  /-- the quotient of nanoseconds by `1_000_000_000` -/
  seconds : Int → Option F
  /-- what the tick of a record does, and whether it raises -/
  acceptTick : δ → JournalEnvelope → δ × Bool
  noteSequence : δ → JournalEnvelope → δ
  openS : Int
  auctionS : Int
  eventHoleMinS : Int
  maxEventHoles : Nat

section Samples

variable {F : Type}

namespace StreamAccumulator

/-- The samples of a key are deleted, and it is noted that they were. -/
def giveUp (acc : StreamAccumulator F) (candidate : String) (held : List F) : StreamAccumulator F :=
  { acc with
    storedBytes := acc.storedBytes - ((held.length : Int) * 8 + minuteSampleOverheadBytes)
    samples := acc.samples.erase candidate
    evicted := candidate :: acc.evicted }

/-- Give up the samples of candidates until one more sample fits. -/
def evict (budget : Nat) (acc : StreamAccumulator F) : List String → StreamAccumulator F
  | [] => acc
  | candidate :: older =>
    match acc.samples.get? candidate with
    | none => evict budget acc older
    | some held =>
      let acc := acc.giveUp candidate held
      if acc.storedBytes + 8 ≤ (budget : Int) then acc else evict budget acc older

/-- `acc.samples[minute].append(latency)` -/
def append (acc : StreamAccumulator F) (minute : String) (latency : F) : StreamAccumulator F :=
  { acc with
    samples := acc.samples.set minute ((acc.samples.get? minute).getD [] ++ [latency])
    storedBytes := acc.storedBytes + 8 }

def addSample (budget : Nat) (acc : StreamAccumulator F) (minute : String) (latency : F) :
    StreamAccumulator F :=
  match acc.counts.get? minute with
  | none =>
    let acc := { acc with
      order := acc.order ++ [minute]
      counts := acc.counts.set minute 1 }
    let cost : Int := 8 + minuteSampleOverheadBytes
    if acc.storedBytes + cost ≤ (budget : Int) then
      { acc with
        samples := acc.samples.set minute [latency]
        storedBytes := acc.storedBytes + cost }
    else { acc with evicted := minute :: acc.evicted }
  | some known =>
    let acc := { acc with counts := acc.counts.set minute (known + 1) }
    if acc.evicted.contains minute then acc
    else if acc.storedBytes + 8 ≤ (budget : Int) then acc.append minute latency
    else
      let acc := acc.evict budget acc.order.reverse
      if acc.evicted.contains minute then acc else acc.append minute latency

end StreamAccumulator

end Samples

section Minutes

variable {F : Type} [LinearOrder F] [Zero F]

/-- Count, median, greatest and least of the samples of a key. -/
def finalizeMinute (minute : String) (samples : List F) : Except LatencyError (LatencyMinute F) :=
  let ordered := samples.insertionSort (· ≤ ·)
  match ordered[(ordered.length - 1) / 2]?, ordered.getLast?, ordered.head? with
  | some median, some maximum, some minimum =>
    .ok ⟨String.ofList (minute.toList.takeWhile (· ≠ keySep)), samples.length, median, maximum, minimum, 0, 0⟩
  | _, _, _ => .error .noSamples

/-- One connection of a minute: its name, its minute, when it received and which symbols. -/
abbrev MinutePart (F : Type) := String × LatencyMinute F × (Int × Int) × List String

/-- The part with most samples; among equals the one whose connection comes last. -/
def dominantPart (first : MinutePart F) (rest : List (MinutePart F)) : MinutePart F :=
  rest.foldl (fun best part =>
    if best.2.1.count < part.2.1.count ∨ best.2.1.count = part.2.1.count ∧ best.1 < part.1 then part
    else best) first

def mergeConnections (minute : String) (first : MinutePart F) (rest : List (MinutePart F)) :
    LatencyMinute F :=
  let dominant := dominantPart first rest
  let others := (first :: rest).filter (·.1 ≠ dominant.1)
  let secondary : MinutePart F → Bool := fun part =>
    part.2.2.1.1 ≤ dominant.2.2.1.2 ∧ dominant.2.2.1.1 ≤ part.2.2.1.2 ∧
      part.2.2.2.any (dominant.2.2.2.contains ·)
  let judged := (others.filter fun part => !secondary part).map (·.2.1)
  let doubled := (others.filter secondary).map (·.2.1)
  { minuteKst := minute
    count := ((dominant.2.1 :: judged).map (·.count)).sum
    p50S := dominant.2.1.p50S
    maxS := judged.foldl (fun greatest entry => max greatest entry.maxS) dominant.2.1.maxS
    minS := judged.foldl (fun least entry => min least entry.minS) dominant.2.1.minS
    secondaryCount := (doubled.map (·.count)).sum
    secondaryMaxS := doubled.foldl (fun greatest entry => max greatest entry.maxS) 0 }

end Minutes

/-- The longest stretches without an event second, and how long all are together. -/
def eventHoles (seconds : List Int) (startS endS minHoleS : Int) (cap : Nat) : List EventHole × Int :=
  let inside := (seconds.filter fun second => startS ≤ second ∧ second < endS).insertionSort (· ≤ ·)
  if inside.isEmpty then ([], 0)
  else
    let edges := (startS - 1) :: inside ++ [endS]
    let holes : List EventHole := ((edges.zip edges.tail).filter fun edge =>
      minHoleS ≤ edge.2 - edge.1 - 1).map fun edge => ⟨edge.1 + 1, edge.2 - 1, edge.2 - edge.1 - 1⟩
    let longest := (holes.insertionSort fun one other =>
      other.seconds < one.seconds ∨ one.seconds = other.seconds ∧ one.start ≤ other.start).take cap
    (longest.insertionSort (·.start ≤ ·.start), (holes.map (·.seconds)).sum)

namespace StreamAudit

variable {F δ : Type} (audit : StreamAudit F δ)

/-- The time of day of the event: the record's own field, or the one in its payload. -/
def moment (record : JournalEnvelope) : Option Chetime :=
  match parseEventTime record.exchangeEventTime with
  | some moment => some moment
  | none =>
    if audit.stream = tickStream then (audit.tickChetime record.raw).bind parseEventTime
    else (extractField "hotime" record.raw).bind parseEventTime

def latencyKey (record : JournalEnvelope) : Option String :=
  (audit.kstMinute (record.recvNs / 1000000000)).map fun minute =>
    minute ++ String.ofList (keySep :: record.connId.toList)

def latency (record : JournalEnvelope) (moment : Chetime) : Option F :=
  audit.seconds (record.recvNs - audit.eventEpoch moment * 1000000000)

def latencySample (record : JournalEnvelope) : Option (String × F) := do
  let moment ← audit.moment record
  let key ← audit.latencyKey record
  let latency ← audit.latency record moment
  return (key, latency)

def noteSecond (facts : StreamFacts) (moment : Chetime) : StreamFacts :=
  let second : Int := moment.hour.val * 3600 + moment.minute.val * 60 + moment.second.val
  { facts with eventSeconds := if facts.eventSeconds.contains second then facts.eventSeconds
      else second :: facts.eventSeconds }

def noteSpan (facts : StreamFacts) (key : String) (record : JournalEnvelope) : StreamFacts :=
  let symbols := (facts.symbols.get? key).getD []
  { facts with
    spans := facts.spans.set key (match facts.spans.get? key with
      | none => (record.recvNs, record.recvNs)
      | some span => (min span.1 record.recvNs, max span.2 record.recvNs))
    symbols := facts.symbols.set key
      (if symbols.contains record.symbol then symbols else record.symbol :: symbols) }

/-- The flag says that the record raised. -/
def handleRecord (budget : Nat) (acc : StreamAccumulator F) (derived : δ) (record : JournalEnvelope) :
    StreamAccumulator F × δ × Bool :=
  match audit.moment record with
  | none =>
    ({ acc with missing := acc.missing + 1 }, audit.acceptTick derived record)
  | some moment =>
    let acc := { acc with toStreamFacts := noteSecond acc.toStreamFacts moment }
    match audit.latencyKey record with
    | none => (acc, derived, true)
    | some key =>
      let acc := { acc with toStreamFacts := noteSpan acc.toStreamFacts key record }
      match audit.latency record moment with
      | none => (acc, derived, true)
      | some latency => (acc.addSample budget key latency, audit.acceptTick derived record)

/-- A file while it is read. -/
structure FilePass (F δ : Type) where
  acc : StreamAccumulator F
  derived : δ
  fileRows : Nat := 0
  truncated : Bool := false

def processLine (budget : Nat) (pass : FilePass F δ) (line : List UInt8) : FilePass F δ :=
  if isBlank line then pass
  else
    match audit.decodeEnvelope line with
    | none => { pass with truncated := true }
    | some record =>
      let handled := audit.handleRecord budget pass.acc pass.derived record
      { acc := handled.1
        derived := audit.noteSequence handled.2.1 record
        fileRows := if handled.2.2 then pass.fileRows else pass.fileRows + 1
        truncated := pass.truncated || handled.2.2 }

def processLines (budget : Nat) (state : StreamAccumulator F × δ) (lines : List (List UInt8)) :
    FilePass F δ :=
  lines.foldl (audit.processLine budget) { acc := state.1, derived := state.2 }

def processFile (budget : Nat) (state : StreamAccumulator F × δ) (file : JournalFile) :
    StreamAccumulator F × δ :=
  let pass := audit.processLines budget state (file.blobs.flatMap splitNewlines)
  ({ pass.acc with
    rows := pass.acc.rows + pass.fileRows
    failed := pass.acc.failed || pass.truncated || file.truncated }, pass.derived)

/-- The first pass over the files. -/
def readFiles (budget : Nat) (derived : δ) (files : List JournalFile) : StreamAccumulator F × δ :=
  files.foldl (audit.processFile budget) ({}, derived)

/-- The samples of another pass over the files. -/
def rescan (files : List JournalFile) : List (String × F) :=
  ((files.flatMap (·.blobs.flatMap splitLines)).filterMap audit.decodeEnvelope).filterMap
    audit.latencySample

/-- Those of the wanted keys. -/
def collect (wanted : List String) (scanned : List (String × F)) : Dict String (List F) :=
  scanned.foldl (fun collected item =>
    if wanted.contains item.1 then
      collected.set item.1 ((collected.get? item.1).getD [] ++ [item.2])
    else collected) ∅

/-- The keys of the next pass: as many as are projected to fit, but one at least. -/
def takeBatch (budget : Nat) (counts : Dict String Nat) (batch : List String) (projected : Nat) :
    List String → List String × List String
  | [] => (batch, [])
  | minute :: rest =>
    let need := (counts.get? minute).getD 0 * 8 + minuteSampleOverheadBytes
    if batch.length ≠ 0 ∧ budget < projected + need then (batch, minute :: rest)
    else takeBatch budget counts (batch ++ [minute]) (projected + need) rest

theorem take_batch_split (budget : Nat) (counts : Dict String Nat) (batch : List String)
    (projected : Nat) (deferred : List String) :
    ∃ taken, (takeBatch budget counts batch projected deferred).1 = batch ++ taken ∧
      taken ++ (takeBatch budget counts batch projected deferred).2 = deferred := by
  induction deferred generalizing batch projected with
  | nil => exact ⟨[], by simp [takeBatch]⟩
  | cons minute rest ih =>
    rw [takeBatch]
    split_ifs with full
    · exact ⟨[], by simp⟩
    · obtain ⟨taken, front, whole⟩ := ih (batch ++ [minute])
        (projected + ((counts.get? minute).getD 0 * 8 + minuteSampleOverheadBytes))
      exact ⟨minute :: taken, by simp [front], by simp [whole]⟩

theorem take_batch_shrinks (budget : Nat) (counts : Dict String Nat) (minute : String)
    (rest : List String) :
    (takeBatch budget counts [] 0 (minute :: rest)).2.length < (minute :: rest).length := by
  rw [takeBatch, if_neg (by simp)]
  obtain ⟨taken, -, whole⟩ := take_batch_split budget counts ([] ++ [minute])
    (0 + ((counts.get? minute).getD 0 * 8 + minuteSampleOverheadBytes)) rest
  have := congrArg List.length whole
  rw [List.length_append] at this
  rw [List.length_cons]
  omega

variable [LinearOrder F] [Zero F]

/-- One key of a batch: all of its samples must have been found again. -/
def settle (counts : Dict String Nat) (state : Dict String (List F) × Dict String (LatencyMinute F))
    (minute : String) : Except LatencyError (Dict String (List F) × Dict String (LatencyMinute F)) := do
  let held := (state.1.get? minute).getD []
  if held.length ≠ (counts.get? minute).getD 0 then throw .sampleCountChanged
  return (state.1.erase minute, state.2.set minute (← finalizeMinute minute held))

/-- The keys given up, batch by batch. -/
def collectDeferred (budget : Nat) (counts : Dict String Nat) (scanned : List (String × F))
    (final : Dict String (LatencyMinute F)) :
    List String → Except LatencyError (Dict String (LatencyMinute F))
  | [] => .ok final
  | minute :: rest => do
    let taken := takeBatch budget counts [] 0 (minute :: rest)
    let settled ← taken.1.foldlM (settle counts) (collect taken.1 scanned, final)
    collectDeferred budget counts scanned settled.2 taken.2
termination_by deferred => deferred.length
decreasing_by exact take_batch_shrinks budget counts minute rest

/-- The keys still held, the last one first. -/
def finalizeHeld (acc : StreamAccumulator F) :
    Except LatencyError (Dict String (LatencyMinute F)) :=
  acc.samples.entries.reverse.foldlM
    (fun final entry => do return final.set entry.1 (← finalizeMinute entry.1 entry.2)) ∅

/-- The statistics of every key. -/
def finals (budget : Nat) (derived : δ) (files : List JournalFile) :
    Except LatencyError (Dict String (LatencyMinute F)) := do
  let acc := (audit.readFiles budget derived files).1
  let final ← finalizeHeld acc
  collectDeferred budget acc.counts (audit.rescan files) final
    (acc.order.filter fun minute => !final.contains minute)

def minuteParts (facts : StreamFacts) (final : Dict String (LatencyMinute F)) :
    Dict String (List (MinutePart F)) :=
  (final.keys.insertionSort (· ≤ ·)).foldl (fun byMinute key =>
    match final.get? key with
    | none => byMinute
    | some entry =>
      let minute := String.ofList (key.toList.takeWhile (· ≠ keySep))
      let conn := String.ofList ((key.toList.dropWhile (· ≠ keySep)).drop 1)
      byMinute.set minute ((byMinute.get? minute).getD [] ++
        [(conn, entry, (facts.spans.get? key).getD (0, 0), (facts.symbols.get? key).getD [])])) ∅

def finishStream (facts : StreamFacts) (final : Dict String (LatencyMinute F)) (status : AuditStatus)
    (reason : String) : StreamLatency F :=
  let holes := eventHoles facts.eventSeconds audit.openS audit.auctionS audit.eventHoleMinS
    audit.maxEventHoles
  { stream := audit.stream
    status := status
    reason := reason
    rows := facts.rows
    eventTimeMissing := facts.missing
    minutes := (minuteParts facts final).entries.filterMap fun entry =>
      match entry.2 with
      | [] => none
      | first :: rest => some (mergeConnections entry.1 first rest)
    eventHoles := holes.1
    eventHoleSeconds := holes.2 }

/-- The latency of one stream; `files` are those of its partition, by name. -/
def processStream (budget : Nat) (derived : δ) (files : List JournalFile) :
    Except LatencyError (StreamLatency F) := do
  if files.isEmpty then return audit.finishStream {} ∅ .unavailable "journal_missing"
  let facts := (audit.readFiles budget derived files).1.toStreamFacts
  let final ← audit.finals budget derived files
  if facts.rows = 0 then
    return audit.finishStream facts final .unavailable
      (if facts.failed then "io_error" else "no_decodable_records")
  if facts.failed then return audit.finishStream facts final .partially "truncated"
  return audit.finishStream facts final .ok "ok"

end StreamAudit
end KrxAlpha.LatencyAudit
