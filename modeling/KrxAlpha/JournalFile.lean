import KrxAlpha.ClientIds
import KrxAlpha.JsonRead
import KrxAlpha.LineBytes

/-! The order journal as it stands on disk: one file of JSON lines a day, which every append
extends and every reader takes apart again. A crash may leave a file cut at any byte. The
reader must then return the records that are whole and refuse to write behind a torn one,
which would glue two records into one line.

A field is given as the value its JSON text shows: data classes, tuples, keys other than
texts and objects written by `default=str` have been turned into it. -/
namespace KrxAlpha.JournalFile
open JsonText LineBytes

abbrev Fields := List (List Char × Value)

/-! ### Writing -/

def redactKeys : List (List Char) :=
  ["cano".toList, "appkey".toList, "appsecret".toList, "secretkey".toList, "authorization".toList,
    "access_token".toList, "approval_key".toList]

section Redact

-- `str.lower`, of all the characters there are.
variable (lower : List Char → List Char)

mutual

def redact : Value → Value
  | .object fields => .object (redactFields fields)
  | .array items => .array (redactItems items)
  | .null => .null
  | .bool value => .bool value
  | .int value => .int value
  | .float text => .float text
  | .string text => .string text

def redactItems : List Value → List Value
  | [] => []
  | item :: rest => redact item :: redactItems rest

def redactFields : Fields → Fields
  | [] => []
  | (key, value) :: rest =>
    (key, if lower key ∈ redactKeys then .string "***".toList else redact value) :: redactFields rest

end

end Redact

/-- `date.isoformat` -/
def isoDate (day : Int) : List Char :=
  let (year, month, dayOfMonth) := civilOfDay day
  zeroPad 4 year.toNat ++ '-' :: zeroPad 2 month ++ '-' :: zeroPad 2 dayOfMonth

/-- `datetime.isoformat` in Seoul; a whole second is written without its fraction. -/
def isoTime (at_ : Timestamp) : List Char :=
  let second := (at_ / 1000000 % 86400).toNat
  let micros := (at_ % 1000000).toNat
  isoDate (dayOf at_) ++ 'T' :: zeroPad 2 (second / 3600) ++ ':' :: zeroPad 2 (second / 60 % 60) ++
    ':' :: zeroPad 2 (second % 60) ++ (if micros = 0 then [] else '.' :: zeroPad 6 micros) ++
    "+09:00".toList

structure OrderJournal where
  mode : ExecutionMode
  tornDays : List Int

def OrderJournal.markTorn (journal : OrderJournal) (day : Int) : OrderJournal :=
  if day ∈ journal.tornDays then journal else { journal with tornDays := day :: journal.tornDays }

/-- The journal directory: the file of each day. -/
abbrev Files := Dict Int (List UInt8)

/-- The arguments of one `append` and the clock it reads. -/
structure Entry where
  journal : OrderJournal
  ts : Timestamp
  event : List Char
  fields : Fields

/-- `{"ts": …, "mode": …, "event": …, **converted}`. A field named as one of the first three
takes its place. Each field is redacted on its own, so its own name hides nothing. -/
def Entry.record (lower : List Char → List Char) (entry : Entry) : Fields :=
  let converted := entry.fields.map fun (key, value) => (key, redact lower value)
  (Dict.ofList ([("ts".toList, .string (isoTime entry.ts)),
    ("mode".toList, .string entry.journal.mode.value.toList),
    ("event".toList, .string entry.event)] ++ converted)).entries

def recordText (record : Fields) : List UInt8 := encode (dumps (.object record))

/-- `json.dumps(record, …) + "\n"`, encoded -/
def recordLine (record : Fields) : List UInt8 := encode (dumps (.object record) ++ ['\n'])

def append (lower : List Char → List Char) (files : Files) (entry : Entry) :
    Except String (Fields × Files) :=
  let day := dayOf entry.ts
  if day ∈ entry.journal.tornDays then
    .error ("cannot append to torn journal: " ++ String.ofList (isoDate day))
  else
    let record := entry.record lower
    .ok (record, files.set day ((files.get? day).getD [] ++ recordLine record))

def appendAll (lower : List Char → List Char) (files : Files) : List Entry → Except String Files
  | [] => .ok files
  | entry :: rest => do
    let (_, files) ← append lower files entry
    appendAll lower files rest

/-! ### Reading -/

def corruptLine (idx : Nat) (day : Int) : String :=
  "corrupt journal line " ++ toString idx ++ " for " ++ String.ofList (isoDate day)

/-- `json.loads(line.decode("utf-8"))`, `none` where either raises. -/
def parsedLine (line : List UInt8) : Option Value := (decode line).bind loads

/-- `rec.get("mode") == mode.value` -/
def ofMode (mode : ExecutionMode) (fields : Fields) : Bool :=
  match Dict.find "mode".toList fields with
  | some (.string text) => text = mode.value.toList
  | _ => false

/-- The loop of `read_day` from the line of an index on. -/
def readLines (day : Int) (last : Nat) :
    Nat → List (List UInt8) → OrderJournal → Except String (List Fields) × OrderJournal
  | _, [], journal => (.ok [], journal)
  | idx, line :: rest, journal =>
    if isBlank line then readLines day last (idx + 1) rest journal
    else
      match parsedLine line with
      | none =>
        if idx = last then readLines day last (idx + 1) rest (journal.markTorn day)
        else (.error (corruptLine idx day), journal)
      | some (.object fields) =>
        let (read, after) := readLines day last (idx + 1) rest journal
        (if ofMode journal.mode fields then read.map (fields :: ·) else read, after)
      | some _ => (.error (corruptLine idx day), journal)

/-- `raw and not raw.endswith(b"\n")` -/
def isTorn (raw : List UInt8) : Bool := raw ≠ [] && raw.getLast? ≠ some 10

def OrderJournal.readDay (journal : OrderJournal) (files : Files) (day : Int) :
    Except String (List Fields) × OrderJournal :=
  match files.get? day with
  | none => (.ok [], journal)
  | some raw =>
    let lines := splitLines raw
    readLines day (lines.length - 1) 0 lines (if isTorn raw then journal.markTorn day else journal)

/-! ### Cut files -/

/-- The bytes of a day's file; there are none where there is no file. -/
def fileBytes (files : Files) (day : Int) : List UInt8 := (files.get? day).getD []

/-- The day's file cut to its first bytes. -/
def cutAt (files : Files) (day : Int) (size : Nat) : Files :=
  match files.get? day with
  | none => files
  | some raw => files.set day (raw.take size)

/-- The records appended on a day, in order. -/
def dayRecords (lower : List Char → List Char) (entries : List Entry) (day : Int) : List Fields :=
  (entries.filter fun entry => dayOf entry.ts = day).map (Entry.record lower)

/-- The records of a file whose whole text, without the newline, lies in its first bytes. -/
def wholeRecords : Nat → List Fields → List Fields
  | _, [] => []
  | size, record :: rest =>
    if (recordText record).length ≤ size then
      record :: wholeRecords (size - ((recordText record).length + 1)) rest
    else []

/-- A record as it is read back: of fields with one name the last one counts. -/
def reloaded (record : Fields) : Fields := (Dict.ofList (loadedFields record)).entries

end KrxAlpha.JournalFile
