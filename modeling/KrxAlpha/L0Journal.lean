import KrxAlpha.JsonRead
import KrxAlpha.LineBytes

/-! The raw journal of a collector. Records are buffered and appended to their partition files,
one compressed frame a file, when the buffer is flushed. A flush that fails keeps the whole
buffer for the next one, also the records whose frames it had already written. -/
namespace KrxAlpha.L0Journal
open List
open JsonText LineBytes

/-- Compression of one frame, and reading of a file until its end or the first error. A whole
frame is read whatever follows it; one cut short is read as at the end of a file, since the
frame behind it does not complete it. -/
structure FrameCodec where
  compress : List UInt8 → List UInt8
  decompress : List UInt8 → List UInt8
  decompress_nil : decompress [] = []
  decompress_frame : ∀ payload rest, decompress (compress payload ++ rest) = payload ++ decompress rest
  decompress_torn : ∀ payload later rest cut, 0 < cut → cut < (compress payload).length →
    decompress ((compress payload).take cut ++ (compress later ++ rest)) =
      decompress ((compress payload).take cut)

/-- The arguments of `append`. -/
structure L0Record where
  raw : List Char
  recvMonoNs : Int
  recvWallNs : Int
  connId : List Char
  connSeq : Int
  exchangeEventTime : List Char
  symbol : List Char

/-- `partitionPath` takes a reception time to its file; the rest of a path is the writer's own. -/
structure L0JournalWriter (Path : Type) where
  partitionPath : Int → Path
  vendor : List Char
  venue : List Char
  session : List Char
  stream : List Char
  buffer : List L0Record := []

abbrev JournalFiles (Path : Type) := Dict Path (List UInt8)

/-- A write that fails: so many frames are written, and so many bytes of the next. -/
structure WriteFault where
  frames : Nat
  torn : Nat

variable {Path : Type} [DecidableEq Path]

namespace L0JournalWriter

def fields (writer : L0JournalWriter Path) (record : L0Record) : List (List Char × Value) :=
  [("raw".toList, .string record.raw), ("recv_mono_ns".toList, .int record.recvMonoNs),
    ("recv_wall_ns".toList, .int record.recvWallNs), ("conn_id".toList, .string record.connId),
    ("conn_seq".toList, .int record.connSeq), ("vendor".toList, .string writer.vendor),
    ("tr_id".toList, .string writer.stream), ("venue".toList, .string writer.venue),
    ("session".toList, .string writer.session), ("stream".toList, .string writer.stream),
    ("symbol".toList, .string record.symbol),
    ("exchange_event_time".toList, .string record.exchangeEventTime)]

def append (writer : L0JournalWriter Path) (records : List L0Record) : L0JournalWriter Path :=
  { writer with buffer := writer.buffer ++ records }

/-- `"\n".join(json.dumps(r, ensure_ascii=False) for r in recs) + "\n"`, encoded. -/
def payload (writer : L0JournalWriter Path) (records : List L0Record) : List UInt8 :=
  records.flatMap fun record => encode (dumps (.object (writer.fields record))) ++ [10]

def frame (codec : FrameCodec) (writer : L0JournalWriter Path) (records : List L0Record) :
    List UInt8 :=
  codec.compress (writer.payload records)

def groups (writer : L0JournalWriter Path) : Dict Path (List L0Record) :=
  Dict.groups (fun record => writer.partitionPath record.recvWallNs) writer.buffer

end L0JournalWriter

/-- What a file holds; one that does not exist is empty. -/
def content (files : JournalFiles Path) (path : Path) : List UInt8 := (files.get? path).getD []

/-- `open(part, "ab")` and a write. -/
def appendBytes (files : JournalFiles Path) (path : Path) (bytes : List UInt8) : JournalFiles Path :=
  files.set path (content files path ++ bytes)

/-- The loop over the groups; without a fault it comes to the end. -/
def writeGroups (codec : FrameCodec) (writer : L0JournalWriter Path) (files : JournalFiles Path) :
    List (Path × List L0Record) → Option WriteFault → JournalFiles Path
  | [], _ => files
  | (path, records) :: rest, none =>
    writeGroups codec writer (appendBytes files path (writer.frame codec records)) rest none
  | (path, records) :: _, some ⟨0, torn⟩ =>
    appendBytes files path ((writer.frame codec records).take torn)
  | (path, records) :: rest, some ⟨frames + 1, torn⟩ =>
    writeGroups codec writer (appendBytes files path (writer.frame codec records)) rest
      (some ⟨frames, torn⟩)

/-- `flush`: the number of records written, none if it raised `JournalWriteError`. -/
def flush (codec : FrameCodec) (writer : L0JournalWriter Path) (files : JournalFiles Path)
    (fault : Option WriteFault) : Option Nat × L0JournalWriter Path × JournalFiles Path :=
  if writer.buffer = [] then (some 0, writer, files)
  else
    let written := writeGroups codec writer files writer.groups.entries fault
    match fault with
    | none => (some writer.buffer.length, { writer with buffer := [] }, written)
    | some _ => (none, writer, written)

/-- A line as a record, `none` if it is no JSON object. -/
def decodeLine (line : List UInt8) : Option Value :=
  match (decode line).bind loads with
  | some (.object fields) => some (.object fields)
  | _ => none

/-- The records of a partition file, up to where it cannot be read on. -/
def readPartition (codec : FrameCodec) (bytes : List UInt8) : List Value :=
  (splitNewlines (codec.decompress bytes)).filterMap decodeLine

/-! ### Reading back -/

section Reading

variable (codec : FrameCodec) (writer : L0JournalWriter Path)

omit [DecidableEq Path]

theorem loaded_fields (record : L0Record) :
    loaded (.object (writer.fields record)) = .object (writer.fields record) := by
  have plain : loadedFields (writer.fields record) = writer.fields record := rfl
  rw [loaded, plain, Dict.entries_ofList]
  simp only [L0JournalWriter.fields, map_cons, map_nil]
  decide

theorem decode_record_line (record : L0Record) :
    decodeLine (encode (dumps (.object (writer.fields record)))) =
      some (.object (writer.fields record)) := by
  simp only [decodeLine, decode_encode, Option.bind_some, loads_dumps, loaded_fields]

theorem read_payload (records : List L0Record) (rest : List UInt8) :
    (splitNewlines (writer.payload records ++ rest)).filterMap decodeLine =
      (records.map fun record => .object (writer.fields record)) ++
        (splitNewlines rest).filterMap decodeLine := by
  induction records with
  | nil => rfl
  | cons record records ih =>
    have visible : 10 ∉ encode (dumps (.object (writer.fields record))) := fun newline =>
      absurd (encoded_bytes (dumps_printable _) newline) (by decide)
    have cut : writer.payload (record :: records) ++ rest =
        encode (dumps (.object (writer.fields record))) ++ 10 :: (writer.payload records ++ rest) := by
      simp [L0JournalWriter.payload]
    rw [cut, split_newlines_cons visible, filterMap_cons, decode_record_line, ih]
    rfl

theorem read_frame (records : List L0Record) (rest : List UInt8) :
    readPartition codec (writer.frame codec records ++ rest) =
      (records.map fun record => .object (writer.fields record)) ++ readPartition codec rest := by
  rw [readPartition, L0JournalWriter.frame, codec.decompress_frame, read_payload]
  rfl

theorem read_nil : readPartition codec [] = [] := by
  rw [readPartition, codec.decompress_nil]
  rfl

theorem read_frames (batches : List (List L0Record)) :
    readPartition codec (batches.flatMap (writer.frame codec)) =
      batches.flatten.map fun record => .object (writer.fields record) := by
  induction batches with
  | nil => exact read_nil codec
  | cons records batches ih =>
    rw [flatMap_cons, read_frame, ih, flatten_cons, map_append]

/-- A file of whole frames. -/
def Whole (bytes : List UInt8) : Prop :=
  ∃ batches : List (List L0Record), bytes = batches.flatMap (writer.frame codec)

theorem read_behind_whole (whole : Whole codec writer bytes) (rest : List UInt8) :
    readPartition codec (bytes ++ rest) = readPartition codec bytes ++ readPartition codec rest := by
  obtain ⟨batches, rfl⟩ := whole
  rw [read_frames]
  induction batches with
  | nil => rfl
  | cons records batches ih =>
    rw [flatMap_cons, append_assoc, read_frame, ih, flatten_cons, map_append, append_assoc]

/-- A frame that holds a record is not empty. -/
theorem frame_length_pos (filled : records ≠ []) : 0 < (writer.frame codec records).length := by
  rw [length_pos_iff]
  intro empty
  have read := read_frame codec writer records []
  rw [empty, nil_append, read_nil, append_nil, eq_comm, map_eq_nil_iff] at read
  exact filled read

/-- What stands behind a frame cut short is lost. -/
theorem read_torn {batches : List (List L0Record)} (more : batches ≠ []) (cut : 0 < torn)
    (short : torn < (writer.frame codec records).length) :
    readPartition codec ((writer.frame codec records).take torn ++
      batches.flatMap (writer.frame codec)) =
      readPartition codec ((writer.frame codec records).take torn) := by
  obtain ⟨batch, rest, rfl⟩ := exists_cons_of_ne_nil more
  rw [readPartition, readPartition, flatMap_cons, L0JournalWriter.frame, L0JournalWriter.frame,
    codec.decompress_torn _ _ _ _ cut short]

end Reading

/-! ### Writing -/

theorem content_append (files : JournalFiles Path) (path probe : Path) (bytes : List UInt8) :
    content (appendBytes files path bytes) probe =
      if probe = path then content files path ++ bytes else content files probe := by
  rw [content, appendBytes, Dict.get?_set]
  split_ifs <;> rfl

section

variable (codec : FrameCodec) (writer : L0JournalWriter Path) (files : JournalFiles Path)
  (groups : List (Path × List L0Record))
include codec writer files groups

/-- Each file grows by the frames of its groups. -/
theorem content_write_groups (path : Path) :
    content (writeGroups codec writer files groups none) path =
      content files path ++ ((groups.filter (·.1 = path)).map (·.2)).flatMap (writer.frame codec) := by
  induction groups generalizing files with
  | nil => simp [writeGroups]
  | cons group groups ih =>
    obtain ⟨own, records⟩ := group
    rw [writeGroups, ih, content_append]
    by_cases here : own = path
    · simp [here]
    · simp [here, Ne.symm here]

/-- A fault in another group's write does not touch the file. -/
theorem content_write_elsewhere (fault : WriteFault) (absent : path ∉ groups.map (·.1)) :
    content (writeGroups codec writer files groups (some fault)) path = content files path := by
  induction groups generalizing files fault with
  | nil => rfl
  | cons group groups ih =>
    obtain ⟨own, records⟩ := group
    obtain ⟨frames, torn⟩ := fault
    obtain ⟨other, absent⟩ := not_or.mp (mem_cons.not.mp absent)
    cases frames with
    | zero => rw [writeGroups, content_append, if_neg other]
    | succ frames => rw [writeGroups, ih _ _ absent, content_append, if_neg other]

end

/-- What the failed flush appends to the first file: a beginning of its frame, or all of it when
the write of a later frame fails. -/
def WriteFault.lead (fault : WriteFault) (frame : List UInt8) : List UInt8 :=
  if fault.frames = 0 then frame.take fault.torn else frame

theorem content_write_first (codec : FrameCodec) (writer : L0JournalWriter Path)
    (files : JournalFiles Path) (fault : WriteFault) (own : path ∉ rest.map (·.1)) :
    content (writeGroups codec writer files ((path, records) :: rest) (some fault)) path =
      content files path ++ fault.lead (writer.frame codec records) := by
  obtain ⟨frames, torn⟩ := fault
  cases frames with
  | zero => rw [writeGroups, content_append, if_pos rfl, WriteFault.lead, if_pos rfl]
  | succ frames =>
    rw [writeGroups, content_write_elsewhere _ _ _ _ _ own, content_append, if_pos rfl,
      WriteFault.lead, if_neg (Nat.succ_ne_zero _)]

/-! ### A retried flush -/

/-- The files after a flush that failed and a later one, with further records, that did not. -/
def retried (codec : FrameCodec) (writer : L0JournalWriter Path) (files : JournalFiles Path)
    (fault : WriteFault) (more : List L0Record) : JournalFiles Path :=
  let failed := flush codec writer files (some fault)
  (flush codec (failed.2.1.append more) failed.2.2 none).2.2

/-- The records that belong in a file, as they are read. -/
def L0JournalWriter.due (writer : L0JournalWriter Path) (records : List L0Record) (path : Path) :
    List Value :=
  (records.filter fun record => writer.partitionPath record.recvWallNs = path).map fun record =>
    .object (writer.fields record)

/-- Each file reads as before, with the buffered records of its own behind. -/
def OnceEach (codec : FrameCodec) (writer : L0JournalWriter Path) (files after : JournalFiles Path)
    (records : List L0Record) : Prop :=
  ∀ path, readPartition codec (content after path) =
    readPartition codec (content files path) ++ writer.due records path

theorem grouped_records (writer : L0JournalWriter Path) (path : Path) :
    ((writer.groups.entries.filter (·.1 = path)).map (·.2)).flatten =
      writer.buffer.filter fun record => writer.partitionPath record.recvWallNs = path := by
  rw [← flatMap_def, Dict.values_under_key, L0JournalWriter.groups, Dict.get?_groups]

theorem first_group {writer : L0JournalWriter Path} (some_ : writer.buffer ≠ []) :
    ∃ path records rest, writer.groups.entries = (path, records) :: rest ∧ records ≠ [] := by
  cases shape : writer.groups.entries with
  | nil =>
    obtain ⟨record, buffered⟩ := exists_mem_of_ne_nil _ some_
    have none := grouped_records writer (writer.partitionPath record.recvWallNs)
    rw [shape, eq_comm, filter_nil, map_nil, flatten_nil, filter_eq_nil_iff] at none
    exact absurd (decide_eq_true rfl) (none record buffered)
  | cons group rest =>
    obtain ⟨path, records⟩ := group
    have listed : (path, records) ∈ writer.groups.entries := by simp [shape]
    exact ⟨path, records, rest, rfl, (Dict.mem_groups listed).2⟩

/-- The retry has a group for the first file again. -/
theorem retried_group {writer : L0JournalWriter Path}
    (shape : writer.groups.entries = (path, records) :: rest) (more : List L0Record) :
    ((writer.append more).groups.entries.filter (·.1 = path)).map (·.2) ≠ [] := by
  have listed : (path, records) ∈ writer.groups.entries := by simp [shape]
  obtain ⟨own, filled⟩ := Dict.mem_groups listed
  intro none
  have kept := grouped_records (writer.append more) path
  rw [none, flatten_nil, L0JournalWriter.append, filter_append, ← own] at kept
  exact filled (append_eq_nil_iff.mp kept.symm).1

/-- The frames of a file in a flush without a fault. -/
def L0JournalWriter.framesFor (codec : FrameCodec) (writer : L0JournalWriter Path) (path : Path) :
    List UInt8 :=
  ((writer.groups.entries.filter (·.1 = path)).map (·.2)).flatMap (writer.frame codec)

theorem read_frames_for (codec : FrameCodec) (writer : L0JournalWriter Path) (path : Path) :
    readPartition codec (writer.framesFor codec path) = writer.due writer.buffer path := by
  rw [L0JournalWriter.framesFor, read_frames, grouped_records, L0JournalWriter.due]

section

variable {codec : FrameCodec} {writer : L0JournalWriter Path} {files : JournalFiles Path}
  (whole : ∀ path, Whole codec writer (content files path)) (some_ : writer.buffer ≠ [])
  (fault : WriteFault) (more : List L0Record)
include some_

/-- The retry appends a file's frames to what the failed flush left there. -/
theorem content_retried (path : Path) :
    content (retried codec writer files fault more) path =
      content (writeGroups codec writer files writer.groups.entries (some fault)) path ++
        (writer.append more).framesFor codec path := by
  have again : (writer.append more).buffer ≠ [] := by simp [L0JournalWriter.append, some_]
  simp only [retried, flush, if_neg some_, if_neg again]
  exact content_write_groups ..

variable {path : Path} {records : List L0Record} {rest : List (Path × List L0Record)}
  (shape : writer.groups.entries = (path, records) :: rest)
include whole shape

/-- How the first file reads after the retry. -/
theorem read_retried_first :
    readPartition codec (content (retried codec writer files fault more) path) =
      readPartition codec (content files path) ++ readPartition codec
        (fault.lead (writer.frame codec records) ++ (writer.append more).framesFor codec path) := by
  have own : path ∉ rest.map (·.1) := by
    have distinct := writer.groups.distinct
    rw [shape, map_cons] at distinct
    exact (nodup_cons.mp distinct).1
  rw [content_retried some_, shape, content_write_first codec writer files fault own, append_assoc,
    read_behind_whole codec writer (whole path)]

/-- A fault in the first frame does not reach the other files. -/
theorem read_retried_other (first : fault.frames = 0) (other : probe ≠ path) :
    readPartition codec (content (retried codec writer files fault more) probe) =
      readPartition codec (content files probe) ++ writer.due (writer.buffer ++ more) probe := by
  obtain ⟨frames, torn⟩ := fault
  cases first
  rw [content_retried some_, shape, writeGroups, content_append, if_neg other,
    read_behind_whole codec writer (whole probe), read_frames_for]
  rfl

/-- A frame written whole is read before the retried one. -/
theorem retried_twice (filled : records ≠ [])
    (written : fault.lead (writer.frame codec records) = writer.frame codec records) :
    ¬ OnceEach codec writer files (retried codec writer files fault more)
      (writer.buffer ++ more) := by
  intro once
  have read := once path
  rw [read_retried_first whole some_ fault more shape, append_cancel_left_eq, written, read_frame,
    read_frames_for] at read
  have lengths : records.length + (writer.due (writer.buffer ++ more) path).length =
      (writer.due (writer.buffer ++ more) path).length := by
    have lengths := congrArg length read
    rwa [length_append, length_map] at lengths
  have := length_pos_of_ne_nil filled
  omega

/-- With a fault in the first frame, the retry comes out right if the first file does. -/
theorem once_each_first (first : fault.frames = 0) :
    OnceEach codec writer files (retried codec writer files fault more) (writer.buffer ++ more) ↔
      readPartition codec ((writer.frame codec records).take fault.torn ++
        (writer.append more).framesFor codec path) = writer.due (writer.buffer ++ more) path := by
  have read := read_retried_first whole some_ fault more shape
  rw [WriteFault.lead, if_pos first] at read
  constructor
  · intro once
    rw [← append_cancel_left_eq, ← read]
    exact once path
  · intro same probe
    by_cases other : probe = path
    · rw [other, read, same]
    · exact read_retried_other whole some_ fault more shape first other

end

namespace Sample

/-- As many ones as each byte counts, with a two behind them. -/
def counted (payload : List UInt8) : List UInt8 :=
  payload.flatMap fun byte => replicate byte.toNat 1 ++ [2]

def marked (payload : List UInt8) : List UInt8 := 0 :: (counted payload ++ [3])

/-- Reads frames; inside one with the ones counted so far. -/
def unmarked : Option Nat → List UInt8 → List UInt8
  | _, [] => []
  | none, byte :: rest => if byte = 0 then unmarked (some 0) rest else []
  | some ones, byte :: rest =>
    if byte = 1 then unmarked (some (ones + 1)) rest
    else if byte = 2 then UInt8.ofNat ones :: unmarked (some 0) rest
    else if byte = 3 then unmarked none rest
    else []

theorem unmarked_ones (count ones : Nat) (rest : List UInt8) :
    unmarked (some ones) (replicate count 1 ++ rest) = unmarked (some (ones + count)) rest := by
  induction count generalizing ones with
  | zero => rfl
  | succ count ih =>
    rw [replicate_succ, cons_append, unmarked, if_pos rfl, ih, Nat.add_right_comm, Nat.add_assoc]

theorem unmarked_frame (payload rest : List UInt8) :
    unmarked none (marked payload ++ rest) = payload ++ unmarked none rest := by
  rw [marked, cons_append, unmarked, if_pos rfl]
  induction payload with
  | nil => rfl
  | cons byte payload ih =>
    have first : counted (byte :: payload) ++ [3] ++ rest =
        replicate byte.toNat 1 ++ 2 :: (counted payload ++ [3] ++ rest) := by
      simp [counted]
    rw [first, unmarked_ones, unmarked, if_neg (by decide), if_pos rfl, ih, Nat.zero_add,
      UInt8.ofNat_toNat, cons_append]

/-- Inside a frame, the zero of the next one stops the reading. -/
theorem unmarked_stops {bytes : List UInt8} (inside : 3 ∉ bytes) (ones : Nat) (rest : List UInt8) :
    unmarked (some ones) (bytes ++ 0 :: rest) = unmarked (some ones) bytes := by
  induction bytes generalizing ones with
  | nil => rfl
  | cons byte bytes ih =>
    obtain ⟨own, inside⟩ := not_or.mp (mem_cons.not.mp inside)
    rw [cons_append, unmarked, unmarked, ih inside, ih inside, if_neg (Ne.symm own),
      if_neg (Ne.symm own)]

theorem unmarked_torn (payload later rest : List UInt8) (cut : Nat) (some_ : 0 < cut)
    (short : cut < (marked payload).length) :
    unmarked none ((marked payload).take cut ++ (marked later ++ rest)) =
      unmarked none ((marked payload).take cut) := by
  obtain ⟨cut, rfl⟩ := Nat.exists_eq_succ_of_ne_zero some_.ne'
  have inside : cut ≤ (counted payload).length := by
    rw [marked, length_cons, length_append, length_singleton] at short
    omega
  rw [marked, take_succ_cons, take_append_of_le_length inside, cons_append, unmarked, unmarked,
    if_pos rfl, marked]
  refine unmarked_stops (fun three => ?_) 0 _
  obtain ⟨byte, -, among⟩ := mem_flatMap.mp (mem_of_mem_take three)
  simp at among

def codec : FrameCodec := ⟨marked, unmarked none, rfl, unmarked_frame, unmarked_torn⟩

def recordAt (hour : Int) : L0Record :=
  ⟨"x".toList, 0, hour * 3600000000000, "ls-1".toList, hour, [], "005930".toList⟩

/-- Two records on either side of an hour. -/
def writer : L0JournalWriter Int where
  partitionPath wallNs := wallNs / 3600000000000
  vendor := "ls".toList
  venue := "krx".toList
  session := "regular".toList
  stream := "H0STCNT0".toList
  buffer := [recordAt 1, recordAt 2]

end Sample

open KrxAlpha.L0Journal.Sample

end KrxAlpha.L0Journal
