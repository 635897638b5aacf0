import FuzzHelm.Ingest.Normalize
import FuzzHelm.Lib.Run

namespace FuzzHelm

open Lib

/-!
# Recorded sessions

A session is written as lines, each of them the JSON text of a record: a header, the frames and
the control records in the order in which they came, and a footer.

* `RawFrame`, `ControlRecord`, `SessionItem` — what is recorded, `toRecord` — its record;
* `SessionRecorder` — the recorder, `SessionRecorder.session` — a whole session;
* `sessionRecords` — the records of a session, `session_eq_ok` — its bytes are their lines.
-/

/-! ### Records -/

/-- `FORMAT_VERSION`, which the header names. -/
def formatVersion : ℤ := 1

/-- A raw frame of the combined stream and the local time at which it came. -/
structure RawFrame where
  conn : String
  tsIngestNs : ℤ
  stream : String
  data : Datum

/-- `ControlRecord`: a connection begins or ends. -/
structure ControlRecord where
  conn : String
  tsIngestNs : ℤ
  event : String
  detail : String

/-- What a session hands on. -/
inductive SessionItem where
  | frame (f : RawFrame)
  | control (c : ControlRecord)

/-- The record of a frame. -/
def RawFrame.toRecord (f : RawFrame) : Members :=
  [("v", .int formatVersion), ("kind", .str "frame"), ("conn", .str f.conn),
    ("ts_ingest_ns", .int f.tsIngestNs), ("stream", .str f.stream), ("data", f.data)]

/-- The record of the control. -/
def ControlRecord.toRecord (c : ControlRecord) : Members :=
  [("v", .int formatVersion), ("kind", .str "control"), ("conn", .str c.conn),
    ("ts_ingest_ns", .int c.tsIngestNs), ("event", .str c.event), ("detail", .str c.detail)]

/-- The record of an item. -/
def SessionItem.toRecord : SessionItem → Members
  | .frame f => f.toRecord
  | .control c => c.toRecord

/-- `header_record`: where the session comes from, and when it began. -/
def headerRecord (venue symbol : String) (urls : List (String × String)) (startedNs : ℤ)
    (minutes : Option FloatText) : Members :=
  [("v", .int formatVersion), ("kind", .str "header"), ("venue", .str venue),
    ("symbol", .str symbol), ("urls", .obj (urls.map fun u => (u.1, .str u.2))),
    ("started_ns", .int startedNs), ("minutes", minutes.elim .null .float)]

/-- `footer_record`: when the session ended, and its number of frames. -/
def footerRecord (endedNs : ℤ) (frames : ℕ) : Members :=
  [("v", .int formatVersion), ("kind", .str "footer"), ("ended_ns", .int endedNs),
    ("frames", .int frames)]

/-- `dumps_record`: a record as one line of JSON. -/
def dumpsRecord (r : Members) : List Char := (Datum.obj r).dumps

/-- The line of a record in the file. -/
def recordLine (r : Members) : List UInt8 := utf8 (dumpsRecord r ++ ['\n'])

/-! ### The recorder -/

/-- `RuntimeError`, or a header that does not say when the session began. -/
inductive RecorderError where
  | runtime (msg : String)
  | keyError (name : String)
  deriving DecidableEq, Repr

/-- The text that has been written while the file is open, and what has been counted. -/
structure SessionRecorder where
  file : Option (List UInt8)
  frames : ℕ
  records : ℕ

namespace SessionRecorder

variable (s : SessionRecorder)

/-- `_write_line`: a file that is closed raises. -/
def writeLine (r : Members) : Except RecorderError SessionRecorder :=
  match s.file with
  | none => .error (.runtime "recorder is not open")
  | some text => .ok { s with file := some (text ++ recordLine r), records := s.records + 1 }

/-- `open`, with the header that is given. -/
def openWith (header : Members) : Except RecorderError SessionRecorder :=
  match s.file with
  | some _ => .error (.runtime "recorder already open")
  | none =>
    if header.has "started_ns" then { s with file := some [] }.writeLine header
    else .error (.keyError "started_ns")

/-- `write`: frames are counted. -/
def write (item : SessionItem) : Except RecorderError SessionRecorder := do
  let s ← s.writeLine item.toRecord
  match item with
  | .frame _ => return { s with frames := s.frames + 1 }
  | .control _ => return s

/-- `write_all`: item after item, each on its own line. -/
def writeAll : SessionRecorder → List SessionItem → Except RecorderError SessionRecorder
  | s, [] => .ok s
  | s, item :: items => do
    let s ← s.write item
    s.writeAll items

/-- `close`: the footer, and the file as it stays. -/
def close (endedNs : ℤ) : Except RecorderError (List UInt8) := do
  let s ← s.writeLine (footerRecord endedNs s.frames)
  return s.file.getD []

/-- A whole session: the header, the items and the footer. -/
def session (header : Members) (items : List SessionItem) (endedNs : ℤ) :
    Except RecorderError (List UInt8) := do
  let s ← s.openWith header
  let s ← s.writeAll items
  s.close endedNs

end SessionRecorder

/-- How many of the items are frames. -/
def frameCount : List SessionItem → ℕ
  | [] => 0
  | .frame _ :: items => frameCount items + 1
  | .control _ :: items => frameCount items

/-- The records of a session; the footer counts `frames` frames. -/
def sessionRecords (header : Members) (items : List SessionItem) (endedNs : ℤ) (frames : ℕ) :
    List Members :=
  header :: (items.map SessionItem.toRecord ++ [footerRecord endedNs frames])

namespace SessionRecorder

variable {s : SessionRecorder} {text : List UInt8}

/-- A line is written to a file that is open, and counted. -/
theorem writeLine_open (h : s.file = some text) (r : Members) :
    s.writeLine r =
      .ok { s with file := some (text ++ recordLine r), records := s.records + 1 } := by
  rw [writeLine, h]

/-- What is written while the file is open is appended to it, line by line. -/
theorem writeAll_open (items : List SessionItem) (h : s.file = some text) :
    ∃ s' : SessionRecorder, s.writeAll items = .ok s' ∧
      s'.file = some (text ++ (items.map SessionItem.toRecord).flatMap recordLine) ∧
      s'.frames = s.frames + frameCount items := by
  -- by induction on the items, each of which appends its line
  induction items generalizing s text with
  | nil => exact ⟨s, rfl, by simpa using h, rfl⟩
  | cons item items ih =>
    have hline := writeLine_open h item.toRecord
    -- a frame counts, a control record does not
    cases item with
    | frame f =>
      obtain ⟨s', hs', hfile, hframes⟩ := ih (s := ⟨some (text ++ recordLine f.toRecord),
        s.frames + 1, s.records + 1⟩) rfl
      refine ⟨s', ?_, ?_, ?_⟩
      · rw [writeAll, write, hline]
        exact hs'
      · rw [hfile, List.map_cons, List.flatMap_cons, List.append_assoc]
        rfl
      · rw [hframes]
        show s.frames + 1 + frameCount items = s.frames + (frameCount items + 1)
        omega
    | control c =>
      obtain ⟨s', hs', hfile, hframes⟩ := ih (s := ⟨some (text ++ recordLine c.toRecord),
        s.frames, s.records + 1⟩) rfl
      refine ⟨s', ?_, ?_, hframes⟩
      · rw [writeAll, write, hline]
        exact hs'
      · rw [hfile, List.map_cons, List.flatMap_cons, List.append_assoc]
        rfl

/-- A session of a closed recorder, whose header says when it began, is written as a whole. -/
theorem session_ok (hclosed : s.file = none) {header : Members}
    (hstart : header.has "started_ns" = true) (items : List SessionItem) (endedNs : ℤ) :
    s.session header items endedNs = .ok
      ((sessionRecords header items endedNs (s.frames + frameCount items)).flatMap
        recordLine) := by
  obtain ⟨s', hs', hfile, hframes⟩ := writeAll_open
    (s := ⟨some ([] ++ recordLine header), s.frames, s.records + 1⟩) items rfl
  rw [session, openWith, hclosed]
  dsimp only
  rw [if_pos hstart, writeLine]
  change (writeAll _ items >>= _) = _
  rw [hs']
  change (s'.writeLine _ >>= _) = _
  rw [writeLine_open hfile]
  simp [sessionRecords, hframes, bind, Except.bind, pure, Except.pure]

/-- **The file of a session** holds the lines of its records. -/
theorem session_eq_ok {header : Members} {items : List SessionItem} {endedNs : ℤ}
    {bytes : List UInt8} (h : s.session header items endedNs = .ok bytes) :
    bytes = (sessionRecords header items endedNs (s.frames + frameCount items)).flatMap
      recordLine := by
  have hopened : s.file = none ∧ header.has "started_ns" = true := by
    by_contra hno
    unfold session openWith at h
    cases hfile : s.file with
    | some text =>
      rw [hfile] at h
      cases h
    | none =>
      rw [hfile] at h
      dsimp only at h
      rw [if_neg fun hstart => hno ⟨hfile, hstart⟩] at h
      cases h
  rw [session_ok hopened.1 hopened.2] at h
  exact (Except.ok.inj h).symm

end SessionRecorder

end FuzzHelm
