import FuzzHelm.Ingest.Recorder
import Mathlib.Data.List.Find

namespace FuzzHelm

open Lib

/-!
# Replayed sessions

A recorded session is read line by line.  When only some streams are wanted, a frame of another
stream is left out before its line is parsed: the name of its stream is read off the raw line.

* `openLines` — the lines of a file; `lineStream` — the name of a stream in a raw line;
* `streamKind` — the kind of a stream;
* `iterItems` — the items of a file, up to the line that raises;
* `lineStream_frame`, `lineStream_control` — what the raw lines of a session say;
* `streamKind_raw` — which kinds the raw line tells;
* `raw_filter` — the law; `iterItems_session` — without a filter a session is read as recorded.
-/

/-! ### Lines -/

/-- The lines of a file, each with its line break. -/
def splitLines : List UInt8 → List (List UInt8)
  | [] => []
  | b :: bs =>
    if b = 10 then [b] :: splitLines bs
    else match splitLines bs with
      | [] => [[b]]
      | line :: lines => (b :: line) :: lines

/-- The bytes that `strip` removes. -/
def whitespace : List UInt8 := [9, 10, 11, 12, 13, 32]

/-- `_open_lines`: lines of white space are left out. -/
def openLines (content : List UInt8) : List (List UInt8) :=
  (splitLines content).filter fun line => line.any fun b => b ∉ whitespace

/-! ### Kinds of streams -/

/-- `STREAM_KINDS`, by which a replay is filtered. -/
def streamKinds : List String := ["kline", "aggTrade", "markPrice", "depth"]

/-- What follows the first `@`, or the whole name where there is none. -/
def afterAt (cs : List Char) : List Char :=
  match cs.dropWhile fun c => c ≠ '@' with
  | [] => cs
  | _ :: rest => rest

/-- The kind that a name begins with, or the name itself. -/
def kindOf (name : List Char) : String :=
  (streamKinds.find? fun kind => kind.toList.isPrefixOf name).getD (String.ofList name)

/-- `stream_kind`: what stands between the first at sign and the next. -/
def streamKind (stream : String) : String := kindOf (afterAt stream.toList)

/-- `_STREAM_KEY`, the bytes before the name of a stream. -/
def streamKey : List Char := ['"', 's', 't', 'r', 'e', 'a', 'm', '"', ':', '"']

/-- `bytes.decode("ascii", "replace")`: what is not ASCII becomes a mark. -/
def decodeAscii (bytes : List UInt8) : String :=
  String.ofList (bytes.map fun b => if b < 128 then Char.ofNat b.toNat else '\uFFFD')

/-- `_line_stream`: what stands in a raw line between the key and the next quote. -/
def lineStream (line : List UInt8) : Option String :=
  match find (utf8 streamKey) line with
  | none => none
  | some i =>
    let rest := line.drop (i + (utf8 streamKey).length)
    (find (utf8 ['"']) rest).map fun j => decodeAscii (rest.take j)

/-! ### Items -/

/-- `d[name]`, which raises where the name is missing. -/
def Members.at (d : Members) (name : String) : Except PyError Datum :=
  (d.lookup name).elim (.error (.keyError name)) .ok

/-- `x == s` for a string `s`. -/
def isStr (s : String) : Datum → Bool
  | .str t => t = s
  | _ => false

/-- `x == 1`, which `True` and `1.0` are too. -/
def isOne : Datum → Bool
  | .int n => n = 1
  | .bool b => b
  | _ => false

/-- `str(x)`, as far as a line can hold it. -/
def pyStr : Datum → String
  | .str s => s
  | .null => "None"
  | .bool true => "True"
  | .bool false => "False"
  | v => String.ofList v.dumps

/-- `int(x)`, of a number. -/
def pyInt : Datum → Except PyError ℤ
  | .int n => .ok n
  | .bool b => .ok (if b then 1 else 0)
  | v => .error (.valueError ("int() " ++ String.ofList v.dumps))

/-- `to_item`: the header and the footer are no items. -/
def toItem (r : Members) : Except PyError (Option SessionItem) :=
  if isStr "frame" (r.get "kind") then do
    let conn ← r.at "conn"
    let ts ← r.at "ts_ingest_ns"
    let ts ← pyInt ts
    let stream ← r.at "stream"
    let data ← r.at "data"
    return some (.frame ⟨pyStr conn, ts, pyStr stream, data⟩)
  else if isStr "control" (r.get "kind") then do
    let conn ← r.at "conn"
    let ts ← r.at "ts_ingest_ns"
    let ts ← pyInt ts
    let event ← r.at "event"
    return some (.control ⟨pyStr conn, ts, pyStr event,
      pyStr ((r.lookup "detail").getD (.str ""))⟩)
  else .ok none

section Iterate

variable (loads : List UInt8 → Except PyError Datum) (streams : Option (List String))

/-- The record of a line. -/
def parseRecord (line : List UInt8) : Except PyError Members := do
  match ← loads line with
  | .obj r =>
    if isOne (Members.get r "v") && Members.has r "kind" then .ok r
    else .error (.valueError "not a v1 session record")
  | _ => .error (.valueError "not a v1 session record")

/-- A stream that is not wanted. -/
def unwanted (stream : String) : Bool := streams.any fun keep => streamKind stream ∉ keep

/-- One line of `iter_items`: the raw line is asked first, and the record once more. -/
def lineItem (line : List UInt8) : Except PyError (Option SessionItem) :=
  if (lineStream line).any (unwanted streams) then .ok none
  else do
    let r ← parseRecord loads line
    if streams.isSome && isStr "frame" (r.get "kind") then do
      let stream ← r.at "stream"
      if unwanted streams (pyStr stream) then return none else toItem r
    else toItem r

/-- What a generator yields from its input, and what it raises in the end. -/
def generate {α β ε : Type} (f : α → Except ε (Option β)) : List α → List β × Option ε
  | [] => ([], none)
  | x :: xs =>
    match f x with
    | .error e => ([], some e)
    | .ok none => generate f xs
    | .ok (some y) => (y :: (generate f xs).1, (generate f xs).2)

/-- `iter_items`: the items up to the end, or up to the first error. -/
def iterItems (content : List UInt8) : List SessionItem × Option PyError :=
  generate (lineItem loads streams) (openLines content)

end Iterate

/-- A control record, or a frame of a kind in the set. -/
def wanted (keep : List String) : SessionItem → Bool
  | .frame f => streamKind f.stream ∈ keep
  | .control _ => true

/-! ### Generators -/

/-- **A filter inside a generator** that agrees with a filter outside on what each input yields:
    up to an input that raises the same is yielded, and the same as a whole where none raises. -/
theorem generate_filter {α β ε : Type} {f g : α → Except ε (Option β)} {keep : β → Bool}
    {xs : List α} (h : ∀ x ∈ xs, ∀ y, f x = .ok y → g x = .ok (y.filter keep)) :
    (generate f xs).1.filter keep <+: (generate g xs).1 ∧
      ((generate f xs).2 = none → generate g xs = ((generate f xs).1.filter keep, none)) := by
  -- by induction on the lines; an error ends the unfiltered run and leaves a prefix
  induction xs with
  | nil => exact ⟨List.prefix_refl [], fun _ => rfl⟩
  | cons x xs ih =>
    obtain ⟨hx, hxs⟩ := List.forall_mem_cons.mp h
    obtain ⟨hpre, heq⟩ := ih hxs
    cases hf : f x with
    | error e =>
      simp only [generate, hf]
      exact ⟨by simp, fun h => absurd h (by simp)⟩
    | ok y =>
      have hg := hx y hf
      cases y with
      | none =>
        simp only [generate, hf, hg, Option.filter_none]
        exact ⟨hpre, heq⟩
      | some y =>
        -- an item is kept or dropped by both
        cases hk : keep y
        · simp only [generate, hf, hg, Option.filter_some, hk, Bool.false_eq_true, if_false,
            List.filter_cons_of_neg, not_false_eq_true]
          exact ⟨hpre, heq⟩
        · simp only [generate, hf, hg, Option.filter_some_pos hk, List.filter_cons_of_pos hk]
          refine ⟨(List.prefix_cons_inj y).mpr hpre, fun hnone => ?_⟩
          rw [heq hnone]

/-! ### The lines of a session -/

/-- A text begins with its first line. -/
theorem splitLines_line {line : List UInt8} (h : 10 ∉ line) (rest : List UInt8) :
    splitLines (line ++ 10 :: rest) = (line ++ [10]) :: splitLines rest := by
  induction line with
  | nil => simp [splitLines]
  | cons b line ih =>
    rw [List.mem_cons, not_or] at h
    rw [List.cons_append, splitLines, if_neg (Ne.symm h.1), ih h.2]
    rfl

/-- The text of a record is printable. -/
theorem printable_dumpsRecord (r : Members) : ∀ c ∈ dumpsRecord r, Printable c :=
  Datum.printable_dumps (.obj r)

/-- A line has a byte for each character, and ends with a line break. -/
theorem recordLine_eq (r : Members) :
    recordLine r = (dumpsRecord r).map asciiByte ++ [10] := by
  have hascii : ∀ c ∈ dumpsRecord r ++ ['\n'], c.toNat ≤ 127 := by
    simp only [List.forall_mem_append, List.mem_singleton, forall_eq]
    exact ⟨fun c hc => (printable_dumpsRecord r c hc).ascii, by decide⟩
  rw [recordLine, utf8_eq_map hascii, List.map_append]
  rfl

/-- **The lines of a file of records** are those of the records. -/
theorem openLines_records (rs : List Members) :
    openLines (rs.flatMap recordLine) = rs.map recordLine := by
  have hbreak : ∀ r : Members, (10 : UInt8) ∉ (dumpsRecord r).map asciiByte := by
    intro r hmem
    obtain ⟨c, hc, hbyte⟩ := List.mem_map.mp hmem
    have hprint := printable_dumpsRecord r c hc
    have hnat := congrArg UInt8.toNat hbyte
    rw [asciiByte_toNat hprint.ascii] at hnat
    exact absurd hprint.1 (by rw [hnat]; decide)
  have hsplit : splitLines (rs.flatMap recordLine) = rs.map recordLine := by
    induction rs with
    | nil => rfl
    | cons r rs ih =>
      rw [List.flatMap_cons, recordLine_eq, List.append_assoc, List.singleton_append,
        splitLines_line (hbreak r), ih, List.map_cons, recordLine_eq]
  rw [openLines, hsplit, List.filter_eq_self]
  intro line hline
  obtain ⟨r, -, rfl⟩ := List.mem_map.mp hline
  -- a line begins with a brace
  rw [recordLine_eq]
  exact List.any_eq_true.mpr ⟨asciiByte '{', List.mem_append_left _ List.mem_cons_self, by decide⟩

/-! ### Names in raw lines -/

/-- A name that is written as it is between the quotes, apart from escapes: it holds neither a
    quote nor a backslash. -/
def Unquoted (name : String) : Prop := ∀ c ∈ name.toList, c ≠ '"' ∧ c ≠ '\\'

/-- Whether a name needs no quotes can be computed. -/
instance (name : String) : Decidable (Unquoted name) :=
  decidable_of_iff ((name.toList.all fun c => decide (c ≠ '"' ∧ c ≠ '\\')) = true)
    List.all_iff_forall_prop

/-- The text of a name between its quotes. -/
def rawName (name : String) : List Char := name.toList.flatMap escapeAscii

/-- A name that needs no quotes has none. -/
theorem quote_notMem_rawName {name : String} (h : Unquoted name) : '"' ∉ rawName name := by
  intro hmem
  obtain ⟨c, hc, hquote⟩ := List.mem_flatMap.mp hmem
  exact quote_notMem_escapeAscii (h c hc).1 hquote

/-- A name that needs no quotes is printed as it is. -/
theorem printable_rawName (name : String) : ∀ c ∈ rawName name, Printable c := by
  intro c hc
  obtain ⟨d, -, hd⟩ := List.mem_flatMap.mp hc
  exact printable_escapeAscii d c hd

/-- A printable text is decoded as it stands. -/
theorem decodeAscii_map {cs : List Char} (h : ∀ c ∈ cs, Printable c) :
    decodeAscii (cs.map asciiByte) = String.ofList cs := by
  have hback : ∀ c ∈ cs, (if asciiByte c < 128 then Char.ofNat (asciiByte c).toNat
      else '\uFFFD') = id c := by
    intro c hc
    have hnat := asciiByte_toNat (h c hc).ascii
    have hlt : asciiByte c < 128 := by
      rw [UInt8.lt_iff_toNat_lt, hnat]
      exact Nat.lt_succ_of_le (h c hc).ascii
    rw [if_pos hlt, hnat, Char.ofNat_toNat, id]
  rw [decodeAscii, List.map_map]
  exact congrArg String.ofList ((List.map_congr_left hback).trans (List.map_id cs))

/-- The search in the bytes of a printable text is the search in the text. -/
theorem find_utf8 {pat cs : List Char} (hpat : ∀ c ∈ pat, c.toNat ≤ 127)
    (hcs : ∀ c ∈ cs, c.toNat ≤ 127) : find (utf8 pat) (cs.map asciiByte) = find pat cs := by
  rw [utf8_eq_map hpat]
  exact find_map fun a ha b hb => asciiByte_inj (hpat a ha) (hcs b hb)

/-- The beginning of the text of a record of the kind `kind`, up to the time of its arrival. -/
def recordPrefix (kind conn : String) (ts : ℤ) : List Char :=
  ['{'] ++ (quoteAscii "v" ++ [':']) ++ (printInt formatVersion ++ [',']) ++
    (quoteAscii "kind" ++ [':']) ++ (quoteAscii kind ++ [',']) ++
    (quoteAscii "conn" ++ [':']) ++ (quoteAscii conn ++ [',']) ++
    (quoteAscii "ts_ingest_ns" ++ [':']) ++ (printInt ts ++ [','])

/-- What follows the name of the stream. -/
def frameRest (data : Datum) : List Char :=
  '"' :: (',' :: (quoteAscii "data" ++ ':' :: (data.dumps ++ ['}'])))

/-- The text of a frame: the key stands right after the time. -/
theorem dumpsRecord_frame (f : RawFrame) :
    dumpsRecord f.toRecord = recordPrefix "frame" f.conn f.tsIngestNs ++
      (streamKey ++ (rawName f.stream ++ frameRest f.data)) := by
  have hkey : quoteAscii "stream" ++ [':', '"'] = streamKey := by decide +kernel
  simp only [dumpsRecord, RawFrame.toRecord, Datum.dumps, Datum.dumpsMembers, recordPrefix,
    frameRest, rawName, ← hkey, quoteAscii, List.append_assoc, List.cons_append, List.nil_append,
    List.append_nil]

/-- The text of a control record. -/
theorem dumpsRecord_control (c : ControlRecord) :
    dumpsRecord c.toRecord = recordPrefix "control" c.conn c.tsIngestNs ++
      ((quoteAscii "event" ++ [':']) ++ (quoteAscii c.event ++ [',']) ++
        (quoteAscii "detail" ++ [':']) ++ (quoteAscii c.detail ++ ['}'])) := by
  simp only [dumpsRecord, ControlRecord.toRecord, Datum.dumps, Datum.dumpsMembers, recordPrefix,
    List.append_assoc, List.cons_append, List.nil_append, List.append_nil]

/-- A string that something else than a colon follows hides the key. -/
theorem skips_value (s : String) {c : Char} (h : c = ',' ∨ c = '}') :
    Lib.Skips streamKey (quoteAscii s ++ [c]) := by
  have hplain : ∀ d ∈ ['s', 't', 'r', 'e', 'a', 'm'], Plain d :=
    List.all_iff_forall_prop.mp (by decide)
  rcases h with rfl | rfl <;>
    exact skips_quoteAscii hplain s (by decide) (by decide) (by decide)

/-- The search for the key skips a number. -/
theorem skips_int (n : ℤ) : Lib.Skips streamKey (printInt n ++ [',']) := by
  refine (skips_of_notMem fun hmem => ?_).append (skips_of_check (by decide))
  -- digits and a sign
  have hquote : '"' ∉ printInt n := by
    cases n with
    | ofNat m => exact fun h => absurd (isDigit_of_mem_digits h) (by decide)
    | negSucc m =>
      rw [printInt, List.mem_cons, not_or]
      exact ⟨by decide, fun h => absurd (isDigit_of_mem_digits h) (by decide)⟩
  exact hquote hmem

/-- No other key of a record hides the key. -/
theorem skips_keys : ∀ k ∈ ["v", "kind", "conn", "ts_ingest_ns", "event", "detail"],
    Lib.Skips streamKey (quoteAscii k ++ [':']) := by
  have hcheck : ∀ k ∈ ["v", "kind", "conn", "ts_ingest_ns", "event", "detail"],
      check '"' 's' (quoteAscii k ++ [':']) = true := by
    decide +kernel
  exact fun k hk => skips_of_check (hcheck k hk)

/-- The key does not begin before the time of a record. -/
theorem skips_recordPrefix (kind conn : String) (ts : ℤ) :
    Lib.Skips streamKey (recordPrefix kind conn ts) := by
  have hv := skips_keys "v" (by simp)
  have hkind := skips_keys "kind" (by simp)
  have hconn := skips_keys "conn" (by simp)
  have hts := skips_keys "ts_ingest_ns" (by simp)
  have hopen : Lib.Skips streamKey ['{'] := skips_of_check (by decide)
  exact (((((((hopen.append hv).append (skips_int _)).append hkind).append
    (skips_value kind (.inl rfl))).append hconn).append (skips_value conn (.inl rfl))).append
    hts).append (skips_int ts)

/-- The bytes of a line, character by character. -/
theorem recordLine_map (r : Members) :
    recordLine r = (dumpsRecord r ++ ['\n']).map asciiByte ∧
      ∀ c ∈ dumpsRecord r ++ ['\n'], c.toNat ≤ 127 := by
  have hascii : ∀ c ∈ dumpsRecord r ++ ['\n'], c.toNat ≤ 127 := by
    simp only [List.forall_mem_append, List.mem_singleton, forall_eq]
    exact ⟨fun c hc => (printable_dumpsRecord r c hc).ascii, by decide⟩
  exact ⟨utf8_eq_map hascii, hascii⟩

/-- The key that is searched for is ASCII. -/
theorem ascii_streamKey : ∀ c ∈ streamKey, c.toNat ≤ 127 :=
  List.all_iff_forall_prop.mp (by decide)

/-- **The first key of a frame is its own**, so that the raw line tells the name of its stream. -/
theorem lineStream_frame {f : RawFrame} (h : Unquoted f.stream) :
    lineStream (recordLine f.toRecord) = some (String.ofList (rawName f.stream)) := by
  obtain ⟨hline, hascii⟩ := recordLine_map f.toRecord
  have htext : dumpsRecord f.toRecord ++ ['\n'] = recordPrefix "frame" f.conn f.tsIngestNs ++
      (streamKey ++ (rawName f.stream ++ (['"'] ++ (frameRest f.data).tail ++ ['\n']))) := by
    rw [dumpsRecord_frame]
    simp only [frameRest, List.tail_cons, List.append_assoc, List.cons_append, List.nil_append]
  -- so the key is found where it stands
  have hfind : find (utf8 streamKey) (recordLine f.toRecord) =
      some (recordPrefix "frame" f.conn f.tsIngestNs).length := by
    rw [hline, find_utf8 ascii_streamKey hascii, htext]
    exact (skips_recordPrefix "frame" f.conn f.tsIngestNs).find_pattern _
  have hlength : (utf8 streamKey).length = streamKey.length := by decide
  have hrest : (recordLine f.toRecord).drop
      ((recordPrefix "frame" f.conn f.tsIngestNs).length + streamKey.length) =
      (rawName f.stream ++ (['"'] ++ (frameRest f.data).tail ++ ['\n'])).map asciiByte := by
    rw [hline, htext, ← List.map_drop, ← List.append_assoc, ← List.length_append,
      List.drop_left']
    rfl
  -- and the name ends at the next quote
  have hquote : find (utf8 ['"'])
      ((rawName f.stream ++ (['"'] ++ (frameRest f.data).tail ++ ['\n'])).map asciiByte) =
      some (rawName f.stream).length := by
    rw [find_utf8 (List.all_iff_forall_prop.mp (by decide)) fun c hc => hascii c (by
      rw [htext]
      exact List.mem_append_right _ (List.mem_append_right _ hc)), List.append_assoc]
    exact (skips_of_notMem (quote_notMem_rawName h)).find_pattern _
  rw [lineStream, hfind]
  dsimp only
  rw [hlength, hrest, hquote, Option.map_some, ← List.map_take, List.take_left' rfl,
    decodeAscii_map (printable_rawName f.stream)]

/-- **A control record holds no key**, whatever its event and its detail say. -/
theorem lineStream_control (c : ControlRecord) : lineStream (recordLine c.toRecord) = none := by
  obtain ⟨hline, hascii⟩ := recordLine_map c.toRecord
  have hevent := skips_keys "event" (by simp)
  have hdetail := skips_keys "detail" (by simp)
  have hbreak : Lib.Skips streamKey ['\n'] := skips_of_check (by decide)
  have hskips : Lib.Skips streamKey (dumpsRecord c.toRecord ++ ['\n']) := by
    rw [dumpsRecord_control]
    exact ((skips_recordPrefix "control" c.conn c.tsIngestNs).append
      (((hevent.append (skips_value c.event (.inl rfl))).append hdetail).append
        (skips_value c.detail (.inr rfl)))).append hbreak
  rw [lineStream, hline, find_utf8 ascii_streamKey hascii, hskips.find_eq_none (by decide)]

/-! ### Kinds in raw lines -/

/-- Only an `@` is written as one. -/
theorem dropWhile_rawText (cs : List Char) :
    (cs.flatMap escapeAscii).dropWhile (fun c => c ≠ '@') =
      (cs.dropWhile fun c => c ≠ '@').flatMap escapeAscii := by
  have hat : escapeAscii '@' = ['@'] := escapeAscii_plain (by decide)
  induction cs with
  | nil => rfl
  | cons c cs ih =>
    rw [List.flatMap_cons]
    by_cases hc : c = '@'
    · subst hc
      simp [hat]
    · have hnot : ∀ d ∈ escapeAscii c, decide (d ≠ '@') = true := by
        intro d hd
        rw [decide_eq_true_eq]
        rintro rfl
        exact notMem_escapeAscii (by decide) hc hd
      rw [List.dropWhile_append_of_pos hnot, ih, List.dropWhile_cons_of_pos (by simpa using hc)]

/-- What follows the first `@` of a name, in the raw line. -/
theorem afterAt_rawText (cs : List Char) :
    afterAt (cs.flatMap escapeAscii) = (afterAt cs).flatMap escapeAscii := by
  unfold afterAt
  rw [dropWhile_rawText]
  cases hdrop : cs.dropWhile fun c => c ≠ '@' with
  | nil => rfl
  | cons c rest =>
    have hat : c = '@' := by
      have hhead := List.head?_dropWhile_not (fun c => decide (c ≠ '@')) cs
      rw [hdrop] at hhead
      simpa using hhead
    subst hat
    rw [List.flatMap_cons, escapeAscii_plain (by decide)]
    rfl

/-- A text that is written as it is begins a raw text just when it begins the text. -/
theorem plain_prefix_rawText {kind : List Char} (h : ∀ c ∈ kind, Plain c) (cs : List Char) :
    kind <+: cs.flatMap escapeAscii ↔ kind <+: cs := by
  induction kind generalizing cs with
  | nil => simp
  | cons x kind ih =>
    obtain ⟨hx, hkind⟩ := List.forall_mem_cons.mp h
    cases cs with
    | nil => simp
    | cons c cs =>
      rw [List.flatMap_cons]
      by_cases hc : Plain c
      · rw [escapeAscii_plain hc, List.singleton_append, List.cons_prefix_cons,
          List.cons_prefix_cons, ih hkind]
      · obtain ⟨es, hes, -⟩ := escapeAscii_escaped hc
        rw [hes, List.cons_append, List.cons_prefix_cons, List.cons_prefix_cons]
        constructor
        · rintro ⟨rfl, -⟩
          exact absurd rfl hx.2.2
        · rintro ⟨rfl, -⟩
          exact absurd hx hc

/-- The kinds of the exchange are read off the raw line, and so is every printable kind. -/
theorem streamKind_raw {stream : String} (hname : Unquoted stream)
    (hprint : ∀ c ∈ (streamKind stream).toList, Printable c) :
    streamKind (String.ofList (rawName stream)) = streamKind stream := by
  have hall : (streamKinds.all fun kind => kind.toList.all fun c => decide (Plain c)) = true := by
    decide +kernel
  have hkinds : ∀ kind ∈ streamKinds, ∀ c ∈ kind.toList, Plain c := fun kind hkind =>
    List.all_iff_forall_prop.mp (List.all_eq_true.mp hall kind hkind)
  have hfind : streamKinds.find? (fun kind =>
      kind.toList.isPrefixOf ((afterAt stream.toList).flatMap escapeAscii)) =
      streamKinds.find? fun kind => kind.toList.isPrefixOf (afterAt stream.toList) := by
    apply List.find?_congr
    intro kind hkind
    rw [Bool.eq_iff_iff, List.isPrefixOf_iff_prefix, List.isPrefixOf_iff_prefix]
    exact plain_prefix_rawText (hkinds kind hkind) _
  unfold streamKind at hprint ⊢
  unfold kindOf at hprint ⊢
  rw [String.toList_ofList, rawName, afterAt_rawText, hfind]
  cases hknown : streamKinds.find? fun kind => kind.toList.isPrefixOf (afterAt stream.toList) with
  | some kind => rfl
  | none =>
    rw [hknown, Option.getD_none, String.toList_ofList] at hprint
    -- the kind is the name itself, and nothing of it is escaped
    have hsub : ∀ c ∈ afterAt stream.toList, c ∈ stream.toList := by
      intro c hc
      unfold afterAt at hc
      split at hc
      · exact hc
      · rename_i d rest hdrop
        exact (List.dropWhile_sublist _).mem (hdrop ▸ List.mem_cons_of_mem d hc)
    have hplain : (afterAt stream.toList).flatMap escapeAscii = afterAt stream.toList := by
      have hall : ∀ cs : List Char, (∀ c ∈ cs, Plain c) → cs.flatMap escapeAscii = cs := by
        intro cs
        induction cs with
        | nil => exact fun _ => rfl
        | cons c cs ih =>
          intro h
          obtain ⟨hc, hcs⟩ := List.forall_mem_cons.mp h
          rw [List.flatMap_cons, escapeAscii_plain hc, ih hcs, List.singleton_append]
      exact hall _ fun c hc => ⟨hprint c hc, hname c (hsub c hc)⟩
    rw [Option.getD_none, Option.getD_none, hplain]

/-! ### The items of a session -/

section Items

variable {loads : List UInt8 → Except PyError Datum} {keep : List String} {line : List UInt8}
  {y : Option SessionItem} {m : Members}

/-- Without a set every line is parsed. -/
theorem lineItem_all :
    lineItem loads none line = .ok y ↔ ∃ m, parseRecord loads line = .ok m ∧ toItem m = .ok y := by
  have hraw : (lineStream line).any (unwanted none) = false := by
    cases lineStream line <;> rfl
  rw [lineItem, if_neg (by simp [hraw]), bind_eq_ok]
  simp

/-- With a set, a line that the raw name leaves out, or a record that is no frame, or a frame. -/
theorem lineItem_skip (h : (lineStream line).any (unwanted (some keep)) = true) :
    lineItem loads (some keep) line = .ok none := by
  rw [lineItem, if_pos h]

/-- A line of the control is read as the record it is. -/
theorem lineItem_record (hraw : (lineStream line).any (unwanted (some keep)) = false)
    (hm : parseRecord loads line = .ok m) (hkind : isStr "frame" (m.get "kind") = false) :
    lineItem loads (some keep) line = toItem m := by
  rw [lineItem, if_neg (by simp [hraw]), hm]
  show (if (true && isStr "frame" (m.get "kind")) = true then _ else toItem m) = _
  rw [hkind]
  rfl

/-- A line of a frame that is wanted is read as the frame. -/
theorem lineItem_frame {stream : String}
    (hraw : (lineStream line).any (unwanted (some keep)) = false)
    (hm : parseRecord loads line = .ok m) (hkind : isStr "frame" (m.get "kind") = true)
    (hstream : m.lookup "stream" = some (.str stream)) :
    lineItem loads (some keep) line =
      if unwanted (some keep) stream then .ok none else toItem m := by
  rw [lineItem, if_neg (by simp [hraw]), hm]
  show (if (true && isStr "frame" (m.get "kind")) = true then
    (do let stream ← m.at "stream"; if unwanted _ (pyStr stream) then return none else toItem m)
    else toItem m) = _
  rw [hkind, Members.at, hstream]
  rfl

/-- The item of a frame has the stream of its record. -/
theorem toItem_frame {stream : String} (hkind : m.lookup "kind" = some (.str "frame"))
    (hstream : m.lookup "stream" = some (.str stream)) (h : toItem m = .ok y) :
    ∃ f : RawFrame, y = some (.frame f) ∧ f.stream = stream := by
  have hframe : isStr "frame" (m.get "kind") = true := by simp [Members.get, hkind, isStr]
  rw [toItem, if_pos hframe] at h
  simp only [bind_eq_ok, Members.at, hstream, Option.elim_some, Except.ok.injEq, pure,
    Except.pure] at h
  obtain ⟨conn, -, ts, -, n, -, s, rfl, data, -, rfl⟩ := h
  exact ⟨_, rfl, rfl⟩

/-- The item of a control record is one. -/
theorem toItem_control (hkind : m.lookup "kind" = some (.str "control")) (h : toItem m = .ok y) :
    ∃ c : ControlRecord, y = some (.control c) := by
  have hframe : isStr "frame" (m.get "kind") = false := by simp [Members.get, hkind, isStr]
  have hcontrol : isStr "control" (m.get "kind") = true := by simp [Members.get, hkind, isStr]
  rw [toItem, if_neg (by simp [hframe]), if_pos hcontrol] at h
  simp only [bind_eq_ok, Except.ok.injEq, pure, Except.pure] at h
  obtain ⟨conn, -, ts, -, n, -, event, -, rfl⟩ := h
  exact ⟨_, rfl⟩

/-- A header or a footer is no item. -/
theorem toItem_other {kind : String} (hkind : m.lookup "kind" = some (.str kind))
    (hframe : kind ≠ "frame") (hcontrol : kind ≠ "control") : toItem m = .ok none := by
  have hframe' : isStr "frame" (m.get "kind") = false := by
    simp [Members.get, hkind, isStr, hframe]
  have hcontrol' : isStr "control" (m.get "kind") = false := by
    simp [Members.get, hkind, isStr, hcontrol]
  rw [toItem, if_neg (by simp [hframe']), if_neg (by simp [hcontrol'])]

/-- What `loads` makes of the line of a record, if anything: an object of the same kind and the
    same stream. -/
def ReadsBack (loads : List UInt8 → Except PyError Datum) (r : Members) : Prop :=
  ∀ v, loads (recordLine r) = .ok v →
    ∃ m : Members, v = .obj m ∧ m.lookup "kind" = r.lookup "kind" ∧
      m.lookup "stream" = r.lookup "stream"

/-- A line of a record is read back with its kind and its stream. -/
theorem ReadsBack.parse {r : Members} (h : ReadsBack loads r)
    (hm : parseRecord loads (recordLine r) = .ok m) :
    m.lookup "kind" = r.lookup "kind" ∧ m.lookup "stream" = r.lookup "stream" := by
  rw [parseRecord, bind_eq_ok] at hm
  obtain ⟨v, hv, hm⟩ := hm
  obtain ⟨m', rfl, hkind, hstream⟩ := h v hv
  dsimp only at hm
  split_ifs at hm
  cases hm
  exact ⟨hkind, hstream⟩

/-- A line of a frame: before parsing it is left out only if it is left out after. -/
theorem lineItem_filter_frame {f : RawFrame} (hname : Unquoted f.stream)
    (hkeep : ∀ k ∈ keep, ∀ c ∈ k.toList, Printable c) (hread : ReadsBack loads f.toRecord)
    (h : lineItem loads none (recordLine f.toRecord) = .ok y) :
    lineItem loads (some keep) (recordLine f.toRecord) = .ok (y.filter (wanted keep)) := by
  obtain ⟨m, hm, hitem⟩ := lineItem_all.mp h
  obtain ⟨hkind, hstream⟩ := hread.parse hm
  obtain ⟨f', rfl, hf'⟩ := toItem_frame hkind hstream hitem
  have hframe : isStr "frame" (m.get "kind") = true := by
    simp [Members.get, hkind, isStr, RawFrame.toRecord, List.lookup_cons]
  -- the kind read from the bytes is the kind of the stream
  by_cases hwanted : streamKind f.stream ∈ keep
  · have hkept : wanted keep (.frame f') = true := by simp [wanted, hf', hwanted]
    have hraw : (lineStream (recordLine f.toRecord)).any (unwanted (some keep)) = false := by
      rw [lineStream_frame hname, Option.any_some]
      simp [unwanted, streamKind_raw hname (hkeep _ hwanted), hwanted]
    rw [lineItem_frame hraw hm hframe hstream, if_neg (by simp [unwanted, hwanted]), hitem,
      Option.filter_some_pos hkept]
  · have hdropped : wanted keep (.frame f') = false := by simp [wanted, hf', hwanted]
    rw [Option.filter_some, hdropped, if_neg (by simp)]
    -- an unwanted frame is skipped by its bytes or dropped after parsing
    cases hraw : (lineStream (recordLine f.toRecord)).any (unwanted (some keep)) with
    | true => exact lineItem_skip hraw
    | false =>
      rw [lineItem_frame hraw hm hframe hstream, if_pos (by simp [unwanted, hwanted])]

/-- A line of a control record is never left out. -/
theorem lineItem_filter_control {c : ControlRecord} (hread : ReadsBack loads c.toRecord)
    (h : lineItem loads none (recordLine c.toRecord) = .ok y) :
    lineItem loads (some keep) (recordLine c.toRecord) = .ok (y.filter (wanted keep)) := by
  obtain ⟨m, hm, hitem⟩ := lineItem_all.mp h
  obtain ⟨hkind, -⟩ := hread.parse hm
  obtain ⟨c', rfl⟩ := toItem_control hkind hitem
  have hframe : isStr "frame" (m.get "kind") = false := by
    simp [Members.get, hkind, isStr, ControlRecord.toRecord, List.lookup_cons]
  have hraw : (lineStream (recordLine c.toRecord)).any (unwanted (some keep)) = false := by
    rw [lineStream_control]
    rfl
  rw [lineItem_record hraw hm hframe, hitem, Option.filter_some_pos rfl]

/-- A line of a header or of a footer yields nothing, whether it is parsed or left out. -/
theorem lineItem_filter_other {r : Members} {kind : String}
    (hkind : r.lookup "kind" = some (.str kind)) (hframe : kind ≠ "frame")
    (hcontrol : kind ≠ "control") (hread : ReadsBack loads r)
    (h : lineItem loads none (recordLine r) = .ok y) :
    lineItem loads (some keep) (recordLine r) = .ok (y.filter (wanted keep)) := by
  obtain ⟨m, hm, hitem⟩ := lineItem_all.mp h
  have hmkind := (hread.parse hm).1.trans hkind
  have hnone := toItem_other hmkind hframe hcontrol
  obtain rfl : y = none := Except.ok.inj (hitem.symm.trans hnone)
  cases hraw : (lineStream (recordLine r)).any (unwanted (some keep)) with
  | true => exact lineItem_skip hraw
  | false =>
    rw [lineItem_record hraw hm (by simp [Members.get, hmkind, isStr, hframe]), hnone]
    rfl

end Items

/-- **The raw filter.**  From a session file whose streams have names without quotes and
    backslashes, the streams of a set of printable kinds are read as if the set were asked after
    parsing: the same up to a line that cannot be parsed, and the same as a whole where every
    line can. -/
theorem raw_filter (loads : List UInt8 → Except PyError Datum) (s : SessionRecorder)
    (header : Members) (items : List SessionItem) (endedNs : ℤ) (bytes : List UInt8)
    (keep : List String) (hsession : s.session header items endedNs = .ok bytes)
    (hheader : header.lookup "kind" = some (.str "header"))
    (hnames : ∀ f, .frame f ∈ items → Unquoted f.stream)
    (hloads : ∀ r ∈ sessionRecords header items endedNs (s.frames + frameCount items),
      ReadsBack loads r)
    (hkeep : ∀ k ∈ keep, ∀ c ∈ k.toList, Printable c) :
    (iterItems loads none bytes).1.filter (wanted keep) <+:
        (iterItems loads (some keep) bytes).1 ∧
      ((iterItems loads none bytes).2 = none →
        iterItems loads (some keep) bytes =
          ((iterItems loads none bytes).1.filter (wanted keep), none)) := by
  rw [SessionRecorder.session_eq_ok hsession]
  unfold iterItems
  rw [openLines_records]
  apply generate_filter
  intro line hline y hy
  obtain ⟨r, hr, rfl⟩ := List.mem_map.mp hline
  have hread := hloads r hr
  simp only [sessionRecords, List.mem_cons, List.mem_append, List.mem_map, List.not_mem_nil,
    or_false] at hr
  rcases hr with rfl | ⟨item, hitem, rfl⟩ | rfl
  · exact lineItem_filter_other hheader (by decide) (by decide) hread hy
  · cases item with
    | frame f => exact lineItem_filter_frame (hnames f hitem) hkeep hread hy
    | control c => exact lineItem_filter_control hread hy
  · exact lineItem_filter_other rfl (by decide) (by decide) hread hy

/-! ### Round trips -/

/-- The item that a record is made from, if it is made from one. -/
theorem toItem_toRecord (item : SessionItem) : toItem item.toRecord = .ok (some item) := by
  cases item with
  | frame f => rfl
  | control c => rfl

/-- **A session is read as it was recorded**, when the lines of its records can be parsed. -/
theorem iterItems_session {loads : List UInt8 → Except PyError Datum} {s : SessionRecorder}
    {header : Members} {items : List SessionItem} {endedNs : ℤ} {bytes : List UInt8}
    (hsession : s.session header items endedNs = .ok bytes)
    (hheader : header.lookup "kind" = some (.str "header"))
    (hversion : header.lookup "v" = some (.int formatVersion))
    (hloads : ∀ r ∈ sessionRecords header items endedNs (s.frames + frameCount items),
      loads (recordLine r) = .ok (.obj r)) :
    iterItems loads none bytes = (items, none) := by
  have hparse : ∀ r ∈ sessionRecords header items endedNs (s.frames + frameCount items),
      parseRecord loads (recordLine r) = .ok r := by
    intro r hr
    have hgood : (isOne (Members.get r "v") && Members.has r "kind") = true := by
      simp only [sessionRecords, List.mem_cons, List.mem_append, List.mem_map, List.not_mem_nil,
        or_false] at hr
      rcases hr with rfl | ⟨item, -, rfl⟩ | rfl
      · simp [Members.get, Members.has, hheader, hversion, isOne, formatVersion]
      · cases item <;> rfl
      · rfl
    rw [parseRecord, hloads r hr]
    exact if_pos hgood
  have hline : ∀ r ∈ sessionRecords header items endedNs (s.frames + frameCount items),
      ∀ item, toItem r = .ok item → lineItem loads none (recordLine r) = .ok item := by
    intro r hr item hitem
    exact lineItem_all.mpr ⟨r, hparse r hr, hitem⟩
  have hends : ∀ r : Members, ∀ kind, r.lookup "kind" = some (.str kind) → kind ≠ "frame" →
      kind ≠ "control" → toItem r = .ok none := fun r kind hk hf hc => toItem_other hk hf hc
  -- the header and the footer yield nothing, and every other line its item
  have hgen : ∀ rest : List SessionItem, (∀ i ∈ rest, i ∈ items) →
      generate (lineItem loads none) ((rest.map SessionItem.toRecord ++
        [footerRecord endedNs (s.frames + frameCount items)]).map recordLine) = (rest, none) := by
    intro rest
    induction rest with
    | nil =>
      intro _
      have hfooter := hline (footerRecord endedNs (s.frames + frameCount items))
        (by simp [sessionRecords]) none (hends _ "footer" rfl (by decide) (by decide))
      simp [generate, hfooter]
    | cons item rest ih =>
      intro h
      obtain ⟨hitem, hrest⟩ := List.forall_mem_cons.mp h
      have hfirst := hline item.toRecord (List.mem_cons_of_mem _ (List.mem_append_left _
        (List.mem_map_of_mem hitem))) (some item) (toItem_toRecord item)
      rw [List.map_cons, List.cons_append, List.map_cons, generate, hfirst]
      simp only [ih hrest]
  have hfirst := hline header List.mem_cons_self none
    (hends header "header" hheader (by decide) (by decide))
  rw [SessionRecorder.session_eq_ok hsession, iterItems, openLines_records, sessionRecords,
    List.map_cons, generate, hfirst]
  exact hgen items fun i hi => hi

/-! ### Two sessions -/

/-- A parser that knows the lines of some records. -/
def readTable (rs : List Members) (line : List UInt8) : Except PyError Datum :=
  (rs.find? fun r => recordLine r = line).elim (.error (.valueError "JSON")) fun r => .ok (.obj r)

/-- The table of the samples reads its lines back. -/
theorem readTable_back {rs : List Members} (h : (rs.map recordLine).Nodup) :
    ∀ r ∈ rs, readTable rs (recordLine r) = .ok (.obj r) := by
  intro r hr
  have hfind : (rs.find? fun r' => recordLine r' = recordLine r) = some r := by
    induction rs with
    | nil => cases hr
    | cons r' rs ih =>
      rw [List.map_cons, List.nodup_cons] at h
      rcases List.mem_cons.mp hr with rfl | hr
      · simp
      · have hne : recordLine r' ≠ recordLine r := by
          intro heq
          exact h.1 (heq ▸ List.mem_map_of_mem hr)
        rw [List.find?_cons_of_neg (by simpa using hne)]
        exact ih h.2 hr
  rw [readTable, hfind]
  rfl

/-- The header of the samples. -/
def btcHeader : Members := headerRecord "BINANCE_USDM" "BTCUSDT" [("stream", "wss://host")] 0 none

/-- The name of a stream inside a detail and inside data, where no filter may look for it. -/
def btcItems : List SessionItem :=
  [.control ⟨"market", 1, "connected", "\"stream\":\"x\""⟩,
    .frame ⟨"public", 2, "btcusdt@depth20@100ms", .obj [("stream", .str "btcusdt@kline_1m")]⟩,
    .frame ⟨"market", 3, "btcusdt@kline_1m", .obj [("k", .obj [("stream", .str "a\"b")])]⟩]

/-- The records of the samples. -/
def btcRecords : List Members := sessionRecords btcHeader btcItems 4 2

/-- The candles of a session. -/
theorem raw_filter_klines :
    iterItems (readTable btcRecords) (some ["kline"]) (btcRecords.flatMap recordLine) =
      (btcItems.filter (wanted ["kline"]), none) := by
  have hback := @readTable_back btcRecords (by decide +kernel)
  have hsession : SessionRecorder.session ⟨none, 0, 0⟩ btcHeader btcItems 4 =
      .ok (btcRecords.flatMap recordLine) := SessionRecorder.session_ok rfl rfl btcItems 4
  have hitems := iterItems_session hsession rfl rfl hback
  have hnames : ∀ f, .frame f ∈ btcItems → Unquoted f.stream := by
    -- the two names of the sample need no escapes
    have hstreams : ∀ stream ∈ ["btcusdt@depth20@100ms", "btcusdt@kline_1m"], Unquoted stream := by
      decide +kernel
    intro f hf
    simp only [btcItems, List.mem_cons, reduceCtorEq, SessionItem.frame.injEq, List.not_mem_nil,
      or_false, false_or] at hf
    rcases hf with rfl | rfl
    · exact hstreams _ (by simp)
    · exact hstreams _ (by simp)
  have hkeep : ∀ k ∈ ["kline"], ∀ c ∈ k.toList, Printable c := by
    intro k hk
    rw [List.mem_singleton.mp hk]
    exact List.all_iff_forall_prop.mp (by decide +kernel)
  have hfilter := raw_filter (readTable btcRecords) ⟨none, 0, 0⟩ btcHeader btcItems 4
    (btcRecords.flatMap recordLine) ["kline"] hsession rfl hnames
    (fun r hr v hv => ⟨r, by rw [hback r hr] at hv; exact (Except.ok.inj hv).symm, rfl, rfl⟩) hkeep
  rw [hitems] at hfilter
  exact hfilter.2 rfl

/-- A frame whose stream is not ASCII. -/
def accentedFrame : RawFrame := ⟨"public", 1, "é", .obj []⟩

/-- The records with that frame alone. -/
def accentedRecords : List Members := sessionRecords btcHeader [.frame accentedFrame] 2 1

/-- **A kind beyond ASCII is lost.**  In the raw line its name is escaped, so that the frame is
    left out though its kind is in the set. -/
theorem accented_kind_lost :
    ¬∀ (loads : List UInt8 → Except PyError Datum) (s : SessionRecorder) (header : Members)
      (items : List SessionItem) (endedNs : ℤ) (bytes : List UInt8) (keep : List String),
      s.session header items endedNs = .ok bytes → header.lookup "kind" = some (.str "header") →
      (∀ f, .frame f ∈ items → Unquoted f.stream ∧ Unquoted f.conn) →
      (∀ r ∈ sessionRecords header items endedNs (s.frames + frameCount items),
        loads (recordLine r) = .ok (.obj r)) →
      iterItems loads (some keep) bytes =
        ((iterItems loads none bytes).1.filter (wanted keep), none) := by
  intro h
  have hback := @readTable_back accentedRecords (by decide +kernel)
  have hsession : SessionRecorder.session ⟨none, 0, 0⟩ btcHeader [.frame accentedFrame] 2 =
      .ok (accentedRecords.flatMap recordLine) := SessionRecorder.session_ok rfl rfl _ 2
  have hnames : ∀ f, .frame f ∈ [SessionItem.frame accentedFrame] →
      Unquoted f.stream ∧ Unquoted f.conn := by
    intro f hf
    obtain rfl : f = accentedFrame := by simpa using hf
    decide +kernel
  have hequal := h _ _ _ _ _ _ ["é"] hsession rfl hnames hback
  rw [iterItems_session hsession rfl rfl hback] at hequal
  -- the frame is of the wanted kind
  have hone : ([SessionItem.frame accentedFrame].filter (wanted ["é"])).length = 1 := by
    decide +kernel
  -- and yet the filtered run skips it
  have hnone : (iterItems (readTable accentedRecords) (some ["é"])
      (accentedRecords.flatMap recordLine)).1.length = 0 := by decide +kernel
  rw [hequal] at hnone
  exact absurd (hone.symm.trans hnone) (by decide)

end FuzzHelm
