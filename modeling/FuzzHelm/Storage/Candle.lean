import FuzzHelm.Core.Money
import FuzzHelm.Lib.Run
import FuzzHelm.Lib.Upsert
import FuzzHelm.Storage.Common
import Mathlib.Data.Bool.Count

namespace FuzzHelm

open Lib

/-!
# The candle repository

Batches of candles are written with `INSERT … ON CONFLICT DO UPDATE`: a closed candle is
never overwritten, an open one only by a source of no lower priority.

* `upsertStmt` — one statement, as the database executes it: it raises when it would touch a
  row twice, and returns a flag for every row it writes;
* `CandleRepo.upsertRecords` — the batch: rounds of distinct keys, by copy or by chunks;
* `applyRules` — the rule applied to the records one at a time, the meaning of a batch;
* `upsertStmt_settles` — a statement with distinct keys means just that;
* `candle_upsert` — so does every batch, and it changes nothing the second time;
* `closed_candle_kept` — when a closed candle is stored, after batches one after another.
-/

/-! ### The table -/

/-- The key columns of `candle`; times are in microseconds. -/
structure CandleKey where
  instrumentId : ℤ
  tf : String
  openTime : ℤ
  deriving DecidableEq, Repr

/-- The columns that an upsert writes besides the key. -/
structure CandleData where
  closeTime : ℤ
  o : Option Decimal
  h : Option Decimal
  l : Option Decimal
  c : Option Decimal
  volume : Option Decimal
  quoteVolume : Option Decimal
  tradesCount : Option ℤ
  vwap : Option Decimal
  isClosed : Bool
  isSynthetic : Bool
  src : ℕ
  deriving DecidableEq, Repr

/-- A record in the order of the written columns: the key, then the rest. -/
abbrev CandleRecord := CandleKey × CandleData

/-- A stored row without its key. -/
structure CandleRow where
  data : CandleData
  ingestedAt : ℤ
  deriving DecidableEq, Repr

/-- The table of the candles, by key. -/
abbrev CandleTable := Dict CandleKey CandleRow

/-- The data columns of the table: all but `ingested_at`. -/
def CandleTable.dataAt (t : CandleTable) (k : CandleKey) : Option CandleData :=
  (t.get? k).map CandleRow.data

/-- What the database raises. -/
inductive SqlError where
  | cardinalityViolation
  deriving DecidableEq, Repr

/-- `WHERE candle.is_closed = FALSE AND EXCLUDED.src <= candle.src`. -/
def mayOverwrite (old new : CandleData) : Bool := !old.isClosed && decide (new.src ≤ old.src)

/-- The rows of one statement, after those that have written `touched`: one flag for each row
    that is inserted (`true`) or updated (`false`). -/
def upsertRows (now : ℤ) : List CandleKey → List CandleRecord → CandleTable →
    Except SqlError (List Bool × CandleTable)
  | _, [], t => .ok ([], t)
  | touched, (k, v) :: rows, t =>
    if k ∈ touched then .error .cardinalityViolation
    else match t.get? k with
    | none => do
      let (flags, t') ← upsertRows now (k :: touched) rows (t.insert k ⟨v, now⟩)
      return (true :: flags, t')
    | some row =>
      if mayOverwrite row.data v then do
        let (flags, t') ← upsertRows now (k :: touched) rows (t.insert k ⟨v, now⟩)
        return (false :: flags, t')
      else upsertRows now touched rows t

/-- `_upsert_stmt`, executed at the time `now` of the transaction. -/
def upsertStmt (now : ℤ) (rows : List CandleRecord) (t : CandleTable) :
    Except SqlError (List Bool × CandleTable) :=
  upsertRows now [] rows t

/-! ### The repository -/

/-- `UpsertResult`: how many rows were inserted, updated and skipped. -/
structure UpsertResult where
  inserted : ℤ
  updated : ℤ
  skipped : ℤ
  deriving DecidableEq, Repr

/-- The repository on its session: whether the driver can copy, the two sizes, and the order
    in which the database reads the stage table back. -/
structure CandleRepo where
  copyOk : Bool
  copyThreshold : ℕ
  valuesChunk : ℕ
  scan : List CandleRecord → List CandleRecord
  valuesChunk_pos : 0 < valuesChunk
  scan_perm : ∀ rows, (scan rows).Perm rows

namespace CandleRepo

/-- The sizes of the source: `COPY_THRESHOLD` and `VALUES_CHUNK`. -/
def new (copyOk : Bool) (scan : List CandleRecord → List CandleRecord)
    (hscan : ∀ rows, (scan rows).Perm rows) : CandleRepo :=
  ⟨copyOk, 500, 1000, scan, by decide, hscan⟩

variable (repo : CandleRepo) (now : ℤ) (useCopy : Option Bool)

/-- `_upsert_via_copy`: the rows go to the stage table, and one statement takes them from
    there. -/
def upsertViaCopy (rows : List CandleRecord) (t : CandleTable) :
    Except SqlError (List Bool × CandleTable) :=
  upsertStmt now (repo.scan rows) t

/-- The chunks of a round, one statement each. -/
def upsertParts : List (List CandleRecord) → CandleTable →
    Except SqlError (List Bool × CandleTable)
  | [], t => .ok ([], t)
  | part :: parts, t => do
    let (flags, t') ← upsertStmt now part t
    let (flags', t'') ← upsertParts parts t'
    return (flags ++ flags', t'')

/-- One round of the batch: by stage table when it is long enough, in chunks otherwise. -/
def upsertRound (rnd : List CandleRecord) (t : CandleTable) :
    Except SqlError (List Bool × CandleTable) :=
  let wantCopy := useCopy.getD (decide (repo.copyThreshold ≤ rnd.length))
  if wantCopy && repo.copyOk then repo.upsertViaCopy now rnd t
  else upsertParts now (chunks rnd repo.valuesChunk) t

/-- The rounds, with the numbers of inserted and updated rows. -/
def upsertRounds : List (List CandleRecord) → ℤ → ℤ → CandleTable →
    Except SqlError (ℤ × ℤ × CandleTable)
  | [], inserted, updated, t => .ok (inserted, updated, t)
  | rnd :: rounds, inserted, updated, t => do
    let (flags, t') ← repo.upsertRound now useCopy rnd t
    let ins : ℤ := flags.count true
    upsertRounds rounds (inserted + ins) (updated + (flags.length - ins)) t'

/-- `upsert_records`: the rounds of the batch, and how many rows were inserted, updated and skipped.
    -/
def upsertRecords (records : List CandleRecord) (t : CandleTable) :
    Except SqlError (UpsertResult × CandleTable) := do
  let (inserted, updated, t') ←
    repo.upsertRounds now useCopy (splitUniqueRounds Prod.fst records) 0 0 t
  return (⟨inserted, updated, records.length - inserted - updated⟩, t')

end CandleRepo

/-! ### One record at a time -/

/-- The upsert rule applied to one record. -/
def applyRule (now : ℤ) (r : CandleRecord) (t : CandleTable) : Outcome × CandleTable :=
  match t.get? r.1 with
  | none => (.inserted, t.insert r.1 ⟨r.2, now⟩)
  | some row =>
    if mayOverwrite row.data r.2 then (.updated, t.insert r.1 ⟨r.2, now⟩) else (.skipped, t)

/-- The rule applied to stamped records in order. -/
def applyRules : List (ℤ × CandleRecord) → CandleTable → List Outcome × CandleTable
  | [], t => ([], t)
  | (now, r) :: rs, t =>
    let (os, t') := applyRules rs (applyRule now r t).2
    ((applyRule now r t).1 :: os, t')

/-- The counts of some outcomes. -/
def tally (os : List Outcome) : UpsertResult :=
  ⟨os.count .inserted, os.count .updated, os.count .skipped⟩

/-! ### What a statement does -/

/-- A row that is written changes the data of its own key. -/
@[simp] theorem CandleTable.dataAt_insert (t : CandleTable) (k : CandleKey) (v : CandleData)
    (now : ℤ) :
    CandleTable.dataAt (t.insert k ⟨v, now⟩) = Function.update t.dataAt k (some v) := by
  funext j
  rcases eq_or_ne k j with rfl | h
  · rw [Function.update_self, dataAt, Dict.get?_insert_self]
    rfl
  · rw [Function.update_of_ne (Ne.symm h), dataAt, Dict.get?_insert_of_ne _ _ h]
    rfl

/-- **The rows are settled**: the data columns are those that the rule leaves, and the flags
    count the rows that were inserted and updated. -/
structure Settles (rows : List CandleRecord) (t : CandleTable) (flags : List Bool)
    (t' : CandleTable) : Prop where
  data : t'.dataAt = (upserts mayOverwrite t.dataAt rows).1
  inserted : flags.count true = (upserts mayOverwrite t.dataAt rows).2.count .inserted
  updated : flags.count false = (upserts mayOverwrite t.dataAt rows).2.count .updated

namespace Settles

variable {rows rows' : List CandleRecord} {t t' t'' : CandleTable} {flags flags' : List Bool}

/-- No rows settle nothing. -/
theorem nil (t : CandleTable) : Settles [] t [] t := ⟨rfl, rfl, rfl⟩

/-- Rows after rows. -/
theorem append (h : Settles rows t flags t') (h' : Settles rows' t' flags' t'') :
    Settles (rows ++ rows') t (flags ++ flags') t'' := by
  have hrest : upserts mayOverwrite (upserts mayOverwrite t.dataAt rows).1 rows' =
      upserts mayOverwrite t'.dataAt rows' := by rw [h.data]
  constructor
  · rw [upserts_append, hrest]
    exact h'.data
  · rw [upserts_append, hrest, List.count_append, List.count_append, h.inserted, h'.inserted]
  · rw [upserts_append, hrest, List.count_append, List.count_append, h.updated, h'.updated]

/-- Another interleaving is settled by the same flags. -/
theorem of_sameOrder (h : Settles rows t flags t') (hs : SameOrder rows rows') :
    Settles rows' t flags t' := by
  obtain ⟨hdata, hcount⟩ := hs.upserts mayOverwrite t.dataAt
  exact ⟨h.data.trans hdata, h.inserted.trans (hcount _), h.updated.trans (hcount _)⟩

/-- One more row in front, by what its key holds. -/
theorem cons_inserted {k : CandleKey} {v : CandleData} {now : ℤ} (hk : t.get? k = none)
    (h : Settles rows (t.insert k ⟨v, now⟩) flags t') :
    Settles ((k, v) :: rows) t (true :: flags) t' := by
  have hfree : t.dataAt k = none := by simp [CandleTable.dataAt, hk]
  obtain ⟨hdata, hins, hupd⟩ := h
  rw [CandleTable.dataAt_insert] at hdata hins hupd
  constructor <;> simp only [upserts, settle, hfree]
  · exact hdata
  · simp [hins]
  · simp [hupd]

/-- A row that may overwrite is settled as updated. -/
theorem cons_updated {k : CandleKey} {v : CandleData} {now : ℤ} {row : CandleRow}
    (hk : t.get? k = some row) (hover : mayOverwrite row.data v = true)
    (h : Settles rows (t.insert k ⟨v, now⟩) flags t') :
    Settles ((k, v) :: rows) t (false :: flags) t' := by
  have hheld : t.dataAt k = some row.data := by simp [CandleTable.dataAt, hk]
  obtain ⟨hdata, hins, hupd⟩ := h
  rw [CandleTable.dataAt_insert] at hdata hins hupd
  constructor <;> simp only [upserts, settle, hheld, hover, if_true]
  · exact hdata
  · simp [hins]
  · simp [hupd]

/-- A row that may not overwrite is settled as skipped. -/
theorem cons_skipped {k : CandleKey} {v : CandleData} {row : CandleRow}
    (hk : t.get? k = some row) (hover : mayOverwrite row.data v = false)
    (h : Settles rows t flags t') : Settles ((k, v) :: rows) t flags t' := by
  have hheld : t.dataAt k = some row.data := by simp [CandleTable.dataAt, hk]
  have hsame : Function.update t.dataAt k (some row.data) = t.dataAt := by
    rw [← hheld, Function.update_eq_self]
  constructor <;>
    simp only [upserts, settle, hheld, hover, Bool.false_eq_true, if_false, hsame]
  · exact h.data
  · simp [h.inserted]
  · simp [h.updated]

end Settles

/-- **One statement**, by induction on its rows: rows of different keys are all settled. -/
theorem upsertRows_settles (now : ℤ) (rows : List CandleRecord) :
    ∀ (touched : List CandleKey) (t : CandleTable), (rows.map Prod.fst).Nodup →
      (∀ k ∈ rows.map Prod.fst, k ∉ touched) →
      ∃ flags t', upsertRows now touched rows t = .ok (flags, t') ∧ Settles rows t flags t' := by
  induction rows with
  | nil => exact fun _ t _ _ => ⟨[], t, rfl, .nil t⟩
  | cons r rows ih =>
    obtain ⟨k, v⟩ := r
    intro touched t hnodup hfresh
    rw [List.map_cons, List.nodup_cons] at hnodup
    have hk : k ∉ touched := hfresh k (by simp)
    -- the rows that follow avoid this key as well
    have hrest : ∀ j ∈ rows.map Prod.fst, j ∉ k :: touched := by
      intro j hj hmem
      rcases List.mem_cons.mp hmem with rfl | hmem
      · exact hnodup.1 hj
      · exact hfresh j (by simp only [List.map_cons, List.mem_cons]; exact .inr hj) hmem
    rw [upsertRows, if_neg hk]
    cases hget : t.get? k with
    | none =>
      obtain ⟨flags, t', hrun, hs⟩ := ih (k :: touched) (t.insert k ⟨v, now⟩) hnodup.2 hrest
      exact ⟨true :: flags, t', bind_eq_ok.mpr ⟨_, hrun, rfl⟩, hs.cons_inserted hget⟩
    | some row =>
      cases hover : mayOverwrite row.data v with
      | true =>
        obtain ⟨flags, t', hrun, hs⟩ := ih (k :: touched) (t.insert k ⟨v, now⟩) hnodup.2 hrest
        refine ⟨false :: flags, t', ?_, hs.cons_updated hget hover⟩
        simp only [hover, if_true]
        exact bind_eq_ok.mpr ⟨_, hrun, rfl⟩
      | false =>
        obtain ⟨flags, t', hrun, hs⟩ := ih touched t hnodup.2
          fun j hj hmem => hrest j hj (List.mem_cons_of_mem _ hmem)
        refine ⟨flags, t', ?_, hs.cons_skipped hget hover⟩
        simp only [hover, Bool.false_eq_true, if_false]
        exact hrun

/-- **A statement with distinct keys** returns and settles its rows. -/
theorem upsertStmt_settles (now : ℤ) {rows : List CandleRecord} (t : CandleTable)
    (h : (rows.map Prod.fst).Nodup) :
    ∃ flags t', upsertStmt now rows t = .ok (flags, t') ∧ Settles rows t flags t' :=
  upsertRows_settles now rows [] t h fun _ _ => List.not_mem_nil

/-! ### What a batch does -/

section Batch

variable (repo : CandleRepo) (now : ℤ) (useCopy : Option Bool)

/-- Statements one after another, by induction on them. -/
theorem upsertParts_settles (parts : List (List CandleRecord)) :
    ∀ t : CandleTable, (∀ part ∈ parts, (part.map Prod.fst).Nodup) →
      ∃ flags t', CandleRepo.upsertParts now parts t = .ok (flags, t') ∧
        Settles parts.flatten t flags t' := by
  induction parts with
  | nil => exact fun t _ => ⟨[], t, rfl, .nil t⟩
  | cons part parts ih =>
    intro t h
    obtain ⟨flags, t', hstmt, hs⟩ := upsertStmt_settles now t (h part (by simp))
    obtain ⟨flags', t'', hrest, hs'⟩ := ih t' fun p hp => h p (List.mem_cons_of_mem _ hp)
    exact ⟨flags ++ flags', t'', bind_eq_ok.mpr ⟨_, hstmt, bind_eq_ok.mpr ⟨_, hrest, rfl⟩⟩,
      hs.append hs'⟩

/-- A round is settled by the copy as by the chunks. -/
theorem upsertRound_settles {rnd : List CandleRecord} (t : CandleTable)
    (h : (rnd.map Prod.fst).Nodup) :
    ∃ flags t', repo.upsertRound now useCopy rnd t = .ok (flags, t') ∧
      Settles rnd t flags t' := by
  rw [CandleRepo.upsertRound]
  split
  · have hperm := repo.scan_perm rnd
    have hnodup : ((repo.scan rnd).map Prod.fst).Nodup := (hperm.map _).nodup_iff.mpr h
    obtain ⟨flags, t', hstmt, hs⟩ := upsertStmt_settles now t hnodup
    exact ⟨flags, t', hstmt, hs.of_sameOrder (.of_perm hperm hnodup)⟩
  · have hflat := chunks_flatten rnd repo.valuesChunk_pos
    have hdistinct : ∀ part ∈ chunks rnd repo.valuesChunk, (part.map Prod.fst).Nodup := by
      intro part hpart
      refine h.sublist (List.Sublist.map _ ?_)
      conv => rhs; rw [← hflat]
      exact List.sublist_flatten_of_mem hpart
    obtain ⟨flags, t', hparts, hs⟩ := upsertParts_settles now _ t hdistinct
    rw [hflat] at hs
    exact ⟨flags, t', hparts, hs⟩

/-- Rounds one after another, by induction on them, with what they count. -/
theorem upsertRounds_settles (rounds : List (List CandleRecord)) :
    ∀ (inserted updated : ℤ) (t : CandleTable), (∀ rnd ∈ rounds, (rnd.map Prod.fst).Nodup) →
      ∃ (flags : List Bool) (t' : CandleTable),
        repo.upsertRounds now useCopy rounds inserted updated t =
          .ok (inserted + flags.count true, updated + flags.count false, t') ∧
        Settles rounds.flatten t flags t' := by
  -- by induction on the rounds: the counts of the first one are carried on
  induction rounds with
  | nil =>
    intro inserted updated t _
    exact ⟨[], t, by simp [CandleRepo.upsertRounds], .nil t⟩
  | cons rnd rounds ih =>
    intro inserted updated t h
    obtain ⟨flags, t', hround, hs⟩ := upsertRound_settles repo now useCopy t
      (h rnd (by simp))
    obtain ⟨flags', t'', hrest, hs'⟩ := ih (inserted + flags.count true)
      (updated + (flags.length - flags.count true)) t' fun p hp => h p (List.mem_cons_of_mem _ hp)
    refine ⟨flags ++ flags', t'', bind_eq_ok.mpr ⟨_, hround, hrest.trans ?_⟩, hs.append hs'⟩
    -- what was not inserted was updated
    have hlen : (flags.length : ℤ) - flags.count true = flags.count false := by
      have hall := List.count_false_add_count_true flags
      omega
    rw [hlen, List.count_append, List.count_append]
    push_cast
    rw [add_assoc, add_assoc]

/-- The outcomes of the rows are all that can become of them. -/
theorem count_outcomes (os : List Outcome) :
    os.count .inserted + os.count .updated + os.count .skipped = os.length := by
  induction os with
  | nil => rfl
  | cons o os ih =>
    cases o <;> simp <;> omega

/-- **The batch is settled**, and its result counts the outcomes of the rule. -/
theorem upsertRecords_settles (records : List CandleRecord) (t : CandleTable) :
    ∃ t', repo.upsertRecords now useCopy records t =
        .ok (tally (upserts mayOverwrite t.dataAt records).2, t') ∧
      t'.dataAt = (upserts mayOverwrite t.dataAt records).1 := by
  obtain ⟨flags, t', hrun, hs⟩ := upsertRounds_settles repo now useCopy
    (splitUniqueRounds Prod.fst records) 0 0 t fun rnd hrnd => splitUniqueRounds_nodup hrnd
  have horder : SameOrder (splitUniqueRounds Prod.fst records).flatten records := fun k =>
    congrArg (List.map Prod.snd) (splitUniqueRounds_order records k)
  obtain ⟨hdata, hins, hupd⟩ := hs.of_sameOrder horder
  refine ⟨t', bind_eq_ok.mpr ⟨_, hrun, ?_⟩, hdata⟩
  have hall := count_outcomes (upserts mayOverwrite t.dataAt records).2
  rw [length_upserts] at hall
  have hskip : (records.length : ℤ) - flags.count true - flags.count false =
      (upserts mayOverwrite t.dataAt records).2.count .skipped := by
    omega
  simp only [zero_add, hskip, tally, ← hins, ← hupd]
  rfl

end Batch

/-- Applying the rule to one record after the other is what the rows mean. -/
theorem applyRules_eq (stamped : List (ℤ × CandleRecord)) (t : CandleTable) :
    (applyRules stamped t).1 = (upserts mayOverwrite t.dataAt (stamped.map Prod.snd)).2 ∧
      (applyRules stamped t).2.dataAt =
        (upserts mayOverwrite t.dataAt (stamped.map Prod.snd)).1 := by
  -- record by record: each is settled against the data under its key
  induction stamped generalizing t with
  | nil => exact ⟨rfl, rfl⟩
  | cons e stamped ih =>
    obtain ⟨now, k, v⟩ := e
    have hone : (applyRule now (k, v) t).1 = (settle mayOverwrite (t.dataAt k) v).2 ∧
        (applyRule now (k, v) t).2.dataAt =
          Function.update t.dataAt k (settle mayOverwrite (t.dataAt k) v).1 := by
      unfold applyRule
      cases hget : t.get? k with
      -- a free key takes the record; a held one only what may overwrite it
      | none =>
        have hfree : t.dataAt k = none := by simp [CandleTable.dataAt, hget]
        simp [hfree, settle]
      | some row =>
        have hheld : t.dataAt k = some row.data := by simp [CandleTable.dataAt, hget]
        cases hover : mayOverwrite row.data v with
        | true => simp [hheld, settle, hover]
        | false =>
          simp only [hheld, settle, hover, Bool.false_eq_true, if_false, true_and]
          rw [← hheld, Function.update_eq_self]
    obtain ⟨hos, hdata⟩ := ih (applyRule now (k, v) t).2
    rw [hone.2] at hos hdata
    exact ⟨congrArg₂ List.cons hone.1 hos, hdata⟩

/-- **Batches.** Whatever the table holds, a batch of records, with repeated keys, cut into
    chunks of any size and written by any of the paths, returns and leaves the data columns
    that the rule leaves when it is applied to the records one at a time, at any times; its
    counts are those of the single records and add up to their number; and the same batch,
    given again in any way, leaves the data columns as they are. -/
theorem candle_upsert (repo : CandleRepo) (now : ℤ) (useCopy : Option Bool)
    (stamped : List (ℤ × CandleRecord)) (t : CandleTable) :
    ∃ res t', repo.upsertRecords now useCopy (stamped.map Prod.snd) t = .ok (res, t') ∧
      t'.dataAt = (applyRules stamped t).2.dataAt ∧
      res = tally (applyRules stamped t).1 ∧
      res.inserted + res.updated + res.skipped = stamped.length ∧
      ∀ (repo' : CandleRepo) (now' : ℤ) (useCopy' : Option Bool), ∃ res' t'',
        repo'.upsertRecords now' useCopy' (stamped.map Prod.snd) t' = .ok (res', t'') ∧
        t''.dataAt = t'.dataAt := by
  obtain ⟨hos, hdata⟩ := applyRules_eq stamped t
  obtain ⟨t', hrun, ht'⟩ :=
    upsertRecords_settles repo now useCopy (stamped.map Prod.snd) t
  refine ⟨_, t', hrun, ht'.trans hdata.symm, by rw [hos], ?_, fun repo' now' useCopy' => ?_⟩
  -- every record has exactly one outcome
  · have hall := count_outcomes (upserts mayOverwrite t.dataAt (stamped.map Prod.snd)).2
    rw [length_upserts, List.length_map] at hall
    simp only [tally]
    exact_mod_cast hall
  -- the same records once more settle to what they settled to
  · obtain ⟨t'', hrun', ht''⟩ :=
      upsertRecords_settles repo' now' useCopy' (stamped.map Prod.snd) t'
    refine ⟨_, t'', hrun', ?_⟩
    rw [ht'', ht']
    exact upserts_idem CandleData.isClosed CandleData.src _ _

/-- A candle with nothing but its state and its source. -/
def bareCandle (openTime : ℤ) (isClosed : Bool) (src : ℕ) : CandleRecord :=
  (⟨1, "1m", openTime⟩,
    ⟨openTime + 1, none, none, none, none, none, none, none, none, isClosed, false, src⟩)

/-- Open from REST, closed from the stream, and late from REST: the third one is skipped. -/
example : ((CandleRepo.new false id fun _ => .refl _).upsertRecords 0 none
    [bareCandle 0 false 2, bareCandle 0 true 1, bareCandle 60 false 2, bareCandle 0 false 2]
    ∅).toOption.map Prod.fst = some ⟨2, 1, 1⟩ := by
  decide +kernel

/-! ### Closed versions among open ones -/

/-- A batch with the repository and the transaction that writes it. -/
structure CandleBatch where
  repo : CandleRepo
  now : ℤ
  useCopy : Option Bool
  records : List CandleRecord

/-- Batches one after another. -/
def upsertBatches : List CandleBatch → CandleTable → Except SqlError CandleTable
  | [], t => .ok t
  | b :: bs, t => do
    let (_, t') ← b.repo.upsertRecords b.now b.useCopy b.records t
    upsertBatches bs t'

/-- The versions of one candle: the row that is stored, then those of the batches. -/
def candleVersions (t : CandleTable) (bs : List CandleBatch) (k : CandleKey) : List CandleData :=
  (t.dataAt k).toList ++ valuesAt (bs.flatMap CandleBatch.records) k

/-- The batches leave what their records leave, one record after another. -/
theorem upsertBatches_settles (bs : List CandleBatch) (t : CandleTable) :
    ∃ t', upsertBatches bs t = .ok t' ∧
      t'.dataAt = (upserts mayOverwrite t.dataAt (bs.flatMap CandleBatch.records)).1 := by
  induction bs generalizing t with
  | nil => exact ⟨t, rfl, rfl⟩
  | cons b bs ih =>
    obtain ⟨t₁, hrun, h₁⟩ := upsertRecords_settles b.repo b.now b.useCopy b.records t
    obtain ⟨t', hrest, h'⟩ := ih t₁
    refine ⟨t', bind_eq_ok.mpr ⟨_, hrun, hrest⟩, ?_⟩
    rw [h', h₁, List.flatMap_cons, upserts_append]

/-- **Closed candles.**  After any batches, with any other candles among their records, a
    candle is stored as closed if and only if some closed version of it came from a source of
    no lower priority than every version before it.  Once it is, no later batch changes any of
    its data columns. -/
theorem closed_candle_kept (bs : List CandleBatch) (t : CandleTable) (k : CandleKey) :
    ∃ t', upsertBatches bs t = .ok t' ∧
      ((∃ d, t'.dataAt k = some d ∧ d.isClosed = true) ↔
        FinalInTurn CandleData.isClosed CandleData.src (candleVersions t bs k)) ∧
      ∀ (d : CandleData), t'.dataAt k = some d → d.isClosed = true →
        ∀ later : List CandleBatch, ∃ t'', upsertBatches later t' = .ok t'' ∧
          t''.dataAt k = some d := by
  obtain ⟨t', hrun, ht'⟩ := upsertBatches_settles bs t
  refine ⟨t', hrun, ?_, fun d hd hclosed later => ?_⟩
  · rw [ht', upserts_at]
    exact settleAll_final (t.dataAt k) _
  · obtain ⟨t'', hrun', ht''⟩ := upsertBatches_settles later t'
    refine ⟨t'', hrun', ?_⟩
    rw [ht'', upserts_at, hd]
    have hkept : (settleAll (byRank CandleData.isClosed CandleData.src) (some d)
        (valuesAt (later.flatMap CandleBatch.records) k)).1 = some d :=
      settleAll_of_final hclosed _
    exact hkept

/-- The stream's open row is not closed by the version from REST, which is skipped. -/
theorem closed_rest_skipped : ∃ (repo : CandleRepo) (t' : CandleTable),
    upsertBatches [⟨repo, 0, none, [bareCandle 0 false 1]⟩,
      ⟨repo, 1, none, [bareCandle 0 true 2]⟩] ∅ = .ok t' ∧
    (bareCandle 0 true 2).2.isClosed = true ∧
    t'.dataAt ⟨1, "1m", 0⟩ = some (bareCandle 0 false 1).2 ∧
    (bareCandle 0 false 1).2.isClosed = false := by
  refine ⟨CandleRepo.new false id fun _ => .refl _, ?_⟩
  refine ⟨Dict.insert ∅ ⟨1, "1m", 0⟩ ⟨(bareCandle 0 false 1).2, 0⟩,
    ?_, rfl, ?_, rfl⟩
  · decide +kernel
  · decide +kernel

end FuzzHelm
