import FuzzHelm.Features.Pipeline
import FuzzHelm.Lib.PyRange
import FuzzHelm.Lib.RingBuffer
import FuzzHelm.Lib.Run

namespace FuzzHelm

open Lib

/-!
# The window and its guard

What detectors and the backtest may read: the last bars with their features in a ring buffer, and
a whole array behind a guard that knows how far the run has come.

* `GuardedArray` — the array with its cursor; `GuardedArray.getItem` — a read through the guard;
* `NumpyRows` — what the guard takes from numpy: the rows that an index reads;
* `BarWindow` — the ring buffer, with its reads by lag;
* `Rings` — the buffer holds the last rows that were appended;
* `no_look_ahead` — which reads stay behind the cursor, and that those of the window always do.
-/

/-- What a read may raise; a `TypeError` and an `AssertionError` among them. -/
inductive WindowError where
  | lookahead (msg : String)
  | index (msg : String)
  | value (msg : String)
  | type (msg : String)
  | attribute (name : String)
  | assertion
  deriving DecidableEq, Repr

/-! ### The guarded array -/

/-- One index; a numpy integer counts as an integer, and every other object comes with the name
    of its type. -/
inductive Index (α : Type*) where
  | int (i : ℤ)
  | bool (b : Bool)
  | slice (s : PySlice)
  | other (typeName : String) (x : α)

/-- What stands between the brackets. -/
inductive IndexKey (α : Type*) where
  | one (i : Index α)
  | tuple (items : List (Index α))

/-- The indices of a key: `a[i]` is `a[i,]`. -/
def IndexKey.items {α : Type*} : IndexKey α → List (Index α)
  | one i => [i]
  | tuple items => items

/-- An array of `rows` rows and the last row that may be read. -/
structure GuardedArray where
  rows : ℕ
  cursor : ℤ
  le_cursor : -1 ≤ cursor
  cursor_lt : cursor < rows

namespace GuardedArray

/-- The setter of `cursor`. -/
def setCursor (g : GuardedArray) (value : ℤ) : Except WindowError GuardedArray :=
  if h : -1 ≤ value ∧ value < g.rows then .ok ⟨g.rows, value, h.1, h.2⟩
  else .error (.index s!"cursor {value} outside [-1, {(g.rows : ℤ) - 1}]")

/-- `__init__`, of an array with at least one dimension. -/
def new (rows : ℕ) (cursor : ℤ) : Except WindowError GuardedArray :=
  setCursor ⟨rows, -1, le_rfl, by omega⟩ cursor

/-- `advance`: the cursor moves forward only, and stays within the rows. -/
def advance (g : GuardedArray) (steps : ℤ) : Except WindowError GuardedArray :=
  g.setCursor (g.cursor + steps)

/-- `__len__`: how many rows may be read. -/
def len (g : GuardedArray) : ℤ := g.cursor + 1

/-- `_check_index`: an index behind the cursor looks ahead, and raises. -/
def checkIndex (g : GuardedArray) (i : ℤ) : Except WindowError Unit :=
  let j := if i < 0 then i + g.rows else i
  if g.cursor < j then .error (.lookahead s!"index {i} (→{j}) > cursor {g.cursor}") else .ok ()

/-- `repr` of a slice. -/
def sliceText (s : PySlice) : String :=
  let part (x : Option ℤ) : String := x.elim "None" toString
  s!"slice({part s.start}, {part s.stop}, {part s.step})"

/-- The check of the first index. -/
def check {α : Type*} (g : GuardedArray) : Index α → Except WindowError Unit
  | .slice s =>
    match s.indices g.rows with
    | none => .error (.value "slice step cannot be zero")
    | some rng =>
      if g.cursor < rangeTop rng then
        .error (.lookahead
          s!"slice {sliceText s} reaches index {rangeTop rng} > cursor {g.cursor}")
      else .ok ()
  | .int i => g.checkIndex i
  -- `bool` is a subclass of `int`
  | .bool b => g.checkIndex (if b then 1 else 0)
  | .other typeName _ =>
    .error (.type s!"unsupported index type {typeName} for GuardedArray")

/-- `__getitem__`: the rows that are read, `numpy` being the read of the array itself. -/
def getItem {α : Type*} (numpy : List (Index α) → Except WindowError (List ℕ))
    (g : GuardedArray) (key : IndexKey α) : Except WindowError (List ℕ) :=
  match key.items with
  | [] => .error (.index "tuple index out of range")
  | first :: rest => do
    g.check first
    numpy (first :: rest)

/-- `visible`: the rows up to the cursor. -/
def visible (g : GuardedArray) : List ℕ := List.range (g.cursor + 1).toNat

end GuardedArray

/-- The rows that numpy reads from an array of `n` rows: an integer or a slice in the first place
    selects among the rows; a boolean stands before the first axis, adds an axis of its own and
    leaves the rows to the indices after it, or keeps nothing; without indices all rows are read. -/
structure NumpyRows {α : Type*} (n : ℕ)
    (numpy : List (Index α) → Except WindowError (List ℕ)) : Prop where
  int : ∀ i rest rows, numpy (.int i :: rest) = .ok rows →
    ∀ r ∈ rows, (r : ℤ) = if i < 0 then i + n else i
  slice : ∀ s rest rows, numpy (.slice s :: rest) = .ok rows →
    ∃ rng, s.indices n = some rng ∧ ∀ r ∈ rows, (r : ℤ) ∈ rng
  true : ∀ rest rows, numpy (.bool true :: rest) = .ok rows ↔ numpy rest = .ok rows
  false : ∀ rest rows, numpy (.bool false :: rest) = .ok rows → rows = []
  nil : numpy [] = .ok (List.range n)

/-! ### The ring buffer of bars -/

/-- `BAR_FIELDS`, of which those of `_INT_BAR_FIELDS` are integers. -/
def barFields : List String := ["o", "h", "l", "c", "v", "qv", "n", "t_ns"]

/-- The fields of a bar that are whole numbers. -/
def intBarFields : List String := ["n", "t_ns"]

section Rows

variable {K : Type}

/-- `getattr` of a float field of a bar. -/
def Bar.getFloat (b : Bar K) : String → Option (Option K)
  | "o" => some (some b.o)
  | "h" => some (some b.h)
  | "l" => some (some b.l)
  | "c" => some (some b.c)
  | "v" => some (some b.v)
  | "qv" => some (some b.qv)
  | _ => none

/-- `getattr` of an integer field of a bar. -/
def Bar.getInt (b : Bar K) : String → Option ℤ
  | "n" => some b.n
  | "t_ns" => some b.tNs
  | _ => none

/-- `getattr` of a feature; there may be no such feature, or it is not warm yet. -/
def Features.getattr (f : Features K) : String → Option (Option K)
  | "ema" => some f.ema
  | "ema_lag" => some f.emaLag
  | "ema_r2" => some f.emaR2
  | "atr" => some f.atr
  | "rsi" => some f.rsi
  | "rsi_delta" => some f.rsiDelta
  | "close_delta" => some f.closeDelta
  | "sma" => some f.sma
  | "sigma" => some f.sigma
  | "bb_upper" => some f.bbUpper
  | "bb_lower" => some f.bbLower
  | "bb_bw" => some f.bbBw
  | "bb_bw_rank" => some f.bbBwRank
  | "donch_hi" => some f.donchHi
  | "donch_lo" => some f.donchLo
  | "donch_ref" => some f.donchRef
  | "donch_dir" => some f.donchDir
  | "bars_since_breakout" => some f.barsSinceBreakout
  | "park_sigma" => some f.parkSigma
  | "vol_rank" => some f.volRank
  | "vol_mean" => some f.volMean
  | "vol_z" => some f.volZ
  | _ => none

/-- A bar with its features. -/
abbrev Row (K : Type) := Bar K × Features K

/-- A column: integers, or floats with NaN where there is no value. -/
inductive Series (K : Type) where
  | ints (xs : List ℤ)
  | floats (xs : List (Option K))

/-- `getattr(x, name)` of what a cell holds. -/
def getAttr {β γ : Type} (name : String) (get : β → String → Option γ) (x : Option β) :
    Except WindowError γ :=
  match x.bind fun y => get y name with
  | some v => .ok v
  | none => .error (.attribute name)

/-- `BarWindow`: one ring for each field of a bar and of its features. -/
structure BarWindow (K : Type) where
  capacity : ℕ
  barCells : List (Option (Bar K))
  featCells : List (Option (Features K))
  head : ℤ
  count : ℕ
  t : ℤ

namespace BarWindow

/-- `__init__`: every ring is empty, and the capacity is positive. -/
def new (capacity : ℤ) : Except WindowError (BarWindow K) :=
  if capacity < 1 then .error (.value "capacity must be >= 1")
  else .ok
    { capacity := capacity.toNat
      barCells := List.replicate capacity.toNat none
      featCells := List.replicate capacity.toNat none
      head := -1
      count := 0
      t := -1 }

variable (w : BarWindow K)

/-- `append`: every ring takes the value of its field. -/
def append (bar : Bar K) (feats : Features K) : BarWindow K :=
  let h := if w.head + 1 = w.capacity then 0 else w.head + 1
  { w with
    head := h
    barCells := w.barCells.set h.toNat (some bar)
    featCells := w.featCells.set h.toNat (some feats)
    count := if w.count < w.capacity then w.count + 1 else w.count
    t := w.t + 1 }

/-- `_pos`: the cell of the bar `lag` bars ago. -/
def pos (lag : ℤ) : Except WindowError ℕ :=
  if lag < 0 then .error (.lookahead s!"lag={lag} < 0 reads the future (t={w.t})")
  else if w.count ≤ lag then .error (.index s!"lag={lag} beyond history of {w.count} bars")
  else
    let p := w.head - lag
    .ok (if p < 0 then p + w.capacity else p).toNat

/-- What a cell holds must be there. -/
def held {β : Type} (x : Option β) : Except WindowError β :=
  match x with
  | some y => .ok y
  | none => .error .assertion

/-- `bar`: the bar `lag` before the newest, as long as the window has it. -/
def bar (lag : ℤ) : Except WindowError (Bar K) := do
  held (w.barCells[← w.pos lag]?).join

/-- `feats`: the features `lag` before the newest. -/
def feats (lag : ℤ) : Except WindowError (Features K) := do
  held (w.featCells[← w.pos lag]?).join

/-- `feat`: one feature, by its name. -/
def feat (name : String) (lag : ℤ) : Except WindowError (Option K) := do
  getAttr name Features.getattr (some (← w.feats lag))

/-- One value of a column. -/
def cell {β γ : Type} (src : List (Option β)) (name : String) (get : β → String → Option γ)
    (lag : ℤ) : Except WindowError γ := do
  getAttr name get (src[← w.pos lag]?).join

/-- The values of a column from the oldest of `n` bars to the newest. -/
def column {β γ : Type} (src : List (Option β)) (name : String) (get : β → String → Option γ)
    (n : ℕ) : Except WindowError (List γ) :=
  (List.range n).mapM fun k : ℕ => w.cell src name get ((n : ℤ) - 1 - k)

/-- `series`: the last `n` values under a name, from the oldest to the newest. -/
def series (name : String) (n : ℤ) : Except WindowError (Series K) :=
  if n < 0 then .error (.lookahead s!"series length n={n} < 0")
  else if w.count < n then
    .error (.index s!"series('{name}', {n}) beyond history of {w.count} bars")
  else if name ∈ intBarFields then .ints <$> w.column w.barCells name Bar.getInt n.toNat
  else if name ∈ barFields then .floats <$> w.column w.barCells name Bar.getFloat n.toNat
  else .floats <$> w.column w.featCells name Features.getattr n.toNat

/-! ### The window as a ring buffer -/

/-- A window after rows have been appended to it. -/
def appendAll (w : BarWindow K) (rows : List (Row K)) : BarWindow K :=
  rows.foldl (fun w r => w.append r.1 r.2) w

/-- The two lists of cells are one ring buffer; its cursor is the cell after the head. -/
structure Rings (w : BarWindow K) (b : RingBuffer (Option (Row K))) : Prop where
  capacity : w.capacity = b.cells.length
  bars : w.barCells = b.cells.map (Option.map Prod.fst)
  feats : w.featCells = b.cells.map (Option.map Prod.snd)
  count : w.count = b.count
  idx : (b.idx : ℤ) = if w.head + 1 = w.capacity then 0 else w.head + 1
  head_lt : w.head < w.capacity
  head_nonneg : 0 < w.count → 0 ≤ w.head

variable {w : BarWindow K} {b : RingBuffer (Option (Row K))}

/-- One row goes into every ring. -/
theorem Rings.append (h : Rings w b) (r : Row K) :
    Rings (w.append r.1 r.2) (b.push (some r)) := by
  have hidx := h.idx
  have hlt := b.idx_lt
  have hcapacity := h.capacity
  -- the head of the window is one cell behind the cursor of the ring
  have hcell : (if w.head + 1 = w.capacity then 0 else w.head + 1).toNat = b.idx := by
    rw [← hidx, Int.toNat_natCast]
  refine ⟨?_, ?_, ?_, ?_, ?_, ?_, ?_⟩
  · rw [RingBuffer.length_cells_push]
    exact hcapacity
  · show w.barCells.set _ (some r.1) = (b.cells.set b.idx (some r)).map _
    rw [hcell, h.bars, List.map_set, Option.map_some]
  · show w.featCells.set _ (some r.2) = (b.cells.set b.idx (some r)).map _
    rw [hcell, h.feats, List.map_set, Option.map_some]
  · show (if w.count < w.capacity then w.count + 1 else w.count) = _
    rw [h.count, hcapacity]
    rfl
  · -- the new head is the cell under the cursor
    show (((if b.idx + 1 < b.cells.length then b.idx + 1 else 0 : ℕ) : ℕ) : ℤ) =
      if (if w.head + 1 = w.capacity then 0 else w.head + 1) + 1 = (w.capacity : ℤ) then 0
      else (if w.head + 1 = w.capacity then 0 else w.head + 1) + 1
    rw [← hidx, hcapacity]
    split_ifs <;> omega
  · show (if w.head + 1 = w.capacity then 0 else w.head + 1) < (w.capacity : ℤ)
    omega
  · intro _
    show 0 ≤ if w.head + 1 = w.capacity then 0 else w.head + 1
    omega

/-- The cell of a lag is the one that many places before the newest. -/
theorem Rings.pos (h : Rings w b) {lag : ℕ} (hlag : lag < w.count) :
    ∃ p, w.pos lag = .ok p ∧ b.cells[p]? = b.ordered[b.cells.length - 1 - lag]? := by
  have hcount := h.count
  have hle := b.count_le
  have hidx := h.idx
  have hcapacity := h.capacity
  have hhead := h.head_lt
  have hnonneg := h.head_nonneg (by omega)
  have hlt := b.idx_lt
  refine ⟨(if w.head - lag < 0 then w.head - lag + w.capacity else w.head - lag).toNat, ?_, ?_⟩
  · rw [BarWindow.pos, if_neg (by omega), if_neg (by omega)]
  · rw [b.getElem?_ordered_back (by omega)]
    congr 1
    split_ifs at hidx ⊢ <;> omega

/-- The window has been given the rows `rows`, one after another. -/
structure Keeps (n : ℕ) (rows : List (Row K)) (w : BarWindow K) : Prop where
  ring : ∃ b, Rings w b ∧ RingBuffer.Holds n none b (rows.map some)
  t : w.t = rows.length - 1

/-- A new window keeps nothing. -/
theorem keeps_new {capacity : ℤ} (h : 1 ≤ capacity) :
    ∃ w : BarWindow K, new capacity = .ok w ∧ Keeps capacity.toNat [] w := by
  have hpos : 0 < capacity.toNat := by omega
  have hcast : (capacity.toNat : ℤ) = capacity := Int.toNat_of_nonneg (by omega)
  refine ⟨_, if_neg (by omega), ⟨RingBuffer.new capacity.toNat hpos none, ?_,
    RingBuffer.Holds.new hpos⟩, rfl⟩
  refine ⟨?_, ?_, ?_, rfl, ?_, ?_, ?_⟩
  · simp [RingBuffer.new]
  · simp [RingBuffer.new]
  · simp [RingBuffer.new]
  · have hne : ¬ (-1 + 1 : ℤ) = capacity.toNat := by omega
    rw [if_neg hne]
    rfl
  · show (-1 : ℤ) < capacity.toNat
    omega
  · exact fun hcount => absurd hcount (lt_irrefl 0)

variable {n : ℕ} {rows : List (Row K)}

/-- **Step lemma**: one row more is kept. -/
theorem Keeps.append (h : Keeps n rows w) (r : Row K) :
    Keeps n (rows ++ [r]) (w.append r.1 r.2) := by
  obtain ⟨b, hring, hholds⟩ := h.ring
  refine ⟨⟨_, hring.append r, ?_⟩, ?_⟩
  · rw [List.map_append, List.map_singleton]
    exact hholds.push (some r)
  · show w.t + 1 = _
    rw [h.t, List.length_append, List.length_singleton]
    omega

/-- **Run lemma**: more rows are kept, by induction on them. -/
theorem Keeps.appendAll (h : Keeps n rows w) (more : List (Row K)) :
    Keeps n (rows ++ more) (w.appendAll more) := by
  induction more generalizing rows w with
  | nil =>
    rw [List.append_nil]
    exact h
  | cons r more ih =>
    rw [List.append_cons]
    exact ih (h.append r)

/-- What a window counts is how many of the last `n` rows there are. -/
theorem Keeps.count (h : Keeps n rows w) : w.count = (rows.rtake n).length := by
  obtain ⟨b, hring, hholds⟩ := h.ring
  rw [hring.count, hholds.count, List.length_map, length_rtake, min_comm]

/-- The cell of a lag holds the row that many places before the last. -/
theorem Keeps.cells (h : Keeps n rows w) {lag : ℕ} {r : Row K}
    (hr : (rows.rtake n).reverse[lag]? = some r) :
    ∃ p, w.pos lag = .ok p ∧ (w.barCells[p]?).join = some r.1 ∧
      (w.featCells[p]?).join = some r.2 := by
  have hcount := h.count
  obtain ⟨b, hring, hholds⟩ := h.ring
  -- a lag inside the suffix is a lag inside the count
  have hlt : lag < (rows.rtake n).length := by
    have := (List.getElem?_eq_some_iff.mp hr).1
    rwa [List.length_reverse] at this
  have hcounted : lag < w.count := by omega
  obtain ⟨p, hp, hcell⟩ := hring.pos hcounted
  -- the ring holds the row of that lag
  have hsame : b.cells[p]? = some (some r) := by
    have hback : rows.reverse[lag]? = some r := by
      rw [List.rtake_eq_reverse_take_reverse, List.reverse_reverse, List.getElem?_take] at hr
      split at hr
      · exact hr
      · cases hr
    rw [hcell, hholds.size, hholds.getElem?_back (by rw [← hring.count]; omega), List.length_map,
      List.getElem?_map, ← List.getElem?_reverse, hback, Option.map_some]
    rw [length_rtake] at hlt
    omega
  refine ⟨p, hp, ?_, ?_⟩
  · rw [hring.bars, List.getElem?_map, hsame]
    rfl
  · rw [hring.feats, List.getElem?_map, hsame]
    rfl

/-! ### Reads of the window -/

/-- The column of some rows under a name. -/
def columnOf (name : String) (rows : List (Row K)) : Except WindowError (Series K) :=
  if name ∈ intBarFields then
    .ints <$> rows.mapM fun r => getAttr name Bar.getInt (some r.1)
  else if name ∈ barFields then
    .floats <$> rows.mapM fun r => getAttr name Bar.getFloat (some r.1)
  else
    .floats <$> rows.mapM fun r => getAttr name Features.getattr (some r.2)

/-- The window reads these rows and no others: the row of a lag counted from the newest, the last
    `n` values of a column; a negative lag or length is refused as the future, one that is too
    large for want of data. -/
structure ReadsSuffix (w : BarWindow K) (kept : List (Row K)) : Prop where
  row : ∀ (lag : ℕ) r, kept.reverse[lag]? = some r →
    w.bar lag = .ok r.1 ∧ w.feats lag = .ok r.2
  negative : ∀ lag < 0, (∃ msg, w.bar lag = .error (.lookahead msg)) ∧
    ∃ msg, w.feats lag = .error (.lookahead msg)
  deep : ∀ lag : ℤ, kept.length ≤ lag → (∃ msg, w.bar lag = .error (.index msg)) ∧
    ∃ msg, w.feats lag = .error (.index msg)
  series : ∀ name, ∀ n ≤ kept.length, w.series name n = columnOf name (kept.rtake n)
  series_negative : ∀ name, ∀ n < 0, ∃ msg, w.series name n = .error (.lookahead msg)
  series_long : ∀ name, ∀ n : ℤ, kept.length < n → ∃ msg, w.series name n = .error (.index msg)

/-- A computation along the places of a list is one along the list. -/
theorem mapM_range {α β : Type} {f : ℕ → Except WindowError β} {g : α → Except WindowError β}
    {xs : List α} (h : ∀ k x, xs[k]? = some x → f k = g x) :
    (List.range xs.length).mapM f = xs.mapM g := by
  induction xs using List.reverseRecOn with
  | nil => rfl
  | append_singleton xs x ih =>
    have hinit : (List.range xs.length).mapM f = xs.mapM g := by
      apply ih
      intro k y hy
      apply h k y
      rw [List.getElem?_append_left (List.getElem?_eq_some_iff.mp hy).1, hy]
    have hlast : f xs.length = g x := h xs.length x (by simp)
    simp only [List.length_append, List.length_singleton, List.range_succ, List.mapM_append, hinit,
      List.mapM_cons, List.mapM_nil, hlast]

/-- One column of the window. -/
theorem Keeps.column (h : Keeps n rows w) {β γ : Type} {src : List (Option β)} {name : String}
    {get : β → String → Option γ} {part : Row K → β} {m : ℕ} (hm : m ≤ (rows.rtake n).length)
    (hsrc : ∀ (p : ℕ) (r : Row K), (w.barCells[p]?).join = some r.1 →
      (w.featCells[p]?).join = some r.2 → (src[p]?).join = some (part r)) :
    w.column src name get m =
      ((rows.rtake n).rtake m).mapM fun r => getAttr name get (some (part r)) := by
  have hlength : ((rows.rtake n).rtake m).length = m := by
    rw [length_rtake]
    omega
  -- the column is read oldest first, by falling lag
  have hcolumn : w.column src name get m =
      (List.range ((rows.rtake n).rtake m).length).mapM
        fun k : ℕ => w.cell src name get ((m : ℤ) - 1 - k) := by
    rw [hlength, BarWindow.column]
  rw [hcolumn]
  apply mapM_range
  intro k r hr
  have hk : k < m := by
    have := (List.getElem?_eq_some_iff.mp hr).1
    omega
  -- the `k`-th of `m` rows is `m - 1 - k` rows back
  have hlag : ((m : ℤ) - 1 - k) = ((m - 1 - k : ℕ) : ℤ) := by omega
  have hback : (rows.rtake n).reverse[m - 1 - k]? = some r := by
    rw [List.getElem?_reverse (by omega)]
    rw [List.rtake, List.getElem?_drop] at hr
    rw [← hr]
    congr 1
    omega
  obtain ⟨p, hp, hbar, hfeat⟩ := h.cells hback
  rw [cell, hlag, hp]
  show getAttr name get (src[p]?).join = _
  rw [hsrc p r hbar hfeat]

/-- **A window reads the end of its history**: lag for lag the last `n` rows, and nothing before. -/
theorem Keeps.readsSuffix (h : Keeps n rows w) : ReadsSuffix w (rows.rtake n) := by
  have hcount := h.count
  refine ⟨?_, ?_, ?_, ?_, ?_, ?_⟩
  · intro lag r hr
    obtain ⟨p, hp, hbar, hfeat⟩ := h.cells hr
    rw [bar, feats, hp]
    exact ⟨congrArg held hbar, congrArg held hfeat⟩
  · intro lag hlag
    rw [bar, feats, pos, if_pos hlag]
    exact ⟨⟨_, rfl⟩, _, rfl⟩
  · intro lag hlag
    rw [bar, feats, pos, if_neg (by omega), if_pos (by omega)]
    exact ⟨⟨_, rfl⟩, _, rfl⟩
  · intro name m hm
    rw [series, if_neg (by omega), if_neg (by omega), Int.toNat_natCast, columnOf,
      h.column hm fun p r hbar _ => hbar, h.column hm fun p r hbar _ => hbar,
      h.column hm fun p r _ hfeat => hfeat]
  · intro name m hm
    rw [series, if_pos hm]
    exact ⟨_, rfl⟩
  · intro name m hm
    rw [series, if_neg (by omega), if_pos (by omega)]
    exact ⟨_, rfl⟩

end BarWindow

end Rows

/-! ### Reads through the guard -/

namespace GuardedArray

section Guard

variable {α : Type*} {numpy : List (Index α) → Except WindowError (List ℕ)} {g : GuardedArray}

/-- A read that succeeds gives no row past the cursor. -/
def StaysBehind (numpy : List (Index α) → Except WindowError (List ℕ)) (g : GuardedArray)
    (key : IndexKey α) : Prop :=
  ∀ rows, g.getItem numpy key = .ok rows → ∀ r ∈ rows, (r : ℤ) ≤ g.cursor

/-- The key begins with `True`, which the guard takes for the row 1 and numpy for no row at all,
    and the indices after it reach past the cursor. -/
def OpensFuture (numpy : List (Index α) → Except WindowError (List ℕ)) (g : GuardedArray)
    (key : IndexKey α) : Prop :=
  ∃ rest rows, key.items = .bool true :: rest ∧ 1 ≤ g.cursor ∧ numpy rest = .ok rows ∧
    ∃ r ∈ rows, g.cursor < (r : ℤ)

/-- An index is let through when, wrapped round, it is at most the cursor. -/
theorem checkIndex_eq_ok {i : ℤ} :
    g.checkIndex i = .ok () ↔ (if i < 0 then i + g.rows else i) ≤ g.cursor := by
  unfold checkIndex
  simp only
  by_cases h : g.cursor < if i < 0 then i + g.rows else i
  · rw [if_pos h]
    exact iff_of_false (by simp) (not_le.mpr h)
  · rw [if_neg h]
    exact iff_of_true rfl (not_lt.mp h)

/-- A slice that passes the check does not reach past the cursor. -/
theorem le_of_check_slice {s : PySlice} {rng : List ℤ} {x : ℤ}
    (h : g.check (.slice s : Index α) = .ok ()) (hrng : s.indices g.rows = some rng)
    (hx : x ∈ rng) : x ≤ g.cursor := by
  simp only [check, hrng] at h
  split at h
  · cases h
  · rename_i hle
    exact (PySlice.le_top hrng hx).trans (not_lt.mp hle)

/-- What a read that succeeds has gone through. -/
theorem getItem_eq_ok {key : IndexKey α} {rows : List ℕ} :
    g.getItem numpy key = .ok rows ↔ ∃ first rest, key.items = first :: rest ∧
      g.check first = .ok () ∧ numpy (first :: rest) = .ok rows := by
  unfold getItem
  cases key.items with
  | nil => simp
  | cons first rest =>
    simp only [bind_eq_ok, List.cons.injEq]
    constructor
    · rintro ⟨_, hcheck, hread⟩
      exact ⟨first, rest, ⟨rfl, rfl⟩, hcheck, hread⟩
    · rintro ⟨_, _, ⟨rfl, rfl⟩, hcheck, hread⟩
      exact ⟨(), hcheck, hread⟩

/-- **The guard.** A read stays behind the cursor unless its key opens the future. -/
theorem staysBehind_iff (hnumpy : NumpyRows g.rows numpy) (key : IndexKey α) :
    StaysBehind numpy g key ↔ ¬ OpensFuture numpy g key := by
  constructor
  · rintro h ⟨rest, rows, hkey, hcursor, hread, r, hr, hlt⟩
    have hcheck : g.check (.bool true : Index α) = .ok () := checkIndex_eq_ok.mpr hcursor
    have hok := getItem_eq_ok.mpr ⟨_, rest, hkey, hcheck, (hnumpy.true rest rows).mpr hread⟩
    exact absurd (h rows hok r hr) (not_le.mpr hlt)
  · intro h rows hok r hr
    obtain ⟨first, rest, hkey, hcheck, hread⟩ := getItem_eq_ok.mp hok
    cases first with
    | int i =>
      rw [hnumpy.int i rest rows hread r hr]
      exact checkIndex_eq_ok.mp hcheck
    | slice s =>
      obtain ⟨rng, hrng, hrows⟩ := hnumpy.slice s rest rows hread
      exact le_of_check_slice hcheck hrng (hrows r hr)
    | bool b =>
      cases b with
      | false =>
        rw [hnumpy.false rest rows hread] at hr
        cases hr
      | true =>
        -- the check has compared the cursor with 1, and numpy reads what follows
        by_contra hlt
        exact h ⟨rest, rows, hkey, checkIndex_eq_ok.mp hcheck,
          (hnumpy.true rest rows).mp hread, r, hr, not_le.mp hlt⟩
    | other typeName x => cases hcheck

/-- A key that is empty or begins with an object of another type is refused. -/
theorem getItem_refused {key : IndexKey α}
    (h : key.items = [] ∨ ∃ typeName x rest, key.items = .other typeName x :: rest) :
    ∃ e, g.getItem numpy key = .error e := by
  unfold getItem
  rcases h with h | ⟨typeName, x, rest, h⟩
  · rw [h]
    exact ⟨_, rfl⟩
  · rw [h]
    exact ⟨_, rfl⟩

/-- **No look-ahead.** Whatever the array and its cursor, a read through the guard gives rows up
    to the cursor only, exactly unless its key opens the future, and a key of another kind is
    refused; whatever was appended to a window, it reads the last rows up to its capacity. -/
theorem no_look_ahead {K : Type} (hnumpy : NumpyRows g.rows numpy) :
    (∀ key, StaysBehind numpy g key ↔ ¬ OpensFuture numpy g key) ∧
    (∀ key : IndexKey α,
      (key.items = [] ∨ ∃ typeName x rest, key.items = .other typeName x :: rest) →
        ∃ e, g.getItem numpy key = .error e) ∧
    ∀ capacity : ℤ, 1 ≤ capacity → ∃ w : BarWindow K, BarWindow.new capacity = .ok w ∧
      ∀ rows, (w.appendAll rows).ReadsSuffix (rows.rtake capacity.toNat) := by
  refine ⟨staysBehind_iff hnumpy, fun key => getItem_refused, fun capacity h => ?_⟩
  obtain ⟨w, hw, hkeeps⟩ := BarWindow.keeps_new (K := K) h
  refine ⟨w, hw, fun rows => ?_⟩
  have hrows := hkeeps.appendAll rows
  rw [List.nil_append] at hrows
  exact hrows.readsSuffix

end Guard

/-! ### An array of one dimension -/

/-- The indices after the one that has selected the rows: only booleans are left. -/
def afterAxis : List (Index Empty) → List ℕ → Except WindowError (List ℕ)
  | [], rows => .ok rows
  | .bool b :: rest, rows => afterAxis rest (if b then rows else [])
  | _ :: _, _ => .error (.index "too many indices for array: array is 1-dimensional")

/-- What numpy reads from an array of `n` numbers. -/
def plainRows (n : ℕ) : List (Index Empty) → Except WindowError (List ℕ)
  | [] => .ok (List.range n)
  | .int i :: rest =>
    if -n ≤ i ∧ i < n then afterAxis rest [(if i < 0 then i + n else i).toNat]
    else .error (.index s!"index {i} is out of bounds for axis 0 with size {n}")
  | .slice s :: rest =>
    match s.indices n with
    | none => .error (.value "slice step cannot be zero")
    | some rng => afterAxis rest (rng.map Int.toNat)
  | .bool true :: rest => plainRows n rest
  | .bool false :: rest => do
    let _ ← plainRows n rest
    return []
  | .other _ x :: _ => x.elim

/-- Booleans after the axis keep its rows or none. -/
theorem mem_of_afterAxis {rest : List (Index Empty)} {rows rows' : List ℕ} {r : ℕ}
    (h : afterAxis rest rows = .ok rows') (hr : r ∈ rows') : r ∈ rows := by
  induction rest generalizing rows with
  | nil =>
    cases h
    exact hr
  | cons i rest ih =>
    cases i with
    | bool b =>
      have hmem := ih h
      cases b with
      | true => exact hmem
      | false => cases hmem
    | int i => cases h
    | slice s => cases h
    | other _ x => exact x.elim

/-- The sample obeys the laws of the rows that numpy has. -/
theorem numpyRows_plainRows (n : ℕ) : NumpyRows n (plainRows n) where
  int i rest rows h r hr := by
    rw [plainRows] at h
    split at h
    · have hmem := mem_of_afterAxis h hr
      rw [List.mem_singleton.mp hmem]
      split <;> omega
    · cases h
  slice s rest rows h := by
    rw [plainRows] at h
    cases hrng : s.indices n with
    | none =>
      rw [hrng] at h
      cases h
    | some rng =>
      rw [hrng] at h
      refine ⟨rng, rfl, fun r hr => ?_⟩
      obtain ⟨x, hx, rfl⟩ := List.mem_map.mp (mem_of_afterAxis h hr)
      rwa [Int.toNat_of_nonneg (PySlice.nonneg_of_mem hrng hx)]
  true _ _ := Iff.rfl
  false rest rows h := by
    rw [plainRows, bind_eq_ok] at h
    obtain ⟨_, -, hrows⟩ := h
    cases hrows
    rfl
  nil := rfl

/-- Before the cursor, a slice reads what it selects. -/
theorem no_look_ahead_slice :
    StaysBehind (plainRows 5) ⟨5, 2, by decide, by decide⟩
      (.one (.slice ⟨none, some 3, none⟩)) := by
  refine ((no_look_ahead (K := ℚ) (numpyRows_plainRows 5)).1 _).mpr ?_
  rintro ⟨rest, rows, hkey, -⟩
  cases hkey

/-- With the cursor on the third of five rows `True` reads all of them: the guard has compared
    the cursor with 1. -/
theorem true_reads_all :
    ∃ g : GuardedArray, g.rows = 5 ∧ g.cursor = 2 ∧ NumpyRows g.rows (plainRows 5) ∧
      g.getItem (plainRows 5) (.one (.bool true)) = .ok [0, 1, 2, 3, 4] ∧
      ¬ ∀ key, StaysBehind (plainRows 5) g key := by
  have hread : getItem (plainRows 5) ⟨5, 2, by decide, by decide⟩ (.one (.bool true)) =
      .ok [0, 1, 2, 3, 4] := rfl
  refine ⟨_, rfl, rfl, numpyRows_plainRows 5, hread, fun h => ?_⟩
  exact absurd (h _ _ hread 4 (by decide)) (by decide)

end GuardedArray

end FuzzHelm
