import FuzzHelm.Core.Digest
import FuzzHelm.Lib.Dict
import FuzzHelm.Lib.SelfDelimiting

namespace FuzzHelm

open Lib

/-!
# The hash of a dataset

The columns of a dataset go into one digest: for every name in order a JSON header with the
name, the dtype and the shape, and the raw bytes of the column.

* `NdArray` / `canonical` — a column as it is given, and in canonical form;
* `datasetBytes` / `datasetHash` — what is fed to the digest, and the digest;
* `selfDelimiting_columnBytes` — a column ends where its header says;
* `dataset_stream_injective` — two datasets feed the same bytes exactly when they have the same
  columns.
-/

/-- `ValueError` on a NaN and `TypeError` on a dtype that is not supported, both with the name of
    the column; `TypeError` of the serialiser. -/
inductive DatasetError where
  | containsNaN (name : String)
  | unsupportedDtype (name dtype : String)
  | notCanonical (e : TypeError)
  deriving DecidableEq, Repr

/-! ### Columns -/

/-- The elements of an array in C order: of kind `i`, `u` or `b`, of kind `f` by the bits of
    their doubles, or of another dtype. -/
inductive Elements where
  | iub (values : List ℤ)
  | f (values : List (BitVec 64))
  | other (dtype : String)
  deriving DecidableEq, Repr

/-- There are `n` elements. -/
def Elements.Counted (n : ℕ) : Elements → Prop
  | iub values => values.length = n
  | f values => values.length = n
  | other _ => True

/-- An array; a dimension is a signed 64-bit number. -/
structure NdArray where
  shape : List ℕ
  elements : Elements
  counted : elements.Counted shape.prod
  dim_lt : ∀ n ∈ shape, n < 2 ^ 63

/-- The dtypes of the canonical form, both of eight bytes, little-endian. -/
inductive Dtype where
  | i8
  | f8
  deriving DecidableEq, Repr

/-- `dtype.str`: the code of a type, with its byte order. -/
def Dtype.str : Dtype → String
  | i8 => "<i8"
  | f8 => "<f8"

/-- The codes of the types are all different. -/
theorem Dtype.str_injective : Function.Injective Dtype.str := by
  intro d e h
  cases d <;> cases e <;> simp_all [str]

/-- A column in canonical form: its words in C order, as many as its shape says. -/
@[ext] structure Column where
  dtype : Dtype
  shape : List ℕ
  words : List (BitVec 64)
  counted : words.length = shape.prod
  dim_lt : ∀ n ∈ shape, n < 2 ^ 63

/-- The exponent is full and the fraction is not zero. -/
def isNan (w : BitVec 64) : Bool := 0x7FF0000000000000 < w.toNat % 2 ^ 63

/-- `x + 0.0`: a negative zero becomes zero. -/
def addZero (w : BitVec 64) : BitVec 64 := if w = 0x8000000000000000#64 then 0#64 else w

/-- `np.ascontiguousarray` gives an array without dimensions one dimension. -/
def contiguousShape (shape : List ℕ) : List ℕ := if shape = [] then [1] else shape

/-- Making an array contiguous keeps the number of its items. -/
theorem prod_contiguousShape (shape : List ℕ) : (contiguousShape shape).prod = shape.prod := by
  unfold contiguousShape
  split <;> simp_all

/-- Making an array contiguous keeps its dimensions within the limit. -/
theorem lt_of_mem_contiguousShape {shape : List ℕ} (h : ∀ n ∈ shape, n < 2 ^ 63) :
    ∀ n ∈ contiguousShape shape, n < 2 ^ 63 := by
  unfold contiguousShape
  split
  · simp
  · exact h

/-- The canonical form of a column: integers wrap into 64 bits, NaN is refused and so is a dtype
    of another kind. -/
def canonical (name : String) (arr : NdArray) : Except DatasetError Column :=
  match h : arr.elements with
  | .iub values => .ok
    { dtype := .i8
      shape := contiguousShape arr.shape
      words := values.map (BitVec.ofInt 64)
      counted := by
        have hcounted := arr.counted
        rw [h] at hcounted
        rw [List.length_map, prod_contiguousShape]
        exact hcounted
      dim_lt := lt_of_mem_contiguousShape arr.dim_lt }
  -- a NaN is refused, and a negative zero becomes a positive one
  | .f values =>
    if values.any isNan then .error (.containsNaN name)
    else .ok
      { dtype := .f8
        shape := contiguousShape arr.shape
        words := values.map addZero
        counted := by
          have hcounted := arr.counted
          rw [h] at hcounted
          rw [List.length_map, prod_contiguousShape]
          exact hcounted
        dim_lt := lt_of_mem_contiguousShape arr.dim_lt }
  | .other dtype => .error (.unsupportedDtype name dtype)

/-- `canon.tobytes(order="C")`. -/
def Column.tobytes (c : Column) : List UInt8 := c.words.flatMap fun w => littleEndian 8 w.toNat

/-! ### The stream -/

/-- `[name, canon.dtype.str, list(canon.shape)]`. -/
def headerObj (name : String) (c : Column) : Obj :=
  .list [.str name, .str c.dtype.str, .list (c.shape.map fun n : ℕ => .int n)]

/-- The columns one after another: the header and the raw bytes of each. -/
def feedColumns : List (String × NdArray) → Except DatasetError (List UInt8)
  | [] => .ok []
  | (name, arr) :: columns => do
    let canon ← canonical name arr
    let header ← (canonicalJson (headerObj name canon)).mapError .notCanonical
    let rest ← feedColumns columns
    return header ++ canon.tobytes ++ rest

/-- The columns in the order of their names. -/
def sortedColumns (columns : Dict String NdArray) : List (String × NdArray) :=
  columns.entries.insertionSort fun a b => a.1 ≤ b.1

/-- The bytes that are fed to the digest. -/
def datasetBytes (columns : Dict String NdArray) : Except DatasetError (List UInt8) :=
  feedColumns (sortedColumns columns)

/-- The digest of a dataset, over `blake2b` with 32 bytes in hexadecimal. -/
def datasetHash (blake2b : List UInt8 → String) (columns : Dict String NdArray) :
    Except DatasetError String := do
  return blake2b (← datasetBytes columns)

/-! ### One column -/

/-- The items of a header. -/
def headerItems (e : String × Column) : List Json :=
  [.str e.1, .str e.2.dtype.str, .arr (e.2.shape.map fun n : ℕ => .int n)]

/-- Whole numbers are canonical as they are. -/
theorem toCanonicalEach_ints (ns : List ℕ) :
    toCanonicalEach (ns.map fun n : ℕ => .int n) = .ok (ns.map fun n : ℕ => .int n) := by
  induction ns with
  | nil => rfl
  | cons n ns ih => simp [toCanonicalEach, toCanonical, ih, bind, Except.bind, pure, Except.pure]

/-- Whole numbers are not floats. -/
theorem assertNoFloatFrom_ints (path : String) (i : ℕ) (ns : List ℕ) :
    assertNoFloatFrom path i (ns.map fun n : ℕ => .int n) = .ok () := by
  induction ns generalizing i with
  | nil => rfl
  | cons n ns ih => simp [assertNoFloatFrom, assertNoFloat, ih, bind, Except.bind]

/-- Whole numbers have nothing to sort inside. -/
theorem sortItems_ints (ns : List ℕ) :
    Json.sortItems (ns.map fun n : ℕ => .int n) = ns.map fun n : ℕ => .int n := by
  induction ns with
  | nil => rfl
  | cons n ns ih => simp [Json.sortItems, Json.sortKeys, ih]

/-- Dimensions are within the limit of a number. -/
theorem fitsItems_ints {ns : List ℕ} (h : ∀ n ∈ ns, n < 2 ^ 63) :
    fitsItems (ns.map fun n : ℕ => .int n) = true := by
  induction ns with
  | nil => rfl
  | cons n ns ih =>
    have hn : n < 2 ^ 63 := h n (by simp)
    have hrest := ih fun m hm => h m (by simp [hm])
    simp only [List.map_cons, fitsItems, fits, hrest, Bool.and_true, decide_eq_true_eq]
    omega

/-- Every header is serialised, as the dimensions fit into 64 bits. -/
theorem canonicalJson_header (name : String) (c : Column) :
    canonicalJson (headerObj name c) = .ok (utf8 (Json.arr (headerItems (name, c))).print) := by
  have hfits := fitsItems_ints c.dim_lt
  simp [canonicalJson, headerObj, headerItems, assertNoFloat, assertNoFloatFrom,
    assertNoFloatFrom_ints, toCanonical, toCanonicalEach, toCanonicalEach_ints, dumps, serialize,
    Json.sortKeys, Json.sortItems, sortItems_ints, fits, fitsItems, hfits, bind, Except.bind,
    pure, Except.pure]

/-- What a column in canonical form feeds. -/
def columnBytes (e : String × Column) : List UInt8 :=
  utf8 (Json.arr (headerItems e)).print ++ e.2.tobytes

/-- The header of a column tells its name, its dtype and its shape. -/
theorem eq_of_headerItems {d e : String × Column} (h : headerItems d = headerItems e) :
    d.1 = e.1 ∧ d.2.dtype = e.2.dtype ∧ d.2.shape = e.2.shape := by
  simp only [headerItems, List.cons.injEq, Json.str.injEq, Json.arr.injEq, and_true] at h
  obtain ⟨hname, hdtype, hshape⟩ := h
  refine ⟨hname, Dtype.str_injective hdtype, ?_⟩
  refine List.map_injective_iff.mpr (fun m n hmn => ?_) hshape
  simpa using hmn

/-- Words of eight bytes delimit themselves. -/
theorem selfDelimiting_word : SelfDelimiting fun w : BitVec 64 => littleEndian 8 w.toNat := by
  apply SelfDelimiting.of_length (n := 8)
  · intro w
    simp
  · intro v w h
    exact BitVec.eq_of_toNat_eq (littleEndian_inj v.isLt w.isLt h)

/-- **One column.** The header is an array and the words are as many as its shape says. -/
theorem selfDelimiting_columnBytes : SelfDelimiting columnBytes := by
  apply selfDelimiting_array.append
  intro d e r s hkey h
  obtain ⟨hname, hdtype, hshape⟩ := eq_of_headerItems hkey
  have hlen : d.2.words.length = e.2.words.length := by
    rw [d.2.counted, e.2.counted, hshape]
  obtain ⟨hwords, hrs⟩ := selfDelimiting_word.flatMap_of_length hlen h
  exact ⟨Prod.ext hname (Column.ext hdtype hshape hwords), hrs⟩

/-- A column writes at least its header. -/
theorem columnBytes_ne_nil (e : String × Column) : columnBytes e ≠ [] := by
  intro h
  have hhead := (List.append_eq_nil_iff.mp h).1
  rw [Json.print, utf8, List.flatMap_cons] at hhead
  have hbracket : String.utf8EncodeChar '[' = [] := (List.append_eq_nil_iff.mp hhead).1
  exact absurd hbracket (by decide)

/-! ### A whole dataset -/

/-- The columns have these canonical forms. -/
def Canonicals (columns : List (String × NdArray)) (canons : List (String × Column)) : Prop :=
  columns.map (fun c => (c.1, canonical c.1 c.2)) = canons.map fun e => (e.1, .ok e.2)

/-- The stream of a dataset that is accepted: every column has its canonical form, and these are
    fed in order. -/
theorem feedColumns_eq_ok {columns : List (String × NdArray)} {s : List UInt8} :
    feedColumns columns = .ok s ↔
      ∃ canons, Canonicals columns canons ∧ canons.flatMap columnBytes = s := by
  unfold Canonicals
  induction columns generalizing s with
  | nil =>
    rw [feedColumns, Except.ok.injEq]
    constructor
    · rintro rfl
      exact ⟨[], rfl, rfl⟩
    · rintro ⟨canons, hcanons, rfl⟩
      rw [List.map_nil, eq_comm, List.map_eq_nil_iff] at hcanons
      rw [hcanons, List.flatMap_nil]
  | cons c columns ih =>
    obtain ⟨name, arr⟩ := c
    simp only [feedColumns, bind_eq_ok, canonicalJson_header, ih]
    constructor
    · rintro ⟨canon, hcanon, header, hheader, rest, ⟨canons, hcanons, rfl⟩, hs⟩
      cases hheader
      cases hs
      refine ⟨(name, canon) :: canons, ?_, rfl⟩
      rw [List.map_cons, List.map_cons, hcanons, hcanon]
    · rintro ⟨canons, hcanons, rfl⟩
      cases canons with
      | nil => simp at hcanons
      | cons e canons =>
        simp only [List.map_cons, List.cons.injEq, Prod.mk.injEq] at hcanons
        obtain ⟨⟨rfl, hcanon⟩, hrest⟩ := hcanons
        exact ⟨e.2, hcanon, _, rfl, _, ⟨canons, hrest, rfl⟩, rfl⟩

section Sorted

variable {columns : Dict String NdArray} {canons : List (String × Column)}
  (h : Canonicals (sortedColumns columns) canons)
include h

/-- The names of the canonical columns are those of the columns, sorted. -/
theorem names_of_canons : canons.map Prod.fst = (sortedColumns columns).map Prod.fst := by
  have hmap := congrArg (List.map Prod.fst) h
  simp only [List.map_map] at hmap
  exact hmap.symm

/-- Each name comes once. -/
theorem nodup_names : (canons.map Prod.fst).Nodup := by
  rw [names_of_canons h]
  have hperm : (sortedColumns columns).Perm columns.entries := List.perm_insertionSort _ _
  exact (hperm.map _).nodup_iff.mpr columns.nodup

/-- The canonical columns come in the order of their names. -/
theorem canons_sorted : canons.Pairwise fun d e => d.1 ≤ e.1 := by
  have hle : (sortedColumns columns).Pairwise fun c d => c.1 ≤ d.1 :=
    List.pairwise_insertionSort _ _
  rw [← List.pairwise_map (f := Prod.fst), ← names_of_canons h, List.pairwise_map] at hle
  exact hle

/-- A canonical column is that of the column of its name. -/
theorem mem_canons_iff {name : String} {c : Column} :
    (name, c) ∈ canons ↔ (columns.get? name).map (canonical name) = some (.ok c) := by
  have hentry (a : NdArray) :
      (name, a) ∈ sortedColumns columns ↔ columns.get? name = some a := by
    rw [← columns.mem_entries_iff]
    exact (List.perm_insertionSort _ _).mem_iff
  have hmem : (name, c) ∈ canons ↔
      (name, Except.ok c) ∈ (sortedColumns columns).map fun c => (c.1, canonical c.1 c.2) := by
    rw [show _ = _ from h]
    simp
  simp only [hmem, List.mem_map, Prod.mk.injEq, Prod.exists, Option.map_eq_some_iff]
  constructor
  · rintro ⟨name', a, ha, rfl, hc⟩
    exact ⟨a, (hentry a).mp ha, hc⟩
  · rintro ⟨a, ha, hc⟩
    exact ⟨name, a, (hentry a).mpr ha, rfl, hc⟩

/-- Every column of a dataset that is accepted has a canonical form. -/
theorem exists_canonical {name : String} {a : NdArray} (ha : columns.get? name = some a) :
    ∃ c, canonical name a = .ok c := by
  have hmem : (name, a) ∈ sortedColumns columns :=
    (List.perm_insertionSort _ _).mem_iff.mpr ((columns.mem_entries_iff name a).mpr ha)
  have hmap : (name, canonical name a) ∈
      (sortedColumns columns).map fun c => (c.1, canonical c.1 c.2) := List.mem_map_of_mem hmem
  rw [show _ = _ from h] at hmap
  simp only [List.mem_map, Prod.mk.injEq] at hmap
  obtain ⟨e, -, -, hc⟩ := hmap
  exact ⟨e.2, hc.symm⟩

end Sorted

/-- Datasets with the same canonical columns: the names decide the order. -/
theorem canons_eq_iff {columns columns' : Dict String NdArray}
    {canons canons' : List (String × Column)} (h : Canonicals (sortedColumns columns) canons)
    (h' : Canonicals (sortedColumns columns') canons') :
    canons = canons' ↔ ∀ name,
      (columns.get? name).map (canonical name) = (columns'.get? name).map (canonical name) := by
  constructor
  · rintro rfl name
    have hsame (c : Column) : (columns.get? name).map (canonical name) = some (.ok c) ↔
        (columns'.get? name).map (canonical name) = some (.ok c) := by
      rw [← mem_canons_iff h, mem_canons_iff h']
    -- equal lists give equal columns, also where one of the names is missing
    cases ha : columns.get? name with
    | some a =>
      obtain ⟨c, hc⟩ := exists_canonical h ha
      have hmap : (columns.get? name).map (canonical name) = some (.ok c) := by simp [ha, hc]
      rw [(hsame c).mp hmap, ← ha, hmap]
    | none =>
      cases ha' : columns'.get? name with
      | none => rfl
      | some a' =>
        obtain ⟨c, hc⟩ := exists_canonical h' ha'
        have hmap := (hsame c).mpr (by simp [ha', hc])
        simp [ha] at hmap
  · intro hget
    have hnames := nodup_names h
    have hperm : canons.Perm canons' := by
      rw [List.perm_ext_iff_of_nodup hnames.of_map (nodup_names h').of_map]
      rintro ⟨name, c⟩
      rw [mem_canons_iff h, mem_canons_iff h', hget name]
    apply hperm.eq_of_pairwise _ (canons_sorted h) (canons_sorted h')
    intro d e hd he hde hed
    exact List.inj_on_of_nodup_map hnames hd (hperm.mem_iff.mpr he) (String.le_antisymm hde hed)

/-- **Injectivity.** Two datasets that are accepted feed the same bytes to the digest exactly when
    they have the same names and under each name the same column in canonical form: the same
    dtype, the same shape and the same words. -/
theorem dataset_stream_injective {columns columns' : Dict String NdArray} {s s' : List UInt8}
    (h : datasetBytes columns = .ok s) (h' : datasetBytes columns' = .ok s') :
    s = s' ↔ ∀ name,
      (columns.get? name).map (canonical name) = (columns'.get? name).map (canonical name) := by
  obtain ⟨canons, hcanons, rfl⟩ := feedColumns_eq_ok.mp h
  obtain ⟨canons', hcanons', rfl⟩ := feedColumns_eq_ok.mp h'
  rw [← canons_eq_iff hcanons hcanons']
  exact (selfDelimiting_columnBytes.flatMap_injective columnBytes_ne_nil).eq_iff

/-- A zero as an integer and as a float have the same bytes; the dtype in the header tells them
    apart. -/
theorem dataset_stream_injective_zero :
    let ints : NdArray := ⟨[1], .iub [0], rfl, by decide⟩
    let floats : NdArray := ⟨[1], .f [0x8000000000000000#64], rfl, by decide⟩
    ∃ s s', datasetBytes (Dict.empty.insert "c" ints) = .ok s ∧
      datasetBytes (Dict.empty.insert "c" floats) = .ok s' ∧ s ≠ s' := by
  intro ints floats
  have hints : Canonicals (sortedColumns (Dict.empty.insert "c" ints))
      [("c", ⟨.i8, [1], [0#64], rfl, by decide⟩)] := rfl
  have hfloats : Canonicals (sortedColumns (Dict.empty.insert "c" floats))
      [("c", ⟨.f8, [1], [0#64], rfl, by decide⟩)] := rfl
  refine ⟨_, _, feedColumns_eq_ok.mpr ⟨_, hints, rfl⟩, feedColumns_eq_ok.mpr ⟨_, hfloats, rfl⟩,
    fun h => ?_⟩
  have hcolumn := (dataset_stream_injective (feedColumns_eq_ok.mpr ⟨_, hints, rfl⟩)
    (feedColumns_eq_ok.mpr ⟨_, hfloats, rfl⟩)).mp h "c"
  simp [canonical, ints, floats, isNan] at hcolumn

end FuzzHelm
