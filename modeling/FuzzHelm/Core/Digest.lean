import FuzzHelm.Core.Clock
import FuzzHelm.Lib.Json
import FuzzHelm.Lib.Run
import Mathlib.Data.List.Perm.Basic

namespace FuzzHelm

open Lib

/-!
# Canonical serialisation

Python objects without floats, the JSON tree they are turned into and the bytes of that tree.

* `decStr` — a decimal as text without exponent;
* `assertNoFloat` — the check that runs before anything is serialised, with the path of what
  it refuses;
* `toCanonical` / `canonicalJson` — the tree of an object and its bytes;
* `canonicalTree` — the tree with its keys in order, which is all the bytes depend on;
* `canonicalJson_eq_iff` — objects have the same bytes exactly when they have the same
  ordered tree;
* `canonicalTree_mapping_value` — mappings with the same ordered tree agree at every key;
* `canonicalJson_isOk` — which objects have bytes.
-/

/-- `TypeError`, with its message. -/
structure TypeError where
  msg : String
  deriving DecidableEq, Repr

/-! ### Decimals as they are represented -/

/-- `decimal.Decimal`: a sign, a coefficient and an exponent, or a special value.  The
    diagnostic of a NaN is `0` where there is none. -/
inductive PyDecimal where
  | finite (negative : Bool) (coefficient : ℕ) (exponent : ℤ)
  | infinity (negative : Bool)
  | nan (negative signaling : Bool) (diagnostic : ℕ)
  deriving DecidableEq, Repr

namespace PyDecimal

/-- `is_zero`: the sign does not count. -/
def isZero : PyDecimal → Bool
  | finite _ coefficient _ => coefficient = 0
  | _ => false

/-- `is_signed`, of zeros and NaNs too. -/
def isSigned : PyDecimal → Bool
  | finite negative _ _ | infinity negative | nan negative _ _ => negative

/-- `copy_abs`: the sign is dropped, and nothing else. -/
def copyAbs : PyDecimal → PyDecimal
  | finite _ coefficient exponent => finite false coefficient exponent
  | infinity _ => infinity false
  | nan _ signaling diagnostic => nan false signaling diagnostic

/-- `format(abs(x), "f")`: zeros after the coefficient for a positive exponent, which a zero
    loses; a point before its last digits for a negative one. -/
def formatAbs : PyDecimal → List Char
  | finite _ coefficient exponent =>
    let digits := Nat.toDigits 10 coefficient
    let places := exponent.natAbs
    if 0 ≤ exponent then
      if coefficient = 0 then digits else digits ++ List.replicate places '0'
    else if digits.length ≤ places then
      '0' :: '.' :: (List.replicate (places - digits.length) '0' ++ digits)
    else
      digits.take (digits.length - places) ++ '.' :: digits.drop (digits.length - places)
  | infinity _ => "Infinity".toList
  | nan _ signaling diagnostic =>
    (if signaling then "sNaN".toList else "NaN".toList) ++
      (if diagnostic = 0 then [] else Nat.toDigits 10 diagnostic)

/-- `format(x, "f")`: all digits, and never an exponent. -/
def format (x : PyDecimal) : String :=
  String.ofList (if x.isSigned then '-' :: x.formatAbs else x.formatAbs)

end PyDecimal

/-- A decimal as text without exponent; a negative zero is written as zero. -/
def decStr (x : PyDecimal) : String :=
  if x.isZero && x.isSigned then x.copyAbs.format else x.format

/-! ### Objects -/

/-- A key of a mapping: a string, or another object by its `repr` and its `str`. -/
inductive Key where
  | str (s : String)
  | other (repr str : String)
  deriving DecidableEq, Repr

/-- `str(k)`, for the keys that a mapping may have. -/
def Key.text : Key → String
  | str s => s
  | other _ s => s

/-- What can be handed to the serialiser.  A float and an object of no listed kind appear by
    their `repr` and the name of their type; a model and a dataclass by their dumped fields;
    a set by its elements in the order of its iteration. -/
inductive Obj where
  | none
  | bool (b : Bool)
  | int (n : ℤ)
  | str (s : String)
  | float (repr : String)
  | decimal (x : PyDecimal)
  | enum (value : Obj)
  | uuid (u : Uuid)
  | bytes (bs : List UInt8)
  | baseModel (dump : List (String × Obj))
  | dataclass (dump : List (String × Obj))
  | mapping (items : List (Key × Obj))
  | list (items : List Obj)
  | tuple (items : List Obj)
  | set (elements : List Obj)
  | numpy (typeName : String)
  | other (typeName : String)

mutual

/-- Refuse a float, a key that is no string and a numpy value, wherever they are; an
    enumeration member is not looked into. -/
def assertNoFloat (path : String) : Obj → Except TypeError Unit
  | .float repr => .error ⟨s!"float is forbidden in canonical data at {path}: {repr}"⟩
  | .baseModel dump | .dataclass dump => assertNoFloatFields path dump
  | .mapping items => assertNoFloatItems path items
  | .list items | .tuple items | .set items => assertNoFloatFrom path 0 items
  | .numpy typeName =>
    .error ⟨s!"numpy value is forbidden in canonical data at {path}: {typeName}"⟩
  | _ => .ok ()

/-- The check of the fields of a model, each under its path. -/
def assertNoFloatFields (path : String) : List (String × Obj) → Except TypeError Unit
  | [] => .ok ()
  | (k, v) :: fields => do
    assertNoFloat s!"{path}.{k}" v
    assertNoFloatFields path fields

/-- The check of the items of a mapping, whose keys must be texts. -/
def assertNoFloatItems (path : String) : List (Key × Obj) → Except TypeError Unit
  | [] => .ok ()
  | (.other repr _, _) :: _ => .error ⟨s!"non-str key {repr} at {path}"⟩
  | (.str k, v) :: items => do
    assertNoFloat s!"{path}.{k}" v
    assertNoFloatItems path items

/-- The items from the `i`-th on. -/
def assertNoFloatFrom (path : String) (i : ℕ) : List Obj → Except TypeError Unit
  | [] => .ok ()
  | v :: vs => do
    assertNoFloat s!"{path}[{i}]" v
    assertNoFloatFrom path (i + 1) vs

end

/-! ### Sets are sorted -/

/-- `type(x).__name__` of a canonical value. -/
def typeName : Json → String
  | .null => "NoneType"
  | .bool _ => "bool"
  | .int _ => "int"
  | .str _ => "str"
  | .arr _ => "list"
  | .obj _ => "dict"

/-- The number behind a boolean or an integer. -/
def asInt : Json → Option ℤ
  | .bool b => some (if b then 1 else 0)
  | .int n => some n
  | _ => Option.none

mutual

/-- `x == y`: a boolean equals its number, and the order of keys does not count. -/
def pyEq : Json → Json → Bool
  | .null, y => match y with
    | .null => true
    | _ => false
  | .bool b, y => asInt y = some (if b then 1 else 0)
  | .int n, y => asInt y = some n
  | .str s, y => match y with
    | .str t => s = t
    | _ => false
  | .arr xs, y => match y with
    | .arr ys => pyEqItems xs ys
    | _ => false
  | .obj ms, y => match y with
    | .obj ns => ms.length = ns.length && pyEqMembers ms ns
    | _ => false

/-- Two arrays are equal item by item. -/
def pyEqItems : List Json → List Json → Bool
  | [], ys => ys.isEmpty
  | x :: xs, ys => match ys with
    | [] => false
    | y :: ys => pyEq x y && pyEqItems xs ys

/-- Two objects of the same size are equal when each member is found in the other. -/
def pyEqMembers : List (String × Json) → List (String × Json) → Bool
  | [], _ => true
  | (k, x) :: ms, ns => match ns.lookup k with
    | Option.none => false
    | some y => pyEq x y && pyEqMembers ms ns

end

mutual

/-- `x < y`: numbers, strings and lists are ordered, and lists by the first items that
    differ; nothing else is. -/
def pyLt : Json → Json → Except TypeError Bool
  | .str s, y => match y with
    | .str t => .ok (s < t)
    | y => .error ⟨"'<' not supported between instances of 'str' and '" ++ typeName y ++ "'"⟩
  | .arr xs, y => match y with
    | .arr ys => pyLtItems xs ys
    | y => .error ⟨"'<' not supported between instances of 'list' and '" ++ typeName y ++ "'"⟩
  | x, y => match asInt x, asInt y with
    | some m, some n => .ok (m < n)
    | _, _ => .error ⟨"'<' not supported between instances of '" ++ typeName x ++ "' and '" ++
        typeName y ++ "'"⟩

/-- Arrays are compared item by item, the shorter first. -/
def pyLtItems : List Json → List Json → Except TypeError Bool
  | [], ys => .ok (!ys.isEmpty)
  | x :: xs, ys => match ys with
    | [] => .ok false
    | y :: ys => if pyEq x y then pyLtItems xs ys else pyLt x y

end

/-- One element into a sorted list, after the elements that are less. -/
def insertSorted (x : Json) : List Json → Except TypeError (List Json)
  | [] => .ok [x]
  | y :: ys => do
    if ← pyLt y x then return y :: (← insertSorted x ys) else return x :: y :: ys

/-- `sorted(xs)`: elements that cannot be compared raise. -/
def sorted : List Json → Except TypeError (List Json)
  | [] => .ok []
  | x :: xs => do insertSorted x (← sorted xs)

/-! ### The tree of an object -/

/-- `bytes.hex()`: two digits for each byte. -/
def hexText (bs : List UInt8) : String :=
  String.ofList (bs.flatMap fun b => [Nat.digitChar (b.toNat / 16), Nat.digitChar (b.toNat % 16)])

/-- `str(uuid)`: 32 hexadecimal digits in groups of 8, 4, 4, 4 and 12. -/
def uuidText (u : Uuid) : String :=
  String.ofList ((List.range 32).flatMap fun i =>
    let digit := Nat.digitChar (u / 16 ^ (31 - i) % 16)
    if i = 8 ∨ i = 12 ∨ i = 16 ∨ i = 20 then ['-', digit] else [digit])

mutual

/-- The tree of an object: decimals, identifiers and bytes become strings, an enumeration
    member its value, sets sorted lists. -/
def toCanonical : Obj → Except TypeError Json
  | .none => .ok .null
  | .bool b => .ok (.bool b)
  | .int n => .ok (.int n)
  | .str s => .ok (.str s)
  | .decimal x => .ok (.str (decStr x))
  | .enum value => toCanonical value
  | .uuid u => .ok (.str (uuidText u))
  | .bytes bs => .ok (.str (hexText bs))
  | .baseModel dump | .dataclass dump => do return .obj (← toCanonicalFields dump)
  -- the keys are strings here, so that no two of them coincide
  | .mapping items => do return .obj (← toCanonicalItems items)
  | .list items | .tuple items => do return .arr (← toCanonicalEach items)
  | .set elements => do return .arr (← sorted (← toCanonicalEach elements))
  | .float _ => .error ⟨"type float is not canonical-serializable"⟩
  | .numpy typeName | .other typeName =>
    .error ⟨s!"type {typeName} is not canonical-serializable"⟩

/-- The fields of a model, one after another. -/
def toCanonicalFields : List (String × Obj) → Except TypeError (List (String × Json))
  | [] => .ok []
  | (k, v) :: fields => do return (k, ← toCanonical v) :: (← toCanonicalFields fields)

/-- The items of a mapping, one after another. -/
def toCanonicalItems : List (Key × Obj) → Except TypeError (List (String × Json))
  | [] => .ok []
  | (k, v) :: items => do return (k.text, ← toCanonical v) :: (← toCanonicalItems items)

/-- The items of a list, one after another. -/
def toCanonicalEach : List Obj → Except TypeError (List Json)
  | [] => .ok []
  | v :: vs => do return (← toCanonical v) :: (← toCanonicalEach vs)

end

/-! ### Bytes -/

mutual

/-- Every integer fits into 64 bits, with or without a sign. -/
def fits : Json → Bool
  | .int n => -2 ^ 63 ≤ n ∧ n < 2 ^ 64
  | .arr items => fitsItems items
  | .obj members => fitsMembers members
  | _ => true

/-- Whether every number of some items is written within the limit of digits. -/
def fitsItems : List Json → Bool
  | [] => true
  | v :: vs => fits v && fitsItems vs

/-- Whether every number of some members is written within the limit of digits. -/
def fitsMembers : List (String × Json) → Bool
  | [] => true
  | (_, v) :: ms => fits v && fitsMembers ms

end

/-- The bytes of a tree whose keys are in order. -/
def serialize (v : Json) : Except TypeError (List UInt8) :=
  if fits v then .ok (utf8 v.print) else .error ⟨"Integer exceeds 64-bit range"⟩

/-- `orjson.dumps(v, option=OPT_SORT_KEYS)`: the keys are sorted, and the numbers must fit. -/
def dumps (v : Json) : Except TypeError (List UInt8) := serialize v.sortKeys

/-- The canonical bytes of an object. -/
def canonicalJson (obj : Obj) : Except TypeError (List UInt8) := do
  assertNoFloat "$" obj
  dumps (← toCanonical obj)

/-- The tree of an object that passes the check, with its keys in order. -/
def canonicalTree (obj : Obj) : Except TypeError Json := do
  assertNoFloat "$" obj
  let v ← toCanonical obj
  return v.sortKeys

/-! ### What the bytes depend on -/

/-- The bytes of an object are those of its ordered tree. -/
theorem canonicalJson_eq (obj : Obj) : canonicalJson obj = canonicalTree obj >>= serialize := by
  unfold canonicalJson canonicalTree
  cases assertNoFloat "$" obj with
  | error e => rfl
  | ok u =>
    cases toCanonical obj with
    | error e => rfl
    | ok v => rfl

/-- A tree is written just when its numbers fit, and then as its text in UTF-8. -/
theorem serialize_eq_ok {v : Json} {bs : List UInt8} :
    serialize v = .ok bs ↔ fits v = true ∧ utf8 v.print = bs := by
  unfold serialize
  split
  · rename_i h
    simp [h]
  · rename_i h
    simp [h]

/-- Trees that are written with the same bytes are the same. -/
theorem serialize_inj {v w : Json} {bs : List UInt8} (hv : serialize v = .ok bs)
    (hw : serialize w = .ok bs) : v = w := by
  obtain ⟨-, hv⟩ := serialize_eq_ok.mp hv
  obtain ⟨-, hw⟩ := serialize_eq_ok.mp hw
  exact Json.utf8_print_injective (hv.trans hw.symm)

/-- The bytes of an object are those of its canonical tree. -/
theorem canonicalJson_eq_ok {obj : Obj} {bs : List UInt8} :
    canonicalJson obj = .ok bs ↔ ∃ v, canonicalTree obj = .ok v ∧ serialize v = .ok bs := by
  rw [canonicalJson_eq, bind_eq_ok]

/-- **Canonical form.** An object has the bytes of another one exactly when it has the same
    ordered tree. -/
theorem canonicalJson_eq_iff {a b : Obj} {bs : List UInt8} (ha : canonicalJson a = .ok bs) :
    canonicalJson b = .ok bs ↔ canonicalTree b = canonicalTree a := by
  obtain ⟨v, hav, hv⟩ := canonicalJson_eq_ok.mp ha
  rw [canonicalJson_eq_ok, hav]
  constructor
  · rintro ⟨w, hbw, hw⟩
    rw [hbw, serialize_inj hw hv]
  · intro hb
    exact ⟨v, hb, hv⟩

/-! ### The check and its path -/

mutual

/-- The path is for the message only. -/
theorem assertNoFloat_path : ∀ (obj : Obj) {p : String} (q : String),
    assertNoFloat p obj = .ok () → assertNoFloat q obj = .ok ()
  | .none, _, _, _ | .bool _, _, _, _ | .int _, _, _, _ | .str _, _, _, _
  | .decimal _, _, _, _ | .enum _, _, _, _ | .uuid _, _, _, _ | .bytes _, _, _, _
  | .other _, _, _, _ => by simp only [assertNoFloat]
  | .float _, _, _, h | .numpy _, _, _, h => by
    rw [assertNoFloat] at h
    cases h
  | .baseModel dump, _, q, h | .dataclass dump, _, q, h => by
    rw [assertNoFloat] at h ⊢
    exact assertNoFloatFields_path dump q h
  | .mapping items, _, q, h => by
    rw [assertNoFloat] at h ⊢
    exact assertNoFloatItems_path items q h
  | .list items, _, q, h | .tuple items, _, q, h | .set items, _, q, h => by
    rw [assertNoFloat] at h ⊢
    exact assertNoFloatFrom_path items q 0 h

/-- Whether some fields pass does not depend on the path they are named by. -/
theorem assertNoFloatFields_path : ∀ (fields : List (String × Obj)) {p : String} (q : String),
    assertNoFloatFields p fields = .ok () → assertNoFloatFields q fields = .ok ()
  | [], _, _, _ => by rw [assertNoFloatFields]
  | (k, v) :: fields, p, q, h => by
    rw [assertNoFloatFields, bind_eq_ok] at h ⊢
    obtain ⟨u, hv, hrest⟩ := h
    exact ⟨(), assertNoFloat_path v _ hv, assertNoFloatFields_path fields q hrest⟩

/-- Whether some items pass does not depend on the path they are named by. -/
theorem assertNoFloatItems_path : ∀ (items : List (Key × Obj)) {p : String} (q : String),
    assertNoFloatItems p items = .ok () → assertNoFloatItems q items = .ok ()
  | [], _, _, _ => by rw [assertNoFloatItems]
  | (.other r s, v) :: items, p, q, h => by
    rw [assertNoFloatItems] at h
    cases h
  | (.str k, v) :: items, p, q, h => by
    rw [assertNoFloatItems, bind_eq_ok] at h ⊢
    obtain ⟨u, hv, hrest⟩ := h
    exact ⟨(), assertNoFloat_path v _ hv, assertNoFloatItems_path items q hrest⟩

/-- Whether some values pass does not depend on their path or their first index. -/
theorem assertNoFloatFrom_path : ∀ (vs : List Obj) {p : String} {i : ℕ} (q : String) (j : ℕ),
    assertNoFloatFrom p i vs = .ok () → assertNoFloatFrom q j vs = .ok ()
  | [], _, _, _, _, _ => by rw [assertNoFloatFrom]
  | v :: vs, p, i, q, j, h => by
    rw [assertNoFloatFrom, bind_eq_ok] at h ⊢
    obtain ⟨u, hv, hrest⟩ := h
    exact ⟨(), assertNoFloat_path v _ hv, assertNoFloatFrom_path vs q (j + 1) hrest⟩

end

/-- The canonical tree is there when the object has no float, and then its keys are sorted. -/
theorem canonicalTree_eq_ok {obj : Obj} {t : Json} :
    canonicalTree obj = .ok t ↔
      assertNoFloat "$" obj = .ok () ∧ ∃ v, toCanonical obj = .ok v ∧ v.sortKeys = t := by
  simp only [canonicalTree, bind_eq_ok, pure, Except.pure, Except.ok.injEq]
  constructor
  · rintro ⟨u, hf, v, hv, ht⟩
    exact ⟨hf, v, hv, ht⟩
  · rintro ⟨hf, v, hv, ht⟩
    exact ⟨(), hf, v, hv, ht⟩

/-! ### Mappings -/

/-- A mapping passes when all its keys are texts and all its values pass. -/
theorem assertNoFloatItems_eq_ok {items : List (Key × Obj)} :
    assertNoFloatItems "$" items = .ok () ↔
      ∀ kv ∈ items, (∃ k, kv.1 = .str k) ∧ assertNoFloat "$" kv.2 = .ok () := by
  induction items with
  | nil => simp [assertNoFloatItems]
  | cons kv items ih =>
    obtain ⟨k, v⟩ := kv
    cases k with
    | other r s => simp [assertNoFloatItems]
    | str k =>
      rw [assertNoFloatItems, bind_eq_ok, List.forall_mem_cons, ← ih]
      constructor
      · rintro ⟨u, hv, hrest⟩
        exact ⟨⟨⟨k, rfl⟩, assertNoFloat_path v _ hv⟩, hrest⟩
      · rintro ⟨⟨-, hv⟩, hrest⟩
        exact ⟨(), assertNoFloat_path v _ hv, hrest⟩

/-- The members that the items of a mapping become, one for each item. -/
theorem toCanonicalItems_eq_ok {items : List (Key × Obj)} {ms : List (String × Json)} :
    toCanonicalItems items = .ok ms ↔
      List.Forall₂ (fun kv m => kv.1.text = m.1 ∧ toCanonical kv.2 = .ok m.2) items ms := by
  induction items generalizing ms with
  | nil =>
    rw [toCanonicalItems, Except.ok.injEq, List.forall₂_nil_left_iff, eq_comm]
  | cons kv items ih =>
    obtain ⟨k, v⟩ := kv
    simp only [toCanonicalItems, bind_eq_ok, pure, Except.pure, Except.ok.injEq]
    constructor
    · rintro ⟨w, hw, rest, hrest, rfl⟩
      exact .cons ⟨rfl, hw⟩ (ih.mp hrest)
    · intro h
      rcases List.forall₂_cons_left_iff.mp h with ⟨⟨l, w⟩, rest, ⟨hk, hw⟩, hrest, rfl⟩
      exact ⟨w, hw, rest, ih.mpr hrest, by rw [show k.text = l from hk]⟩

/-- The names of the members are those of the keys. -/
theorem names_of_toCanonicalItems {items : List (Key × Obj)} {ms : List (String × Json)}
    (h : toCanonicalItems items = .ok ms) : ms.map Prod.fst = items.map fun kv => kv.1.text := by
  have hpairs := toCanonicalItems_eq_ok.mp h
  clear h
  induction hpairs with
  | nil => rfl
  | cons hkv _ ih => rw [List.map_cons, List.map_cons, ih, hkv.1]

/-- **Values of a mapping.** Mappings with the same ordered tree, whose keys are all different, have
    values with the same ordered tree under a key of both. -/
theorem canonicalTree_mapping_value {items items' : List (Key × Obj)} {t : Json}
    (h : canonicalTree (.mapping items) = .ok t) (h' : canonicalTree (.mapping items') = .ok t)
    (hnames : (items.map fun kv => kv.1.text).Nodup) {k : Key} {v v' : Obj}
    (hv : (k, v) ∈ items) (hv' : (k, v') ∈ items') :
    ∃ w, canonicalTree v = .ok w ∧ canonicalTree v' = .ok w := by
  -- the ordered tree of a value is the value of a member of the ordered tree
  have hmember (items : List (Key × Obj)) (h : canonicalTree (.mapping items) = .ok t) :
      ∃ ms, t = .obj ms ∧ (ms.map Prod.fst).Perm (items.map fun kv => kv.1.text) ∧
        ∀ v, (k, v) ∈ items → ∃ w, canonicalTree v = .ok w ∧ (k.text, w) ∈ ms := by
    obtain ⟨hf, j, hj, hsort⟩ := canonicalTree_eq_ok.mp h
    simp only [assertNoFloat, assertNoFloatItems_eq_ok] at hf
    simp only [toCanonical, bind_eq_ok, pure, Except.pure, Except.ok.injEq] at hj
    obtain ⟨ms, hms, rfl⟩ := hj
    rw [Json.sortKeys, Json.sortMembers_eq_map] at hsort
    refine ⟨_, hsort.symm, ?_, fun v hv => ?_⟩
    · rw [← names_of_toCanonicalItems hms]
      refine ((List.perm_insertionSort _ _).map Prod.fst).trans ?_
      rw [List.map_map]
      exact .rfl
    · obtain ⟨i, hi, hget⟩ := List.getElem_of_mem hv
      have hpairs := toCanonicalItems_eq_ok.mp hms
      have hi' : i < ms.length := hpairs.length_eq ▸ hi
      have hpair := hpairs.get hi hi'
      rw [List.get_eq_getElem, List.get_eq_getElem, hget] at hpair
      refine ⟨ms[i].2.sortKeys, canonicalTree_eq_ok.mpr ⟨(hf _ hv).2, _, hpair.2, rfl⟩, ?_⟩
      rw [List.mem_insertionSort, List.mem_map]
      exact ⟨ms[i], List.getElem_mem hi', by rw [hpair.1]⟩
  obtain ⟨ms, rfl, hperm, hvalue⟩ := hmember items h
  obtain ⟨ms', hms', -, hvalue'⟩ := hmember items' h'
  cases hms'
  obtain ⟨w, hw, hmem⟩ := hvalue v hv
  obtain ⟨w', hw', hmem'⟩ := hvalue' v' hv'
  have hnodup : (ms.map Prod.fst).Nodup := hperm.nodup_iff.mpr hnames
  have hpair : (k.text, w) = (k.text, w') := List.inj_on_of_nodup_map hnodup hmem hmem' rfl
  cases hpair
  exact ⟨w, hw, hw'⟩

/-! ### Which objects have bytes -/

/-- Members fit when each of them does. -/
theorem fitsMembers_eq_all (ms : List (String × Json)) :
    fitsMembers ms = ms.all fun m => fits m.2 := by
  induction ms with
  | nil => rfl
  | cons m ms ih => rw [fitsMembers, ih, List.all_cons]

mutual

/-- The order of the keys does not change the integers. -/
theorem fits_sortKeys : ∀ v : Json, fits v.sortKeys = fits v
  | .null | .bool _ | .int _ | .str _ => rfl
  | .arr items => by
    rw [Json.sortKeys, fits, fits]
    exact fitsItems_sortItems items
  | .obj members => by
    rw [Json.sortKeys, fits, fits, ← fitsMembers_sortMembers members, fitsMembers_eq_all,
      fitsMembers_eq_all, Bool.eq_iff_iff, List.all_eq_true, List.all_eq_true]
    simp only [List.mem_insertionSort]

/-- Sorting inside the items changes no number. -/
theorem fitsItems_sortItems : ∀ vs : List Json, fitsItems (Json.sortItems vs) = fitsItems vs
  | [] => rfl
  | v :: vs => by
    rw [Json.sortItems, fitsItems, fitsItems, fits_sortKeys v, fitsItems_sortItems vs]

/-- Sorting the members changes no number. -/
theorem fitsMembers_sortMembers : ∀ ms : List (String × Json),
    fitsMembers (Json.sortMembers ms) = fitsMembers ms
  | [] => rfl
  | (_, v) :: ms => by
    rw [Json.sortMembers, fitsMembers, fitsMembers, fits_sortKeys v, fitsMembers_sortMembers ms]

end

/-- An object that can be written: it passes the check, it has a tree, and the integers of the
    tree fit into 64 bits. -/
def Obj.Writable (obj : Obj) : Prop :=
  assertNoFloat "$" obj = .ok () ∧ ∃ v, toCanonical obj = .ok v ∧ fits v = true

/-- **What can be written** is what has no float, only keys that are texts, and numbers that fit. -/
theorem canonicalJson_isOk {obj : Obj} : (∃ bs, canonicalJson obj = .ok bs) ↔ obj.Writable := by
  simp only [canonicalJson_eq_ok, canonicalTree_eq_ok, serialize_eq_ok]
  constructor
  · rintro ⟨_, _, ⟨hcheck, v, hv, rfl⟩, hfits, -⟩
    exact ⟨hcheck, v, hv, by rwa [← fits_sortKeys]⟩
  · rintro ⟨hcheck, v, hv, hfits⟩
    exact ⟨_, v.sortKeys, ⟨hcheck, v, hv, rfl⟩, by rwa [fits_sortKeys], rfl⟩

/-- A list can be written when its items can. -/
theorem Obj.writable_list {items : List Obj} :
    (Obj.list items).Writable ↔ ∀ x ∈ items, x.Writable := by
  -- the path of an item does not decide whether it is accepted
  have hcheck : ∀ (items : List Obj) (i : ℕ), assertNoFloatFrom "$" i items = .ok () ↔
      ∀ x ∈ items, assertNoFloat "$" x = .ok () := by
    intro items
    induction items with
    | nil => simp [assertNoFloatFrom]
    | cons x items ih =>
      intro i
      rw [assertNoFloatFrom, bind_eq_ok, List.forall_mem_cons, ← ih (i + 1)]
      exact ⟨fun ⟨_, hx, hrest⟩ => ⟨assertNoFloat_path x _ hx, hrest⟩,
        fun ⟨hx, hrest⟩ => ⟨(), assertNoFloat_path x _ hx, hrest⟩⟩
  -- a list has a tree that fits when each of its items has one
  have htree : ∀ items : List Obj,
      (∃ vs, toCanonicalEach items = .ok vs ∧ fitsItems vs = true) ↔
        ∀ x ∈ items, ∃ v, toCanonical x = .ok v ∧ fits v = true := by
    intro items
    induction items with
    | nil => simp [toCanonicalEach, fitsItems]
    | cons x items ih =>
      rw [List.forall_mem_cons, ← ih]
      simp only [toCanonicalEach, bind_eq_ok, pure, Except.pure, Except.ok.injEq]
      constructor
      · rintro ⟨_, ⟨v, hv, vs, hvs, rfl⟩, hfits⟩
        rw [fitsItems, Bool.and_eq_true] at hfits
        exact ⟨⟨v, hv, hfits.1⟩, vs, hvs, hfits.2⟩
      · rintro ⟨⟨v, hv, hfits⟩, vs, hvs, hrest⟩
        exact ⟨_, ⟨v, hv, vs, hvs, rfl⟩, by rw [fitsItems, hfits, hrest]; rfl⟩
  simp only [Obj.Writable, assertNoFloat, toCanonical, hcheck items 0, forall_and, ← htree items,
    bind_eq_ok, pure, Except.pure, Except.ok.injEq]
  refine and_congr_right fun _ => ⟨?_, ?_⟩
  · rintro ⟨_, ⟨vs, hvs, rfl⟩, hfits⟩
    exact ⟨vs, hvs, hfits⟩
  · rintro ⟨vs, hvs, hfits⟩
    exact ⟨_, ⟨vs, hvs, rfl⟩, hfits⟩

/-- A mapping can be written when its keys are strings and its values can be written. -/
theorem Obj.writable_mapping {items : List (Key × Obj)} :
    (Obj.mapping items).Writable ↔ ∀ kv ∈ items, (∃ k, kv.1 = .str k) ∧ kv.2.Writable := by
  -- the same of a mapping, by induction on its members
  have htree : ∀ items : List (Key × Obj),
      (∃ ms, toCanonicalItems items = .ok ms ∧ fitsMembers ms = true) ↔
        ∀ kv ∈ items, ∃ v, toCanonical kv.2 = .ok v ∧ fits v = true := by
    intro items
    induction items with
    | nil => simp [toCanonicalItems, fitsMembers]
    | cons kv items ih =>
      obtain ⟨k, x⟩ := kv
      rw [List.forall_mem_cons, ← ih]
      simp only [toCanonicalItems, bind_eq_ok, pure, Except.pure, Except.ok.injEq]
      constructor
      · rintro ⟨_, ⟨v, hv, ms, hms, rfl⟩, hfits⟩
        rw [fitsMembers, Bool.and_eq_true] at hfits
        exact ⟨⟨v, hv, hfits.1⟩, ms, hms, hfits.2⟩
      · rintro ⟨⟨v, hv, hfits⟩, ms, hms, hrest⟩
        exact ⟨_, ⟨v, hv, ms, hms, rfl⟩, by rw [fitsMembers, hfits, hrest]; rfl⟩
  simp only [Obj.Writable, assertNoFloat, toCanonical, assertNoFloatItems_eq_ok, forall_and,
    ← htree items, bind_eq_ok, pure, Except.pure, Except.ok.injEq, and_assoc]
  refine and_congr_right fun _ => and_congr_right fun _ => ⟨?_, ?_⟩
  · rintro ⟨_, ⟨ms, hms, rfl⟩, hfits⟩
    exact ⟨ms, hms, hfits⟩
  · rintro ⟨ms, hms, hfits⟩
    exact ⟨_, ⟨ms, hms, rfl⟩, hfits⟩

end FuzzHelm
