import Mathlib.Algebra.BigOperators.Group.List.Basic
import Mathlib.Data.List.Nodup
import Mathlib.Tactic.Abel

namespace Lib

/-!
# Insertion-ordered dictionaries

A dictionary that keeps its keys in the order of their first insertion and updates an
existing key in place.  The absence of duplicate keys is a field, so every lookup has at
most one answer by construction.

* `get?_insert_self` / `get?_insert_of_ne` / `get?_erase_of_ne` — the lookup laws;
* `mem_entries_iff` — an entry is stored exactly when the lookup finds it;
* `sum_insert` — how a sum over all entries moves when one key is written, the rule behind
  every conservation argument over a dictionary of accounts.
-/

universe u v

/-! ### The underlying association lists -/

namespace Assoc

variable {κ : Type u} {ν : Type v} [DecidableEq κ]

/-- The value stored under `k`, if any. -/
def lookup : List (κ × ν) → κ → Option ν
  | [], _ => none
  | (a, x) :: l, k => if a = k then some x else lookup l k

/-- Write `x` under `k`: in place when `k` is present, at the end otherwise. -/
def put : List (κ × ν) → κ → ν → List (κ × ν)
  | [], k, x => [(k, x)]
  | (a, y) :: l, k, x => if a = k then (a, x) :: l else (a, y) :: put l k x

/-- A key of the list after it was put, or before. -/
theorem mem_keys_put (l : List (κ × ν)) (k : κ) (x : ν) (b : κ) :
    b ∈ (put l k x).map Prod.fst ↔ b = k ∨ b ∈ l.map Prod.fst := by
  induction l with
  | nil => simp [put]
  | cons p l ih =>
    obtain ⟨a, y⟩ := p
    by_cases h : a = k
    · subst h; simp [put]
    · simp only [put, if_neg h, List.map_cons, List.mem_cons, ih]
      tauto

/-- Keys stay different. -/
theorem put_nodup (l : List (κ × ν)) (k : κ) (x : ν) (hl : (l.map Prod.fst).Nodup) :
    ((put l k x).map Prod.fst).Nodup := by
  induction l with
  | nil => simp [put]
  | cons p l ih =>
    obtain ⟨a, y⟩ := p
    rw [List.map_cons, List.nodup_cons] at hl
    by_cases h : a = k
    · simp only [put, if_pos h, List.map_cons, List.nodup_cons]
      exact hl
    · simp only [put, if_neg h, List.map_cons, List.nodup_cons]
      refine ⟨fun hmem => ?_, ih hl.2⟩
      rcases (mem_keys_put l k x a).mp hmem with hk | hk
      · exact h hk
      · exact hl.1 hk

/-- Putting changes what one key has. -/
theorem lookup_put (l : List (κ × ν)) (k : κ) (x : ν) (b : κ) :
    lookup (put l k x) b = if k = b then some x else lookup l b := by
  induction l with
  | nil => simp [put, lookup]
  | cons p l ih =>
    obtain ⟨a, y⟩ := p
    by_cases h : a = k
    · subst h
      by_cases hb : a = b <;> simp [put, lookup, hb]
    · by_cases hb : a = b
      · subst hb; simp [put, lookup, h, Ne.symm h]
      · simp [put, lookup, h, hb, ih]

/-- Taking a key out leaves what the others have. -/
theorem lookup_filter_ne (l : List (κ × ν)) (k b : κ) :
    lookup (l.filter (fun e => e.1 ≠ k)) b = if k = b then none else lookup l b := by
  induction l with
  | nil => simp [lookup]
  | cons p l ih =>
    obtain ⟨a, y⟩ := p
    by_cases h : a = k
    · subst h
      rw [List.filter_cons_of_neg (by simp), ih]
      by_cases hb : a = b <;> simp [lookup, hb]
    · rw [List.filter_cons_of_pos (by simpa using h)]
      by_cases hb : a = b
      · subst hb; simp [lookup, Ne.symm h]
      · simpa [lookup, hb] using ih

/-- What a key has is its only entry. -/
theorem lookup_eq_some_iff (l : List (κ × ν)) (hl : (l.map Prod.fst).Nodup) (k : κ) (x : ν) :
    lookup l k = some x ↔ (k, x) ∈ l := by
  induction l with
  | nil => simp [lookup]
  | cons p l ih =>
    obtain ⟨a, y⟩ := p
    rw [List.map_cons, List.nodup_cons] at hl
    by_cases h : a = k
    · subst h
      have hnot : (a, x) ∉ l := fun hm => hl.1 (List.mem_map.mpr ⟨(a, x), hm, rfl⟩)
      simp [lookup, hnot, eq_comm]
    · simp [lookup, h, Ne.symm h, ih hl.2]

/-- After a write there is the new entry, and every other one but an old entry of its key. -/
theorem mem_put {l : List (κ × ν)} (hl : (l.map Prod.fst).Nodup) (k : κ) (x : ν) (e : κ × ν) :
    e ∈ put l k x ↔ e = (k, x) ∨ e ∈ l ∧ k ≠ e.1 := by
  obtain ⟨a, y⟩ := e
  rw [← lookup_eq_some_iff _ (put_nodup l k x hl), ← lookup_eq_some_iff l hl, lookup_put]
  by_cases h : k = a
  · simp [h, eq_comm]
  · simp [h, Ne.symm h]

/-- Writing under `k` exchanges the old contribution of `k` for the new one. -/
theorem sum_put {M : Type*} [AddCommMonoid M] (f : κ → ν → M) (l : List (κ × ν)) (k : κ) (x : ν) :
    ((put l k x).map (fun e => f e.1 e.2)).sum + ((lookup l k).elim 0 (f k))
      = (l.map (fun e => f e.1 e.2)).sum + f k x := by
  induction l with
  | nil => simp [put, lookup]
  | cons p l ih =>
    obtain ⟨a, y⟩ := p
    by_cases h : a = k
    · subst h
      simp only [put, lookup, if_true, List.map_cons, List.sum_cons, Option.elim_some]
      abel
    · simp only [put, lookup, if_neg h, List.map_cons, List.sum_cons]
      rw [add_assoc, ih]
      abel

/-- Without `k` its contribution is missing. -/
theorem sum_filter_ne {M : Type*} [AddCommMonoid M] (f : κ → ν → M) (l : List (κ × ν))
    (hl : (l.map Prod.fst).Nodup) (k : κ) :
    ((l.filter fun e => e.1 ≠ k).map (fun e => f e.1 e.2)).sum + ((lookup l k).elim 0 (f k))
      = (l.map (fun e => f e.1 e.2)).sum := by
  induction l with
  | nil => simp [lookup]
  | cons p l ih =>
    obtain ⟨a, y⟩ := p
    rw [List.map_cons, List.nodup_cons] at hl
    by_cases h : a = k
    · subst h
      have hkept : l.filter (fun e => e.1 ≠ a) = l := by
        refine List.filter_eq_self.mpr fun e he => ?_
        have hkey : e.1 ∈ l.map Prod.fst := List.mem_map_of_mem he
        exact decide_eq_true fun heq => hl.1 (heq ▸ hkey)
      rw [List.filter_cons_of_neg (by simp), hkept, lookup, if_pos rfl, List.map_cons,
        List.sum_cons, Option.elim_some, add_comm]
    · rw [List.filter_cons_of_pos (by simpa using h), List.map_cons, List.sum_cons, List.map_cons,
        List.sum_cons, lookup, if_neg h, add_assoc, ih hl.2]

/-- A new key goes to the end. -/
theorem put_new (l : List (κ × ν)) {k : κ} (x : ν) (hk : k ∉ l.map Prod.fst) :
    put l k x = l ++ [(k, x)] := by
  induction l with
  | nil => rfl
  | cons p l ih =>
    obtain ⟨a, y⟩ := p
    simp only [List.map_cons, List.mem_cons, not_or] at hk
    rw [put, if_neg (Ne.symm hk.1), ih hk.2]
    rfl

/-- A key that is there keeps its place. -/
theorem keys_put (l : List (κ × ν)) {k : κ} (x : ν) (hk : k ∈ l.map Prod.fst) :
    (put l k x).map Prod.fst = l.map Prod.fst := by
  induction l with
  | nil => cases hk
  | cons e l ih =>
    by_cases h : e.1 = k
    · rw [put, if_pos h]
      rfl
    · rw [put, if_neg h, List.map_cons, List.map_cons,
        ih ((List.mem_cons.mp hk).resolve_left (Ne.symm h))]

/-- Writing what is there changes nothing. -/
theorem put_lookup {l : List (κ × ν)} {k : κ} {x : ν} (h : lookup l k = some x) :
    put l k x = l := by
  induction l with
  | nil => cases h
  | cons e l ih =>
    by_cases hk : e.1 = k
    · subst hk
      simp only [lookup, if_true, Option.some.injEq] at h
      simp [put, ← h]
    · simp only [lookup, if_neg hk] at h
      simp [put, hk, ih h]

section Map

variable {ν' : Type*} (f g : κ → ν → ν')

/-- The values are mapped under their keys. -/
theorem lookup_map (l : List (κ × ν)) (k : κ) :
    lookup (l.map fun e => (e.1, f e.1 e.2)) k = (lookup l k).map (f k) := by
  induction l with
  | nil => rfl
  | cons e l ih =>
    by_cases h : e.1 = k
    · simp [lookup, h]
    · simpa [lookup, h] using ih

/-- Putting and mapping can be exchanged. -/
theorem put_map (l : List (κ × ν)) (k : κ) (x : ν) :
    (put l k x).map (fun e => (e.1, f e.1 e.2)) =
      put (l.map fun e => (e.1, f e.1 e.2)) k (f k x) := by
  induction l with
  | nil => rfl
  | cons e l ih =>
    by_cases h : e.1 = k
    · simp [put, h]
    · simpa [put, h] using ih

/-- What is written does not remember what it overwrites. -/
theorem put_map_congr {l : List (κ × ν)} (hl : (l.map Prod.fst).Nodup) {k : κ}
    (h : ∀ j, j ≠ k → f j = g j) (x : ν') :
    put (l.map fun e => (e.1, f e.1 e.2)) k x = put (l.map fun e => (e.1, g e.1 e.2)) k x := by
  induction l with
  | nil => rfl
  | cons e l ih =>
    rw [List.map_cons, List.nodup_cons] at hl
    by_cases hk : e.1 = k
    · -- the key does not come again
      have hrest : l.map (fun e => (e.1, f e.1 e.2)) = l.map fun e => (e.1, g e.1 e.2) := by
        apply List.map_congr_left
        intro e' he'
        rw [h e'.1 fun heq => hl.1 (hk ▸ heq ▸ List.mem_map_of_mem he')]
      simp [put, hk, hrest]
    · simp [put, hk, h e.1 hk, ih hl.2]

end Map

end Assoc

/-! ### Dictionaries -/

/-- An insertion-ordered dictionary with pairwise distinct keys. -/
structure Dict (κ : Type u) (ν : Type v) where
  entries : List (κ × ν)
  nodup : (entries.map Prod.fst).Nodup

namespace Dict

variable {κ : Type u} {ν : Type v}

/-- Whether two dictionaries are the same, order included. -/
instance [DecidableEq κ] [DecidableEq ν] : DecidableEq (Dict κ ν) := fun a b =>
  decidable_of_iff (a.entries = b.entries)
    ⟨fun h => by cases a; cases b; cases h; rfl, fun h => by rw [h]⟩

/-- The dictionary without entries. -/
def empty : Dict κ ν := ⟨[], List.nodup_nil⟩

/-- `∅` is the dictionary without entries. -/
instance : EmptyCollection (Dict κ ν) := ⟨empty⟩

/-- There is a dictionary. -/
instance : Inhabited (Dict κ ν) := ⟨empty⟩

/-- The keys, in insertion order. -/
def keys (d : Dict κ ν) : List κ := d.entries.map Prod.fst

/-- The sum of `f` over all entries. -/
def sum {M : Type*} [AddCommMonoid M] (d : Dict κ ν) (f : κ → ν → M) : M :=
  (d.entries.map (fun e => f e.1 e.2)).sum

/-- Nothing adds up to zero. -/
@[simp] theorem sum_empty {M : Type*} [AddCommMonoid M] (f : κ → ν → M) :
    (∅ : Dict κ ν).sum f = 0 := rfl

/-- A sum of sums. -/
theorem sum_add {M : Type*} [AddCommMonoid M] (d : Dict κ ν) (f g : κ → ν → M) :
    (d.sum fun k x => f k x + g k x) = d.sum f + d.sum g := by
  unfold sum
  induction d.entries with
  | nil => simp
  | cons e l ih =>
    simp only [List.map_cons, List.sum_cons, ih]
    abel

variable [DecidableEq κ]

/-- The value stored under `k`, if any. -/
def get? (d : Dict κ ν) (k : κ) : Option ν := Assoc.lookup d.entries k

/-- Write `x` under `k`. -/
def insert (d : Dict κ ν) (k : κ) (x : ν) : Dict κ ν :=
  ⟨Assoc.put d.entries k x, Assoc.put_nodup d.entries k x d.nodup⟩

/-- Remove `k`. -/
def erase (d : Dict κ ν) (k : κ) : Dict κ ν :=
  ⟨d.entries.filter (fun e => e.1 ≠ k),
    d.nodup.sublist ((List.filter_sublist (l := d.entries)).map Prod.fst)⟩

/-- Nothing is under any key. -/
@[simp] theorem get?_empty (k : κ) : (∅ : Dict κ ν).get? k = none := rfl

/-- Inserting changes what one key has. -/
theorem get?_insert (d : Dict κ ν) (k : κ) (x : ν) (b : κ) :
    (d.insert k x).get? b = if k = b then some x else d.get? b :=
  Assoc.lookup_put d.entries k x b

/-- The key has what was inserted under it. -/
@[simp] theorem get?_insert_self (d : Dict κ ν) (k : κ) (x : ν) :
    (d.insert k x).get? k = some x := by
  rw [get?_insert, if_pos rfl]

/-- The other keys have what they had. -/
theorem get?_insert_of_ne (d : Dict κ ν) {k b : κ} (x : ν) (h : k ≠ b) :
    (d.insert k x).get? b = d.get? b := by
  rw [get?_insert, if_neg h]

/-- Erasing takes what one key has. -/
theorem get?_erase (d : Dict κ ν) (k b : κ) :
    (d.erase k).get? b = if k = b then none else d.get? b :=
  Assoc.lookup_filter_ne d.entries k b

/-- An entry is what its key has. -/
theorem mem_entries_iff (d : Dict κ ν) (k : κ) (x : ν) : (k, x) ∈ d.entries ↔ d.get? k = some x :=
  (Assoc.lookup_eq_some_iff d.entries d.nodup k x).symm

/-- A key is there exactly when the lookup finds something. -/
theorem mem_keys_iff_get? (d : Dict κ ν) (k : κ) : k ∈ d.keys ↔ ∃ x, d.get? k = some x := by
  rw [keys, List.mem_map]
  constructor
  · rintro ⟨⟨_, x⟩, he, rfl⟩
    exact ⟨x, (d.mem_entries_iff _ x).mp he⟩
  · rintro ⟨x, hx⟩
    exact ⟨(k, x), (d.mem_entries_iff k x).mpr hx, rfl⟩

/-- A key has nothing just when it is not among the keys. -/
theorem get?_eq_none_iff (d : Dict κ ν) (k : κ) : d.get? k = none ↔ k ∉ d.keys := by
  rw [mem_keys_iff_get?, not_exists, Option.eq_none_iff_forall_ne_some]

/-- A new key goes to the end. -/
theorem keys_insert_new (d : Dict κ ν) {k : κ} (x : ν) (h : k ∉ d.keys) :
    (d.insert k x).keys = d.keys ++ [k] := by
  have hentries : (d.insert k x).entries = d.entries ++ [(k, x)] := Assoc.put_new d.entries x h
  rw [keys, hentries, List.map_append]
  rfl

/-- A key that is there keeps its place. -/
theorem keys_insert_of_mem (d : Dict κ ν) {k : κ} (x : ν) (h : k ∈ d.keys) :
    (d.insert k x).keys = d.keys :=
  Assoc.keys_put d.entries x h

/-- An erased entry makes the dictionary shorter. -/
theorem length_erase_lt (d : Dict κ ν) {k : κ} {x : ν} (h : d.get? k = some x) :
    (d.erase k).entries.length < d.entries.length := by
  refine List.length_filter_lt_length_iff_exists.mpr ⟨(k, x), (d.mem_entries_iff k x).mpr h, ?_⟩
  simp

/-- Values under new keys, no two of them the same, go to the end in their order. -/
theorem entries_insertAll (key : ν → κ) (xs : List ν) :
    ∀ d : Dict κ ν, (d.keys ++ xs.map key).Nodup →
      (xs.foldl (fun d x => d.insert (key x) x) d).entries =
        d.entries ++ xs.map fun x => (key x, x) := by
  induction xs with
  | nil => simp
  | cons x xs ih =>
    intro d h
    have hnew : key x ∉ d.keys := by
      intro hmem
      exact (List.nodup_append.mp h).2.2 _ hmem _ (by simp) rfl
    have hentries : (d.insert (key x) x).entries = d.entries ++ [(key x, x)] :=
      Assoc.put_new d.entries x hnew
    have hkeys : (d.insert (key x) x).keys = d.keys ++ [key x] := by
      rw [keys, hentries]
      simp [keys]
    rw [List.foldl_cons, ih _ (by simpa [hkeys] using h), hentries]
    simp

/-- Writing what is there changes nothing. -/
theorem insert_of_get? {d : Dict κ ν} {k : κ} {x : ν} (h : d.get? k = some x) :
    d.insert k x = d := by
  simp only [insert, Assoc.put_lookup h]

/-- The same keys, and every value seen through a function of its key. -/
def mapValues {ν' : Type*} (f : κ → ν → ν') (d : Dict κ ν) : Dict κ ν' :=
  ⟨d.entries.map fun e => (e.1, f e.1 e.2), by
    rw [List.map_map]
    exact d.nodup⟩

section MapValues

variable {ν' : Type*} (f g : κ → ν → ν') (d : Dict κ ν)

/-- What a key has, mapped. -/
theorem get?_mapValues (k : κ) : (d.mapValues f).get? k = (d.get? k).map (f k) :=
  Assoc.lookup_map f d.entries k

/-- Inserting and mapping can be exchanged. -/
theorem mapValues_insert (k : κ) (x : ν) :
    (d.insert k x).mapValues f = (d.mapValues f).insert k (f k x) := by
  simp only [mapValues, insert, Assoc.put_map]

/-- What is written does not remember what it overwrites. -/
theorem insert_mapValues_congr {k : κ} (h : ∀ j, j ≠ k → f j = g j) (x : ν') :
    (d.mapValues f).insert k x = (d.mapValues g).insert k x := by
  simp only [mapValues, insert, Dict.mk.injEq]
  exact Assoc.put_map_congr f g d.nodup h x

end MapValues

/-- Where the function changes no value, the dictionary stays. -/
theorem mapValues_eq_self {f : κ → ν → ν} {d : Dict κ ν}
    (h : ∀ k x, d.get? k = some x → f k x = x) : d.mapValues f = d := by
  obtain ⟨entries, nodup⟩ := d
  simp only [mapValues, Dict.mk.injEq]
  refine (List.map_congr_left fun e he => ?_).trans (List.map_id entries)
  rw [h e.1 e.2 ((mem_entries_iff ⟨entries, nodup⟩ e.1 e.2).mp he)]
  rfl

/-- The dictionary without its `n` oldest entries. -/
def drop (d : Dict κ ν) (n : ℕ) : Dict κ ν :=
  ⟨d.entries.drop n, d.nodup.sublist ((List.drop_sublist n d.entries).map Prod.fst)⟩

omit [DecidableEq κ] in
/-- The keys of what is left. -/
@[simp] theorem keys_drop (d : Dict κ ν) (n : ℕ) : (d.drop n).keys = d.keys.drop n := by
  rw [keys, keys, ← List.map_drop]
  rfl

/-- What is left of the entries has not changed. -/
theorem get?_of_drop (d : Dict κ ν) {n : ℕ} {k : κ} {x : ν} (h : (d.drop n).get? k = some x) :
    d.get? k = some x := by
  rw [← mem_entries_iff] at h ⊢
  exact List.mem_of_mem_drop h

/-- Writing under `k` exchanges the old contribution of `k` for the new one. -/
theorem sum_insert {M : Type*} [AddCommMonoid M] (d : Dict κ ν) (f : κ → ν → M) (k : κ) (x : ν) :
    (d.insert k x).sum f + (d.get? k).elim 0 (f k) = d.sum f + f k x :=
  Assoc.sum_put f d.entries k x

/-- Erasing `k` takes its contribution away. -/
theorem sum_erase {M : Type*} [AddCommMonoid M] (d : Dict κ ν) (f : κ → ν → M) (k : κ) :
    (d.erase k).sum f + (d.get? k).elim 0 (f k) = d.sum f :=
  Assoc.sum_filter_ne f d.entries d.nodup k

/-- Two summands that agree on every stored entry give the same sum. -/
theorem sum_congr {M : Type*} [AddCommMonoid M] (d : Dict κ ν) {f g : κ → ν → M}
    (h : ∀ k x, d.get? k = some x → f k x = g k x) : d.sum f = d.sum g := by
  refine congrArg List.sum (List.map_congr_left fun e he => ?_)
  exact h e.1 e.2 ((mem_entries_iff d e.1 e.2).mp he)

end Dict

end Lib
