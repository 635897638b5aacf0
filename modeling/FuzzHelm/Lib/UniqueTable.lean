import FuzzHelm.Lib.Dict
import FuzzHelm.Lib.Run

namespace Lib

/-!
# Tables with a unique key

A row is inserted under a key that is free and updated under one that is taken; any other
statement fails.  What a sequence of statements leaves under a key is settled by those for that
key.

* `insertRow` / `insertRows` — new rows;
* `updateRow` / `updateRows` — changes of rows that are there, each found by the key of an event;
* `insertRows_spec` — rows of distinct new keys are all inserted;
* `insertRows_filterMap` — so are the rows that some of a list of things have;
* `updateRows_spec` — every row goes through the events of its key, in their order.
-/

universe u v w

/-- Why a statement fails: the key of a new row is taken, or there is no row to change. -/
inductive TableError (κ : Type u) where
  | taken (k : κ)
  | missing (k : κ)
  deriving DecidableEq, Repr

variable {κ : Type u} {ν : Type v} {ε : Type w} [DecidableEq κ]

/-! ### New rows -/

section Insert

variable (key : ν → κ)

/-- One new row. -/
def insertRow (x : ν) (t : Dict κ ν) : Except (TableError κ) (Dict κ ν) :=
  if (t.get? (key x)).isSome then .error (.taken (key x)) else .ok (t.insert (key x) x)

/-- New rows, one after another. -/
def insertRows : List ν → Dict κ ν → Except (TableError κ) (Dict κ ν)
  | [], t => .ok t
  | x :: xs, t => do insertRows xs (← insertRow key x t)

variable {key}

/-- Rows after rows. -/
theorem insertRows_append (xs ys : List ν) (t : Dict κ ν) :
    insertRows key (xs ++ ys) t = insertRows key xs t >>= insertRows key ys := by
  induction xs generalizing t with
  | nil => rfl
  | cons x xs ih =>
    rw [List.cons_append, insertRows, insertRows, bind_assoc]
    exact congrArg _ (funext ih)

/-- **Rows of distinct new keys** are all inserted, and no other row changes. -/
theorem insertRows_spec {xs : List ν} {t : Dict κ ν} (hnd : (xs.map key).Nodup)
    (hfree : ∀ x ∈ xs, t.get? (key x) = none) :
    ∃ t', insertRows key xs t = .ok t' ∧ (∀ x ∈ xs, t'.get? (key x) = some x) ∧
      ∀ k, k ∉ xs.map key → t'.get? k = t.get? k := by
  induction xs generalizing t with
  | nil => exact ⟨t, rfl, (fun x hx => by cases hx), fun k _ => rfl⟩
  | cons x xs ih =>
    rw [List.map_cons, List.nodup_cons] at hnd
    have hone : insertRow key x t = .ok (t.insert (key x) x) := by
      unfold insertRow
      rw [hfree x List.mem_cons_self]
      simp
    -- the other keys are still free
    have hfree' : ∀ y ∈ xs, (t.insert (key x) x).get? (key y) = none := by
      intro y hy
      have hne : key x ≠ key y := fun heq => hnd.1 (heq ▸ List.mem_map_of_mem hy)
      rw [Dict.get?_insert_of_ne _ _ hne]
      exact hfree y (List.mem_cons_of_mem _ hy)
    obtain ⟨t', hrest, hin, hout⟩ := ih hnd.2 hfree'
    refine ⟨t', ?_, ?_, fun k hk => ?_⟩
    · rw [insertRows, hone]
      exact hrest
    · intro y hy
      rcases List.mem_cons.mp hy with rfl | hy
      · rw [hout _ hnd.1, Dict.get?_insert_self]
      · exact hin y hy
    · rw [List.map_cons, List.mem_cons, not_or] at hk
      rw [hout k hk.2, Dict.get?_insert_of_ne _ _ (Ne.symm hk.1)]

/-- Things with distinct new keys, of which some have a row: those rows are inserted. -/
theorem insertRows_filterMap {α : Type w} {g : α → Option ν} {key' : α → κ}
    (hg : ∀ a x, g a = some x → key x = key' a) {as : List α} {t : Dict κ ν}
    (hnd : (as.map key').Nodup) (hfree : ∀ a ∈ as, t.get? (key' a) = none) :
    ∃ t', insertRows key (as.filterMap g) t = .ok t' ∧ (∀ a ∈ as, t'.get? (key' a) = g a) ∧
      ∀ k, k ∉ (as.filterMap g).map key → t'.get? k = t.get? k := by
  have hkeys : (as.filterMap g).map key = (as.filter fun a => (g a).isSome).map key' := by
    clear hnd hfree
    induction as with
    | nil => rfl
    | cons a as ih =>
      cases hx : g a with
      | none => simp [hx, ih]
      | some x => simp [hx, ih, hg a x hx]
  have hnd' : ((as.filterMap g).map key).Nodup := by
    rw [hkeys]
    exact hnd.sublist (List.filter_sublist.map _)
  have hfree' : ∀ x ∈ as.filterMap g, t.get? (key x) = none := by
    intro x hx
    obtain ⟨a, ha, hxa⟩ := List.mem_filterMap.mp hx
    rw [hg a x hxa]
    exact hfree a ha
  obtain ⟨t', hinsert, hin, hout⟩ := insertRows_spec hnd' hfree'
  refine ⟨t', hinsert, fun a ha => ?_, hout⟩
  cases hx : g a with
  | some x =>
    rw [← hg a x hx]
    exact hin x (List.mem_filterMap.mpr ⟨a, ha, hx⟩)
  | none =>
    rw [hout, hfree a ha]
    rw [hkeys]
    -- what has a row under this key is something else
    intro hmem
    obtain ⟨b, hb, heq⟩ := List.mem_map.mp hmem
    rw [List.mem_filter] at hb
    have hsame : b = a := List.inj_on_of_nodup_map hnd hb.1 ha heq
    rw [hsame, hx] at hb
    cases hb.2

end Insert

/-! ### Changes of rows -/

section Update

/-- One change of the row under `k`. -/
def updateRow (k : κ) (g : ν → ν) (t : Dict κ ν) : Except (TableError κ) (Dict κ ν) :=
  match t.get? k with
  | none => .error (.missing k)
  | some x => .ok (t.insert k (g x))

variable (key : ε → κ) (g : ε → ν → ν)

/-- Events one after another, each changing the row of its key. -/
def updateRows : List ε → Dict κ ν → Except (TableError κ) (Dict κ ν)
  | [], t => .ok t
  | e :: es, t => do updateRows es (← updateRow (key e) (g e) t)

/-- What the events of one key make of its row. -/
def through (es : List ε) (x : ν) : ν := es.foldl (fun x e => g e x) x

variable {key g}

/-- **Every row goes through the events of its key.** -/
theorem updateRows_spec {es : List ε} {t : Dict κ ν} (h : ∀ e ∈ es, (t.get? (key e)).isSome) :
    ∃ t', updateRows key g es t = .ok t' ∧
      ∀ k, t'.get? k = (t.get? k).map (through g (es.filter fun e => decide (key e = k))) := by
  -- by induction on the updates, each of a row that is there
  induction es generalizing t with
  | nil => exact ⟨t, rfl, fun k => by cases t.get? k <;> rfl⟩
  | cons e es ih =>
    obtain ⟨x, hx⟩ := Option.isSome_iff_exists.mp (h e List.mem_cons_self)
    have hone : updateRow (key e) (g e) t = .ok (t.insert (key e) (g e x)) := by
      unfold updateRow
      rw [hx]
    -- no row is taken away, so the rest find theirs
    have htaken : ∀ e' ∈ es, ((t.insert (key e) (g e x)).get? (key e')).isSome := by
      intro e' he'
      rw [Dict.get?_insert]
      split
      · rfl
      · exact h e' (List.mem_cons_of_mem _ he')
    obtain ⟨t', hrest, hget⟩ := ih htaken
    refine ⟨t', ?_, fun k => ?_⟩
    · rw [updateRows, hone]
      exact hrest
    · rw [hget, Dict.get?_insert]
      by_cases hk : key e = k
      · subst hk
        rw [if_pos rfl, hx, List.filter_cons_of_pos (by simp)]
        rfl
      · rw [if_neg hk, List.filter_cons_of_neg (by simpa using hk)]

end Update

end Lib
