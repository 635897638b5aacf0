import Mathlib.Algebra.BigOperators.Group.Finset.Piecewise
import Mathlib.Algebra.BigOperators.Group.Finset.Sigma
import Mathlib.Data.List.Nodup
import Mathlib.Logic.Function.Basic
import Mathlib.Order.Basic

namespace Lib

/-!
# Conditional upserts

A row is inserted where its key is free; where it is not, a rule on the stored and the new
value decides whether the new one is written over it.  What happens under one key does not
depend on the rows of the others.

* `upserts_at` — the value left under a key is settled by the values given for that key;
* `count_upserts` — the outcomes of a list of rows are counted key by key;
* `SameOrder.upserts` — rows that are given in the same order for each key leave the same
  table with the same counts, however they are interleaved;
* `upserts_idem` — a rule by finality and rank leaves the same table the second time.
-/

universe u v

/-- What becomes of one row. -/
inductive Outcome where
  | inserted
  | updated
  | skipped
  deriving DecidableEq, Repr

section Upsert

variable {κ : Type u} {ν : Type v} (yields : ν → ν → Bool)

/-! ### One key -/

/-- A value meets what is stored under its key; `yields old v` lets it overwrite `old`. -/
def settle : Option ν → ν → Option ν × Outcome
  | none, v => (some v, .inserted)
  | some old, v => if yields old v then (some v, .updated) else (some old, .skipped)

/-- The values for one key, one after another. -/
def settleAll : Option ν → List ν → Option ν × List Outcome
  | s, [] => (s, [])
  | s, v :: vs =>
    let (s', os) := settleAll (settle yields s v).1 vs
    (s', (settle yields s v).2 :: os)

/-! ### Tables -/

variable [DecidableEq κ]

/-- The rows one after another, each under its own key. -/
def upserts : (κ → Option ν) → List (κ × ν) → (κ → Option ν) × List Outcome
  | T, [] => (T, [])
  | T, (k, v) :: l =>
    let (T', os) := upserts (Function.update T k (settle yields (T k) v).1) l
    (T', (settle yields (T k) v).2 :: os)

/-- The values given for one key, in order. -/
def valuesAt (l : List (κ × ν)) (k : κ) : List ν :=
  (l.filter fun e => decide (e.1 = k)).map Prod.snd

variable {yields} {l l' m m' : List (κ × ν)} {T : κ → Option ν} {k : κ}

/-- Nothing under any key. -/
@[simp] theorem valuesAt_nil : valuesAt ([] : List (κ × ν)) k = [] := rfl

/-- The first value under its own key. -/
@[simp] theorem valuesAt_cons_self (v : ν) : valuesAt ((k, v) :: l) k = v :: valuesAt l k := by
  simp [valuesAt]

/-- The first value under another key. -/
theorem valuesAt_cons_of_ne {j : κ} (v : ν) (h : j ≠ k) :
    valuesAt ((j, v) :: l) k = valuesAt l k := by
  simp [valuesAt, h]

/-- The values of two parts. -/
@[simp] theorem valuesAt_append : valuesAt (l ++ m) k = valuesAt l k ++ valuesAt m k := by
  simp [valuesAt]

/-- Two parts, one after the other. -/
theorem upserts_append : upserts yields T (l ++ m) =
    ((upserts yields (upserts yields T l).1 m).1,
      (upserts yields T l).2 ++ (upserts yields (upserts yields T l).1 m).2) := by
  induction l generalizing T with
  | nil => rfl
  | cons e l ih => simp only [List.cons_append, upserts, ih]

/-- **One key at a time.** The value left under a key is settled by the values for it. -/
theorem upserts_at : (upserts yields T l).1 k = (settleAll yields (T k) (valuesAt l k)).1 := by
  induction l generalizing T with
  | nil => rfl
  | cons e l ih =>
    obtain ⟨j, v⟩ := e
    show (upserts yields (Function.update T j _) l).1 k = _
    rw [ih]
    by_cases h : j = k
    · subst h
      rw [Function.update_self, valuesAt_cons_self]
      rfl
    · rw [Function.update_of_ne (Ne.symm h), valuesAt_cons_of_ne v h]

/-- Each row has an answer. -/
theorem length_upserts : (upserts yields T l).2.length = l.length := by
  induction l generalizing T with
  | nil => rfl
  | cons e l ih => simp only [upserts, List.length_cons, ih]

/-- **Counts key by key.** -/
theorem count_upserts (o : Outcome) (S : Finset κ) (hS : ∀ e ∈ l, e.1 ∈ S) :
    (upserts yields T l).2.count o =
      ∑ k ∈ S, (settleAll yields (T k) (valuesAt l k)).2.count o := by
  induction l generalizing T with
  | nil => simp [upserts, settleAll]
  | cons e l ih =>
    obtain ⟨j, v⟩ := e
    have hj : j ∈ S := hS _ (List.mem_cons_self ..)
    -- only the summand of the first row's key sees that row
    have hterm : ∀ k ∈ S, (settleAll yields (T k) (valuesAt ((j, v) :: l) k)).2.count o =
        (settleAll yields (Function.update T j (settle yields (T j) v).1 k)
          (valuesAt l k)).2.count o
          + if k = j then (if (settle yields (T j) v).2 = o then 1 else 0) else 0 := by
      intro k _
      by_cases h : k = j
      · subst h
        rw [valuesAt_cons_self, Function.update_self, if_pos rfl]
        simp [settleAll, List.count_cons]
      · rw [valuesAt_cons_of_ne v (Ne.symm h), Function.update_of_ne h, if_neg h, add_zero]
    rw [Finset.sum_congr rfl hterm, Finset.sum_add_distrib, Finset.sum_ite_eq' S j, if_pos hj,
      ← ih fun e he => hS e (List.mem_cons_of_mem _ he)]
    simp [upserts, List.count_cons]

/-! ### The same rows in another interleaving -/

/-- The same values in the same order for each key. -/
def SameOrder (l l' : List (κ × ν)) : Prop := ∀ k, valuesAt l k = valuesAt l' k

/-- Keys of lists in the same order. -/
theorem SameOrder.mem_keys (h : SameOrder l l') (k : κ) :
    k ∈ l.map Prod.fst → k ∈ l'.map Prod.fst := by
  rintro hk
  obtain ⟨e, he, rfl⟩ := List.mem_map.mp hk
  have hv : e.2 ∈ valuesAt l' e.1 := by
    rw [← h e.1]
    exact List.mem_map.mpr ⟨e, List.mem_filter.mpr ⟨he, by simp⟩, rfl⟩
  obtain ⟨e', he', -⟩ := List.mem_map.mp hv
  obtain ⟨hmem, hkey⟩ := List.mem_filter.mp he'
  exact List.mem_map.mpr ⟨e', hmem, of_decide_eq_true hkey⟩

/-- Rows with distinct keys may be given in any order. -/
theorem SameOrder.of_perm (h : l.Perm l') (hl : (l.map Prod.fst).Nodup) : SameOrder l l' := by
  intro k
  -- a list without repeated keys has at most one value for each
  have hperm : (valuesAt l k).Perm (valuesAt l' k) := (h.filter _).map _
  have hone : ∀ m : List (κ × ν), (m.map Prod.fst).Nodup → (valuesAt m k).length ≤ 1 := by
    intro m hm
    induction m with
    | nil => simp
    | cons e m ih =>
      obtain ⟨j, v⟩ := e
      rw [List.map_cons, List.nodup_cons] at hm
      by_cases hjk : j = k
      · subst hjk
        have hnil : valuesAt m j = [] := by
          rw [valuesAt, List.map_eq_nil_iff, List.filter_eq_nil_iff]
          intro e he hej
          exact hm.1 (List.mem_map.mpr ⟨e, he, of_decide_eq_true hej⟩)
        simp [hnil]
      · rw [valuesAt_cons_of_ne v hjk]
        exact ih hm.2
  have hlen := hone l hl
  -- and a permutation of at most one value is the same list
  match hv : valuesAt l k, hv' : valuesAt l' k with
  | [], w => rw [hv, hv'] at hperm; exact hperm.nil_eq
  | [x], w => rw [hv, hv'] at hperm; exact List.singleton_perm.mp hperm
  | _ :: _ :: _, w => rw [hv] at hlen; simp at hlen

/-- **Interleavings do not matter.** -/
theorem SameOrder.upserts (h : SameOrder l l') (yields : ν → ν → Bool) (T : κ → Option ν) :
    (upserts yields T l).1 = (upserts yields T l').1 ∧
      ∀ o, (Lib.upserts yields T l).2.count o = (Lib.upserts yields T l').2.count o := by
  constructor
  · funext k
    rw [upserts_at, upserts_at, h k]
  · intro o
    have hS : ∀ e ∈ l, e.1 ∈ (l'.map Prod.fst).toFinset := fun e he =>
      List.mem_toFinset.mpr (h.mem_keys e.1 (List.mem_map_of_mem he))
    have hS' : ∀ e ∈ l', e.1 ∈ (l'.map Prod.fst).toFinset := fun e he =>
      List.mem_toFinset.mpr (List.mem_map_of_mem he)
    rw [count_upserts o _ hS, count_upserts o _ hS']
    exact Finset.sum_congr rfl fun k _ => by rw [h k]

/-! ### Finality and rank -/

section Ranked

variable {β : Type*} [LinearOrder β] {final : ν → Bool} {rank : ν → β}

/-- A final value is never overwritten, another one only by a value of no higher rank. -/
def byRank (final : ν → Bool) (rank : ν → β) (old v : ν) : Bool :=
  !final old && decide (rank v ≤ rank old)

/-- What is final stays. -/
theorem settle_of_final {old : ν} (h : final old = true) (v : ν) :
    (settle (byRank final rank) (some old) v).1 = some old := by
  simp [settle, byRank, h]

/-- A value of at most the rank takes the place. -/
theorem settle_written {old v : ν} (h : final old = false) (hv : rank v ≤ rank old) :
    (settle (byRank final rank) (some old) v).1 = some v := by
  simp [settle, byRank, h, hv]

/-- A value of a higher rank does not. -/
theorem settle_kept {old v : ν} (hv : ¬rank v ≤ rank old) :
    (settle (byRank final rank) (some old) v).1 = some old := by
  simp [settle, byRank, hv]

/-- What is final stays, whatever comes. -/
theorem settleAll_of_final {old : ν} (h : final old = true) (vs : List ν) :
    (settleAll (byRank final rank) (some old) vs).1 = some old := by
  induction vs with
  | nil => rfl
  | cons v vs ih =>
    show (settleAll _ (settle _ (some old) v).1 vs).1 = some old
    rw [settle_of_final h v]
    exact ih

/-- Values only leave something behind that is not final when all of them were not, and then
    the rank has come down. -/
theorem settleAll_open {s t : ν} {vs : List ν} (ht : final t = false)
    (h : (settleAll (byRank final rank) (some s) vs).1 = some t) :
    final s = false ∧ rank t ≤ rank s := by
  induction vs generalizing s with
  | nil =>
    cases h
    exact ⟨ht, le_rfl⟩
  | cons v vs ih =>
    -- a final value would have stayed
    have hs : final s = false := by
      by_contra hs
      rw [settleAll_of_final (eq_true_of_ne_false hs)] at h
      cases h
      exact hs ht
    refine ⟨hs, ?_⟩
    change (settleAll _ (settle _ (some s) v).1 vs).1 = some t at h
    -- each value is written, at a rank not above, or passed over
    by_cases hv : rank v ≤ rank s
    · rw [show (settle (byRank final rank) (some s) v).1 = some v by
        simp [settle, byRank, hs, hv]] at h
      exact (ih h).2.trans hv
    · rw [show (settle (byRank final rank) (some s) v).1 = some s by
        simp [settle, byRank, hv]] at h
      exact (ih h).2

/-- The second time round, started with a value `u` of the final rank, the values lead to the
    same end, unless none of them was written the first time. -/
theorem settleAll_again {s t u : ν} {vs : List ν} (ht : final t = false) (hu : final u = false)
    (hrank : rank u = rank t) (h : (settleAll (byRank final rank) (some s) vs).1 = some t) :
    (settleAll (byRank final rank) (some u) vs).1 = some t ∨
      ((settleAll (byRank final rank) (some u) vs).1 = some u ∧ s = t) := by
  induction vs generalizing s u with
  | nil =>
    cases h
    exact .inr ⟨rfl, rfl⟩
  | cons v vs ih =>
    obtain ⟨hs, hts⟩ := settleAll_open ht h
    change (settleAll _ (settle _ (some s) v).1 vs).1 = some t at h
    show (settleAll _ (settle _ (some u) v).1 vs).1 = some t ∨
      ((settleAll _ (settle _ (some u) v).1 vs).1 = some u ∧ s = t)
    by_cases hv : rank v ≤ rank s
    · -- written the first time
      rw [settle_written hs hv] at h
      by_cases hv' : rank v ≤ rank u
      · rw [settle_written hu hv']
        exact .inl h
      · -- not written again: something of a lower rank must still come
        rw [settle_kept hv']
        rcases ih hu hrank h with hsame | ⟨-, rfl⟩
        · exact .inl hsame
        · exact absurd hrank.symm.le hv'
    · -- not written the first time, so neither the second time
      rw [settle_kept hv] at h
      have hv' : ¬rank v ≤ rank u := fun hle => hv ((hle.trans hrank.le).trans hts)
      rw [settle_kept hv']
      exact ih hu hrank h

/-- **Again, under one key**: what the values left stays when they come again. -/
theorem settleAll_idem (s : Option ν) (vs : List ν) :
    (settleAll (byRank final rank) (settleAll (byRank final rank) s vs).1 vs).1 =
      (settleAll (byRank final rank) s vs).1 := by
  have key : ∀ (s t : ν) (vs : List ν),
      (settleAll (byRank final rank) (some s) vs).1 = some t →
      (settleAll (byRank final rank) (some t) vs).1 = some t := by
    intro s t vs h
    by_cases ht : final t = true
    · exact settleAll_of_final ht vs
    · have ht' := eq_false_of_ne_true ht
      rcases settleAll_again ht' ht' rfl h with hsame | ⟨hsame, -⟩
      · exact hsame
      · exact hsame
  have hsome : ∀ (s : ν) (vs : List ν),
      ∃ t, (settleAll (byRank final rank) (some s) vs).1 = some t := by
    intro s vs
    induction vs generalizing s with
    | nil => exact ⟨s, rfl⟩
    | cons v vs ih =>
      show ∃ t, (settleAll _ (settle _ (some s) v).1 vs).1 = some t
      by_cases hv : byRank final rank s v = true
      · rw [show (settle (byRank final rank) (some s) v).1 = some v by simp [settle, hv]]
        exact ih v
      · rw [show (settle (byRank final rank) (some s) v).1 = some s by simp [settle, hv]]
        exact ih s
  cases s with
  | some s =>
    obtain ⟨t, ht⟩ := hsome s vs
    rw [ht]
    exact key s t vs ht
  | none =>
    cases vs with
    | nil => rfl
    | cons v vs =>
      -- the first value is inserted, and meets itself or its successor the second time
      obtain ⟨t, ht⟩ := hsome v vs
      show (settleAll _ (settleAll _ (some v) vs).1 (v :: vs)).1 = (settleAll _ (some v) vs).1
      rw [ht]
      refine key v t (v :: vs) ?_
      show (settleAll _ (settle _ (some v) v).1 vs).1 = some t
      have hself : (settle (byRank final rank) (some v) v).1 = some v := by
        simp only [settle]
        split <;> rfl
      rw [hself]
      exact ht

/-- **Again, over a table.** Rows that come a second time change nothing. -/
theorem upserts_idem (final : ν → Bool) (rank : ν → β) (T : κ → Option ν) (l : List (κ × ν)) :
    (upserts (byRank final rank) (upserts (byRank final rank) T l).1 l).1 =
      (upserts (byRank final rank) T l).1 := by
  funext k
  rw [upserts_at, upserts_at, settleAll_idem]

/-! ### Which table ends up final -/

/-- Some value is final, and of no higher rank than any value before it. -/
def FinalInTurn (final : ν → Bool) (rank : ν → β) (vs : List ν) : Prop :=
  ∃ pre v post, vs = pre ++ v :: post ∧ final v = true ∧ ∀ w ∈ pre, rank v ≤ rank w

/-- When the first value of some is final in its turn. -/
theorem finalInTurn_cons {s : ν} {vs : List ν} : FinalInTurn final rank (s :: vs) ↔
    final s = true ∨ ∃ pre v post, vs = pre ++ v :: post ∧ final v = true ∧
      rank v ≤ rank s ∧ ∀ w ∈ pre, rank v ≤ rank w := by
  constructor
  · rintro ⟨pre, v, post, heq, hv, hpre⟩
    cases pre with
    | nil =>
      cases heq
      exact .inl hv
    | cons w pre =>
      obtain ⟨rfl, rfl⟩ := List.cons.inj heq
      exact .inr ⟨pre, v, post, rfl, hv, hpre _ (by simp), fun w hw =>
        hpre w (List.mem_cons_of_mem _ hw)⟩
  · rintro (hs | ⟨pre, v, post, rfl, hv, hle, hpre⟩)
    · exact ⟨[], s, vs, rfl, hs, by simp⟩
    · refine ⟨s :: pre, v, post, rfl, hv, ?_⟩
      intro w hw
      rcases List.mem_cons.mp hw with rfl | hw
      · exact hle
      · exact hpre w hw

/-- From a value on, what is left is final just when the turn of a final one has come. -/
theorem settleAll_final_iff (s : ν) (vs : List ν) :
    (∃ t, (settleAll (byRank final rank) (some s) vs).1 = some t ∧ final t = true) ↔
      FinalInTurn final rank (s :: vs) := by
  induction vs generalizing s with
  | nil => simp [settleAll, finalInTurn_cons]
  | cons v vs ih =>
    by_cases hs : final s = true
    · rw [settleAll_of_final hs]
      simp [finalInTurn_cons, hs]
    · have hs' := eq_false_of_ne_true hs
      show (∃ t, (settleAll _ (settle _ (some s) v).1 vs).1 = some t ∧ _) ↔ _
      by_cases hv : rank v ≤ rank s
      · -- `v` is written, and every rank that is low enough for it was so for `s`
        rw [settle_written hs' hv, ih v]
        constructor
        · rintro ⟨pre, w, post, heq, hw, hpre⟩
          refine ⟨s :: pre, w, post, by rw [heq, List.cons_append], hw, ?_⟩
          intro x hx
          rcases List.mem_cons.mp hx with rfl | hx
          · cases pre with
            | nil =>
              cases heq
              exact hv
            | cons y pre =>
              have hy : v = y := (List.cons.inj heq).1
              exact (hpre y (by simp)).trans (hy ▸ hv)
          · exact hpre x hx
        · intro h
          rcases finalInTurn_cons.mp h with h | ⟨pre, w, post, heq, hw, -, hpre⟩
          · exact absurd h hs
          · exact ⟨pre, w, post, heq, hw, hpre⟩
      · -- `v` is not written, and nothing that it holds back could pass `s`
        rw [settle_kept hv, ih s, finalInTurn_cons, finalInTurn_cons]
        refine or_congr_right ⟨?_, ?_⟩
        · rintro ⟨pre, w, post, rfl, hw, hle, hpre⟩
          refine ⟨v :: pre, w, post, rfl, hw, hle, ?_⟩
          intro x hx
          rcases List.mem_cons.mp hx with rfl | hx
          · exact hle.trans (not_le.mp hv).le
          · exact hpre x hx
        · rintro ⟨pre, w, post, heq, hw, hle, hpre⟩
          cases pre with
          | nil =>
            cases heq
            exact absurd hle hv
          | cons y pre =>
            exact ⟨pre, w, post, (List.cons.inj heq).2, hw, hle, fun x hx =>
              hpre x (List.mem_cons_of_mem _ hx)⟩

/-- **What is left under a key is final** just when some value was final and of no higher
    rank than the values before it, the one stored at the start among them. -/
theorem settleAll_final (s : Option ν) (vs : List ν) :
    (∃ t, (settleAll (byRank final rank) s vs).1 = some t ∧ final t = true) ↔
      FinalInTurn final rank (s.toList ++ vs) := by
  cases s with
  | some s => exact settleAll_final_iff s vs
  | none =>
    cases vs with
    | nil => simp [settleAll, FinalInTurn]
    | cons v vs => exact settleAll_final_iff v vs

end Ranked

end Upsert

end Lib
