import FuzzHelm.Lib.Dict
import FuzzHelm.Lib.Windows

namespace FuzzHelm

open Lib

/-!
# Cutting a batch into statements

A statement may not touch one row twice, and it takes a bounded number of rows.  A batch is
therefore cut into rounds of distinct keys, and a round into chunks.

* `splitUniqueRounds` — round `i` holds the `i`-th occurrence of every key;
* `splitUniqueRounds_nodup` / `splitUniqueRounds_order` — no key twice in a round, and the
  order of the items of one key is kept;
* `chunks` / `chunks_flatten` — the slices of a list put together are the list.
-/

universe u v

/-! ### Rounds -/

section Rounds

variable {α : Type u} {κ : Type v} [DecidableEq κ]

/-- The occurrences of each key so far and the rounds. -/
structure Rounds (α : Type u) (κ : Type v) where
  seen : Dict κ ℕ
  rounds : List (List α)

variable (key : α → κ)

/-- How often a key has been seen. -/
def Rounds.seenAt (s : Rounds α κ) (k : κ) : ℕ := (s.seen.get? k).getD 0

/-- One turn of the loop.  The index is at most the number of rounds (`RoundsInv.bound`), so
    the round that it names exists once a missing one has been appended. -/
def Rounds.add (s : Rounds α κ) (it : α) : Rounds α κ :=
  let i := s.seenAt (key it)
  let rounds := if i = s.rounds.length then s.rounds ++ [[]] else s.rounds
  ⟨s.seen.insert (key it) (i + 1), rounds.modify i (· ++ [it])⟩

/-- `split_unique_rounds`: each item goes into the first round that has no item of its key. -/
def splitUniqueRounds (items : List α) : List (List α) :=
  (items.foldl (Rounds.add key) ⟨∅, []⟩).rounds

/-- **Rounds after the items `p`**: a key that was seen `n` times is in no round from `n` on,
    no round holds a key twice, and the items of one key stand in their order. -/
structure RoundsInv (p : List α) (s : Rounds α κ) : Prop where
  bound : ∀ k, s.seenAt k ≤ s.rounds.length
  later : ∀ k j r, s.seenAt k ≤ j → s.rounds[j]? = some r → ∀ x ∈ r, key x ≠ k
  nodup : ∀ r ∈ s.rounds, (r.map key).Nodup
  order : ∀ k, s.rounds.flatten.filter (fun x => decide (key x = k)) =
    p.filter (fun x => decide (key x = k))

variable {key} {p : List α} {s : Rounds α κ}

/-- What is put at the end of one round comes after everything before it, if no later round
    holds anything of its kind. -/
theorem filter_flatten_modify (q : α → Bool) (it : α) : ∀ (rounds : List (List α)) (i : ℕ),
    i < rounds.length →
    (∀ j r, i < j → rounds[j]? = some r → ∀ x ∈ r, q it = true → q x = false) →
    (rounds.modify i (· ++ [it])).flatten.filter q =
      rounds.flatten.filter q ++ if q it then [it] else [] := by
  intro rounds
  -- by induction on the rounds and on the index of the modified one
  induction rounds with
  | nil => intro i hi; cases hi
  | cons r rounds ih =>
    intro i hi hlater
    cases i with
    | zero =>
      by_cases hq : q it = true
      -- the later rounds hold nothing of this key, so appending here keeps the order
      · have hnone : rounds.flatten.filter q = [] := by
          rw [List.filter_eq_nil_iff]
          intro x hx
          obtain ⟨r', hr', hx⟩ := List.mem_flatten.mp hx
          obtain ⟨j, hj⟩ := List.mem_iff_getElem?.mp hr'
          have := hlater (j + 1) r' (by omega) (by simpa using hj) x hx hq
          simp [this]
        simp [hnone, hq]
      · simp [hq]
    | succ i =>
      have hrest := ih i (by simpa using hi) fun j r' hij hj =>
        hlater (j + 1) r' (by omega) (by simpa using hj)
      simp [hrest]

/-- A round for the next occurrence changes nothing yet. -/
theorem RoundsInv.pad (h : RoundsInv key p s) (n : ℕ) :
    RoundsInv key p ⟨s.seen, if n = s.rounds.length then s.rounds ++ [[]] else s.rounds⟩ := by
  split
  · refine ⟨fun k => ?_, fun k j r hkj hj x hx => ?_, fun r hr => ?_, fun k => ?_⟩
    · have := h.bound k
      simp only [Rounds.seenAt, List.length_append] at this ⊢
      omega
    · rw [List.getElem?_append] at hj
      split at hj
      · exact h.later k j r hkj hj x hx
      · have hr : r ∈ [[]] := List.mem_of_getElem? hj
        rw [List.mem_singleton] at hr
        subst hr
        cases hx
    · rcases List.mem_append.mp hr with hr | hr
      · exact h.nodup r hr
      · rw [List.mem_singleton] at hr
        subst hr
        exact List.nodup_nil
    · simpa using h.order k
  · exact ⟨h.bound, h.later, h.nodup, h.order⟩

/-- The next occurrence of a key goes to the first round that does not hold it. -/
theorem RoundsInv.place (h : RoundsInv key p s) (it : α)
    (hi : s.seenAt (key it) < s.rounds.length) :
    RoundsInv key (p ++ [it]) ⟨s.seen.insert (key it) (s.seenAt (key it) + 1),
      s.rounds.modify (s.seenAt (key it)) (· ++ [it])⟩ := by
  -- only the occurrence count of this key changes
  have hseen : ∀ k, (⟨s.seen.insert (key it) (s.seenAt (key it) + 1),
      s.rounds.modify (s.seenAt (key it)) (· ++ [it])⟩ : Rounds α κ).seenAt k =
      if key it = k then s.seenAt (key it) + 1 else s.seenAt k := by
    intro k
    simp only [Rounds.seenAt, Dict.get?_insert]
    split <;> rfl
  constructor
  case bound =>
    intro k
    rw [hseen]
    simp only [List.length_modify]
    split
    · exact hi
    · exact h.bound k
  case later =>
    intro k j r hkj hj x hx
    rw [hseen] at hkj
    simp only [List.getElem?_modify] at hj
    obtain ⟨r₀, hr₀, hr⟩ := Option.map_eq_some_iff.mp hj
    split at hkj
    · -- beyond the round of this occurrence nothing has changed
      rename_i hk
      subst hk
      have hne : ¬s.seenAt (key it) = j := by omega
      simp only [if_neg hne] at hr
      subst hr
      exact h.later _ j r₀ (by omega) hr₀ x hx
    -- at the round itself or before it the new item is the only addition
    · rename_i hk
      have hold := h.later k j r₀ hkj hr₀
      split at hr
      · subst hr
        rcases List.mem_append.mp hx with hx | hx
        · exact hold x hx
        · rw [List.mem_singleton] at hx
          subst hx
          exact hk
      · subst hr
        exact hold x hx
  case nodup =>
    intro r hr
    obtain ⟨j, hj⟩ := List.mem_iff_getElem?.mp hr
    simp only [List.getElem?_modify] at hj
    obtain ⟨r₀, hr₀, hr⟩ := Option.map_eq_some_iff.mp hj
    have hold := h.nodup r₀ (List.mem_of_getElem? hr₀)
    split at hr
    · -- the round did not hold the key before
      rename_i hij
      subst hr
      have hnot := h.later (key it) j r₀ (by omega) hr₀
      rw [List.map_append, List.nodup_append]
      refine ⟨hold, by simp, ?_⟩
      intro a ha b hb hab
      obtain ⟨x, hx, rfl⟩ := List.mem_map.mp ha
      simp only [List.map_cons, List.map_nil, List.mem_singleton] at hb
      exact hnot x hx (hab.trans hb)
    · subst hr
      exact hold
  case order =>
    intro k
    show ((s.rounds.modify _ _).flatten.filter _) = _
    rw [filter_flatten_modify _ it s.rounds _ hi, h.order k, List.filter_append]
    · simp [List.filter_cons]
    · intro j r hij hj x hx hit
      have hne := h.later (key it) j r hij.le hj x hx
      have hk : key it = k := of_decide_eq_true hit
      simpa [← hk] using hne

/-- **Step lemma**: one item more goes into the first round without its key. -/
theorem RoundsInv.add (h : RoundsInv key p s) (it : α) :
    RoundsInv key (p ++ [it]) (s.add key it) := by
  refine (h.pad (s.seenAt (key it))).place it ?_
  have hbound := h.bound (key it)
  show s.seenAt (key it) < (if _ then _ else _ : List (List α)).length
  split
  · rename_i heq
    rw [List.length_append, ← heq]
    simp
  · omega

/-- **Run lemma**: all items are in the rounds. -/
theorem splitUniqueRounds_inv (items : List α) :
    RoundsInv key items (items.foldl (Rounds.add key) ⟨∅, []⟩) := by
  have step : ∀ (rest p : List α) (s : Rounds α κ), RoundsInv key p s →
      RoundsInv key (p ++ rest) (rest.foldl (Rounds.add key) s) := by
    intro rest
    induction rest with
    | nil => intro p s h; simpa using h
    | cons it rest ih => intro p s h; simpa using ih (p ++ [it]) _ (h.add it)
  refine step items [] ⟨∅, []⟩ ⟨fun k => le_rfl, fun k j r _ hj => ?_, fun r hr => ?_, fun k => rfl⟩
  · simp at hj
  · cases hr

/-- **No key twice in a round.** -/
theorem splitUniqueRounds_nodup {items r : List α} (h : r ∈ splitUniqueRounds key items) :
    (r.map key).Nodup :=
  (splitUniqueRounds_inv items).nodup r h

/-- **The rounds keep the order** of the items of one key. -/
theorem splitUniqueRounds_order (items : List α) (k : κ) :
    (splitUniqueRounds key items).flatten.filter (fun x => decide (key x = k)) =
      items.filter (fun x => decide (key x = k)) :=
  (splitUniqueRounds_inv items).order k

end Rounds

/-! ### Chunks -/

/-- `chunks`: the slices at the multiples of `size`. -/
def chunks {α : Type u} (items : List α) (size : ℕ) : List (List α) :=
  (List.range ((items.length + size - 1) / size)).map fun j => (items.drop (j * size)).take size

/-- **The chunks put together are the list.** -/
theorem chunks_flatten {α : Type u} (items : List α) {size : ℕ} (h : 0 < size) :
    (chunks items size).flatten = items := by
  rw [chunks, ← List.flatMap_def, flatMap_slices]
  refine List.take_of_length_le ?_
  have hdiv := Nat.lt_div_mul_add (a := items.length + size - 1) h
  omega

end FuzzHelm
