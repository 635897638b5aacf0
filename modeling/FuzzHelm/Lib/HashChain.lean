import Mathlib.Data.List.Induction
import Mathlib.Data.Set.Insert

namespace Lib

/-!
# Hash chains

Blocks that each carry the hash of the block before.  The hash of a block is computed from
that hash and from the body of the block by a function `link`, so the last hash of a chain
commits to all of it.

* `Chained` — every block points at the one before it and carries its own hash;
* `Binding` — no two of some blocks collide, and none of them hashes to the genesis value;
* `Chained.eq_of_tip` — chains with the same last hash are equal;
* `Chained.ne_link_of_edit` — a block whose body is edited no longer carries its own hash.
-/

universe u v

/-- A block: the hash before it, what it holds, and its own hash. -/
@[ext] structure Block (β : Type u) (η : Type v) where
  prev : η
  body : β
  hash : η

variable {β : Type u} {η : Type v} (link : η → β → η)

/-- A chain that starts after the hash `g`. -/
def Chained : η → List (Block β η) → Prop
  | _, [] => True
  | g, b :: bs => b.prev = g ∧ b.hash = link g b.body ∧ Chained b.hash bs

/-- The hash after a list of blocks. -/
def tip : η → List (Block β η) → η
  | g, [] => g
  | _, b :: bs => tip b.hash bs

/-- A chain without blocks ends at its start. -/
@[simp] theorem tip_nil (g : η) : tip g ([] : List (Block β η)) = g := rfl

/-- A chain ends at its last block. -/
@[simp] theorem tip_concat (g : η) (bs : List (Block β η)) (b : Block β η) :
    tip g (bs ++ [b]) = b.hash := by
  induction bs generalizing g with
  | nil => rfl
  | cons c cs ih => exact ih c.hash

/-- A block continues a chain when it points at the last hash and carries its own. -/
theorem chained_concat {g : η} {bs : List (Block β η)} {b : Block β η} :
    Chained link g (bs ++ [b]) ↔
      Chained link g bs ∧ b.prev = tip g bs ∧ b.hash = link b.prev b.body := by
  induction bs generalizing g with
  | nil =>
    simp only [List.nil_append, Chained, tip_nil, and_true, true_and]
    constructor
    · rintro ⟨hp, hh⟩
      exact ⟨hp, by rw [hh, hp]⟩
    · rintro ⟨hp, hh⟩
      exact ⟨hp, by rw [hh, hp]⟩
  | cons c cs ih =>
    rw [List.cons_append, Chained, Chained, ih]
    show _ ∧ _ ∧ Chained link c.hash cs ∧ b.prev = tip c.hash cs ∧ _ ↔
      (_ ∧ _ ∧ Chained link c.hash cs) ∧ b.prev = tip c.hash cs ∧ _
    simp only [and_assoc]

/-- A chain that is cut off is a chain. -/
theorem Chained.of_append {g : η} {bs cs : List (Block β η)}
    (h : Chained link g (bs ++ cs)) : Chained link g bs := by
  induction bs generalizing g with
  | nil => trivial
  | cons b bs ih => exact ⟨h.1, h.2.1, ih h.2.2⟩

/-- No two of the blocks of `S` collide, and none of them hashes to `g`. -/
structure Binding (g : η) (S : Set (Block β η)) : Prop where
  inj : ∀ b ∈ S, ∀ c ∈ S, link b.prev b.body = link c.prev c.body →
    b.prev = c.prev ∧ b.body = c.body
  fresh : ∀ b ∈ S, link b.prev b.body ≠ g

variable {link} {g : η} {bs cs : List (Block β η)} {S : Set (Block β η)}

/-- Fewer blocks bind the more. -/
theorem Binding.mono {T : Set (Block β η)} (h : Binding link g T) (hST : S ⊆ T) :
    Binding link g S where
  inj := fun b hb c hc => h.inj b (hST hb) c (hST hc)
  fresh := fun b hb => h.fresh b (hST hb)

/-- **Commitment.** Two chains after `g` with the same last hash are equal.  By induction from
    the last block backwards: equal hashes give equal bodies and equal hashes before them. -/
theorem Chained.eq_of_tip (hb : Chained link g bs) (hc : Chained link g cs)
    (hS : Binding link g {b | b ∈ bs ∨ b ∈ cs}) (htip : tip g bs = tip g cs) : bs = cs := by
  -- from the tip down: equal tips give equal last blocks, whose previous hashes are tips again
  induction bs using List.reverseRecOn generalizing cs with
  | nil =>
    rcases List.eq_nil_or_concat cs with rfl | ⟨cs, c, rfl⟩
    · rfl
    · rw [List.concat_eq_append] at hc hS htip
      obtain ⟨-, -, hhash⟩ := (chained_concat link).mp hc
      rw [tip_nil, tip_concat, hhash] at htip
      exact absurd htip.symm (hS.fresh c (by simp))
  | append_singleton bs b ih =>
    obtain ⟨hb', hbprev, hbhash⟩ := (chained_concat link).mp hb
    rcases List.eq_nil_or_concat cs with rfl | ⟨cs, c, rfl⟩
    · rw [tip_nil, tip_concat, hbhash] at htip
      exact absurd htip (hS.fresh b (by simp))
    · rw [List.concat_eq_append] at hc hS htip ⊢
      obtain ⟨hc', hcprev, hchash⟩ := (chained_concat link).mp hc
      rw [tip_concat, tip_concat] at htip
      -- the two tips hash the same pair
      have hlink : link b.prev b.body = link c.prev c.body := by
        rw [← hbhash, ← hchash, htip]
      obtain ⟨hprev, hbody⟩ := hS.inj b (by simp) c (by simp) hlink
      have hbc : b = c := Block.ext hprev hbody htip
      have hbs : bs = cs := by
        apply ih hb' hc' (hS.mono _)
        · rw [← hbprev, ← hcprev, hprev]
        · intro x hx
          rcases hx with hx | hx
          · exact .inl (by simp [hx])
          · exact .inr (by simp [hx])
      rw [hbs, hbc]

/-- **Tampering.** A block of a chain whose body is changed, its hashes kept, no longer
    carries its own hash. -/
theorem Chained.ne_link_of_edit {b : Block β η} {x : β} (h : Chained link g (bs ++ b :: cs))
    (hS : Binding link g {b, { b with body := x }}) (hx : x ≠ b.body) :
    b.hash ≠ link (tip g bs) x := by
  have hpre : Chained link g (bs ++ [b]) := by
    have happ : Chained link g ((bs ++ [b]) ++ cs) := by
      rw [List.append_assoc]
      exact h
    exact happ.of_append
  obtain ⟨-, hprev, hhash⟩ := (chained_concat link).mp hpre
  rw [hhash, ← hprev]
  intro hlink
  exact hx (hS.inj b (by simp) { b with body := x } (by simp) hlink).2.symm

end Lib
