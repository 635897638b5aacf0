import Mathlib.Data.List.Infix

namespace Lib

/-!
# Mailboxes that throw away their oldest item

A queue with a bound: where it is full, the oldest item makes room for the new one, and is
counted.  A reader that is too slow loses items, but never the newest ones, and it never sees
an item twice or out of order.

* `Mailbox.push` — an item comes in;
* `Mailbox.Account` — what came in, against what was read, what waits and what was thrown away;
* `Account.push`, `Account.take` — the account is kept.
-/

namespace Mailbox

variable {α : Type*}

/-- The queue has its full length; a bound that is not positive is none. -/
def full (bound : ℤ) (queue : List α) : Bool := decide (0 < bound) && decide (bound ≤ queue.length)

/-- A new item at the end, and the number of items thrown away for it. -/
def push (bound : ℤ) (queue : List α) (x : α) : List α × ℕ :=
  if full bound queue then (queue.drop 1 ++ [x], 1) else (queue ++ [x], 0)

/-- A mailbox that is empty takes what comes, and drops nothing. -/
theorem push_of_nil (bound : ℤ) (x : α) : push bound [] x = ([x], 0) := by
  have hfull : ¬full bound ([] : List α) = true := by
    simp only [full, Bool.and_eq_true, decide_eq_true_eq, List.length_nil]
    omega
  rw [push, if_neg hfull]
  rfl

/-- The new item is always in. -/
theorem push_ne_nil (bound : ℤ) (queue : List α) (x : α) : (push bound queue x).1 ≠ [] := by
  unfold push
  split <;> simp

/-- Nothing else comes in. -/
theorem mem_of_mem_push {bound : ℤ} {queue : List α} {x y : α} (h : y ∈ (push bound queue x).1) :
    y ∈ queue ∨ y = x := by
  unfold push at h
  split at h
  · rw [List.mem_append, List.mem_singleton] at h
    exact h.imp_left List.mem_of_mem_drop
  · rwa [List.mem_append, List.mem_singleton] at h

/-- The queue `queue` is what is left of `sent`, after `taken` was read and `lost` items were
    thrown away. -/
structure Account (sent taken queue : List α) (lost : ℕ) : Prop where
  newest : queue <:+ sent
  order : (taken ++ queue).Sublist sent
  total : sent.length = taken.length + queue.length + lost

namespace Account

variable {sent taken queue : List α} {lost : ℕ}

/-- An empty account. -/
theorem nil : Account ([] : List α) [] [] 0 :=
  ⟨List.suffix_rfl, List.Sublist.refl _, rfl⟩

/-- Nothing was thrown away: what was read is the beginning of what was sent, and the rest
    waits. -/
theorem eq_append (h : Account sent taken queue 0) : sent = taken ++ queue :=
  (h.order.eq_of_length (by rw [h.total, List.length_append, Nat.add_zero])).symm

/-- **A new item.** -/
theorem push (h : Account sent taken queue lost) (bound : ℤ) (x : α) :
    Account (sent ++ [x]) taken (Mailbox.push bound queue x).1
      (lost + (Mailbox.push bound queue x).2) := by
  have htotal := h.total
  -- the oldest is lost for the new one, or there is room
  by_cases hfull : full bound queue = true
  · obtain ⟨y, rest, rfl⟩ : ∃ y rest, queue = y :: rest := by
      cases queue with
      | nil =>
        simp only [full, Bool.and_eq_true, decide_eq_true_eq, List.length_nil] at hfull
        omega
      | cons y rest => exact ⟨y, rest, rfl⟩
    have hpush : Mailbox.push bound (y :: rest) x = (rest ++ [x], 1) := by
      rw [Mailbox.push, if_pos hfull]
      rfl
    rw [hpush]
    refine ⟨?_, ?_, ?_⟩
    -- the queue still holds the newest that were sent
    · exact (List.suffix_append_inj_of_length_eq rfl).mpr
        ⟨(List.suffix_cons y rest).trans h.newest, rfl⟩
    · rw [← List.append_assoc]
      have hrest : (taken ++ rest).Sublist (taken ++ y :: rest) :=
        (List.Sublist.refl taken).append (List.sublist_cons_self y rest)
      exact (hrest.trans h.order).append (List.Sublist.refl [x])
    · simp only [List.length_append, List.length_cons, List.length_nil] at htotal ⊢
      omega
  · have hpush : Mailbox.push bound queue x = (queue ++ [x], 0) := by
      rw [Mailbox.push, if_neg hfull]
    rw [hpush]
    refine ⟨?_, ?_, ?_⟩
    · exact (List.suffix_append_inj_of_length_eq rfl).mpr ⟨h.newest, rfl⟩
    · rw [← List.append_assoc]
      exact h.order.append (List.Sublist.refl [x])
    · simp only [List.length_append, List.length_cons, List.length_nil] at htotal ⊢
      omega

/-- **The oldest item is read.** -/
theorem take {x : α} (h : Account sent taken (x :: queue) lost) :
    Account sent (taken ++ [x]) queue lost := by
  have htotal := h.total
  refine ⟨(List.suffix_cons x queue).trans h.newest, ?_, ?_⟩
  · rw [List.append_assoc]
    exact h.order
  · simp only [List.length_append, List.length_cons, List.length_nil] at htotal ⊢
    omega

end Account

end Mailbox

end Lib
