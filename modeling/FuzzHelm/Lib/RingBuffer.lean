import FuzzHelm.Lib.Windows
import Mathlib.Data.List.Perm.Basic

namespace Lib

/-!
# Ring buffers

A buffer of a fixed size in which a cursor goes round: each new element takes the place of the
oldest one.  Statistics over a moving window keep their window in one.

* `RingBuffer.push` — an element comes in;
* `RingBuffer.ordered` — the cells from the oldest to the newest, which `push` shifts by one
  (`ordered_push`);
* `RingBuffer.Holds` — the buffer after a sequence of elements: its cells are the last ones of
  the sequence, behind the padding it began with;
* `Holds.ordered_eq` — a full buffer holds the last elements alone; `Holds.getElem?_back` — and
  any buffer what it has counted, from the newest back.
-/

/-! ### The buffer -/

/-- A buffer of fixed length that is written round and round. -/
structure RingBuffer (α : Type*) where
  cells : List α
  idx : ℕ
  count : ℕ
  idx_lt : idx < cells.length
  count_le : count ≤ cells.length

namespace RingBuffer

variable {α : Type*}

/-- An empty buffer, filled with padding. -/
def new (n : ℕ) (hn : 0 < n) (pad : α) : RingBuffer α where
  cells := List.replicate n pad
  idx := 0
  count := 0
  idx_lt := by simpa using hn
  count_le := Nat.zero_le _

variable (b : RingBuffer α)

/-- Whether every cell has been written. -/
def full : Bool := b.count = b.cells.length

/-- The cell under the cursor, which the next element overwrites. -/
def oldest : α := b.cells.get ⟨b.idx, b.idx_lt⟩

/-- The next cell is overwritten. -/
def push (x : α) : RingBuffer α where
  cells := b.cells.set b.idx x
  idx := if b.idx + 1 < b.cells.length then b.idx + 1 else 0
  count := if b.count < b.cells.length then b.count + 1 else b.count
  idx_lt := by
    have := b.idx_lt
    rw [List.length_set]
    split_ifs <;> omega
  count_le := by
    have := b.count_le
    rw [List.length_set]
    split_ifs <;> omega

/-- The cells from the oldest to the newest. -/
def ordered : List α := b.cells.drop b.idx ++ b.cells.take b.idx

/-- Writing keeps the length. -/
@[simp] theorem length_cells_push (x : α) : (b.push x).cells.length = b.cells.length :=
  List.length_set

/-- The cells in order are as many. -/
@[simp] theorem length_ordered : b.ordered.length = b.cells.length := by
  have := b.idx_lt
  simp only [ordered, List.length_append, List.length_drop, List.length_take]
  omega

/-- The cells in order are the cells. -/
theorem perm_ordered : b.cells.Perm b.ordered := by
  conv_lhs => rw [← List.take_append_drop b.idx b.cells]
  exact List.perm_append_comm

/-- The oldest cell comes first. -/
theorem ordered_eq_cons : b.ordered = b.oldest :: b.ordered.tail := by
  have hcons : b.cells.drop b.idx = b.oldest :: b.cells.drop (b.idx + 1) :=
    List.drop_eq_getElem_cons b.idx_lt
  rw [ordered, hcons, List.cons_append, List.tail_cons]

/-- **One push shifts the cells**: the oldest goes and the new one is last. -/
theorem ordered_push (x : α) : (b.push x).ordered = b.ordered.tail ++ [x] := by
  have hlt := b.idx_lt
  have htail : b.ordered.tail = b.cells.drop (b.idx + 1) ++ b.cells.take b.idx := by
    have hcons : b.cells.drop b.idx = b.oldest :: b.cells.drop (b.idx + 1) :=
      List.drop_eq_getElem_cons hlt
    rw [ordered, hcons, List.cons_append, List.tail_cons]
  have htake : (b.cells.set b.idx x).take (b.idx + 1) = b.cells.take b.idx ++ [x] := by
    rw [List.take_succ_eq_append_getElem (by simpa using hlt), List.getElem_set_self,
      List.take_set_of_le (Nat.le_refl _)]
  show (b.cells.set b.idx x).drop (if b.idx + 1 < b.cells.length then b.idx + 1 else 0) ++
    (b.cells.set b.idx x).take (if b.idx + 1 < b.cells.length then b.idx + 1 else 0) = _
  rw [htail]
  by_cases hwrap : b.idx + 1 < b.cells.length
  · rw [if_pos hwrap, htake, List.drop_set_of_lt (by omega), List.append_assoc]
  · -- the cursor stood on the last cell and goes back to the first
    have hall : (b.cells.set b.idx x).take (b.idx + 1) = b.cells.set b.idx x :=
      List.take_of_length_le (by rw [List.length_set]; omega)
    rw [if_neg hwrap, List.drop_zero, List.take_zero, List.append_nil,
      List.drop_eq_nil_of_le (by omega), List.nil_append, ← hall, htake]

/-- The cells counted back from the newest, which lies before the cursor. -/
theorem getElem?_ordered_back {lag : ℕ} (h : lag < b.cells.length) :
    b.ordered[b.cells.length - 1 - lag]? =
      b.cells[if lag < b.idx then b.idx - 1 - lag else b.idx + b.cells.length - 1 - lag]? := by
  have hlt := b.idx_lt
  by_cases hlag : lag < b.idx
  · rw [if_pos hlag, ordered, List.getElem?_append_right (by rw [List.length_drop]; omega),
      List.length_drop, List.getElem?_take_of_lt (by omega)]
    congr 1
    omega
  · rw [if_neg hlag, ordered, List.getElem?_append_left (by rw [List.length_drop]; omega),
      List.getElem?_drop]
    congr 1
    omega

/-! ### What a buffer holds -/

/-- The buffer of size `n`, filled with `pad` at the start, after the elements `xs`. -/
structure Holds (n : ℕ) (pad : α) (b : RingBuffer α) (xs : List α) : Prop where
  size : b.cells.length = n
  count : b.count = min xs.length n
  padded : b.ordered = (List.replicate n pad ++ xs).rtake n

variable {n : ℕ} {pad : α} {b : RingBuffer α} {xs : List α}

/-- A new buffer holds nothing. -/
theorem Holds.new (hn : 0 < n) : Holds n pad (new n hn pad) [] where
  size := List.length_replicate
  count := (Nat.zero_min n).symm
  padded := by
    rw [List.append_nil, rtake_of_length_le (by simp)]
    show (List.replicate n pad).drop 0 ++ (List.replicate n pad).take 0 = _
    rw [List.drop_zero, List.take_zero, List.append_nil]

/-- **Step lemma**: one value more is held. -/
theorem Holds.push (h : Holds n pad b xs) (x : α) : Holds n pad (b.push x) (xs ++ [x]) where
  size := by rw [length_cells_push, h.size]
  count := by
    show (if b.count < b.cells.length then b.count + 1 else b.count) = _
    rw [h.size, h.count, List.length_append, List.length_singleton]
    split_ifs <;> omega
  padded := by
    have hn : 0 < n := by
      rw [← h.size]
      exact Nat.zero_lt_of_lt b.idx_lt
    rw [ordered_push, h.padded, ← List.append_assoc,
      rtake_concat_of_le hn (by rw [List.length_append, List.length_replicate]; omega)]

/-- **A full buffer** holds the last elements of the sequence. -/
theorem Holds.ordered_eq (h : Holds n pad b xs) (hle : n ≤ xs.length) :
    b.ordered = xs.rtake n := by
  rw [h.padded, rtake_append_of_le hle]

/-- Counted back from the newest, a buffer holds the elements of the sequence. -/
theorem Holds.getElem?_back (h : Holds n pad b xs) {lag : ℕ} (hlag : lag < b.count) :
    b.ordered[n - 1 - lag]? = xs[xs.length - 1 - lag]? := by
  have hcount := h.count
  rw [h.padded, List.rtake, List.getElem?_drop, List.length_append, List.length_replicate,
    List.getElem?_append_right (by rw [List.length_replicate]; omega), List.length_replicate]
  congr 1
  omega

/-- The oldest of the last elements is under the cursor. -/
theorem Holds.rtake_eq_cons (h : Holds n pad b xs) (hle : n ≤ xs.length) :
    xs.rtake n = b.oldest :: (xs.rtake n).tail := by
  rw [← h.ordered_eq hle]
  exact b.ordered_eq_cons

end RingBuffer

end Lib
