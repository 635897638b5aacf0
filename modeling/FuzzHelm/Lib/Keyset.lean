import Mathlib.Data.List.Sort
import Mathlib.Order.Basic

namespace Lib

/-!
# Keyset pages

Rows with distinct keys are listed from the largest key on, in pages.  A page holds the first
rows below a cursor, and the next cursor is the key of its last row when one more row follows.
Rows may join the table between two pages.

* `listing` — the rows below a cursor, from the largest key on;
* `keysetPage` — a page and the next cursor; `keysetPage_cases` — the last page, or one that
  splits the rows below the cursor at the next one;
* `KeysetWalk` — the pages one after another;
* `KeysetWalk.descending`, `.complete`, `.sound`, `.exists` — what a walk returns, and that it
  ends.
-/

section Keyset

variable {α β : Type*} [LinearOrder β] (key : α → β)

/-- A row lies below a cursor; every row does when there is none. -/
def Below (c : Option β) (a : α) : Prop := ∀ k ∈ c, key a < k

/-- Whether a row lies below the cursor can be computed. -/
instance (c : Option β) (a : α) : Decidable (Below key c a) :=
  match c with
  | none => .isTrue fun _ hk => by cases hk
  | some k => decidable_of_iff (key a < k) (by simp [Below])

/-- The rows below a cursor, from the largest key on. -/
def listing (c : Option β) (rows : List α) : List α :=
  (rows.filter fun a => decide (Below key c a)).insertionSort fun a b => key b ≤ key a

/-- A page of `n` rows and the next cursor: one row more than fits is read. -/
def keysetPage (n : ℕ) (c : Option β) (rows : List α) : List α × Option β :=
  let read := (listing key c rows).take (n + 1)
  (read.take n, if n < read.length then (read.take n).getLast?.map key else none)

variable {key} {n : ℕ} {c : Option β} {rows : List α}

/-- A listing has the rows below its cursor. -/
@[simp] theorem mem_listing {a : α} : a ∈ listing key c rows ↔ a ∈ rows ∧ Below key c a := by
  unfold listing
  rw [List.mem_insertionSort, List.mem_filter, decide_eq_true_iff]

/-- The listing descends, strictly as the keys are distinct. -/
theorem listing_descending (hd : (rows.map key).Nodup) :
    (listing key c rows).Pairwise fun a b => key b < key a := by
  have htotal : Std.Total fun a b : α => key b ≤ key a := ⟨fun a b => le_total (key b) (key a)⟩
  have htrans : IsTrans α fun a b => key b ≤ key a := ⟨fun a b c hab hbc => hbc.trans hab⟩
  have hsorted := List.pairwise_insertionSort (fun a b : α => key b ≤ key a)
    (rows.filter fun a => decide (Below key c a))
  have hnodup : ((listing key c rows).map key).Nodup := by
    have hfilter : ((rows.filter fun a => decide (Below key c a)).map key).Nodup :=
      hd.sublist (List.Sublist.map key List.filter_sublist)
    exact ((List.perm_insertionSort _ _).map key).nodup_iff.mpr hfilter
  rw [List.Nodup, List.pairwise_map] at hnodup
  exact hsorted.imp₂ (fun a b hle hne => lt_of_le_of_ne hle (Ne.symm hne)) hnodup

/-- **A page** is the last one, or it splits the rows below the cursor at the next one. -/
theorem keysetPage_cases (hd : (rows.map key).Nodup) (hn : 0 < n) :
    keysetPage key n c rows = (listing key c rows, none) ∨
    ∃ a, a ∈ rows ∧ Below key c a ∧
      keysetPage key n c rows = ((listing key c rows).take n, some (key a)) ∧
      (∀ b ∈ (listing key c rows).take n, key a ≤ key b) ∧
      ∀ b ∈ listing key c rows, key a ≤ key b → b ∈ (listing key c rows).take n := by
  have hdesc := listing_descending (c := c) hd
  have hmem : ∀ a, a ∈ listing key c rows → a ∈ rows ∧ Below key c a := fun a => mem_listing.mp
  unfold keysetPage
  generalize listing key c rows = l at hdesc hmem
  dsimp only
  rw [List.take_take, Nat.min_eq_left (Nat.le_succ n), List.length_take]
  by_cases hlen : l.length ≤ n
  · left
    rw [List.take_of_length_le hlen, if_neg (by omega)]
  · right
    obtain ⟨m, rfl⟩ : ∃ m, n = m + 1 := ⟨n - 1, by omega⟩
    have hm : m < l.length := by omega
    -- the page ends with `l[m]`, and what follows lies below it
    have htake : l.take (m + 1) = l.take m ++ [l[m]] := List.take_succ_eq_append_getElem hm
    have hsplit : l = l.take m ++ l[m] :: l.drop (m + 1) := by
      rw [← List.drop_eq_getElem_cons hm, List.take_append_drop]
    rw [hsplit] at hdesc
    obtain ⟨-, htail, hcross⟩ := List.pairwise_append.mp hdesc
    obtain ⟨hlast, -⟩ := List.pairwise_cons.mp htail
    obtain ⟨hrow, hbelow⟩ := hmem _ (List.getElem_mem hm)
    refine ⟨l[m], hrow, hbelow, ?_, ?_, ?_⟩
    · rw [if_pos (by omega), htake, List.getLast?_concat, Option.map_some]
    · intro b hb
      rw [htake, List.mem_append, List.mem_singleton] at hb
      rcases hb with hb | rfl
      · exact (hcross b hb _ List.mem_cons_self).le
      · exact le_refl _
    · intro b hb hle
      rw [hsplit, List.mem_append, List.mem_cons] at hb
      rw [htake, List.mem_append, List.mem_singleton]
      rcases hb with hb | rfl | hb
      · exact .inl hb
      · exact .inr rfl
      · exact absurd (hlast b hb) (not_lt.mpr hle)

/-- The next cursor is the key of a row. -/
theorem keysetPage_cursor {items : List α} {k : β}
    (h : keysetPage key n c rows = (items, some k)) : ∃ a ∈ rows, key a = k := by
  have hcursor := congrArg Prod.snd h
  unfold keysetPage at hcursor
  dsimp only at hcursor
  split_ifs at hcursor
  obtain ⟨a, ha, hk⟩ := Option.map_eq_some_iff.mp hcursor
  have hlast := List.mem_of_mem_take (List.mem_of_mem_take (List.mem_of_getLast? ha))
  exact ⟨a, (mem_listing.mp hlast).1, hk⟩

/-! ### The pages one after another -/

variable (key) (n)

/-- The pages from a cursor on, while batches of rows join the table between them. -/
inductive KeysetWalk : List α → List (List α) → Option β → List α → Prop
  | last {rows : List α} {later : List (List α)} {c : Option β} {items : List α}
      (page : keysetPage key n c rows = (items, none)) : KeysetWalk rows later c items
  | next {rows : List α} {later : List (List α)} {c : Option β} {k : β} {items rest : List α}
      (page : keysetPage key n c rows = (items, some k))
      (walk : KeysetWalk (rows ++ later.headD []) later.tail (some k) rest) :
      KeysetWalk rows later c (items ++ rest)

variable {key} {n} {later : List (List α)} {items : List α}

/-- What joins the table between two pages comes from the batches. -/
theorem flatten_step (rows : List α) (later : List (List α)) :
    (rows ++ later.headD []) ++ later.tail.flatten = rows ++ later.flatten := by
  cases later with
  | nil => simp
  | cons b later => simp

/-- Below a cursor that is itself below another one. -/
theorem Below.of_some {k : β} {a b : α} (h : Below key (some k) b) (ha : key a = k)
    (hb : Below key c a) : Below key c b := by
  intro k' hk'
  have hlt := h k rfl
  rw [← ha] at hlt
  exact hlt.trans (hb k' hk')

namespace KeysetWalk

/-- **Every item lies below the cursor, and they descend.** -/
theorem descending (h : KeysetWalk key n rows later c items) (hn : 0 < n)
    (hd : ((rows ++ later.flatten).map key).Nodup) :
    items.Pairwise (fun a b => key b < key a) ∧ ∀ a ∈ items, Below key c a := by
  induction h with
  | @last rows later c items page =>
    have hrows : (rows.map key).Nodup := by
      rw [List.map_append] at hd
      exact hd.of_append_left
    rcases keysetPage_cases (c := c) hrows hn with hpage | ⟨a, -, -, hpage, -⟩
    · rw [page] at hpage
      cases hpage
      exact ⟨listing_descending hrows, fun a ha => (mem_listing.mp ha).2⟩
    · rw [page] at hpage
      cases hpage
  | @next rows later c k items rest page walk ih =>
    have hrows : (rows.map key).Nodup := by
      rw [List.map_append] at hd
      exact hd.of_append_left
    rcases keysetPage_cases (c := c) hrows hn with hpage | ⟨a, ha, hbelow, hpage, hge, -⟩
    · rw [page] at hpage
      cases hpage
    · rw [page] at hpage
      cases hpage
      obtain ⟨hdesc, hrest⟩ := ih (by rwa [flatten_step])
      constructor
      · rw [List.pairwise_append]
        -- what comes later is below the cursor, hence below the page
        refine ⟨(listing_descending hrows).sublist (List.take_sublist _ _), hdesc, ?_⟩
        intro x hx y hy
        exact (hrest y hy (key a) rfl).trans_le (hge x hx)
      · intro x hx
        rcases List.mem_append.mp hx with hx | hx
        · exact (mem_listing.mp (List.mem_of_mem_take hx)).2
        · exact (hrest x hx).of_some rfl hbelow

/-- **Nothing that was there is missed.** -/
theorem complete (h : KeysetWalk key n rows later c items) (hn : 0 < n)
    (hd : ((rows ++ later.flatten).map key).Nodup) {a : α} (ha : a ∈ rows) (hc : Below key c a) :
    a ∈ items := by
  induction h with
  | @last rows later c items page =>
    have hrows : (rows.map key).Nodup := by
      rw [List.map_append] at hd
      exact hd.of_append_left
    rcases keysetPage_cases (c := c) hrows hn with hpage | ⟨x, -, -, hpage, -⟩
    · rw [page] at hpage
      cases hpage
      exact mem_listing.mpr ⟨ha, hc⟩
    · rw [page] at hpage
      cases hpage
  | @next rows later c k items rest page walk ih =>
    have hrows : (rows.map key).Nodup := by
      rw [List.map_append] at hd
      exact hd.of_append_left
    rcases keysetPage_cases (c := c) hrows hn with hpage | ⟨x, -, -, hpage, -, hkept⟩
    · rw [page] at hpage
      cases hpage
    · rw [page] at hpage
      cases hpage
      rw [List.mem_append]
      -- on this page, or below the cursor and still there
      by_cases hle : key x ≤ key a
      · exact .inl (hkept a (mem_listing.mpr ⟨ha, hc⟩) hle)
      · right
        refine ih (by rwa [flatten_step]) (List.mem_append_left _ ha) ?_
        intro k hk
        cases hk
        exact not_le.mp hle

/-- **Nothing else is returned.** -/
theorem sound (h : KeysetWalk key n rows later c items) {a : α} (ha : a ∈ items) :
    a ∈ rows ++ later.flatten := by
  induction h with
  | @last rows later c items page =>
    have hitems : items = ((listing key c rows).take (n + 1)).take n :=
      (congrArg Prod.fst page).symm
    rw [hitems] at ha
    have hrow := (mem_listing.mp (List.mem_of_mem_take (List.mem_of_mem_take ha))).1
    exact List.mem_append_left _ hrow
  | @next rows later c k items rest page walk ih =>
    rcases List.mem_append.mp ha with ha | ha
    · have hitems : items = ((listing key c rows).take (n + 1)).take n :=
        (congrArg Prod.fst page).symm
      rw [hitems] at ha
      have hrow := (mem_listing.mp (List.mem_of_mem_take (List.mem_of_mem_take ha))).1
      exact List.mem_append_left _ hrow
    · rw [← flatten_step]
      exact ih ha

end KeysetWalk

/-- **A walk ends**: each page but the last leaves fewer rows below the cursor, the later ones
    among them. -/
theorem exists_keysetWalk (hn : 0 < n) (rows : List α) (later : List (List α)) (c : Option β)
    (hd : ((rows ++ later.flatten).map key).Nodup) :
    ∃ items, KeysetWalk key n rows later c items := by
  induction hsize : ((rows ++ later.flatten).filter fun a => decide (Below key c a)).length
    using Nat.strong_induction_on generalizing rows later c with
  | _ size ih =>
    have hrows : (rows.map key).Nodup := by
      rw [List.map_append] at hd
      exact hd.of_append_left
    rcases keysetPage_cases (c := c) hrows hn with hpage | ⟨a, ha, hbelow, hpage, -⟩
    · exact ⟨_, .last hpage⟩
    · have hless :
        ((rows ++ later.flatten).filter fun b => decide (Below key (some (key a)) b)).length
          < size := by
        have hsub : ((rows ++ later.flatten).filter fun b => decide (Below key (some (key a)) b)) =
            ((rows ++ later.flatten).filter fun b => decide (Below key c b)).filter
              fun b => decide (Below key (some (key a)) b) := by
          rw [List.filter_filter]
          apply List.filter_congr
          intro b _
          by_cases hb : Below key (some (key a)) b
          · simp [hb, hb.of_some rfl hbelow]
          · simp [hb]
        -- the last row of the page is not below the next cursor
        rw [hsub, ← hsize, List.length_filter_lt_length_iff_exists]
        refine ⟨a, List.mem_filter.mpr ⟨List.mem_append_left _ ha, decide_eq_true hbelow⟩, ?_⟩
        simp [Below]
      obtain ⟨rest, hrest⟩ := ih _ hless (rows ++ later.headD []) later.tail (some (key a))
        (by rwa [flatten_step]) (by rw [flatten_step])
      exact ⟨_, .next hpage hrest⟩

end Keyset

end Lib
