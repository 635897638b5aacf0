import FuzzHelm.Execution.OrderBook
import Mathlib.Data.Prod.Lex
import Mathlib.Logic.Relation

namespace FuzzHelm

open Lib

/-!
# The walk of the price along a bar

Which trigger comes first, what one firing does to the position, and which stops a walk
leaves behind it.

* `Book.firstMin_le` — the trigger that is taken is the first by level and priority;
* `Book.Firing` — one firing of a walk with everything that is promised of it;
* `Book.StopsBeyond` / `Book.CutShort` — the stops that are still ahead, and the one way in
  which a segment comes to its end with a stop left behind;
* `walk_triggers` — the walk along a bar.
-/

namespace Book

variable {b b' : Book} {t : ℤ} {tr : Trigger} {p : Decimal} {up : Bool}

/-! ### The first of several triggers -/

section FirstMin

variable {α : Type*} [LinearOrder α] {key : Trigger → α} {lt : Trigger → Trigger → Bool}

/-- The fold of the nearest trigger ends at the smallest key. -/
theorem foldl_min_le (hlt : ∀ x m, lt x m = true ↔ key x < key m) (trs : List Trigger)
    (m : Trigger) : ∀ x ∈ m :: trs,
      key (trs.foldl (fun m x => if lt x m then x else m) m) ≤ key x := by
  induction trs generalizing m with
  | nil => simp
  | cons y trs ih =>
    intro x hx
    rw [List.foldl_cons]
    by_cases hym : lt y m = true
    · rw [if_pos hym]
      rcases List.mem_cons.mp hx with rfl | hx
      · exact (ih y y (List.mem_cons_self ..)).trans ((hlt _ _).mp hym).le
      · exact ih y x hx
    · rw [if_neg hym]
      have hmy : key m ≤ key y := not_lt.mp fun h => hym ((hlt _ _).mpr h)
      rcases List.mem_cons.mp hx with rfl | hx
      · exact ih x x (List.mem_cons_self ..)
      · rcases List.mem_cons.mp hx with rfl | hx
        · exact (ih m m (List.mem_cons_self ..)).trans hmy
        · exact ih m x (List.mem_cons_of_mem _ hx)

/-- **The first of the smallest** is no larger than any other. -/
theorem firstMin_le (hlt : ∀ x m, lt x m = true ↔ key x < key m) {trs : List Trigger}
    {m x : Trigger} (h : firstMin lt trs = some m) (hx : x ∈ trs) : key m ≤ key x := by
  cases trs with
  | nil => cases hx
  | cons y trs =>
    cases h
    exact foldl_min_le hlt trs y x hx

end FirstMin

/-- By level along the way, then by priority. -/
def wayKey (cur dest : Decimal) (x : Trigger) : Decimal ×ₗ ℕ :=
  toLex (if dest < cur then -x.level else x.level, x.priority)

/-- Being nearer is having the smaller key. -/
theorem nearer_iff (cur dest : Decimal) (x m : Trigger) :
    nearer cur dest x m = true ↔ wayKey cur dest x < wayKey cur dest m := by
  unfold nearer wayKey
  rw [Prod.Lex.toLex_lt_toLex]
  split <;> simp

/-! ### Ahead of the price -/

/-- Going up or down from `x`, the price meets `y` at `x` or later. -/
def Ahead (up : Bool) (x y : Decimal) : Prop := if up then x ≤ y else y ≤ x

/-- Going up or down from `x`, the price meets `y` only after it has left `x`. -/
def Beyond (up : Bool) (x y : Decimal) : Prop := if up then x < y else y < x

/-- Which of two prices is ahead can be decided. -/
instance (up : Bool) (x y : Decimal) : Decidable (Ahead up x y) := by
  unfold Ahead; infer_instance

/-- Which of two prices is beyond the other can be decided. -/
instance (up : Bool) (x y : Decimal) : Decidable (Beyond up x y) := by
  unfold Beyond; infer_instance

variable {x y z : Decimal}

/-- A price is ahead of itself. -/
@[simp] theorem ahead_refl : Ahead up x x := by cases up <;> simp [Ahead]

/-- Beyond is ahead. -/
theorem Beyond.ahead (h : Beyond up x y) : Ahead up x y := by
  cases up <;> simp_all [Ahead, Beyond, le_of_lt]

/-- Ahead of what is ahead. -/
theorem Ahead.trans (h : Ahead up x y) (h' : Ahead up y z) : Ahead up x z := by
  cases up
  · exact le_trans h' h
  · exact le_trans h h'

/-- Beyond what is ahead. -/
theorem Ahead.trans_beyond (h : Ahead up x y) (h' : Beyond up y z) : Beyond up x z := by
  cases up
  · exact lt_of_lt_of_le h' h
  · exact lt_of_le_of_lt h h'

/-- Ahead and another price is beyond. -/
theorem Ahead.beyond (h : Ahead up x y) (hne : y ≠ x) : Beyond up x y := by
  cases up
  · exact lt_of_le_of_ne h hne
  · exact lt_of_le_of_ne h hne.symm

/-- What is not ahead is beyond in the other direction. -/
theorem not_ahead : ¬Ahead up x y ↔ Beyond up y x := by
  cases up <;> simp [Ahead, Beyond]

/-- What lies on the way of a segment: a trigger of its direction between its ends. -/
theorem onTheWay_iff {cur dest : Decimal} (hside : Ahead up cur dest) (hne : dest ≠ cur) :
    onTheWay cur dest tr = true ↔
      tr.firesUp = up ∧ Ahead up cur tr.level ∧ Ahead up tr.level dest := by
  cases up
  · have hlt : dest < cur := lt_of_le_of_ne hside hne
    simp [onTheWay, hlt, Ahead, and_comm]
  · have hlt : ¬dest < cur := not_lt.mpr hside
    simp [onTheWay, hlt, Ahead]

/-- The trigger that fires on a segment comes before the others on the way. -/
theorem ahead_of_firstMin {cur dest : Decimal} {ts : List Trigger} {m : Trigger}
    (hside : Ahead up cur dest) (hne : dest ≠ cur)
    (h : firstMin (nearer cur dest) ts = some m) (htr : tr ∈ ts) :
    Ahead up m.level tr.level ∧ (m.level = tr.level → m.priority ≤ tr.priority) := by
  have hle := firstMin_le (nearer_iff cur dest) h htr
  rw [wayKey, wayKey, Prod.Lex.toLex_le_toLex] at hle
  -- falling and rising, nearer means the other way round
  cases up
  · have hlt : dest < cur := lt_of_le_of_ne hside hne
    simp only [hlt, if_true, neg_lt_neg_iff, neg_inj] at hle
    constructor
    · rcases hle with hle | hle
      · exact hle.le
      · exact hle.1.ge
    · intro heq
      rcases hle with hle | hle
      · exact absurd heq hle.ne'
      · exact hle.2
  · have hlt : ¬dest < cur := not_lt.mpr hside
    simp only [hlt, if_false] at hle
    constructor
    · rcases hle with hle | hle
      · exact hle.le
      · exact hle.1.le
    · intro heq
      rcases hle with hle | hle
      · exact absurd heq hle.ne
      · exact hle.2

/-! ### Live stops -/

/-- The queued order `c` is a stop at `level` that a bar opening at `t` can fire. -/
structure LiveStop (b : Book) (t : ℤ) (c : Uuid) (o : Order) (level : Decimal) : Prop where
  queued : c ∈ b.st.stopOrders
  order : b.orders.get? c = some o
  new : o.status = .new
  price : o.req.stopPrice = some level
  created : o.req.tsCreatedNs ≤ t

/-- The trigger of a stop order. -/
def ofStop (c : Uuid) (o : Order) (level : Decimal) : Trigger :=
  ⟨.stop, level, decide (o.req.side = .long), some c, 1⟩

variable {c : Uuid} {o : Order} {level : Decimal}

/-- A live stop is among the triggers. -/
theorem LiveStop.mem_stopTriggers (h : LiveStop b t c o level) {cs : List Uuid}
    {ts : List Trigger} (hc : c ∈ cs) (hts : stopTriggers t b.orders cs = .ok ts) :
    ofStop c o level ∈ ts := by
  induction cs generalizing ts with
  | nil => cases hc
  | cons x cs ih =>
    rw [stopTriggers, bind_eq_ok] at hts
    obtain ⟨ox, hox, hts⟩ := hts
    rw [bind_eq_ok] at hts
    obtain ⟨ts', hts', hts⟩ := hts
    cases hts
    rcases List.mem_cons.mp hc with rfl | hc
    · rw [orderOf_eq_ok, h.order] at hox
      cases hox
      refine List.mem_append_left _ (Option.mem_toList.mpr ?_)
      simp [stopTrigger, h.price, h.new, h.created, ofStop]
    · exact List.mem_append_right _ (ih hc hts')

/-- A live stop is among the triggers. -/
theorem LiveStop.mem_triggers (h : LiveStop b t c o level) {ts : List Trigger}
    (hts : b.triggers t = .ok ts) : ofStop c o level ∈ ts := by
  rw [triggers, bind_eq_ok] at hts
  obtain ⟨stops, hstops, hts⟩ := hts
  cases hts
  exact List.mem_append_left _ (List.mem_append_left _ (h.mem_stopTriggers h.queued hstops))

/-- An order that is new after an execution was not executed, and is what it was. -/
theorem execute_new {coid : Uuid} {ord : Order} {ts : ℤ} {reason : Option ExitReason}
    (h : b.execute coid ord p ts reason = .ok b') (ho : b'.orders.get? c = some o)
    (hnew : o.status = .new) : c ≠ coid ∧ b.orders.get? c = some o := by
  -- the executed order itself ends canceled or filled
  have hfinal : ∀ o' : Order, o'.status ≠ .new →
      (b.orders.insert coid o').get? c = some o → c ≠ coid ∧ b.orders.get? c = some o := by
    intro o' hne hget
    rw [Dict.get?_insert] at hget
    split at hget
    · cases hget
      exact absurd hnew hne
    · rename_i hcx
      exact ⟨Ne.symm hcx, hget⟩
  rcases execute_eq_ok h with ⟨-, rfl⟩ | ⟨-, -, f, cost, -, -, -, -, -, h⟩
  · exact hfinal _ (by simp) ho
  · split at h
    · obtain ⟨keep, orders, hs, rfl⟩ := onPositionClosed_eq_ok h
      rcases sweep_back (fun _ => rfl) hs c o ho with hget | hcancel
      · exact hfinal _ (by simp) hget
      · rw [hnew] at hcancel
        cases hcancel
    · rw [h] at ho
      exact hfinal _ (by simp) ho

/-- An execution brings no new stops. -/
theorem execute_stopOrders {coid : Uuid} {ord : Order} {ts : ℤ} {reason : Option ExitReason}
    (h : b.execute coid ord p ts reason = .ok b') : b'.st.stopOrders ⊆ b.st.stopOrders := by
  rcases execute_eq_ok h with ⟨-, rfl⟩ | ⟨-, -, f, cost, -, -, -, -, -, h⟩
  · exact List.Subset.refl _
  · split at h
    · obtain ⟨keep, orders, hs, rfl⟩ := onPositionClosed_eq_ok h
      exact (sweep_sublist hs).subset
    · rw [h]
      exact List.Subset.refl _

/-- **No firing makes a stop live**: those that are were so before, and did not fire. -/
theorem fire_liveStop (htr : IsTrigger b t tr) (h : b.fire tr p t = .ok b')
    (hl : LiveStop b' t c o level) : LiveStop b t c o level ∧ tr.coid ≠ some c := by
  cases htr with
  | @stop c₀ o₀ level₀ hc ho hnew hprice hts =>
    rw [fire, bind_eq_ok] at h
    obtain ⟨o', ho', h⟩ := h
    obtain ⟨hne, hget⟩ := execute_new h hl.order hl.new
    -- a stop that is still alive was not the one that fired
    have hmem := execute_stopOrders h hl.queued
    exact ⟨⟨List.mem_of_mem_erase hmem, hget, hl.new, hl.price, hl.created⟩,
      fun heq => hne (Option.some.inj heq).symm⟩
  -- an order of the broker's own is none of the stops
  | @tp level₀ hprice hpos hside =>
    obtain ⟨order, -, hexec⟩ := fireSynthetic_eq_ok
      (b := { b with st := { b.st with tpPrice := none, tpSide := 0 } }) h
    obtain ⟨hne, hget⟩ := execute_new hexec hl.order hl.new
    rw [Dict.get?_insert_of_ne _ _ hne.symm] at hget
    exact ⟨⟨execute_stopOrders hexec hl.queued, hget, hl.new, hl.price, hl.created⟩, by simp⟩
  | @liq level₀ hprice hpos =>
    obtain ⟨order, -, hexec⟩ := fireSynthetic_eq_ok
      (b := { b with st := { b.st with liqPrice := none } }) h
    obtain ⟨hne, hget⟩ := execute_new hexec hl.order hl.new
    rw [Dict.get?_insert_of_ne _ _ hne.symm] at hget
    exact ⟨⟨execute_stopOrders hexec hl.queued, hget, hl.new, hl.price, hl.created⟩, by simp⟩

/-! ### Stops ahead of the price -/

/-- The live stops of a direction lie ahead of `x`. -/
def StopsAhead (b : Book) (t : ℤ) (up : Bool) (x : Decimal) : Prop :=
  ∀ c o level, LiveStop b t c o level → decide (o.req.side = .long) = up → Ahead up x level

/-- The live stops of a direction lie beyond `x`. -/
def StopsBeyond (b : Book) (t : ℤ) (up : Bool) (x : Decimal) : Prop :=
  ∀ c o level, LiveStop b t c o level → decide (o.req.side = .long) = up → Beyond up x level

/-- What is beyond is ahead. -/
theorem StopsBeyond.ahead (h : StopsBeyond b t up x) : StopsAhead b t up x :=
  fun c o level hl hup => (h c o level hl hup).ahead

/-- A firing leaves the stops that are beyond. -/
theorem StopsBeyond.fire (h : StopsBeyond b t up x) (htr : IsTrigger b t tr)
    (hf : b.fire tr p t = .ok b') : StopsBeyond b' t up x :=
  fun c o level hl hup => h c o level (fire_liveStop htr hf hl).1 hup

/-- Stops beyond a price are beyond every price before it. -/
theorem StopsBeyond.of_ahead (hxy : Ahead up y x) (h : StopsBeyond b t up x) :
    StopsBeyond b t up y :=
  fun c o level hl hup => hxy.trans_beyond (h c o level hl hup)

/-- A book with no budget has no stops. -/
theorem stopsBeyond_of_budget (h : b.budget = 0) : StopsBeyond b t up x := by
  intro c o level hl
  have hlen := List.length_pos_of_mem hl.queued
  unfold budget at h
  omega

/-! ### What the loops leave -/

/-- **At the open** everything that the open has passed fires. -/
theorem walkAtOpen_clears {n : ℕ} (hn : b.budget ≤ n) (h : b.walkAtOpen x t n = .ok b') :
    StopsBeyond b' t up x := by
  induction n generalizing b with
  | zero =>
    cases h
    exact stopsBeyond_of_budget (Nat.le_zero.mp hn)
  | succ n ih =>
    obtain ⟨ts, hts, ⟨rfl, hnone⟩ | ⟨tr, b₁, -, htrig, -, hb₁, h⟩⟩ := walkAtOpen_eq_ok h
    · intro c o level hl hup
      -- a stop that the open has passed would still be a candidate
      have hnot := hnone _ (hl.mem_triggers hts)
      rw [← not_ahead]
      intro hpassed
      apply hnot
      cases up <;> simp_all [behind, ofStop, Ahead]
    · have hlt := fire_budget htrig hb₁
      exact ih (by omega) h

/-- The segment to `dest` comes to its end by a firing at `dest` itself, and leaves a stop of
    its direction at that very level. -/
inductive CutShort (t : ℤ) (dest : Decimal) : Book → Decimal → Prop
  | here {b b' : Book} {cur : Decimal} {ts : List Trigger} {tr : Trigger} {c : Uuid} {o : Order}
      (hne : dest ≠ cur) (hts : b.triggers t = .ok ts)
      (hfirst : firstMin (nearer cur dest) (ts.filter (onTheWay cur dest)) = some tr)
      (hend : tr.level = dest) (hfire : b.fire tr dest t = .ok b')
      (hleft : LiveStop b' t c o dest)
      (hdir : decide (o.req.side = .long) = decide (cur < dest)) : CutShort t dest b cur
  | later {b b' : Book} {cur : Decimal} {ts : List Trigger} {tr : Trigger}
      (hne : dest ≠ cur) (hts : b.triggers t = .ok ts)
      (hfirst : firstMin (nearer cur dest) (ts.filter (onTheWay cur dest)) = some tr)
      (hfire : b.fire tr tr.level t = .ok b') (hcut : CutShort t dest b' tr.level) :
      CutShort t dest b cur

/-- **A segment** leaves no stop of its direction behind, unless it is cut short. -/
theorem walkSegment_clears {n : ℕ} {cur dest : Decimal} (hn : b.budget ≤ n)
    (h : b.walkSegment t dest n cur = .ok b') (hside : Ahead up cur dest)
    (hahead : StopsAhead b t up cur) (hstart : dest = cur → StopsBeyond b t up cur)
    (hcut : ¬CutShort t dest b cur) : StopsBeyond b' t up dest := by
  induction n generalizing b cur with
  | zero =>
    cases h
    exact stopsBeyond_of_budget (Nat.le_zero.mp hn)
  | succ n ih =>
    obtain ⟨heq, rfl⟩ | ⟨hne, ts, hts, ⟨rfl, hnone⟩ | ⟨tr, b₁, htr, htrig, hway, hb₁, h⟩⟩ :=
      walkSegment_eq_ok h
    · rw [heq]
      exact hstart heq
    · intro c o level hl hup
      -- no candidate is left: what is ahead is beyond the end
      have hnot := hnone _ (hl.mem_triggers hts)
      rw [onTheWay_iff hside hne] at hnot
      rw [← not_ahead]
      exact fun hreach => hnot ⟨hup, hahead c o level hl hup, hreach⟩
    · have hlt := fire_budget htrig hb₁
      rw [onTheWay_iff hside hne] at hway
      -- the stops that are left come after the trigger that has fired
      have hahead₁ : StopsAhead b₁ t up tr.level := by
        intro c o level hl hup
        have hold := (fire_liveStop htrig hb₁ hl).1
        by_cases hreach : Ahead up level dest
        · have hcand : ofStop c o level ∈ ts.filter (onTheWay cur dest) :=
            List.mem_filter.mpr ⟨hold.mem_triggers hts, (onTheWay_iff hside hne).mpr
              ⟨hup, hahead c o level hold hup, hreach⟩⟩
          exact (ahead_of_firstMin hside hne htr hcand).1
        · exact hway.2.2.trans (not_ahead.mp hreach).ahead
      refine ih (by omega) h hway.2.2 hahead₁ ?_ fun hlater =>
        hcut (.later hne hts htr hb₁ hlater)
      intro hend c o level hl hup
      refine (hahead₁ c o level hl hup).beyond fun heq => hcut ?_
      have hdir : decide (cur < dest) = up := by
        cases up
        · simpa [Ahead] using hside
        · simpa using lt_of_le_of_ne hside (Ne.symm hne)
      rw [← hend] at hb₁
      rw [heq, ← hend] at hl
      exact .here hne hts htr hend.symm hb₁ hl (hup.trans hdir.symm)

/-- One of some segments, walked one after another, is cut short. -/
def PathCutShort (t : ℤ) : List Decimal → Book → Decimal → Prop
  | [], _, _ => False
  | dest :: rest, b, cur => CutShort t dest b cur ∨
      ∃ b', walkSegment t dest b.budget b cur = .ok b' ∧ PathCutShort t rest b' dest

/-- A path to one extreme, to the other one and back leaves no stop inside the range. -/
theorem walkPath_clears (up : Bool) {cur e₁ e₂ last : Decimal}
    (h : walkPath t [e₁, e₂, last] b cur = .ok b')
    (h₁ : Ahead up cur e₁) (h₂ : Ahead (!up) cur e₂) (hopen : StopsBeyond b t up cur)
    (hopen' : StopsBeyond b t (!up) cur) (hcut : ¬PathCutShort t [e₁, e₂] b cur) :
    StopsBeyond b' t up e₁ ∧ StopsBeyond b' t (!up) e₂ := by
  rw [walkPath, bind_eq_ok] at h
  obtain ⟨b₁, hb₁, h⟩ := h
  rw [walkPath, bind_eq_ok] at h
  obtain ⟨b₂, hb₂, h⟩ := h
  -- the far side of the open is ahead of the first extreme as well
  have hback : Ahead (!up) e₁ cur := by
    cases up <;> simpa [Ahead] using h₁
  have hfirst : StopsBeyond b₁ t up e₁ := walkSegment_clears le_rfl hb₁ h₁ hopen.ahead
    (fun _ => hopen) fun hc => hcut (.inl hc)
  have hother : StopsBeyond b₁ t (!up) e₁ :=
    (walkSegment_rule (P := fun b => StopsBeyond b t (!up) cur)
      (fun _ _ _ _ hP htr hf => hP.fire htr hf) hopen' hb₁).of_ahead hback
  have hsecond : StopsBeyond b₂ t (!up) e₂ := walkSegment_clears le_rfl hb₂ (hback.trans h₂)
    hother.ahead (fun _ => hother) fun hc => hcut (.inr ⟨b₁, hb₁, .inl hc⟩)
  -- neither the second segment nor the way back makes a stop live
  have hkeep : ∀ {up : Bool} {x : Decimal} {b b' : Book} {rest : List Decimal} {cur : Decimal},
      StopsBeyond b t up x → walkPath t rest b cur = .ok b' → StopsBeyond b' t up x :=
    fun hP hw => walkPath_rule (P := fun b => StopsBeyond b t _ _)
      (fun _ _ _ _ hP htr hf => hP.fire htr hf) hP hw
  have hfirst₂ : StopsBeyond b₂ t up e₁ :=
    walkSegment_rule (P := fun b => StopsBeyond b t up e₁)
      (fun _ _ _ _ hP htr hf => hP.fire htr hf) hfirst hb₂
  exact ⟨hkeep hfirst₂ h, hkeep hsecond h⟩

/-! ### One firing -/

/-- Closing a position moves neither the fills nor the position. -/
theorem onPositionClosed_keeps {old : Decimal} (h : b.onPositionClosed old = .ok b') :
    b'.fills = b.fills ∧ b'.st.position = b.st.position ∧ b'.st.spec = b.st.spec := by
  obtain ⟨keep, orders, -, rfl⟩ := onPositionClosed_eq_ok h
  exact ⟨rfl, rfl, rfl⟩

/-- What a reduce-only order executes shrinks the position and does not cross zero. -/
theorem executableQty_shrinks {req : OrderRequest} (hred : req.reduceOnly = true)
    (hpos : 0 < b.executableQty req) (hside : req.side ≠ .flat) :
    |b.st.position + req.side.toInt * b.executableQty req| < |b.st.position| ∧
      0 ≤ b.st.position * (b.st.position + req.side.toInt * b.executableQty req) := by
  unfold executableQty at hpos ⊢
  simp only [hred, Bool.not_true, Bool.false_eq_true, if_false] at hpos ⊢
  split at hpos
  · exact absurd hpos (lt_irrefl 0)
  · rename_i hopp
    rw [if_neg hopp]
    rw [not_or] at hopp
    -- the order trades against the position, for at most its size
    set q := min req.qty |b.st.position| with hq
    have hle : q ≤ |b.st.position| := min_le_right _ _
    rcases sign_cases b.st.position with ⟨hneg, hsign⟩ | ⟨hzero, -⟩ | ⟨hlong, hsign⟩
    · have hlongside : req.side = .long := by
        cases hs : req.side
        · exact absurd (by rw [hs, hsign]; rfl) hopp.2
        · exact absurd hs hside
        · rfl
      rw [abs_of_neg hneg] at hle ⊢
      simp only [hlongside, Side.toInt_long, Int.cast_one, one_mul]
      rw [abs_of_nonpos (by linarith)]
      exact ⟨by linarith, mul_nonneg_of_nonpos_of_nonpos hneg.le (by linarith)⟩
    · exact absurd hzero hopp.1
    · have hshortside : req.side = .short := by
        cases hs : req.side
        · rfl
        · exact absurd hs hside
        · exact absurd (by rw [hs, hsign]; rfl) hopp.2
      rw [abs_of_pos hlong] at hle ⊢
      simp only [hshortside, Side.toInt_short, Int.cast_neg, Int.cast_one, neg_one_mul]
      rw [abs_of_nonneg (by linarith)]
      exact ⟨by linarith, mul_nonneg hlong.le (by linarith)⟩

/-- The fill `f` of an execution at the reference price `p`: what the book adds to its fills
    and to its position, at the price that is quoted for `p`. -/
structure FillsAt (b : Book) (p : Decimal) (f : Fill) (b' : Book) : Prop where
  quote : ∃ q cost, b.cost.quote f.side p f.qty (b.st.sigma b.cost) (b.st.vBar.getD 0)
    b.st.spec.tickSize = .ok (q, cost) ∧ f.price = q.price
  fills : b'.fills = b.fills ++ [f]
  position : b'.st.position = b.st.position + f.dq

/-- An execution cancels its order or fills it; a reduce-only fill shrinks the position. -/
theorem execute_fill {coid : Uuid} {ts : ℤ} {reason : Option ExitReason}
    (h : b.execute coid o p ts reason = .ok b') :
    (b'.fills = b.fills ∧ b'.st.position = b.st.position) ∨
      ∃ f, FillsAt b p f b' ∧ (o.req.reduceOnly = true →
        |b'.st.position| < |b.st.position| ∧ 0 ≤ b.st.position * b'.st.position) := by
  unfold execute at h
  -- nothing was executable
  by_cases hq : b.executableQty o.req ≤ 0
  · simp only [hq, if_true] at h
    cases h
    exact .inl ⟨rfl, rfl⟩
  · simp only [hq, if_false] at h
    rw [bind_eq_ok] at h
    obtain ⟨⟨q, cost⟩, hquote, h⟩ := h
    rw [bind_eq_ok] at h
    obtain ⟨f, hf, h⟩ := h
    obtain ⟨-, -, hside, hqty, hprice, -, -⟩ := mkFill_eq_ok hf
    right
    refine ⟨f, ?_⟩
    -- closed or not, there is one fill more
    have hend : b'.fills = b.fills ++ [f] ∧ b'.st.position = b.st.position + f.dq := by
      split at h
      · exact ⟨(onPositionClosed_keeps h).1, (onPositionClosed_keeps h).2.1⟩
      · cases h
        exact ⟨rfl, rfl⟩
    refine ⟨⟨⟨q, cost, ?_, hprice⟩, hend.1, hend.2⟩, fun hred => ?_⟩
    · rw [hside, hqty]
      exact hquote
    -- an order that only reduces makes the position smaller, and never turns it
    · have hdq : f.dq = o.req.side.toInt * b.executableQty o.req := by
        rw [Fill.dq, hside, hqty]
      rw [hend.2, hdq]
      exact executableQty_shrinks hred (not_le.mp hq) (b.cost.quote_eq_ok hquote).1

/-- What the trigger executes is a reduce-only order: the one behind its stop, or the order
    that is made for a take-profit or a liquidation. -/
def Reduces (b : Book) (tr : Trigger) : Prop :=
  tr.kind ≠ .stop ∨ ∃ c o, tr.coid = some c ∧ b.orders.get? c = some o ∧ o.req.reduceOnly = true

/-- **A firing, inverted**: nothing is filled, or one fill reduces what it should. -/
theorem fire_fill (htr : IsTrigger b t tr) (h : b.fire tr p t = .ok b') :
    (b'.fills = b.fills ∧ b'.st.position = b.st.position) ∨
      ∃ f, FillsAt b p f b' ∧ (Reduces b tr →
        |b'.st.position| < |b.st.position| ∧ 0 ≤ b.st.position * b'.st.position) := by
  cases htr with
  | @stop c₀ o₀ level₀ hc ho hnew hprice hts =>
    rw [fire, bind_eq_ok] at h
    obtain ⟨o', ho', h⟩ := h
    rw [orderOf_eq_ok] at ho'
    rcases execute_fill h with hsame | ⟨f, ⟨hquote, hfills, hpos⟩, hred⟩
    · exact .inl hsame
    -- a stop reduces where its request says so
    · refine .inr ⟨f, ⟨hquote, hfills, hpos⟩, fun hreduces => ?_⟩
      rcases hreduces with hkind | ⟨c, o, hcoid, ho, hro⟩
      · exact absurd rfl hkind
      · cases hcoid
        rw [ho'] at ho
        cases ho
        exact hred hro
  -- the orders of the broker always do
  | @tp level₀ hprice hpos hside =>
    obtain ⟨order, hsyn, hexec⟩ := fireSynthetic_eq_ok
      (b := { b with st := { b.st with tpPrice := none, tpSide := 0 } }) h
    rcases execute_fill hexec with hsame | ⟨f, ⟨hquote, hfills, hpos⟩, hred⟩
    · exact .inl hsame
    · exact .inr ⟨f, ⟨hquote, hfills, hpos⟩, fun _ => hred hsyn.reduceOnly⟩
  | @liq level₀ hprice hpos =>
    obtain ⟨order, hsyn, hexec⟩ := fireSynthetic_eq_ok
      (b := { b with st := { b.st with liqPrice := none } }) h
    rcases execute_fill hexec with hsame | ⟨f, ⟨hquote, hfills, hpos⟩, hred⟩
    · exact .inl hsame
    · exact .inr ⟨f, ⟨hquote, hfills, hpos⟩, fun _ => hred hsyn.reduceOnly⟩

/-- **One firing of a walk along `bar`.**  A trigger executes at its own level, or at the open
    when the bar opened beyond it, always inside the range of the bar; it adds nothing or one
    fill, and the fill of a reduce-only order, a take-profit or a liquidation shrinks the
    position without crossing zero. -/
inductive Firing (bar : DecBar) (b b' : Book) : Prop
  | intro (tr : Trigger) (p : Decimal) (trigger : IsTrigger b bar.openTimeNs tr)
      (fires : b.fire tr p bar.openTimeNs = .ok b')
      (price : p = tr.level ∨ (behind bar.o tr = true ∧ p = bar.o))
      (range : bar.l ≤ p ∧ p ≤ bar.h)
      (fill : (b'.fills = b.fills ∧ b'.st.position = b.st.position) ∨
        ∃ f, FillsAt b p f b' ∧ (Reduces b tr →
          |b'.st.position| < |b.st.position| ∧ 0 ≤ b.st.position * b'.st.position))

variable {bar : DecBar}

/-- One firing after another. -/
abbrev Firings (bar : DecBar) : Book → Book → Prop := Relation.ReflTransGen (Firing bar)

/-- The triggers at the open are firings at the price of the open. -/
theorem walkAtOpen_firings {n : ℕ} (hlo : bar.l ≤ bar.o) (hoh : bar.o ≤ bar.h)
    (h : b.walkAtOpen bar.o bar.openTimeNs n = .ok b') : Firings bar b b' := by
  induction n generalizing b with
  | zero =>
    cases h
    exact .refl
  | succ n ih =>
    obtain ⟨ts, -, ⟨rfl, -⟩ | ⟨tr, b₁, -, htrig, hbehind, hb₁, h⟩⟩ := walkAtOpen_eq_ok h
    · exact .refl
    · exact .head ⟨tr, bar.o, htrig, hb₁, .inr ⟨hbehind, rfl⟩, ⟨hlo, hoh⟩, fire_fill htrig hb₁⟩
        (ih h)

/-- A price that lies on the way lies between the ends. -/
theorem onTheWay_range {cur dest lo hi : Decimal} (hway : onTheWay cur dest tr = true)
    (hcur : lo ≤ cur ∧ cur ≤ hi) (hdest : lo ≤ dest ∧ dest ≤ hi) :
    lo ≤ tr.level ∧ tr.level ≤ hi := by
  unfold onTheWay at hway
  split at hway
  · simp only [Bool.and_eq_true, decide_eq_true_eq] at hway
    exact ⟨hdest.1.trans hway.2.1, hway.2.2.trans hcur.2⟩
  · simp only [Bool.and_eq_true, decide_eq_true_eq] at hway
    exact ⟨hcur.1.trans hway.2.1, hway.2.2.trans hdest.2⟩

/-- A segment of the path is made of firings, by induction on the fuel. -/
theorem walkSegment_firings {n : ℕ} {cur dest : Decimal} (hcur : bar.l ≤ cur ∧ cur ≤ bar.h)
    (hdest : bar.l ≤ dest ∧ dest ≤ bar.h)
    (h : b.walkSegment bar.openTimeNs dest n cur = .ok b') : Firings bar b b' := by
  induction n generalizing b cur with
  | zero =>
    cases h
    exact .refl
  | succ n ih =>
    obtain ⟨-, rfl⟩ | ⟨-, ts, -, ⟨rfl, -⟩ | ⟨tr, b₁, -, htrig, hway, hb₁, h⟩⟩ :=
      walkSegment_eq_ok h
    · exact .refl
    · exact .refl
    · have hrange := onTheWay_range hway hcur hdest
      exact .head ⟨tr, tr.level, htrig, hb₁, .inl rfl, hrange, fire_fill htrig hb₁⟩ (ih hrange h)

/-- The path is made of firings, by induction on its points. -/
theorem walkPath_firings {rest : List Decimal} {cur : Decimal}
    (hcur : bar.l ≤ cur ∧ cur ≤ bar.h) (hrest : ∀ x ∈ rest, bar.l ≤ x ∧ x ≤ bar.h)
    (h : walkPath bar.openTimeNs rest b cur = .ok b') : Firings bar b b' := by
  induction rest generalizing b cur with
  | nil =>
    cases h
    exact .refl
  | cons dest rest ih =>
    rw [walkPath, bind_eq_ok] at h
    obtain ⟨b₁, hb₁, h⟩ := h
    have hdest := hrest dest (List.mem_cons_self ..)
    exact (walkSegment_firings hcur hdest hb₁).trans
      (ih hdest (fun x hx => hrest x (List.mem_cons_of_mem _ hx)) h)

/-- The path of a bar goes to one extreme, to the other and to the close. -/
theorem path_cases (b : Book) (bar : DecBar) :
    b.path bar = [bar.l, bar.h, bar.c] ∨ b.path bar = [bar.h, bar.l, bar.c] := by
  unfold path
  split_ifs <;> simp

/-! ### The walk returns -/

/-- The queued stops are orders that the broker knows, and they buy or sell. -/
def Known (b : Book) : Prop :=
  ∀ c ∈ b.st.stopOrders, ∃ o, b.orders.get? c = some o ∧ o.req.side ≠ .flat

/-- A sweep over orders that are there returns. -/
theorem sweep_ok (drop : Order → Bool) {cancel : Order → Order}
    (hcancel : ∀ o, (cancel o).req = o.req) {cs : List Uuid} {orders : Dict Uuid Order}
    (hcs : ∀ c ∈ cs, ∃ o, orders.get? c = some o) :
    ∃ keep orders', sweep drop cancel cs orders = .ok (keep, orders') ∧
      ∀ c o, orders.get? c = some o → ∃ o', orders'.get? c = some o' ∧ o'.req = o.req := by
  induction cs generalizing orders with
  | nil => exact ⟨[], orders, rfl, fun c o ho => ⟨o, ho, rfl⟩⟩
  | cons x cs ih =>
    obtain ⟨ox, hox⟩ := hcs x (List.mem_cons_self ..)
    -- the orders of the rest of the list are known too
    have hrest : ∀ c ∈ cs, ∃ o, orders.get? c = some o :=
      fun c hc => hcs c (List.mem_cons_of_mem _ hc)
    rw [sweep, orderOf_eq_ok.mpr hox]
    simp only [bind, Except.bind]
    split
    · exact ih hrest
    · split
      · -- the canceled order is still known, under the same request
        have hins : ∀ c o, orders.get? c = some o →
            ∃ o', (orders.insert x (cancel ox)).get? c = some o' ∧ o'.req = o.req := by
          intro c o ho
          rw [Dict.get?_insert]
          split
          · rename_i hxc
            subst hxc
            rw [hox] at ho
            cases ho
            exact ⟨_, rfl, hcancel ox⟩
          · exact ⟨o, ho, rfl⟩
        have hknown : ∀ c ∈ cs, ∃ o, (orders.insert x (cancel ox)).get? c = some o := fun c hc =>
          (hrest c hc).elim fun o ho => (hins c o ho).imp fun _ h => h.1
        obtain ⟨keep, orders', hs, hback⟩ := ih hknown
        refine ⟨keep, orders', hs, fun c o ho => ?_⟩
        obtain ⟨o₁, ho₁, hreq₁⟩ := hins c o ho
        obtain ⟨o', ho', hreq'⟩ := hback c o₁ ho₁
        exact ⟨o', ho', hreq'.trans hreq₁⟩
      -- kept: the order stays in the list
      · obtain ⟨keep, orders', hs, hback⟩ := ih hrest
        rw [hs]
        exact ⟨x :: keep, orders', rfl, hback⟩

/-- Orders may be rewritten under their own request. -/
theorem Known.of_orders (hk : b.Known) {st : InstState} {orders : Dict Uuid Order}
    (hst : st.stopOrders ⊆ b.st.stopOrders)
    (hback : ∀ c o, b.orders.get? c = some o →
      ∃ o', orders.get? c = some o' ∧ (o'.req.side = .flat → o.req.side = .flat))
    (hb' : b'.st = st) (horders : b'.orders = orders) : b'.Known := by
  intro c hc
  rw [hb'] at hc
  obtain ⟨o, ho, hside⟩ := hk c (hst hc)
  obtain ⟨o', ho', hreq⟩ := hback c o ho
  exact ⟨o', horders ▸ ho', fun hflat => hside (hreq hflat)⟩

/-- Closing a position returns when its instrument is known. -/
theorem onPositionClosed_ok {old : Decimal} (hk : b.Known) :
    ∃ b', b.onPositionClosed old = .ok b' ∧ b'.Known ∧ b'.st.spec = b.st.spec := by
  have hcs : ∀ c ∈ b.st.stopOrders, ∃ o, b.orders.get? c = some o :=
    fun c hc => (hk c hc).imp fun _ h => h.1
  have hreq : ∀ o : Order, ({ o with status := .canceled } : Order).req = o.req := fun _ => rfl
  obtain ⟨keep, orders, hs, hback⟩ := sweep_ok
    (fun o => o.req.reduceOnly && decide (o.req.side = Side.ofInt (-sign old))) hreq hcs
  refine ⟨_, bind_eq_ok.mpr ⟨_, hs, rfl⟩, ?_, rfl⟩
  refine hk.of_orders (sweep_sublist hs).subset (fun c o ho => ?_) rfl rfl
  obtain ⟨o', ho', hreq⟩ := hback c o ho
  exact ⟨o', ho', fun hflat => hreq ▸ hflat⟩

/-- The order in hand may be rewritten. -/
theorem Known.insert (hk : b.Known) (b' : Book) (coid : Uuid) (hside : o.req.side ≠ .flat)
    (hst : b'.st.stopOrders ⊆ b.st.stopOrders) (horders : b'.orders = b.orders.insert coid o) :
    b'.Known := by
  refine hk.of_orders hst (fun c oc hc => ?_) rfl horders
  rw [Dict.get?_insert]
  split
  · exact ⟨o, rfl, fun hflat => absurd hflat hside⟩
  · exact ⟨oc, hc, id⟩

/-- **An execution returns** for a price of at least one tick. -/
theorem execute_ok (coid : Uuid) {ts : ℤ} (reason : Option ExitReason) (hk : b.Known)
    (hside : o.req.side ≠ .flat) (hp : b.st.spec.tickSize.1 ≤ p) (hts : 0 ≤ ts) :
    ∃ b', b.execute coid o p ts reason = .ok b' ∧ b'.Known ∧ b'.st.spec = b.st.spec := by
  unfold execute
  -- the order is cancelled, or it is quoted and filled
  by_cases hq : b.executableQty o.req ≤ 0
  · simp only [hq, if_true]
    refine ⟨_, rfl, ?_, rfl⟩
    exact hk.insert _ coid
      (o := { o with status := .canceled, rejectCode := some .reduceOnly }) hside
      (List.Subset.refl _) rfl
  · simp only [hq, if_false]
    obtain ⟨q, cost, hquote, hprice⟩ := b.cost.quote_ok (b.executableQty o.req)
      (b.st.sigma b.cost) (b.st.vBar.getD 0) hside hp
    obtain ⟨f, hf⟩ : ∃ f, mkFill o.req.clientOrderId o.venueOrderId o.req.instrument o.req.side
        (b.executableQty o.req) q.price (b.cost.fee (b.executableQty o.req * q.price) .taker)
        .taker q.slippageBps ts = .ok f := by
      unfold mkFill
      rw [dif_pos (not_le.mp hq), dif_pos hprice, dif_pos (b.cost.fee_nonneg _ _), dif_pos hts]
      exact ⟨_, rfl⟩
    rw [hquote]
    simp only [bind, Except.bind]
    rw [hf]
    simp only
    have hrec : (b.recordFill coid o f cost (b.executionReason o.req reason)).Known :=
      hk.insert (b.recordFill coid o f cost (b.executionReason o.req reason)) coid
        (o := { o with
          status := .filled
          filledQty := f.qty
          avgPrice := some f.price
          exitReason := b.executionReason o.req reason }) hside (List.Subset.refl _) rfl
    split
    · exact onPositionClosed_ok hrec
    · exact ⟨_, rfl, hrec, rfl⟩

/-- A firing returns when its price and its time are valid. -/
theorem fire_ok (hk : b.Known) (htr : IsTrigger b t tr) (hp : b.st.spec.tickSize.1 ≤ p)
    (ht : 0 ≤ t) : ∃ b', b.fire tr p t = .ok b' ∧ b'.Known ∧ b'.st.spec = b.st.spec := by
  -- the synthetic order trades against a position that is not flat
  have hsyn : ∀ (st : InstState) (level : Decimal) (reason : ExitReason),
      st.position ≠ 0 → st.stopOrders = b.st.stopOrders → st.spec = b.st.spec →
      ∃ b', fireSynthetic { b with st := st } level p reason t = .ok b' ∧ b'.Known ∧
        b'.st.spec = b.st.spec := by
    intro st level reason hpos hstops hspec
    have hflat : Side.ofInt (-sign st.position) ≠ .flat := by
      rcases sign_cases st.position with ⟨-, hs⟩ | ⟨hzero, -⟩ | ⟨-, hs⟩
      · rw [hs]
        decide
      · exact absurd hzero hpos
      · rw [hs]
        decide
    unfold fireSynthetic syntheticRequest
    rw [if_neg hpos, if_neg (not_lt.mpr ht)]
    simp only [bind, Except.bind]
    have hstep : ∀ (order : Order) (coid : Uuid), order.req.side = Side.ofInt (-sign st.position) →
        ∃ b', execute
          { b with
            st := st
            ids := b.ids.nextUuid.2
            seq := b.seq + 1
            orders := b.orders.insert coid order } coid order p t (some reason) = .ok b' ∧
          b'.Known ∧ b'.st.spec = b.st.spec := by
      intro order coid hside
      rw [← hside] at hflat
      obtain ⟨b', hexec, hk', hspec'⟩ := execute_ok coid (p := p) (some reason)
        (hk.insert { b with
            st := st
            ids := b.ids.nextUuid.2
            seq := b.seq + 1
            orders := b.orders.insert coid order } coid hflat
          (by rw [← hstops]; exact List.Subset.refl _) rfl) hflat
        (by rw [← hspec] at hp; exact hp) ht
      exact ⟨b', hexec, hk', hspec'.trans hspec⟩
    exact hstep _ _ rfl
  cases htr with
  | @stop c₀ o₀ level₀ hc ho hnew hprice hts =>
    obtain ⟨o', ho', hside⟩ := hk c₀ hc
    obtain ⟨b', hexec, hb'⟩ := execute_ok c₀ (p := p) (b := b.takeStop c₀) none
      (fun c hc => hk c (List.mem_of_mem_erase hc)) hside hp ht
    exact ⟨b', bind_eq_ok.mpr ⟨o', orderOf_eq_ok.mpr ho', hexec⟩, hb'⟩
  | @tp level₀ hprice hpos hside =>
    exact hsyn { b.st with tpPrice := none, tpSide := 0 } level₀ .tp hpos rfl rfl
  | @liq level₀ hprice hpos =>
    exact hsyn { b.st with liqPrice := none } level₀ .liquidation hpos rfl rfl

/-- The triggers of an instrument that is known can be listed. -/
theorem triggers_ok (hk : b.Known) (t : ℤ) : ∃ ts, b.triggers t = .ok ts := by
  have hstops : ∀ cs : List Uuid, (∀ c ∈ cs, ∃ o, b.orders.get? c = some o) →
      ∃ ts, stopTriggers t b.orders cs = .ok ts := by
    intro cs hcs
    induction cs with
    | nil => exact ⟨[], rfl⟩
    | cons c cs ih =>
      obtain ⟨o, ho⟩ := hcs c (List.mem_cons_self ..)
      obtain ⟨ts, hts⟩ := ih fun x hx => hcs x (List.mem_cons_of_mem _ hx)
      rw [stopTriggers, orderOf_eq_ok.mpr ho, hts]
      exact ⟨_, rfl⟩
  obtain ⟨ts, hts⟩ := hstops b.st.stopOrders fun c hc => (hk c hc).imp fun _ h => h.1
  rw [triggers, hts]
  exact ⟨_, rfl⟩

/-- The triggers at the open return. -/
theorem walkAtOpen_ok {n : ℕ} (hk : b.Known) (hx : b.st.spec.tickSize.1 ≤ x) (ht : 0 ≤ t) :
    ∃ b', b.walkAtOpen x t n = .ok b' ∧ b'.Known ∧ b'.st.spec = b.st.spec := by
  induction n generalizing b with
  | zero => exact ⟨b, rfl, hk, rfl⟩
  | succ n ih =>
    obtain ⟨ts, hts⟩ := triggers_ok hk t
    rw [walkAtOpen, hts]
    simp only [bind, Except.bind]
    split
    · exact ⟨b, rfl, hk, rfl⟩
    · rename_i tr htr
      have hmem := (List.mem_filter.mp (firstMin_mem htr)).1
      obtain ⟨b₁, hb₁, hk₁, hspec₁⟩ := fire_ok hk (isTrigger_of_mem hts hmem) hx ht
      rw [hb₁]
      obtain ⟨b', hb', hk', hspec'⟩ := ih hk₁ (by rw [hspec₁]; exact hx)
      exact ⟨b', hb', hk', hspec'.trans hspec₁⟩

/-- A segment of the path returns, by induction on the fuel. -/
theorem walkSegment_ok {n : ℕ} {cur dest : Decimal} (hk : b.Known)
    (hcur : b.st.spec.tickSize.1 ≤ cur) (hdest : b.st.spec.tickSize.1 ≤ dest) (ht : 0 ≤ t) :
    ∃ b', b.walkSegment t dest n cur = .ok b' ∧ b'.Known ∧ b'.st.spec = b.st.spec := by
  induction n generalizing b cur with
  | zero => exact ⟨b, rfl, hk, rfl⟩
  | succ n ih =>
    rw [walkSegment]
    split
    · exact ⟨b, rfl, hk, rfl⟩
    -- the triggers are found, and one that fires does not fail
    · obtain ⟨ts, hts⟩ := triggers_ok hk t
      rw [hts]
      simp only [bind, Except.bind]
      split
      · exact ⟨b, rfl, hk, rfl⟩
      · rename_i tr htr
        obtain ⟨hmem, hway⟩ := List.mem_filter.mp (firstMin_mem htr)
        -- the walk goes on at its level, which is a price of the bar
        have hlevel := (onTheWay_range hway ⟨hcur, le_max_left cur dest⟩
          ⟨hdest, le_max_right cur dest⟩).1
        obtain ⟨b₁, hb₁, hk₁, hspec₁⟩ := fire_ok hk (isTrigger_of_mem hts hmem) hlevel ht
        rw [hb₁]
        have hlevel₁ : b₁.st.spec.tickSize.1 ≤ tr.level := by
          rw [hspec₁]
          exact hlevel
        obtain ⟨b', hb', hk', hspec'⟩ := ih hk₁ hlevel₁ (by rw [hspec₁]; exact hdest)
        exact ⟨b', hb', hk', hspec'.trans hspec₁⟩

/-- The path returns, by induction on its points. -/
theorem walkPath_ok {rest : List Decimal} {cur : Decimal} (hk : b.Known)
    (hcur : b.st.spec.tickSize.1 ≤ cur) (hrest : ∀ x ∈ rest, b.st.spec.tickSize.1 ≤ x)
    (ht : 0 ≤ t) : ∃ b', walkPath t rest b cur = .ok b' := by
  induction rest generalizing b cur with
  | nil => exact ⟨b, rfl⟩
  | cons dest rest ih =>
    have hdest := hrest dest (List.mem_cons_self ..)
    obtain ⟨b₁, hb₁, hk₁, hspec₁⟩ := walkSegment_ok (n := b.budget) hk hcur hdest ht
    rw [walkPath, hb₁]
    refine ih hk₁ (by rw [hspec₁]; exact hdest) fun x hx => ?_
    rw [hspec₁]
    exact hrest x (List.mem_cons_of_mem _ hx)

/-- **The walk returns** when the broker knows its stops and the bar lies above one tick. -/
theorem walkTriggers_ok {bar : DecBar} (hk : b.Known) (ht : 0 ≤ bar.openTimeNs)
    (hl : b.st.spec.tickSize.1 ≤ bar.l) (hlo : bar.l ≤ bar.o) (hoh : bar.o ≤ bar.h)
    (hlc : bar.l ≤ bar.c) : ∃ b', b.walkTriggers bar = .ok b' := by
  obtain ⟨ts, hts⟩ := triggers_ok hk bar.openTimeNs
  rw [walkTriggers, hts]
  simp only [bind, Except.bind]
  split
  · exact ⟨b, rfl⟩
  · obtain ⟨b₁, hb₁, hk₁, hspec₁⟩ := walkAtOpen_ok (n := b.budget) hk (hl.trans hlo) ht
    rw [hb₁]
    refine walkPath_ok hk₁ (by rw [hspec₁]; exact hl.trans hlo) (fun x hx => ?_) ht
    rw [hspec₁]
    rcases path_cases b₁ bar with hpath | hpath <;> rw [hpath] at hx <;>
      simp only [List.mem_cons, List.not_mem_nil, or_false] at hx <;>
      rcases hx with rfl | rfl | rfl
    · exact hl
    · exact hl.trans (hlo.trans hoh)
    · exact hl.trans hlc
    · exact hl.trans (hlo.trans hoh)
    · exact hl
    · exact hl.trans hlc

/-! ### The whole walk -/

/-- A segment that is cut short does leave a stop at its end. -/
theorem CutShort.leaves {dest cur : Decimal} (hcut : CutShort t dest b cur) {n : ℕ}
    (hn : b.budget ≤ n) (h : b.walkSegment t dest n cur = .ok b') :
    ∃ c o, LiveStop b' t c o dest := by
  induction hcut generalizing n with
  | @here b b₁ cur ts tr c o hne hts hfirst hend hfire hleft hdir =>
    have hlt := fire_budget (isTrigger_of_mem hts
      (List.mem_filter.mp (firstMin_mem hfirst)).1) hfire
    obtain ⟨n, rfl⟩ : ∃ m, n = m + 1 := ⟨n - 1, by omega⟩
    rw [walkSegment, if_neg hne, hts] at h
    simp only [bind, Except.bind, hfirst, hend, hfire] at h
    -- the loop is left at once, its price being at the end
    cases n with
    | zero =>
      cases h
      exact ⟨c, o, hleft⟩
    | succ n =>
      rw [walkSegment, if_pos rfl] at h
      cases h
      exact ⟨c, o, hleft⟩
  | later hne hts hfirst hfire _ ih =>
    have hlt := fire_budget (isTrigger_of_mem hts
      (List.mem_filter.mp (firstMin_mem hfirst)).1) hfire
    obtain ⟨n, rfl⟩ : ∃ m, n = m + 1 := ⟨n - 1, by omega⟩
    rw [walkSegment, if_neg hne, hts] at h
    simp only [bind, Except.bind, hfirst, hfire] at h
    exact ih (by omega) h

/-- On the way to one of the two extremes of `bar`, a firing at the extreme itself is
    outlived by another stop of the same direction at that level. -/
def CutsShort (b : Book) (bar : DecBar) : Prop :=
  ∃ b₁, b.walkAtOpen bar.o bar.openTimeNs b.budget = .ok b₁ ∧
    PathCutShort bar.openTimeNs ((b₁.path bar).take 2) b₁ bar.o

/-- No live stop lies inside the range of the bar. -/
def Clear (b : Book) (bar : DecBar) : Prop :=
  ∀ c o level, LiveStop b bar.openTimeNs c o level →
    if o.req.side = .long then bar.h < level else level < bar.l

/-- Nothing fires where every stop is beyond both ends of the bar. -/
theorem clear_of_beyond (hup : StopsBeyond b bar.openTimeNs true bar.h)
    (hdown : StopsBeyond b bar.openTimeNs false bar.l) : b.Clear bar := by
  intro c o level hl
  split
  · rename_i hlong
    simpa [Beyond] using hup c o level hl (by simpa using hlong)
  · rename_i hnot
    simpa [Beyond] using hdown c o level hl (by simpa using hnot)

/-- A walk that is not cut short leaves no live stop inside the range. -/
theorem walkTriggers_clears (hlo : bar.l ≤ bar.o) (hoh : bar.o ≤ bar.h)
    (h : b.walkTriggers bar = .ok b') (hcut : ¬b.CutsShort bar) : b'.Clear bar := by
  rw [walkTriggers, bind_eq_ok] at h
  obtain ⟨ts, hts, h⟩ := h
  split at h
  · -- nothing was reachable in the first place
    rename_i hnone
    cases h
    intro c o level hl
    have hnot : reachable bar ts = false := by simpa using hnone
    unfold reachable at hnot
    rw [List.any_eq_false] at hnot
    have hc := hnot _ (hl.mem_triggers hts)
    unfold ofStop at hc
    split
    · rename_i hlong
      simpa [hlong] using hc
    · rename_i hshort
      simpa [hshort] using hc
  · rw [bind_eq_ok] at h
    obtain ⟨b₁, hb₁, h⟩ := h
    -- at the open everything behind it has fired
    have hopen : ∀ up, StopsBeyond b₁ bar.openTimeNs up bar.o :=
      fun up => walkAtOpen_clears le_rfl hb₁
    have hnot : ¬PathCutShort bar.openTimeNs ((b₁.path bar).take 2) b₁ bar.o :=
      fun hc => hcut ⟨b₁, hb₁, hc⟩
    -- each half of the path clears its own side
    rcases path_cases b₁ bar with hpath | hpath <;> rw [hpath] at h hnot
    · obtain ⟨hdown, hup⟩ := walkPath_clears false h (by simpa [Ahead] using hlo)
        (by simpa [Ahead] using hoh) (hopen _) (hopen _) hnot
      exact clear_of_beyond hup hdown
    · obtain ⟨hup, hdown⟩ := walkPath_clears true h (by simpa [Ahead] using hoh)
        (by simpa [Ahead] using hlo) (hopen _) (hopen _) hnot
      exact clear_of_beyond hup hdown

/-- Two triggers of one direction share the level `x`, one of them a live stop. -/
def Tied (b : Book) (t : ℤ) (x : Decimal) : Prop :=
  ∃ c o, LiveStop b t c o x ∧ (b.st.tpPrice = some x ∨ b.st.liqPrice = some x ∨
    ∃ c' o', c' ≠ c ∧ LiveStop b t c' o' x ∧
      decide (o'.req.side = .long) = decide (o.req.side = .long))

/-- An execution brings no new levels. -/
theorem execute_levels {coid : Uuid} {ts : ℤ} {reason : Option ExitReason}
    (h : b.execute coid o p ts reason = .ok b') :
    (b'.st.tpPrice = some x → b.st.tpPrice = some x) ∧
      (b'.st.liqPrice = some x → b.st.liqPrice = some x) := by
  rcases execute_eq_ok h with ⟨-, rfl⟩ | ⟨-, -, f, cost, -, -, -, -, -, h⟩
  · exact ⟨id, id⟩
  · split at h
    · obtain ⟨keep, orders, -, rfl⟩ := onPositionClosed_eq_ok h
      refine ⟨fun htp => ?_, by simp⟩
      simp only at htp
      split at htp
      · cases htp
      · exact htp
    · rw [h]
      exact ⟨id, id⟩

/-- A firing sets no level. -/
theorem fire_levels (htr : IsTrigger b t tr) (h : b.fire tr p t = .ok b') :
    (b'.st.tpPrice = some x → b.st.tpPrice = some x) ∧
      (b'.st.liqPrice = some x → b.st.liqPrice = some x) := by
  rcases fire_eq_ok htr h with ⟨c, o, -, -, -, -, h⟩ | ⟨-, tp, order, reason, -, -, h⟩
  · exact execute_levels (b := b.takeStop c) h
  · obtain ⟨htp, hliq⟩ := execute_levels (x := x) h
    constructor
    · intro hx
      have := htp hx
      cases tp <;> simp_all [takeSynthetic]
    · intro hx
      have := hliq hx
      cases tp <;> simp_all [takeSynthetic]

/-- A firing ties no level. -/
theorem Tied.of_fire (htr : IsTrigger b t tr) (h : b.fire tr p t = .ok b') (ht : Tied b' t x) :
    Tied b t x := by
  obtain ⟨c, o, hl, htie⟩ := ht
  refine ⟨c, o, (fire_liveStop htr h hl).1, ?_⟩
  rcases htie with htp | hliq | ⟨c', o', hne, hl', hdir⟩
  · exact .inl ((fire_levels htr h).1 htp)
  · exact .inr (.inl ((fire_levels htr h).2 hliq))
  · exact .inr (.inr ⟨c', o', hne, (fire_liveStop htr h hl').1, hdir⟩)

/-- Only a segment to a tied level is cut short. -/
theorem CutShort.tied {dest cur : Decimal} (hcut : CutShort t dest b cur)
    (hside : Ahead up cur dest) : Tied b t dest := by
  induction hcut with
  | @here b b₁ cur ts tr c o hne hts hfirst hend hfire hleft hdir =>
    obtain ⟨hmem, hway⟩ := List.mem_filter.mp (firstMin_mem hfirst)
    have htrig := isTrigger_of_mem hts hmem
    obtain ⟨hold, hother⟩ := fire_liveStop htrig hfire hleft
    refine ⟨c, o, hold, ?_⟩
    rw [onTheWay_iff hside hne] at hway
    have hup : decide (cur < dest) = up := by
      cases up
      · simpa [Ahead] using hside
      · simpa using lt_of_le_of_ne hside (Ne.symm hne)
    -- what fired there was another stop, the take-profit or the liquidation
    cases htrig with
    | @stop c' o' level hc ho hnew hprice hcreated =>
      cases hend
      exact .inr (.inr ⟨c', o', fun heq => hother (congrArg some heq),
        ⟨hc, ho, hnew, hprice, hcreated⟩, hway.1.trans (hup.symm.trans hdir.symm)⟩)
    | tp hprice =>
      cases hend
      exact .inl hprice
    | liq hprice =>
      cases hend
      exact .inr (.inl hprice)
  | later hne hts hfirst hfire _ ih =>
    obtain ⟨hmem, hway⟩ := List.mem_filter.mp (firstMin_mem hfirst)
    rw [onTheWay_iff hside hne] at hway
    exact .of_fire (isTrigger_of_mem hts hmem) hfire (ih hway.2.2)

/-- **Bars without ties.** A walk is cut short only when a live stop shares its level with
    another trigger, and that level is the low or the high of the bar. -/
theorem CutsShort.tied (hlo : bar.l ≤ bar.o) (hoh : bar.o ≤ bar.h) (hcut : b.CutsShort bar) :
    Tied b bar.openTimeNs bar.l ∨ Tied b bar.openTimeNs bar.h := by
  obtain ⟨b₁, hb₁, hpath⟩ := hcut
  have hopen : ∀ x, Tied b₁ bar.openTimeNs x → Tied b bar.openTimeNs x := fun x =>
    walkAtOpen_rule (P := fun b' => Tied b' bar.openTimeNs x → Tied b bar.openTimeNs x)
      (fun _ _ _ _ hP htr hf ht => hP (ht.of_fire htr hf)) id hb₁
  have hlh : bar.l ≤ bar.h := hlo.trans hoh
  -- the two segments, in either order
  have key : ∀ (up : Bool) {e₁ e₂ : Decimal}, Ahead up bar.o e₁ → Ahead (!up) e₁ e₂ →
      PathCutShort bar.openTimeNs [e₁, e₂] b₁ bar.o →
      Tied b bar.openTimeNs e₁ ∨ Tied b bar.openTimeNs e₂ := by
    intro up e₁ e₂ h₁ h₂ hp
    rcases hp with hfirst | ⟨b₂, hb₂, hsecond | ⟨_, -, hnil⟩⟩
    · exact .inl (hopen _ (hfirst.tied h₁))
    · refine .inr (hopen _ ?_)
      exact walkSegment_rule
        (P := fun b' => Tied b' bar.openTimeNs e₂ → Tied b₁ bar.openTimeNs e₂)
        (fun _ _ _ _ hP htr hf ht => hP (ht.of_fire htr hf)) id hb₂ (hsecond.tied h₂)
    · exact hnil.elim
  rcases path_cases b₁ bar with hcase | hcase <;> rw [hcase] at hpath
  · exact key false (by simpa [Ahead] using hlo) (by simpa [Ahead] using hlh) hpath
  · exact (key true (by simpa [Ahead] using hoh) (by simpa [Ahead] using hlh) hpath).symm

/-- **A bar** is a sequence of firings. -/
theorem walkTriggers_firings (hlo : bar.l ≤ bar.o) (hoh : bar.o ≤ bar.h) (hlc : bar.l ≤ bar.c)
    (hch : bar.c ≤ bar.h) (h : b.walkTriggers bar = .ok b') : Firings bar b b' := by
  rw [walkTriggers, bind_eq_ok] at h
  obtain ⟨ts, -, h⟩ := h
  split at h
  · cases h
    exact .refl
  · rw [bind_eq_ok] at h
    obtain ⟨b₁, hb₁, h⟩ := h
    refine (walkAtOpen_firings hlo hoh hb₁).trans (walkPath_firings ⟨hlo, hoh⟩ ?_ h)
    intro x hx
    have hl : bar.l ≤ bar.l ∧ bar.l ≤ bar.h := ⟨le_rfl, hlo.trans hoh⟩
    have hh : bar.l ≤ bar.h ∧ bar.h ≤ bar.h := ⟨hlo.trans hoh, le_rfl⟩
    rcases path_cases b₁ bar with hpath | hpath <;> rw [hpath] at hx <;>
      simp only [List.mem_cons, List.not_mem_nil, or_false] at hx <;>
      rcases hx with rfl | rfl | rfl
    exacts [hl, hh, ⟨hlc, hch⟩, hh, hl, ⟨hlc, hch⟩]

end Book

/-- **The walk along a bar**, for any book and any bar whose open and close lie in its range.
    Its loops end by themselves: more turns than the budget change nothing, and with known
    stops above one tick the walk returns.  When it returns, it went through firings that
    execute at the trigger's level or at an open beyond it, inside the range, and whose
    reducing fills shrink the position without crossing zero.  No live stop is left inside the
    range, if no segment is cut short; and that takes two triggers tied at an extreme. -/
theorem walk_triggers (b : Book) (bar : DecBar) (hlo : bar.l ≤ bar.o) (hoh : bar.o ≤ bar.h)
    (hlc : bar.l ≤ bar.c) (hch : bar.c ≤ bar.h) :
    (∀ (b₁ : Book) (n : ℕ), b₁.budget ≤ n →
      b₁.walkAtOpen bar.o bar.openTimeNs (n + 1) = b₁.walkAtOpen bar.o bar.openTimeNs n ∧
      ∀ dest cur, b₁.walkSegment bar.openTimeNs dest (n + 1) cur =
        b₁.walkSegment bar.openTimeNs dest n cur) ∧
    (b.Known → 0 ≤ bar.openTimeNs → b.st.spec.tickSize.1 ≤ bar.l →
      ∃ b', b.walkTriggers bar = .ok b') ∧
    (∀ b', b.walkTriggers bar = .ok b' →
      Book.Firings bar b b' ∧ (¬b.CutsShort bar → b'.Clear bar)) ∧
    (b.CutsShort bar → b.Tied bar.openTimeNs bar.l ∨ b.Tied bar.openTimeNs bar.h) := by
  refine ⟨fun b₁ n hn => ⟨Book.walkAtOpen_fuel _ _ hn, fun dest cur =>
    Book.walkSegment_fuel dest cur _ hn⟩, fun hk ht hl =>
    Book.walkTriggers_ok hk ht hl hlo hoh hlc, fun b' h => ?_, fun hcut => hcut.tied hlo hoh⟩
  exact ⟨Book.walkTriggers_firings hlo hoh hlc hch h, Book.walkTriggers_clears hlo hoh h⟩

/-! ### Two stops at the low -/

/-- A reduce-only stop that sells one contract at 90. -/
def stopAtNinety (coid : Uuid) : Order :=
  .accepted ⟨coid, "BTC", .short, .stopMarket, 1, some 90, true, none, 1⟩ 1 1

/-- A long of two contracts behind two such stops, with a take-profit at 120. -/
def tiedStops : Book where
  st := { InstState.new sampleInstrument 0 with
    position := 2
    tpPrice := some 120
    stopOrders := [3, 5] }
  orders := ((∅ : Dict Uuid Order).insert 3 (stopAtNinety 3)).insert 5 (stopAtNinety 5)
  ids := evenIds
  seq := 2
  cost := sampleCost
  fills := []

/-- A bar whose low is the level of the stops. -/
def lowAtNinety : DecBar := ⟨"BTC", 4, 100, 110, 90, 105, 7⟩

/-- The walk along that bar returns and goes through firings. -/
theorem walk_triggers_tiedStops : ∃ b', tiedStops.walkTriggers lowAtNinety = .ok b' ∧
    Book.Firings lowAtNinety tiedStops b' := by
  have hlaw := walk_triggers tiedStops lowAtNinety (by decide +kernel) (by decide +kernel)
    (by decide +kernel) (by decide +kernel)
  have hknown : tiedStops.Known := by
    intro c hc
    have hcases : c = 3 ∨ c = 5 := by simpa [tiedStops] using hc
    rcases hcases with rfl | rfl
    · exact ⟨stopAtNinety 3, by decide +kernel, by decide⟩
    · exact ⟨stopAtNinety 5, by decide +kernel, by decide⟩
  obtain ⟨b', hb'⟩ := hlaw.2.1 hknown (by decide) (by decide +kernel)
  exact ⟨b', hb', (hlaw.2.2.1 b' hb').1⟩

/-- **One of the two stops is left**: the first one brings the price to the low, and the
    segment ends there with the second one still new at a level that the price has reached. -/
theorem tied_stop_left : ∃ b' c o, tiedStops.walkTriggers lowAtNinety = .ok b' ∧
    Book.LiveStop b' lowAtNinety.openTimeNs c o lowAtNinety.l ∧ o.req.side = .short ∧
    ¬b'.Clear lowAtNinety := by
  have hrun : (tiedStops.walkTriggers lowAtNinety).toOption.map
      (fun b' => (b'.st.stopOrders, b'.orders.get? 5)) = some ([5], some (stopAtNinety 5)) := by
    decide +kernel
  cases hwalk : tiedStops.walkTriggers lowAtNinety with
  | error e =>
    rw [hwalk] at hrun
    cases hrun
  | ok b' =>
    rw [hwalk] at hrun
    have hpair := Prod.mk.inj (Option.some.inj hrun)
    have hlive : Book.LiveStop b' lowAtNinety.openTimeNs 5 (stopAtNinety 5) lowAtNinety.l :=
      ⟨by rw [hpair.1]; simp, hpair.2, rfl, rfl, by decide⟩
    refine ⟨b', 5, stopAtNinety 5, rfl, hlive, rfl, fun hclear => ?_⟩
    exact absurd (hclear _ _ _ hlive) (by decide +kernel)

end FuzzHelm
