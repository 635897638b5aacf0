import FuzzHelm.Ingest.GapBooks

namespace FuzzHelm

open Lib

/-!
# The candles that are missing

Every minute from the first candle on is settled once, in order.  A minute that has been closed
by then is discarded; the others go into runs, and a run becomes a gap when it ends.

* `minutes` — a run of consecutive minutes;
* `CandleBooks` — every settled minute is delivered, missed by a gap, or in the run in hand;
* `CandleBooks.pass`, `.miss`, `.close` — the steps of the sweep;
* `sweepKlines_books`, `takeKline_books` — the sweep, and a candle.
-/

/-! ### Runs of minutes -/

/-- The `n` minutes of length `tf` from `a` on. -/
def minutes (tf a : ℤ) (n : ℕ) : List ℤ := (List.range n).map fun i : ℕ => a + i * tf

/-- One minute more comes at the end. -/
theorem minutes_succ (tf a : ℤ) (n : ℕ) :
    minutes tf a (n + 1) = minutes tf a n ++ [a + n * tf] := by
  unfold minutes
  rw [List.range_succ, List.map_append, List.map_singleton]

/-- The minutes are the places of the grid from `a` on. -/
theorem mem_minutes {tf : ℤ} (htf : 0 < tf) {a k : ℤ} {n : ℕ} :
    k ∈ minutes tf a n ↔ a ≤ k ∧ k < a + n * tf ∧ tf ∣ k - a := by
  unfold minutes
  rw [List.mem_map]
  constructor
  -- a multiple of the interval below the `n`-th
  · rintro ⟨i, hi, rfl⟩
    have hlt : (i : ℤ) * tf < n * tf :=
      mul_lt_mul_of_pos_right (by exact_mod_cast List.mem_range.mp hi) htf
    have hnonneg : 0 ≤ (i : ℤ) * tf := by positivity
    exact ⟨by omega, by omega, i, by ring⟩
  · rintro ⟨hle, hlt, q, hq⟩
    -- the quotient is a position in the list
    have hq0 : 0 ≤ q := by
      by_contra hneg
      have hbad : tf * q < 0 := mul_neg_of_pos_of_neg htf (not_le.mp hneg)
      omega
    obtain ⟨i, rfl⟩ := Int.eq_ofNat_of_zero_le hq0
    have hlast : tf * (i : ℤ) < tf * n := by
      rw [mul_comm tf (n : ℤ)]
      omega
    have hi : i < n := by exact_mod_cast lt_of_mul_lt_mul_left hlast htf.le
    refine ⟨i, List.mem_range.mpr hi, ?_⟩
    rw [mul_comm]
    omega

/-- The minutes from `a` to the last one, included. -/
theorem mem_minutes_succ {tf : ℤ} (htf : 0 < tf) {a k : ℤ} {n : ℕ} :
    k ∈ minutes tf a (n + 1) ↔ a ≤ k ∧ k ≤ a + n * tf ∧ tf ∣ k - a := by
  rw [mem_minutes htf]
  refine and_congr_right fun _ => and_congr_left fun hdvd => ?_
  have hnext : a + ((n + 1 : ℕ) : ℤ) * tf = a + n * tf + tf := by
    push_cast
    ring
  rw [hnext]
  constructor
  · intro hlt
    by_contra hgt
    have hgap : tf ∣ k - (a + n * tf) := by
      have heq : k - (a + n * tf) = (k - a) - n * tf := by ring
      rw [heq]
      exact dvd_sub hdvd (dvd_mul_left _ _)
    have hle := Int.le_of_dvd (by omega) hgap
    omega
  · intro hle
    omega

/-- No minute comes twice. -/
theorem minutes_nodup {tf : ℤ} (htf : 0 < tf) (a : ℤ) (n : ℕ) : (minutes tf a n).Nodup := by
  refine List.Nodup.map (fun i j hij => ?_) List.nodup_range
  have hmul : (i : ℤ) * tf = j * tf := add_left_cancel hij
  exact_mod_cast mul_right_cancel₀ htf.ne' hmul

/-- The first and the last minute of a run, and their number. -/
theorem minutes_ends {tf : ℤ} (htf : 0 < tf) {a lo : ℤ} {n : ℕ} {rest : List ℤ}
    (h : minutes tf a n = lo :: rest) :
    ∃ k : ℕ, n = k + 1 ∧ lo = a ∧ rest.getLastD lo = a + k * tf ∧
      (lo :: rest).toFinset.card = n := by
  cases n with
  | zero => cases h
  | succ k =>
    have hfirst : lo = a := by
      have hhead : (minutes tf a (k + 1)).head? = some lo := by rw [h]; rfl
      unfold minutes at hhead
      rw [List.range_succ_eq_map] at hhead
      simpa using hhead.symm
    have hlast : rest.getLastD lo = a + k * tf := by
      have hget : (lo :: rest).getLast? = some (a + k * tf) := by
        rw [← h, minutes_succ, List.getLast?_concat]
      rw [List.getLast?_cons, Option.some.injEq, ← List.getLastD_eq_getLast?] at hget
      exact hget
    refine ⟨k, rfl, hfirst, hlast, ?_⟩
    rw [← h, List.toFinset_card_of_nodup (minutes_nodup htf a _)]
    simp [minutes]

/-! ### The books -/

/-- The minute `m` lies in the gap `g`, whose minutes have the length `tf`. -/
def Covers (tf : ℤ) (g : GapRecord) (m : ℤ) : Prop :=
  g.tsLoNs ≤ m ∧ m ≤ g.tsHiNs ∧ tf ∣ m - g.tsLoNs

/-- A minute between the first one and the settled bound. -/
def Slot (tf first lo m : ℤ) : Prop := first ≤ m ∧ m < lo ∧ tf ∣ m - first

/-- A gap of candles: a run of minutes, each of which it misses still or has been delivered; the
    gaps from the id `old` on miss all of them. -/
structure KlineGap (delivered : ℤ → Prop) (first lo : ℤ) (old : ℕ) (d : GapDetector) (gid : ℕ)
    (g : GapRecord) : Prop where
  span : ∃ n : ℕ, g.tsHiNs = g.tsLoNs + n * d.tf.ns ∧ g.expectedCount = n + 1
  slots : ∀ m, Covers d.tf.ns g m → Slot d.tf.ns first lo m
  owned : ∀ m, d.owner .klines m = some gid → Covers d.tf.ns g m
  covered : ∀ m, Covers d.tf.ns g m →
    d.owner .klines m = some gid ∨ (delivered m ∧ gid < old)

/-- **The books of the candles**, in the middle of a sweep that has settled the minutes below `lo`
    and has `run` in hand. -/
structure CandleBooks (delivered : ℤ → Prop) (first lo : ℤ) (run : List ℤ) (old : ℕ)
    (d : GapDetector) : Prop where
  kLo : d.kLo = some lo
  first_le : first ≤ lo
  bound : d.tf.ns ∣ lo - first
  /-- The closed minutes from the bound on are waiting. -/
  closed : ∀ m, d.tf.ns ∣ m - first → (m ∈ d.kClosed ↔ delivered m ∧ lo ≤ m)
  /-- A settled minute is missing exactly when it has not been delivered. -/
  settled : ∀ m, Slot d.tf.ns first lo m →
    ((d.owner .klines m).isSome ∨ m ∈ run ↔ ¬delivered m)
  owned : ∀ m, (d.owner .klines m).isSome → Slot d.tf.ns first lo m ∧ m ∉ run
  /-- The run in hand is a run of minutes that ends at the bound. -/
  run : ∃ (a : ℤ) (n : ℕ), run = minutes d.tf.ns a n ∧ a + n * d.tf.ns = lo ∧ first ≤ a
  gaps : ∀ gid g, d.gaps.get? gid = some g → g.stream = .klines →
    KlineGap delivered first lo old d gid g

/-- Before the first candle. -/
structure NoCandles (d : GapDetector) : Prop where
  kLo : d.kLo = none
  kClosed : d.kClosed = ∅
  owner : ∀ m, d.owner .klines m = none
  gaps : ∀ gid g, d.gaps.get? gid = some g → g.stream ≠ .klines

/-- A place before a horizon is before every later one. -/
theorem Slot.mono {tf first lo lo' m : ℤ} (h : Slot tf first lo m) (hlo : lo ≤ lo') :
    Slot tf first lo' m := ⟨h.1, h.2.1.trans_le hlo, h.2.2⟩

/-- What a gap covers depends on its bounds alone. -/
theorem Covers.congr {tf m : ℤ} {g g' : GapRecord} (h : SameGap g g') :
    Covers tf g' m ↔ Covers tf g m := by
  unfold Covers
  rw [h.tsLoNs, h.tsHiNs]

/-- The bound lies on the grid of the minutes, so no settled minute is within a minute of it. -/
theorem Slot.add_le {tf first lo m : ℤ} (h : Slot tf first lo m) (hlo : tf ∣ lo - first) :
    m + tf ≤ lo := by
  have hdvd : tf ∣ lo - m := by
    have heq : lo - m = (lo - first) - (m - first) := by ring
    rw [heq]
    exact dvd_sub hlo h.2.2
  have hle := Int.le_of_dvd (by have := h.2.1; omega) hdvd
  omega

/-- A minute below the next bound is a settled one or the bound. -/
theorem Slot.succ {tf first lo m : ℤ} (h : Slot tf first (lo + tf) m) (hlo : tf ∣ lo - first) :
    Slot tf first lo m ∨ m = lo := by
  rcases lt_trichotomy m lo with hlt | heq | hgt
  · exact .inl ⟨h.1, hlt, h.2.2⟩
  · exact .inr heq
  · have hnext : tf ∣ lo + tf - first := by
      have heq : lo + tf - first = (lo - first) + tf := by ring
      rw [heq]
      exact dvd_add hlo (dvd_refl tf)
    have hle := h.add_le hnext
    omega

namespace CandleBooks

variable {delivered : ℤ → Prop} {first lo : ℤ} {run : List ℤ} {old : ℕ} {d d' : GapDetector}

/-- The books of the candles do not look at the other streams. -/
theorem congr (h : CandleBooks delivered first lo run old d) (htf : d'.tf = d.tf)
    (hlo : d'.kLo = d.kLo) (hclosed : d'.kClosed = d.kClosed)
    (hsame : SameGapsOf .klines d d') : CandleBooks delivered first lo run old d' where
  -- each field reads only what the hypotheses keep
  kLo := hlo.trans h.kLo
  first_le := h.first_le
  bound := by
    rw [htf]
    exact h.bound
  closed := by
    rw [htf, hclosed]
    exact h.closed
  settled := by
    intro m
    rw [htf, hsame.owner]
    exact h.settled m
  owned := by
    intro m ho
    rw [hsame.owner] at ho
    rw [htf]
    exact h.owned m ho
  run := by
    rw [htf]
    exact h.run
  gaps := by
    intro gid g' hg' hs
    obtain ⟨g, hg, hg₀⟩ := hsame.gaps gid g' hg' hs
    have hgap := h.gaps gid g hg (hg₀.stream.symm.trans hs)
    refine ⟨?_, ?_, ?_, ?_⟩
    · rw [hg₀.tsHiNs, hg₀.tsLoNs, hg₀.expectedCount, htf]
      exact hgap.span
    · intro m hm
      rw [htf] at hm ⊢
      exact hgap.slots m ((Covers.congr hg₀).mp hm)
    · intro m hm
      rw [hsame.owner] at hm
      rw [htf]
      exact (Covers.congr hg₀).mpr (hgap.owned m hm)
    · intro m hm
      rw [htf] at hm
      rw [hsame.owner]
      exact hgap.covered m ((Covers.congr hg₀).mp hm)

/-- Later gaps are old gaps to the next call. -/
theorem relax (h : CandleBooks delivered first lo run old d) {old' : ℕ} (hold : old ≤ old') :
    CandleBooks delivered first lo run old' d :=
  { h with
    gaps := fun gid g hg hs =>
      have hgap := h.gaps gid g hg hs
      { hgap with
        covered := fun m hm =>
          (hgap.covered m hm).imp_right fun hd => ⟨hd.1, hd.2.trans_le hold⟩ } }

/-- A minute of the run is a place of the grid. -/
theorem slot_of_run (h : CandleBooks delivered first lo run old d) {m : ℤ} (hm : m ∈ run) :
    Slot d.tf.ns first lo m := by
  obtain ⟨a, n, rfl, ha, hfirst⟩ := h.run
  obtain ⟨hle, hlt, hdvd⟩ := (mem_minutes d.tf.ns_pos).mp hm
  refine ⟨hfirst.trans hle, by omega, ?_⟩
  have heq : m - first = (m - a) + ((lo - first) - n * d.tf.ns) := by
    rw [← ha]
    ring
  rw [heq]
  exact dvd_add hdvd (dvd_sub h.bound (dvd_mul_left _ _))

/-! ### The sweep -/

/-- **The sweep settles the minute at the bound**: it leaves the closed minutes, and it is in the
    run in hand exactly when it has not been delivered. -/
theorem step (h : CandleBooks delivered first lo run old d) (run' : List ℤ)
    (closed : Finset ℤ) (stats : GapStats)
    (hclosed : ∀ m, d.tf.ns ∣ m - first → (m ∈ closed ↔ m ∈ d.kClosed ∧ m ≠ lo))
    (hlo : lo ∈ run' ↔ ¬delivered lo) (hrun : ∀ m, m < lo → (m ∈ run' ↔ m ∈ run))
    (hends : ∃ (a : ℤ) (n : ℕ), run' = minutes d.tf.ns a n ∧ a + n * d.tf.ns = lo + d.tf.ns ∧
      first ≤ a) :
    CandleBooks delivered first (lo + d.tf.ns) run' old
      { d with kClosed := closed, kLo := some (lo + d.tf.ns), stats := stats } := by
  have hpos := d.tf.ns_pos
  have hle : lo ≤ lo + d.tf.ns := by omega
  exact {
    kLo := rfl
    first_le := h.first_le.trans hle
    bound := by
      have heq : lo + d.tf.ns - first = (lo - first) + d.tf.ns := by ring
      show d.tf.ns ∣ lo + d.tf.ns - first
      rw [heq]
      exact dvd_add h.bound (dvd_refl _)
    closed := by
      intro m hdvd
      show m ∈ closed ↔ delivered m ∧ lo + d.tf.ns ≤ m
      rw [hclosed m hdvd, h.closed m hdvd]
      constructor
      · rintro ⟨⟨hd, hm⟩, hne⟩
        refine ⟨hd, ?_⟩
        by_contra hlt
        -- a minute between two bounds is the first of them
        rcases Slot.succ ⟨h.first_le.trans hm, not_le.mp hlt, hdvd⟩ h.bound with hs | heq
        · exact absurd hs.2.1 (not_lt.mpr hm)
        · exact hne heq
      · rintro ⟨hd, hm⟩
        exact ⟨⟨hd, by omega⟩, by omega⟩
    settled := by
      intro m hslot
      rcases hslot.succ h.bound with hs | rfl
      · rw [hrun m hs.2.1]
        exact h.settled m hs
      · -- no gap misses a minute from the bound on
        have hfree : ¬(d.owner .klines m).isSome := fun ho => lt_irrefl _ (h.owned m ho).1.2.1
        exact (or_iff_right hfree).trans hlo
    owned := by
      intro m ho
      obtain ⟨hslot, hnot⟩ := h.owned m ho
      exact ⟨hslot.mono hle, fun hm => hnot ((hrun m hslot.2.1).mp hm)⟩
    run := hends
    gaps := by
      intro gid g hg hs
      have hgap := h.gaps gid g hg hs
      exact { hgap with slots := fun m hm => (hgap.slots m hm).mono hle } }

/-- The bound passes a minute that is closed. -/
theorem pass (h : CandleBooks delivered first lo [] old d) (hm : lo ∈ d.kClosed)
    (stats : GapStats) :
    CandleBooks delivered first (lo + d.tf.ns) [] old
      { d with kClosed := d.kClosed.erase lo, kLo := some (lo + d.tf.ns), stats := stats } := by
  have hpos := d.tf.ns_pos
  have hfirst := h.first_le
  have hd : delivered lo := ((h.closed lo h.bound).mp hm).1
  apply h.step
  · intro m _
    rw [Finset.mem_erase, and_comm]
  · simp [hd]
  · exact fun m _ => Iff.rfl
  · exact ⟨lo + d.tf.ns, 0, rfl, by simp, by omega⟩

/-- The bound passes a minute that is not closed. -/
theorem miss (h : CandleBooks delivered first lo run old d) (hm : lo ∉ d.kClosed)
    (stats : GapStats) :
    CandleBooks delivered first (lo + d.tf.ns) (run ++ [lo]) old
      { d with kLo := some (lo + d.tf.ns), stats := stats } := by
  have hd : ¬delivered lo := fun hd => hm ((h.closed lo h.bound).mpr ⟨hd, le_refl _⟩)
  obtain ⟨a, n, rfl, ha, hfirst⟩ := h.run
  refine h.step _ d.kClosed stats (fun m _ => ?_) ?_ (fun m hlt => ?_) ?_
  · rw [iff_self_and]
    rintro hmem rfl
    exact hm hmem
  · simp [hd]
  · simp [hlt.ne]
  · refine ⟨a, n + 1, by rw [minutes_succ, ha], ?_, hfirst⟩
    rw [← ha]
    push_cast
    ring

/-- **The run in hand becomes a gap** of its minutes. -/
theorem openKlines (h : CandleBooks delivered first lo run old d) (hb : Books d) {a : ℤ}
    {rest : List ℤ} (hrun : run = a :: rest) (now : ℤ) :
    CandleBooks delivered first lo [] old (d.openKlines now a rest).2 ∧
      Books (d.openKlines now a rest).2 := by
  have hslots : ∀ m ∈ a :: rest, Slot d.tf.ns first lo m := by
    intro m hm
    exact h.slot_of_run (hrun ▸ hm)
  have hfree : ∀ m ∈ a :: rest, d.owner .klines m = none := by
    intro m hm
    by_contra hsome
    exact (h.owned m (Option.isSome_iff_ne_none.mpr hsome)).2 (hrun ▸ hm)
  have howner : ∀ m, (d.openKlines now a rest).2.owner .klines m =
      if m ∈ a :: rest then some d.nextId else d.owner .klines m := by
    intro m
    show (if Stream.klines = Stream.klines ∧ m ∈ (a :: rest).toFinset then _ else _) = _
    simp only [true_and, List.mem_toFinset]
  obtain ⟨b, n, hminutes, hend, hfirst⟩ := h.run
  obtain ⟨k, rfl, rfl, hlast, hcard⟩ := minutes_ends d.tf.ns_pos (hminutes.symm.trans hrun)
  have hcovers : ∀ m, m ∈ a :: rest ↔ a ≤ m ∧ m ≤ rest.getLastD a ∧ d.tf.ns ∣ m - a := by
    intro m
    rw [← hrun, hminutes, mem_minutes_succ d.tf.ns_pos, hlast]
  have hget : ∀ gid g, (d.openKlines now a rest).2.gaps.get? gid = some g →
      (gid = d.nextId ∧ g.tsLoNs = a ∧ g.tsHiNs = rest.getLastD a ∧
        g.expectedCount = (a :: rest).toFinset.card) ∨ d.gaps.get? gid = some g := by
    intro gid g hg
    change (d.gaps.insert d.nextId _).get? gid = some g at hg
    rw [Dict.get?_insert] at hg
    split at hg
    · rename_i heq
      cases hg
      exact .inl ⟨heq.symm, rfl, rfl, rfl⟩
    · exact .inr hg
  refine ⟨?_, hb.openGap now fun m hm => hfree m (List.mem_toFinset.mp hm)⟩
  exact {
    kLo := h.kLo
    first_le := h.first_le
    bound := h.bound
    closed := h.closed
    settled := by
      intro m hslot
      change Slot d.tf.ns first lo m at hslot
      rw [howner, ← h.settled m hslot, hrun]
      by_cases hm : m ∈ a :: rest <;> simp [hm]
    owned := by
      intro m ho
      rw [howner] at ho
      refine ⟨?_, List.not_mem_nil⟩
      split at ho
      · rename_i hm
        exact hslots m hm
      · exact (h.owned m ho).1
    run := ⟨lo, 0, rfl, by simp, h.first_le⟩
    gaps := by
      intro gid g hg hs
      rcases hget gid g hg with ⟨rfl, hlo', hhi', hcount⟩ | hg
      · refine ⟨⟨k, ?_, ?_⟩, fun m hm => ?_, fun m ho => ?_, fun m hm => .inl ?_⟩
        · rw [hlo', hhi', hlast]
          rfl
        · rw [hcount, hcard]
          push_cast
          rfl
        · unfold Covers at hm
          rw [hlo', hhi'] at hm
          exact hslots m ((hcovers m).mpr hm)
        · unfold Covers
          rw [hlo', hhi']
          rw [howner] at ho
          split at ho
          · rename_i hm
            exact (hcovers m).mp hm
          · -- the new gap has missed nothing before
            obtain ⟨g₀, _, hg₀, -⟩ := hb.of_owner ho
            exact absurd (hb.lt_nextId hg₀) (lt_irrefl _)
        · unfold Covers at hm
          rw [hlo', hhi'] at hm
          rw [howner, if_pos ((hcovers m).mpr hm)]
      · have hgap := h.gaps gid g hg hs
        have hlt := hb.lt_nextId hg
        refine ⟨hgap.span, hgap.slots, fun m ho => ?_, fun m hm => ?_⟩
        · rw [howner] at ho
          split at ho
          · cases ho
            exact absurd hlt (lt_irrefl _)
          · exact hgap.owned m ho
        · -- an owned minute is not in the run in hand
          refine (hgap.covered m hm).imp_left fun ho => ?_
          have hnot : m ∉ a :: rest := by
            intro hmem
            rw [hfree m hmem] at ho
            cases ho
          rw [howner, if_neg hnot, ho] }

/-! ### A candle arrives -/

section Arrival

variable {delivered' : ℤ → Prop} {o : ℤ}

/-- The same minutes are delivered. -/
theorem same (h : CandleBooks delivered first lo run old d)
    (hd : ∀ m, delivered' m ↔ delivered m) : CandleBooks delivered' first lo run old d := by
  have heq : delivered' = delivered := funext fun m => propext (hd m)
  rw [heq]
  exact h

/-- A minute that is not settled yet is delivered. -/
theorem wait (h : CandleBooks delivered first lo [] old d) (hlo : lo ≤ o)
    (hd : ∀ m, delivered' m ↔ delivered m ∨ o = m) :
    CandleBooks delivered' first lo [] old { d with kClosed := insert o d.kClosed } where
  kLo := h.kLo
  first_le := h.first_le
  bound := h.bound
  closed := by
    intro m hdvd
    show m ∈ insert o d.kClosed ↔ _
    rw [Finset.mem_insert, h.closed m hdvd, hd]
    constructor
    · rintro (rfl | ⟨hm, hle⟩)
      · exact ⟨.inr rfl, hlo⟩
      · exact ⟨.inl hm, hle⟩
    · rintro ⟨hm | rfl, hle⟩
      · exact .inr ⟨hm, hle⟩
      · exact .inl rfl
  settled := by
    intro m hslot
    -- a settled minute is another one, since this is not before `lo`
    have hne : o ≠ m := fun heq => absurd hslot.2.1 (not_lt.mpr (heq ▸ hlo))
    rw [hd, or_iff_left hne]
    exact h.settled m hslot
  owned := h.owned
  run := h.run
  -- the coverage of the gaps only gains deliveries
  gaps := by
    intro gid g hg hs
    have hgap := h.gaps gid g hg hs
    exact { hgap with
      covered := fun m hm => (hgap.covered m hm).imp_right fun hold =>
        ⟨(hd m).mpr (.inl hold.1), hold.2⟩ }

/-- A settled minute is delivered that no gap misses: it has been delivered before. -/
theorem again (h : CandleBooks delivered first lo [] old d) (hlo : o < lo)
    (ho : d.owner .klines o = none) (hd : ∀ m, delivered' m ↔ delivered m ∨ o = m) :
    CandleBooks delivered' first lo [] old d where
  kLo := h.kLo
  first_le := h.first_le
  bound := h.bound
  closed := by
    intro m hdvd
    rw [h.closed m hdvd, hd]
    refine and_congr_left fun hle => ?_
    have hne : o ≠ m := by omega
    exact (or_iff_left hne).symm
  settled := by
    intro m hslot
    rw [h.settled m hslot, hd, not_or]
    -- a settled minute without an owner was delivered before
    have hbefore : o = m → delivered m := by
      rintro rfl
      by_contra hnot
      have hmissed := (h.settled o hslot).mpr hnot
      rw [ho] at hmissed
      simp at hmissed
    exact ⟨fun hnot => ⟨hnot, fun heq => hnot (hbefore heq)⟩, fun hboth => hboth.1⟩
  owned := h.owned
  run := h.run
  gaps := by
    intro gid g hg hs
    have hgap := h.gaps gid g hg hs
    exact { hgap with
      covered := fun m hm => (hgap.covered m hm).imp_right fun hold =>
        ⟨(hd m).mpr (.inl hold.1), hold.2⟩ }

/-- **A minute is delivered that a gap misses.** -/
theorem late (h : CandleBooks delivered first lo [] d.nextId d) (hb : Books d)
    (harr : Arrived d .klines o d') (hsome : (d.owner .klines o).isSome)
    (hd : ∀ m, delivered' m ↔ delivered m ∨ o = m) :
    CandleBooks delivered' first lo [] d.nextId d' := by
  have htf := harr.streams.tf
  have howner : ∀ m, d'.owner .klines m = if m = o then none else d.owner .klines m := by
    intro m
    rw [harr.owner]
    simp only [true_and]
  have hlo : o < lo := (h.owned o hsome).1.2.1
  exact {
    kLo := harr.streams.kLo.trans h.kLo
    first_le := h.first_le
    bound := by
      rw [htf]
      exact h.bound
    closed := by
      rw [htf, harr.streams.kClosed]
      exact (h.closed · · |>.trans (and_congr_left fun hle =>
        ((hd _).trans (or_iff_left (by omega))).symm))
    settled := by
      intro m hslot
      rw [htf] at hslot
      rw [howner, hd, not_or, ← h.settled m hslot]
      by_cases hm : m = o
      · simp [hm]
      · rw [if_neg hm]
        exact (and_iff_left (Ne.symm hm)).symm
    owned := by
      intro m ho
      rw [htf]
      rw [howner] at ho
      split at ho
      · cases ho
      · exact h.owned m ho
    run := by
      rw [htf]
      exact h.run
    gaps := by
      intro gid g' hg' hs
      obtain ⟨g, hg, hr, -⟩ := harr.gaps gid g' hg'
      have hgap := h.gaps gid g hg (hr.stream.symm.trans hs)
      refine ⟨?_, fun m hm => ?_, fun m ho => ?_, fun m hm => ?_⟩
      · rw [hr.tsHiNs, hr.tsLoNs, hr.expectedCount, htf]
        exact hgap.span
      · rw [htf] at hm ⊢
        exact hgap.slots m ((Covers.congr hr.toSameGap).mp hm)
      · rw [howner] at ho
        rw [htf]
        split at ho
        · cases ho
        · exact (Covers.congr hr.toSameGap).mpr (hgap.owned m ho)
      · rw [htf] at hm
        rw [howner, hd]
        -- the minute that arrives belongs to a gap that has been there before the call
        by_cases hmo : m = o
        · exact .inr ⟨.inr hmo.symm, hb.lt_nextId hg⟩
        · rw [if_neg hmo]
          exact (hgap.covered m ((Covers.congr hr.toSameGap).mp hm)).imp_right fun hold =>
            ⟨.inl hold.1, hold.2⟩ }

end Arrival

end CandleBooks

/-- **The first candle** is where the books begin. -/
theorem NoCandles.begin {d : GapDetector} (h : NoCandles d) (old : ℕ) (o : ℤ) (closed : Bool) :
    CandleBooks (fun m => closed = true ∧ o = m) o o [] old
      { d with kLo := some o, kClosed := if closed then insert o d.kClosed else d.kClosed } where
  kLo := rfl
  first_le := le_refl o
  bound := by simp
  closed := by
    intro m _
    show m ∈ (if closed then insert o d.kClosed else d.kClosed) ↔ _
    cases closed <;> simp [h.kClosed, eq_comm]
    rintro rfl
    exact le_refl _
  settled := by
    intro m hslot
    exact absurd hslot.1 (not_le.mpr hslot.2.1)
  owned := by
    intro m ho
    change (d.owner .klines m).isSome at ho
    rw [h.owner] at ho
    cases ho
  run := ⟨o, 0, rfl, by simp, le_refl o⟩
  gaps := fun gid g hg hs => absurd hs (h.gaps gid g hg)

/-- What the detector of the candles leaves alone. -/
structure KlinesOnly (d d' : GapDetector) : Prop where
  instrument : d'.instrument = d.instrument
  tf : d'.tf = d.tf
  graceNs : d'.graceNs = d.graceNs
  maxReorderIds : d'.maxReorderIds = d.maxReorderIds
  latestNs : d'.latestNs = d.latestNs
  tMax : d'.tMax = d.tMax
  pending : d'.pending = d.pending
  trades : SameGapsOf .trades d d'
  filling : KeepsFilling d d'

namespace KlinesOnly

variable {d d' d'' : GapDetector}

/-- Nothing has changed. -/
theorem refl (d : GapDetector) : KlinesOnly d d :=
  ⟨rfl, rfl, rfl, rfl, rfl, rfl, rfl, .refl _ d, .refl d⟩

/-- What two parts leave alone. -/
theorem trans (h : KlinesOnly d d') (h' : KlinesOnly d' d'') : KlinesOnly d d'' :=
  ⟨h'.instrument.trans h.instrument, h'.tf.trans h.tf, h'.graceNs.trans h.graceNs,
    h'.maxReorderIds.trans h.maxReorderIds, h'.latestNs.trans h.latestNs, h'.tMax.trans h.tMax,
    h'.pending.trans h.pending, h.trades.trans h'.trades,
    h.filling.trans h'.filling⟩

end KlinesOnly

/-- **The books in the middle of a sweep** that began in the state `d₀`. -/
structure SweepBooks (delivered : ℤ → Prop) (first lo : ℤ) (old : ℕ) (d₀ : GapDetector)
    (s : GapDetector.Sweep) : Prop where
  books : Books s.d
  candles : CandleBooks delivered first lo s.run old s.d
  only : KlinesOnly d₀ s.d
  nextId : d₀.nextId ≤ s.d.nextId
  listed : Listed s.d s.out

namespace SweepBooks

variable {delivered : ℤ → Prop} {first lo : ℤ} {old : ℕ} {d₀ : GapDetector}
  {s : GapDetector.Sweep} (now : ℤ)

/-- The end of the run in hand. -/
theorem close (h : SweepBooks delivered first lo old d₀ s) :
    SweepBooks delivered first lo old d₀ (s.close now) ∧ (s.close now).run = [] ∧
      (s.close now).d.kClosed = s.d.kClosed := by
  obtain ⟨d, run, out⟩ := s
  cases run with
  | nil => exact ⟨h, rfl, rfl⟩
  | cons a rest =>
    obtain ⟨hc, hb⟩ := h.candles.openKlines h.books rfl now
    have honly : KlinesOnly d (d.openKlines now a rest).2 :=
      ⟨rfl, rfl, rfl, rfl, rfl, rfl, rfl, d.openGap_others now Stream.noConfusion,
        h.books.openGap_filling now _⟩
    have hnew : Listed (d.openKlines now a rest).2 [(d.openKlines now a rest).1] := by
      intro g hg _
      rw [List.mem_singleton.mp hg]
      exact ⟨h.books.start, Nat.lt_succ_self _⟩
    exact ⟨⟨hb, hc, h.only.trans honly, h.nextId.trans (Nat.le_succ _),
      (h.listed.mono (Nat.le_succ _)).append hnew⟩, rfl, rfl⟩

/-- A minute that is discarded does not matter to the end of the run in hand. -/
theorem close_erase (s : GapDetector.Sweep) (m : ℤ) :
    GapDetector.Sweep.close now { s with d := { s.d with kClosed := s.d.kClosed.erase m } } =
      { s.close now with d := { (s.close now).d with kClosed := s.d.kClosed.erase m } } := by
  obtain ⟨d, run, out⟩ := s
  cases run <;> rfl

/-- **The sweep settles one minute.** -/
theorem settle (h : SweepBooks delivered first lo old d₀ s) :
    SweepBooks delivered first (lo + s.d.tf.ns) old d₀ (s.settle now lo) := by
  unfold GapDetector.Sweep.settle
  -- a delivered minute closes the run before it and is passed
  by_cases hm : lo ∈ s.d.kClosed
  · rw [if_pos hm, close_erase]
    obtain ⟨hclosed, hrun, hkept⟩ := h.close now
    have hc := hclosed.candles
    rw [hrun] at hc
    have htf : (s.close now).d.tf = s.d.tf := hclosed.only.tf.trans h.only.tf.symm
    have hpass := hc.pass (hkept.symm ▸ hm) { (s.close now).d.stats with
      klineMinutesSettled := (s.close now).d.stats.klineMinutesSettled + 1 }
    rw [hkept] at hpass
    have hb := hclosed.books
    refine ⟨⟨hb.owner, hb.paired, hb.start, hb.fresh, hb.filled⟩, ?_,
      hclosed.only.trans ⟨rfl, rfl, rfl, rfl, rfl, rfl, rfl, .of_eq rfl rfl, .of_eq rfl⟩,
      hclosed.nextId, hclosed.listed⟩
    show CandleBooks delivered first (lo + s.d.tf.ns) (s.close now).run old _
    rw [hrun, ← htf]
    exact hpass
  -- any other minute is missed and joins the run
  · rw [if_neg hm]
    have hmiss := h.candles.miss hm { s.d.stats with
      klineMinutesSettled := s.d.stats.klineMinutesSettled + 1 }
    exact ⟨⟨h.books.owner, h.books.paired, h.books.start, h.books.fresh, h.books.filled⟩, hmiss,
      h.only.trans ⟨rfl, rfl, rfl, rfl, rfl, rfl, rfl, .of_eq rfl rfl, .of_eq rfl⟩, h.nextId,
      h.listed⟩

/-- **The loop of the sweep**, by induction on the number of minutes. -/
theorem loop (n : ℕ) : ∀ {lo : ℤ} {s : GapDetector.Sweep},
    SweepBooks delivered first lo old d₀ s →
      SweepBooks delivered first (lo + n * d₀.tf.ns) old d₀
        (GapDetector.sweepLoop now n lo s) := by
  induction n with
  | zero =>
    intro lo s h
    show SweepBooks delivered first (lo + (0 : ℕ) * d₀.tf.ns) old d₀ s
    rw [Nat.cast_zero, zero_mul, add_zero]
    exact h
  | succ n ih =>
    intro lo s h
    have hnext := ih (h.settle now)
    have heq : lo + s.d.tf.ns + n * d₀.tf.ns = lo + (n + 1 : ℕ) * d₀.tf.ns := by
      rw [h.only.tf]
      push_cast
      ring
    rw [heq] at hnext
    exact hnext

end SweepBooks

/-! ### The sweep and the candles -/

/-- The minute `m` has been delivered closed. -/
def Delivered (candles : List Candle) (m : ℤ) : Prop :=
  ∃ c ∈ candles, c.isClosed = true ∧ c.openTimeNs = m

/-- One candle more is delivered, when it is closed. -/
theorem delivered_concat {candles : List Candle} {c : Candle} {m : ℤ} :
    Delivered (candles ++ [c]) m ↔
      Delivered candles m ∨ (c.isClosed = true ∧ c.openTimeNs = m) := by
  simp [Delivered, or_and_right, exists_or]

/-- The books of the candles that have been given, and the gaps that are new from the id `old`
    on. -/
structure CandleLedger (candles : List Candle) (old : ℕ) (d : GapDetector) : Prop where
  none : candles = [] → NoCandles d
  some : ∀ c ∈ candles.head?, ∃ lo,
    CandleBooks (Delivered candles) c.openTimeNs lo [] old d

/-- `b` is not before `a`. -/
def NotBefore (a b : Option ℤ) : Prop := ∀ x ∈ a, ∃ y ∈ b, x ≤ y

/-- A time is not before itself. -/
theorem NotBefore.refl (a : Option ℤ) : NotBefore a a := fun x hx => ⟨x, hx, le_refl x⟩

/-- One time not before another. -/
theorem NotBefore.trans {a b c : Option ℤ} (h : NotBefore a b) (h' : NotBefore b c) :
    NotBefore a c := by
  intro x hx
  obtain ⟨y, hy, hxy⟩ := h x hx
  obtain ⟨z, hz, hyz⟩ := h' y hy
  exact ⟨z, hz, hxy.trans hyz⟩

section Calls

variable {candles : List Candle} {old : ℕ} {d : GapDetector} (now : ℤ)

/-- Without a first candle or a time the sweep does nothing. -/
theorem sweepKlines_none (h : d.kLo = none ∨ d.latestNs = none) : d.sweepKlines now = ([], d) := by
  unfold GapDetector.sweepKlines
  rcases h with h | h
  · rw [h]
  · rw [h]
    cases d.kLo <;> rfl

/-- The sweep settles the minutes that have ended by the horizon. -/
theorem sweepKlines_some {delivered : ℤ → Prop} {first lo latest : ℤ} (hb : Books d)
    (hc : CandleBooks delivered first lo [] old d) (hlatest : d.latestNs = some latest) :
    SweepBooks delivered first
      (lo + GapDetector.minutesBy d.tf.ns lo (latest - d.graceNs) * d.tf.ns) old d
      ⟨(d.sweepKlines now).2, [], (d.sweepKlines now).1⟩ := by
  have hstart : SweepBooks delivered first lo old d ⟨d, [], []⟩ :=
    ⟨hb, hc, .refl d, le_refl _, .nil d⟩
  have hloop := hstart.loop now (GapDetector.minutesBy d.tf.ns lo (latest - d.graceNs))
  obtain ⟨hend, hrun, -⟩ := hloop.close now
  unfold GapDetector.sweepKlines
  rw [hc.kLo, hlatest]
  have hcandles := hend.candles
  rw [hrun] at hcandles
  exact ⟨hend.books, hcandles, hend.only, hend.nextId, hend.listed⟩

/-- **The sweep keeps the books**, and the bound does not move back. -/
theorem sweepKlines_books (hb : Books d) (h : CandleLedger candles old d) :
    Books (d.sweepKlines now).2 ∧ CandleLedger candles old (d.sweepKlines now).2 ∧
      KlinesOnly d (d.sweepKlines now).2 ∧ NotBefore d.kLo (d.sweepKlines now).2.kLo ∧
      d.nextId ≤ (d.sweepKlines now).2.nextId ∧
      Listed (d.sweepKlines now).2 (d.sweepKlines now).1 := by
  -- before the first candle or the first time nothing is swept
  by_cases hnone : d.kLo = none ∨ d.latestNs = none
  · rw [sweepKlines_none now hnone]
    exact ⟨hb, h, .refl d, .refl _, le_refl _, .nil d⟩
  · rw [not_or] at hnone
    obtain ⟨latest, hlatest⟩ := Option.ne_none_iff_exists'.mp hnone.2
    cases hcandles : candles with
    | nil => exact absurd (h.none hcandles).kLo hnone.1
    | cons c cs =>
      obtain ⟨lo, hc⟩ := h.some c (by rw [hcandles]; exact rfl)
      have hswept := sweepKlines_some now hb hc hlatest
      refine ⟨hswept.books, ⟨fun hnil => (List.cons_ne_nil _ _ hnil).elim, ?_⟩, hswept.only, ?_,
        hswept.nextId, hswept.listed⟩
      · intro c' hc'
        cases hc'
        exact ⟨_, hcandles ▸ hswept.candles⟩
      -- the settled bound has moved on by whole minutes
      · rw [hc.kLo, hswept.candles.kLo]
        intro x hx
        cases hx
        have hpos := d.tf.ns_pos
        exact ⟨_, rfl, le_add_of_nonneg_right (mul_nonneg (Int.natCast_nonneg _) hpos.le)⟩

/-- **The sweep reaches** every minute that begins before the horizon. -/
theorem sweepKlines_reach {delivered : ℤ → Prop} {first lo latest o : ℤ} (hb : Books d)
    (hc : CandleBooks delivered first lo [] old d) (hlatest : d.latestNs = some latest)
    (hdvd : d.tf.ns ∣ o - first) (hle : o + d.graceNs ≤ latest) :
    ∃ lo' ∈ (d.sweepKlines now).2.kLo, o ≤ lo' := by
  refine ⟨_, (sweepKlines_some now hb hc hlatest).candles.kLo, ?_⟩
  have hpos := d.tf.ns_pos
  obtain ⟨q, hq⟩ : d.tf.ns ∣ o - lo := by
    have heq : o - lo = (o - first) - (lo - first) := by ring
    rw [heq]
    exact dvd_sub hdvd hc.bound
  have hdiv : q ≤ (latest - d.graceNs - lo) / d.tf.ns := by
    rw [Int.le_ediv_iff_mul_le hpos, mul_comm, ← hq]
    omega
  have hmul : q * d.tf.ns ≤ (GapDetector.minutesBy d.tf.ns lo (latest - d.graceNs) : ℤ) * d.tf.ns :=
    mul_le_mul_of_nonneg_right (hdiv.trans (Int.self_le_toNat _)) hpos.le
  have hcomm : o - lo = q * d.tf.ns := by rw [hq, mul_comm]
  omega

/-! ### A candle -/

/-- The books of the candles after the times and the counters have changed. -/
theorem CandleLedger.congr {d' : GapDetector} (h : CandleLedger candles old d) (htf : d'.tf = d.tf)
    (hlo : d'.kLo = d.kLo) (hclosed : d'.kClosed = d.kClosed)
    (hsame : SameGapsOf .klines d d') : CandleLedger candles old d' where
  none := by
    intro hnil
    have hno := h.none hnil
    refine ⟨hlo.trans hno.kLo, hclosed.trans hno.kClosed, fun m => ?_, fun gid g' hg' hs => ?_⟩
    · rw [hsame.owner, hno.owner]
    · obtain ⟨g, hg, hg₀⟩ := hsame.gaps gid g' hg' hs
      exact hno.gaps gid g hg (hg₀.stream.symm.trans hs)
  some := by
    intro c hc
    obtain ⟨lo, hbooks⟩ := h.some c hc
    exact ⟨lo, hbooks.congr htf hlo hclosed hsame⟩

/-- What a candle may do to the detector, before the sweep. -/
structure KlineTaken (d : GapDetector) (candles : List Candle) (d' : GapDetector) : Prop where
  books : Books d'
  ledger : CandleLedger candles d.nextId d'
  only : KlinesOnly d d'
  bound : NotBefore d.kLo d'.kLo
  nextId : d'.nextId = d.nextId

/-- **The first candle** opens the books. -/
theorem takeKline_first (hb : Books d) (h : NoCandles d) (c : Candle) :
    ∃ d', d.takeKline now c = (.ok [], d') ∧ KlineTaken d [c] d' := by
  have hbegin := h.begin d.nextId c.openTimeNs c.isClosed
  -- no gap can be filled by the first candle
  have htaken : KlineTaken d [c] { d with
      kLo := some c.openTimeNs
      kClosed := if c.isClosed then insert c.openTimeNs d.kClosed else d.kClosed } := by
    refine ⟨⟨hb.owner, hb.paired, hb.start, hb.fresh, hb.filled⟩, ⟨fun hnil => ?_, ?_⟩,
      ⟨rfl, rfl, rfl, rfl, rfl, rfl, rfl, .of_eq rfl rfl, .of_eq rfl⟩, ?_, rfl⟩
    · cases hnil
    · intro c' hc'
      cases hc'
      exact ⟨c.openTimeNs, hbegin.same fun m => by simp [Delivered]⟩
    · rw [h.kLo]
      intro x hx
      cases hx
  unfold GapDetector.takeKline
  simp only [h.kLo, Option.getD_none, lt_irrefl, if_false]
  -- a running minute only starts the count
  by_cases hclosed : c.isClosed = true
  · rw [if_pos hclosed] at htaken ⊢
    exact ⟨_, rfl, htaken⟩
  · rw [if_neg hclosed] at htaken ⊢
    exact ⟨_, rfl, htaken⟩

/-- A candle after the first one. -/
theorem KlineTaken.next {d' : GapDetector} {c₀ c : Candle} {cs : List Candle} {lo : ℤ}
    (hb : Books d') (hc : CandleBooks (Delivered (c₀ :: cs ++ [c])) c₀.openTimeNs lo [] d.nextId d')
    (honly : KlinesOnly d d') (hlo : d'.kLo = d.kLo) (hnext : d'.nextId = d.nextId) :
    KlineTaken d (c₀ :: cs ++ [c]) d' where
  books := hb
  ledger := by
    refine ⟨fun hnil => ?_, fun c' hc' => ?_⟩
    · cases hnil
    · cases hc'
      exact ⟨lo, hc⟩
  only := honly
  bound := by
    rw [hlo]
    exact .refl _
  nextId := hnext

/-- **A candle arrives**: the books before the sweep.  What is answered are gaps that are full by
    that. -/
theorem takeKline_books (hb : Books d) (h : CandleLedger candles d.nextId d) (c : Candle) :
    ∃ changed d', d.takeKline now c = (.ok changed, d') ∧ KlineTaken d (candles ++ [c]) d' ∧
      ∀ g ∈ changed, g.status = .filled := by
  cases hcandles : candles with
  | nil =>
    obtain ⟨d', htake, htaken⟩ := takeKline_first now hb (h.none hcandles) c
    exact ⟨[], d', htake, htaken, fun g hg => by cases hg⟩
  | cons c₀ cs =>
    obtain ⟨lo, hc⟩ := h.some c₀ (by rw [hcandles]; exact rfl)
    rw [hcandles] at hc
    have hsame : ({ d with kLo := some lo } : GapDetector) = d := by
      rw [← hc.kLo]
    unfold GapDetector.takeKline
    simp only [hc.kLo, Option.getD_some, hsame]
    -- before the frontier a candle fills a gap, from it on it waits; an open one does nothing
    by_cases hlate : c.openTimeNs < lo
    · rw [if_pos hlate]
      by_cases hclosed : c.isClosed = true
      · rw [if_pos hclosed]
        have hd : ∀ m, Delivered (c₀ :: cs ++ [c]) m ↔ Delivered (c₀ :: cs) m ∨ c.openTimeNs = m :=
          fun m => by rw [delivered_concat, and_iff_right hclosed]
        cases ho : d.owner .klines c.openTimeNs with
        | none =>
          rw [Books.fill_none ho]
          refine ⟨_, _, rfl, .next ⟨hb.owner, hb.paired, hb.start, hb.fresh, hb.filled⟩
            ((hc.again hlate ho hd).congr rfl rfl rfl (.of_eq rfl rfl))
            ⟨rfl, rfl, rfl, rfl, rfl, rfl, rfl, .of_eq rfl rfl, .of_eq rfl⟩ rfl rfl, ?_⟩
          intro g hg
          cases hg
        | some gid =>
          obtain ⟨changed, d', hfill, harr, hfilled⟩ := hb.fill_some now ho
          rw [hfill]
          have hst := harr.streams
          exact ⟨_, _, rfl, .next harr.books
            (hc.late hb harr (by rw [ho]; rfl) hd)
            ⟨hst.instrument, hst.tf, hst.graceNs, hst.maxReorderIds, hst.latestNs, hst.tMax,
              hst.pending, harr.others Stream.noConfusion, harr.filling⟩ hst.kLo harr.nextId,
            hfilled⟩
      · rw [if_neg hclosed]
        have hd : ∀ m, Delivered (c₀ :: cs ++ [c]) m ↔ Delivered (c₀ :: cs) m := fun m => by
          rw [delivered_concat, or_iff_left fun hbad => hclosed hbad.1]
        refine ⟨_, _, rfl, .next ⟨hb.owner, hb.paired, hb.start, hb.fresh, hb.filled⟩
          ((hc.same hd).congr rfl hc.kLo.symm rfl (.of_eq rfl rfl))
          ⟨rfl, rfl, rfl, rfl, rfl, rfl, rfl, .of_eq rfl rfl, .of_eq rfl⟩ hc.kLo.symm rfl, ?_⟩
        intro g hg
        cases hg
    · rw [if_neg hlate]
      by_cases hclosed : c.isClosed = true
      · rw [if_pos hclosed]
        have hd : ∀ m, Delivered (c₀ :: cs ++ [c]) m ↔ Delivered (c₀ :: cs) m ∨ c.openTimeNs = m :=
          fun m => by rw [delivered_concat, and_iff_right hclosed]
        refine ⟨_, _, rfl, .next ⟨hb.owner, hb.paired, hb.start, hb.fresh, hb.filled⟩
          ((hc.wait (not_lt.mp hlate) hd).congr rfl hc.kLo.symm rfl (.of_eq rfl rfl))
          ⟨rfl, rfl, rfl, rfl, rfl, rfl, rfl, .of_eq rfl rfl, .of_eq rfl⟩ hc.kLo.symm rfl, ?_⟩
        intro g hg
        cases hg
      · rw [if_neg hclosed]
        have hd : ∀ m, Delivered (c₀ :: cs ++ [c]) m ↔ Delivered (c₀ :: cs) m := fun m => by
          rw [delivered_concat, or_iff_left fun hbad => hclosed hbad.1]
        refine ⟨_, _, rfl, .next hb (hc.same hd) (.refl d) rfl rfl, ?_⟩
        intro g hg
        cases hg

end Calls

end FuzzHelm
