import FuzzHelm.Core.Digest
import FuzzHelm.Lib.Characters
import Mathlib.Data.List.DropRight

namespace FuzzHelm

open Lib

/-!
# The text of a decimal

`str` of a decimal, which uses an exponent where the plain text would be long, and `Decimal` of a
text.

* `PyDecimal.str` — the text of a decimal; `decimalOfText` — the decimal of a text;
* `numeral_point`, `numeral_plain` — how a numeral with and without a point is read;
* `decimalOfText_str` — every decimal is read back from its text, its exponent and its
  diagnostic included.
-/

/-! ### Writing -/

/-- `"%+d"`: the digits with a sign in any case. -/
def signedDigits (n : ℤ) : List Char :=
  (if n < 0 then '-' else '+') :: Nat.toDigits 10 n.natAbs

/-- The digits of a coefficient with a point behind the first `dot` of them. -/
def pointed (digits : List Char) (dot : ℤ) : List Char :=
  if dot ≤ 0 then '0' :: '.' :: (List.replicate (-dot).toNat '0' ++ digits)
  else if digits.length ≤ dot then
    digits ++ List.replicate (dot - digits.length).toNat '0'
  else digits.take dot.toNat ++ '.' :: digits.drop dot.toNat

/-- `str(abs(x))`: the point stands in its place when there is none to the right of the digits
    and not too many zeros would follow it; else behind the first digit, before an exponent. -/
def PyDecimal.strAbs : PyDecimal → List Char
  | finite _ coefficient exponent =>
    let digits := Nat.toDigits 10 coefficient
    let left := exponent + digits.length
    if exponent ≤ 0 ∧ -6 < left then pointed digits left
    else if left = 1 then pointed digits 1
    else pointed digits 1 ++ 'E' :: signedDigits (left - 1)
  | x => x.formatAbs

/-- `str(x)`: plain where the exponent allows it, and scientific otherwise. -/
def PyDecimal.str (x : PyDecimal) : String :=
  String.ofList (if x.isSigned then '-' :: x.strAbs else x.strAbs)

/-! ### Reading -/

/-- The exponent at the end of a numeral. -/
def exponentOf : List Char → Option ℤ
  | [] => some 0
  | e :: cs =>
    if e = 'E' ∨ e = 'e' then
      let (negative, ds) := match cs with
        | '-' :: ds => (true, ds)
        | '+' :: ds => (false, ds)
        | ds => (false, ds)
      if ds ≠ [] ∧ ds.all Char.isDigit then
        some (if negative then -(Nat.ofDigitChars 10 ds 0 : ℤ) else Nat.ofDigitChars 10 ds 0)
      else none
    else none

/-- A numeral: digits, a point and digits, of which one part may be missing, and an exponent. -/
def numeral (negative : Bool) (cs : List Char) : Option PyDecimal :=
  let whole := cs.takeWhile Char.isDigit
  let (frac, rest) := match cs.dropWhile Char.isDigit with
    | '.' :: rest => (rest.takeWhile Char.isDigit, rest.dropWhile Char.isDigit)
    | rest => ([], rest)
  if whole ++ frac = [] then none
  else (exponentOf rest).map fun e =>
    .finite negative (Nat.ofDigitChars 10 (whole ++ frac) 0) (e - frac.length)

/-- The diagnostic of a NaN. -/
def diagnosticOf (ds : List Char) : Option ℕ :=
  if ds.all Char.isDigit then some (Nat.ofDigitChars 10 ds 0) else none

/-- Infinity, or a NaN with its diagnostic; capitals do not matter. -/
def specialOf (negative : Bool) (cs : List Char) : Option PyDecimal :=
  match cs.map Char.toLower with
  | ['i', 'n', 'f'] | ['i', 'n', 'f', 'i', 'n', 'i', 't', 'y'] => some (.infinity negative)
  | 'n' :: 'a' :: 'n' :: ds => (diagnosticOf ds).map (.nan negative false)
  | 's' :: 'n' :: 'a' :: 'n' :: ds => (diagnosticOf ds).map (.nan negative true)
  | _ => none

/-- A decimal without its sign. -/
def unsignedOf (negative : Bool) (cs : List Char) : Option PyDecimal :=
  match cs with
  | [] => none
  | c :: _ => if c.isDigit ∨ c = '.' then numeral negative cs else specialOf negative cs

/-- A text before it is read: the digits are those of ASCII, and the white space around it is
    gone. -/
def trimmed (cs : List Char) : List Char :=
  ((cs.dropWhile isSpace).rdropWhile isSpace).map asciiDigit

/-- In a decimal underscores do not count, wherever they stand. -/
def bare (cs : List Char) : List Char := (trimmed cs).filter fun c => c ≠ '_'

/-- `Decimal(s)`; none where the syntax is not that of a decimal. -/
def decimalOfText (s : String) : Option PyDecimal :=
  match bare s.toList with
  | '-' :: cs => unsignedOf true cs
  | '+' :: cs => unsignedOf false cs
  | cs => unsignedOf false cs

/-! ### Numerals -/

/-- The digits before something else are found by taking digits as long as there are any. -/
theorem takeWhile_isDigit {ds r : List Char} (hds : ∀ c ∈ ds, c.isDigit = true) (hr : Stops r) :
    (ds ++ r).takeWhile Char.isDigit = ds ∧ (ds ++ r).dropWhile Char.isDigit = r := by
  rw [List.takeWhile_append_of_pos hds, List.dropWhile_append_of_pos hds]
  cases r with
  | nil => simp
  | cons c cs => simp [hr c cs rfl]

/-- A numeral with a point. -/
theorem numeral_point (negative : Bool) {whole frac t : List Char} {e : ℤ}
    (hwhole : ∀ c ∈ whole, c.isDigit = true) (hfrac : ∀ c ∈ frac, c.isDigit = true)
    (hne : whole ++ frac ≠ []) (ht : Stops t) (he : exponentOf t = some e) :
    numeral negative (whole ++ '.' :: (frac ++ t)) =
      some (.finite negative (Nat.ofDigitChars 10 (whole ++ frac) 0) (e - frac.length)) := by
  obtain ⟨htake, hdrop⟩ := takeWhile_isDigit (r := '.' :: (frac ++ t)) hwhole
    (stops_cons (by decide))
  obtain ⟨htake', hdrop'⟩ := takeWhile_isDigit hfrac ht
  simp only [numeral, htake, hdrop, htake', hdrop', if_neg hne, he, Option.map_some]

/-- A numeral without a point. -/
theorem numeral_plain (negative : Bool) {whole t : List Char} {e : ℤ}
    (hwhole : ∀ c ∈ whole, c.isDigit = true) (hne : whole ≠ []) (ht : Stops t)
    (hpoint : ∀ cs, t ≠ '.' :: cs) (he : exponentOf t = some e) :
    numeral negative (whole ++ t) =
      some (.finite negative (Nat.ofDigitChars 10 whole 0) e) := by
  obtain ⟨htake, hdrop⟩ := takeWhile_isDigit hwhole ht
  simp only [numeral, htake, hdrop, List.append_nil, if_neg hne, he, Option.map_some,
    List.length_nil, Nat.cast_zero, sub_zero]

/-- The exponent that is written is the one that is read. -/
theorem exponentOf_signedDigits (n : ℤ) : exponentOf ('E' :: signedDigits n) = some n := by
  have hall : (Nat.toDigits 10 n.natAbs).all Char.isDigit = true :=
    List.all_eq_true.mpr fun c hc => isDigit_of_mem_digits hc
  unfold exponentOf signedDigits
  by_cases hn : n < 0
  · simp only [if_pos hn, true_or, if_true, ne_eq, Nat.toDigits_ne_nil, not_false_eq_true, hall,
      and_self, Nat.ofDigitChars_ten_toDigits, Option.some.injEq]
    omega
  · simp only [if_neg hn, true_or, if_true, ne_eq, Nat.toDigits_ne_nil, not_false_eq_true, hall,
      and_self, Nat.ofDigitChars_ten_toDigits, Option.some.injEq, Bool.false_eq_true, if_false]
    omega

/-- The digits of a coefficient with a point among them, or before them. -/
theorem numeral_pointed (negative : Bool) {c : ℕ} {dot : ℤ} {t : List Char} {e : ℤ}
    (hdot : dot ≤ (Nat.toDigits 10 c).length) (ht : Stops t) (hpoint : ∀ cs, t ≠ '.' :: cs)
    (he : exponentOf t = some e) :
    numeral negative (pointed (Nat.toDigits 10 c) dot ++ t) =
      some (.finite negative c (e - ((Nat.toDigits 10 c).length - dot))) := by
  have hdigits : ∀ d ∈ Nat.toDigits 10 c, d.isDigit = true := fun d hd => isDigit_of_mem_digits hd
  have hne : Nat.toDigits 10 c ≠ [] := Nat.toDigits_ne_nil
  have hvalue : Nat.ofDigitChars 10 (Nat.toDigits 10 c) 0 = c := Nat.ofDigitChars_ten_toDigits
  unfold pointed
  -- the point stands before all digits, behind all of them, or between two
  by_cases hneg : dot ≤ 0
  · -- zeros before the digits do not change the number
    have hzeros : Nat.ofDigitChars 10
        (['0'] ++ (List.replicate (-dot).toNat '0' ++ Nat.toDigits 10 c)) 0 = c := by
      have hzero : Nat.ofDigitChars 10 ['0'] 0 = 0 := rfl
      rw [Nat.ofDigitChars_append, Nat.ofDigitChars_append, Nat.ofDigitChars_replicate_zero, hzero,
        Nat.mul_zero, hvalue]
    have hfrac : ∀ d ∈ List.replicate (-dot).toNat '0' ++ Nat.toDigits 10 c,
        d.isDigit = true := by
      intro d hd
      rcases List.mem_append.mp hd with hd | hd
      · rw [List.eq_of_mem_replicate hd]
        rfl
      · exact hdigits d hd
    have hwhole : ∀ d ∈ ['0'], d.isDigit = true := by simp
    have hread := numeral_point negative hwhole hfrac (by simp) ht he
    rw [hzeros, List.length_append, List.length_replicate] at hread
    rw [if_pos hneg]
    refine hread.trans ?_
    congr 2
    omega
  · rw [if_neg hneg]
    -- behind the last digit it is not written
    by_cases hlen : ((Nat.toDigits 10 c).length : ℤ) ≤ dot
    · have hdot' : dot = (Nat.toDigits 10 c).length := le_antisymm hdot hlen
      rw [if_pos hlen, hdot', sub_self, Int.toNat_zero, List.replicate_zero, List.append_nil,
        sub_zero, numeral_plain negative hdigits hne ht hpoint he, hvalue]
    · have htake : ∀ d ∈ (Nat.toDigits 10 c).take dot.toNat, d.isDigit = true :=
        fun d hd => hdigits d (List.mem_of_mem_take hd)
      have hdrop : ∀ d ∈ (Nat.toDigits 10 c).drop dot.toNat, d.isDigit = true :=
        fun d hd => hdigits d (List.mem_of_mem_drop hd)
      have hread := numeral_point negative htake hdrop (by rwa [List.take_append_drop]) ht he
      rw [List.take_append_drop, hvalue, List.length_drop] at hread
      rw [if_neg hlen, List.append_assoc, List.cons_append]
      refine hread.trans ?_
      congr 2
      omega

/-- A coefficient begins with a digit, also behind its point. -/
theorem pointed_eq_cons (c : ℕ) (dot : ℤ) :
    ∃ d ds, pointed (Nat.toDigits 10 c) dot = d :: ds ∧ d.isDigit = true := by
  obtain ⟨d, ds, hdigits, hd⟩ := digits_eq_cons c
  unfold pointed
  rw [hdigits]
  split
  · exact ⟨'0', _, rfl, rfl⟩
  split
  · exact ⟨d, _, rfl, hd⟩
  · obtain ⟨k, hk⟩ : ∃ k, dot.toNat = k + 1 := ⟨dot.toNat - 1, by omega⟩
    rw [hk]
    exact ⟨d, _, rfl, hd⟩

/-! ### The round trip -/

/-- The text without its sign is read back, coefficient and exponent as they were. -/
theorem unsignedOf_finite (negative negative' : Bool) (c : ℕ) (e : ℤ) :
    unsignedOf negative (PyDecimal.finite negative' c e).strAbs = some (.finite negative c e) := by
  have hpos : 0 < (Nat.toDigits 10 c).length := Nat.length_toDigits_pos
  -- any layout is read back, with the exponent that follows it
  have hread {dot : ℤ} {t : List Char} {n : ℤ} (hdot : dot ≤ (Nat.toDigits 10 c).length)
      (ht : Stops t) (hpoint : ∀ cs, t ≠ '.' :: cs) (hn : exponentOf t = some n)
      (hexp : n - ((Nat.toDigits 10 c).length - dot) = e) :
      unsignedOf negative (pointed (Nat.toDigits 10 c) dot ++ t) =
        some (.finite negative c e) := by
    obtain ⟨d, ds, hcons, hd⟩ := pointed_eq_cons c dot
    rw [← hexp, ← numeral_pointed negative hdot ht hpoint hn, hcons, List.cons_append, unsignedOf,
      if_pos (.inl hd)]
  have hplain {dot : ℤ} (hdot : dot ≤ (Nat.toDigits 10 c).length)
      (hexp : 0 - ((Nat.toDigits 10 c).length - dot) = e) :
      unsignedOf negative (pointed (Nat.toDigits 10 c) dot) = some (.finite negative c e) := by
    rw [← List.append_nil (pointed _ _)]
    exact hread hdot stops_nil (by simp) rfl hexp
  simp only [PyDecimal.strAbs]
  -- without an exponent, with a point behind one digit, or with both
  split
  · exact hplain (by omega) (by omega)
  split
  · exact hplain (by omega) (by omega)
  · exact hread (by omega) (stops_cons (by decide)) (by simp) (exponentOf_signedDigits _)
      (by omega)

/-- A digit has no capitals. -/
theorem toLower_digit {c : Char} (h : c.isDigit = true) : c.toLower = c := by
  have hle : ¬ (c.val ≥ 'A'.val ∧ c.val ≤ 'Z'.val) := by
    simp only [Char.isDigit, Bool.and_eq_true, decide_eq_true_eq] at h
    intro hupper
    have hnine : c.val ≤ '9'.val := h.2
    exact absurd (UInt32.le_trans hupper.1 hnine) (by decide)
  exact dif_neg hle

/-- The diagnostic of a NaN is read back, and none at all means 0. -/
theorem diagnosticOf_digits (n : ℕ) :
    diagnosticOf ((if n = 0 then [] else Nat.toDigits 10 n).map Char.toLower) = some n := by
  by_cases hn : n = 0
  · rw [if_pos hn, hn]
    rfl
  · have hlower : (Nat.toDigits 10 n).map Char.toLower = Nat.toDigits 10 n := by
      rw [List.map_congr_left fun c hc => toLower_digit (isDigit_of_mem_digits hc), List.map_id']
    have hall : (Nat.toDigits 10 n).all Char.isDigit = true :=
      List.all_eq_true.mpr fun c hc => isDigit_of_mem_digits hc
    rw [if_neg hn, hlower, diagnosticOf, if_pos hall, Nat.ofDigitChars_ten_toDigits]

/-- Without its sign, every decimal is read back from its text. -/
theorem unsignedOf_strAbs (x : PyDecimal) : unsignedOf x.isSigned x.strAbs = some x := by
  cases x with
  | finite negative c e => exact unsignedOf_finite negative negative c e
  | infinity negative => rfl
  | nan negative signaling diagnostic =>
    have hread := diagnosticOf_digits diagnostic
    cases signaling with
    | false => exact congrArg (Option.map (PyDecimal.nan negative false)) hread
    | true => exact congrArg (Option.map (PyDecimal.nan negative true)) hread

/-- What the text of a decimal is made of. -/
def isPlain (c : Char) : Bool := !isSpace c && c ≠ '_' && decide (c.toNat < 128)

/-- A digit is left alone by the clean-up of the text. -/
theorem isPlain_digit {c : Char} (h : c.isDigit = true) : isPlain c = true := by
  have hall : ∀ n ∈ List.range 10, isPlain (Char.ofNat (48 + n)) = true := by decide
  simp only [Char.isDigit, Bool.and_eq_true, decide_eq_true_eq, ge_iff_le,
    UInt32.le_iff_toNat_le] at h
  have hzero : 48 ≤ c.toNat := h.1
  have hnine : c.toNat ≤ 57 := h.2
  have hc := hall (c.toNat - 48) (List.mem_range.mpr (by omega))
  rwa [Nat.add_sub_cancel' hzero, Char.ofNat_toNat] at hc

/-- A coefficient with its point has only digits and the point. -/
theorem isPlain_pointed {c : ℕ} {dot : ℤ} {d : Char}
    (h : d ∈ pointed (Nat.toDigits 10 c) dot) : isPlain d = true := by
  have hdigit {e : Char} (he : e ∈ Nat.toDigits 10 c) : isPlain e = true :=
    isPlain_digit (isDigit_of_mem_digits he)
  unfold pointed at h
  -- the point is the only character that is no digit
  split at h
  · simp only [List.mem_cons, List.mem_append, List.mem_replicate] at h
    rcases h with rfl | rfl | ⟨-, rfl⟩ | h
    · decide
    · decide
    · decide
    · exact hdigit h
  split at h
  · rcases List.mem_append.mp h with h | h
    · exact hdigit h
    · rw [List.eq_of_mem_replicate h]
      decide
  · simp only [List.mem_append, List.mem_cons] at h
    rcases h with h | rfl | h
    · exact hdigit (List.mem_of_mem_take h)
    · decide
    · exact hdigit (List.mem_of_mem_drop h)

/-- No character of a decimal that is printed is lost in the clean-up of the text. -/
theorem isPlain_strAbs {x : PyDecimal} {d : Char} (h : d ∈ x.strAbs) : isPlain d = true := by
  cases x with
  | finite negative c e =>
    simp only [PyDecimal.strAbs] at h
    split at h
    · exact isPlain_pointed h
    split at h
    · exact isPlain_pointed h
    -- an exponent has a letter, a sign and digits
    · rcases List.mem_append.mp h with h | h
      · exact isPlain_pointed h
      · simp only [signedDigits, List.mem_cons] at h
        rcases h with rfl | rfl | h
        · decide
        · split <;> decide
        · exact isPlain_digit (isDigit_of_mem_digits h)
  | infinity negative =>
    have hall : "Infinity".toList.all isPlain = true := by decide
    exact List.all_eq_true.mp hall d h
  | nan negative signaling diagnostic =>
    have hall : ("sNaN".toList ++ "NaN".toList).all isPlain = true := by decide
    rcases List.mem_append.mp h with h | h
    · refine List.all_eq_true.mp hall d ?_
      split at h
      · exact List.mem_append_left _ h
      · exact List.mem_append_right _ h
    · split at h
      · cases h
      · exact isPlain_digit (isDigit_of_mem_digits h)

/-- A plain text is bare. -/
theorem bare_of_isPlain {cs : List Char} (h : ∀ c ∈ cs, isPlain c = true) : bare cs = cs := by
  have hplain : ∀ c ∈ cs, (isSpace c = false ∧ c ≠ '_') ∧ c.toNat < 128 := by
    intro c hc
    simpa [isPlain] using h c hc
  have hspace : ∀ c ∈ cs, ¬ isSpace c = true := by
    intro c hc hwhite
    rw [(hplain c hc).1.1] at hwhite
    cases hwhite
  have hunder : ∀ c ∈ cs, decide (c ≠ '_') = true := fun c hc => decide_eq_true (hplain c hc).1.2
  rw [bare, trimmed, List.dropWhile_eq_self_iff.mpr fun hl => hspace _ (List.getElem_mem hl),
    List.rdropWhile_eq_self_iff.mpr fun hl => hspace _ (List.getLast_mem hl),
    List.map_congr_left fun c hc => asciiDigit_of_ascii (hplain c hc).2, List.map_id',
    List.filter_eq_self.mpr hunder]

/-- **Round trip.** Every decimal is read back from its text as it was. -/
theorem decimalOfText_str (x : PyDecimal) : decimalOfText x.str = some x := by
  have hread := unsignedOf_strAbs x
  rw [decimalOfText, PyDecimal.str, String.toList_ofList]
  cases hsign : x.isSigned with
  | true =>
    rw [hsign] at hread
    simp only [if_true]
    rw [bare_of_isPlain]
    · exact hread
    · intro c hc
      rcases List.mem_cons.mp hc with rfl | hc
      · decide
      · exact isPlain_strAbs hc
  | false =>
    rw [hsign] at hread
    simp only [Bool.false_eq_true, if_false]
    rw [bare_of_isPlain fun c hc => isPlain_strAbs hc]
    -- the text begins with a digit or a letter, so that no sign is taken from it
    split
    · rename_i cs hcs
      rw [hcs] at hread
      cases hread
    · rename_i cs hcs
      rw [hcs] at hread
      cases hread
    · exact hread

example : (PyDecimal.finite true 12 (-8)).str = "-1.2E-7" := by decide

end FuzzHelm
