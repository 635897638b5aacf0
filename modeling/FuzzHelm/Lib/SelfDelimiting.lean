import FuzzHelm.Lib.Json
import Mathlib.Algebra.Group.Nat.Defs

namespace Lib

/-!
# Self-delimiting codes

A code is self-delimiting when its end is found whatever follows it.  Such codes can be put one
after another without separators, and nothing is lost.

* `SelfDelimiting.append` — a header and a body that is delimited once the header is known;
* `SelfDelimiting.flatMap_of_length` — as many codes as are known to follow;
* `SelfDelimiting.flatMap_injective` — a sequence of codes that are never empty;
* `littleEndian` — the bytes of a number, lowest first, as many as asked for;
* `selfDelimiting_array` — the UTF-8 bytes of a JSON array.
-/

variable {α κ γ : Type*}

/-- The code of a value ends where it ends, whatever follows. -/
def SelfDelimiting (enc : α → List γ) : Prop :=
  ∀ ⦃a b : α⦄ ⦃r s : List γ⦄, enc a ++ r = enc b ++ s → a = b ∧ r = s

namespace SelfDelimiting

variable {enc : α → List γ}

/-- Codes of one length are delimited by it. -/
theorem of_length {n : ℕ} (hlen : ∀ a, (enc a).length = n) (hinj : Function.Injective enc) :
    SelfDelimiting enc := by
  intro a b r s h
  have hlength : (enc a).length = (enc b).length := by rw [hlen a, hlen b]
  obtain ⟨hab, hrs⟩ := List.append_inj h hlength
  exact ⟨hinj hab, hrs⟩

/-- **Header and body.** The body need only be delimited among the values with one header. -/
theorem append {head : κ → List γ} {key : α → κ} {body : α → List γ} (hhead : SelfDelimiting head)
    (hbody : ∀ ⦃a b r s⦄, key a = key b → body a ++ r = body b ++ s → a = b ∧ r = s) :
    SelfDelimiting fun a => head (key a) ++ body a := by
  intro a b r s h
  simp only [List.append_assoc] at h
  obtain ⟨hkey, hrest⟩ := hhead h
  exact hbody hkey hrest

variable (henc : SelfDelimiting enc)
include henc

/-- As many codes as are known to follow. -/
theorem flatMap_of_length {as bs : List α} {r s : List γ} (hlen : as.length = bs.length)
    (h : as.flatMap enc ++ r = bs.flatMap enc ++ s) : as = bs ∧ r = s := by
  induction as generalizing bs with
  | nil =>
    cases bs with
    | nil => exact ⟨rfl, h⟩
    | cons b bs => simp at hlen
  | cons a as ih =>
    cases bs with
    | nil => simp at hlen
    | cons b bs =>
      simp only [List.flatMap_cons, List.append_assoc] at h
      obtain ⟨hab, hrest⟩ := henc h
      simp only [List.length_cons, Nat.add_right_cancel_iff] at hlen
      obtain ⟨has, hrs⟩ := ih hlen hrest
      exact ⟨by rw [hab, has], hrs⟩

/-- **Sequences.** The number of codes shows in what follows, as none of them is empty. -/
theorem flatMap_injective (hne : ∀ a, enc a ≠ []) :
    Function.Injective fun as : List α => as.flatMap enc := by
  intro as
  induction as with
  | nil =>
    intro bs h
    cases bs with
    | nil => rfl
    | cons b bs =>
      simp only [List.flatMap_nil, List.flatMap_cons] at h
      exact absurd (List.append_eq_nil_iff.mp h.symm).1 (hne b)
  | cons a as ih =>
    intro bs h
    cases bs with
    | nil =>
      simp only [List.flatMap_nil, List.flatMap_cons] at h
      exact absurd (List.append_eq_nil_iff.mp h).1 (hne a)
    | cons b bs =>
      simp only [List.flatMap_cons] at h
      obtain ⟨hab, hrest⟩ := henc h
      rw [hab, ih hrest]

end SelfDelimiting

/-! ### Numbers of a fixed width -/

/-- The `count` lowest bytes of a number, lowest first. -/
def littleEndian : ℕ → ℕ → List UInt8
  | 0, _ => []
  | count + 1, n => UInt8.ofNat n :: littleEndian count (n / 256)

/-- A word has as many bytes as were asked for. -/
@[simp] theorem length_littleEndian (count n : ℕ) : (littleEndian count n).length = count := by
  induction count generalizing n with
  | zero => rfl
  | succ count ih => simp [littleEndian, ih]

/-- Numbers that fit have different bytes. -/
theorem littleEndian_inj {count m n : ℕ} (hm : m < 256 ^ count) (hn : n < 256 ^ count)
    (h : littleEndian count m = littleEndian count n) : m = n := by
  induction count generalizing m n with
  | zero =>
    simp only [Nat.pow_zero] at hm hn
    omega
  | succ count ih =>
    rw [Nat.pow_succ] at hm hn
    simp only [littleEndian, List.cons.injEq] at h
    have hlow : m % 256 = n % 256 := by simpa using congrArg UInt8.toNat h.1
    have hhigh : m / 256 = n / 256 := by
      apply ih _ _ h.2
      · exact (Nat.div_lt_iff_lt_mul (by decide)).mpr hm
      · exact (Nat.div_lt_iff_lt_mul (by decide)).mpr hn
    omega

/-! ### JSON arrays -/

/-- A character is read off the front of any bytes. -/
theorem utf8EncodeChar_append_cancel {c d : Char} {r s : List UInt8}
    (h : String.utf8EncodeChar c ++ r = String.utf8EncodeChar d ++ s) : c = d ∧ r = s := by
  have hread (e : Char) (t : List UInt8) :
      (String.utf8EncodeChar e ++ t).toByteArray.utf8DecodeChar? 0 = some e := by
    rw [List.toByteArray_append]
    exact ByteArray.utf8DecodeChar?_utf8EncodeChar_append
  have hcd : some c = some d := by rw [← hread c r, h, hread d s]
  obtain rfl := Option.some.inj hcd
  exact ⟨rfl, List.append_cancel_left h⟩

/-- Two texts at the front of the same bytes: one of them begins the other. -/
theorem utf8_append_cases {cs ds : List Char} {r s : List UInt8}
    (h : utf8 cs ++ r = utf8 ds ++ s) :
    (∃ ts, ds = cs ++ ts ∧ r = utf8 ts ++ s) ∨ (∃ ts, cs = ds ++ ts ∧ s = utf8 ts ++ r) := by
  induction cs generalizing ds with
  | nil => exact .inl ⟨ds, rfl, h⟩
  | cons c cs ih =>
    cases ds with
    | nil => exact .inr ⟨c :: cs, rfl, h.symm⟩
    | cons d ds =>
      simp only [utf8, List.flatMap_cons, List.append_assoc] at h
      obtain ⟨rfl, hrest⟩ := utf8EncodeChar_append_cancel h
      rcases ih hrest with ⟨ts, rfl, hr⟩ | ⟨ts, rfl, hs⟩
      · exact .inl ⟨ts, rfl, hr⟩
      · exact .inr ⟨ts, rfl, hs⟩

/-- A text of an array that begins another one is that text: the bracket that closes it is
    found. -/
theorem Json.print_arr_prefix {vs ws : List Json} {ts : List Char}
    (h : (arr ws).print = (arr vs).print ++ ts) : vs = ws ∧ ts = [] := by
  simp only [print, List.cons_append, List.append_assoc, List.nil_append, List.cons.injEq,
    true_and] at h
  obtain ⟨hws, hts⟩ := printItems_prefix ws vs [] (.inl rfl) [] ts h
  exact ⟨hws.symm, hts.symm⟩

/-- **Arrays.** The bytes of an array are self-delimiting, whatever bytes follow: they need not
    be a text. -/
theorem selfDelimiting_array : SelfDelimiting fun vs => utf8 (Json.arr vs).print := by
  intro vs ws r s h
  rcases utf8_append_cases h with ⟨ts, hprint, hr⟩ | ⟨ts, hprint, hs⟩
  · obtain ⟨rfl, rfl⟩ := Json.print_arr_prefix hprint
    exact ⟨rfl, hr⟩
  · obtain ⟨rfl, rfl⟩ := Json.print_arr_prefix hprint
    exact ⟨rfl, hs.symm⟩

end Lib
