import Mathlib.Data.Nat.Digits.Lemmas

namespace Lib

/-!
# Characters as Python sees them

White space, the ends of lines and the decimal digits of Unicode, which is what `str.strip`,
`str.splitlines` and the readers of numbers go by.  A text is read as a number once its digits are
those of ASCII.

* `isLineBreak`, `isSpace` — line ends and white space;
* `digitValue` — what a decimal digit is worth; `asciiDigit` — the digit of ASCII that it is;
* `asciiDigit_of_ascii` — ASCII text stays as it is;
* `spell`, `injective_replaced` — a hash that is known at some of its inputs.
-/

/-! ### White space -/

/-- The characters at which `str.splitlines` ends a line. -/
def isLineBreak (c : Char) : Bool :=
  c.toNat ∈ [0x0a, 0x0b, 0x0c, 0x0d, 0x1c, 0x1d, 0x1e, 0x85, 0x2028, 0x2029]

/-- The characters that `str.strip` removes. -/
def isSpace (c : Char) : Bool :=
  isLineBreak c || c.toNat ∈ [0x09, 0x1f, 0x20, 0xa0, 0x1680, 0x202f, 0x205f, 0x3000] ||
    (0x2000 ≤ c.toNat && c.toNat ≤ 0x200a)

/-! ### Decimal digits -/

/-- The zeros of the first plane: each begins a run of ten decimal digits. -/
def basicZeros : List ℕ :=
  [0x30, 0x660, 0x6F0, 0x7C0, 0x966, 0x9E6, 0xA66, 0xAE6, 0xB66, 0xBE6, 0xC66, 0xCE6, 0xD66, 0xDE6,
    0xE50, 0xED0, 0xF20, 0x1040, 0x1090, 0x17E0, 0x1810, 0x1946, 0x19D0, 0x1A80, 0x1A90, 0x1B50,
    0x1BB0, 0x1C40, 0x1C50, 0xA620, 0xA8D0, 0xA900, 0xA9D0, 0xA9F0, 0xAA50, 0xABF0, 0xFF10]

/-- The zeros beyond it. -/
def furtherZeros : List ℕ :=
  [0x104A0, 0x10D30, 0x11066, 0x110F0, 0x11136, 0x111D0, 0x112F0, 0x11450, 0x114D0, 0x11650,
    0x116C0, 0x11730, 0x118E0, 0x11950, 0x11C50, 0x11D50, 0x11DA0, 0x11F50, 0x16A60, 0x16AC0,
    0x16B50, 0x1D7CE, 0x1D7D8, 0x1D7E2, 0x1D7EC, 0x1D7F6, 0x1E140, 0x1E2F0, 0x1E4F0, 0x1E950,
    0x1FBF0]

/-- The zeros of the general category Nd of Unicode 15. -/
def digitZeros : List ℕ := basicZeros ++ furtherZeros

/-- What a decimal digit is worth; none where the character is no digit. -/
def digitValue (c : Char) : Option ℕ :=
  (digitZeros.find? fun z => decide (z ≤ c.toNat ∧ c.toNat < z + 10)).map fun z => c.toNat - z

/-- A decimal digit of any script. -/
def isDecimal (c : Char) : Bool := (digitValue c).isSome

/-- The digit of ASCII in the place of that of another script. -/
def asciiDigit (c : Char) : Char := (digitValue c).elim c Nat.digitChar

/-- The digits of ASCII are themselves, and nothing else that ASCII has is a digit. -/
theorem asciiDigit_of_ascii {c : Char} (h : c.toNat < 128) : asciiDigit c = c := by
  have hall : ∀ n ∈ List.range 128, asciiDigit (Char.ofNat n) = Char.ofNat n := by decide +kernel
  have hc := hall c.toNat (List.mem_range.mpr h)
  rwa [Char.ofNat_toNat] at hc

/-- The digits of a script other than Latin. -/
example : asciiDigit '७' = '7' ∧ asciiDigit '３' = '3' ∧ asciiDigit 'x' = 'x' := by decide

/-! ### A hash that is known at some of its inputs -/

/-- A text behind a question mark, which no digest begins with. -/
def spell (text : List Char) : String := String.ofList ('?' :: text)

/-- Bytes can be read back from their spelling. -/
theorem spell_injective : Function.Injective spell := by
  intro xs ys h
  exact (List.cons.inj (String.ofList_injective h)).2

/-- What is spelled out is no digest. -/
theorem spell_ne {digest : String} (h : digest.toList.head? ≠ some '?') (text : List Char) :
    spell text ≠ digest := by
  rintro rfl
  rw [spell, String.toList_ofList] at h
  exact h rfl

/-- A hash keeps its inputs apart when one of its values is replaced by a new one. -/
theorem injective_replaced {α : Type*} [DecidableEq α] {f : α → String} {key : α}
    {digest : String} (hf : Function.Injective f) (hnew : ∀ x, f x ≠ digest) :
    Function.Injective fun x => if x = key then digest else f x := by
  intro x y h
  dsimp only at h
  by_cases hx : x = key
  · by_cases hy : y = key
    · rw [hx, hy]
    · rw [if_pos hx, if_neg hy] at h
      exact absurd h.symm (hnew y)
  · by_cases hy : y = key
    · rw [if_neg hx, if_pos hy] at h
      exact absurd h (hnew x)
    · rw [if_neg hx, if_neg hy] at h
      exact hf h

end Lib
