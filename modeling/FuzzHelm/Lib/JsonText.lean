import FuzzHelm.Lib.Json
import FuzzHelm.Lib.TextSearch
import Mathlib.Data.Bool.AllAny

namespace Lib

/-!
# JSON in plain ASCII

JSON values with fractions, and their compact text in which every character that is not a
printable ASCII one is escaped.

* `Datum` — a value; a number with a fraction is held by its text;
* `escapeAscii` — the inside of a string;
* `Datum.dumps` — the text of a value; `Datum.printable_dumps` — its characters;
* `skips_quoteAscii` — a string in quotes hides the name of a member, whatever it holds;
* `utf8_eq_map` — the bytes of an ASCII text.
-/

/-- A printable character of ASCII. -/
def Printable (c : Char) : Prop := 32 ≤ c.toNat ∧ c.toNat ≤ 126

/-- Whether a character is printable can be computed. -/
instance (c : Char) : Decidable (Printable c) := by
  unfold Printable
  infer_instance

/-- What is printable is ASCII. -/
theorem Printable.ascii {c : Char} (h : Printable c) : c.toNat ≤ 127 := h.2.trans (by decide)

/-- The text of a number with a fraction: printable, and without a quote. -/
structure FloatText where
  text : String
  plain : ∀ c ∈ text.toList, c ≠ '"' ∧ Printable c

/-- A JSON value; an object lists its members. -/
inductive Datum where
  | null
  | bool (b : Bool)
  | int (n : ℤ)
  | float (x : FloatText)
  | str (s : String)
  | arr (items : List Datum)
  | obj (members : List (String × Datum))
  deriving Inhabited

/-! ### Strings -/

/-- Four hexadecimal digits. -/
def hex4 (n : ℕ) : List Char :=
  [Nat.digitChar (n / 4096 % 16), Nat.digitChar (n / 256 % 16), Nat.digitChar (n / 16 % 16),
    Nat.digitChar (n % 16)]

/-- The control characters that are escaped by a letter. -/
def escapeLetters : List (ℕ × Char) := [(8, 'b'), (9, 't'), (10, 'n'), (12, 'f'), (13, 'r')]

/-- Four hexadecimal digits, and two times four beyond the first plane. -/
def escapeUnicode (n : ℕ) : List Char :=
  if n < 0x10000 then '\\' :: 'u' :: hex4 n
  else
    '\\' :: 'u' :: (hex4 (0xD800 + (n - 0x10000) / 0x400) ++
      '\\' :: 'u' :: hex4 (0xDC00 + (n - 0x10000) % 0x400))

/-- A character inside a string: what is not printable ASCII becomes a letter or digits. -/
def escapeAscii (c : Char) : List Char :=
  if c = '"' ∨ c = '\\' then ['\\', c]
  else if Printable c then [c]
  else match escapeLetters.lookup c.toNat with
    | some letter => ['\\', letter]
    | none => escapeUnicode c.toNat

/-- A string in quotes. -/
def quoteAscii (s : String) : List Char := '"' :: (s.toList.flatMap escapeAscii ++ ['"'])

/-- A character that is written as it is. -/
def Plain (c : Char) : Prop := Printable c ∧ c ≠ '"' ∧ c ≠ '\\'

/-- Whether a character is written as it is can be computed. -/
instance (c : Char) : Decidable (Plain c) := inferInstanceAs (Decidable (_ ∧ _ ∧ _))

/-- A plain character is written as it is. -/
theorem escapeAscii_plain {c : Char} (h : Plain c) : escapeAscii c = [c] := by
  obtain ⟨hprint, hquote, hback⟩ := h
  rw [escapeAscii, if_neg (not_or.mpr ⟨hquote, hback⟩), if_pos hprint]

/-- The characters of escapes. -/
def escapeAlphabet : List Char := "\\bfnrtu0123456789abcdef".toList

/-- The digits of a character are of the alphabet. -/
theorem escapeUnicode_eq (n : ℕ) :
    ∃ cs, escapeUnicode n = '\\' :: cs ∧ ∀ d ∈ cs, d ∈ escapeAlphabet := by
  have hdigit : ∀ m < 16, Nat.digitChar m ∈ escapeAlphabet := by decide +kernel
  have hhex : ∀ m, ∀ d ∈ hex4 m, d ∈ escapeAlphabet := by
    intro m d hd
    simp only [hex4, List.mem_cons, List.not_mem_nil, or_false] at hd
    rcases hd with rfl | rfl | rfl | rfl <;> exact hdigit _ (Nat.mod_lt _ (by decide))
  have hu : 'u' ∈ escapeAlphabet := by decide +kernel
  have hback : '\\' ∈ escapeAlphabet := by decide +kernel
  unfold escapeUnicode
  split_ifs
  · exact ⟨_, rfl, List.forall_mem_cons.mpr ⟨hu, hhex _⟩⟩
  · refine ⟨_, rfl, List.forall_mem_cons.mpr ⟨hu, List.forall_mem_append.mpr ⟨hhex _, ?_⟩⟩⟩
    exact List.forall_mem_cons.mpr ⟨hback, List.forall_mem_cons.mpr ⟨hu, hhex _⟩⟩

/-- **An escape** is a backslash and characters of the alphabet, or a printable character. -/
theorem escapeAscii_escaped {c : Char} (h : ¬Plain c) :
    ∃ cs, escapeAscii c = '\\' :: cs ∧ ∀ d ∈ cs, d ∈ escapeAlphabet ∨ (d = c ∧ Printable c) := by
  unfold escapeAscii
  split_ifs with hself hprint
  · refine ⟨_, rfl, fun d hd => .inr ⟨List.mem_singleton.mp hd, ?_⟩⟩
    rcases hself with rfl | rfl <;> decide
  · exact absurd ⟨hprint, not_or.mp hself⟩ h
  · split
    · rename_i letter hletter
      have hletters : ∀ e ∈ escapeLetters, e.2 ∈ escapeAlphabet := by decide +kernel
      obtain ⟨before, after, hsplit, -⟩ := List.lookup_eq_some_iff.mp hletter
      refine ⟨_, rfl, fun d hd => .inl ?_⟩
      rw [List.mem_singleton.mp hd]
      refine hletters (c.toNat, letter) ?_
      rw [hsplit]
      exact List.mem_append_right _ List.mem_cons_self
    · obtain ⟨cs, hcs, hall⟩ := escapeUnicode_eq c.toNat
      exact ⟨cs, hcs, fun d hd => .inl (hall d hd)⟩

/-- A character that no escape uses comes from itself only. -/
theorem notMem_escapeAscii {x c : Char} (hx : x ∉ escapeAlphabet) (h : c ≠ x) :
    x ∉ escapeAscii c := by
  intro hmem
  by_cases hplain : Plain c
  · rw [escapeAscii_plain hplain, List.mem_singleton] at hmem
    exact h hmem.symm
  · obtain ⟨cs, hcs, hall⟩ := escapeAscii_escaped hplain
    rw [hcs, List.mem_cons] at hmem
    rcases hmem with rfl | hmem
    · exact hx (by decide +kernel)
    · rcases hall x hmem with halph | ⟨rfl, -⟩
      · exact hx halph
      · exact h rfl

/-- Quotes come from quotes only. -/
theorem quote_notMem_escapeAscii {c : Char} (h : c ≠ '"') : '"' ∉ escapeAscii c :=
  notMem_escapeAscii (by decide +kernel) h

/-- The inside of a string is printable. -/
theorem printable_escapeAscii (c : Char) : ∀ d ∈ escapeAscii c, Printable d := by
  have halphabet : ∀ d ∈ escapeAlphabet, Printable d :=
    List.all_iff_forall_prop.mp (by decide +kernel)
  by_cases hplain : Plain c
  · rw [escapeAscii_plain hplain]
    rintro d hd
    rw [List.mem_singleton.mp hd]
    exact hplain.1
  · obtain ⟨cs, hcs, hall⟩ := escapeAscii_escaped hplain
    rw [hcs, List.forall_mem_cons]
    refine ⟨by decide, fun d hd => ?_⟩
    rcases hall d hd with halph | ⟨rfl, hprint⟩
    · exact halphabet d halph
    · exact hprint

/-- A quoted text is printable. -/
theorem printable_quoteAscii (s : String) : ∀ c ∈ quoteAscii s, Printable c := by
  have hquote : Printable '"' := by decide
  simp only [quoteAscii, List.forall_mem_cons, List.forall_mem_append, List.mem_flatMap]
  refine ⟨hquote, ?_, hquote, fun c hc => absurd hc List.not_mem_nil⟩
  rintro c ⟨d, -, hc⟩
  exact printable_escapeAscii d c hc

/-! ### Values -/

namespace Datum

mutual

/-- The compact text of a value. -/
def dumps : Datum → List Char
  | null => ['n', 'u', 'l', 'l']
  | bool true => ['t', 'r', 'u', 'e']
  | bool false => ['f', 'a', 'l', 's', 'e']
  | int n => printInt n
  | float x => x.text.toList
  | str s => quoteAscii s
  | arr items => '[' :: (dumpsItems [] items ++ [']'])
  | obj members => '{' :: (dumpsMembers [] members ++ ['}'])

/-- The items of an array, `sep` before the first of them and a comma before the others. -/
def dumpsItems (sep : List Char) : List Datum → List Char
  | [] => []
  | v :: vs => sep ++ (v.dumps ++ dumpsItems [','] vs)

/-- The members of an object, separated in the same way. -/
def dumpsMembers (sep : List Char) : List (String × Datum) → List Char
  | [] => []
  | (k, v) :: ms => sep ++ (quoteAscii k ++ ':' :: (v.dumps ++ dumpsMembers [','] ms))

end

/-! ### Printable text -/

/-- A number is printable. -/
theorem printable_printInt (n : ℤ) : ∀ c ∈ printInt n, Printable c := by
  have hdigits : ∀ m : ℕ, ∀ c ∈ Nat.toDigits 10 m, Printable c := by
    intro m c hc
    have hdigit := isDigit_of_mem_digits hc
    simp only [Char.isDigit, Bool.and_eq_true, decide_eq_true_eq, ge_iff_le,
      UInt32.le_iff_toNat_le] at hdigit
    have hlow : 48 ≤ c.toNat := hdigit.1
    have hhigh : c.toNat ≤ 57 := hdigit.2
    exact ⟨by omega, by omega⟩
  cases n with
  | ofNat m => exact hdigits m
  | negSucc m =>
    rw [printInt, List.forall_mem_cons]
    exact ⟨by decide, hdigits _⟩

mutual

/-- **The text of a value is printable**: it has no line break, and a byte for a character.  By
    recursion on the value. -/
theorem printable_dumps : ∀ v : Datum, ∀ c ∈ v.dumps, Printable c
  | null => List.all_iff_forall_prop.mp (by decide)
  | bool true => List.all_iff_forall_prop.mp (by decide)
  | bool false => List.all_iff_forall_prop.mp (by decide)
  | int n => printable_printInt n
  | float x => fun c hc => (x.plain c hc).2
  | str s => printable_quoteAscii s
  | arr items => by
    simp only [dumps, List.forall_mem_cons, List.forall_mem_append]
    exact ⟨by decide, printable_dumpsItems items (by simp), by decide, by simp⟩
  | obj members => by
    simp only [dumps, List.forall_mem_cons, List.forall_mem_append]
    exact ⟨by decide, printable_dumpsMembers members (by simp), by decide, by simp⟩

/-- The items of an array are printable, by induction on them. -/
theorem printable_dumpsItems : ∀ (vs : List Datum) {sep : List Char},
    (∀ c ∈ sep, Printable c) → ∀ c ∈ dumpsItems sep vs, Printable c
  | [], _, _ => by simp [dumpsItems]
  | v :: vs, sep, hsep => by
    simp only [dumpsItems, List.forall_mem_append]
    exact ⟨hsep, printable_dumps v,
      printable_dumpsItems vs (List.all_iff_forall_prop.mp (by decide))⟩

/-- The members of an object are printable, by induction on them. -/
theorem printable_dumpsMembers : ∀ (ms : List (String × Datum)) {sep : List Char},
    (∀ c ∈ sep, Printable c) → ∀ c ∈ dumpsMembers sep ms, Printable c
  | [], _, _ => by simp [dumpsMembers]
  | (k, v) :: ms, sep, hsep => by
    simp only [dumpsMembers, List.forall_mem_append, List.forall_mem_cons]
    exact ⟨hsep, printable_quoteAscii k, by decide, printable_dumps v,
      printable_dumpsMembers ms (List.all_iff_forall_prop.mp (by decide))⟩

end

end Datum

/-! ### Names of members -/

/-- The inside of a string does not go on like the rest of a name: the quote that ends it is
    followed by something else than a colon. -/
theorem not_prefix_inside {name : List Char} (hname : ∀ c ∈ name, Plain c) {c : Char} (hc : c ≠ ':')
    (more : List Char) (cs rest : List Char) :
    ¬(name ++ '"' :: ':' :: more) <+: (cs.flatMap escapeAscii ++ '"' :: c :: rest) := by
  induction name generalizing cs with
  | nil =>
    intro h
    -- an empty text is over at the quote, any other goes on with a character
    cases cs with
    | nil => exact hc (List.cons_prefix_cons.mp (List.cons_prefix_cons.mp h).2).1.symm
    | cons d ds =>
      rw [List.flatMap_cons, List.append_assoc] at h
      by_cases hd : Plain d
      · rw [escapeAscii_plain hd] at h
        exact hd.2.1 (List.cons_prefix_cons.mp h).1.symm
      · obtain ⟨es, hes, -⟩ := escapeAscii_escaped hd
        rw [hes] at h
        exact absurd (List.cons_prefix_cons.mp h).1 (by decide)
  | cons x name ih =>
    intro h
    obtain ⟨hx, hname⟩ := List.forall_mem_cons.mp hname
    cases cs with
    | nil => exact hx.2.1 (List.cons_prefix_cons.mp h).1
    | cons d ds =>
      rw [List.flatMap_cons, List.append_assoc] at h
      by_cases hd : Plain d
      · rw [escapeAscii_plain hd] at h
        exact ih hname ds (List.cons_prefix_cons.mp h).2
      · obtain ⟨es, hes, -⟩ := escapeAscii_escaped hd
        rw [hes] at h
        exact hx.2.2 (List.cons_prefix_cons.mp h).1

/-- **A string hides names.**  The name of a member, with its colon, does not begin in a string
    that something else than a colon follows, whatever the string holds. -/
theorem skips_quoteAscii {x : Char} {name more : List Char} (hname : ∀ c ∈ x :: name, Plain c)
    (s : String) {c : Char} (hcolon : c ≠ ':') (hx : c ≠ x) (hquote : c ≠ '"') :
    Skips ('"' :: (x :: name ++ '"' :: ':' :: more)) (quoteAscii s ++ [c]) := by
  have hinside : ∀ cs : List Char, ∀ rest,
      ¬('"' :: (x :: name ++ '"' :: ':' :: more)) <+:
        '"' :: ((cs.flatMap escapeAscii ++ ['"', c]) ++ rest) := by
    intro cs rest h
    rw [List.append_assoc] at h
    exact not_prefix_inside hname hcolon more cs rest (List.cons_prefix_cons.mp h).2
  -- the rest of a string, its last quote and what follows
  have hrest : ∀ cs : List Char,
      Skips ('"' :: (x :: name ++ '"' :: ':' :: more)) (cs.flatMap escapeAscii ++ ['"', c]) := by
    intro cs
    induction cs with
    | nil =>
      refine skips_cons (fun rest h => ?_) (skips_of_notMem (by simpa using hquote.symm))
      exact hx (List.cons_prefix_cons.mp (List.cons_prefix_cons.mp h).2).1.symm
    | cons d ds ih =>
      rw [List.flatMap_cons, List.append_assoc]
      by_cases hd : d = '"'
      · subst hd
        refine skips_cons (fun rest h => ?_) (skips_cons (hinside ds) ih)
        exact absurd (List.cons_prefix_cons.mp h).1 (by decide)
      · exact (skips_of_notMem (quote_notMem_escapeAscii hd)).append ih
  have hsplit : quoteAscii s ++ [c] = '"' :: (s.toList.flatMap escapeAscii ++ ['"', c]) := by
    simp [quoteAscii]
  rw [hsplit]
  exact skips_cons (hinside s.toList) (hrest s.toList)

/-! ### Bytes -/

/-- The byte of an ASCII character. -/
def asciiByte (c : Char) : UInt8 := c.toNat.toUInt8

/-- An ASCII character is one byte. -/
theorem utf8EncodeChar_ascii {c : Char} (h : c.toNat ≤ 127) :
    String.utf8EncodeChar c = [asciiByte c] := by
  unfold String.utf8EncodeChar
  exact if_pos h

/-- An ASCII text has a byte for each character. -/
theorem utf8_eq_map {cs : List Char} (h : ∀ c ∈ cs, c.toNat ≤ 127) :
    utf8 cs = cs.map asciiByte := by
  induction cs with
  | nil => rfl
  | cons c cs ih =>
    obtain ⟨hc, hcs⟩ := List.forall_mem_cons.mp h
    rw [utf8, List.flatMap_cons, utf8EncodeChar_ascii hc, List.map_cons]
    exact congrArg _ (ih hcs)

/-- The byte of an ASCII character has its number. -/
theorem asciiByte_toNat {c : Char} (h : c.toNat ≤ 127) : (asciiByte c).toNat = c.toNat := by
  rw [asciiByte, Nat.toUInt8, UInt8.toNat_ofNat']
  omega

/-- The bytes of ASCII characters differ when they do. -/
theorem asciiByte_inj {c d : Char} (hc : c.toNat ≤ 127) (hd : d.toNat ≤ 127)
    (h : asciiByte c = asciiByte d) : c = d := by
  have hnat := congrArg UInt8.toNat h
  rw [asciiByte_toNat hc, asciiByte_toNat hd] at hnat
  exact Char.toNat_inj.mp hnat

end Lib
