import Mathlib.Data.List.Sort
import Mathlib.Data.Prod.Lex

namespace Lib

/-!
# Compact JSON

JSON values without fractions, and their compact text: no white space, short escapes where
there are any, the members of an object in the order given.  The text of a value ends where
the value ends, so it can be read back from any longer text it begins.

* `Json.print` — the text of a value;
* `Json.print_cancel` — two values whose texts begin one and the same text are equal, as long
  as no digit follows either of them;
* `Json.print_injective` — values with the same text are equal;
* `Json.sortKeys` — the members of every object in the order of their names;
* `utf8_injective` — texts with the same UTF-8 bytes are equal.
-/

/-- A JSON value; numbers are integers, and an object lists its members. -/
inductive Json where
  | null
  | bool (b : Bool)
  | int (n : ℤ)
  | str (s : String)
  | arr (items : List Json)
  | obj (members : List (String × Json))
  deriving Repr, Inhabited

/-! ### UTF-8 -/

/-- The bytes of a text. -/
def utf8 (cs : List Char) : List UInt8 := cs.flatMap String.utf8EncodeChar

/-- Characters can be read back from their bytes. -/
theorem utf8_injective : Function.Injective utf8 := by
  intro cs ds h
  have hbytes : cs.utf8Encode = ds.utf8Encode := by
    show (utf8 cs).toByteArray = (utf8 ds).toByteArray
    rw [h]
  have hcs : cs.utf8Encode.utf8Decode? = some cs.toArray := List.utf8Decode?_utf8Encode
  rw [hbytes, List.utf8Decode?_utf8Encode, Option.some.injEq] at hcs
  exact (List.toArray_inj hcs).symm

/-! ### Integers -/

/-- Nothing that could still belong to a number follows. -/
def Stops (r : List Char) : Prop := ∀ c cs, r = c :: cs → c.isDigit = false

/-- The end of a text stops a number. -/
theorem stops_nil : Stops [] := by
  intro c cs h
  cases h

/-- What is no digit stops a number. -/
theorem stops_cons {c : Char} {cs : List Char} (h : c.isDigit = false) : Stops (c :: cs) := by
  intro d ds hd
  cases hd
  exact h

/-- The decimal digits of an integer, after a minus sign where it is negative. -/
def printInt : ℤ → List Char
  | .ofNat n => Nat.toDigits 10 n
  | .negSucc n => '-' :: Nat.toDigits 10 (n + 1)

/-- The digits of a number are digits. -/
theorem isDigit_of_mem_digits {n : ℕ} {c : Char} (h : c ∈ Nat.toDigits 10 n) :
    c.isDigit = true :=
  Nat.isDigit_of_mem_toDigits (by decide) (by decide) h

/-- The digits of a number are read up to the first character that is none. -/
theorem takeWhile_digits (n : ℕ) {r : List Char} (hr : Stops r) :
    (Nat.toDigits 10 n ++ r).takeWhile Char.isDigit = Nat.toDigits 10 n := by
  rw [List.takeWhile_append_of_pos (fun c hc => isDigit_of_mem_digits hc)]
  cases r with
  | nil => simp
  | cons c cs => simp [hr c cs rfl]

/-- A number is read back up to what stops it. -/
theorem digits_prefix {m n : ℕ} {r s : List Char} (hr : Stops r) (hs : Stops s)
    (h : Nat.toDigits 10 m ++ r = Nat.toDigits 10 n ++ s) : m = n ∧ r = s := by
  have hd : Nat.toDigits 10 m = Nat.toDigits 10 n := by
    rw [← takeWhile_digits m hr, h, takeWhile_digits n hs]
  constructor
  · rw [← Nat.ofDigitChars_ten_toDigits (n := m), hd, Nat.ofDigitChars_ten_toDigits]
  · rw [hd] at h
    exact List.append_cancel_left h

/-- A number begins with a digit. -/
theorem digits_eq_cons (n : ℕ) : ∃ c cs, Nat.toDigits 10 n = c :: cs ∧ c.isDigit = true := by
  cases h : Nat.toDigits 10 n with
  | nil => exact absurd h Nat.toDigits_ne_nil
  | cons c cs =>
    refine ⟨c, cs, rfl, isDigit_of_mem_digits (n := n) ?_⟩
    rw [h]
    exact List.mem_cons_self

/-- A minus is not the start of a number without a sign. -/
theorem minus_ne_digits {n : ℕ} {r s : List Char} : '-' :: r ≠ Nat.toDigits 10 n ++ s := by
  intro h
  obtain ⟨c, cs, hn, hc⟩ := digits_eq_cons n
  rw [hn, List.cons_append, List.cons.injEq] at h
  rw [← h.1] at hc
  exact absurd hc (by decide)

/-- A number with a sign is read back up to what stops it. -/
theorem printInt_prefix {m n : ℤ} {r s : List Char} (hr : Stops r) (hs : Stops s)
    (h : printInt m ++ r = printInt n ++ s) : m = n ∧ r = s := by
  cases m with
  | ofNat m =>
    cases n with
    | ofNat n =>
      obtain ⟨hmn, hrs⟩ := digits_prefix hr hs h
      exact ⟨by rw [hmn], hrs⟩
    | negSucc n => exact absurd h.symm minus_ne_digits
  | negSucc m =>
    cases n with
    | ofNat n => exact absurd h minus_ne_digits
    | negSucc n =>
      have htail := (List.cons.inj h).2
      obtain ⟨hmn, hrs⟩ := digits_prefix hr hs htail
      exact ⟨by rw [Nat.succ.inj hmn], hrs⟩

/-! ### Strings -/

/-- A character inside a string: quotes and backslashes are escaped, and so are the control
    characters, five of them by a letter. -/
def escapeChar (c : Char) : List Char :=
  if c = '"' then ['\\', '"']
  else if c = '\\' then ['\\', '\\']
  else if c.toNat = 8 then ['\\', 'b']
  else if c.toNat = 9 then ['\\', 't']
  else if c.toNat = 10 then ['\\', 'n']
  else if c.toNat = 12 then ['\\', 'f']
  else if c.toNat = 13 then ['\\', 'r']
  else if c.toNat < 32 then
    ['\\', 'u', '0', '0', Nat.digitChar (c.toNat / 16), Nat.digitChar (c.toNat % 16)]
  else [c]

/-- The number behind a hexadecimal digit. -/
def hexValue (c : Char) : ℕ := if c.isDigit then c.toNat - 48 else c.toNat - 87

/-- The first character of the inside of a string, read back, and what follows it. -/
def unescape : List Char → Option (Char × List Char)
  | '\\' :: 'u' :: '0' :: '0' :: h :: l :: cs =>
    some (Char.ofNat (16 * hexValue h + hexValue l), cs)
  | '\\' :: 'b' :: cs => some (Char.ofNat 8, cs)
  | '\\' :: 't' :: cs => some (Char.ofNat 9, cs)
  | '\\' :: 'n' :: cs => some (Char.ofNat 10, cs)
  | '\\' :: 'f' :: cs => some (Char.ofNat 12, cs)
  | '\\' :: 'r' :: cs => some (Char.ofNat 13, cs)
  | '\\' :: c :: cs => some (c, cs)
  | '"' :: _ => none
  | c :: cs => some (c, cs)
  | [] => none

/-- The value of a hexadecimal digit is read back. -/
theorem hexValue_digitChar : ∀ d < 16, hexValue (Nat.digitChar d) = d := by decide

/-- Reading undoes escaping. -/
theorem unescape_escapeChar (c : Char) (r : List Char) :
    unescape (escapeChar c ++ r) = some (c, r) := by
  have hback {n : ℕ} (h : c.toNat = n) : Char.ofNat n = c := by rw [← h, Char.ofNat_toNat]
  unfold escapeChar
  split
  · rename_i h
    rw [h]
    rfl
  split
  · rename_i h
    rw [h]
    rfl
  split
  · rename_i h
    exact congrArg (fun d => some (d, r)) (hback h)
  split
  · rename_i h
    exact congrArg (fun d => some (d, r)) (hback h)
  split
  · rename_i h
    exact congrArg (fun d => some (d, r)) (hback h)
  split
  · rename_i h
    exact congrArg (fun d => some (d, r)) (hback h)
  split
  · rename_i h
    exact congrArg (fun d => some (d, r)) (hback h)
  -- the control characters as four hexadecimal digits
  split
  · rename_i h
    show some (Char.ofNat (16 * hexValue _ + hexValue _), r) = some (c, r)
    rw [hexValue_digitChar _ (by omega), hexValue_digitChar _ (by omega), Nat.div_add_mod,
      Char.ofNat_toNat]
  -- any other character stands for itself
  · rename_i hquote hback' _ _ _ _ _ _
    rw [List.cons_append, List.nil_append, unescape.eq_def]
    split <;> simp_all

/-- The inside of a string holds no bare quote. -/
theorem unescape_quote (r : List Char) : unescape ('"' :: r) = none := rfl

/-- The inside of a string, character by character. -/
def escape (cs : List Char) : List Char := cs.flatMap escapeChar

/-- An escaped text is read back up to the quotation mark. -/
theorem escape_prefix {cs ds r s : List Char}
    (h : escape cs ++ '"' :: r = escape ds ++ '"' :: s) : cs = ds ∧ r = s := by
  induction cs generalizing ds with
  | nil =>
    cases ds with
    | nil => exact ⟨rfl, (List.cons.inj h).2⟩
    | cons d ds =>
      -- the closing quote ends one of the texts only
      have hread := congrArg unescape h
      simp only [escape, List.flatMap_nil, List.nil_append, List.flatMap_cons,
        List.append_assoc, unescape_quote, unescape_escapeChar] at hread
      cases hread
  | cons c cs ih =>
    have hread := congrArg unescape h
    cases ds with
    | nil =>
      simp only [escape, List.flatMap_nil, List.nil_append, List.flatMap_cons,
        List.append_assoc, unescape_quote, unescape_escapeChar] at hread
      cases hread
    -- both give a character: the same one, and then the same rest
    | cons d ds =>
      simp only [escape, List.flatMap_cons, List.append_assoc, unescape_escapeChar,
        Option.some.injEq, Prod.mk.injEq] at hread
      obtain ⟨hcd, hrest⟩ := hread
      obtain ⟨hcs, hrs⟩ := ih hrest
      exact ⟨by rw [hcd, hcs], hrs⟩

/-- A string in quotes. -/
def printStr (s : String) : List Char := '"' :: (escape s.toList ++ ['"'])

/-- A quoted text is read back. -/
theorem printStr_prefix {s t : String} {r r' : List Char}
    (h : printStr s ++ r = printStr t ++ r') : s = t ∧ r = r' := by
  simp only [printStr, List.cons_append, List.append_assoc, List.nil_append,
    List.cons.injEq, true_and] at h
  obtain ⟨hst, hr⟩ := escape_prefix h
  exact ⟨String.toList_inj.mp hst, hr⟩

namespace Json

/-! ### Values -/

mutual

/-- The compact text of a value. -/
def print : Json → List Char
  | null => ['n', 'u', 'l', 'l']
  | bool true => ['t', 'r', 'u', 'e']
  | bool false => ['f', 'a', 'l', 's', 'e']
  | int n => printInt n
  | str s => printStr s
  | arr items => '[' :: (printItems [] items ++ [']'])
  | obj members => '{' :: (printMembers [] members ++ ['}'])

/-- The items of an array, `sep` before the first of them and a comma before the others. -/
def printItems (sep : List Char) : List Json → List Char
  | [] => []
  | v :: vs => sep ++ (v.print ++ printItems [','] vs)

/-- The members of an object, separated in the same way. -/
def printMembers (sep : List Char) : List (String × Json) → List Char
  | [] => []
  | (k, v) :: ms => sep ++ (printStr k ++ ':' :: (v.print ++ printMembers [','] ms))

end

/-- Which kind of value a first character announces. -/
def lead (c : Char) : Char := if c.isDigit then '-' else c

/-- The character that announces a value. -/
def tag : Json → Char
  | null => 'n'
  | bool true => 't'
  | bool false => 'f'
  | int _ => '-'
  | str _ => '"'
  | arr _ => '['
  | obj _ => '{'

/-- The first character of a value tells its kind. -/
theorem print_eq_cons (v : Json) : ∃ c cs, v.print = c :: cs ∧ lead c = v.tag := by
  cases v with
  | null => exact ⟨_, _, rfl, rfl⟩
  | bool b => cases b <;> exact ⟨_, _, rfl, rfl⟩
  | int n =>
    cases n with
    | ofNat n =>
      obtain ⟨c, cs, hn, hc⟩ := digits_eq_cons n
      refine ⟨c, cs, by rw [print]; exact hn, ?_⟩
      rw [lead, if_pos hc, tag]
    | negSucc n => exact ⟨_, _, rfl, rfl⟩
  | str s => exact ⟨_, _, rfl, rfl⟩
  | arr items => exact ⟨_, _, rfl, rfl⟩
  | obj members => exact ⟨_, _, rfl, rfl⟩

/-- The characters that announce a value. -/
theorem tag_mem (v : Json) : v.tag ∈ ['n', 't', 'f', '-', '"', '[', '{'] := by
  cases v with
  | bool b => cases b <;> simp [tag]
  | _ => simp [tag]

/-- Texts that begin alike announce the same kind of value. -/
theorem tag_eq {v w : Json} {r s : List Char} (h : v.print ++ r = w.print ++ s) :
    v.tag = w.tag := by
  obtain ⟨c, cs, hv, hc⟩ := print_eq_cons v
  obtain ⟨d, ds, hw, hd⟩ := print_eq_cons w
  rw [hv, hw] at h
  rw [← hc, ← hd, (List.cons.inj h).1]

/-- A value begins neither with a bracket that closes nor with a comma. -/
theorem print_ne_cons {v : Json} {c : Char} {r s : List Char}
    (hc : c ∈ [']', '}', ',']) : v.print ++ r ≠ c :: s := by
  intro h
  obtain ⟨d, ds, hv, hd⟩ := print_eq_cons v
  rw [hv, List.cons_append, List.cons.injEq] at h
  have hmem := tag_mem v
  rw [← hd, h.1] at hmem
  have hdisjoint : ∀ x ∈ [']', '}', ','], lead x ∉ ['n', 't', 'f', '-', '"', '[', '{'] := by
    intro x hx
    rw [List.mem_cons, List.mem_cons, List.mem_singleton] at hx
    rcases hx with rfl | rfl | rfl <;> decide
  exact hdisjoint c hc hmem

/-! ### Reading back -/

/-- What may follow an item or a member: the bracket that closes, or a comma. -/
theorem stops_printItems {vs : List Json} {r : List Char} :
    Stops (printItems [','] vs ++ ']' :: r) := by
  cases vs with
  | nil => exact stops_cons (by decide)
  | cons v vs => exact stops_cons (by decide)

/-- The end of an object stops a number. -/
theorem stops_printMembers {ms : List (String × Json)} {r : List Char} :
    Stops (printMembers [','] ms ++ '}' :: r) := by
  cases ms with
  | nil => exact stops_cons (by decide)
  | cons m ms => exact stops_cons (by decide)

mutual

/-- **Prefix property.** Two values whose texts begin the same text are equal, and so is what
    follows them.  By recursion on the first value; the second has the same tag, hence the
    same constructor. -/
theorem print_cancel : ∀ (v w : Json) (r s : List Char), Stops r → Stops s →
    v.print ++ r = w.print ++ s → v = w ∧ r = s
  | null, w, r, s, _, _, h => by
    have htag := tag_eq h
    cases w with
    | null => exact ⟨rfl, List.append_cancel_left h⟩
    | bool b => cases b <;> cases htag
    | _ => cases htag
  | bool a, w, r, s, _, _, h => by
    have htag := tag_eq h
    cases w with
    | bool b =>
      cases a <;> cases b
      · exact ⟨rfl, List.append_cancel_left h⟩
      · cases htag
      · cases htag
      · exact ⟨rfl, List.append_cancel_left h⟩
    | _ => cases a <;> cases htag
  -- an integer ends where its digits end
  | int m, w, r, s, hr, hs, h => by
    have htag := tag_eq h
    cases w with
    | int n =>
      simp only [print] at h
      obtain ⟨hmn, hrs⟩ := printInt_prefix hr hs h
      exact ⟨by rw [hmn], hrs⟩
    | bool b => cases b <;> cases htag
    | _ => cases htag
  | str x, w, r, s, _, _, h => by
    have htag := tag_eq h
    cases w with
    | str y =>
      simp only [print] at h
      obtain ⟨hxy, hrs⟩ := printStr_prefix h
      exact ⟨by rw [hxy], hrs⟩
    | bool b => cases b <;> cases htag
    | _ => cases htag
  -- the items and the members, by mutual induction
  | arr vs, w, r, s, _, _, h => by
    have htag := tag_eq h
    cases w with
    | arr ws =>
      simp only [print, List.cons_append, List.append_assoc, List.nil_append] at h
      obtain ⟨hvs, hrs⟩ := printItems_prefix vs ws [] (.inl rfl) r s (List.cons.inj h).2
      exact ⟨by rw [hvs], hrs⟩
    | bool b => cases b <;> cases htag
    | _ => cases htag
  | obj ms, w, r, s, _, _, h => by
    have htag := tag_eq h
    cases w with
    | obj ns =>
      simp only [print, List.cons_append, List.append_assoc, List.nil_append] at h
      obtain ⟨hms, hrs⟩ := printMembers_prefix ms ns [] (.inl rfl) r s (List.cons.inj h).2
      exact ⟨by rw [hms], hrs⟩
    | bool b => cases b <;> cases htag
    | _ => cases htag

/-- The items of an array are read back, by induction on them. -/
theorem printItems_prefix : ∀ (vs ws : List Json) (sep : List Char), sep = [] ∨ sep = [','] →
    ∀ r s : List Char, printItems sep vs ++ ']' :: r = printItems sep ws ++ ']' :: s →
      vs = ws ∧ r = s
  | [], [], _, _, _, _, h => ⟨rfl, (List.cons.inj h).2⟩
  | [], w :: ws, sep, hsep, r, s, h => by
    simp only [printItems, List.nil_append, List.append_assoc] at h
    rcases hsep with rfl | rfl
    · exact absurd h.symm (print_ne_cons (by decide))
    · exact absurd (List.cons.inj h).1 (by decide)
  | v :: vs, [], sep, hsep, r, s, h => by
    simp only [printItems, List.nil_append, List.append_assoc] at h
    rcases hsep with rfl | rfl
    · exact absurd h (print_ne_cons (by decide))
    · exact absurd (List.cons.inj h).1 (by decide)
  | v :: vs, w :: ws, sep, _, r, s, h => by
    simp only [printItems, List.append_assoc] at h
    have htail := List.append_cancel_left h
    obtain ⟨hvw, hrest⟩ := print_cancel v w _ _ stops_printItems stops_printItems htail
    obtain ⟨hvs, hrs⟩ := printItems_prefix vs ws [','] (.inr rfl) r s hrest
    exact ⟨by rw [hvw, hvs], hrs⟩

/-- The members of an object are read back, by induction on them. -/
theorem printMembers_prefix : ∀ (ms ns : List (String × Json)) (sep : List Char),
    sep = [] ∨ sep = [','] →
    ∀ r s : List Char, printMembers sep ms ++ '}' :: r = printMembers sep ns ++ '}' :: s →
      ms = ns ∧ r = s
  | [], [], _, _, _, _, h => ⟨rfl, (List.cons.inj h).2⟩
  -- the text of a member does not begin with the closing brace
  | [], (k, w) :: ns, sep, hsep, r, s, h => by
    simp only [printMembers, List.nil_append, List.append_assoc] at h
    rcases hsep with rfl | rfl
    · exact absurd (List.cons.inj h).1 (by decide)
    · exact absurd (List.cons.inj h).1 (by decide)
  | (k, v) :: ms, [], sep, hsep, r, s, h => by
    simp only [printMembers, List.nil_append, List.append_assoc] at h
    rcases hsep with rfl | rfl
    · exact absurd (List.cons.inj h).1 (by decide)
    · exact absurd (List.cons.inj h).1 (by decide)
  | (k, v) :: ms, (l, w) :: ns, sep, _, r, s, h => by
    simp only [printMembers, List.append_assoc, List.cons_append] at h
    obtain ⟨hkl, hvalue⟩ := printStr_prefix (List.append_cancel_left h)
    obtain ⟨hvw, hrest⟩ := print_cancel v w _ _ stops_printMembers stops_printMembers
      (List.cons.inj hvalue).2
    obtain ⟨hms, hrs⟩ := printMembers_prefix ms ns [','] (.inr rfl) r s hrest
    exact ⟨by rw [hkl, hvw, hms], hrs⟩

end

/-- **Injectivity.** Values with the same text are equal. -/
theorem print_injective : Function.Injective print := by
  intro v w h
  have happend : v.print ++ [] = w.print ++ [] := by rw [h]
  exact (print_cancel v w [] [] stops_nil stops_nil happend).1

/-- Values whose texts have the same bytes are equal. -/
theorem utf8_print_injective : Function.Injective fun v : Json => utf8 v.print :=
  utf8_injective.comp print_injective

/-! ### The order of the members -/

mutual

/-- The same value with the members of every object in the order of their names. -/
def sortKeys : Json → Json
  | arr items => arr (sortItems items)
  | obj members => obj ((sortMembers members).insertionSort fun a b => a.1 ≤ b.1)
  | v => v

/-- The items of an array, each with its own members in order. -/
def sortItems : List Json → List Json
  | [] => []
  | v :: vs => v.sortKeys :: sortItems vs

/-- The members of an object in their own order, each value with its members in order. -/
def sortMembers : List (String × Json) → List (String × Json)
  | [] => []
  | (k, v) :: ms => (k, v.sortKeys) :: sortMembers ms

end

/-- Sorting the keys inside the members, member by member. -/
theorem sortMembers_eq_map (ms : List (String × Json)) :
    sortMembers ms = ms.map fun m => (m.1, m.2.sortKeys) := by
  induction ms with
  | nil => rfl
  | cons m ms ih => rw [List.map_cons, ← ih, sortMembers]

end Json

end Lib
