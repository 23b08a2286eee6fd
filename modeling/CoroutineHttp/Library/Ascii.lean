/-
  CoroutineHttp.Library.Ascii

  Byte strings and what the C and C++ libraries do with them in the "C" locale:
  character classes, case, trimming, `operator>>` on a string stream, `stoi` and
  `to_string`.
-/

import Mathlib.Algebra.Group.Int.Defs
import Mathlib.Algebra.Group.Nat.Defs
import Mathlib.Data.List.DropRight

namespace CoroutineHttp.Library

/-- `std::string`: arbitrary bytes. -/
abbrev Bytes := List UInt8

/-- The bytes of a string literal, in UTF-8. -/
def bytes (s : String) : Bytes := s.toList.flatMap String.utf8EncodeChar

/-! ## Characters -/

/-- `isspace`: the blank, and TAB, LF, VT, FF, CR. -/
def isspace (b : UInt8) : Bool := b == 32 || (9 ≤ b && b ≤ 13)

/-- `isdigit`. -/
def isdigit (b : UInt8) : Bool := 48 ≤ b && b ≤ 57

/-- `tolower`. -/
def tolower (b : UInt8) : UInt8 := if 65 ≤ b && b ≤ 90 then b + 32 else b

/-- `toupper`. -/
def toupper (b : UInt8) : UInt8 := if 97 ≤ b && b ≤ 122 then b - 32 else b

/-- The value of a hexadecimal digit; `none` when `isxdigit` is false. -/
def xdigit (b : UInt8) : Option UInt8 :=
  if 48 ≤ b && b ≤ 57 then some (b - 48)
  else if 65 ≤ b && b ≤ 70 then some (b - 55)
  else if 97 ≤ b && b ≤ 102 then some (b - 87)
  else none

/-- A property of bytes can be checked byte by byte. -/
theorem forall_byte {P : UInt8 → Prop} (h : ∀ n : Fin 256, P (UInt8.ofFin n)) (b : UInt8) :
    P b := h b.toFin

theorem tolower_tolower (b : UInt8) : tolower (tolower b) = tolower b :=
  forall_byte (P := fun b => tolower (tolower b) = tolower b) (by decide +kernel) b

theorem toupper_of_not_lower {b : UInt8} (h : ¬ (97 ≤ b ∧ b ≤ 122)) : toupper b = b := by
  simp only [toupper]
  split
  next hb => exact absurd (by simpa using hb) h
  next => rfl

/-! ## Strings -/

/-- `transform(..., ::tolower)`. -/
def toLower (s : Bytes) : Bytes := s.map tolower

theorem toLower_toLower (s : Bytes) : toLower (toLower s) = toLower s := by
  simp [toLower, tolower_tolower]

/-- Cut off the characters in `blank` at both ends, as `find_first_not_of` and
    `find_last_not_of` do. -/
def trimWith (blank : UInt8 → Bool) (s : Bytes) : Bytes :=
  (s.dropWhile blank).rdropWhile blank

theorem trimWith_eq_self {blank : UInt8 → Bool} {s : Bytes}
    (hhead : ∀ b ∈ s.head?, blank b = false) (hlast : ∀ b ∈ s.getLast?, blank b = false) :
    trimWith blank s = s := by
  have hdrop : s.dropWhile blank = s := by
    cases s with
    | nil => rfl
    | cons b s => simp [hhead b rfl]
  rw [trimWith, hdrop, List.rdropWhile_eq_self_iff]
  intro hne
  simp [hlast _ (List.getLast?_eq_some_getLast hne)]

/-- Blanks before a trimmed string do not matter. -/
theorem trimWith_append_left {blank : UInt8 → Bool} {pre : Bytes} (s : Bytes)
    (hpre : ∀ b ∈ pre, blank b = true) : trimWith blank (pre ++ s) = trimWith blank s := by
  have hdrop : (pre ++ s).dropWhile blank = s.dropWhile blank := by
    induction pre with
    | nil => rfl
    | cons b pre ih =>
        simp [hpre b List.mem_cons_self, ih fun c hc => hpre c (List.mem_cons_of_mem _ hc)]
  rw [trimWith, hdrop, trimWith]

/-- `ss >> word`: skip white space, take what is not white space.  The extraction
    fails on an empty word. -/
def word (s : Bytes) : Bytes × Bytes :=
  let t := s.dropWhile isspace
  (t.takeWhile fun b => !isspace b, t.dropWhile fun b => !isspace b)

/-- A word followed by a blank. -/
theorem word_append {w rest : Bytes} {sep : UInt8} (hw : ∀ b ∈ w, isspace b = false)
    (hne : w ≠ []) (hsep : isspace sep = true) : word (w ++ sep :: rest) = (w, sep :: rest) := by
  have hdrop : (w ++ sep :: rest).dropWhile isspace = w ++ sep :: rest := by
    cases w with
    | nil => exact absurd rfl hne
    | cons b w => simp [hw b List.mem_cons_self]
  simp only [word, hdrop]
  have hall : ∀ b ∈ w, (!isspace b) = true := fun b hb => by simp [hw b hb]
  rw [List.takeWhile_append_of_pos hall, List.dropWhile_append_of_pos hall]
  simp [hsep]

/-- A word at the end of the line. -/
theorem word_self {w : Bytes} (hw : ∀ b ∈ w, isspace b = false) : word w = (w, []) := by
  have hall : ∀ b ∈ w, (!isspace b) = true := fun b hb => by simp [hw b hb]
  have hdrop : w.dropWhile isspace = w := by
    cases w with
    | nil => rfl
    | cons b w => simp [hw b List.mem_cons_self]
  simp only [word, hdrop]
  rw [List.takeWhile_eq_self_iff.mpr hall, List.dropWhile_eq_nil_iff.mpr hall]

/-- Blanks before a word are skipped. -/
theorem word_cons_space {sep : UInt8} (s : Bytes) (hsep : isspace sep = true) :
    word (sep :: s) = word s := by
  simp [word, hsep]

/-! ## Numbers -/

/-- The value of a string of decimal digits. -/
def decimalValue (ds : Bytes) : Nat := ds.foldl (fun acc d => 10 * acc + (d.toNat - 48)) 0

/-- Digits can only be added to the value. -/
theorem decimalValue_le_append (ds es : Bytes) : decimalValue ds ≤ decimalValue (ds ++ es) := by
  -- one more digit multiplies by ten and adds
  have hfold : ∀ (es : Bytes) (acc : Nat),
      acc ≤ es.foldl (fun acc d => 10 * acc + (d.toNat - 48)) acc := by
    intro es
    induction es with
    | nil => intro acc; exact le_rfl
    | cons e es ih =>
        intro acc
        exact le_trans (show acc ≤ 10 * acc + (e.toNat - 48) by omega) (ih _)
  rw [decimalValue, decimalValue, List.foldl_append]
  exact hfold es _

/-- `stoi`: leading white space, a sign, the longest run of digits; what follows is
    ignored.  It throws (`none`) without digits and outside the range of `int`. -/
def stoi (s : Bytes) : Option Int :=
  let t := s.dropWhile isspace
  let negative := t.head? == some 45
  let u := if negative || t.head? == some 43 then t.tail else t
  let digits := u.takeWhile isdigit
  if digits = [] then none
  else
    let value : Int := if negative then -(decimalValue digits : Int) else decimalValue digits
    if -(2 ^ 31) ≤ value ∧ value < 2 ^ 31 then some value else none

/-- `std::to_string` of a natural number. -/
def toDec (n : Nat) : Bytes := (Nat.toDigits 10 n).map Char.toUInt8

theorem toDec_ne_nil (n : Nat) : toDec n ≠ [] := by
  simp [toDec, Nat.toDigits_ne_nil]

theorem isdigit_toUInt8 {c : Char} (hc : c.isDigit = true) :
    isdigit c.toUInt8 = true ∧ c.toUInt8.toNat = c.toNat := by
  simp only [Char.isDigit, Bool.and_eq_true, decide_eq_true_eq] at hc
  have h1 : 48 ≤ c.toNat := hc.1
  have h2 : c.toNat ≤ 57 := hc.2
  have hnat : c.toUInt8.toNat = c.toNat := by
    have hlt : c.val.toNat < 256 := Nat.lt_of_le_of_lt h2 (by decide)
    exact Nat.mod_eq_of_lt hlt
  refine ⟨?_, hnat⟩
  simp only [isdigit, Bool.and_eq_true, decide_eq_true_eq, UInt8.le_iff_toNat_le]
  rw [hnat]
  exact ⟨h1, h2⟩

theorem isdigit_of_mem_toDec {n : Nat} {b : UInt8} (hb : b ∈ toDec n) : isdigit b = true := by
  obtain ⟨c, hc, rfl⟩ := List.mem_map.mp hb
  exact (isdigit_toUInt8 (Nat.isDigit_of_mem_toDigits (by decide) (by decide) hc)).1

theorem decimalValue_toDec (n : Nat) : decimalValue (toDec n) = n := by
  -- digit by digit, the fold is Lean's reading of the numeral
  have hfold : ∀ (cs : List Char) (acc : Nat), (∀ c ∈ cs, c.isDigit = true) →
      (cs.map Char.toUInt8).foldl (fun acc d => 10 * acc + (d.toNat - 48)) acc
        = Nat.ofDigitChars 10 cs acc := by
    intro cs
    induction cs with
    | nil => intro acc _; rfl
    | cons c cs ih =>
        intro acc hcs
        obtain ⟨-, hnat⟩ := isdigit_toUInt8 (hcs c List.mem_cons_self)
        rw [List.map_cons, List.foldl_cons, hnat, Nat.ofDigitChars_cons]
        exact ih _ fun d hd => hcs d (List.mem_cons_of_mem _ hd)
  rw [decimalValue, toDec, hfold _ 0 fun c hc =>
    Nat.isDigit_of_mem_toDigits (by decide) (by decide) hc]
  exact Nat.ofDigitChars_toDigits (by decide) (by decide)

theorem not_sign_of_isdigit (b : UInt8) :
    isdigit b = true → isspace b = false ∧ b ≠ 45 ∧ b ≠ 43 :=
  forall_byte (P := fun b => isdigit b = true → isspace b = false ∧ b ≠ 45 ∧ b ≠ 43)
    (by decide +kernel) b

/-- `stoi` of a plain decimal number within the range of `int`. -/
theorem stoi_of_digits {ds : Bytes} (hne : ds ≠ []) (hall : ∀ b ∈ ds, isdigit b = true)
    (hlt : decimalValue ds < 2 ^ 31) : stoi ds = some (decimalValue ds : Int) := by
  obtain ⟨d, rest, rfl⟩ := List.exists_cons_of_ne_nil hne
  obtain ⟨hspace, hminus, hplus⟩ := not_sign_of_isdigit d (hall d List.mem_cons_self)
  have hdigits : (d :: rest).takeWhile isdigit = d :: rest := List.takeWhile_eq_self_iff.mpr hall
  have hdrop : (d :: rest).dropWhile isspace = d :: rest := by simp [hspace]
  have h45 : (some d == some 45) = false := by simp [hminus]
  have h43 : (some d == some 43) = false := by simp [hplus]
  simp only [stoi, hdrop, List.head?_cons, h45, h43, Bool.or_self, Bool.false_eq_true, if_false,
    hdigits]
  rw [if_neg (by simp), if_pos (by omega)]

end CoroutineHttp.Library
