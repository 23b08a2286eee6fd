/-
  CoroutineHttp.Library.Json

  JSON texts: what a reader makes of one (`parse`), and the text that is glued together
  from a value without escaping its strings (`raw`).

  A text is a sequence of UTF-16 code units, which is what the strings of a reader in
  a browser are made of.  Of several fields of one name the last one counts (`lookup`).

  A value can be read back from its raw text exactly if its strings need no escaping:
  what is read from a text never has a raw text longer than it, and one of the same
  length only if no unit was spent on an escape (`value_size`).
-/

import Mathlib.Data.List.Nodup
import Mathlib.Data.List.Perm.Subperm
import Mathlib.Algebra.Order.BigOperators.Group.List
import Mathlib.Algebra.Order.Group.Nat
import Mathlib.Algebra.GroupWithZero.Nat

namespace CoroutineHttp.Library

/-- UTF-16 code units. -/
abbrev Units := List UInt16

/-- The code units of a character. -/
def charUnits (c : Char) : Units :=
  let n := c.toNat
  if n < 0x10000 then [UInt16.ofNat n]
  else
    [UInt16.ofNat (0xD800 + (n - 0x10000) / 0x400),
      UInt16.ofNat (0xDC00 + (n - 0x10000) % 0x400)]

/-- The code units of a string. -/
def units (s : String) : Units := s.toList.flatMap charUnits

/-- JSON values.  A number is kept as its literal. -/
inductive Json where
  | null
  | bool (b : Bool)
  | num (literal : Units)
  | str (s : Units)
  | arr (items : List Json)
  | obj (fields : List (Units × Json))

namespace Json

/-! ## Reading -/

def isBlank (u : UInt16) : Bool := u == 32 || u == 9 || u == 10 || u == 13

def skipBlanks (p : Units) : Units := p.dropWhile isBlank

def isDigit (u : UInt16) : Bool := 48 ≤ u && u ≤ 57

/-- A unit that stands for itself within a string: no control character, no quotation
    mark and no backslash. -/
def isPlain (u : UInt16) : Bool := 32 ≤ u && u != 34 && u != 92

def hexDigit (u : UInt16) : Option UInt16 :=
  if isDigit u then some (u - 48)
  else if 65 ≤ u ∧ u ≤ 70 then some (u - 55)
  else if 97 ≤ u ∧ u ≤ 102 then some (u - 87)
  else none

/-- The unit that `\u` and four digits stand for. -/
def hexUnit (a b c d : UInt16) : Option UInt16 :=
  (hexDigit a).bind fun a => (hexDigit b).bind fun b => (hexDigit c).bind fun c =>
    (hexDigit d).map fun d => ((a * 16 + b) * 16 + c) * 16 + d

/-- The unit that a backslash and `e` stand for. -/
def escaped (e : UInt16) : Option UInt16 :=
  if e = 34 ∨ e = 92 ∨ e = 47 then some e
  else if e = 98 then some 8
  else if e = 102 then some 12
  else if e = 110 then some 10
  else if e = 114 then some 13
  else if e = 116 then some 9
  else none

/-- A string behind its opening quotation mark, and what follows it. -/
def stringBody : Units → Option (Units × Units)
  | [] => none
  | 34 :: r => some ([], r)
  | 92 :: 117 :: a :: b :: c :: d :: r =>
      (hexUnit a b c d).bind fun u => (stringBody r).map fun (s, r') => (u :: s, r')
  | 92 :: e :: r => (escaped e).bind fun u => (stringBody r).map fun (s, r') => (u :: s, r')
  | u :: r => if isPlain u then (stringBody r).map fun (s, r') => (u :: s, r') else none

/-- A unit that may be missing. -/
def optional (f : UInt16 → Bool) : Units → Units × Units
  | [] => ([], [])
  | u :: r => if f u then ([u], r) else ([], u :: r)

def fraction (p : Units) : Option (Units × Units) :=
  let (point, p₁) := optional (· == 46) p
  let (digits, r) := p₁.span isDigit
  if point = [] then some ([], p) else if digits = [] then none else some (point ++ digits, r)

def exponent (p : Units) : Option (Units × Units) :=
  let (e, p₁) := optional (fun u => u == 101 || u == 69) p
  let (sign, p₂) := optional (fun u => u == 43 || u == 45) p₁
  let (digits, r) := p₂.span isDigit
  if e = [] then some ([], p) else if digits = [] then none else some (e ++ sign ++ digits, r)

/-- The literal of a number, and what follows it. -/
def number (p : Units) : Option (Units × Units) :=
  let (sign, p₁) := optional (· == 45) p
  let (whole, p₂) := if p₁.head? = some 48 then p₁.splitAt 1 else p₁.span isDigit
  if whole = [] then none
  else
    (fraction p₂).bind fun (frac, p₃) =>
      (exponent p₃).map fun (exp, r) => (sign ++ whole ++ frac ++ exp, r)

/-- `w` itself. -/
def word (w : Units) (v : Json) (p : Units) : Option (Json × Units) :=
  if w.isPrefixOf p then some (v, p.drop w.length) else none

mutual

/-- A value, and what follows it. -/
def value : Nat → Units → Option (Json × Units)
  | 0, _ => none
  | fuel + 1, p =>
      match skipBlanks p with
      | [] => none
      | 34 :: r => (stringBody r).map fun (s, r') => (.str s, r')
      | 91 :: r =>
          match skipBlanks r with
          | 93 :: r' => some (.arr [], r')
          | _ => (items fuel r).map fun (vs, r') => (.arr vs, r')
      | 123 :: r =>
          match skipBlanks r with
          | 125 :: r' => some (.obj [], r')
          | _ => (members fuel r).map fun (fs, r') => (.obj fs, r')
      | 110 :: r => word (units "ull") .null r
      | 116 :: r => word (units "rue") (.bool true) r
      | 102 :: r => word (units "alse") (.bool false) r
      | p' => (number p').map fun (lit, r) => (.num lit, r)

/-- The items of an array, to its closing bracket. -/
def items : Nat → Units → Option (List Json × Units)
  | 0, _ => none
  | fuel + 1, p =>
      (value fuel p).bind fun (v, r) =>
        match skipBlanks r with
        | 44 :: r' => (items fuel r').map fun (vs, r'') => (v :: vs, r'')
        | 93 :: r' => some ([v], r')
        | _ => none

/-- The fields of an object, to its closing brace. -/
def members : Nat → Units → Option (List (Units × Json) × Units)
  | 0, _ => none
  | fuel + 1, p =>
      match skipBlanks p with
      | 34 :: q =>
          (stringBody q).bind fun (k, q') =>
            match skipBlanks q' with
            | 58 :: q'' =>
                (value fuel q'').bind fun (v, r) =>
                  match skipBlanks r with
                  | 44 :: r' => (members fuel r').map fun (fs, r'') => ((k, v) :: fs, r'')
                  | 125 :: r' => some ([(k, v)], r')
                  | _ => none
            | _ => none
      | _ => none

end

/-- The value of a text. -/
def parse (p : Units) : Option Json :=
  match value (2 * p.length + 1) p with
  | some (v, r) => if skipBlanks r = [] then some v else none
  | none => none

/-- What a reader finds under a name. -/
def lookup (fields : List (Units × Json)) (name : Units) : Option Json :=
  (fields.reverse.find? fun f => f.1 == name).map Prod.snd

/-! ## Raw texts -/

mutual

/-- The text of a value, its strings between quotation marks as they are. -/
def raw : Json → Units
  | .null => units "null"
  | .bool true => units "true"
  | .bool false => units "false"
  | .num literal => literal
  | .str s => 34 :: (s ++ [34])
  | .arr vs => 91 :: (rawItems vs ++ [93])
  | .obj fs => 123 :: (rawFields fs ++ [125])

def rawItems : List Json → Units
  | [] => []
  | [v] => raw v
  | v :: w :: vs => raw v ++ 44 :: rawItems (w :: vs)

def rawFields : List (Units × Json) → Units
  | [] => []
  | [(k, v)] => 34 :: (k ++ 34 :: 58 :: raw v)
  | (k, v) :: f :: fs => 34 :: (k ++ 34 :: 58 :: raw v) ++ 44 :: rawFields (f :: fs)

end

mutual

/-- The strings of the value satisfy `str`, and its numbers `num`. -/
def all (str num : Units → Bool) : Json → Bool
  | .null | .bool _ => true
  | .num literal => num literal
  | .str s => str s
  | .arr vs => allItems str num vs
  | .obj fs => allFields str num fs

def allItems (str num : Units → Bool) : List Json → Bool
  | [] => true
  | v :: vs => all str num v && allItems str num vs

def allFields (str num : Units → Bool) : List (Units × Json) → Bool
  | [] => true
  | (k, v) :: fs => str k && all str num v && allFields str num fs

end

theorem allItems_iff {str num : Units → Bool} {vs : List Json} :
    allItems str num vs = true ↔ ∀ v ∈ vs, v.all str num = true := by
  induction vs with
  | nil => simp [allItems]
  | cons v vs ih => simp [allItems, ih]

theorem allFields_iff {str num : Units → Bool} {fs : List (Units × Json)} :
    allFields str num fs = true ↔ ∀ f ∈ fs, str f.1 = true ∧ f.2.all str num = true := by
  induction fs with
  | nil => simp [allFields]
  | cons f fs ih => simp [allFields, ih, and_assoc]

/-- A string that needs no escaping. -/
def plainString (s : Units) : Bool := s.all isPlain

/-- No string of the value needs escaping. -/
def plain (v : Json) : Bool := v.all plainString fun _ => true

/-- The length of a field, and of the comma or the brace behind it. -/
def fieldLength (f : Units × Json) : Nat := f.1.length + (raw f.2).length + 4

theorem length_rawFields {fs : List (Units × Json)} (hne : fs ≠ []) :
    (rawFields fs).length + 1 = (fs.map fieldLength).sum := by
  induction fs with
  | nil => exact absurd rfl hne
  | cons f fs ih =>
      cases fs with
      | nil =>
          rw [List.map_cons, List.map_nil, List.sum_cons, List.sum_nil]
          simp only [rawFields, fieldLength, List.length_cons, List.length_append]
          omega
      | cons g fs =>
          have hrest := ih (List.cons_ne_nil g fs)
          rw [List.map_cons, List.sum_cons, ← hrest]
          simp only [rawFields, fieldLength, List.length_cons, List.length_append]
          omega

/-! ## What is read is not longer than the text -/

theorem length_skipBlanks (p : Units) : (skipBlanks p).length ≤ p.length :=
  (List.dropWhile_suffix _).length_le

/-- A reader that takes `n` of the `p` units of the text, and needed no escape if
    `exact` holds whenever it took no more. -/
def Takes (n : Nat) (exact : Bool) (r p : Units) : Prop :=
  n + r.length ≤ p.length ∧ (n + r.length = p.length → exact = true)

theorem Takes.trans {n m : Nat} {a b : Bool} {p q r : Units} (h : Takes n a q p)
    (h' : Takes m b r q) : Takes (n + m) (a && b) r p := by
  obtain ⟨hle, hexact⟩ := h
  obtain ⟨hle', hexact'⟩ := h'
  refine ⟨by omega, fun heq => ?_⟩
  rw [hexact (by omega), hexact' (by omega)]
  rfl

theorem Takes.of_eq {n m : Nat} {a b : Bool} {r p : Units} (h : Takes n a r p) (hn : m = n)
    (hb : b = a) : Takes m b r p := by
  subst hn hb
  exact h

/-- One unit of the text. -/
theorem Takes.one (u : UInt16) (r : Units) : Takes 1 true r (u :: r) :=
  ⟨by rw [List.length_cons, Nat.add_comm], fun _ => rfl⟩

/-- Units that nothing is made of. -/
theorem Takes.spare {n : Nat} {a : Bool} {r p q : Units} (h : Takes n a r q)
    (hle : q.length ≤ p.length) : Takes n a r p :=
  ⟨h.1.trans hle, fun heq => h.2 (by have := h.1; omega)⟩

/-- An escape: more units are taken than are made. -/
theorem Takes.escape {n : Nat} {a b : Bool} {r p q : Units} (h : Takes n a r q)
    (hlt : q.length + 1 < p.length) : Takes (n + 1) b r p :=
  ⟨by have := h.1; omega, fun heq => by have := h.1; omega⟩

theorem stringBody_size {p s r : Units} (h : stringBody p = some (s, r)) :
    Takes (s.length + 1) (plainString s) r p := by
  -- on the text; an escape is longer than the unit it stands for
  fun_induction stringBody p generalizing s r with
  | case1 => cases h
  | case2 q =>
      cases h
      exact .one 34 _
  | case3 a b c d q ih =>
      obtain ⟨u, -, h⟩ := Option.bind_eq_some_iff.mp h
      obtain ⟨⟨s', r'⟩, hbody, h⟩ := Option.map_eq_some_iff.mp h
      cases h
      exact (ih hbody).escape (by simp)
  | case4 e q hne ih =>
      obtain ⟨u, -, h⟩ := Option.bind_eq_some_iff.mp h
      obtain ⟨⟨s', r'⟩, hbody, h⟩ := Option.map_eq_some_iff.mp h
      cases h
      exact (ih hbody).escape (by simp)
  | case5 u q _ _ _ hplain ih =>
      obtain ⟨⟨s', r'⟩, hbody, h⟩ := Option.map_eq_some_iff.mp h
      cases h
      rw [plainString, List.all_cons, hplain, List.length_cons, Nat.add_comm s'.length 1,
        Nat.add_assoc]
      exact (Takes.one u q).trans (ih hbody)
  | case6 => cases h

theorem optional_append (f : UInt16 → Bool) (p : Units) :
    (optional f p).1 ++ (optional f p).2 = p := by
  cases p with
  | nil => rfl
  | cons u r =>
      rw [optional]
      split <;> rfl

theorem span_append (f : UInt16 → Bool) (p : Units) : (p.span f).1 ++ (p.span f).2 = p := by
  rw [List.span_eq_takeWhile_dropWhile]
  exact List.takeWhile_append_dropWhile

theorem fraction_append {p part r : Units} (h : fraction p = some (part, r)) : part ++ r = p := by
  have hpoint := optional_append (· == 46) p
  have hdigits := span_append isDigit (optional (· == 46) p).2
  unfold fraction at h
  dsimp only at h
  split at h
  · cases h
    rfl
  · split at h
    · cases h
    · cases h
      rw [List.append_assoc, hdigits, hpoint]

theorem exponent_append {p part r : Units} (h : exponent p = some (part, r)) : part ++ r = p := by
  have he := optional_append (fun u => u == 101 || u == 69) p
  have hsign := optional_append (fun u => u == 43 || u == 45)
    (optional (fun u => u == 101 || u == 69) p).2
  have hdigits := span_append isDigit (optional (fun u => u == 43 || u == 45)
    (optional (fun u => u == 101 || u == 69) p).2).2
  unfold exponent at h
  dsimp only at h
  split at h
  · cases h
    rfl
  · split at h
    · cases h
    · cases h
      rw [List.append_assoc, hdigits, List.append_assoc, hsign, he]

theorem number_append {p lit r : Units} (h : number p = some (lit, r)) : lit ++ r = p := by
  have hsign := optional_append (· == 45) p
  unfold number at h
  dsimp only at h
  generalize optional (· == 45) p = sp at h hsign
  obtain ⟨sign, p₁⟩ := sp
  dsimp only at h hsign
  have hwhole : (if p₁.head? = some 48 then p₁.splitAt 1 else p₁.span isDigit).1 ++
      (if p₁.head? = some 48 then p₁.splitAt 1 else p₁.span isDigit).2 = p₁ := by
    split
    · rw [List.splitAt_eq]
      exact List.take_append_drop 1 p₁
    · exact span_append isDigit p₁
  generalize (if p₁.head? = some 48 then p₁.splitAt 1 else p₁.span isDigit) = wp at h hwhole
  obtain ⟨whole, p₂⟩ := wp
  dsimp only at h hwhole
  split at h
  · cases h
  · obtain ⟨⟨frac, p₃⟩, hfrac, h⟩ := Option.bind_eq_some_iff.mp h
    obtain ⟨⟨exp, r'⟩, hexp, h⟩ := Option.map_eq_some_iff.mp h
    cases h
    rw [List.append_assoc, exponent_append hexp, List.append_assoc, fraction_append hfrac,
      List.append_assoc, hwhole, hsign]

theorem word_size {w p r : Units} {v v' : Json} (h : word w v p = some (v', r)) :
    v' = v ∧ w.length + r.length = p.length := by
  unfold word at h
  split at h
  next hprefix =>
    cases h
    have hle := (List.isPrefixOf_iff_prefix.mp hprefix).length_le
    rw [List.length_drop]
    exact ⟨rfl, by omega⟩
  next => cases h

/-- What `value`, `items` and `members` make of a text, with `fuel`. -/
structure Sized (fuel : Nat) : Prop where
  value : ∀ p v r, value fuel p = some (v, r) → Takes (raw v).length v.plain r p
  items : ∀ p vs r, items fuel p = some (vs, r) →
    vs ≠ [] ∧ Takes ((rawItems vs).length + 1) (allItems plainString (fun _ => true) vs) r p
  members : ∀ p fs r, members fuel p = some (fs, r) →
    fs ≠ [] ∧ Takes ((rawFields fs).length + 1) (allFields plainString (fun _ => true) fs) r p

section Size

variable {fuel : Nat} {p r : Units}

/-- `null`, `true` and `false` behind their first letter. -/
theorem word_takes {w q : Units} {u : UInt16} {v v' : Json} (h : word w v q = some (v', r))
    (hraw : raw v = u :: w) (hplain : v.plain = true) :
    Takes (raw v').length v'.plain r (u :: q) := by
  obtain ⟨rfl, hlen⟩ := word_size h
  refine ⟨?_, fun _ => hplain⟩
  rw [hraw, List.length_cons, List.length_cons]
  omega

theorem value_size (ih : Sized fuel) {v : Json} (h : value (fuel + 1) p = some (v, r)) :
    Takes (raw v).length v.plain r p := by
  refine Takes.spare ?_ (length_skipBlanks p)
  rw [value] at h
  split at h
  next => cases h
  next q hq =>
    -- a string
    obtain ⟨⟨s, r'⟩, hbody, h⟩ := Option.map_eq_some_iff.mp h
    cases h
    rw [hq]
    refine ((Takes.one 34 q).trans (stringBody_size hbody)).of_eq ?_ ?_
    · simp [raw]
      omega
    · simp [plain, all]
  next q hq =>
    -- an array
    rw [hq]
    split at h
    next r' hr' =>
      cases h
      exact (Takes.one 91 q).trans ((Takes.one 93 r).spare (hr' ▸ length_skipBlanks q))
    next =>
      obtain ⟨⟨vs, r'⟩, hitems, h⟩ := Option.map_eq_some_iff.mp h
      cases h
      refine ((Takes.one 91 q).trans (ih.items q vs r hitems).2).of_eq ?_ ?_
      · simp [raw]
        omega
      · simp [plain, all]
  next q hq =>
    -- an object
    rw [hq]
    split at h
    next r' hr' =>
      cases h
      exact (Takes.one 123 q).trans ((Takes.one 125 r).spare (hr' ▸ length_skipBlanks q))
    next =>
      obtain ⟨⟨fs, r'⟩, hmembers, h⟩ := Option.map_eq_some_iff.mp h
      cases h
      refine ((Takes.one 123 q).trans (ih.members q fs r hmembers).2).of_eq ?_ ?_
      · simp [raw]
        omega
      · simp [plain, all]
  next q hq =>
    rw [hq]
    exact word_takes h rfl rfl
  next q hq =>
    rw [hq]
    exact word_takes h rfl rfl
  next q hq =>
    rw [hq]
    exact word_takes h rfl rfl
  next =>
    -- a number
    obtain ⟨⟨lit, r'⟩, hnumber, h⟩ := Option.map_eq_some_iff.mp h
    cases h
    have hlen := congrArg List.length (number_append hnumber)
    rw [List.length_append] at hlen
    exact ⟨hlen.le, fun _ => rfl⟩

theorem items_size (ih : Sized fuel) {vs : List Json} (h : items (fuel + 1) p = some (vs, r)) :
    vs ≠ [] ∧ Takes ((rawItems vs).length + 1) (allItems plainString (fun _ => true) vs) r p := by
  rw [items] at h
  obtain ⟨⟨v, q⟩, hv, h⟩ := Option.bind_eq_some_iff.mp h
  have hsize := ih.value p v q hv
  have hskip := length_skipBlanks q
  dsimp only at h
  split at h
  next q' hq' =>
    obtain ⟨⟨ws, r'⟩, hws, h⟩ := Option.map_eq_some_iff.mp h
    cases h
    obtain ⟨hne, hrest⟩ := ih.items q' ws _ hws
    rw [hq'] at hskip
    obtain ⟨w, ws, rfl⟩ := List.exists_cons_of_ne_nil hne
    refine ⟨List.cons_ne_nil _ _, ?_⟩
    refine (hsize.trans (((Takes.one 44 q').trans hrest).spare hskip)).of_eq ?_ ?_
    · simp [rawItems]
      omega
    · simp [plain, allItems]
  next q' hq' =>
    cases h
    rw [hq'] at hskip
    refine ⟨List.cons_ne_nil _ _, ?_⟩
    refine (hsize.trans ((Takes.one 93 _).spare hskip)).of_eq ?_ ?_
    · simp [rawItems]
    · simp [plain, allItems]
  next => cases h

theorem members_size (ih : Sized fuel) {fs : List (Units × Json)}
    (h : members (fuel + 1) p = some (fs, r)) :
    fs ≠ [] ∧ Takes ((rawFields fs).length + 1) (allFields plainString (fun _ => true) fs) r p := by
  rw [members] at h
  have hblank := length_skipBlanks p
  split at h
  next q hq =>
    rw [hq] at hblank
    obtain ⟨⟨k, q'⟩, hk, h⟩ := Option.bind_eq_some_iff.mp h
    have hname := ((Takes.one 34 q).trans (stringBody_size hk)).spare hblank
    have hcolon := length_skipBlanks q'
    dsimp only at h
    split at h
    next q'' hq'' =>
      rw [hq''] at hcolon
      obtain ⟨⟨v, q₁⟩, hv, h⟩ := Option.bind_eq_some_iff.mp h
      have hfield := hname.trans (((Takes.one 58 q'').trans (ih.value q'' v q₁ hv)).spare hcolon)
      have hskip := length_skipBlanks q₁
      dsimp only at h
      split at h
      next q₂ hq₂ =>
        obtain ⟨⟨gs, r'⟩, hgs, h⟩ := Option.map_eq_some_iff.mp h
        cases h
        obtain ⟨hne, hrest⟩ := ih.members q₂ gs _ hgs
        rw [hq₂] at hskip
        obtain ⟨g, gs, rfl⟩ := List.exists_cons_of_ne_nil hne
        refine ⟨List.cons_ne_nil _ _, ?_⟩
        refine (hfield.trans (((Takes.one 44 q₂).trans hrest).spare hskip)).of_eq ?_ ?_
        · simp [rawFields]
          omega
        · simp [plain, allFields, Bool.and_assoc]
      next q₂ hq₂ =>
        cases h
        rw [hq₂] at hskip
        refine ⟨List.cons_ne_nil _ _, ?_⟩
        refine (hfield.trans ((Takes.one 125 _).spare hskip)).of_eq ?_ ?_
        · simp [rawFields]
          omega
        · simp [plain, allFields]
      next => cases h
    next => cases h
  next => cases h

end Size

theorem sized (fuel : Nat) : Sized fuel := by
  -- the three functions together: each calls the others with less fuel
  induction fuel with
  | zero => exact ⟨nofun, nofun, nofun⟩
  | succ fuel ih =>
      exact ⟨fun _ _ _ h => value_size ih h, fun _ _ _ h => items_size ih h,
        fun _ _ _ h => members_size ih h⟩

/-- **What is read from a text** is not longer than it, and no string in it was escaped
    if it is as long. -/
theorem parse_size {p : Units} {v : Json} (h : parse p = some v) :
    (raw v).length ≤ p.length ∧ ((raw v).length = p.length → v.plain = true) := by
  unfold parse at h
  split at h
  next v' r hv =>
    split at h
    · cases h
      obtain ⟨hle, hexact⟩ := (sized _).value p v r hv
      exact ⟨by omega, fun heq => hexact (by omega)⟩
    · cases h
  next => cases h

/-- More fuel than `parse` has makes no difference. -/
structure Enough (fuel : Nat) : Prop where
  value : ∀ p : Units, 2 * p.length + 1 ≤ fuel → value (fuel + 1) p = value fuel p
  items : ∀ p : Units, 2 * p.length + 2 ≤ fuel → items (fuel + 1) p = items fuel p
  members : ∀ p : Units, 2 * p.length + 2 ≤ fuel → members (fuel + 1) p = members fuel p

theorem enough (fuel : Nat) : Enough fuel := by
  -- as for `sized`
  induction fuel with
  | zero => exact ⟨by omega, by omega, by omega⟩
  | succ fuel ih =>
      refine ⟨fun p hp => ?_, fun p hp => ?_, fun p hp => ?_⟩
      · have hskip := length_skipBlanks p
        rw [value, value]
        split
        next => rfl
        next => rfl
        next q hq =>
          rw [hq, List.length_cons] at hskip
          rw [ih.items q (by omega)]
        next q hq =>
          rw [hq, List.length_cons] at hskip
          rw [ih.members q (by omega)]
        all_goals rfl
      · rw [items, items, ih.value p (by omega)]
        refine Option.bind_congr fun vr hv => ?_
        obtain ⟨v, r⟩ := vr
        have hle := ((sized fuel).value p v r hv).1
        have hskip := length_skipBlanks r
        dsimp only
        split
        next r' hr' =>
          rw [hr', List.length_cons] at hskip
          rw [ih.items r' (by omega)]
        all_goals rfl
      · have hblank := length_skipBlanks p
        rw [members, members]
        split
        next q hq =>
          rw [hq, List.length_cons] at hblank
          refine Option.bind_congr fun kq hk => ?_
          obtain ⟨k, q'⟩ := kq
          have hbody := (stringBody_size hk).1
          have hcolon := length_skipBlanks q'
          dsimp only
          split
          next q'' hq'' =>
            rw [hq'', List.length_cons] at hcolon
            rw [ih.value q'' (by omega)]
            refine Option.bind_congr fun vr hv => ?_
            obtain ⟨v, r⟩ := vr
            have hle := ((sized fuel).value q'' v r hv).1
            have hskip := length_skipBlanks r
            dsimp only
            split
            next r' hr' =>
              rw [hr', List.length_cons] at hskip
              rw [ih.members r' (by omega)]
            all_goals rfl
          all_goals rfl
        next => rfl

/-- **Fuel** is not what a text is refused for: `parse` reads what any greater fuel reads. -/
theorem value_fuel {p : Units} {fuel : Nat} (h : 2 * p.length + 1 ≤ fuel) :
    value fuel p = value (2 * p.length + 1) p := by
  induction fuel, h using Nat.le_induction with
  | base => rfl
  | succ fuel h ih => rw [(enough fuel).value p h, ih]

/-! ## Reading a raw text -/

/-- A numeral: digits, and no leading zero. -/
def isNumeral (lit : Units) : Bool :=
  lit.all isDigit && lit != [] && (lit.head? != some 48 || lit.length == 1)

/-- The strings need no escaping, and the numbers are numerals. -/
def clean (v : Json) : Bool := v.all plainString isNumeral

/-- A number ends before `r`. -/
def Ends (r : Units) : Prop := ∀ u ∈ r.head?, u = 44 ∨ u = 93 ∨ u = 125

theorem stringBody_raw {s : Units} (h : plainString s = true) (r : Units) :
    stringBody (s ++ 34 :: r) = some (s, r) := by
  induction s with
  | nil => simp [stringBody]
  | cons u s ih =>
      obtain ⟨hu, hs⟩ := Bool.and_eq_true_iff.mp h
      have h34 : u ≠ 34 := by
        rintro rfl
        cases hu
      have h92 : u ≠ 92 := by
        rintro rfl
        cases hu
      rw [List.cons_append, stringBody, if_pos hu, ih hs]
      · rfl
      · exact h34
      · intro a b c d q hcontra _
        exact h92 hcontra
      · intro e q hcontra _
        exact h92 hcontra

theorem optional_none {f : UInt16 → Bool} {p : Units} (h : ∀ u ∈ p.head?, f u = false) :
    optional f p = ([], p) := by
  cases p with
  | nil => rfl
  | cons u r => simp [optional, h u rfl]

theorem fraction_none {r : Units} (h : Ends r) : fraction r = some ([], r) := by
  have hpoint : optional (· == 46) r = ([], r) := by
    refine optional_none fun u hu => ?_
    rcases h u hu with rfl | rfl | rfl <;> rfl
  simp [fraction, hpoint]

theorem exponent_none {r : Units} (h : Ends r) : exponent r = some ([], r) := by
  have he : optional (fun u => u == 101 || u == 69) r = ([], r) := by
    refine optional_none fun u hu => ?_
    rcases h u hu with rfl | rfl | rfl <;> rfl
  simp [exponent, he]

theorem span_digits {lit r : Units} (h : lit.all isDigit = true) (hr : Ends r) :
    (lit ++ r).span isDigit = (lit, r) := by
  have hstop : r.takeWhile isDigit = [] ∧ r.dropWhile isDigit = r := by
    cases r with
    | nil => exact ⟨rfl, rfl⟩
    | cons u q =>
        have hu : isDigit u = false := by
          rcases hr u rfl with rfl | rfl | rfl <;> rfl
        simp [hu]
  rw [List.span_eq_takeWhile_dropWhile, List.takeWhile_append_of_pos (List.all_eq_true.mp h),
    List.dropWhile_append_of_pos (List.all_eq_true.mp h), hstop.1, hstop.2, List.append_nil]

/-- A numeral begins with a digit. -/
theorem isNumeral_cons {lit : Units} (h : isNumeral lit = true) :
    ∃ d ds, lit = d :: ds ∧ isDigit d = true ∧ (d :: ds).all isDigit = true := by
  obtain ⟨hboth, -⟩ := Bool.and_eq_true_iff.mp h
  obtain ⟨hdigits, hne⟩ := Bool.and_eq_true_iff.mp hboth
  cases lit with
  | nil => cases hne
  | cons d ds => exact ⟨d, ds, rfl, List.all_eq_true.mp hdigits d List.mem_cons_self, hdigits⟩

theorem number_raw {lit r : Units} (h : isNumeral lit = true) (hr : Ends r) :
    number (lit ++ r) = some (lit, r) := by
  have hzero := (Bool.and_eq_true_iff.mp h).2
  obtain ⟨d, ds, rfl, hd, hdigits⟩ := isNumeral_cons h
  have hsign : optional (· == 45) (d :: ds ++ r) = ([], d :: ds ++ r) := by
    refine optional_none fun u hu => ?_
    cases hu
    refine Bool.eq_false_iff.mpr fun heq => ?_
    rw [beq_iff_eq.mp heq] at hd
    cases hd
  have hwhole : (if (d :: ds ++ r).head? = some 48 then (d :: ds ++ r).splitAt 1
      else (d :: ds ++ r).span isDigit) = (d :: ds, r) := by
    split
    next hhead =>
      obtain rfl : d = 48 := Option.some.inj hhead
      have hnil : ds = [] := by simpa using hzero
      subst hnil
      rw [List.splitAt_eq]
      rfl
    next => exact span_digits hdigits hr
  unfold number
  simp only [hsign, hwhole, fraction_none hr]
  simp [exponent_none hr]

/-- A value begins with a unit that is neither a blank nor a closing bracket. -/
theorem raw_head {v : Json} (h : v.clean = true) :
    ∃ u q, raw v = u :: q ∧ isBlank u = false ∧ u ≠ 93 := by
  cases v with
  | null => exact ⟨110, units "ull", rfl, rfl, by decide⟩
  | bool b => cases b <;> exact ⟨_, _, rfl, rfl, by decide⟩
  | num lit =>
      obtain ⟨d, ds, rfl, hd, -⟩ := isNumeral_cons (show isNumeral lit = true from h)
      refine ⟨d, ds, rfl, Bool.eq_false_iff.mpr fun hblank => ?_, ?_⟩
      · simp only [isBlank, Bool.or_eq_true, beq_iff_eq] at hblank
        rcases hblank with ((rfl | rfl) | rfl) | rfl <;> cases hd
      · rintro rfl
        cases hd
  | str s => exact ⟨34, _, rfl, rfl, by decide⟩
  | arr vs => exact ⟨91, _, rfl, rfl, by decide⟩
  | obj fs => exact ⟨123, _, rfl, rfl, by decide⟩

theorem rawItems_head {v : Json} (h : v.clean = true) (vs : List Json) :
    ∃ u q, rawItems (v :: vs) = u :: q ∧ isBlank u = false ∧ u ≠ 93 := by
  obtain ⟨u, q, hraw, hu⟩ := raw_head h
  cases vs with
  | nil => exact ⟨u, q, hraw, hu⟩
  | cons w vs => exact ⟨u, q ++ 44 :: rawItems (w :: vs), by rw [rawItems, hraw]; rfl, hu⟩

theorem rawFields_head (f : Units × Json) (fs : List (Units × Json)) :
    ∃ q, rawFields (f :: fs) = 34 :: q := by
  cases fs with
  | nil => exact ⟨_, rfl⟩
  | cons g fs => exact ⟨_, rfl⟩

theorem skipBlanks_cons {u : UInt16} (h : isBlank u = false) (q : Units) :
    skipBlanks (u :: q) = u :: q := by
  simp [skipBlanks, h]

/-- What is read from raw texts, with `fuel`. -/
structure Rereads (fuel : Nat) : Prop where
  value : ∀ v r, v.clean = true → Ends r → 2 * (raw v).length + 1 ≤ fuel →
    value fuel (raw v ++ r) = some (v, r)
  items : ∀ vs r, vs ≠ [] → allItems plainString isNumeral vs = true →
    2 * (rawItems vs).length + 2 ≤ fuel → items fuel (rawItems vs ++ 93 :: r) = some (vs, r)
  members : ∀ fs r, fs ≠ [] → allFields plainString isNumeral fs = true →
    2 * (rawFields fs).length + 2 ≤ fuel → members fuel (rawFields fs ++ 125 :: r) = some (fs, r)

section Rereads

variable {fuel : Nat}

theorem value_raw (ih : Rereads fuel) {v : Json} {r : Units} (hv : v.clean = true) (hr : Ends r)
    (hfuel : 2 * (raw v).length + 1 ≤ fuel + 1) : value (fuel + 1) (raw v ++ r) = some (v, r) := by
  obtain ⟨u, q, hhead, hblank, -⟩ := raw_head hv
  have hskip : skipBlanks (raw v ++ r) = raw v ++ r := by
    rw [hhead]
    exact skipBlanks_cons hblank _
  rw [value, hskip]
  cases v with
  | null => rfl
  | bool b => cases b <;> rfl
  | num lit =>
      have hnumber := number_raw (show isNumeral lit = true from hv) hr
      obtain ⟨d, ds, rfl, hd, -⟩ := isNumeral_cons (show isNumeral lit = true from hv)
      simp only [raw] at hhead ⊢
      split
      case h_8 => rw [hnumber]; rfl
      case h_1 heq => cases heq
      all_goals
        next heq =>
          rw [(List.cons.inj heq).1] at hd
          cases hd
  | str s =>
      have hbody := stringBody_raw (show plainString s = true from hv) r
      simp only [raw, List.cons_append, List.append_assoc, List.nil_append, hbody]
      rfl
  | arr vs =>
      cases vs with
      | nil => rfl
      | cons w ws =>
          have hw : w.clean = true := (Bool.and_eq_true_iff.mp hv).1
          obtain ⟨u', q', hhead', hblank', hclose⟩ := rawItems_head hw ws
          have hitems := ih.items (w :: ws) r (List.cons_ne_nil _ _) hv (by
            simp only [raw, List.length_cons, List.length_append] at hfuel
            omega)
          simp only [raw, List.cons_append, List.append_assoc, List.nil_append]
          rw [hitems, hhead', List.cons_append, skipBlanks_cons hblank']
          split
          next heq => exact absurd (List.cons.inj heq).1 hclose
          next => rfl
  | obj fs =>
      cases fs with
      | nil => rfl
      | cons f fs =>
          obtain ⟨q', hhead'⟩ := rawFields_head f fs
          have hmembers := ih.members (f :: fs) r (List.cons_ne_nil _ _) hv (by
            simp only [raw, List.length_cons, List.length_append] at hfuel
            omega)
          simp only [raw, List.cons_append, List.append_assoc, List.nil_append]
          rw [hmembers, hhead', List.cons_append, skipBlanks_cons rfl]
          rfl

theorem items_raw (ih : Rereads fuel) {vs : List Json} {r : Units} (hne : vs ≠ [])
    (hvs : allItems plainString isNumeral vs = true)
    (hfuel : 2 * (rawItems vs).length + 2 ≤ fuel + 1) :
    items (fuel + 1) (rawItems vs ++ 93 :: r) = some (vs, r) := by
  obtain ⟨v, ws, rfl⟩ := List.exists_cons_of_ne_nil hne
  obtain ⟨hv, hws⟩ := Bool.and_eq_true_iff.mp hvs
  rw [items]
  cases ws with
  | nil =>
      have hvalue := ih.value v (93 :: r) hv (by simp [Ends]) (by
        simp only [rawItems] at hfuel
        omega)
      rw [rawItems, hvalue]
      rfl
  | cons w ws =>
      simp only [rawItems, List.length_append, List.length_cons] at hfuel
      have hvalue := ih.value v (44 :: (rawItems (w :: ws) ++ 93 :: r)) hv (by simp [Ends])
        (by omega)
      have hrest := ih.items (w :: ws) r (List.cons_ne_nil _ _) hws (by omega)
      rw [rawItems, List.append_assoc, List.cons_append, hvalue]
      simp [skipBlanks_cons, isBlank, hrest]

theorem members_raw (ih : Rereads fuel) {fs : List (Units × Json)} {r : Units} (hne : fs ≠ [])
    (hfs : allFields plainString isNumeral fs = true)
    (hfuel : 2 * (rawFields fs).length + 2 ≤ fuel + 1) :
    members (fuel + 1) (rawFields fs ++ 125 :: r) = some (fs, r) := by
  obtain ⟨⟨k, v⟩, gs, rfl⟩ := List.exists_cons_of_ne_nil hne
  obtain ⟨hkv, hgs⟩ := Bool.and_eq_true_iff.mp hfs
  obtain ⟨hk, hv⟩ := Bool.and_eq_true_iff.mp hkv
  rw [members]
  cases gs with
  | nil =>
      simp only [rawFields, List.length_append, List.length_cons] at hfuel
      have hvalue := ih.value v (125 :: r) hv (by simp [Ends]) (by omega)
      rw [rawFields, List.cons_append, List.append_assoc, skipBlanks_cons rfl]
      simp [stringBody_raw hk, skipBlanks_cons, isBlank, hvalue]
  | cons g gs =>
      simp only [rawFields, List.length_append, List.length_cons] at hfuel
      have hvalue := ih.value v (44 :: (rawFields (g :: gs) ++ 125 :: r)) hv (by simp [Ends])
        (by omega)
      have hrest := ih.members (g :: gs) r (List.cons_ne_nil _ _) hgs (by omega)
      rw [rawFields, List.cons_append, List.cons_append, List.append_assoc, List.append_assoc,
        skipBlanks_cons rfl]
      simp [stringBody_raw hk, skipBlanks_cons, isBlank, hvalue, hrest]

end Rereads

theorem rereads (fuel : Nat) : Rereads fuel := by
  -- as for `sized`
  induction fuel with
  | zero => exact ⟨by omega, by omega, by omega⟩
  | succ fuel ih =>
      exact ⟨fun _ _ hv hr hf => value_raw ih hv hr hf,
        fun _ _ hne hvs hf => items_raw ih hne hvs hf,
        fun _ _ hne hfs hf => members_raw ih hne hfs hf⟩

/-- **A clean value is read back** from its raw text. -/
theorem parse_raw {v : Json} (h : v.clean = true) : parse (raw v) = some v := by
  have hvalue := (rereads _).value v [] h (by simp [Ends]) (Nat.le_refl _)
  rw [List.append_nil] at hvalue
  rw [parse, hvalue]
  rfl

/-! ## Objects -/

/-- A reader finds under every name what it would find in `fields`. -/
def Means (v : Json) (fields : List (Units × Json)) : Prop :=
  ∃ fs, v = .obj fs ∧ ∀ name, lookup fs name = lookup fields name

/-- The string under a name. -/
def stringAt (name : Units) : Json → Option Units
  | .obj fs =>
      match lookup fs name with
      | some (.str s) => some s
      | _ => none
  | _ => none

theorem Means.stringAt {v : Json} {fields : List (Units × Json)} (h : v.Means fields)
    (name : Units) : v.stringAt name = (Json.obj fields).stringAt name := by
  obtain ⟨fs, rfl, hfs⟩ := h
  rw [Json.stringAt, Json.stringAt, hfs name]

theorem mem_of_lookup {fs : List (Units × Json)} {k : Units} {v : Json}
    (h : lookup fs k = some v) : (k, v) ∈ fs := by
  obtain ⟨⟨k', v'⟩, hfind, rfl⟩ := Option.map_eq_some_iff.mp h
  have hname : k' = k := by simpa using List.find?_some hfind
  subst hname
  exact List.mem_reverse.mp (List.mem_of_find?_eq_some hfind)

theorem lookup_of_mem {fs : List (Units × Json)} (hnames : (fs.map Prod.fst).Nodup)
    {k : Units} {v : Json} (h : (k, v) ∈ fs) : lookup fs k = some v := by
  have hsome : (fs.reverse.find? fun f => f.1 == k).isSome := by
    rw [List.find?_isSome]
    exact ⟨(k, v), List.mem_reverse.mpr h, by simp⟩
  obtain ⟨⟨k', v'⟩, hfind⟩ := Option.isSome_iff_exists.mp hsome
  have hname : k' = k := by simpa using List.find?_some hfind
  subst hname
  have hmem : (k', v') ∈ fs := List.mem_reverse.mp (List.mem_of_find?_eq_some hfind)
  have hsame : (k', v') = (k', v) := List.inj_on_of_nodup_map hnames hmem h rfl
  rw [lookup, hfind, hsame]
  rfl

/-- **Exactness.** A reader that finds in a raw text of an object, under every name,
    the field of the object, shows that no string in the object needed escaping. -/
theorem plain_of_means {fs : List (Units × Json)} (hne : fs ≠ [])
    (hnames : (fs.map Prod.fst).Nodup) {v : Json} (hv : parse (raw (.obj fs)) = some v)
    (hmeans : v.Means fs) : (Json.obj fs).plain = true := by
  obtain ⟨gs, rfl, hgs⟩ := hmeans
  have hsub : fs ⊆ gs := by
    intro f hf
    exact mem_of_lookup ((hgs f.1).trans (lookup_of_mem hnames hf))
  obtain ⟨hle, hexact⟩ := parse_size hv
  have hgne : gs ≠ [] := by
    rintro rfl
    exact hne (List.subset_nil.mp hsub)
  have hfields : (fs.map fieldLength).sum ≤ (gs.map fieldLength).sum := by
    obtain ⟨hs, hperm, hsublist⟩ := List.subperm_of_subset (hnames.of_map _) hsub
    rw [← (hperm.map fieldLength).sum_eq]
    exact (hsublist.map fieldLength).sum_le_sum fun _ _ => Nat.zero_le _
  rw [← length_rawFields hne, ← length_rawFields hgne] at hfields
  simp only [raw, List.length_cons, List.length_append] at hle hexact
  have hplain := hexact (by omega)
  refine allFields_iff.mpr fun f hf => ?_
  exact allFields_iff.mp hplain f (hsub hf)

end Json

end CoroutineHttp.Library
