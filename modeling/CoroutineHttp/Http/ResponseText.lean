/-
  CoroutineHttp.Http.ResponseText

  How a client reads what `flush` writes: a status line, lines `name: value` up to
  the first empty one, and the rest as the body.  Every message is read as the
  status, the entries and the body of the object it was composed from, provided no
  entry but the body contains a line break.
-/

import Mathlib.Algebra.BigOperators.Group.List.Basic
import CoroutineHttp.Http.Response
import CoroutineHttp.Http.RoundTrip

namespace CoroutineHttp.Http

open CoroutineHttp.Library

/-! ## Reading a message -/

/-- The end of a line. -/
def crlf : Bytes := bytes "\r\n"

theorem crlf_eq : crlf = [13, 10] := by decide

/-- A message taken apart. -/
structure ResponseText where
  status : Int
  fields : List (Bytes × Bytes)
  body : Bytes

/-- The lines before the first empty one, and what follows that. -/
def takeLines : Nat → Bytes → Option (List Bytes × Bytes)
  | 0, _ => none
  | fuel + 1, s => do
      let n ← find crlf s
      let rest := s.drop (n + 2)
      if n = 0 then some ([], rest)
      else
        let (lines, body) ← takeLines fuel rest
        some (s.take n :: lines, body)

/-- A decimal numeral. -/
def readNat (s : Bytes) : Option Nat :=
  if s ≠ [] ∧ s.all isdigit then some (decimalValue s) else none

/-- A decimal numeral, with a minus sign or without. -/
def readInt (s : Bytes) : Option Int :=
  if s.head? = some 45 then (readNat s.tail).map fun n => -(n : Int)
  else (readNat s).map fun n => (n : Int)

/-- The code of a status line. -/
def readStatus (line : Bytes) : Option Int :=
  if bytes "HTTP/1.1 " <+: line then readInt ((line.drop 9).takeWhile (· ≠ 32)) else none

/-- The name a line gives is what stands before its first `:`. -/
def fieldName (line : Bytes) : Bytes := line.takeWhile (· ≠ 58)

/-- The value is what stands after that, and after a blank if there is one. -/
def fieldValue (line : Bytes) : Bytes :=
  let rest := (line.dropWhile (· ≠ 58)).tail
  if rest.head? = some 32 then rest.tail else rest

/-- A header line. -/
def readField (line : Bytes) : Option (Bytes × Bytes) :=
  if 58 ∈ line then some (fieldName line, fieldValue line) else none

/-- The whole message. -/
def readResponse (m : Bytes) : Option ResponseText := do
  let (lines, body) ← takeLines m.length m
  let status ← lines.head?.bind readStatus
  let fields ← lines.tail.mapM readField
  some ⟨status, fields, body⟩

/-! ## Lines -/

/-- A string without a line break. -/
def OneLine (s : Bytes) : Prop := ∀ b ∈ s, b ≠ 13 ∧ b ≠ 10

instance (s : Bytes) : Decidable (OneLine s) :=
  List.decidableBAll (fun b => b ≠ 13 ∧ b ≠ 10) s

theorem OneLine.append {s t : Bytes} (hs : OneLine s) (ht : OneLine t) : OneLine (s ++ t) :=
  fun b hb => (List.mem_append.mp hb).elim (hs b) (ht b)

/-- Lines, each before a CRLF, are read up to the empty one. -/
theorem takeLines_flatMap {lines : List Bytes} (hlines : ∀ line ∈ lines, OneLine line ∧ line ≠ [])
    (body : Bytes) {fuel : Nat} (hfuel : lines.length < fuel) :
    takeLines fuel ((lines.flatMap (· ++ crlf)) ++ (crlf ++ body)) = some (lines, body) := by
  -- on the lines, one unit of fuel for each and one for the empty line
  induction lines generalizing fuel with
  | nil =>
      obtain ⟨fuel, rfl⟩ := Nat.exists_eq_succ_of_ne_zero (Nat.ne_of_gt hfuel)
      have hfind : find crlf (crlf ++ body) = some 0 := find_prefix (List.prefix_append _ _)
      rw [List.flatMap_nil, List.nil_append, takeLines, hfind]
      simp [crlf_eq]
  | cons line lines ih =>
      obtain ⟨fuel, rfl⟩ := Nat.exists_eq_succ_of_ne_zero (Nat.ne_of_gt (Nat.zero_lt_of_lt hfuel))
      obtain ⟨hline, hne⟩ := hlines line List.mem_cons_self
      have ih := ih (fun l hl => hlines l (List.mem_cons_of_mem _ hl))
        (Nat.lt_of_succ_lt_succ hfuel)
      have hcut : (line :: lines).flatMap (· ++ crlf) ++ (crlf ++ body)
          = line ++ (crlf ++ (lines.flatMap (· ++ crlf) ++ (crlf ++ body))) := by
        simp only [List.flatMap_cons, List.append_assoc]
      rw [hcut]
      generalize lines.flatMap (· ++ crlf) ++ (crlf ++ body) = rest at ih ⊢
      have hcr : (13 : UInt8) ∉ line := fun hm => (hline 13 hm).1 rfl
      have hfind : find crlf (line ++ (crlf ++ rest)) = some line.length := by
        rw [crlf_eq, find_skip hcr, find_prefix (List.prefix_append _ _)]
        simp
      have hrest : (line ++ (crlf ++ rest)).drop (line.length + 2) = rest := by
        rw [← List.drop_drop, List.drop_left, crlf_eq]
        rfl
      have hlen : ¬ line.length = 0 := by simpa using hne
      rw [takeLines, hfind]
      simp only [Option.bind_eq_bind, Option.bind_some, if_neg hlen, hrest, ih, List.take_left]

/-! ## The status line -/

/-- `HTTP/1.1 code text`. -/
def statusLine (code : Int) : Bytes :=
  bytes "HTTP/1.1 " ++ intDec code ++ bytes " " ++ HttpResponse.statusText code

theorem readNat_toDec (n : Nat) : readNat (toDec n) = some n := by
  have hall : (toDec n).all isdigit = true := by
    rw [List.all_eq_true]
    exact fun b hb => isdigit_of_mem_toDec hb
  rw [readNat, if_pos ⟨toDec_ne_nil n, hall⟩, decimalValue_toDec]

theorem readInt_intDec (code : Int) : readInt (intDec code) = some code := by
  cases code with
  | ofNat n =>
      have hsign : (toDec n).head? ≠ some 45 := by
        intro hhead
        exact (not_sign_of_isdigit 45 (isdigit_of_mem_toDec (List.mem_of_mem_head? hhead))).2.1 rfl
      rw [intDec, readInt, if_neg hsign, readNat_toDec]
      rfl
  | negSucc n =>
      rw [intDec, readInt, if_pos List.head?_cons, List.tail_cons, readNat_toDec]
      rfl

/-- A number is written with digits and a sign. -/
theorem isdigit_or_minus_of_mem_intDec {code : Int} {b : UInt8} (hb : b ∈ intDec code) :
    isdigit b = true ∨ b = 45 := by
  cases code with
  | ofNat n => exact .inl (isdigit_of_mem_toDec hb)
  | negSucc n =>
      rcases List.mem_cons.mp hb with rfl | hb
      · exact .inr rfl
      · exact .inl (isdigit_of_mem_toDec hb)

theorem plain_of_mem_intDec {code : Int} {b : UInt8} (hb : b ∈ intDec code) :
    b ≠ 13 ∧ b ≠ 10 ∧ b ≠ 32 := by
  rcases isdigit_or_minus_of_mem_intDec hb with hb | rfl
  · exact isspace_cr_lf b (not_sign_of_isdigit b hb).1
  · decide

theorem oneLine_toDec (n : Nat) : OneLine (toDec n) := by
  intro b hb
  have hline := isspace_cr_lf b (not_sign_of_isdigit b (isdigit_of_mem_toDec hb)).1
  exact ⟨hline.1, hline.2.1⟩

theorem oneLine_statusText (code : Int) : OneLine (HttpResponse.statusText code) := by
  unfold HttpResponse.statusText
  split <;> decide +kernel

theorem oneLine_statusLine (code : Int) : OneLine (statusLine code) := by
  have hcode : OneLine (intDec code) := fun b hb =>
    ⟨(plain_of_mem_intDec hb).1, (plain_of_mem_intDec hb).2.1⟩
  have hversion : OneLine (bytes "HTTP/1.1 ") := by decide +kernel
  have hblank : OneLine (bytes " ") := by decide +kernel
  exact ((hversion.append hcode).append hblank).append (oneLine_statusText code)

theorem readStatus_statusLine (code : Int) : readStatus (statusLine code) = some code := by
  have hversion : (bytes "HTTP/1.1 ").length = 9 := by decide +kernel
  have hblank : bytes " " = [32] := by decide
  have hline : statusLine code
      = bytes "HTTP/1.1 " ++ (intDec code ++ 32 :: HttpResponse.statusText code) := by
    simp [statusLine, hblank]
  have hdigits : ∀ b ∈ intDec code, decide (b ≠ 32) = true := fun b hb =>
    decide_eq_true (plain_of_mem_intDec hb).2.2
  have hdrop : (statusLine code).drop 9 = intDec code ++ 32 :: HttpResponse.statusText code := by
    rw [hline, ← hversion, List.drop_left]
  rw [readStatus, if_pos (hline ▸ List.prefix_append _ _), hdrop,
    List.takeWhile_append_of_pos hdigits]
  simp [readInt_intDec]

/-! ## Header lines -/

section HeaderLine

variable (e : Bytes × Bytes)

open WireRequest (headerLine headerLine_eq)

/-- What a client makes of one entry. -/
def readEntry : Bytes × Bytes := (fieldName (headerLine e), fieldValue (headerLine e))

theorem readField_headerLine : readField (headerLine e) = some (readEntry e) := by
  have hcolon : 58 ∈ headerLine e := by
    rw [headerLine_eq]
    simp
  rw [readField, if_pos hcolon, readEntry]

/-- A name that contains a `:` is cut there. -/
theorem readEntry_name : (readEntry e).1 = fieldName e.1 := by
  rw [readEntry, headerLine_eq, fieldName, fieldName]
  obtain ⟨name, value⟩ := e
  simp only
  induction name with
  | nil => simp
  | cons b name ih =>
      by_cases hb : b = 58
      · simp [hb]
      · simpa [hb] using ih

variable {e}

/-- Any other entry is read as it is. -/
theorem readEntry_of_not_mem (h : 58 ∉ e.1) : readEntry e = e := by
  have hname : ∀ b ∈ e.1, decide (b ≠ 58) = true := fun b hb =>
    decide_eq_true fun he => h (he ▸ hb)
  rw [readEntry, headerLine_eq, fieldName, fieldValue, List.takeWhile_append_of_pos hname,
    List.dropWhile_append_of_pos hname]
  simp

/-- The rest of a name that is cut stays in the value. -/
theorem colon_mem_readEntry (h : 58 ∈ e.1) : 58 ∈ (readEntry e).2 := by
  obtain ⟨pre, post, hname, hpre⟩ := List.eq_append_cons_of_mem h
  have hline : headerLine e = pre ++ 58 :: (post ++ 58 :: 32 :: e.2) := by
    rw [headerLine_eq, hname]
    simp
  have hcut : ∀ b ∈ pre, decide (b ≠ 58) = true := fun b hb =>
    decide_eq_true fun he => hpre (he ▸ hb)
  have hrest : ((headerLine e).dropWhile (· ≠ 58)).tail = post ++ 58 :: 32 :: e.2 := by
    rw [hline, List.dropWhile_append_of_pos hcut]
    simp
  simp only [readEntry, fieldValue, hrest]
  split
  next hblank =>
    cases post with
    | nil => simp at hblank
    | cons b post => simp
  next => simp

end HeaderLine

/-! ## The whole message -/

section Lines

open WireRequest (headerLine headerLine_eq)

/-- A message composed of a status, header lines and a body is read as these. -/
theorem readResponse_lines (code : Int) {headers : List (Bytes × Bytes)}
    (hheaders : ∀ e ∈ headers, OneLine e.1 ∧ OneLine e.2) (body : Bytes) :
    readResponse ((statusLine code :: headers.map headerLine).flatMap (· ++ crlf) ++
      (crlf ++ body)) = some ⟨code, headers.map readEntry, body⟩ := by
  have hlines : ∀ line ∈ statusLine code :: headers.map headerLine,
      OneLine line ∧ line ≠ [] := by
    intro line hline
    rcases List.mem_cons.mp hline with rfl | hline
    · exact ⟨oneLine_statusLine _, by simp [statusLine, show bytes " " = [32] by decide]⟩
    · obtain ⟨e, he, rfl⟩ := List.mem_map.mp hline
      obtain ⟨hname, hvalue⟩ := hheaders e he
      have hsep : OneLine (bytes ": ") := by decide +kernel
      exact ⟨(hname.append hsep).append hvalue, by simp [headerLine_eq]⟩
  have hfields : (headers.map headerLine).mapM readField = some (headers.map readEntry) := by
    clear hheaders hlines
    induction headers with
    | nil => rfl
    | cons e es ih => simp [List.mapM_cons, readField_headerLine, ih]
  -- a line takes at least its CRLF
  have hlong : ∀ ls : List Bytes, ls.length ≤ (ls.flatMap (· ++ crlf)).length := by
    intro ls
    have hsum := List.length_le_sum_of_one_le (ls.map fun l => (l ++ crlf).length)
      (by simp [crlf_eq])
    rwa [List.length_map, ← List.length_flatMap] at hsum
  have hfuel := hlong (statusLine code :: headers.map headerLine)
  rw [readResponse, takeLines_flatMap hlines]
  · simp [readStatus_statusLine, hfields]
  · rw [List.length_append, List.length_append, crlf_eq]
    rw [crlf_eq] at hfuel
    simp only [List.length_cons] at hfuel ⊢
    omega

end Lines

namespace HttpResponse

/-- What is stored for the body. -/
def storedBody (res : HttpResponse) : Bytes := (res.headers[bodyKey]?).getD []

/-- What `flush` adds where nothing else is set. -/
def defaultHeader (key : Bytes) : Option Bytes :=
  if key = bytes "Server" then some (bytes "coroutine-http/1.0")
  else if key = bytes "Connection" then some (bytes "keep-alive")
  else none

theorem defaultHeader_cases {key value : Bytes} (h : defaultHeader key = some value) :
    (key = bytes "Server" ∧ value = bytes "coroutine-http/1.0") ∨
      (key = bytes "Connection" ∧ value = bytes "keep-alive") := by
  unfold defaultHeader at h
  split at h
  next hkey => exact .inl ⟨hkey, (Option.some.inj h).symm⟩
  next =>
    split at h
    next hkey => exact .inr ⟨hkey, (Option.some.inj h).symm⟩
    next => cases h

/-- No entry but the body contains a line break. -/
def EntriesOneLine (res : HttpResponse) : Prop :=
  ∀ key value, key ≠ bodyKey → res.headers[key]? = some value → OneLine key ∧ OneLine value

/-- The entries of a message: without the body, and with the defaults. -/
theorem getElem?_flushed (res : HttpResponse) (key : Bytes) :
    res.flushed.headers[key]?
      = if key = bodyKey then none else (res.headers[key]?).or (defaultHeader key) := by
  have hserver : bytes "Server" ≠ bodyKey := by decide
  have hconnection : bytes "Connection" ≠ bodyKey := by decide
  have hne : bytes "Connection" ≠ bytes "Server" := by decide
  simp only [flushed, getElem?_setDefault, Std.TreeMap.getElem?_erase,
    Std.LawfulEqOrd.compare_eq_iff_eq, defaultHeader]
  by_cases hbody : key = bodyKey
  · subst hbody
    simp [hserver.symm, hconnection.symm]
  · rw [if_neg hbody, if_neg (Ne.symm hbody)]
    by_cases hcon : key = bytes "Connection"
    · subst hcon
      cases res.headers[bytes "Connection"]? <;> simp [hne]
    · by_cases hser : key = bytes "Server"
      · subst hser
        cases res.headers[bytes "Server"]? <;> simp [hne.symm]
      · simp [hcon, hser]

theorem mem_toList_flushed {res : HttpResponse} {e : Bytes × Bytes} :
    e ∈ res.flushed.headers.toList
      ↔ e.1 ≠ bodyKey ∧ (res.headers[e.1]?).or (defaultHeader e.1) = some e.2 := by
  rw [show e = (e.1, e.2) from rfl, Std.TreeMap.mem_toList_iff_getElem?_eq_some,
    getElem?_flushed]
  by_cases hbody : e.1 = bodyKey <;> simp [hbody]

theorem nodup_toList (m : StrMap) : m.toList.Nodup :=
  Std.TreeMap.distinct_keys_toList.imp fun hne heq =>
    hne (by rw [heq]; exact Std.ReflCmp.compare_self)

variable {res : HttpResponse}

theorem EntriesOneLine.of_mem (h : res.EntriesOneLine) {e : Bytes × Bytes}
    (he : e ∈ res.flushed.headers.toList) : OneLine e.1 ∧ OneLine e.2 := by
  obtain ⟨hbody, hvalue⟩ := mem_toList_flushed.mp he
  rcases Option.or_eq_some_iff.mp hvalue with hvalue | ⟨-, hdefault⟩
  · exact h e.1 e.2 hbody hvalue
  · rcases defaultHeader_cases hdefault with ⟨hkey, hvalue⟩ | ⟨hkey, hvalue⟩
    all_goals
      rw [hkey, hvalue]
      decide +kernel

/-- **Every message is read as what it was composed from.** -/
theorem readResponse_message (h : res.EntriesOneLine) :
    readResponse res.message = some
      ⟨res.statusCode, res.flushed.headers.toList.map readEntry, res.storedBody⟩ := by
  have hread := readResponse_lines res.statusCode (fun _ he => h.of_mem he) res.storedBody
  rwa [show ((statusLine res.statusCode :: res.flushed.headers.toList.map
      WireRequest.headerLine).flatMap (· ++ crlf) ++ (crlf ++ res.storedBody)) = res.message by
    simp [message, statusLine, storedBody, crlf, WireRequest.headerLine, List.flatMap_map]]
    at hread

/-! ## The calls of a handler -/

theorem getElem?_setBody (res : HttpResponse) (contentType body key : Bytes) :
    (res.setBody contentType body).headers[key]?
      = if key = bodyKey then some body
        else if key = bytes "Content-Length" then some (toDec body.length)
        else if key = bytes "Content-Type" then some contentType
        else res.headers[key]? := by
  simp only [setBody, Std.TreeMap.getElem?_insert, Std.LawfulEqOrd.compare_eq_iff_eq,
    eq_comm (b := key)]

theorem storedBody_setBody (res : HttpResponse) (contentType body : Bytes) :
    (res.setBody contentType body).storedBody = body := by
  rw [storedBody, getElem?_setBody, if_pos rfl, Option.getD_some]

/-- An entry is one of those a body comes with, or was there before. -/
theorem setBody_cases {res : HttpResponse} {contentType body key value : Bytes}
    (h : (res.setBody contentType body).headers[key]? = some value) :
    (key = bodyKey ∧ value = body) ∨ (key = bytes "Content-Length" ∧ value = toDec body.length) ∨
      (key = bytes "Content-Type" ∧ value = contentType) ∨ res.headers[key]? = some value := by
  rw [getElem?_setBody] at h
  split at h
  next hkey => exact .inl ⟨hkey, (Option.some.inj h).symm⟩
  next =>
    split at h
    next hkey => exact .inr (.inl ⟨hkey, (Option.some.inj h).symm⟩)
    next =>
      split at h
      next hkey => exact .inr (.inr (.inl ⟨hkey, (Option.some.inj h).symm⟩))
      next => exact .inr (.inr (.inr h))

/-- The type and the body a call hands over. -/
def ResCall.content : ResCall → Option (Bytes × Bytes)
  | .text body => some (bytes "text/plain; charset=utf-8", body)
  | .json body => some (bytes "application/json", body)
  | .html body => some (bytes "text/html; charset=utf-8", body)
  | _ => none

theorem toFlush_of_content {c : ResCall} {contentType body : Bytes}
    (h : c.content = some (contentType, body)) (res : HttpResponse) :
    res.toFlush c = some (res.setBody contentType body) := by
  cases c <;> cases h <;> rfl

theorem oneLine_contentType {c : ResCall} {contentType body : Bytes}
    (h : c.content = some (contentType, body)) : OneLine contentType := by
  cases c <;> cases h <;> decide +kernel

/-- What a call sets. -/
def ResCall.entry : ResCall → Option (Bytes × Bytes)
  | .header key value => some (key, value)
  | _ => none

def ResCall.code : ResCall → Option Int
  | .status code => some code
  | _ => none

/-- Calls that do not write add up. -/
theorem foldl_call (calls : List ResCall) (hcalls : ∀ c ∈ calls, c.writes = false)
    (res : HttpResponse) :
    calls.foldl call res
      = ⟨((calls.filterMap ResCall.code).getLast?).getD res.statusCode,
          (calls.filterMap ResCall.entry).foldl (fun m e => m.insert e.1 e.2) res.headers⟩ := by
  induction calls generalizing res with
  | nil => rfl
  | cons c calls ih =>
      have ih := ih (fun c hc => hcalls c (List.mem_cons_of_mem _ hc)) (res.call c)
      have hc := hcalls c List.mem_cons_self
      rw [List.foldl_cons, ih]
      cases c with
      | status code =>
          cases hlast : (calls.filterMap ResCall.code).getLast? <;>
            simp [call, toFlush, status, ResCall.code, ResCall.entry, List.filterMap_cons,
              List.getLast?_cons, hlast]
      | header key value => simp [call, toFlush, header, ResCall.code, ResCall.entry]
      | text _ | json _ | html _ | send => cases hc

/-! ## The round trip -/

/-- A name for a header: not empty, without `:` and control characters. -/
structure IsName (s : Bytes) : Prop where
  nonempty : s ≠ []
  plain : ∀ b ∈ s, 32 ≤ b ∧ b ≠ 127 ∧ b ≠ 58

/-- A header a handler may set beside those of the body. -/
structure IsUserHeader (e : Bytes × Bytes) : Prop where
  name : IsName e.1
  value : OneLine e.2
  ownType : toLower e.1 = toLower (bytes "Content-Type") → e.1 = bytes "Content-Type"
  ownLength : toLower e.1 = toLower (bytes "Content-Length") → e.1 = bytes "Content-Length"

instance (s : Bytes) : Decidable (IsName s) :=
  have : Decidable (∀ b ∈ s, 32 ≤ b ∧ b ≠ 127 ∧ b ≠ 58) :=
    List.decidableBAll (fun b => 32 ≤ b ∧ b ≠ 127 ∧ b ≠ 58) s
  decidable_of_iff (s ≠ [] ∧ ∀ b ∈ s, 32 ≤ b ∧ b ≠ 127 ∧ b ≠ 58)
    ⟨fun h => ⟨h.1, h.2⟩, fun h => ⟨h.nonempty, h.plain⟩⟩

instance (e : Bytes × Bytes) : Decidable (IsUserHeader e) :=
  decidable_of_iff (IsName e.1 ∧ OneLine e.2 ∧
      (toLower e.1 = toLower (bytes "Content-Type") → e.1 = bytes "Content-Type") ∧
      (toLower e.1 = toLower (bytes "Content-Length") → e.1 = bytes "Content-Length"))
    ⟨fun h => ⟨h.1, h.2.1, h.2.2.1, h.2.2.2⟩,
      fun h => ⟨h.name, h.value, h.ownType, h.ownLength⟩⟩

/-- The header map a client is meant to get. -/
def intended (entries : List (Bytes × Bytes)) (contentType body name : Bytes) : Option Bytes :=
  if name = bytes "Content-Type" then some contentType
  else if name = bytes "Content-Length" then some (toDec body.length)
  else (lastValue entries name).or (defaultHeader name)

section RoundTrip

variable {entries : List (Bytes × Bytes)}

theorem IsName.ne_bodyKey {s : Bytes} (h : IsName s) : s ≠ bodyKey := by
  rintro rfl
  exact absurd (h.plain 27 (by decide)).1 (by decide)

theorem IsName.oneLine {s : Bytes} (h : IsName s) : OneLine s := by
  intro b hb
  have hge := (h.plain b hb).1
  exact ⟨fun he => absurd (he ▸ hge) (by decide), fun he => absurd (he ▸ hge) (by decide)⟩

theorem IsName.colon_not_mem {s : Bytes} (h : IsName s) : 58 ∉ s :=
  fun hm => (h.plain 58 hm).2.2 rfl

/-- What is meant comes from the body, from a header call or from the defaults. -/
theorem intended_cases {contentType body name value : Bytes}
    (h : intended entries contentType body name = some value) :
    (name = bytes "Content-Type" ∧ value = contentType) ∨
      (name = bytes "Content-Length" ∧ value = toDec body.length) ∨
      (name, value) ∈ entries ∨ defaultHeader name = some value := by
  unfold intended at h
  split at h
  next hname => exact .inl ⟨hname, (Option.some.inj h).symm⟩
  next =>
    split at h
    next hname => exact .inr (.inl ⟨hname, (Option.some.inj h).symm⟩)
    next =>
      rcases Option.or_eq_some_iff.mp h with hlast | ⟨-, hdefault⟩
      · exact .inr (.inr (.inl (mem_of_lastValue hlast)))
      · exact .inr (.inr (.inr hdefault))

/-- All a client is meant to get are headers. -/
theorem isName_of_intended (hentries : ∀ e ∈ entries, IsUserHeader e) {c : ResCall}
    {contentType body name value : Bytes} (hc : c.content = some (contentType, body))
    (h : intended entries contentType body name = some value) : IsName name ∧ OneLine value := by
  rcases intended_cases h with ⟨hname, hvalue⟩ | ⟨hname, hvalue⟩ | he | hdefault
  · rw [hname, hvalue]
    exact ⟨by decide +kernel, oneLine_contentType hc⟩
  · rw [hname, hvalue]
    exact ⟨by decide +kernel, oneLine_toDec _⟩
  · exact ⟨(hentries _ he).name, (hentries _ he).value⟩
  · rcases defaultHeader_cases hdefault with ⟨hname, hvalue⟩ | ⟨hname, hvalue⟩
    all_goals
      rw [hname, hvalue]
      decide +kernel

/-- The object a body is flushed with holds that body and what is meant for the client. -/
theorem getElem?_flushed_setBody (hentries : ∀ e ∈ entries, IsUserHeader e) {res : HttpResponse}
    (hres : res.headers = entries.foldl (fun m e => m.insert e.1 e.2) ∅) {c : ResCall}
    {contentType body : Bytes} (hc : c.content = some (contentType, body)) (name : Bytes) :
    (res.setBody contentType body).flushed.headers[name]?
      = intended entries contentType body name := by
  have hlast : res.headers[name]? = lastValue entries name := by
    rw [hres, getElem?_foldl_insert]
    simp
  rw [getElem?_flushed, getElem?_setBody, hlast]
  by_cases hbody : name = bodyKey
  · -- the internal entry: no header has its name
    rw [if_pos hbody]
    cases hintended : intended entries contentType body name with
    | none => rfl
    | some value => exact absurd hbody (isName_of_intended hentries hc hintended).1.ne_bodyKey
  · have hne : bytes "Content-Length" ≠ bytes "Content-Type" := by decide +kernel
    simp only [if_neg hbody, intended]
    by_cases hlength : name = bytes "Content-Length"
    · simp [hlength, hne]
    · by_cases htype : name = bytes "Content-Type"
      · simp [htype, hne.symm]
      · simp [hlength, htype]

/-- A header that differs from one of those of the body in case only is that header. -/
theorem eq_of_intended {contentType body name value key : Bytes}
    (hown : ∀ e ∈ entries, toLower e.1 = toLower key → e.1 = key)
    (hother : ∀ k ∈ [bytes "Content-Type", bytes "Content-Length", bytes "Server",
      bytes "Connection"], toLower k = toLower key → k = key)
    (h : intended entries contentType body name = some value)
    (hname : toLower name = toLower key) : name = key := by
  rcases intended_cases h with ⟨he, -⟩ | ⟨he, -⟩ | he | hdefault
  · exact hother name (by simp [he]) hname
  · exact hother name (by simp [he]) hname
  · exact hown _ he hname
  · rcases defaultHeader_cases hdefault with ⟨he, -⟩ | ⟨he, -⟩
    · exact hother name (by simp [he]) hname
    · exact hother name (by simp [he]) hname

/-- **The response round trip.** Status and header calls on a fresh object, then a body:
    the client reads the last status, the body as it was given, the last value of each
    header, the type and the length of the body, the defaults where nothing else was
    set, and nothing besides. -/
theorem read_back {calls : List ResCall} (hcalls : ∀ c ∈ calls, c.writes = false)
    (hentries : ∀ e ∈ calls.filterMap ResCall.entry, IsUserHeader e) {c : ResCall}
    {contentType body : Bytes} (hc : c.content = some (contentType, body)) :
    ∃ res text, (calls.foldl call .init).toFlush c = some res ∧
      readResponse res.message = some text ∧
      text.status = ((calls.filterMap ResCall.code).getLast?).getD 200 ∧
      text.body = body ∧
      (text.fields.map Prod.fst).Nodup ∧
      (∀ name value, (name, value) ∈ text.fields ↔
        intended (calls.filterMap ResCall.entry) contentType body name = some value) ∧
      ∀ f ∈ text.fields,
        (toLower f.1 = toLower (bytes "Content-Type") → f = (bytes "Content-Type", contentType)) ∧
        (toLower f.1 = toLower (bytes "Content-Length") →
          f = (bytes "Content-Length", toDec body.length)) := by
  have hfold := foldl_call calls hcalls .init
  generalize calls.foldl call .init = res at hfold ⊢
  generalize calls.filterMap ResCall.entry = entries at hentries hfold ⊢
  have hget := fun name => getElem?_flushed_setBody hentries (congrArg headers hfold) hc name
  have hmem : ∀ name value, (name, value) ∈ (res.setBody contentType body).flushed.headers.toList ↔
      intended entries contentType body name = some value := fun name value => by
    rw [Std.TreeMap.mem_toList_iff_getElem?_eq_some, hget]
  -- no name is cut, so the fields are the entries
  have hfields : (res.setBody contentType body).flushed.headers.toList.map readEntry
      = (res.setBody contentType body).flushed.headers.toList := by
    refine (List.map_congr_left fun e he => ?_).trans (List.map_id _)
    exact readEntry_of_not_mem
      (isName_of_intended hentries hc ((hmem e.1 e.2).mp he)).1.colon_not_mem
  have honeline : (res.setBody contentType body).EntriesOneLine := by
    intro key value hkey hvalue
    have hflushed := hget key
    rw [getElem?_flushed, if_neg hkey, hvalue, Option.some_or] at hflushed
    obtain ⟨hname, hone⟩ := isName_of_intended hentries hc hflushed.symm
    exact ⟨hname.oneLine, hone⟩
  have hread := readResponse_message honeline
  rw [hfields] at hread
  refine ⟨_, _, toFlush_of_content hc res, hread, congrArg statusCode hfold, ?_, ?_, hmem, ?_⟩
  · exact storedBody_setBody res contentType body
  · exact List.pairwise_map.mpr (Std.TreeMap.distinct_keys_toList.imp fun hne heq =>
      hne (Std.LawfulEqOrd.compare_eq_iff_eq.mpr heq))
  · intro f hf
    have hintended := (hmem f.1 f.2).mp hf
    refine ⟨fun htype => ?_, fun hlength => ?_⟩
    · have hname := eq_of_intended (fun e he => (hentries e he).ownType) (by decide +kernel)
        hintended htype
      rw [hname, intended, if_pos rfl] at hintended
      exact Prod.ext hname (Option.some.inj hintended).symm
    · have hname := eq_of_intended (fun e he => (hentries e he).ownLength) (by decide +kernel)
        hintended hlength
      have hne : bytes "Content-Length" ≠ bytes "Content-Type" := by decide +kernel
      rw [hname, intended, if_neg hne, if_pos rfl] at hintended
      exact Prod.ext hname (Option.some.inj hintended).symm

/-- A status, a header set twice, one of the body's own and a default, and a body that looks
    like a header block. -/
theorem read_back_notFound :
    ∃ res text,
      ([.status 404, .header (bytes "X-Tag") (bytes "a"), .header (bytes "Content-Length")
          (bytes "0"), .header (bytes "Server") (bytes "me"), .header (bytes "X-Tag")
          (bytes "b")].foldl call .init).toFlush (.text (bytes "X: y\r\n\r\n")) = some res ∧
      readResponse res.message = some text ∧ text.status = 404 ∧
      text.body = bytes "X: y\r\n\r\n" ∧ (text.fields.map Prod.fst).Nodup ∧
      (∀ name value, (name, value) ∈ text.fields ↔
        intended [(bytes "X-Tag", bytes "a"), (bytes "Content-Length", bytes "0"),
            (bytes "Server", bytes "me"), (bytes "X-Tag", bytes "b")]
          (bytes "text/plain; charset=utf-8") (bytes "X: y\r\n\r\n") name = some value) ∧
      ∀ f ∈ text.fields,
        (toLower f.1 = toLower (bytes "Content-Type") →
          f = (bytes "Content-Type", bytes "text/plain; charset=utf-8")) ∧
        (toLower f.1 = toLower (bytes "Content-Length") →
          f = (bytes "Content-Length", toDec (bytes "X: y\r\n\r\n").length)) :=
  read_back (by decide) (by decide +kernel) rfl

end RoundTrip

end HttpResponse

end CoroutineHttp.Http
