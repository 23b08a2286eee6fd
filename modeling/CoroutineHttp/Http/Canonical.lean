/-
  CoroutineHttp.Http.Canonical

  A request in one form.

  A handler sees a request with its words, its path and query unescaped, and its headers
  trimmed and lower-cased.  `canonical` writes such a request down again.  What is parsed
  from it is the request, so that the well-formed requests are just the ones that are
  parsed from some stream, and the canonical form can stand for whatever the client
  wrote.
-/

import CoroutineHttp.Http.Accepted
import CoroutineHttp.Http.Target

namespace CoroutineHttp.Http

open CoroutineHttp.Library CoroutineHttp.Net

/-! ## The canonical form -/

/-- The digit of a value below sixteen. -/
def hexDigit (x : UInt8) : UInt8 := if x < 10 then 48 + x else 87 + x

/-- Every byte as `%xx`. -/
def escape (s : Bytes) : Bytes := s.flatMap fun b => [37, hexDigit (b / 16), hexDigit (b % 16)]

namespace HttpRequest

/-- The target: path and query, escaped throughout. -/
def canonicalTarget (req : HttpRequest) : Bytes :=
  encTarget (escape req.path) (req.query.toList.map fun e => escape e.1 ++ 61 :: escape e.2)

/-- The request line. -/
def canonicalLine (req : HttpRequest) : Bytes :=
  req.method ++ 32 :: req.canonicalTarget ++ 32 :: req.version

/-- The header block without its terminator. -/
def canonicalHead (req : HttpRequest) : Bytes :=
  req.canonicalLine ++ joined (req.headers.toList.map WireRequest.headerLine)

/-- The request on the wire, in one form. -/
def canonical (req : HttpRequest) : Bytes :=
  req.canonicalHead ++ HttpParser.headerEnd ++ req.body

end HttpRequest

/-! ## Its target -/

theorem xdigit_hexDigit (b : UInt8) : xdigit (hexDigit (b / 16)) = some (b / 16) ∧
    xdigit (hexDigit (b % 16)) = some (b % 16) ∧ 16 * (b / 16) + b % 16 = b :=
  forall_byte (P := fun b => xdigit (hexDigit (b / 16)) = some (b / 16) ∧
    xdigit (hexDigit (b % 16)) = some (b % 16) ∧ 16 * (b / 16) + b % 16 = b) (by decide +kernel) b

/-- An escaped string is one of the encodings. -/
theorem encodes_escape (literal : UInt8 → Bool) (plus : Bool) (s : Bytes) :
    Encodes literal plus s (escape s) := by
  induction s with
  | nil => exact .nil
  | cons b s ih =>
      obtain ⟨hhi, hlo, hbyte⟩ := xdigit_hexDigit b
      have hescape := Encodes.escape hhi hlo ih
      rwa [hbyte] at hescape

theorem lastValue_of_mem {entries : List (Bytes × Bytes)}
    (hnodup : (entries.map Prod.fst).Nodup) {key value : Bytes} (h : (key, value) ∈ entries) :
    lastValue entries key = some value := by
  induction entries using List.reverseRecOn with
  | nil => cases h
  | append_singleton entries e ih =>
      rw [List.map_append, List.nodup_append] at hnodup
      obtain ⟨hbefore, -, hdisjoint⟩ := hnodup
      rw [lastValue_concat]
      rcases List.mem_append.mp h with h | h
      · have hne : e.1 ≠ key := fun he =>
          hdisjoint key (List.mem_map.mpr ⟨_, h, rfl⟩) e.1 (by simp) he.symm
        rw [if_neg hne]
        exact ih hbefore h
      · rw [← List.mem_singleton.mp h, if_pos rfl]

/-- The entries of a map under their keys. -/
theorem lastValue_toList (m : StrMap) (key : Bytes) : lastValue m.toList key = m[key]? := by
  cases hvalue : m[key]? with
  | some value =>
      apply lastValue_of_mem
      · rw [Std.TreeMap.map_fst_toList_eq_keys]
        exact Std.TreeMap.nodup_keys
      · exact Std.TreeMap.mem_toList_iff_getElem?_eq_some.mpr hvalue
  | none =>
      cases hlast : lastValue m.toList key with
      | none => rfl
      | some value =>
          have hmem := Std.TreeMap.mem_toList_iff_getElem?_eq_some.mp (mem_of_lastValue hlast)
          cases hvalue.symm.trans hmem

namespace HttpRequest

variable {req : HttpRequest}

theorem pairEncodes_query (pairs : List (Bytes × Bytes)) :
    List.Forall₂ PairEncodes pairs (pairs.map fun e => escape e.1 ++ 61 :: escape e.2) := by
  induction pairs with
  | nil => exact .nil
  | cons e pairs ih =>
      exact .cons ⟨_, _, encodes_escape _ _ _, encodes_escape _ _ _, rfl⟩ ih

theorem isToken_canonicalTarget (req : HttpRequest) : IsToken req.canonicalTarget :=
  isToken_encTarget (encodes_escape _ _ req.path) (pairEncodes_query _)

/-- The target is taken apart again. -/
theorem parseRequestLine_canonical (h : req.WellFormed) :
    HttpParser.parseRequestLine req.canonicalLine .init = some { HttpRequest.init with
      method := req.method
      version := req.version
      path := req.path
      query := req.query.toList.foldl (fun m e => m.insert e.1 e.2) ∅ } := by
  have hpath : PathEncodes req.path (escape req.path) := encodes_escape _ _ _
  have hfind := find_encTarget hpath
    (req.query.toList.map fun e => escape e.1 ++ 61 :: escape e.2)
  have htargetPath : targetPath req.canonicalTarget = escape req.path := by
    simp only [targetPath, canonicalTarget, hfind]
    rw [encTarget, List.take_left]
  have htargetQuery : targetQuery req.canonicalTarget
      = [38].intercalate (req.query.toList.map fun e => escape e.1 ++ 61 :: escape e.2) := by
    simp only [targetQuery, canonicalTarget, hfind]
    rw [encTarget, ← List.drop_drop, List.drop_left, List.drop_one, List.tail_cons]
  rw [canonicalLine, parseRequestLine_tokens h.method_token req.isToken_canonicalTarget
    h.version_token, htargetPath, htargetQuery, hpath.urlDecode_eq,
    parseQueryString_eq (pairEncodes_query _), map_toupper h.method_upper]
  · rfl
  · rw [htargetPath, hpath.urlDecode_eq]
    exact find_eq_none_of_not_infix h.safe

end HttpRequest

/-! ## Its lines -/

/-- A line that `getline` gives back: a CR may stand within it, but not at its ends. -/
structure IsRawLine (s : Bytes) : Prop where
  oneLine : 10 ∉ s
  nonempty : s ≠ []
  head : s.head? ≠ some 13
  last : s.getLast? ≠ some 13

theorem headerEnd_eq : HttpParser.headerEnd = [13, 10, 13, 10] := by decide

theorem length_headerEnd : HttpParser.headerEnd.length = 4 := by decide

/-- No CRLFCRLF begins within a line. -/
theorem find_headerEnd_line {line : Bytes} (h : 10 ∉ line) (tail : Bytes) :
    find HttpParser.headerEnd (line ++ 13 :: tail)
      = (find HttpParser.headerEnd (13 :: tail)).map (· + line.length) := by
  induction line with
  | nil => simp
  | cons b line ih =>
      rw [List.mem_cons, not_or] at h
      have hno : ¬ HttpParser.headerEnd <+: b :: (line ++ 13 :: tail) := by
        -- its second byte would be an LF
        rw [headerEnd_eq, List.cons_prefix_cons]
        rintro ⟨-, hpre⟩
        cases line with
        | nil =>
            rw [List.nil_append, List.cons_prefix_cons] at hpre
            exact absurd hpre.1 (by decide)
        | cons c line =>
            rw [List.cons_append, List.cons_prefix_cons] at hpre
            exact h.2 (hpre.1 ▸ List.mem_cons_self)
      rw [List.cons_append, find_cons_of_not_prefix hno, ih h.2, Option.map_map]
      congr 1

/-- Behind a line there is a CR. -/
theorem exists_cr (lines : List Bytes) (tail : Bytes) :
    ∃ next, joined lines ++ (HttpParser.headerEnd ++ tail) = 13 :: next := by
  cases lines with
  | nil => exact ⟨10 :: 13 :: 10 :: tail, by simp [joined, headerEnd_eq]⟩
  | cons line lines => exact ⟨_, by rw [joined_cons, List.cons_append]⟩

/-- The first CRLFCRLF after joined lines is the one that ends them. -/
theorem find_headerEnd_rawLines {lines : List Bytes} (hlines : ∀ line ∈ lines, IsRawLine line)
    (tail : Bytes) :
    find HttpParser.headerEnd (joined lines ++ (HttpParser.headerEnd ++ tail))
      = some (joined lines).length := by
  induction lines with
  | nil => exact find_prefix (List.prefix_append _ _)
  | cons line lines ih =>
      obtain ⟨hline, hlines⟩ := List.forall_mem_cons.mp hlines
      have ih := ih hlines
      obtain ⟨next, hnext⟩ := exists_cr lines tail
      have hsplit : joined (line :: lines) ++ (HttpParser.headerEnd ++ tail)
          = 13 :: 10 :: (line ++ 13 :: next) := by
        rw [joined_cons, ← hnext]
        simp
      -- neither the CR nor the LF before `line` starts a CRLFCRLF
      have hcr : ¬ HttpParser.headerEnd <+: 13 :: 10 :: (line ++ 13 :: next) := by
        obtain ⟨b, rest, rfl⟩ := List.exists_cons_of_ne_nil hline.nonempty
        have hb : 13 ≠ b := fun hb => hline.head (by rw [hb, List.head?_cons])
        simp [headerEnd_eq, List.cons_prefix_cons, hb]
      have hlf : ¬ HttpParser.headerEnd <+: 10 :: (line ++ 13 :: next) := by
        simp [headerEnd_eq, List.cons_prefix_cons]
      rw [hsplit, find_cons_of_not_prefix hcr, find_cons_of_not_prefix hlf,
        find_headerEnd_line hline.oneLine, ← hnext, ih]
      simp [joined_cons]
      omega

/-- `getline` and the removal of CR give the joined lines back. -/
theorem getlines_rawLines {first : Bytes} {lines : List Bytes} (hfirst : IsRawLine first)
    (hlines : ∀ line ∈ lines, IsRawLine line) :
    (getlines 10 (first ++ joined lines)).map HttpParser.popCR = first :: lines := by
  -- on the lines after the first; the first one is cut off with its CR
  induction lines generalizing first with
  | nil =>
      rw [joined, List.flatMap_nil, List.append_nil,
        getlines_last hfirst.oneLine hfirst.nonempty]
      simp [HttpParser.popCR, hfirst.last]
  | cons line lines ih =>
      obtain ⟨hline, hlines⟩ := List.forall_mem_cons.mp hlines
      have hsplit : first ++ joined (line :: lines)
          = (first ++ [13]) ++ 10 :: (line ++ joined lines) := by
        simp [joined_cons]
      have hlf : (10 : UInt8) ∉ first ++ [13] := by
        simp [hfirst.oneLine]
      rw [hsplit, getlines_append hlf, List.map_cons, popCR_append, ih hline hlines]

namespace HttpRequest

variable {req : HttpRequest}

theorem isRawLine_canonicalLine (h : req.WellFormed) : IsRawLine req.canonicalLine := by
  have htoken : ∀ {s : Bytes} {b : UInt8}, IsToken s → b ∈ s → b ≠ 13 ∧ b ≠ 10 ∧ b ≠ 32 :=
    fun hs hb => isspace_cr_lf _ (hs.noSpace _ hb)
  refine ⟨fun hm => ?_, by simp [canonicalLine], fun hm => ?_, fun hm => ?_⟩
  · simp only [canonicalLine, List.mem_append, List.mem_cons] at hm
    rcases hm with (hm | hm | hm) | hm | hm
    · exact (htoken h.method_token hm).2.1 rfl
    · exact absurd hm (by decide)
    · exact (htoken req.isToken_canonicalTarget hm).2.1 rfl
    · exact absurd hm (by decide)
    · exact (htoken h.version_token hm).2.1 rfl
  · obtain ⟨b, rest, hmethod⟩ := List.exists_cons_of_ne_nil h.method_token.nonempty
    rw [canonicalLine, hmethod, List.cons_append, List.cons_append, List.head?_cons] at hm
    have hb : b ∈ req.method := by simp [hmethod]
    exact (htoken h.method_token hb).1 (Option.some.inj hm)
  · have hlast : req.canonicalLine.getLast? = req.version.getLast? := by
      rw [canonicalLine, List.getLast?_append_of_ne_nil _ (List.cons_ne_nil _ _),
        List.getLast?_cons_of_ne_nil h.version_token.nonempty]
    rw [hlast] at hm
    exact (htoken h.version_token (List.mem_of_getLast? hm)).1 rfl

section HeaderLine

variable {e : Bytes × Bytes}

open WireRequest (headerLine headerLine_eq)

/-- `name: value`. -/
theorem isRawLine_headerLine (hkey : IsKey e.1) (hvalue : IsEntry e.2) :
    IsRawLine (headerLine e) := by
  have htrimmed : HttpParser.isTrimmed 13 = true := by decide
  rw [headerLine_eq]
  refine ⟨fun hm => ?_, by simp, fun hm => ?_, fun hm => ?_⟩
  · simp only [List.mem_append, List.mem_cons] at hm
    rcases hm with hm | hm | hm | hm
    · exact hkey.entry.oneLine hm
    · exact absurd hm (by decide)
    · exact absurd hm (by decide)
    · exact hvalue.oneLine hm
  · obtain ⟨b, rest, hname⟩ := List.exists_cons_of_ne_nil hkey.nonempty
    have hb := hkey.entry.head b (by rw [hname, List.head?_cons]; rfl)
    rw [hname, List.cons_append, List.head?_cons] at hm
    rw [Option.some.inj hm, htrimmed] at hb
    cases hb
  · rw [List.getLast?_append_of_ne_nil _ (List.cons_ne_nil _ _)] at hm
    rcases hnil : e.2 with _ | ⟨b, rest⟩
    · rw [hnil] at hm
      exact absurd hm (by decide)
    · have hne : e.2 ≠ [] := by simp [hnil]
      rw [List.getLast?_cons_of_ne_nil (List.cons_ne_nil _ _),
        List.getLast?_cons_of_ne_nil hne] at hm
      have hb := hvalue.last 13 hm
      rw [htrimmed] at hb
      cases hb

theorem parseHeaderLine_headerLine (hkey : IsKey e.1) (hvalue : IsEntry e.2)
    (req : HttpRequest) :
    HttpParser.parseHeaderLine (headerLine e) req
      = some { req with headers := req.headers.insert e.1 e.2 } := by
  have hline := headerLine_eq e
  have hfind : find [58] (headerLine e) = some e.1.length := by
    rw [hline, find_skip hkey.noColon]
    simp [find]
  have hname : toLower (HttpParser.trim ((headerLine e).take e.1.length)) = e.1 := by
    rw [hline, List.take_left, HttpParser.trim,
      trimWith_eq_self hkey.entry.head hkey.entry.last, hkey.lower]
  have hdrop : (headerLine e).drop (e.1.length + 1) = [32] ++ e.2 := by
    rw [hline]
    simp
  have hval : HttpParser.trim ((headerLine e).drop (e.1.length + 1)) = e.2 := by
    rw [hdrop, HttpParser.trim, trimWith_append_left _ (by simp [HttpParser.isTrimmed])]
    exact trimWith_eq_self hvalue.head hvalue.last
  simp only [HttpParser.parseHeaderLine, hfind, hname, hval, if_neg hkey.nonempty]

end HeaderLine

/-! ## It is parsed as the request -/

/-- What `parse` makes of the canonical form. -/
def reparsed (req : HttpRequest) : HttpRequest where
  method := req.method
  path := req.path
  version := req.version
  body := req.body
  headers := req.headers.toList.foldl (fun m e => m.insert e.1 e.2) ∅
  query := req.query.toList.foldl (fun m e => m.insert e.1 e.2) ∅
  params := ∅

theorem agrees_reparsed (h : req.WellFormed) : req.reparsed.Agrees req where
  method := rfl
  path := rfl
  version := rfl
  body := rfl
  headers key := by
    rw [reparsed, getElem?_foldl_insert, lastValue_toList]
    simp
  query key := by
    rw [reparsed, getElem?_foldl_insert, lastValue_toList]
    simp
  params key := by
    rw [h.params key]
    simp [reparsed]

theorem foldl_headerLines {entries : List (Bytes × Bytes)}
    (h : ∀ e ∈ entries, IsKey e.1 ∧ IsEntry e.2) (req : HttpRequest) :
    (entries.map WireRequest.headerLine).foldl
        (fun req line => (HttpParser.parseHeaderLine line req).getD req) req
      = { req with headers := entries.foldl (fun m e => m.insert e.1 e.2) req.headers } := by
  induction entries generalizing req with
  | nil => rfl
  | cons e entries ih =>
      obtain ⟨⟨hkey, hvalue⟩, h⟩ := List.forall_mem_cons.mp h
      rw [List.map_cons, List.foldl_cons, parseHeaderLine_headerLine hkey hvalue,
        Option.getD_some, ih h]
      rfl

theorem isRawLine_of_mem_lines (h : req.WellFormed) {line : Bytes}
    (hline : line ∈ req.headers.toList.map WireRequest.headerLine) : IsRawLine line := by
  obtain ⟨e, he, rfl⟩ := List.mem_map.mp hline
  obtain ⟨hkey, hvalue⟩ := h.headers e.1 e.2 (Std.TreeMap.mem_toList_iff_getElem?_eq_some.mp he)
  exact isRawLine_headerLine hkey hvalue

theorem parseHead_canonical (h : req.WellFormed) :
    HttpParser.parseHead (req.canonicalHead ++ HttpParser.headerEnd) .init
      = some { req.reparsed with body := [] } := by
  have hblock : (req.canonicalHead ++ HttpParser.headerEnd).take
      ((req.canonicalHead ++ HttpParser.headerEnd).length - 4) = req.canonicalHead := by
    rw [List.length_append, length_headerEnd, Nat.add_sub_cancel, List.take_left]
  have hlen : 4 ≤ (req.canonicalHead ++ HttpParser.headerEnd).length := by
    rw [List.length_append, length_headerEnd]
    omega
  have hlines : (getlines 10 req.canonicalHead).map HttpParser.popCR
      = req.canonicalLine :: req.headers.toList.map WireRequest.headerLine :=
    getlines_rawLines (isRawLine_canonicalLine h) fun _ hl => isRawLine_of_mem_lines h hl
  have hall : (req.headers.toList.map WireRequest.headerLine).takeWhile (· ≠ [])
      = req.headers.toList.map WireRequest.headerLine := by
    rw [List.takeWhile_eq_self_iff]
    intro line hl
    simpa using (isRawLine_of_mem_lines h hl).nonempty
  have hentries : ∀ e ∈ req.headers.toList, IsKey e.1 ∧ IsEntry e.2 := fun e he =>
    h.headers e.1 e.2 (Std.TreeMap.mem_toList_iff_getElem?_eq_some.mp he)
  simp only [HttpParser.parseHead, if_pos hlen, hblock, hlines, parseRequestLine_canonical h,
    Option.map_some, hall]
  rw [foldl_headerLines hentries]
  rfl

/-- The first CRLFCRLF is the one that ends the header block. -/
theorem splitHead_canonical (h : req.WellFormed) (tail : Bytes) :
    HttpParser.splitHead (req.canonicalHead ++ (HttpParser.headerEnd ++ tail))
      = (req.canonicalHead ++ HttpParser.headerEnd, tail, false) := by
  have hjoined := find_headerEnd_rawLines (fun _ hl => isRawLine_of_mem_lines h hl) tail
  obtain ⟨next, hnext⟩ := exists_cr (req.headers.toList.map WireRequest.headerLine) tail
  have hfind : find HttpParser.headerEnd (req.canonicalHead ++ (HttpParser.headerEnd ++ tail))
      = some req.canonicalHead.length := by
    rw [canonicalHead, List.append_assoc, hnext,
      find_headerEnd_line (isRawLine_canonicalLine h).oneLine, ← hnext, hjoined]
    simp [Nat.add_comm]
  have htake : (req.canonicalHead ++ (HttpParser.headerEnd ++ tail)).take
      (req.canonicalHead.length + 4) = req.canonicalHead ++ HttpParser.headerEnd := by
    rw [← List.append_assoc, ← length_headerEnd, ← List.length_append, List.take_left]
  have hdrop : (req.canonicalHead ++ (HttpParser.headerEnd ++ tail)).drop
      (req.canonicalHead.length + 4) = tail := by
    rw [← List.append_assoc, ← length_headerEnd, ← List.length_append, List.drop_left]
  simp only [HttpParser.splitHead, hfind, htake, hdrop]

/-- **One request**, and what follows it. -/
theorem parseStream_canonical (h : req.WellFormed) (rest : Bytes) :
    HttpParser.parseStream (req.canonical ++ rest) .init = (some req.reparsed, rest, false) := by
  have hstream : req.canonical ++ rest
      = req.canonicalHead ++ (HttpParser.headerEnd ++ (req.body ++ rest)) := by
    simp [canonical, List.append_assoc]
  have hne : req.canonicalHead ++ HttpParser.headerEnd ≠ [] := by
    have hend : HttpParser.headerEnd ≠ [] := by decide
    simp [hend]
  have hcl : ({ req.reparsed with body := [] } : HttpRequest).contentLength = req.contentLength :=
    (agrees_reparsed h).contentLength
  have hlength := h.length
  have hle := h.body_le
  rw [hstream]
  simp only [HttpParser.parseStream, splitHead_canonical h, if_neg hne, parseHead_canonical h]
  by_cases hempty : req.body = []
  · have hnone : req.contentLength ≤ 0 := by
      rw [hempty, List.length_nil] at hlength
      omega
    rw [HttpParser.bodyStream_nonpos (hcl.trans_le hnone)]
    simp [hempty, reparsed]
  · have hpos := List.length_pos_of_ne_nil hempty
    have hmax : (req.body.length : Int) ≤ HttpParser.maxBody := by
      rw [HttpParser.maxBody]
      omega
    rw [HttpParser.bodyStream_pos (hcl.trans (by omega)) hpos hmax]
    simp [reparsed]

end HttpRequest

/-! ## The range of the parser -/

namespace HttpParser

open HttpRequest (agrees_reparsed parseStream_canonical)

/-- What `parse` does with the canonical form, in any pieces and with anything behind it. -/
theorem parse_canonical {req : HttpRequest} (h : req.WellFormed) (fd : Core.Fd) (r : RecvScript)
    {rest : Bytes} (hrecv : r.bytes = req.canonical ++ rest) :
    (parse (.init fd) r .init).1 = some req.reparsed ∧
      (parse (.init fd) r .init).2.1.closed = false ∧
      (parse (.init fd) r .init).2.1.pending (parse (.init fd) r .init).2.2 = rest := by
  obtain ⟨hreq, hleft, hclosed, -⟩ := parse_yields (.init fd) r .init
  rw [show (Connection.init fd).pending r = _ from hrecv, parseStream_canonical h]
    at hreq hleft hclosed
  exact ⟨hreq, hclosed, hleft⟩

/-- **The range of the parser.** A request is what `parse` comes to on some connection,
    before its stream has ended, if and only if it is well-formed. -/
theorem accepted_iff (req : HttpRequest) :
    (∃ fd r req', (parse (.init fd) r .init).1 = some req' ∧
        (parse (.init fd) r .init).2.1.closed = false ∧ req'.Agrees req) ↔
      req.WellFormed := by
  constructor
  · rintro ⟨fd, r, req', hparse, hopen, hagrees⟩
    exact hagrees.wellFormed (parse_wellFormed hparse hopen)
  · intro h
    obtain ⟨b, rest, hstream⟩ := List.exists_cons_of_ne_nil
      (show req.canonical ≠ [] by simp [HttpRequest.canonical, HttpRequest.canonicalHead,
        HttpRequest.canonicalLine])
    have hrecv : (⟨[.data b rest], .eof⟩ : RecvScript).bytes = req.canonical ++ [] := by
      simp [hstream, RecvScript.bytes, RecvEvent.bytes]
    obtain ⟨hparse, hopen, -⟩ := parse_canonical h 0 _ hrecv
    exact ⟨0, _, _, hparse, hopen, agrees_reparsed h⟩

/-- **A normal form.** Whatever the client wrote: written in the canonical form, in any
    pieces and with anything behind it, the request is parsed as before. -/
theorem normal_form {fd : Core.Fd} {r : RecvScript} {req : HttpRequest}
    (hparse : (parse (.init fd) r .init).1 = some req)
    (hopen : (parse (.init fd) r .init).2.1.closed = false) (fd' : Core.Fd) (r' : RecvScript)
    (rest : Bytes) (hrecv : r'.bytes = req.canonical ++ rest) :
    ∃ req', (parse (.init fd') r' .init).1 = some req' ∧ req'.Agrees req ∧
      (parse (.init fd') r' .init).2.1.pending (parse (.init fd') r' .init).2.2 = rest := by
  have h := parse_wellFormed hparse hopen
  obtain ⟨hparsed, -, hleft⟩ := parse_canonical h fd' r' hrecv
  exact ⟨_, hparsed, agrees_reparsed h, hleft⟩

/-- Blanks, letters of both cases and `+` on the one side. -/
theorem normal_form_get :
    ∃ req req', (parse (.init 5) ⟨[.data 103 (bytes "et  /?b=+ HTTP/1.1\r\nHOST:  a \r\n\r\n")],
        .eof⟩ .init).1 = some req ∧
      (parse (.init 6) ⟨[.data 71 (bytes "ET %2f?%62=%20 HTTP/1.1\r\n"), .eagain,
        .data 104 (bytes "ost: a\r\n\r\n")], .error⟩ .init).1 = some req' ∧ req'.Agrees req := by
  have hcanonical : ((parse (.init 5)
      ⟨[.data 103 (bytes "et  /?b=+ HTTP/1.1\r\nHOST:  a \r\n\r\n")], .eof⟩ .init).1.map
      HttpRequest.canonical) = some (bytes "GET %2f?%62=%20 HTTP/1.1\r\nhost: a\r\n\r\n") := by
    decide +kernel
  obtain ⟨req, hparse, hform⟩ := Option.map_eq_some_iff.mp hcanonical
  have hrecv : (⟨[.data 71 (bytes "ET %2f?%62=%20 HTTP/1.1\r\n"), .eagain,
      .data 104 (bytes "ost: a\r\n\r\n")], .error⟩ : RecvScript).bytes = req.canonical ++ [] := by
    rw [hform]
    decide +kernel
  obtain ⟨req', hparsed, hagrees, -⟩ := normal_form hparse (by decide +kernel) 6 _ [] hrecv
  exact ⟨req, req', hparse, hparsed, hagrees⟩

end HttpParser

end CoroutineHttp.Http
