/-
  CoroutineHttp.Http.RoundTrip

  Parsing what a well-formed client sends.  A `WireRequest` carries the
  conditions of a well-formed request as fields; `serialise` writes it with CRLF
  lines.  Successive `parse` calls on a connection that receives such requests
  one after another give them back, however the stream is cut into chunks.
-/

import CoroutineHttp.Http.Parser

namespace CoroutineHttp.Http

open CoroutineHttp.Library CoroutineHttp.Net

/-! ## Well-formed requests -/

/-- A non-empty string without white space. -/
structure IsToken (s : Bytes) : Prop where
  nonempty : s ≠ []
  noSpace : ∀ b ∈ s, isspace b = false

/-- A string without CR, LF or surrounding white space. -/
structure IsField (s : Bytes) : Prop where
  oneLine : ∀ b ∈ s, b ≠ 13 ∧ b ≠ 10
  head : ∀ b ∈ s.head?, HttpParser.isTrimmed b = false
  last : ∀ b ∈ s.getLast?, HttpParser.isTrimmed b = false

instance (s : Bytes) : Decidable (IsToken s) :=
  decidable_of_iff (s ≠ [] ∧ s.all (!isspace ·))
    ⟨fun h => ⟨h.1, by simpa using h.2⟩, fun h => ⟨h.nonempty, by simpa using h.noSpace⟩⟩

instance (s : Bytes) : Decidable (IsField s) :=
  decidable_of_iff (s.all (fun b => b != 13 && b != 10) ∧
      (s.head?.toList ++ s.getLast?.toList).all (!HttpParser.isTrimmed ·))
    ⟨fun h => by
      simp only [List.all_append, Bool.and_eq_true] at h
      exact ⟨by simpa using h.1, by simpa using h.2.1, by simpa using h.2.2⟩,
     fun h => by
      simp only [List.all_append, Bool.and_eq_true]
      exact ⟨by simpa using h.oneLine, by simpa using h.head, by simpa using h.last⟩⟩

/-- The version a client of HTTP/1.1 names. -/
theorem isToken_http11 : IsToken (bytes "HTTP/1.1") := by decide +kernel

/-- The part of a request target before the first `?`. -/
def targetPath (target : Bytes) : Bytes :=
  match find [63] target with
  | none => target
  | some q => target.take q

/-- The part of a request target after the first `?`. -/
def targetQuery (target : Bytes) : Bytes :=
  match find [63] target with
  | none => []
  | some q => target.drop (q + 1)

/-- A decimal numeral for `n`. -/
structure IsDecimal (s : Bytes) (n : Nat) : Prop where
  nonempty : s ≠ []
  digits : ∀ b ∈ s, isdigit b = true
  value : decimalValue s = n

instance (s : Bytes) (n : Nat) : Decidable (IsDecimal s n) :=
  decidable_of_iff (s ≠ [] ∧ s.all isdigit ∧ decimalValue s = n)
    ⟨fun h => ⟨h.1, by simpa using h.2.1, h.2.2⟩,
      fun h => ⟨h.nonempty, by simpa using h.digits, h.value⟩⟩

/-- Lines, each after a CRLF. -/
def joined (lines : List Bytes) : Bytes := lines.flatMap fun line => bytes "\r\n" ++ line

/-- A well-formed HTTP/1.1 request, as a client writes it. -/
structure WireRequest where
  method : Bytes
  target : Bytes
  version : Bytes
  headers : List (Bytes × Bytes)
  body : Bytes
  method_token : IsToken method
  method_upper : ∀ b ∈ method, ¬ (97 ≤ b ∧ b ≤ 122)
  target_token : IsToken target
  version_token : IsToken version
  target_safe : find (bytes "..") (HttpParser.urlDecode (targetPath target)) = none
  names : ∀ h ∈ headers, IsField h.1 ∧ h.1 ≠ [] ∧ 58 ∉ h.1
  values : ∀ h ∈ headers, IsField h.2
  distinct : (headers.map fun h => toLower h.1).Nodup
  body_le : body.length ≤ 10 * 1024 * 1024
  length_of_body : body ≠ [] → bytes "content-length" ∈ headers.map fun h => toLower h.1
  length_value : ∀ h ∈ headers, toLower h.1 = bytes "content-length" → IsDecimal h.2 body.length

namespace WireRequest

variable (q : WireRequest)

/-- `METHOD target VERSION`. -/
def requestLine : Bytes := q.method ++ 32 :: q.target ++ 32 :: q.version

theorem bytes_colonSpace : bytes ": " = [58, 32] := by decide

/-- `Name: value`. -/
def headerLine (h : Bytes × Bytes) : Bytes := h.1 ++ bytes ": " ++ h.2

theorem headerLine_eq (h : Bytes × Bytes) : headerLine h = h.1 ++ 58 :: 32 :: h.2 := by
  simp [headerLine, bytes_colonSpace]

/-- The lines of the header block. -/
def lines : List Bytes := q.headers.map headerLine

/-- The header block without its terminator. -/
def head : Bytes := q.requestLine ++ joined q.lines

/-- The request on the wire. -/
def serialise : Bytes := q.head ++ HttpParser.headerEnd ++ q.body

end WireRequest

/-! ## Lines -/

section Lines

/-- A line that can stand in a header block: not empty, without CR and LF. -/
structure IsLine (s : Bytes) : Prop where
  nonempty : s ≠ []
  oneLine : ∀ b ∈ s, b ≠ 13 ∧ b ≠ 10

/-- No LF before the one that ends the line. -/
theorem IsLine.lf_not_mem {line : Bytes} (h : IsLine line) : (10 : UInt8) ∉ line ++ [13] := by
  intro hm
  rcases List.mem_append.mp hm with hm | hm
  · exact (h.oneLine 10 hm).2 rfl
  · simp at hm

theorem joined_cons (line : Bytes) (lines : List Bytes) :
    joined (line :: lines) = 13 :: 10 :: (line ++ joined lines) := rfl

/-- The first CRLFCRLF after joined lines is the one that ends them. -/
theorem find_headerEnd_joined (lines : List Bytes) (hlines : ∀ line ∈ lines, IsLine line)
    (tail : Bytes) :
    find HttpParser.headerEnd (joined lines ++ (HttpParser.headerEnd ++ tail))
      = some (joined lines).length := by
  -- on the lines; CR stands only where one ends, and what follows is CRLF and a line
  induction lines with
  | nil => exact find_prefix (List.prefix_append _ _)
  | cons line lines ih =>
      have hline := hlines line List.mem_cons_self
      obtain ⟨b, rest, rfl⟩ := List.exists_cons_of_ne_nil hline.nonempty
      have hb := hline.oneLine b List.mem_cons_self
      have h13 : (13 : UInt8) ∉ b :: rest := fun hm => (hline.oneLine 13 hm).1 rfl
      have hend : HttpParser.headerEnd = [13, 10, 13, 10] := by decide
      have ih := ih fun l hl => hlines l (List.mem_cons_of_mem _ hl)
      rw [hend] at ih ⊢
      -- neither the CR nor the LF before `line` starts a CRLFCRLF
      have hcr : ¬ [13, 10, 13, 10] <+:
          13 :: 10 :: (b :: rest ++ joined lines ++ ([13, 10, 13, 10] ++ tail)) := by
        simp [List.cons_prefix_cons, Ne.symm hb.1]
      have hlf : ¬ [13, 10, 13, 10] <+:
          10 :: (b :: rest ++ joined lines ++ ([13, 10, 13, 10] ++ tail)) := by
        simp [List.cons_prefix_cons]
      have hassoc : joined ((b :: rest) :: lines) ++ ([13, 10, 13, 10] ++ tail)
          = 13 :: 10 :: (b :: rest ++ joined lines ++ ([13, 10, 13, 10] ++ tail)) := by
        simp [joined_cons]
      rw [hassoc, find_cons_of_not_prefix hcr, find_cons_of_not_prefix hlf, List.append_assoc,
        find_skip h13, ih]
      simp [joined_cons]
      omega

theorem popCR_append (line : Bytes) : HttpParser.popCR (line ++ [13]) = line := by
  simp [HttpParser.popCR]

theorem popCR_of_not_mem {line : Bytes} (h : (13 : UInt8) ∉ line) :
    HttpParser.popCR line = line := by
  unfold HttpParser.popCR
  rw [if_neg]
  intro hlast
  exact h (List.mem_of_getLast? hlast)

/-- `getline` and the removal of CR give the joined lines back. -/
theorem getlines_joined (first : Bytes) (lines : List Bytes) (hfirst : IsLine first)
    (hlines : ∀ line ∈ lines, IsLine line) :
    (getlines 10 (first ++ joined lines)).map HttpParser.popCR = first :: lines := by
  -- on the lines after the first; the first one is cut off with its CR
  induction lines generalizing first with
  | nil =>
      have h10 : (10 : UInt8) ∉ first := fun hm => (hfirst.oneLine 10 hm).2 rfl
      have h13 : (13 : UInt8) ∉ first := fun hm => (hfirst.oneLine 13 hm).1 rfl
      rw [joined, List.flatMap_nil, List.append_nil, getlines_last h10 hfirst.nonempty]
      simp [popCR_of_not_mem h13]
  | cons line lines ih =>
      have hsplit : first ++ joined (line :: lines)
          = (first ++ [13]) ++ 10 :: (line ++ joined lines) := by
        simp [joined_cons]
      rw [hsplit, getlines_append hfirst.lf_not_mem, List.map_cons, popCR_append,
        ih line (hlines line List.mem_cons_self)
          fun l hl => hlines l (List.mem_cons_of_mem _ hl)]

end Lines

/-! ## The request line and the header lines -/

theorem isspace_cr_lf (b : UInt8) : isspace b = false → b ≠ 13 ∧ b ≠ 10 ∧ b ≠ 32 :=
  forall_byte (P := fun b => isspace b = false → b ≠ 13 ∧ b ≠ 10 ∧ b ≠ 32)
    (by decide +kernel) b

theorem map_toupper {s : Bytes} (h : ∀ b ∈ s, ¬ (97 ≤ b ∧ b ≤ 122)) : s.map toupper = s := by
  conv_rhs => rw [← List.map_id s]
  exact List.map_congr_left fun b hb => toupper_of_not_lower (h b hb)

/-- Three words, each before a blank or the end, and a path that may be asked for. -/
theorem parseRequestLine_tokens {method target version : Bytes} (hmethod : IsToken method)
    (htarget : IsToken target) (hversion : IsToken version)
    (hsafe : find (bytes "..") (HttpParser.urlDecode (targetPath target)) = none)
    (req : HttpRequest) :
    HttpParser.parseRequestLine (method ++ 32 :: target ++ 32 :: version) req = some { req with
      method := method.map toupper
      version := version
      path := HttpParser.urlDecode (targetPath target)
      query := HttpParser.parseQueryString (targetQuery target) req.query } := by
  have hsep : isspace 32 = true := by decide
  have hword1 : word (method ++ 32 :: target ++ 32 :: version)
      = (method, 32 :: (target ++ 32 :: version)) := by
    rw [List.append_assoc, List.cons_append, word_append hmethod.noSpace hmethod.nonempty hsep]
  have hword2 : word (32 :: (target ++ 32 :: version)) = (target, 32 :: version) := by
    rw [word_cons_space _ hsep, word_append htarget.noSpace htarget.nonempty hsep]
  have hword3 : word (32 :: version) = (version, []) := by
    rw [word_cons_space _ hsep, word_self hversion.noSpace]
  simp only [HttpParser.parseRequestLine, hword1, hword2, hword3, hmethod.nonempty,
    htarget.nonempty, hversion.nonempty, or_self, if_false, targetPath, targetQuery] at hsafe ⊢
  cases hfind : find [63] target with
  | none => simp_all [HttpParser.parseQueryString, getlines]
  | some pos => simp_all

namespace WireRequest

variable (q : WireRequest)

theorem isLine_requestLine : IsLine q.requestLine := by
  refine ⟨by simp [requestLine], fun b hb => ?_⟩
  have htoken : ∀ {s : Bytes}, IsToken s → b ∈ s → b ≠ 13 ∧ b ≠ 10 := fun hs hm =>
    ⟨(isspace_cr_lf b (hs.noSpace b hm)).1, (isspace_cr_lf b (hs.noSpace b hm)).2.1⟩
  simp only [requestLine, List.mem_append, List.mem_cons] at hb
  rcases hb with (hb | rfl | hb) | rfl | hb
  · exact htoken q.method_token hb
  · decide
  · exact htoken q.target_token hb
  · decide
  · exact htoken q.version_token hb

theorem isLine_headerLine {h : Bytes × Bytes} (hh : h ∈ q.headers) : IsLine (headerLine h) := by
  refine ⟨by simp [headerLine, (q.names h hh).2.1], fun b hb => ?_⟩
  simp only [headerLine, List.mem_append] at hb
  rcases hb with (hb | hb) | hb
  · exact (q.names h hh).1.oneLine b hb
  · rw [bytes_colonSpace] at hb
    simp only [List.mem_cons, List.not_mem_nil, or_false] at hb
    rcases hb with rfl | rfl <;> decide
  · exact (q.values h hh).oneLine b hb

theorem isLine_of_mem_lines {line : Bytes} (hl : line ∈ q.lines) : IsLine line := by
  obtain ⟨h, hh, rfl⟩ := List.mem_map.mp hl
  exact q.isLine_headerLine hh

/-- `parse_request_line` takes the request line apart. -/
theorem parseRequestLine_eq (req : HttpRequest) :
    HttpParser.parseRequestLine q.requestLine req = some { req with
      method := q.method
      version := q.version
      path := HttpParser.urlDecode (targetPath q.target)
      query := HttpParser.parseQueryString (targetQuery q.target) req.query } := by
  rw [requestLine, parseRequestLine_tokens q.method_token q.target_token q.version_token
    q.target_safe, map_toupper q.method_upper]

/-- `parse_header_line` on a line of the request. -/
theorem parseHeaderLine_eq {h : Bytes × Bytes} (hh : h ∈ q.headers) (req : HttpRequest) :
    HttpParser.parseHeaderLine (headerLine h) req
      = some { req with headers := req.headers.insert (toLower h.1) h.2 } := by
  obtain ⟨hname, hne, hcolon⟩ := q.names h hh
  have hvalue := q.values h hh
  have hline := headerLine_eq h
  have hfind : find [58] (headerLine h) = some h.1.length := by
    rw [hline, find_skip hcolon]
    simp [find]
  have hkey : HttpParser.trim ((headerLine h).take h.1.length) = h.1 := by
    rw [hline, List.take_left]
    exact trimWith_eq_self hname.head hname.last
  have hval : HttpParser.trim ((headerLine h).drop (h.1.length + 1)) = h.2 := by
    have hdrop : (headerLine h).drop (h.1.length + 1) = [32] ++ h.2 := by
      rw [hline]
      simp
    rw [hdrop, HttpParser.trim, trimWith_append_left _ (by simp [HttpParser.isTrimmed])]
    exact trimWith_eq_self hvalue.head hvalue.last
  have hlower : toLower h.1 ≠ [] := by simpa [toLower] using hne
  simp [HttpParser.parseHeaderLine, hfind, hkey, hval, hlower]

end WireRequest

/-! ## The header map -/

/-- The header map after the lines of `headers`. -/
def insertAll (m : StrMap) (headers : List (Bytes × Bytes)) : StrMap :=
  headers.foldl (fun m h => m.insert (toLower h.1) h.2) m

theorem getElem?_insertAll_of_not_mem {m : StrMap} {headers : List (Bytes × Bytes)} {key : Bytes}
    (h : key ∉ headers.map fun h => toLower h.1) : (insertAll m headers)[key]? = m[key]? := by
  induction headers generalizing m with
  | nil => rfl
  | cons hd tl ih =>
      simp only [List.map_cons, List.mem_cons, not_or] at h
      rw [insertAll, List.foldl_cons, ← insertAll, ih h.2, Std.TreeMap.getElem?_insert, if_neg]
      rw [Std.LawfulEqOrd.compare_eq_iff_eq]
      exact Ne.symm h.1

/-- Names that differ, even in lower case, do not overwrite each other. -/
theorem getElem?_insertAll_of_mem {m : StrMap} {headers : List (Bytes × Bytes)}
    (hnodup : (headers.map fun h => toLower h.1).Nodup) {h : Bytes × Bytes} (hh : h ∈ headers) :
    (insertAll m headers)[toLower h.1]? = some h.2 := by
  induction headers generalizing m with
  | nil => cases hh
  | cons hd tl ih =>
      rw [List.map_cons, List.nodup_cons] at hnodup
      rw [insertAll, List.foldl_cons, ← insertAll]
      rcases List.mem_cons.mp hh with rfl | hh
      · rw [getElem?_insertAll_of_not_mem hnodup.1, Std.TreeMap.getElem?_insert_self]
      · exact ih hnodup.2 hh

/-! ## One request -/

namespace WireRequest

variable (q : WireRequest)

/-- What the parser makes of the header block. -/
def parsedHead : HttpRequest where
  method := q.method
  path := HttpParser.urlDecode (targetPath q.target)
  version := q.version
  body := []
  headers := insertAll ∅ q.headers
  query := HttpParser.parseQueryString (targetQuery q.target) ∅
  params := ∅

/-- What the parser makes of the request. -/
def parsed : HttpRequest := { q.parsedHead with body := q.body }

theorem foldl_parseHeaderLine (headers : List (Bytes × Bytes))
    (hsub : ∀ h ∈ headers, h ∈ q.headers) (req : HttpRequest) :
    (headers.map headerLine).foldl
        (fun req line => (HttpParser.parseHeaderLine line req).getD req) req
      = { req with headers := insertAll req.headers headers } := by
  induction headers generalizing req with
  | nil => rfl
  | cons h headers ih =>
      rw [List.map_cons, List.foldl_cons, q.parseHeaderLine_eq (hsub h List.mem_cons_self),
        Option.getD_some, ih fun h' hh' => hsub h' (List.mem_cons_of_mem _ hh')]
      rfl

theorem parseHead_eq :
    HttpParser.parseHead (q.head ++ HttpParser.headerEnd) .init = some q.parsedHead := by
  have hend : HttpParser.headerEnd.length = 4 := by decide
  have hblock : (q.head ++ HttpParser.headerEnd).take
      ((q.head ++ HttpParser.headerEnd).length - 4) = q.head := by
    rw [List.length_append, hend, Nat.add_sub_cancel, List.take_left]
  have hlen : 4 ≤ (q.head ++ HttpParser.headerEnd).length := by
    rw [List.length_append, hend]
    omega
  have hlines : (getlines 10 q.head).map HttpParser.popCR = q.requestLine :: q.lines :=
    getlines_joined _ _ q.isLine_requestLine fun _ hl => q.isLine_of_mem_lines hl
  have hall : q.lines.takeWhile (· ≠ []) = q.lines := by
    rw [List.takeWhile_eq_self_iff]
    intro line hl
    simpa using (q.isLine_of_mem_lines hl).nonempty
  simp only [HttpParser.parseHead, if_pos hlen, hblock, hlines, q.parseRequestLine_eq,
    Option.map_some, hall]
  rw [lines, q.foldl_parseHeaderLine q.headers fun _ hh => hh]
  rfl

/-- Each header is found under every spelling of its name. -/
theorem header_parsedHead {h : Bytes × Bytes} (hh : h ∈ q.headers) {key : Bytes}
    (hkey : toLower key = toLower h.1) (defaultVal : Bytes) :
    q.parsedHead.header key defaultVal = h.2 := by
  rw [HttpRequest.header, hkey]
  simp [parsedHead, getElem?_insertAll_of_mem q.distinct hh]

/-- The declared length is the length of the body, or there is no body. -/
theorem contentLength_parsedHead :
    q.parsedHead.contentLength = q.body.length ∨
      (q.body = [] ∧ q.parsedHead.contentLength = -1) := by
  by_cases hmem : bytes "content-length" ∈ q.headers.map fun h => toLower h.1
  · obtain ⟨h, hh, hkey⟩ := List.mem_map.mp hmem
    obtain ⟨hne, hdigits, hvalue⟩ := q.length_value h hh hkey
    have hname : toLower (bytes "content-length") = toLower h.1 := by rw [← hkey, toLower_toLower]
    have hheader := q.header_parsedHead hh hname []
    have hlt : decimalValue h.2 < 2 ^ 31 := by
      have := q.body_le
      omega
    left
    simp only [HttpRequest.contentLength, hheader, if_neg hne, stoi_of_digits hne hdigits hlt,
      Option.getD_some, hvalue]
  · have hbody : q.body = [] := by
      by_contra hne
      exact hmem (q.length_of_body hne)
    have hlow : toLower (bytes "content-length") = bytes "content-length" := by decide
    have hnone : q.parsedHead.headers[toLower (bytes "content-length")]? = none := by
      rw [hlow]
      exact getElem?_insertAll_of_not_mem hmem
    right
    refine ⟨hbody, ?_⟩
    simp [HttpRequest.contentLength, HttpRequest.header, hnone]

/-- The first CRLFCRLF is the one that ends the header block. -/
theorem find_headerEnd (tail : Bytes) :
    find HttpParser.headerEnd (q.head ++ (HttpParser.headerEnd ++ tail))
      = some q.head.length := by
  have h13 : (13 : UInt8) ∉ q.requestLine := fun hm => (q.isLine_requestLine.oneLine 13 hm).1 rfl
  have hjoined := find_headerEnd_joined q.lines (fun _ hl => q.isLine_of_mem_lines hl) tail
  have hcons : HttpParser.headerEnd = 13 :: [10, 13, 10] := by decide
  rw [hcons] at hjoined
  rw [head, List.append_assoc, hcons, find_skip h13, hjoined]
  simp
  omega

/-- `read_until` finds the end of the header block. -/
theorem splitHead_eq (tail : Bytes) :
    HttpParser.splitHead (q.head ++ (HttpParser.headerEnd ++ tail))
      = (q.head ++ HttpParser.headerEnd, tail, false) := by
  have hend : HttpParser.headerEnd.length = 4 := by decide
  have htake : (q.head ++ (HttpParser.headerEnd ++ tail)).take (q.head.length + 4)
      = q.head ++ HttpParser.headerEnd := by
    rw [← List.append_assoc, ← hend, ← List.length_append, List.take_left]
  have hdrop : (q.head ++ (HttpParser.headerEnd ++ tail)).drop (q.head.length + 4) = tail := by
    rw [← List.append_assoc, ← hend, ← List.length_append, List.drop_left]
  simp only [HttpParser.splitHead, q.find_headerEnd, htake, hdrop]

/-- **One request.** The parser gives it back and leaves what follows it. -/
theorem parseStream_serialise (rest : Bytes) :
    HttpParser.parseStream (q.serialise ++ rest) .init = (some q.parsed, rest, false) := by
  have hstream : q.serialise ++ rest
      = q.head ++ (HttpParser.headerEnd ++ (q.body ++ rest)) := by
    simp [serialise, List.append_assoc]
  have hne : q.head ++ HttpParser.headerEnd ≠ [] := by
    have hend : HttpParser.headerEnd ≠ [] := by decide
    simp [hend]
  rw [hstream]
  simp only [HttpParser.parseStream, q.splitHead_eq, if_neg hne, q.parseHead_eq]
  have hle := q.body_le
  by_cases hempty : q.body = []
  · have hcl : q.parsedHead.contentLength ≤ 0 := by
      rcases q.contentLength_parsedHead with hcl | ⟨-, hcl⟩ <;> simp [hcl, hempty]
    rw [HttpParser.bodyStream_nonpos hcl]
    simp [hempty, parsed, parsedHead]
  · have hcl := q.contentLength_parsedHead.resolve_right fun h => hempty h.1
    have hmax : (q.body.length : Int) ≤ HttpParser.maxBody := by
      simp only [HttpParser.maxBody]
      omega
    rw [HttpParser.bodyStream_pos hcl (List.length_pos_of_ne_nil hempty) hmax]
    simp [parsed]

end WireRequest

/-! ## Pipelined requests -/

namespace HttpParser

/-- `n` successive calls of `parse`, each with a new request object. -/
def parseMany (conn : Connection) (r : RecvScript) :
    Nat → List (Option HttpRequest) × Connection × RecvScript
  | 0 => ([], conn, r)
  | n + 1 =>
      let (req, conn, r) := parse conn r .init
      let (reqs, conn, r) := parseMany conn r n
      (req :: reqs, conn, r)

end HttpParser

/-- The request object is what request `q` says, and says nothing else. -/
structure WireRequest.Denotes (q : WireRequest) (req : HttpRequest) : Prop where
  method : req.method = q.method
  version : req.version = q.version
  path : req.path = HttpParser.urlDecode (targetPath q.target)
  query : req.query = HttpParser.parseQueryString (targetQuery q.target) ∅
  header : ∀ h ∈ q.headers, ∀ key, toLower key = toLower h.1 →
    ∀ defaultVal, req.header key defaultVal = h.2
  noOther : ∀ key, key ∉ q.headers.map (fun h => toLower h.1) → req.headers[key]? = none
  params : req.params = ∅
  body : req.body = q.body

theorem WireRequest.denotes_parsed (q : WireRequest) : q.Denotes q.parsed where
  method := rfl
  version := rfl
  path := rfl
  query := rfl
  header _ hh _ hkey defaultVal := q.header_parsedHead hh hkey defaultVal
  noOther _ hkey := getElem?_insertAll_of_not_mem hkey
  params := rfl
  body := rfl

/-- **Pipelined round trip.** On a connection that receives well-formed requests
    one after another, in any chunks and with any waits between them, as many
    calls of `parse` succeed, give exactly these requests in order, and leave
    exactly the bytes that follow the last one. -/
theorem parseMany_serialise (qs : List WireRequest) (rest : Bytes) (fd : Core.Fd)
    (r : RecvScript) (hr : r.bytes = qs.flatMap WireRequest.serialise ++ rest) :
    ∃ reqs conn' r',
      HttpParser.parseMany (.init fd) r qs.length = (reqs.map some, conn', r') ∧
      List.Forall₂ WireRequest.Denotes qs reqs ∧
      conn'.closed = false ∧ conn'.pending r' = rest := by
  -- any open connection with the requests pending, so that the tail is an instance
  suffices h : ∀ (qs : List WireRequest) (conn : Connection) (r : RecvScript),
      conn.closed = false → conn.pending r = qs.flatMap WireRequest.serialise ++ rest →
      ∃ reqs conn' r', HttpParser.parseMany conn r qs.length = (reqs.map some, conn', r') ∧
        List.Forall₂ WireRequest.Denotes qs reqs ∧
        conn'.closed = false ∧ conn'.pending r' = rest by
    exact h qs (.init fd) r rfl (by simpa [Connection.pending, Connection.init] using hr)
  intro qs
  induction qs with
  | nil =>
      intro conn r hopen hpending
      exact ⟨[], conn, r, rfl, .nil, hopen, by simpa using hpending⟩
  | cons q qs ih =>
      intro conn r hopen hpending
      obtain ⟨hreq, hleft, hclosed, -⟩ := HttpParser.parse_yields conn r .init
      rw [hpending, List.flatMap_cons, List.append_assoc, q.parseStream_serialise]
        at hreq hleft hclosed
      rw [hopen] at hclosed
      obtain ⟨reqs, conn', r', hmany, hdenotes, hopen', hrest⟩ := ih _ _ hclosed hleft
      refine ⟨q.parsed :: reqs, conn', r', ?_, .cons q.denotes_parsed hdenotes, hopen', hrest⟩
      simp [HttpParser.parseMany, hreq, hmany]

/-- A request with a body that looks like another request, in one-byte chunks. -/
theorem parseMany_serialise_smuggled :
    ∃ req conn' r',
      HttpParser.parseMany (.init 5)
          ⟨(bytes "POST /echo?x=1 HTTP/1.1\r\nContent-Length: 9\r\n\r\nGET / \r\n\r").flatMap
            fun b => [.eagain, .data b []], .eof⟩ 1 = ([some req], conn', r') ∧
        req.body = bytes "GET / \r\n\r" ∧ req.path = bytes "/echo" ∧ conn'.pending r' = [] := by
  let q : WireRequest :=
    { method := bytes "POST", target := bytes "/echo?x=1", version := bytes "HTTP/1.1"
      headers := [(bytes "Content-Length", bytes "9")], body := bytes "GET / \r\n\r"
      method_token := by decide +kernel, method_upper := by decide +kernel
      target_token := by decide +kernel, version_token := by decide +kernel
      target_safe := by decide +kernel, names := by decide +kernel
      values := by decide +kernel, distinct := by decide +kernel, body_le := by decide +kernel
      length_of_body := by decide +kernel, length_value := by decide +kernel }
  obtain ⟨reqs, conn', r', hmany, hdenotes, -, hrest⟩ :=
    parseMany_serialise [q] [] 5 _ (show RecvScript.bytes
      ⟨(bytes "POST /echo?x=1 HTTP/1.1\r\nContent-Length: 9\r\n\r\nGET / \r\n\r").flatMap
        fun b => [.eagain, .data b []], .eof⟩ = _ by decide +kernel)
  cases hdenotes with
  | cons hq hnil =>
      cases hnil
      exact ⟨_, conn', r', hmany, hq.body, hq.path.trans (by decide +kernel), hrest⟩

end CoroutineHttp.Http
