/-
  CoroutineHttp.Http.Parser

  `class HttpParser` on top of `Connection`, and the same function on a byte
  stream (`parseStream`): what `parse` does to a connection depends on the bytes
  still to come only (`parse_yields`).
-/

import CoroutineHttp.Net.Reader
import CoroutineHttp.Http.Request

namespace CoroutineHttp.Http

open CoroutineHttp.Library CoroutineHttp.Net

namespace HttpParser

/-! ## The functions of the class -/

/-- The characters `trim` removes. -/
def isTrimmed (b : UInt8) : Bool := b == 32 || b == 9 || b == 13 || b == 10

/-- `trim`. -/
def trim (s : Bytes) : Bytes := trimWith isTrimmed s

/-- `url_decode`. -/
def urlDecode : Bytes → Bytes
  | [] => []
  | c :: rest =>
      if c = 37 then
        match rest with
        | a :: b :: t =>
            match xdigit a, xdigit b with
            | some x, some y => (16 * x + y) :: urlDecode t
            -- a `%` without two digits stands for itself
            | _, _ => c :: urlDecode (a :: b :: t)
        -- `i + 2 < s.size()` fails
        | [a] => c :: urlDecode [a]
        | [] => [c]
      else if c = 43 then 32 :: urlDecode rest
      else c :: urlDecode rest

/-- One `key=value` pair of a query string. -/
def parsePair (query : StrMap) (pair : Bytes) : StrMap :=
  if pair = [] then query
  else
    match find [61] pair with
    -- no `=`: a key without a value
    | none => query.insert (urlDecode pair) []
    | some eq => query.insert (urlDecode (pair.take eq)) (urlDecode (pair.drop (eq + 1)))

/-- `parse_query_string`. -/
def parseQueryString (queryStr : Bytes) (query : StrMap) : StrMap :=
  (getlines 38 queryStr).foldl parsePair query

/-- `parse_request_line`; `none` is `false`. -/
def parseRequestLine (line : Bytes) (req : HttpRequest) : Option HttpRequest :=
  let (method, rest) := word line
  let (url, rest) := word rest
  let (version, _) := word rest
  -- `>>` skips white space and fails on an empty word; what follows the third is ignored
  if method = [] ∨ url = [] ∨ version = [] then none
  else
    let req := { req with method := method.map toupper, version := version }
    let req :=
      match find [63] url with
      | none => { req with path := urlDecode url }
      | some q =>
          { req with
            path := urlDecode (url.take q)
            query := parseQueryString (url.drop (q + 1)) req.query }
    -- the path is looked at decoded, the query is not looked at
    if (find (bytes "..") req.path).isSome then none else some req

/-- `parse_header_line`; `none` is `false`. -/
def parseHeaderLine (line : Bytes) (req : HttpRequest) : Option HttpRequest :=
  match find [58] line with
  | none => none
  | some colon =>
      let key := toLower (trim (line.take colon))
      let val := trim (line.drop (colon + 1))
      if key = [] then none else some { req with headers := req.headers.insert key val }

/-- The end of the header block. -/
def headerEnd : Bytes := bytes "\r\n\r\n"

/-- The largest body `parse` reads. -/
def maxBody : Int := 10 * 1024 * 1024

/-- `if (!line.empty() && line.back() == '\r') line.pop_back();`. -/
def popCR (line : Bytes) : Bytes := if line.getLast? = some 13 then line.dropLast else line

/-- Steps 1 (end), 2, 3 and 4 of `parse`: from the string `read_until` returned to
    the request without its body. -/
def parseHead (headerBlock : Bytes) (req : HttpRequest) : Option HttpRequest :=
  let block :=
    -- the last four bytes go even when the stream ended before a blank line
    if 4 ≤ headerBlock.length then headerBlock.take (headerBlock.length - 4) else headerBlock
  match (getlines 10 block).map popCR with
  | [] => none
  | requestLine :: lines =>
      (parseRequestLine requestLine req).map fun req =>
        (lines.takeWhile (· ≠ [])).foldl
          -- the result of `parse_header_line` is not looked at: a bad line is skipped
          (fun req line => (parseHeaderLine line req).getD req) req

/-- `parse`; `none` is `false`. -/
def parse (conn : Connection) (r : RecvScript) (req : HttpRequest) :
    Option HttpRequest × Connection × RecvScript :=
  let (headerBlock, conn, r) := conn.readUntil r headerEnd
  if headerBlock = [] then (none, conn, r)
  else
    match parseHead headerBlock req with
    | none => (none, conn, r)
    | some req =>
        let cl := req.contentLength
        if 0 < cl then
          -- refused before a byte of the body is read
          if maxBody < cl then (none, conn, r)
          else
            let (body, conn, r) := conn.readExact r cl.toNat
            -- `read_exact` may fall short, and the request is taken as it is
            (some { req with body := body }, conn, r)
        else (some req, conn, r)

/-! ## The same on a byte stream -/

/-- What `read_until` returns on the stream `p`, what it leaves, and whether it
    came to the end. -/
def splitHead (p : Bytes) : Bytes × Bytes × Bool :=
  match find headerEnd p with
  | some pos => (p.take (pos + 4), p.drop (pos + 4), false)
  | none => (p, [], true)

/-- Step 5 of `parse` with `left` to be read. -/
def bodyStream (req : HttpRequest) (left : Bytes) (atEnd : Bool) :
    Option HttpRequest × Bytes × Bool :=
  let cl := req.contentLength
  if 0 < cl then
    if maxBody < cl then (none, left, atEnd)
    else
      (some { req with body := left.take cl.toNat }, left.drop cl.toNat,
        atEnd || decide (left.length < cl.toNat))
  else (some req, left, atEnd)

/-- `parse` on the stream `p`: the request, the bytes left, and whether it came to
    the end of the stream. -/
def parseStream (p : Bytes) (req : HttpRequest) : Option HttpRequest × Bytes × Bool :=
  let (headerBlock, left, atEnd) := splitHead p
  if headerBlock = [] then (none, left, atEnd)
  else
    match parseHead headerBlock req with
    | none => (none, left, atEnd)
    | some req => bodyStream req left atEnd

/-- Without a positive length there is no body. -/
theorem bodyStream_nonpos {req : HttpRequest} (h : req.contentLength ≤ 0) (left : Bytes)
    (atEnd : Bool) : bodyStream req left atEnd = (some req, left, atEnd) := by
  simp [bodyStream, not_lt.mpr h]

/-- A positive length within the limit: that many bytes, or all there are. -/
theorem bodyStream_pos {req : HttpRequest} {n : Nat} (h : req.contentLength = n) (hpos : 0 < n)
    (hmax : (n : Int) ≤ maxBody) (left : Bytes) (atEnd : Bool) :
    bodyStream req left atEnd
      = (some { req with body := left.take n }, left.drop n,
          atEnd || decide (left.length < n)) := by
  have hpos' : (0 : Int) < n := by omega
  simp only [bodyStream, h, if_pos hpos', if_neg (not_lt.mpr hmax), Int.toNat_natCast]

theorem bodyStream_large {req : HttpRequest} (h : maxBody < req.contentLength) (left : Bytes)
    (atEnd : Bool) : bodyStream req left atEnd = (none, left, atEnd) := by
  have hpos : 0 < req.contentLength := lt_trans (by decide) h
  simp only [bodyStream, if_pos hpos, if_pos h]

/-- `parse` takes at least one byte of a stream that has one. -/
theorem parseStream_left {p : Bytes} (hp : p ≠ []) (req : HttpRequest) :
    (parseStream p req).2.1.length < p.length := by
  have hshort : (splitHead p).1 ≠ [] ∧ (splitHead p).2.1.length < p.length := by
    have hpos := List.length_pos_iff.mpr hp
    unfold splitHead
    split
    · refine ⟨fun hnil => ?_, ?_⟩
      · have hlen := congrArg List.length hnil
        rw [List.length_take, List.length_nil] at hlen
        omega
      · rw [List.length_drop]
        omega
    · exact ⟨hp, by simpa using hpos⟩
  unfold parseStream
  generalize splitHead p = head at hshort ⊢
  obtain ⟨block, left, atEnd⟩ := head
  obtain ⟨hne, hlt⟩ := hshort
  simp only [if_neg hne]
  cases parseHead block req with
  | none => exact hlt
  | some r =>
      simp only [bodyStream]
      split
      · split
        · exact hlt
        · exact (by simp : (left.drop _).length ≤ left.length).trans_lt hlt
      · exact hlt

theorem readUntil_yields (conn : Connection) (r : RecvScript) :
    Connection.Yields conn (conn.readUntil r headerEnd) (splitHead (conn.pending r)).1
      (splitHead (conn.pending r)).2.1 (splitHead (conn.pending r)).2.2 := by
  unfold splitHead
  cases hfind : find headerEnd (conn.pending r) with
  | none => exact conn.readUntil_none r hfind
  | some pos => exact conn.readUntil_some r hfind

/-- **`parse` reads the stream.** Its result, the bytes it leaves and whether it
    closes the connection are those of `parseStream`, whatever the chunks. -/
theorem parse_yields (conn : Connection) (r : RecvScript) (req : HttpRequest) :
    (parse conn r req).1 = (parseStream (conn.pending r) req).1 ∧
      (parse conn r req).2.1.pending (parse conn r req).2.2
        = (parseStream (conn.pending r) req).2.1 ∧
      (parse conn r req).2.1.closed
        = (conn.closed || (parseStream (conn.pending r) req).2.2) ∧
      (parse conn r req).2.1.fd = conn.fd := by
  obtain ⟨hblock, hleft, hclosed, hfd⟩ := readUntil_yields conn r
  unfold parse parseStream
  generalize conn.readUntil r headerEnd = out at hblock hleft hclosed hfd ⊢
  generalize splitHead (conn.pending r) = head at hblock hleft hclosed ⊢
  obtain ⟨block, conn', r'⟩ := out
  obtain ⟨block', left, atEnd⟩ := head
  simp only at hblock hleft hclosed hfd ⊢
  subst hblock
  by_cases hempty : block = []
  · simp only [if_pos hempty]
    exact ⟨trivial, hleft, hclosed, hfd⟩
  simp only [if_neg hempty]
  cases hhead : parseHead block req with
  | none => exact ⟨rfl, hleft, hclosed, hfd⟩
  | some req' =>
      simp only [bodyStream]
      split
      next hpos =>
        split
        next => exact ⟨rfl, hleft, hclosed, hfd⟩
        next =>
          have hbody := conn'.readExact_spec r' req'.contentLength.toNat
          rw [hleft] at hbody
          obtain ⟨hresult, hleft', hclosed', hfd'⟩ := hbody
          refine ⟨by rw [hresult], hleft', ?_, hfd'.trans hfd⟩
          rw [hclosed', hclosed, Bool.or_assoc]
      next => exact ⟨rfl, hleft, hclosed, hfd⟩

end HttpParser

end CoroutineHttp.Http
