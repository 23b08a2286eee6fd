/-
  CoroutineHttp.Http.Framing

  How `parse` delimits the body, on arbitrary byte streams.  The length goes
  through three lossy steps: reading headers stops at the first empty line, the
  header map keeps the last value, and `stoi` accepts more than numerals and
  throws on others.  `framed_iff` says for which streams the body is nevertheless
  the one all `Content-Length` lines of the header block declare.
-/

import CoroutineHttp.Http.RoundTrip

namespace CoroutineHttp.Http

open CoroutineHttp.Library CoroutineHttp.Net

namespace HttpParser

/-! ## The lines of the header block -/

/-- The value of a `Content-Length` field line. -/
def lengthField (line : Bytes) : Option Bytes :=
  match find [58] line with
  | none => none
  | some colon =>
      if toLower (trim (line.take colon)) = bytes "content-length" then
        some (trim (line.drop (colon + 1)))
      else none

/-- The lines of the header block that ends at `pos`. -/
def blockLines (p : Bytes) (pos : Nat) : List Bytes := (getlines 10 (p.take pos)).map popCR

/-- The values of all `Content-Length` lines of the block. -/
def lengthFields (p : Bytes) (pos : Nat) : List Bytes :=
  (blockLines p pos).tail.filterMap lengthField

/-- The last `Content-Length` value before the first empty line of the block. -/
def lastLength (p : Bytes) (pos : Nat) : Option Bytes :=
  (((blockLines p pos).tail.takeWhile (· ≠ [])).filterMap lengthField).getLast?

/-- What `content_length` makes of a value. -/
def lengthOf : Option Bytes → Int
  | none => -1
  | some v => if v = [] then -1 else (stoi v).getD (-1)

/-- `parse_request_line` refuses the first line, or there is none. -/
def Refused (p : Bytes) (pos : Nat) : Prop :=
  ∀ line ∈ (blockLines p pos).head?, parseRequestLine line .init = none

/-- One header line and the `Content-Length` entry of the map. -/
theorem parseHeaderLine_length (line : Bytes) (req : HttpRequest) :
    ((parseHeaderLine line req).getD req).headers[bytes "content-length"]?
      = (lengthField line).or req.headers[bytes "content-length"]? := by
  unfold parseHeaderLine lengthField
  cases find [58] line with
  | none => rfl
  | some colon =>
      simp only
      by_cases hkey : toLower (trim (line.take colon)) = bytes "content-length"
      · have hne : bytes "content-length" ≠ [] := by decide
        simp [hkey, hne]
      · simp only [if_neg hkey, Option.none_or]
        split
        · rfl
        · rw [Option.getD_some, Std.TreeMap.getElem?_insert, if_neg]
          rwa [Std.LawfulEqOrd.compare_eq_iff_eq]

/-- All header lines: the last value wins. -/
theorem foldl_parseHeaderLine_length (lines : List Bytes) (req : HttpRequest) :
    (lines.foldl (fun req line => (parseHeaderLine line req).getD req) req).headers[
        bytes "content-length"]?
      = (lines.filterMap lengthField).getLast?.or req.headers[bytes "content-length"]? := by
  induction lines generalizing req with
  | nil => rfl
  | cons line lines ih =>
      rw [List.foldl_cons, ih, parseHeaderLine_length, List.filterMap_cons]
      cases lengthField line with
      | none => rw [Option.none_or]
      -- a later line overrides it, if there is one
      | some v =>
          cases hlast : (lines.filterMap lengthField).getLast? with
          | none =>
              rw [List.getLast?_eq_none_iff] at hlast
              simp [hlast]
          | some w => simp [List.getLast?_cons, hlast]

/-- Header lines touch nothing but the header map. -/
theorem foldl_parseHeaderLine_keeps {β : Type} (g : HttpRequest → β)
    (hg : ∀ (req : HttpRequest) (m : StrMap), g { req with headers := m } = g req)
    (lines : List Bytes) (req : HttpRequest) :
    g (lines.foldl (fun req line => (parseHeaderLine line req).getD req) req) = g req := by
  induction lines generalizing req with
  | nil => rfl
  | cons line lines ih =>
      have hline : g ((parseHeaderLine line req).getD req) = g req := by
        unfold parseHeaderLine
        split
        · rfl
        · simp only
          split
          · rfl
          · exact hg req _
      rw [List.foldl_cons, ih, hline]

theorem parseRequestLine_headers {line : Bytes} {req req' : HttpRequest}
    (h : parseRequestLine line req = some req') : req'.headers = req.headers ∧
      req'.body = req.body := by
  unfold parseRequestLine at h
  simp only at h
  split at h
  next => cases h
  next =>
    split at h <;> split at h
    all_goals cases h
    all_goals exact ⟨rfl, rfl⟩

/-- The declared length after all header lines of a new request. -/
theorem contentLength_foldl {req : HttpRequest} (h : req.headers = ∅) (lines : List Bytes) :
    (lines.foldl (fun req line => (parseHeaderLine line req).getD req) req).contentLength
      = lengthOf (lines.filterMap lengthField).getLast? := by
  have hlength := foldl_parseHeaderLine_length lines req
  have hnone : req.headers[bytes "content-length"]? = none := by
    rw [h]
    rfl
  have hlow : toLower (bytes "content-length") = bytes "content-length" := by decide
  rw [hnone, Option.or_none] at hlength
  simp only [HttpRequest.contentLength, HttpRequest.header, hlow, hlength]
  cases (lines.filterMap lengthField).getLast? <;> simp [lengthOf]

/-- **The head of a request.** On a block that ends at `pos`, the request line
    decides between refusal and success, and the declared length is that of
    `lastLength`. -/
theorem parseHead_block {p : Bytes} {pos : Nat} (hfind : find headerEnd p = some pos) :
    (Refused p pos ∧ parseHead (p.take (pos + 4)) .init = none) ∨
      (¬ Refused p pos ∧ ∃ req, parseHead (p.take (pos + 4)) .init = some req ∧
        req.contentLength = lengthOf (lastLength p pos) ∧ req.body = []) := by
  have hle := find_le hfind
  have hend : headerEnd.length = 4 := by decide
  rw [hend] at hle
  have hlen : (p.take (pos + 4)).length = pos + 4 := List.length_take_of_le hle
  have hblock : (p.take (pos + 4)).take ((p.take (pos + 4)).length - 4) = p.take pos := by
    rw [hlen, Nat.add_sub_cancel, List.take_take, Nat.min_eq_left (by omega)]
  have hlines : (getlines 10 ((p.take (pos + 4)).take ((p.take (pos + 4)).length - 4))).map popCR
      = blockLines p pos := by rw [hblock]; rfl
  unfold parseHead Refused lastLength
  simp only [hlen, if_pos (show 4 ≤ pos + 4 by omega)] at hlines ⊢
  rw [hlines]
  -- the first line decides; the others only fill the map
  cases blockLines p pos with
  | nil => exact .inl ⟨by simp, rfl⟩
  | cons line lines =>
      cases hline : parseRequestLine line .init with
      | none => exact .inl ⟨by simp [hline], by simp [hline]⟩
      | some req =>
          obtain ⟨hheaders, hbody⟩ := parseRequestLine_headers hline
          refine .inr ⟨by simp [hline], (lines.takeWhile (· ≠ [])).foldl
            (fun req line => (parseHeaderLine line req).getD req) req,
            by simp only [hline, Option.map_some], ?_, ?_⟩
          · exact contentLength_foldl hheaders _
          · rw [foldl_parseHeaderLine_keeps HttpRequest.body fun _ _ => rfl, hbody]
            rfl

/-! ## Framing -/

/-- The body is the one the header block declares: if `parse` succeeds and the
    block has `Content-Length` lines, all carry one numeral for some
    `n ≤ 10 MiB`, and the body is exactly the `n` bytes after the block. -/
def Framed (p : Bytes) (out : Option HttpRequest × Connection × RecvScript) : Prop :=
  ∀ req pos, out.1 = some req → find headerEnd p = some pos → lengthFields p pos ≠ [] →
    ∃ v n, (∀ f ∈ lengthFields p pos, f = v) ∧ IsDecimal v n ∧ n ≤ 10 * 1024 * 1024 ∧
      n ≤ (p.drop (pos + 4)).length ∧ req.body = (p.drop (pos + 4)).take n ∧
      out.2.1.pending out.2.2 = (p.drop (pos + 4)).drop n

/-- The streams on which framing holds: the request line is refused, or the value
    that counts is above the limit, or there is no `Content-Length` line, or all
    lines carry one numeral within the limit, and either it is zero or a line with
    it stands before the first empty line and the stream has that many bytes after
    the block. -/
def FramingOk (p : Bytes) : Prop :=
  ∀ pos, find headerEnd p = some pos →
    Refused p pos ∨ maxBody < lengthOf (lastLength p pos) ∨ lengthFields p pos = [] ∨
      ∃ v n, (∀ f ∈ lengthFields p pos, f = v) ∧ IsDecimal v n ∧ n ≤ 10 * 1024 * 1024 ∧
        (n = 0 ∨ ((lastLength p pos).isSome ∧ n ≤ (p.drop (pos + 4)).length))

theorem mem_lengthFields_of_lastLength {p : Bytes} {pos : Nat} {v : Bytes}
    (h : lastLength p pos = some v) : v ∈ lengthFields p pos := by
  have hmem := List.mem_of_getLast? h
  obtain ⟨line, hline, hv⟩ := List.mem_filterMap.mp hmem
  exact List.mem_filterMap.mpr ⟨line, (List.takeWhile_sublist _).subset hline, hv⟩

/-- A numeral within the limit declares its value. -/
theorem lengthOf_decimal {v : Bytes} {n : Nat} (hv : IsDecimal v n)
    (hn : n ≤ 10 * 1024 * 1024) : lengthOf (some v) = n := by
  obtain ⟨hne, hdigits, hvalue⟩ := hv
  have hlt : decimalValue v < 2 ^ 31 := by omega
  simp [lengthOf, hne, stoi_of_digits hne hdigits hlt, hvalue]

/-- `parse` on a stream with a complete, accepted header block. -/
theorem parse_block {p : Bytes} {pos : Nat} (hfind : find headerEnd p = some pos)
    {req : HttpRequest} (hhead : parseHead (p.take (pos + 4)) .init = some req) :
    parseStream p .init = bodyStream req (p.drop (pos + 4)) false := by
  have hle := find_le hfind
  have hend : headerEnd.length = 4 := by decide
  rw [hend] at hle
  have hne : p.take (pos + 4) ≠ [] := by
    intro hnil
    have := congrArg List.length hnil
    rw [List.length_take_of_le hle] at this
    simp at this
  simp only [parseStream, splitHead, hfind, if_neg hne, hhead]

/-- The property, on the reference parser. -/
def FramedStream (p : Bytes) (out : Option HttpRequest) (left : Bytes) : Prop :=
  ∀ req pos, out = some req → find headerEnd p = some pos → lengthFields p pos ≠ [] →
    ∃ v n, (∀ f ∈ lengthFields p pos, f = v) ∧ IsDecimal v n ∧ n ≤ 10 * 1024 * 1024 ∧
      n ≤ (p.drop (pos + 4)).length ∧ req.body = (p.drop (pos + 4)).take n ∧
      left = (p.drop (pos + 4)).drop n

theorem FramedStream.ok {p left : Bytes} {atEnd : Bool} {out : Option HttpRequest}
    (hframed : FramedStream p out left) (hstream : parseStream p .init = (out, left, atEnd)) :
    FramingOk p := by
  intro pos hfind
  rcases parseHead_block hfind with ⟨hrefused, -⟩ | ⟨-, req, hhead, hcl, hbody⟩
  · exact .inl hrefused
  rw [parse_block hfind hhead] at hstream
  by_cases hlarge : maxBody < lengthOf (lastLength p pos)
  · exact .inr (.inl hlarge)
  by_cases hnil : lengthFields p pos = []
  · exact .inr (.inr (.inl hnil))
  refine .inr (.inr (.inr ?_))
  by_cases hpos : 0 < req.contentLength
  · -- a body was read: the value that counts is there
    obtain ⟨c, hc⟩ := Int.eq_ofNat_of_zero_le hpos.le
    have hc0 : 0 < c := by omega
    rw [bodyStream_pos hc hc0 (by rw [← hc, hcl]; exact not_lt.mp hlarge)] at hstream
    cases hstream
    obtain ⟨v, n, hall, hdec, hn, hle, -, -⟩ := hframed _ pos rfl hfind hnil
    refine ⟨v, n, hall, hdec, hn, .inr ⟨?_, hle⟩⟩
    cases hlast : lastLength p pos with
    | none => simp [hcl, hlast, lengthOf] at hpos
    | some w => rfl
  · -- no body was read: the declared length can only be zero
    rw [bodyStream_nonpos (not_lt.mp hpos)] at hstream
    cases hstream
    obtain ⟨v, n, hall, hdec, hn, hle, htake, -⟩ := hframed _ pos rfl hfind hnil
    refine ⟨v, n, hall, hdec, hn, .inl ?_⟩
    rw [hbody] at htake
    have hlen := congrArg List.length htake
    rw [List.length_take_of_le hle] at hlen
    exact hlen.symm

theorem FramingOk.framed {p left : Bytes} {atEnd : Bool} {out : Option HttpRequest}
    (hok : FramingOk p) (hstream : parseStream p .init = (out, left, atEnd)) :
    FramedStream p out left := by
  intro req pos hout hfind hne
  rcases parseHead_block hfind with ⟨-, hhead⟩ | ⟨hacc, req', hhead, hcl, hbody⟩
  · have hnone : (parseStream p .init).1 = none := by
      simp only [parseStream, splitHead, hfind, hhead]
      split <;> rfl
    rw [hstream] at hnone
    cases hout.symm.trans hnone
  rw [parse_block hfind hhead] at hstream
  rcases hok pos hfind with hrefused | hlarge | hnil | ⟨v, n, hall, hdec, hn, hzero⟩
  · exact absurd hrefused hacc
  · rw [bodyStream_large (hcl ▸ hlarge)] at hstream
    cases hstream
    cases hout
  · exact absurd hnil hne
  · refine ⟨v, n, hall, hdec, hn, ?_⟩
    cases hlast : lastLength p pos with
    | none =>
        -- the lines stand behind an empty line and are not read
        obtain rfl : n = 0 := by simpa [hlast] using hzero
        have hnonpos : req'.contentLength ≤ 0 := by simp [hcl, hlast, lengthOf]
        rw [bodyStream_nonpos hnonpos] at hstream
        cases hstream
        cases hout
        exact ⟨Nat.zero_le _, by simp [hbody], rfl⟩
    | some w =>
        obtain rfl : w = v := hall w (mem_lengthFields_of_lastLength hlast)
        rw [hlast, lengthOf_decimal hdec hn] at hcl
        rcases Nat.eq_zero_or_pos n with rfl | hn0
        · rw [bodyStream_nonpos (by simp [hcl])] at hstream
          cases hstream
          cases hout
          exact ⟨Nat.zero_le _, by simp [hbody], rfl⟩
        · have hle : n ≤ (p.drop (pos + 4)).length := by
            rcases hzero with h0 | ⟨-, hle⟩
            · omega
            · exact hle
          have hmax : (n : Int) ≤ maxBody := by
            simp only [maxBody]
            omega
          rw [bodyStream_pos hcl hn0 hmax] at hstream
          cases hstream
          cases hout
          exact ⟨hle, rfl, rfl⟩

/-- **Framing.** On a new connection `parse` takes as body what the header block
    declares if and only if the stream meets `FramingOk`, whatever the chunks. -/
theorem framed_iff (fd : Core.Fd) (r : RecvScript) :
    Framed r.bytes (parse (.init fd) r .init) ↔ FramingOk r.bytes := by
  obtain ⟨hreq, hleft, -, -⟩ := parse_yields (.init fd) r .init
  have hpending : (Connection.init fd).pending r = r.bytes := by
    simp [Connection.pending, Connection.init]
  rw [hpending] at hreq hleft
  unfold Framed
  rw [hreq, hleft]
  exact ⟨fun h => FramedStream.ok h rfl, fun h => h.framed rfl⟩

/-- Two different lengths, the last of which wins: the rest of the first body is
    left to be parsed as the next request. -/
theorem not_framed_conflicting :
    ¬ ∀ (fd : Core.Fd) (r : RecvScript), Framed r.bytes (parse (.init fd) r .init) := by
  intro hframes
  let r : RecvScript :=
    ⟨[.data 80 (bytes "OST / HTTP/1.1\r\nContent-Length: 4\r\nContent-Length: 0\r\n\r\nGET ")],
      .eof⟩
  have hsome : (parseStream r.bytes .init).1.isSome := by decide +kernel
  obtain ⟨req, hreq⟩ := Option.isSome_iff_exists.mp hsome
  have hparse : (parse (.init 5) r .init).1 = some req := by
    obtain ⟨h, -⟩ := parse_yields (.init 5) r .init
    rw [h, ← hreq]
    rfl
  have hfind : find headerEnd r.bytes = some 53 := by decide +kernel
  have hfields : lengthFields r.bytes 53 = [bytes "4", bytes "0"] := by decide +kernel
  obtain ⟨v, n, hall, -⟩ := hframes 5 r req 53 hparse hfind (by simp [hfields])
  rw [hfields] at hall
  have h4 := hall (bytes "4") (by simp)
  have h0 := hall (bytes "0") (by simp)
  exact absurd (h4.trans h0.symm) (by decide)

end HttpParser

end CoroutineHttp.Http
