/-
  CoroutineHttp.Http.Accepted

  What the parser comes to.

  `WellFormed` says it without a stream: three words in their places, a path without
  `..`, header names and values as trimming and lower-casing leave them, and a body as
  long as `content_length` says.  Every request that is parsed in full is well-formed;
  one at whose end the stream ended may lack a part of its body.  So this is what a
  server hands to its middlewares and handlers, in every run.
-/

import CoroutineHttp.Http.Server

namespace CoroutineHttp.Http

open CoroutineHttp.Library CoroutineHttp.Net

/-! ## Well-formed requests -/

/-- A header name or value: without LF, and trimmed.  A CR may stand within it. -/
structure IsEntry (s : Bytes) : Prop where
  oneLine : 10 ∉ s
  head : ∀ b ∈ s.head?, HttpParser.isTrimmed b = false
  last : ∀ b ∈ s.getLast?, HttpParser.isTrimmed b = false

/-- A name under which a header is kept. -/
structure IsKey (key : Bytes) : Prop where
  entry : IsEntry key
  nonempty : key ≠ []
  noColon : 58 ∉ key
  lower : toLower key = key

namespace HttpRequest

/-- Headers as the parser keeps them. -/
def KeptHeaders (req : HttpRequest) : Prop :=
  ∀ key value : Bytes, req.headers[key]? = some value → IsKey key ∧ IsEntry value

/-- What the parser can come to, also when the stream ends within the body. -/
structure Shaped (req : HttpRequest) : Prop where
  method_token : IsToken req.method
  method_upper : ∀ b ∈ req.method, ¬ (97 ≤ b ∧ b ≤ 122)
  version_token : IsToken req.version
  safe : ¬ bytes ".." <:+: req.path
  headers : req.KeptHeaders
  length_le : (req.body.length : Int) ≤ max 0 req.contentLength
  body_le : req.body.length ≤ 10 * 1024 * 1024
  params : ∀ key : Bytes, req.params[key]? = none

/-- What it can come to before the stream ends. -/
structure WellFormed (req : HttpRequest) : Prop extends Shaped req where
  length : (req.body.length : Int) = max 0 req.contentLength

/-- Two requests that a handler cannot tell apart. -/
structure Agrees (req req' : HttpRequest) : Prop where
  method : req.method = req'.method
  path : req.path = req'.path
  version : req.version = req'.version
  body : req.body = req'.body
  headers : ∀ key : Bytes, req.headers[key]? = req'.headers[key]?
  query : ∀ key : Bytes, req.query[key]? = req'.query[key]?
  params : ∀ key : Bytes, req.params[key]? = req'.params[key]?

theorem Agrees.contentLength {req req' : HttpRequest} (h : req.Agrees req') :
    req.contentLength = req'.contentLength := by
  have hheader : req.header (bytes "content-length") []
      = req'.header (bytes "content-length") [] := by
    rw [HttpRequest.header, HttpRequest.header, h.headers]
  simp only [HttpRequest.contentLength, hheader]

theorem Agrees.wellFormed {req req' : HttpRequest} (h : req.Agrees req') (hreq : req.WellFormed) :
    req'.WellFormed where
  method_token := h.method ▸ hreq.method_token
  method_upper := h.method ▸ hreq.method_upper
  version_token := h.version ▸ hreq.version_token
  safe := h.path ▸ hreq.safe
  headers := fun key value hvalue => hreq.headers key value ((h.headers key).trans hvalue)
  length_le := h.body ▸ h.contentLength ▸ hreq.length_le
  length := h.body ▸ h.contentLength ▸ hreq.length
  body_le := h.body ▸ hreq.body_le
  params := fun key => (h.params key).symm.trans (hreq.params key)

end HttpRequest

/-! ## What is parsed is well-formed -/

section Pieces

variable {s : Bytes}

theorem mem_of_mem_trim {b : UInt8} (h : b ∈ HttpParser.trim s) : b ∈ s :=
  (List.dropWhile_suffix _).subset ((List.rdropWhile_prefix _ _).subset h)

/-- What trimming leaves is trimmed. -/
theorem isEntry_trim (h : 10 ∉ s) : IsEntry (HttpParser.trim s) := by
  refine ⟨fun hm => h (mem_of_mem_trim hm), fun b hb => ?_, fun b hb => ?_⟩
  · -- the first byte is the first one that is no blank
    obtain ⟨rest, hrest⟩ := List.rdropWhile_prefix HttpParser.isTrimmed
      (s.dropWhile HttpParser.isTrimmed)
    have hfirst : b ∈ (s.dropWhile HttpParser.isTrimmed).head? := by
      rw [← hrest]
      exact List.mem_head?_append_of_mem_head? hb
    have hne : s.dropWhile HttpParser.isTrimmed ≠ [] := by
      rintro hnil
      rw [hnil] at hfirst
      cases hfirst
    rw [List.head?_eq_some_head hne] at hfirst
    rw [← Option.some.inj hfirst]
    exact List.head_dropWhile_not HttpParser.isTrimmed hne
  · have hne : HttpParser.trim s ≠ [] := by
      rintro hnil
      rw [hnil] at hb
      cases hb
    rw [List.getLast?_eq_some_getLast hne] at hb
    rw [← Option.some.inj hb]
    exact Bool.not_eq_true _ ▸ List.rdropWhile_last_not HttpParser.isTrimmed
      (s.dropWhile HttpParser.isTrimmed) hne

/-- Lower-casing makes no LF, no colon and no blank. -/
theorem tolower_keeps (b : UInt8) : (tolower b = 10 → b = 10) ∧ (tolower b = 58 → b = 58) ∧
    HttpParser.isTrimmed (tolower b) = HttpParser.isTrimmed b :=
  forall_byte (P := fun b => (tolower b = 10 → b = 10) ∧ (tolower b = 58 → b = 58) ∧
    HttpParser.isTrimmed (tolower b) = HttpParser.isTrimmed b) (by decide +kernel) b

theorem IsEntry.toLower (h : IsEntry s) : IsEntry (toLower s) := by
  refine ⟨fun hm => ?_, fun b hb => ?_, fun b hb => ?_⟩
  · obtain ⟨b, hb, hlow⟩ := List.mem_map.mp hm
    exact h.oneLine ((tolower_keeps b).1 hlow ▸ hb)
  · rw [Library.toLower, List.head?_map] at hb
    obtain ⟨a, ha, rfl⟩ := Option.map_eq_some_iff.mp hb
    rw [(tolower_keeps a).2.2]
    exact h.head a ha
  · rw [Library.toLower, List.getLast?_map] at hb
    obtain ⟨a, ha, rfl⟩ := Option.map_eq_some_iff.mp hb
    rw [(tolower_keeps a).2.2]
    exact h.last a ha

theorem isKey_toLower_trim (h : 10 ∉ s) (hcolon : 58 ∉ s)
    (hne : toLower (HttpParser.trim s) ≠ []) : IsKey (toLower (HttpParser.trim s)) := by
  refine ⟨(isEntry_trim h).toLower, hne, fun hm => ?_, toLower_toLower _⟩
  obtain ⟨b, hb, hlow⟩ := List.mem_map.mp hm
  exact hcolon (mem_of_mem_trim ((tolower_keeps b).2.1 hlow ▸ hb))

/-- A word has no white space in it. -/
theorem isspace_of_mem_word {b : UInt8} (hb : b ∈ (word s).1) : isspace b = false := by
  simpa using List.mem_takeWhile_imp hb

theorem toupper_keeps (b : UInt8) : ¬ (97 ≤ toupper b ∧ toupper b ≤ 122) ∧
    (isspace b = false → isspace (toupper b) = false) :=
  forall_byte (P := fun b => ¬ (97 ≤ toupper b ∧ toupper b ≤ 122) ∧
    (isspace b = false → isspace (toupper b) = false)) (by decide +kernel) b

end Pieces

namespace HttpParser

theorem keptHeaders_line {line : Bytes} (hline : 10 ∉ line) {req : HttpRequest}
    (h : req.KeptHeaders) : ((parseHeaderLine line req).getD req).KeptHeaders := by
  unfold parseHeaderLine
  cases hfind : find [58] line with
  | none => exact h
  | some colon =>
      dsimp only
      split
      · exact h
      next hne =>
        intro key value hvalue
        rw [Option.getD_some] at hvalue
        by_cases hkey : toLower (trim (line.take colon)) = key
        · subst hkey
          simp only [Std.TreeMap.getElem?_insert_self, Option.some.injEq] at hvalue
          rw [← hvalue]
          exact ⟨isKey_toLower_trim (fun hm => hline (List.mem_of_mem_take hm))
              (not_mem_take_of_find hfind) hne,
            isEntry_trim fun hm => hline (List.mem_of_mem_drop hm)⟩
        · apply h key value
          rwa [Std.TreeMap.getElem?_insert, if_neg] at hvalue
          rwa [Std.LawfulEqOrd.compare_eq_iff_eq]

/-- What `parse_request_line` makes of a line. -/
theorem parseRequestLine_wellFormed {line : Bytes} {req : HttpRequest}
    (h : parseRequestLine line .init = some req) :
    IsToken req.method ∧ (∀ b ∈ req.method, ¬ (97 ≤ b ∧ b ≤ 122)) ∧ IsToken req.version ∧
      ¬ bytes ".." <:+: req.path ∧ req.headers = ∅ ∧ req.body = [] ∧ req.params = ∅ := by
  have hmethod : (word line).1 ≠ [] → IsToken ((word line).1.map toupper) ∧
      ∀ b ∈ (word line).1.map toupper, ¬ (97 ≤ b ∧ b ≤ 122) := by
    intro hne
    refine ⟨⟨by simpa using hne, fun b hb => ?_⟩, fun b hb => ?_⟩
    · obtain ⟨a, ha, rfl⟩ := List.mem_map.mp hb
      exact (toupper_keeps a).2 (isspace_of_mem_word ha)
    · obtain ⟨a, -, rfl⟩ := List.mem_map.mp hb
      exact (toupper_keeps a).1
  have hversion : ∀ {s : Bytes}, (word s).1 ≠ [] → IsToken (word s).1 := fun hne =>
    ⟨hne, fun _ hb => isspace_of_mem_word hb⟩
  unfold parseRequestLine at h
  dsimp only at h
  split at h
  next => cases h
  next hwords =>
    obtain ⟨hfirst, -, hthird⟩ : (word line).1 ≠ [] ∧ _ ∧
        (word (word (word line).2).2).1 ≠ [] := by simpa only [not_or] using hwords
    -- with a query or without, the path is looked at in the same way
    split at h <;> split at h
    next => cases h
    next hsafe =>
      cases h
      exact ⟨(hmethod hfirst).1, (hmethod hfirst).2, hversion hthird,
        not_infix_of_find_eq_none (by simpa using hsafe), rfl, rfl, rfl⟩
    next => cases h
    next hsafe =>
      cases h
      exact ⟨(hmethod hfirst).1, (hmethod hfirst).2, hversion hthird,
        not_infix_of_find_eq_none (by simpa using hsafe), rfl, rfl, rfl⟩

/-- The lines of a header block contain no LF. -/
theorem lf_not_mem_line {block line : Bytes} (h : line ∈ (getlines 10 block).map popCR) :
    10 ∉ line := by
  obtain ⟨raw, hraw, rfl⟩ := List.mem_map.mp h
  have hraw := not_mem_of_mem_getlines hraw
  unfold popCR
  split
  · exact fun hm => hraw (List.mem_of_mem_dropLast hm)
  · exact hraw

theorem keptHeaders_lines {lines : List Bytes} (hlines : ∀ line ∈ lines, 10 ∉ line)
    {req : HttpRequest} (h : req.KeptHeaders) :
    (lines.foldl (fun req line => (parseHeaderLine line req).getD req) req).KeptHeaders := by
  induction lines generalizing req with
  | nil => exact h
  | cons line lines ih =>
      obtain ⟨hline, hlines⟩ := List.forall_mem_cons.mp hlines
      exact ih hlines (keptHeaders_line hline h)

/-- What `parse` has before it reads the body: well-formed but for the body. -/
theorem parseHead_wellFormed {block : Bytes} {req : HttpRequest}
    (h : parseHead block .init = some req) :
    IsToken req.method ∧ (∀ b ∈ req.method, ¬ (97 ≤ b ∧ b ≤ 122)) ∧ IsToken req.version ∧
      ¬ bytes ".." <:+: req.path ∧ req.KeptHeaders ∧ req.body = [] ∧ req.params = ∅ := by
  unfold parseHead at h
  dsimp only at h
  generalize (if 4 ≤ block.length then block.take (block.length - 4) else block) = head at h
  cases hlines : (getlines 10 head).map popCR with
  | nil =>
      rw [hlines] at h
      cases h
  | cons line lines =>
      rw [hlines] at h
      obtain ⟨req₁, hline, rfl⟩ := Option.map_eq_some_iff.mp h
      obtain ⟨hmethod, hupper, hversion, hsafe, hheaders, hbody, hparams⟩ :=
        parseRequestLine_wellFormed hline
      have hkept : req₁.KeptHeaders := by
        intro key value hvalue
        rw [hheaders] at hvalue
        simp at hvalue
      have hno : ∀ l ∈ lines.takeWhile (· ≠ []), 10 ∉ l := by
        intro l hl
        have hl : l ∈ (getlines 10 head).map popCR := by
          rw [hlines]
          exact List.mem_cons_of_mem _ ((List.takeWhile_prefix _).subset hl)
        exact lf_not_mem_line hl
      have hkeeps := fun {β : Type} (g : HttpRequest → β) hg =>
        foldl_parseHeaderLine_keeps g hg (lines.takeWhile (· ≠ [])) req₁
      refine ⟨?_, ?_, ?_, ?_, keptHeaders_lines hno hkept, ?_, ?_⟩
      · rwa [hkeeps HttpRequest.method fun _ _ => rfl]
      · rwa [hkeeps HttpRequest.method fun _ _ => rfl]
      · rwa [hkeeps HttpRequest.version fun _ _ => rfl]
      · rwa [hkeeps HttpRequest.path fun _ _ => rfl]
      · rwa [hkeeps HttpRequest.body fun _ _ => rfl]
      · rwa [hkeeps HttpRequest.params fun _ _ => rfl]

/-- **What is parsed is well-formed**, unless the stream ended within the request. -/
theorem parseStream_wellFormed {p rest : Bytes} {req : HttpRequest} {atEnd : Bool}
    (h : parseStream p .init = (some req, rest, atEnd)) :
    req.Shaped ∧ (atEnd = false → req.WellFormed) := by
  unfold parseStream at h
  dsimp only at h
  split at h
  next => cases h
  next =>
    cases hhead : parseHead (splitHead p).1 .init with
    | none =>
        rw [hhead] at h
        cases h
    | some req₁ =>
        rw [hhead] at h
        obtain ⟨hmethod, hupper, hversion, hsafe, hheaders, hbody, hparams⟩ :=
          parseHead_wellFormed hhead
        have hnone : ∀ key : Bytes, req₁.params[key]? = none := by
          intro key
          rw [hparams]
          simp
        simp only [bodyStream] at h
        split at h
        next hpos =>
          split at h
          next => cases h
          next hmax =>
            simp only [Prod.mk.injEq, Option.some.injEq] at h
            obtain ⟨rfl, -, hend⟩ := h
            have htaken := List.length_take_le req₁.contentLength.toNat (splitHead p).2.1
            rw [maxBody] at hmax
            have hshaped : HttpRequest.Shaped
                { req₁ with body := (splitHead p).2.1.take req₁.contentLength.toNat } := by
              refine ⟨hmethod, hupper, hversion, hsafe, hheaders, ?_, ?_, hnone⟩
              · show (((splitHead p).2.1.take req₁.contentLength.toNat).length : Int)
                  ≤ max 0 req₁.contentLength
                omega
              · show ((splitHead p).2.1.take req₁.contentLength.toNat).length ≤ 10 * 1024 * 1024
                omega
            refine ⟨hshaped, fun hon => ⟨hshaped, ?_⟩⟩
            -- the body did not fall short
            rw [hon, Bool.or_eq_false_iff, decide_eq_false_iff_not, not_lt] at hend
            have hall : ((splitHead p).2.1.take req₁.contentLength.toNat).length
                = req₁.contentLength.toNat := List.length_take_of_le hend.2
            show (((splitHead p).2.1.take req₁.contentLength.toNat).length : Int)
              = max 0 req₁.contentLength
            omega
        next hpos =>
          simp only [Prod.mk.injEq, Option.some.injEq] at h
          obtain ⟨rfl, -, -⟩ := h
          have hlength : (req₁.body.length : Int) = max 0 req₁.contentLength := by
            rw [hbody, List.length_nil]
            omega
          have hshaped : req₁.Shaped :=
            ⟨hmethod, hupper, hversion, hsafe, hheaders, hlength.le, by simp [hbody], hnone⟩
          exact ⟨hshaped, fun _ => ⟨hshaped, hlength⟩⟩

/-- `parse` comes to the end of the stream only if it takes all of it. -/
theorem parseStream_atEnd {p : Bytes} {req : HttpRequest}
    (h : (parseStream p req).2.2 = true) : (parseStream p req).2.1 = [] := by
  have hhead : (splitHead p).2.2 = true → (splitHead p).2.1 = [] := by
    unfold splitHead
    cases find headerEnd p with
    | none => exact fun _ => rfl
    | some pos => exact fun h => absurd h Bool.false_ne_true
  have hbody : ∀ req left atEnd, (atEnd = true → left = []) →
      (bodyStream req left atEnd).2.2 = true →
        (bodyStream req left atEnd).2.1 = [] := by
    intro req left atEnd hleft hend
    unfold bodyStream at hend ⊢
    dsimp only at hend ⊢
    split at hend
    next hpos =>
      rw [if_pos hpos]
      split at hend
      next hlarge =>
        rw [if_pos hlarge]
        exact hleft hend
      next hlarge =>
        rw [if_neg hlarge]
        rcases Bool.or_eq_true_iff.mp hend with hend | hshort
        · rw [hleft hend, List.drop_nil]
        · exact List.drop_of_length_le (le_of_lt (of_decide_eq_true hshort))
    next hpos =>
      rw [if_neg hpos]
      exact hleft hend
  unfold parseStream at h ⊢
  dsimp only at h ⊢
  split at h
  next hnil =>
    rw [if_pos hnil]
    exact hhead h
  next hnil =>
    rw [if_neg hnil]
    cases hreq : parseHead (splitHead p).1 req with
    | none =>
        rw [hreq] at h
        exact hhead h
    | some req' =>
        rw [hreq] at h
        exact hbody _ _ _ hhead h

theorem parse_wellFormed {fd : Core.Fd} {r : RecvScript} {req : HttpRequest}
    (h : (parse (.init fd) r .init).1 = some req)
    (hopen : (parse (.init fd) r .init).2.1.closed = false) : req.WellFormed := by
  obtain ⟨hreq, -, hclosed, -⟩ := parse_yields (.init fd) r .init
  rw [h] at hreq
  rw [hopen] at hclosed
  obtain ⟨-, hend⟩ := Bool.or_eq_false_iff.mp hclosed.symm
  exact (parseStream_wellFormed (Prod.ext hreq.symm (Prod.ext rfl rfl))).2 hend

end HttpParser

/-! ## What a handler gets -/

namespace HttpServer

/-- **What middlewares and handlers get.** In every run of every server: a request that is
    parsed has the shape of a request that was sent in full, and is one, unless the
    stream ended with it. -/
theorem requests_wellFormed (srv : HttpServer) (k : Nat) (w : Wire) {x : Exchange}
    (hx : x ∈ (srv.handleConnection k w).1) {req : HttpRequest} (hreq : x.request = some req) :
    req.Shaped ∧ (x.left ≠ [] → req.WellFormed) := by
  obtain ⟨before, after, hsplit⟩ := List.append_of_mem hx
  obtain ⟨k', w', hopen, rfl, -⟩ := handleConnection_split hsplit
  obtain ⟨hparsed, hleft, -, -⟩ := HttpParser.parse_yields w'.conn w'.recv .init
  have hstream : HttpParser.parseStream (w'.conn.pending w'.recv) .init
      = (some req, (srv.turn k' w').exchange.left,
          (HttpParser.parseStream (w'.conn.pending w'.recv) .init).2.2) :=
    Prod.ext (hparsed.symm.trans hreq) (Prod.ext hleft.symm rfl)
  obtain ⟨hshaped, hwell⟩ := HttpParser.parseStream_wellFormed hstream
  refine ⟨hshaped, fun hne => hwell ?_⟩
  rw [← Bool.not_eq_true]
  intro hend
  exact hne (hleft.trans (HttpParser.parseStream_atEnd hend))

/-- A request with another byte behind it. -/
theorem requests_wellFormed_get :
    ∃ req, ((⟨[], []⟩ : HttpServer).turn 0 (.accept 5
        ⟨[.data 71 (bytes "ET / HTTP/1.1\r\n\r\nG")], .eof⟩ [])).exchange.request = some req ∧
      req.WellFormed := by
  have hparsed : ((⟨[], []⟩ : HttpServer).turn 0 (.accept 5
      ⟨[.data 71 (bytes "ET / HTTP/1.1\r\n\r\nG")], .eof⟩ [])).exchange.request.isSome = true := by
    decide +kernel
  obtain ⟨req, hreq⟩ := Option.isSome_iff_exists.mp hparsed
  have hopen : (Wire.accept 5 ⟨[.data 71 (bytes "ET / HTTP/1.1\r\n\r\nG")], .eof⟩
      []).conn.closed = false := rfl
  exact ⟨req, hreq, (requests_wellFormed ⟨[], []⟩ 0 _ (exchange_mem_handleConnection hopen)
    hreq).2 (by decide +kernel)⟩

end HttpServer

end CoroutineHttp.Http
