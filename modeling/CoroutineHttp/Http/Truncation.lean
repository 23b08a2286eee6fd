/-
  CoroutineHttp.Http.Truncation

  Requests that are cut off by the end of the stream.  Both readers return what
  is left over as if it were a result, and `parse` drops the last four bytes of
  the header block without looking at them: `truncated_iff` says at which bytes
  of a well-formed request a cut is noticed.
-/

import CoroutineHttp.Http.Server

namespace CoroutineHttp.Http

open CoroutineHttp.Library CoroutineHttp.Net

/-! ## The lines of a cut header block -/

/-- Up to the end of the first line, its CR included, there is one line. -/
theorem getlines_cut_first {first b : Bytes} (hfirst : IsLine first) (hb : b <+: first ++ [13])
    (hne : b ≠ []) : (getlines 10 b).map HttpParser.popCR = [first.take b.length] := by
  have h10 : (10 : UInt8) ∉ b := fun hm => hfirst.lf_not_mem (hb.subset hm)
  rw [getlines_last h10 hne, List.map_singleton]
  rcases List.prefix_concat_iff.mp hb with rfl | hb
  · simp [popCR_append]
  · have h13 : (13 : UInt8) ∉ b := fun hm => (hfirst.oneLine 13 (hb.subset hm)).1 rfl
    rw [popCR_of_not_mem h13, ← List.prefix_iff_eq_take.mp hb]

/-- A cut block has the lines it had, each possibly cut, the first one by length. -/
theorem getlines_cut (first : Bytes) (lines : List Bytes) (hfirst : IsLine first)
    (hlines : ∀ line ∈ lines, IsLine line) {b : Bytes} (hb : b <+: first ++ joined lines)
    (hne : b ≠ []) :
    ∃ rest, (getlines 10 b).map HttpParser.popCR = first.take b.length :: rest ∧
      ∀ l ∈ rest, ∃ line ∈ lines, l <+: line := by
  -- on the lines; the cut falls into the first one, or behind it
  induction lines generalizing first b with
  | nil =>
      rw [joined, List.flatMap_nil, List.append_nil] at hb
      exact ⟨[], getlines_cut_first hfirst (hb.trans (List.prefix_append _ _)) hne, by simp⟩
  | cons line lines ih =>
      have hsplit : first ++ joined (line :: lines)
          = (first ++ [13]) ++ 10 :: (line ++ joined lines) := by
        simp [joined_cons]
      rw [hsplit] at hb
      rcases Nat.lt_or_ge (first ++ [13]).length b.length with hlen | hlen
      · -- the first line is complete
        obtain ⟨b', rfl⟩ := List.prefix_of_prefix_length_le (List.prefix_append _ _) hb hlen.le
        rw [List.prefix_append_right_inj] at hb
        cases b' with
        | nil => simp at hlen
        | cons c b' =>
            obtain ⟨rfl, hb'⟩ := List.cons_prefix_cons.mp hb
            have htake : first.take ((first ++ [13]) ++ 10 :: b').length = first :=
              List.take_of_length_le (by simp)
            rw [getlines_append hfirst.lf_not_mem, List.map_cons, popCR_append, htake]
            by_cases hnil : b' = []
            · exact ⟨[], by simp [hnil, getlines], by simp⟩
            · obtain ⟨rest, hrest, hcut⟩ := ih line (hlines line List.mem_cons_self)
                (fun l hl => hlines l (List.mem_cons_of_mem _ hl)) hb' hnil
              refine ⟨line.take b'.length :: rest, by rw [hrest], ?_⟩
              intro l hl
              rcases List.mem_cons.mp hl with rfl | hl
              · exact ⟨line, List.mem_cons_self, List.take_prefix _ _⟩
              · obtain ⟨l', hl', hpre⟩ := hcut l hl
                exact ⟨l', List.mem_cons_of_mem _ hl', hpre⟩
      · have hfirst' := List.prefix_of_prefix_length_le hb (List.prefix_append _ _) hlen
        exact ⟨[], getlines_cut_first hfirst hfirst' hne, by simp⟩

namespace WireRequest

variable (q : WireRequest)

/-- The first bytes of the request line, without a byte of the version, are
    refused. -/
theorem parseRequestLine_short {n : Nat} (hn : n ≤ q.method.length + q.target.length + 2)
    (req : HttpRequest) : HttpParser.parseRequestLine (q.requestLine.take n) req = none := by
  have hsep : isspace 32 = true := by decide
  have hline : q.requestLine = q.method ++ 32 :: (q.target ++ 32 :: q.version) := by
    simp [requestLine]
  have hversion : (word (word (word (q.requestLine.take n)).2).2).1 = [] := by
    have hnil : word [] = ([], []) := rfl
    rw [hline, List.take_append]
    rcases le_or_gt n q.method.length with hm | hm
    · -- within the method
      have hcut : ∀ b ∈ q.method.take n, isspace b = false := fun b hb =>
        q.method_token.noSpace b (List.mem_of_mem_take hb)
      rw [Nat.sub_eq_zero_of_le hm, List.take_zero, List.append_nil, word_self hcut]
      rfl
    · obtain ⟨k, hk⟩ := Nat.exists_eq_add_of_lt hm
      have hsub : n - q.method.length = k + 1 := by omega
      rw [List.take_of_length_le hm.le, hsub, List.take_succ_cons,
        word_append q.method_token.noSpace q.method_token.nonempty hsep,
        word_cons_space _ hsep, List.take_append]
      rcases le_or_gt k q.target.length with ht | ht
      · -- within the target
        have hcut : ∀ b ∈ q.target.take k, isspace b = false := fun b hb =>
          q.target_token.noSpace b (List.mem_of_mem_take hb)
        rw [Nat.sub_eq_zero_of_le ht, List.take_zero, List.append_nil, word_self hcut, hnil]
      · have hone : k - q.target.length = 1 := by omega
        rw [List.take_of_length_le ht.le, hone, List.take_succ_cons, List.take_zero,
          word_append q.target_token.noSpace q.target_token.nonempty hsep,
          word_cons_space _ hsep, hnil]
  simp only [HttpParser.parseRequestLine, hversion, or_true, if_true]

/-- With a byte of the version the cut request line is accepted. -/
theorem parseRequestLine_long {n : Nat} (hn : q.method.length + q.target.length + 2 < n) :
    ∃ req, HttpParser.parseRequestLine (q.requestLine.take n) .init = some req ∧
      req.headers = ∅ := by
  obtain ⟨k, rfl⟩ := Nat.exists_eq_add_of_lt hn
  have htoken : IsToken (q.version.take (k + 1)) := by
    obtain ⟨b, v, hv⟩ := List.exists_cons_of_ne_nil q.version_token.nonempty
    exact ⟨by simp [hv], fun b hb => q.version_token.noSpace b (List.mem_of_mem_take hb)⟩
  let cut : WireRequest := { q with version := q.version.take (k + 1), version_token := htoken }
  have hline : q.requestLine.take (q.method.length + q.target.length + 2 + k + 1)
      = cut.requestLine := by
    have hsplit : q.requestLine = (q.method ++ 32 :: q.target ++ [32]) ++ q.version := by
      simp [requestLine]
    have hlen : (q.method ++ 32 :: q.target ++ [32]).length
        = q.method.length + q.target.length + 2 := by
      simp
      omega
    rw [hsplit, Nat.add_assoc, ← hlen, List.take_length_add_append]
    simp [requestLine, cut]
  rw [hline, cut.parseRequestLine_eq]
  exact ⟨_, rfl, rfl⟩

theorem trim_digits {w : Bytes} (h : ∀ b ∈ w, isdigit b = true) :
    HttpParser.trim (32 :: w) = w := by
  have hkeep : ∀ b ∈ w, HttpParser.isTrimmed b = false := fun b hb =>
    forall_byte (P := fun b => isdigit b = true → HttpParser.isTrimmed b = false)
      (by decide +kernel) b (h b hb)
  have hblank : HttpParser.trim ([32] ++ w) = HttpParser.trim w :=
    trimWith_append_left w (by simp [HttpParser.isTrimmed])
  exact hblank.trans (trimWith_eq_self (fun b hb => hkeep b (List.mem_of_mem_head? hb))
    fun b hb => hkeep b (List.mem_of_getLast? hb))

/-- The value of a cut `Content-Length` line is a first part of the numeral. -/
theorem lengthField_cut {h : Bytes × Bytes} (hh : h ∈ q.headers) {l v : Bytes}
    (hl : l <+: headerLine h) (hv : HttpParser.lengthField l = some v) :
    v <+: h.2 ∧ IsDecimal h.2 q.body.length := by
  obtain ⟨hname, -, hcolon⟩ := q.names h hh
  have hline := headerLine_eq h
  obtain ⟨tail, htail⟩ := hl
  unfold HttpParser.lengthField at hv
  cases hfind : find [58] l with
  | none => simp [hfind] at hv
  | some colon =>
      -- the colon of the cut line is the one behind the name
      have hcut := find_append hfind tail
      rw [htail, hline, find_skip hcolon] at hcut
      have hc : colon = h.1.length := by simpa [find] using hcut.symm
      have hle : h.1.length + 1 ≤ l.length := by simpa [hc] using find_le hfind
      rw [hline] at htail
      obtain ⟨w, rfl⟩ : ∃ w, l = h.1 ++ 58 :: w := by
        have hpre : h.1 ++ [58] <+: l :=
          List.prefix_of_prefix_length_le ⟨32 :: h.2, by simp⟩ ⟨tail, htail⟩ (by simpa using hle)
        obtain ⟨w, hw⟩ := hpre
        exact ⟨w, by simpa using hw.symm⟩
      have hw : w <+: 32 :: h.2 := ⟨tail, by simpa using htail⟩
      have hname' : HttpParser.trim h.1 = h.1 := trimWith_eq_self hname.head hname.last
      have hdrop : (h.1 ++ 58 :: w).drop (h.1.length + 1) = w := by simp
      simp only [hfind, hc, List.take_left, hname', hdrop] at hv
      split at hv
      next hkey =>
        cases hv
        have hdec := q.length_value h hh hkey
        refine ⟨?_, hdec⟩
        cases w with
        | nil => exact List.nil_prefix
        | cons c w =>
            obtain ⟨rfl, hvalue⟩ := List.cons_prefix_cons.mp hw
            rw [trim_digits fun b hb => hdec.digits b (hvalue.subset hb)]
            exact hvalue
      next => cases hv

/-- A first part of a numeral does not declare more than the numeral. -/
theorem lengthOf_cut {v s : Bytes} {n : Nat} (hv : v <+: s) (hs : IsDecimal s n)
    (hn : n ≤ 10 * 1024 * 1024) : HttpParser.lengthOf (some v) ≤ n := by
  by_cases hne : v = []
  · simp [HttpParser.lengthOf, hne]
  have hdigits : ∀ b ∈ v, isdigit b = true := fun b hb => hs.digits b (hv.subset hb)
  have hle : decimalValue v ≤ n := by
    obtain ⟨t, rfl⟩ := hv
    rw [← hs.value]
    exact decimalValue_le_append v t
  rw [HttpParser.lengthOf, if_neg hne, stoi_of_digits hne hdigits (by omega), Option.getD_some]
  exact_mod_cast hle

/-- **A cut header block.** It is refused exactly when no byte of the version is
    left; otherwise it declares a length that `parse` would read. -/
theorem parseHead_cut {p : Bytes} (hp : p <+: q.head ++ HttpParser.headerEnd) :
    (p.length ≤ q.method.length + q.target.length + 6 ∧
        HttpParser.parseHead p .init = none) ∨
      (q.method.length + q.target.length + 6 < p.length ∧
        ∃ req, HttpParser.parseHead p .init = some req ∧
          req.contentLength ≤ HttpParser.maxBody) := by
  have hend : HttpParser.headerEnd.length = 4 := by decide
  have hmethod := List.length_pos_iff.mpr q.method_token.nonempty
  have htarget := List.length_pos_iff.mpr q.target_token.nonempty
  have hheadlen : q.method.length + q.target.length + 2 ≤ q.head.length := by
    simp only [head, requestLine, List.length_append, List.length_cons]
    omega
  have hlen := hp.length_le
  rw [List.length_append, hend] at hlen
  -- the four bytes that are dropped are missed only by a block shorter than them
  obtain ⟨b, hb, hblen, hblock⟩ : ∃ b, b <+: q.head ∧
      (b.length ≤ q.method.length + q.target.length + 2 ↔
        p.length ≤ q.method.length + q.target.length + 6) ∧
      (if 4 ≤ p.length then p.take (p.length - 4) else p) = b := by
    split
    next h4 =>
      refine ⟨_, List.prefix_of_prefix_length_le ((List.take_prefix _ _).trans hp)
        (List.prefix_append _ _) ?_, ?_, rfl⟩
      all_goals
        rw [List.length_take]
        omega
    next h4 =>
      refine ⟨_, List.prefix_of_prefix_length_le hp (List.prefix_append _ _) ?_, ?_, rfl⟩
      all_goals omega
  by_cases hnil : b = []
  · refine .inl ⟨hblen.mp (by simp [hnil]), ?_⟩
    simp [HttpParser.parseHead, hblock, hnil, getlines]
  obtain ⟨rest, hlines, hcut⟩ := getlines_cut q.requestLine q.lines q.isLine_requestLine
    (fun _ hl => q.isLine_of_mem_lines hl) hb hnil
  rcases Nat.lt_or_ge (q.method.length + q.target.length + 2) b.length with hlong | hshort
  · obtain ⟨req, hreq, hheaders⟩ := q.parseRequestLine_long hlong
    refine .inr ⟨by omega, (rest.takeWhile (· ≠ [])).foldl
      (fun req line => (HttpParser.parseHeaderLine line req).getD req) req,
      by simp only [HttpParser.parseHead, hblock, hlines, hreq, Option.map_some], ?_⟩
    rw [HttpParser.contentLength_foldl hheaders]
    cases hlast : ((rest.takeWhile (· ≠ [])).filterMap HttpParser.lengthField).getLast? with
    | none => decide
    | some v =>
        obtain ⟨l, hl, hv⟩ := List.mem_filterMap.mp (List.mem_of_getLast? hlast)
        obtain ⟨line, hline, hpre⟩ := hcut l ((List.takeWhile_sublist _).subset hl)
        obtain ⟨h, hh, rfl⟩ := List.mem_map.mp hline
        obtain ⟨hcutv, hdec⟩ := q.lengthField_cut hh hpre hv
        refine (lengthOf_cut hcutv hdec q.body_le).trans ?_
        have hle := q.body_le
        simp only [HttpParser.maxBody]
        omega
  · refine .inl ⟨hblen.mp hshort, ?_⟩
    simp only [HttpParser.parseHead, hblock, hlines, q.parseRequestLine_short hshort,
      Option.map_none]

/-- **A cut request.** `parse` on a strict prefix of a request, as the reference
    parser sees it: refused at the end of the stream, or accepted without the
    terminator or with less body than declared. -/
theorem parseStream_cut {p : Bytes} (hp : p <+: q.serialise) (hne : p ≠ q.serialise) :
    (p.length ≤ q.method.length + q.target.length + 6 ∧
        HttpParser.parseStream p .init = (none, [], true)) ∨
      (q.method.length + q.target.length + 6 < p.length ∧
        ∃ req, (HttpParser.parseStream p .init).1 = some req ∧
          (find HttpParser.headerEnd p = none ∨ req.body.length ≠ req.contentLength.toNat)) := by
  have hend : HttpParser.headerEnd.length = 4 := by decide
  have hheadlen : q.method.length + q.target.length + 2 < q.head.length := by
    have hversion := List.length_pos_iff.mpr q.version_token.nonempty
    simp only [head, requestLine, List.length_append, List.length_cons]
    omega
  have hfind := q.find_headerEnd q.body
  rw [← List.append_assoc, ← serialise] at hfind
  rcases Nat.lt_or_ge p.length (q.head ++ HttpParser.headerEnd).length with hlt | hge
  · -- the terminator is cut off
    have hcut : p <+: q.head ++ HttpParser.headerEnd :=
      List.prefix_of_prefix_length_le hp (List.prefix_append _ _) hlt.le
    have hnone : find HttpParser.headerEnd p = none := by
      cases hpos : find HttpParser.headerEnd p with
      | none => rfl
      | some pos =>
          obtain ⟨tail, htail⟩ := hp
          have hsame := find_append hpos tail
          rw [htail, hfind] at hsame
          cases hsame
          have hle := find_le hpos
          rw [List.length_append] at hlt
          omega
    by_cases hnil : p = []
    · subst hnil
      exact .inl ⟨Nat.zero_le _, rfl⟩
    simp only [HttpParser.parseStream, HttpParser.splitHead, hnone, if_neg hnil]
    rcases q.parseHead_cut hcut with ⟨hle, hhead⟩ | ⟨hlong, req, hhead, hcl⟩
    · exact .inl ⟨hle, by rw [hhead]⟩
    · refine .inr ⟨hlong, ?_⟩
      simp only [hhead, HttpParser.bodyStream, if_neg (not_lt.mpr hcl)]
      split
      · exact ⟨_, rfl, .inl trivial⟩
      · exact ⟨_, rfl, .inl trivial⟩
  · -- only the body is cut
    obtain ⟨t, rfl⟩ := List.prefix_of_prefix_length_le (List.prefix_append _ _) hp hge
    rw [serialise, List.prefix_append_right_inj] at hp
    have ht : t.length < q.body.length := by
      refine lt_of_le_of_ne hp.length_le fun hlen => hne ?_
      rw [serialise, hp.eq_of_length hlen]
    have hbody : q.body ≠ [] := List.ne_nil_of_length_pos (by omega)
    have hcl := q.contentLength_parsedHead.resolve_right fun h => hbody h.1
    have hmax : (q.body.length : Int) ≤ HttpParser.maxBody := by
      have hle := q.body_le
      simp only [HttpParser.maxBody]
      omega
    have hne' : q.head ++ HttpParser.headerEnd ≠ [] :=
      List.ne_nil_of_length_pos (by rw [List.length_append, hend]; omega)
    rw [List.append_assoc]
    simp only [HttpParser.parseStream, q.splitHead_eq, if_neg hne', q.parseHead_eq,
      HttpParser.bodyStream_pos hcl (by omega) hmax]
    refine .inr ⟨by simp only [List.length_append, hend]; omega, _, rfl, .inr ?_⟩
    have hkeep : (HttpRequest.contentLength { q.parsedHead with body := t.take q.body.length })
        = q.body.length := hcl
    rw [hkeep, Int.toNat_natCast, List.length_take]
    omega

end WireRequest

/-! ## The connection loop -/

namespace HttpServer

/-- A server with one middleware that lets everything pass. -/
def passing : HttpServer where
  routes := []
  middlewares := [⟨fun _ req res w => ⟨req, res, w, .pass⟩, fun _ _ _ _ => le_rfl⟩]

/-- A request that is refused leaves no trace but an error response. -/
theorem turn_refused (srv : HttpServer) (k : Nat) {w : Wire} (hreq : w.parse.1 = none) :
    (srv.turn k w).goesOn = false ∧
      ∀ e ∈ (srv.turn k w).exchange.events, e.invokes = false := by
  obtain ⟨w₁, hparse, hevents⟩ : ∃ w₁, ({ w with events := [] } : Wire).parse = (none, w₁) ∧
      w₁.events = [] := ⟨_, Prod.ext hreq rfl, rfl⟩
  obtain ⟨hwire, hstop⟩ := turn_none srv k hparse
  refine ⟨hstop, fun e he => ?_⟩
  rw [(srv.turn_exchange k w).2.2.1, hwire, refuse] at he
  split at he
  · simp [hevents] at he
  · rw [show (sendError w₁ 400 (bytes "Bad Request")).events
      = w₁.events ++ [.response _ _] from rfl, hevents] at he
    rw [List.mem_singleton.mp he]
    rfl

/-- A request that is accepted meets the first middleware. -/
theorem turn_passing (k : Nat) {w : Wire} {req : HttpRequest} (hreq : w.parse.1 = some req) :
    .middleware 0 ∈ (passing.turn k w).exchange.events := by
  obtain ⟨w₁, hparse⟩ : ∃ w₁, ({ w with events := [] } : Wire).parse = (some req, w₁) :=
    ⟨_, Prod.ext hreq rfl⟩
  have hmws : runMiddlewares k req .init w₁ 0 passing.middlewares
      = ⟨req, .init, w₁.record (.middleware 0), .pass⟩ := rfl
  rw [(passing.turn_exchange k w).2.2.1, (turn_some passing k hparse).1, serve, hmws]
  exact List.mem_append_left _ (List.mem_append_right _ List.mem_cons_self)

end HttpServer

namespace HttpParser

/-- **Truncation.** For a well-formed request and a strict prefix `p` of it that is
    all a new connection receives, in any chunks: `parse` refuses it, no server runs
    a middleware or a handler for it, and a request that is accepted has its
    terminator and its whole body, each exactly when not more of `p` is left than
    method, target and six further bytes. -/
theorem truncated_iff (q : WireRequest) (p : Bytes) (hp : p <+: q.serialise)
    (hne : p ≠ q.serialise) (fd : Core.Fd) (r : RecvScript) (hr : r.bytes = p) :
    ((parse (.init fd) r .init).1 = none ↔
        p.length ≤ q.method.length + q.target.length + 6) ∧
      ((∀ (srv : HttpServer) (send : SendScript),
          ∀ x ∈ (srv.handleConnection 0 (.accept fd r send)).1,
            ∀ e ∈ x.events, e.invokes = false) ↔
        p.length ≤ q.method.length + q.target.length + 6) ∧
      ((∀ req, (parse (.init fd) r .init).1 = some req →
          (find headerEnd p).isSome ∧ req.body.length = req.contentLength.toNat) ↔
        p.length ≤ q.method.length + q.target.length + 6) := by
  have hpending : (Connection.init fd).pending r = p := by
    simp [Connection.pending, Connection.init, hr]
  obtain ⟨hparse, -, -, -⟩ := parse_yields (.init fd) r .init
  rw [hpending] at hparse
  rcases q.parseStream_cut hp hne with ⟨hle, hstream⟩ | ⟨hlt, req, hstream, hbad⟩
  · have hnone : (parse (.init fd) r .init).1 = none := by rw [hparse, hstream]
    refine ⟨iff_of_true hnone hle, iff_of_true ?_ hle, iff_of_true ?_ hle⟩
    · intro srv send x hx e he
      obtain ⟨hstop, hevents⟩ := srv.turn_refused 0 (w := .accept fd r send) hnone
      rw [HttpServer.handleConnection_stop rfl hstop] at hx
      rw [List.mem_singleton.mp hx] at he
      exact hevents e he
    · intro req hsome
      cases hnone.symm.trans hsome
  · have hsome : (parse (.init fd) r .init).1 = some req := hparse.trans hstream
    refine ⟨iff_of_false (by simp [hsome]) (by omega), iff_of_false ?_ (by omega),
      iff_of_false ?_ (by omega)⟩
    · intro hall
      have hmw := HttpServer.turn_passing 0 (w := .accept fd r []) hsome
      exact absurd (hall .passing [] _ (HttpServer.exchange_mem_handleConnection rfl) _ hmw)
        (by simp [Event.invokes])
    · intro hall
      obtain ⟨hfind, hbody⟩ := hall req hsome
      rcases hbad with hnone | hlen
      · simp [hnone] at hfind
      · exact hlen hbody

/-- `POST /` with a body of nine bytes. -/
def postNine : WireRequest where
  method := bytes "POST"
  target := bytes "/"
  version := bytes "HTTP/1.1"
  headers := [(bytes "Content-Length", bytes "9")]
  body := bytes "transfer!"
  method_token := by decide +kernel
  method_upper := by decide +kernel
  target_token := by decide +kernel
  version_token := isToken_http11
  target_safe := by decide +kernel
  names := by decide +kernel
  values := by decide +kernel
  distinct := by decide +kernel
  body_le := by decide +kernel
  length_of_body := by decide +kernel
  length_value := by decide +kernel

/-- Cut within the request line, the request is refused. -/
theorem truncated_iff_request_line :
    (parse (.init 5) ⟨[.data 80 (bytes "OST / HTTP")], .error⟩ .init).1 = none := by
  have hcut := truncated_iff postNine (bytes "POST / HTTP") (by decide +kernel)
    (by decide +kernel) 5 ⟨[.data 80 (bytes "OST / HTTP")], .error⟩ (by decide +kernel)
  exact hcut.1.mpr (by decide +kernel)

/-- Cut within the body, it is accepted with the two bytes that have come. -/
theorem truncated_accepted :
    ¬ ∀ (q : WireRequest) (p : Bytes), p <+: q.serialise → p ≠ q.serialise →
      ∀ (fd : Core.Fd) (r : RecvScript), r.bytes = p → (parse (.init fd) r .init).1 = none := by
  intro hfails
  let r : RecvScript :=
    ⟨[.data 80 (bytes "OST / HTTP/1.1\r\nContent-Length: 9\r\n\r\ntr")], .eof⟩
  have hnone := hfails postNine r.bytes (by decide +kernel) (by decide +kernel) 5 r rfl
  obtain ⟨hparse, -⟩ := parse_yields (.init 5) r .init
  have hsome : (parseStream ((Connection.init 5).pending r) .init).1.isSome := by decide +kernel
  rw [← hparse, hnone] at hsome
  cases hsome

end HttpParser

end CoroutineHttp.Http
