/-
  CoroutineHttp.Ws.Output

  What the server of `main.cpp` sends, whatever it receives.

  `App.page` says what a client is to read in answer to a request: a status and a body.
  Turn by turn the server sends one response that is read so, however the stream goes
  on, or the 400 of a stream that is no request, or for a chat the handshake and whole
  text frames (`Says`); nothing else ever goes out.
-/

import CoroutineHttp.Http.Accepted
import CoroutineHttp.Http.Reading
import CoroutineHttp.Ws.Outgoing
import CoroutineHttp.Ws.Replies

namespace CoroutineHttp.Ws

open CoroutineHttp.Library CoroutineHttp.Net CoroutineHttp.Http

/-! ## Pages -/

/-- The body of an error. -/
def errorBody (code : Int) (msg : Bytes) : Bytes :=
  bytes "\x7b\"error\":\"" ++ msg ++ bytes "\",\"code\":" ++ intDec code ++ bytes "\x7d"

/-- What a client is to read in answer to a request, a status and a body; `none` for a
    chat. -/
def App.page (app : App) (req : HttpRequest) : Option (Int × Bytes) :=
  match resource (segments 47 req.path) with
  | none => some (404, errorBody 404 (bytes "Not Found"))
  | some r =>
      if req.method ≠ bytes "GET" then some (405, errorBody 405 (bytes "Method Not Allowed"))
      else
        match r with
        | .index => some (302, [])
        | .file name =>
            if app.files name = [] then some (404, bytes "404 Not Found")
            else some (200, app.files name)
        | .ping => some (200, bytes "\x7b\"status\":\"ok\",\"server\":\"coroutine-http-mt\"\x7d")
        | .chat => none

/-- `send_error`. -/
theorem whole_error {code : Int} (hcode : ¬ NoBody code) (msg : Bytes) :
    Whole (HttpServer.errorResponse code msg).message code (errorBody code msg) := by
  have honeline : Http.OneLine (bytes "Connection") ∧ Http.OneLine (bytes "close") := by
    decide +kernel
  apply HttpResponse.whole_setBody (c := .json (errorBody code msg))
    ((HttpResponse.EntriesOneLine.init.call (c := .status code) trivial).call
      (c := .header _ _) honeline)
  · rfl
  · exact hcode
  · intro key hkey
    change (HttpResponse.init.headers.insert (bytes "Connection")
      (bytes "close"))[key]?.isSome at hkey
    by_cases hne : bytes "Connection" = key
    · rw [← hne]
      decide +kernel
    · rw [HttpResponse.getElem?_insert_of_ne hne] at hkey
      simp [HttpResponse.init] at hkey

/-- A body on a new object. -/
theorem whole_page {code : Int} (hcode : ¬ NoBody code) {c : HttpResponse.ResCall}
    {contentType body : Bytes} (hc : c.content = some (contentType, body)) :
    Whole ((HttpResponse.init.status code).setBody contentType body).message code body := by
  apply HttpResponse.whole_setBody (HttpResponse.EntriesOneLine.init.call (c := .status code)
    trivial) _ hc hcode
  intro key hkey
  simp [HttpResponse.call, HttpResponse.toFlush, HttpResponse.status, HttpResponse.init] at hkey

theorem oneLine_mimeType (name : Bytes) : Http.OneLine (mimeType name) := by
  unfold mimeType
  split
  · decide +kernel
  · split
    · decide +kernel
    · split <;> decide +kernel

/-- A file. -/
theorem whole_file (name body : Bytes) : Whole (fileReply name body) 200 body := by
  let headers := [(bytes "Content-Type", mimeType name),
    (bytes "Content-Length", toDec body.length), (bytes "Connection", bytes "keep-alive")]
  have hstatus : bytes "HTTP/1.1 200 OK\r\nContent-Type: "
      = statusLine 200 ++ crlf ++ (bytes "Content-Type" ++ bytes ": ") := by decide +kernel
  have hlength : bytes "\r\nContent-Length: "
      = crlf ++ (bytes "Content-Length" ++ bytes ": ") := by decide +kernel
  have hconnection : bytes "\r\nConnection: keep-alive\r\n\r\n"
      = crlf ++ (bytes "Connection" ++ bytes ": " ++ bytes "keep-alive") ++ crlf ++ crlf := by
    decide +kernel
  have hreply : fileReply name body
      = (statusLine 200 :: headers.map WireRequest.headerLine).flatMap (· ++ crlf) ++
        (crlf ++ body) := by
    rw [fileReply, hstatus, hlength, hconnection]
    simp [headers, WireRequest.headerLine]
  have hnames : headers.map readEntry = headers := by
    have htype : (58 : UInt8) ∉ bytes "Content-Type" := by decide
    have hlen : (58 : UInt8) ∉ bytes "Content-Length" := by decide
    have hconn : (58 : UInt8) ∉ bytes "Connection" := by decide
    simp [headers, readEntry_of_not_mem, htype, hlen, hconn]
  rw [hreply]
  apply Whole.of_lines (f := (bytes "Content-Length", toDec body.length))
  · have hkeys : Http.OneLine (bytes "Content-Type") ∧ Http.OneLine (bytes "Content-Length") ∧
        Http.OneLine (bytes "Connection") ∧ Http.OneLine (bytes "keep-alive") := by decide +kernel
    obtain ⟨htype, hlen, hconn, halive⟩ := hkeys
    simp [headers, htype, hlen, hconn, halive, oneLine_mimeType, oneLine_toDec]
  · have hkeys : toLower (bytes "Content-Type") ≠ bytes "content-length" ∧
        toLower (bytes "Content-Length") = bytes "content-length" ∧
        toLower (bytes "Connection") ≠ bytes "content-length" := by decide +kernel
    rw [hnames]
    simp [lengthFields, headers, hkeys]
  · rw [trimValue_toDec]
    exact isDecimal_toDec _
  · decide

/-- The redirect to the chat page. -/
theorem whole_index : Whole (bytes
    "HTTP/1.1 302 Found\r\nLocation: /static/chat.html\r\nContent-Length: 0\r\n\r\n") 302 [] := by
  have hreply : bytes
      "HTTP/1.1 302 Found\r\nLocation: /static/chat.html\r\nContent-Length: 0\r\n\r\n"
      = (statusLine 302 :: [(bytes "Location", bytes "/static/chat.html"),
          (bytes "Content-Length", bytes "0")].map WireRequest.headerLine).flatMap (· ++ crlf) ++
        (crlf ++ []) := by decide +kernel
  rw [hreply]
  exact Whole.of_lines (f := (bytes "Content-Length", bytes "0")) (by decide +kernel)
    (by decide +kernel) (by decide +kernel) (by decide)

namespace App

variable (app : App)

/-- **Replies.** Of the reply to a request other than for a chat a client reads the page. -/
theorem whole_reply {req : HttpRequest} {page : Int × Bytes} (h : app.page req = some page) :
    Whole (app.reply req) page.1 page.2 := by
  unfold App.page at h
  unfold App.reply
  cases hr : resource (segments 47 req.path) with
  | none =>
      rw [hr] at h
      cases h
      exact whole_error (by decide) _
  | some r =>
      rw [hr] at h
      dsimp only at h ⊢
      by_cases hmethod : req.method = bytes "GET"
      · rw [if_neg (not_not_intro hmethod)] at h
        rw [if_pos hmethod]
        cases r with
        | index =>
            cases h
            exact whole_index
        | file name =>
            dsimp only at h
            rw [replyOf]
            split at h
            next hmissing =>
              cases h
              rw [if_pos hmissing]
              exact whole_page (c := .text _) (by decide) rfl
            next hfile =>
              cases h
              rw [if_neg hfile]
              exact whole_file _ _
        | ping =>
            cases h
            exact whole_page (show ¬ NoBody 200 by decide) (c := .json _) rfl
        | chat => cases h
      · rw [if_pos hmethod] at h
        rw [if_neg hmethod]
        cases h
        exact whole_error (by decide) _

/-- A request without a page is for a chat. -/
theorem chat_of_page_none {req : HttpRequest} (h : app.page req = none) :
    resource (segments 47 req.path) = some .chat ∧ req.method = bytes "GET" := by
  unfold App.page at h
  split at h
  next => cases h
  next r hr =>
    split at h
    next => cases h
    next hmethod =>
      split at h
      next => cases h
      next => split at h <;> cases h
      next => cases h
      next => exact ⟨hr, not_not.mp hmethod⟩

theorem page_of_chats {req : HttpRequest} {key : Bytes} (h : Chats req key) :
    app.page req = none := by
  simp [App.page, h.chat, h.get]

/-! ## What is said in a turn -/

/-- What a client is to read of a turn; `none` for a chat. -/
def answer (x : HttpServer.Exchange) : Option (Int × Bytes) :=
  match x.request with
  | none => some (400, errorBody 400 (bytes "Bad Request"))
  | some req => app.page req

/-- What the server may send in a turn. -/
inductive Says (x : HttpServer.Exchange) : Bytes → Prop where
  /-- The stream ended before the request did. -/
  | gone (hclosed : x.closed = true) (hleft : x.left = []) : Says x []
  | response {page : Int × Bytes} {m : Bytes} (hopen : x.closed = false)
      (hpage : app.answer x = some page) (hm : Whole m page.1 page.2) : Says x m
  /-- A chat without a key. -/
  | silent {req : HttpRequest} (hreq : x.request = some req) (hpage : app.page req = none)
      (hkey : WebSocket.handshakeKey req.headers = none) : Says x []
  | chat {req : HttpRequest} {key : Bytes} (hreq : x.request = some req) (h : Chats req key)
      (msgs : List Bytes) :
      Says x (WebSocket.upgradeResponse app.digest key ++ msgs.flatMap textFrame)

end App

/-! ## Sessions send text frames -/

/-- Only text frames were sent from `w` to `w'`. -/
def TextsOnly (w w' : Wire) : Prop :=
  ∃ msgs : List Bytes, w'.sent = w.sent ++ msgs.flatMap textFrame

section Session

variable {w w' w'' : Wire}

theorem TextsOnly.of_sent (h : w'.sent = w.sent) : TextsOnly w w' := ⟨[], by simp [h]⟩

theorem TextsOnly.trans (h : TextsOnly w w') (h' : TextsOnly w' w'') : TextsOnly w w'' := by
  obtain ⟨msgs, hsent⟩ := h
  obtain ⟨msgs', hsent'⟩ := h'
  exact ⟨msgs ++ msgs', by rw [hsent', hsent, List.flatMap_append, List.append_assoc]⟩

/-- With no answers of `send` left but to take everything, there are none after. -/
theorem send_nil {f : Wire → Wire} (hf : Wire.FailStop f) (hw : w.send = []) :
    (f w).send = [] := by
  have hstart : Wire.InStep [] w w := ⟨rfl, rfl, rfl, rfl, by rw [hw], hw⟩
  rcases hf.lags [] w w hstart with hstep | hbehind
  · exact hstep.send'
  · obtain ⟨e, he, -⟩ := hbehind.failed
    cases he

theorem healthy_of_open (hw : w.send = []) (hopen : w.conn.closed = false) : w.Healthy :=
  ⟨hopen, by simp [hw]⟩

theorem sent_closedElsewhere (w : Wire) (closed : Bool) :
    (w.closedElsewhere closed).sent = w.sent := by
  cases closed <;> rfl

theorem textsOnly_sendText (hw : w.send = []) (msg : Bytes) : TextsOnly w (w.sendText msg) := by
  cases hclosed : w.conn.closed with
  | true => exact .of_sent ((Wire.FailStop.write _).closed w hclosed).2
  | false =>
      have hsends := Wire.sends_write (healthy_of_open hw hclosed) (textFrame msg)
      exact ⟨[msg], hsends.sent.trans (by simp)⟩

theorem textsOnly_broadcast (hw : w.send = []) (v : RoomView) (msg : Bytes) :
    TextsOnly w (w.broadcast v msg) := by
  have hbefore := send_nil (failStop_closedElsewhere v.closedBefore) hw
  have hfirst : TextsOnly w (w.closedElsewhere v.closedBefore) :=
    .of_sent (sent_closedElsewhere w _)
  unfold Wire.broadcast
  dsimp only
  split
  · exact hfirst.trans (.of_sent (sent_closedElsewhere _ _))
  · have hwritten := hfirst.trans (textsOnly_sendText hbefore msg)
    exact hwritten.trans (.of_sent (sent_closedElsewhere _ _))

theorem sessionLoop_textsOnly (nick : Bytes) (views : Nat → RoomView) (i : Nat)
    (hw : w.send = []) : TextsOnly w (sessionLoop nick views i w) := by
  have hrecv : ∀ {w w' : Wire} {frame : Option WsFrame}, w.recvFrame = (frame, w') →
      w'.send = w.send ∧ TextsOnly w w' := by
    intro w w' frame h
    rw [show w' = _ from (congrArg Prod.snd h).symm]
    exact ⟨rfl, .of_sent rfl⟩
  -- on the loop; each frame leaves the client a text frame or nothing
  fun_induction sessionLoop nick views i w with
  | case1 i w w' h => exact (hrecv h).2
  | case2 i w frame w' h hclose => exact (hrecv h).2
  | case3 i w frame w' h hclose hping ih =>
      have hw' := (hrecv h).1.trans hw
      have hnext := send_nil (f := fun w => w.sendText []) (.write _) hw'
      exact ((hrecv h).2.trans (textsOnly_sendText hw' _)).trans (ih hnext)
  | case4 i w frame w' h hclose hping htext ih =>
      have hw' := (hrecv h).1.trans hw
      have hnext := send_nil (f := fun w => w.broadcast (views i) (chatMessage nick frame.payload))
        (failStop_broadcast _ _) hw'
      exact ((hrecv h).2.trans (textsOnly_broadcast hw' _ _)).trans (ih hnext)
  | case5 i w frame w' h hclose hping htext ih =>
      exact (hrecv h).2.trans (ih ((hrecv h).1.trans hw))

theorem session_textsOnly (nick : Bytes) (views : RoomViews) (hw : w.send = []) :
    TextsOnly w (session nick views w) := by
  have hjoin := textsOnly_broadcast hw views.join
    (joinMessage nick views.join.online views.join.users)
  have hnext := send_nil (f := fun w => w.broadcast views.join
    (joinMessage nick views.join.online views.join.users)) (failStop_broadcast _ _) hw
  have hend := hjoin.trans (sessionLoop_textsOnly nick views.chat 0 hnext)
  unfold session
  have hclosed := hend.trans (.of_sent (sent_closedElsewhere _ views.leave.closedBefore))
  exact hclosed.trans (.of_sent (sent_closedElsewhere _ _))

end Session

/-! ## Turns and runs -/

namespace App

variable (app : App)

/-- A request is served on an open connection: it has its page, or is for a chat. -/
theorem serve_says (k : Nat) {x : HttpServer.Exchange} {req : HttpRequest}
    (hreq : x.request = some req) {w : Wire} (hw : w.send = []) (hopen : w.conn.closed = false)
    (hclosed : x.closed = (app.server.serve k req w).1.conn.closed) :
    ∃ m, app.Says x m ∧ (app.server.serve k req w).1.sent = w.sent ++ m := by
  have hhealthy := healthy_of_open hw hopen
  cases hpage : app.page req with
  | some page =>
      have hchat : ∀ key, ¬ Chats req key := by
        intro key h
        cases (app.page_of_chats h).symm.trans hpage
      have hsends := app.serve_reply k hhealthy hchat
      refine ⟨_, .response (hclosed.trans hsends.healthy.isOpen) ?_ (app.whole_reply hpage),
        hsends.sent⟩
      rw [answer, hreq]
      exact hpage
  | none =>
      obtain ⟨hpath, hget⟩ := app.chat_of_page_none hpage
      cases hkey : WebSocket.handshakeKey req.headers with
      | none =>
          have hno : ∀ key, ¬ Chats req key := by
            intro key h
            cases h.key.symm.trans hkey
          have hsends := app.serve_reply k hhealthy hno
          refine ⟨[], .silent hreq hpage hkey, hsends.sent.trans ?_⟩
          simp [reply, hpath, hget, replyOf]
      | some key =>
          have hchat : Chats req key := ⟨hpath, hget, hkey⟩
          obtain ⟨j, hserve⟩ := app.serve_chat k hchat w
          have hrecord : (w.record (.handler j)).Healthy := ⟨hhealthy.isOpen, hhealthy.send⟩
          have hshake := Wire.sends_write hrecord (WebSocket.upgradeResponse app.digest key)
          have hnil := send_nil (f := fun w => ((w.record (.handler j)).write
            (WebSocket.upgradeResponse app.digest key)).record .upgrade)
            ((Wire.FailStop.record _).comp ((Wire.FailStop.write _).comp (.record _))) hw
          obtain ⟨msgs, hsent⟩ := session_textsOnly (nickOf req) (app.rooms k) hnil
          refine ⟨_, .chat hreq hchat msgs, ?_⟩
          rw [hserve, hsent, ← List.append_assoc]
          exact congrArg (· ++ _) hshake.sent

/-- **A turn.** -/
theorem turn_says (k : Nat) {w : Wire} (hw : w.send = []) (hopen : w.conn.closed = false) :
    ∃ m, app.Says (app.server.turn k w).exchange m ∧ (app.server.turn k w).wire.send = [] ∧
      (app.server.turn k w).wire.sent = w.sent ++ m := by
  obtain ⟨hreq, hleft, hend, -⟩ := HttpParser.parse_yields w.conn w.recv .init
  rw [hopen, Bool.false_or] at hend
  have hover : w.parse.2.conn.closed = true → w.parse.2.pending = [] := fun h =>
    hleft.trans (HttpParser.parseStream_atEnd (hend.symm.trans h))
  obtain ⟨out, w₁, hparse, hout, hw₁, hsent₁, hclosed₁, hleft₁⟩ : ∃ out w₁,
      ({ w with events := [] } : Wire).parse = (out, w₁) ∧
        (app.server.turn k w).exchange.request = out ∧ w₁.send = [] ∧ w₁.sent = w.sent ∧
        (w₁.conn.closed = true → w₁.pending = []) ∧
        (app.server.turn k w).exchange.left = w₁.pending :=
    ⟨_, _, rfl, rfl, hw, rfl, hover, rfl⟩
  obtain ⟨on, f, hf, hturn⟩ := HttpServer.failStop_turn app.failStop_server k out
  obtain ⟨hwire, -⟩ := hturn w w₁ hparse
  have hclosed := (app.server.turn_exchange k w).2.2.2.2
  have hnil : (app.server.turn k w).wire.send = [] := hwire ▸ send_nil hf hw₁
  rw [← hsent₁]
  cases hgone : w₁.conn.closed with
  -- the peer has ended the stream
  | true =>
      obtain ⟨hstill, hsame⟩ := hf.closed w₁ hgone
      rw [← hwire] at hstill hsame
      exact ⟨[], .gone (hclosed.trans hstill) (hleft₁.trans (hclosed₁ hgone)), hnil, by
        rw [hsame, List.append_nil]⟩
  | false =>
      cases out with
      | none =>
          have hrefuse := (app.server.turn_none k hparse).1
          rw [HttpServer.refuse, if_neg (by simp [hgone])] at hrefuse
          have hsends := Wire.sends_flush (healthy_of_open hw₁ hgone)
            (HttpServer.errorResponse 400 (bytes "Bad Request"))
          rw [show w₁.flush _ = _ from hrefuse.symm] at hsends
          have hanswer : app.answer (app.server.turn k w).exchange
              = some (400, errorBody 400 (bytes "Bad Request")) := by
            rw [answer, hout]
          exact ⟨_, .response (hclosed.trans hsends.healthy.isOpen) hanswer
            (whole_error (by decide) _), hnil, hsends.sent⟩
      | some req =>
          have hserve := (app.server.turn_some k hparse).1
          rw [hserve] at hclosed ⊢
          obtain ⟨m, hsays, hsent⟩ := app.serve_says k hout hw₁ hgone hclosed
          exact ⟨m, hsays, hserve ▸ hnil, hsent⟩

/-- **Runs** on a connection that takes everything. -/
theorem run_says (k : Nat) {w : Wire} (hw : w.send = []) :
    ∃ ms, List.Forall₂ app.Says (app.server.handleConnection k w).1 ms ∧
      (app.server.handleConnection k w).2.sent = w.sent ++ ms.flatten := by
  induction k, w using HttpServer.handleConnection.induct app.server with
  | case1 k w hclosed =>
      rw [HttpServer.handleConnection_closed hclosed]
      exact ⟨[], .nil, by simp⟩
  | case2 k w hclosed t hon exchanges wEnd hrest =>
      rename_i ih
      have hopen : w.conn.closed = false := by simpa using hclosed
      obtain ⟨m, hsays, hnil, hsent⟩ := app.turn_says k hw hopen
      obtain ⟨ms, hall, hsents⟩ := ih hnil
      rw [HttpServer.handleConnection_goesOn hopen hon]
      exact ⟨m :: ms, .cons hsays hall, by
        rw [hsents, hsent, List.flatten_cons, List.append_assoc]⟩
  | case3 k w hclosed t =>
      rename_i hstop
      have hopen : w.conn.closed = false := by simpa using hclosed
      obtain ⟨m, hsays, -, hsent⟩ := app.turn_says k hw hopen
      rw [HttpServer.handleConnection_stop hopen (by simpa using hstop)]
      exact ⟨[m], .cons hsays .nil, by rw [hsent]; simp⟩

/-- Without a failure the run is that of a connection that takes everything. -/
theorem run_succeeds (fd : Core.Fd) (recv : RecvScript) {send : SendScript}
    (hsend : ∀ e ∈ send, e.succeeds = true) :
    (app.server.handleConnection 0 (.accept fd recv send)).1
        = (app.server.handleConnection 0 (.accept fd recv [])).1 ∧
      (app.server.handleConnection 0 (.accept fd recv send)).2.sent
        = (app.server.handleConnection 0 (.accept fd recv [])).2.sent :=
  (HttpServer.lags_accept app.failStop_server fd recv send).same hsend

/-- **What goes out is well-formed, whatever comes in.** Of the turns the server takes if
    every `send` takes all there is: in each of them it sends one response that is read
    as the page of the request, whatever follows it, or the 400 of a stream that is no
    request, or behind a handshake whole text frames; nothing, only when the
    stream ended before the request did, or for a chat without a key.  Any other
    answers of `send` leave a first part of these turns, and of these bytes; without
    a failure they leave all.  No other session writes on the connection (`RoomView`). -/
theorem output_wellFormed (fd : Core.Fd) (recv : RecvScript) (send : SendScript) :
    let run := app.server.handleConnection 0 (.accept fd recv send)
    let ideal := app.server.handleConnection 0 (.accept fd recv [])
    ∃ ms, List.Forall₂ app.Says ideal.1 ms ∧
      run.1.map HttpServer.Exchange.request <+: ideal.1.map HttpServer.Exchange.request ∧
      run.2.sent <+: ms.flatten ∧
      ((∀ e ∈ send, e.succeeds = true) → run.1 = ideal.1 ∧ run.2.sent = ms.flatten) := by
  obtain ⟨ms, hall, hsent⟩ := app.run_says 0 (w := .accept fd recv []) rfl
  have hideal : (app.server.handleConnection 0 (.accept fd recv [])).2.sent = ms.flatten := hsent
  -- a failed `send` leaves a first part of the run in which none fails
  obtain ⟨hpart, hrequests⟩ := (HttpServer.lags_accept app.failStop_server fd recv send).cut
  rw [hideal] at hpart
  exact ⟨ms, hall, hrequests, hpart, fun hsend => hideal ▸ app.run_succeeds fd recv hsend⟩

/-- Turns without a handshake send their pages. -/
theorem pages_of_says {xs : List HttpServer.Exchange} {ms : List Bytes}
    (h : List.Forall₂ app.Says xs ms)
    (hchat : ∀ x ∈ xs, ∀ req, x.request = some req → ∀ key, ¬ Chats req key) :
    ∃ ms', ms'.flatten = ms.flatten ∧
      List.Forall₂ (fun m (page : Int × Bytes) => Whole m page.1 page.2) ms'
        ((xs.filter fun x => !x.closed).filterMap app.answer) := by
  induction h with
  | nil => exact ⟨[], rfl, .nil⟩
  | @cons x m xs ms hsays _ ih =>
      obtain ⟨hx, hxs⟩ := List.forall_mem_cons.mp hchat
      obtain ⟨ms', hflat, hall⟩ := ih hxs
      cases hsays with
      | gone hclosed hleft => exact ⟨ms', by simpa using hflat, by simpa [hclosed] using hall⟩
      | response hopen hpage hm =>
          exact ⟨m :: ms', by simp [hflat], by simpa [hopen, hpage] using ⟨hm, hall⟩⟩
      | @silent req hreq hpage hkey =>
          have hnone : app.answer x = none := by
            rw [answer, hreq]
            exact hpage
          refine ⟨ms', by simpa using hflat, ?_⟩
          cases hclosed : x.closed with
          | true => simpa [hclosed] using hall
          | false => simpa [hclosed, hnone] using hall
      | chat hreq h msgs => exact absurd h (hx _ hreq _)

/-- **A client reads one page for each request.** Up to the first handshake, and when no
    `send` fails: the responses a client takes off the stream are the pages of the
    requests that were parsed, in order, with the 400 last if the stream was no request
    any more; and behind the last turn nothing is left.  A request within which the stream
    ends closes the connection and has no page. -/
theorem pages_read (fd : Core.Fd) (recv : RecvScript) (send : SendScript)
    (hsend : ∀ e ∈ send, e.succeeds = true) {before after : List HttpServer.Exchange}
    (hrun : (app.server.handleConnection 0 (.accept fd recv send)).1 = before ++ after)
    (hchat : ∀ x ∈ before, ∀ req, x.request = some req → ∀ key, ¬ Chats req key) :
    ∃ texts rest, readMessages texts.length
        (app.server.handleConnection 0 (.accept fd recv send)).2.sent = some (texts, rest) ∧
      (texts.map fun text => (text.status, text.body))
        = (before.filter fun x => !x.closed).filterMap app.answer ∧
      (after = [] → rest = []) := by
  obtain ⟨hsame, hsent⟩ := app.run_succeeds fd recv hsend
  obtain ⟨ms, hall, hsays⟩ := app.run_says 0 (w := .accept fd recv []) rfl
  rw [← hsame, hrun] at hall
  have hfirst := (List.forall₂_take_append _ _ _ hall.flip).flip
  obtain ⟨ms', hflat, hwhole⟩ := app.pages_of_says hfirst hchat
  have hsplit : (app.server.handleConnection 0 (.accept fd recv send)).2.sent
      = ms'.flatten ++ (ms.drop before.length).flatten := by
    rw [hsent, hsays, hflat, ← List.flatten_append, List.take_append_drop]
    rfl
  obtain ⟨texts, hread, hpages⟩ := readMessages_flatten hwhole (ms.drop before.length).flatten
  have hlen : texts.length = ms'.length := by
    rw [hwhole.length_eq, ← hpages, List.length_map]
  refine ⟨texts, (ms.drop before.length).flatten, ?_, hpages, fun hnil => ?_⟩
  · rw [hsplit, hlen]
    exact hread
  · rw [hnil, List.append_nil] at hall
    rw [List.drop_of_length_le hall.length_eq.ge, List.flatten_nil]

/-- A request for the start page, and the end of the stream. -/
theorem pages_read_index :
    let run := quiet.server.handleConnection 0 (.accept 5
      ⟨[.data 71 (bytes "ET // HT"), .eagain, .data 84 (bytes "P/1.1\r\nHost: a\r\n\r\n")], .eof⟩
      [.accept 1, .eagain])
    ∃ texts, readMessages texts.length run.2.sent = some (texts, []) ∧
      (texts.map fun text => (text.status, text.body))
        = (run.1.filter fun x => !x.closed).filterMap quiet.answer := by
  intro run
  have hindex : resource (segments 47 getIndex.parsed.path) = some .index := by decide +kernel
  have hno : ∀ key, ¬ Chats getIndex.parsed key := by
    intro key h
    cases hindex.symm.trans h.chat
  have hserved : served [getIndex] = [getIndex] := by simp [served]
  have hideal := quiet.run_replies [getIndex]
    (fun q hq => by
      rw [hserved] at hq
      rw [List.mem_singleton.mp hq]
      exact hno) 0 (w := .accept 5 ⟨[.data 71 (bytes "ET // HT"), .eagain,
        .data 84 (bytes "P/1.1\r\nHost: a\r\n\r\n")], .eof⟩ [])
    ⟨rfl, by simp [Wire.accept]⟩ (by decide +kernel)
  have hrequests : requests run.1 = [getIndex.parsed] := by
    rw [(quiet.run_succeeds 5 _ (by decide)).1, hideal.1, hserved]
    rfl
  obtain ⟨texts, rest, hread, hpages, hrest⟩ := quiet.pages_read 5
    ⟨[.data 71 (bytes "ET // HT"), .eagain, .data 84 (bytes "P/1.1\r\nHost: a\r\n\r\n")], .eof⟩
    [.accept 1, .eagain] (by decide) (List.append_nil run.1).symm (by
      intro x hx req hreq
      have hmem : req ∈ requests run.1 := List.mem_filterMap.mpr ⟨x, hx, hreq⟩
      rw [hrequests] at hmem
      rw [List.mem_singleton.mp hmem]
      exact hno)
  rw [hrest rfl] at hread
  exact ⟨texts, hread, hpages⟩

end App

end CoroutineHttp.Ws
