/-
  CoroutineHttp.Ws.Replies

  What the server of `main.cpp` is for, and that it is what it does.

  `resource` and `App.reply` say, without a connection, what a request asks for and
  which bytes answer it; `sessionReply` says the same of the frames of a chat
  session.  The server sends the replies to the requests it receives, one after another
  and nothing else, and behind an upgrade the messages of the session: all of them on a
  connection whose writes succeed, and a first part of them on any other.
-/

import CoroutineHttp.Ws.Site

namespace CoroutineHttp.Ws

open CoroutineHttp.Library CoroutineHttp.Net CoroutineHttp.Http

/-! ## What a client may ask for -/

/-- What the server of `main` has. -/
inductive Resource where
  | index
  /-- The file of this name. -/
  | file (name : Bytes)
  | ping
  | chat
deriving DecidableEq

/-- The resource at a path, given by its segments. -/
def resource : List Bytes → Option Resource
  | [] => some .index
  | [a] => if a = bytes "ws" then some .chat else none
  | a :: b :: rest =>
      if a = bytes "static" then
        some (.file (bytes "static/" ++ Route.joinSegments (b :: rest)))
      else if a = bytes "api" ∧ b = bytes "ping" ∧ rest = [] then some .ping
      else none

/-- The reply that has a file in it. -/
def fileReply (name body : Bytes) : Bytes :=
  bytes "HTTP/1.1 200 OK\r\nContent-Type: " ++ mimeType name ++
    bytes "\r\nContent-Length: " ++ toDec body.length ++
    bytes "\r\nConnection: keep-alive\r\n\r\n" ++ body

namespace App

variable (app : App)

/-- The reply to a GET of a resource; a chat is answered only with a key, and not by
    a reply. -/
def replyOf : Resource → Bytes
  | .index => bytes
      "HTTP/1.1 302 Found\r\nLocation: /static/chat.html\r\nContent-Length: 0\r\n\r\n"
  | .file name =>
      if app.files name = [] then
        ((HttpResponse.init.status 404).setBody (bytes "text/plain; charset=utf-8")
          (bytes "404 Not Found")).message
      else fileReply name (app.files name)
  | .ping =>
      (HttpResponse.init.setBody (bytes "application/json")
        (bytes "\x7b\"status\":\"ok\",\"server\":\"coroutine-http-mt\"\x7d")).message
  | .chat => []

/-- The reply to a request. -/
def reply (req : HttpRequest) : Bytes :=
  match resource (segments 47 req.path) with
  | none => (HttpServer.errorResponse 404 (bytes "Not Found")).message
  | some r =>
      if req.method = bytes "GET" then app.replyOf r
      else (HttpServer.errorResponse 405 (bytes "Method Not Allowed")).message

end App

/-- The request opens a chat session, with this key. -/
structure Chats (req : HttpRequest) (key : Bytes) : Prop where
  chat : resource (segments 47 req.path) = some .chat
  get : req.method = bytes "GET"
  key : WebSocket.handshakeKey req.headers = some key

/-! ## The routes have these resources -/

/-- A pattern of literal segments matches these segments and no others. -/
theorem matchSegments_literals {ps : List Bytes}
    (hps : ∀ seg ∈ ps, seg ≠ Route.star ∧ seg.head? ≠ some 58) (params : StrMap)
    (rs : List Bytes) :
    Route.matchSegments params ps rs = if rs = ps then some params else none := by
  induction ps generalizing rs with
  | nil => cases rs <;> rfl
  | cons seg ps ih =>
      obtain ⟨hseg, hps⟩ := List.forall_mem_cons.mp hps
      cases rs with
      | nil => rfl
      | cons r rs =>
          rw [Route.matchSegments_literal hseg.1 hseg.2, ih hps]
          by_cases hr : seg = r
          · simp [hr]
          · simp [hr, Ne.symm hr]

/-- A route without parameters. -/
theorem match_literals (ps : List Bytes)
    (hps : ∀ seg ∈ ps, seg ≠ Route.star ∧ seg.head? ≠ some 58) {pattern : Bytes}
    (hpattern : Route.split pattern = ps) (method : Bytes) (handler : HttpHandler)
    (path : Bytes) :
    Route.match ⟨method, pattern, handler⟩ path
      = if segments 47 path = ps then some ∅ else none := by
  rw [Route.match, hpattern, Route.split_eq, matchSegments_literals hps]

namespace App

variable (app : App)

/-- The handler of a resource. -/
def handlerOf : Resource → HttpHandler
  | .index => index
  | .file _ => app.static
  | .ping => ping
  | .chat => app.ws

/-- A route of `main` matches the paths of its resource. -/
theorem resource_of_match {r : Route} (hr : r ∈ app.server.routes) {path : Bytes}
    {params : StrMap} (h : r.match path = some params) :
    ∃ res, resource (segments 47 path) = some res ∧ r.handler = app.handlerOf res ∧
      ∀ name, res = .file name → bytes "static/" ++ (params[bytes "*"]?).getD [] = name := by
  simp only [server, List.mem_cons, List.not_mem_nil, or_false] at hr
  rcases hr with rfl | rfl | rfl | rfl
  · rw [match_literals [] (by simp) (by decide +kernel)] at h
    split at h
    next hpath => exact ⟨.index, by rw [hpath]; rfl, rfl, by simp⟩
    next => cases h
  · obtain ⟨ss, hpath, hne, hstar⟩ := app.static_captures h
    obtain ⟨b, rest, rfl⟩ := List.exists_cons_of_ne_nil hne
    refine ⟨.file _, by rw [hpath]; rfl, rfl, fun name hname => ?_⟩
    rw [hstar, Option.getD_some]
    exact Resource.file.inj hname
  · rw [match_literals [bytes "api", bytes "ping"] (by decide +kernel) (by decide +kernel)] at h
    split at h
    next hpath => exact ⟨.ping, by rw [hpath]; rfl, rfl, by simp⟩
    next => cases h
  · rw [match_literals [bytes "ws"] (by decide +kernel) (by decide +kernel)] at h
    split at h
    next hpath => exact ⟨.chat, by rw [hpath]; rfl, rfl, by simp⟩
    next => cases h

/-- Each resource has its route. -/
theorem match_of_resource {path : Bytes} {res : Resource}
    (h : resource (segments 47 path) = some res) :
    ∃ r ∈ app.server.routes, (r.match path).isSome := by
  rcases hpath : segments 47 path with _ | ⟨a, _ | ⟨b, rest⟩⟩
  · refine ⟨⟨bytes "GET", bytes "/", index⟩, by simp [server], ?_⟩
    rw [match_literals [] (by simp) (by decide +kernel), hpath]
    rfl
  · rw [hpath, resource] at h
    split at h
    next ha =>
      refine ⟨⟨bytes "GET", bytes "/ws", app.ws⟩, by simp [server], ?_⟩
      rw [match_literals [bytes "ws"] (by decide +kernel) (by decide +kernel), hpath, ha]
      rfl
    next => cases h
  · rw [hpath, resource] at h
    split at h
    next ha =>
      have hpattern : Route.split (bytes "/static/*") = [bytes "static", Route.star] := by
        decide +kernel
      refine ⟨app.staticRoute, by simp [server, staticRoute], ?_⟩
      rw [Route.match, staticRoute, hpattern, Route.split_eq, hpath,
        Route.matchSegments_literal (by decide) (by decide), if_pos ha.symm,
        Route.matchSegments_star]
      rfl
    next =>
      split at h
      next hab =>
        obtain ⟨ha, hb, hrest⟩ := hab
        refine ⟨⟨bytes "GET", bytes "/api/ping", ping⟩, by simp [server], ?_⟩
        rw [match_literals [bytes "api", bytes "ping"] (by decide +kernel) (by decide +kernel),
          hpath, ha, hb, hrest]
        rfl
      next => cases h

/-- What `dispatch` does with a request for a resource. -/
inductive Dispatched (k : Nat) (req : HttpRequest) (w : Wire) : HandlerResult → Prop where
  | missing (h : resource (segments 47 req.path) = none) :
      Dispatched k req w
        ⟨req, .init, HttpServer.sendError w 404 (bytes "Not Found"), false⟩
  | wrongMethod {r : Resource} (h : resource (segments 47 req.path) = some r)
      (hmethod : req.method ≠ bytes "GET") :
      Dispatched k req w
        ⟨req, .init, HttpServer.sendError w 405 (bytes "Method Not Allowed"), false⟩
  | found {r : Resource} (h : resource (segments 47 req.path) = some r)
      (hmethod : req.method = bytes "GET") (j : Nat) (params : StrMap)
      (hfile : ∀ name, r = .file name → fileName { req with params := params } = name) :
      Dispatched k req w (HttpServer.callHandler k (app.handlerOf r)
        { req with params := params } .init (w.record (.handler j)))

theorem dispatched (k : Nat) (req : HttpRequest) (w : Wire) :
    app.Dispatched k req w
      (HttpServer.dispatch k req .init w 0 false app.server.routes) := by
  have hget : ∀ r ∈ app.server.routes, r.method = bytes "GET" := by simp [server]
  have hstar : bytes "GET" ≠ bytes "*" := by decide
  rcases HttpServer.firstMatch_or app.server.routes req with ⟨before, r, params, hfirst⟩ | hnone
  · obtain ⟨after, hsplit⟩ := hfirst.split
    have hr : r ∈ app.server.routes := by simp [hsplit]
    obtain ⟨res, hres, hhandler, hfile⟩ := app.resource_of_match hr hfirst.captures
    have hmethod := hfirst.method
    rw [hget r hr] at hmethod
    rw [HttpServer.dispatch_firstMatch hfirst, hhandler]
    exact .found hres (hmethod.resolve_left hstar).symm _ _ hfile
  · rw [HttpServer.dispatch_unrouted hnone, HttpServer.unrouted]
    split
    next hmatch =>
      obtain ⟨r, hr, hsome⟩ := hmatch
      obtain ⟨params, hparams⟩ := Option.isSome_iff_exists.mp hsome
      obtain ⟨res, hres, -, -⟩ := app.resource_of_match hr hparams
      apply Dispatched.wrongMethod hres
      intro hmethod
      exact hnone r hr ⟨.inr ((hget r hr).trans hmethod.symm), hsome⟩
    next hmatch =>
      apply Dispatched.missing
      cases hres : resource (segments 47 req.path) with
      | none => rfl
      | some res => exact absurd (app.match_of_resource hres) hmatch

/-! ## The reply is what is sent -/

/-- A response composed by hand. -/
theorem sends_raw {w : Wire} (hw : w.Healthy) (data : Bytes) : w.Sends data (w.raw data) := by
  obtain ⟨⟨hopen, hsend⟩, hpending, hsent⟩ := Wire.sends_write hw data
  exact ⟨⟨hopen, hsend⟩, hpending, hsent⟩

/-- **The handlers.** The handler of a resource sends the reply to a GET of it, and does
    not throw. -/
theorem sends_handlerOf {r : Resource} {req : HttpRequest}
    (hfile : ∀ name, r = .file name → fileName req = name)
    (hchat : r = .chat → WebSocket.handshakeKey req.headers = none) (k : Nat) {w : Wire}
    (hw : w.Healthy) :
    ((app.handlerOf r).run k req .init w).threw = false ∧
      w.Sends (app.replyOf r) ((app.handlerOf r).run k req .init w).wire := by
  cases r with
  | index => exact ⟨rfl, sends_raw hw _⟩
  | file name =>
      refine ⟨(app.static_run k req .init w).1, ?_⟩
      rw [← hfile name rfl, replyOf]
      by_cases hbody : app.files (fileName req) = []
      · rw [if_pos hbody, handlerOf, show app.static.run k req .init w = _ from if_pos hbody]
        exact Wire.sends_flush hw ((HttpResponse.init.status 404).setBody
          (bytes "text/plain; charset=utf-8") (bytes "404 Not Found"))
      · rw [if_neg hbody, handlerOf, show app.static.run k req .init w = _ from if_neg hbody]
        exact sends_raw hw _
  | ping =>
      exact ⟨rfl, Wire.sends_flush hw (HttpResponse.init.setBody (bytes "application/json")
        (bytes "\x7b\"status\":\"ok\",\"server\":\"coroutine-http-mt\"\x7d"))⟩
  | chat =>
      -- no handshake, no answer
      simp only [handlerOf, ws, Wire.handshake, hchat rfl]
      exact ⟨rfl, .refl hw⟩

/-- **One request**, other than for a chat: the reply is sent, and nothing else. -/
theorem serve_reply (k : Nat) {req : HttpRequest} {w : Wire} (hw : w.Healthy)
    (hchat : ∀ key, ¬ Chats req key) :
    w.Sends (app.reply req) (app.server.serve k req w).1 := by
  have hout := app.dispatched k req w
  rw [show (app.server.serve k req w).1
    = (HttpServer.dispatch k req .init w 0 false app.server.routes).wire from rfl]
  generalize HttpServer.dispatch k req .init w 0 false app.server.routes = out at hout
  cases hout with
  | missing h =>
      rw [reply, h]
      exact Wire.sends_flush hw _
  | wrongMethod h hmethod =>
      simp only [reply, h, if_neg hmethod]
      exact Wire.sends_flush hw _
  | @found r h hmethod j params hfile =>
      have hkey : r = .chat → WebSocket.handshakeKey req.headers = none := by
        rintro rfl
        cases hkey : WebSocket.handshakeKey req.headers with
        | none => rfl
        | some key => exact absurd ⟨h, hmethod, hkey⟩ (hchat key)
      have hrecord : (w.record (.handler j)).Healthy := ⟨hw.isOpen, hw.send⟩
      obtain ⟨hthrew, hsends⟩ := app.sends_handlerOf hfile hkey k hrecord
      rw [HttpServer.callHandler_returned hthrew]
      simp only [reply, h, if_pos hmethod]
      exact ⟨hsends.healthy, hsends.pending, hsends.sent⟩

/-! ## Runs over requests -/

/-- The turn of a well-formed request: it is parsed, and served on what follows it. -/
theorem turn_wireRequest (k : Nat) {w : Wire} (hw : w.Healthy) {q : WireRequest} {rest : Bytes}
    (hpending : w.pending = q.serialise ++ rest) :
    ∃ w₁ : Wire, w₁.Healthy ∧ w₁.pending = rest ∧ w₁.sent = w.sent ∧
      (app.server.turn k w).exchange.request = some q.parsed ∧
      (app.server.turn k w).wire = (app.server.serve k q.parsed w₁).1 ∧
      (app.server.turn k w).goesOn = q.parsed.keepAlive := by
  obtain ⟨hreq, hleft, hclosed, -⟩ := HttpParser.parse_yields w.conn w.recv .init
  rw [show w.conn.pending w.recv = _ from hpending, q.parseStream_serialise] at hreq hleft hclosed
  rw [hw.isOpen] at hclosed
  obtain ⟨w₁, hparse, hw₁, hrest, hsent⟩ : ∃ w₁ : Wire,
      ({ w with events := [] } : Wire).parse = (some q.parsed, w₁) ∧ w₁.Healthy ∧
        w₁.pending = rest ∧ w₁.sent = w.sent :=
    ⟨_, Prod.ext hreq rfl, ⟨hclosed, hw.send⟩, hleft, rfl⟩
  obtain ⟨hwire, hon⟩ := HttpServer.turn_some app.server k hparse
  exact ⟨w₁, hw₁, hrest, hsent, hreq, hwire, hon.trans (app.serve_cases k q.parsed w₁).1⟩

/-- The turn of a request that is answered by its reply. -/
theorem turn_reply (k : Nat) {w : Wire} (hw : w.Healthy) {q : WireRequest} {rest : Bytes}
    (hpending : w.pending = q.serialise ++ rest) (hchat : ∀ key, ¬ Chats q.parsed key) :
    (app.server.turn k w).wire.Healthy ∧ (app.server.turn k w).wire.pending = rest ∧
      (app.server.turn k w).wire.sent = w.sent ++ app.reply q.parsed := by
  obtain ⟨w₁, hw₁, hrest, hsent, -, hwire, -⟩ := app.turn_wireRequest k hw hpending
  have hsends := app.serve_reply k hw₁ hchat
  rw [hwire]
  exact ⟨hsends.healthy, hsends.pending.trans hrest, hsends.sent.trans (by rw [hsent])⟩

/-- The requests that were parsed in a run. -/
def requests (run : List HttpServer.Exchange) : List HttpRequest :=
  run.filterMap HttpServer.Exchange.request

/-- Nothing happens on a connection that has been read out. -/
theorem handleConnection_readOut (k : Nat) {w : Wire} (hpending : w.pending = []) :
    requests (app.server.handleConnection k w).1 = [] ∧
      (app.server.handleConnection k w).2.sent = w.sent := by
  cases hclosed : w.conn.closed with
  | true =>
      rw [HttpServer.handleConnection_closed hclosed]
      exact ⟨rfl, rfl⟩
  | false =>
      obtain ⟨hreq, hstop, hsent, -, -⟩ := HttpServer.turn_nothing app.server k hpending
      rw [HttpServer.handleConnection_stop hclosed hstop]
      exact ⟨by simp [requests, hreq], hsent⟩

/-- The requests that are served of those that come: all up to the first one that is
    not keep-alive. -/
def served : List WireRequest → List WireRequest
  | [] => []
  | q :: qs => q :: if q.parsed.keepAlive then served qs else []

/-- **Runs over requests**, from any turn on. -/
theorem run_replies (qs : List WireRequest) (hchat : ∀ q ∈ served qs, ∀ key, ¬ Chats q.parsed key)
    (k : Nat) {w : Wire} (hw : w.Healthy)
    (hpending : w.pending = qs.flatMap WireRequest.serialise) :
    requests (app.server.handleConnection k w).1 = (served qs).map WireRequest.parsed ∧
      (app.server.handleConnection k w).2.sent
        = w.sent ++ (served qs).flatMap fun q => app.reply q.parsed := by
  -- on the requests; one of them is one turn of the loop
  induction qs generalizing k w with
  -- the stream is over: the last turn parses nothing
  | nil =>
      obtain ⟨hnone, hsame⟩ := app.handleConnection_readOut k hpending
      exact ⟨hnone, by simp [served, hsame]⟩
  | cons q qs ih =>
      have hfront : w.pending = q.serialise ++ qs.flatMap WireRequest.serialise :=
        hpending.trans List.flatMap_cons
      have hq : ∀ key, ¬ Chats q.parsed key := hchat q (by simp [served])
      obtain ⟨-, -, -, -, hreq, -, hon⟩ := app.turn_wireRequest k hw hfront
      obtain ⟨hw', hrest, hsent⟩ := app.turn_reply k hw hfront hq
      cases hkeep : q.parsed.keepAlive with
      | false =>
          rw [HttpServer.handleConnection_stop hw.isOpen (hon.trans hkeep)]
          simp [requests, served, hkeep, hreq, hsent]
      | true =>
          have hqs : ∀ q' ∈ served qs, ∀ key, ¬ Chats q'.parsed key := fun q' hq' =>
            hchat q' (by simp [served, hkeep, hq'])
          obtain ⟨hrequests, hreplies⟩ := ih hqs (k + 1) hw' hrest
          rw [HttpServer.handleConnection_goesOn hw.isOpen (hon.trans hkeep)]
          simp only [served, hkeep, if_true, List.map_cons, List.flatMap_cons, hreplies, hsent,
            List.append_assoc, and_true, ← hrequests]
          simp [requests, hreq]

/-- What is known of the run on a connection that takes everything, for any other. -/
theorem run_of_ideal (fd : Core.Fd) (recv : RecvScript) (send : SendScript)
    {reqs : List HttpRequest} {data : Bytes}
    (hideal : requests (app.server.handleConnection 0 (.accept fd recv [])).1 = reqs ∧
      (app.server.handleConnection 0 (.accept fd recv [])).2.sent = data) :
    let run := app.server.handleConnection 0 (.accept fd recv send)
    requests run.1 <+: reqs ∧ run.2.sent <+: data ∧
      ((∀ e ∈ send, e.succeeds = true) → requests run.1 = reqs ∧ run.2.sent = data) := by
  obtain ⟨rfl, rfl⟩ := hideal
  have hlags := HttpServer.lags_accept app.failStop_server fd recv send
  obtain ⟨hsent, hrequests⟩ := hlags.cut
  have hid : ∀ run, requests run = (run.map HttpServer.Exchange.request).filterMap id := by
    intro run
    rw [requests, List.filterMap_map]
    rfl
  refine ⟨?_, hsent, fun hall => ?_⟩
  · rw [hid, hid]
    exact hrequests.filterMap id
  · obtain ⟨hsame, hall⟩ := hlags.same hall
    exact ⟨by rw [hsame], hall⟩

/-- **The server of `main` answers each request with its reply.** On a connection that
    receives well-formed requests one after another, in any pieces, none of them for a
    chat: the requests that are parsed are the first ones up to the first that is not
    keep-alive, and what the kernel accepts is a first part of the concatenation of their
    replies, of which that to a `/ws` without a key is empty.  When no `send` fails, whether
    it takes the bytes at once or bit by bit, it is all of them. -/
theorem replies_sent (qs : List WireRequest)
    (hchat : ∀ q ∈ served qs, ∀ key, ¬ Chats q.parsed key) (fd : Core.Fd) (recv : RecvScript)
    (hrecv : recv.bytes = qs.flatMap WireRequest.serialise) (send : SendScript) :
    let run := app.server.handleConnection 0 (.accept fd recv send)
    let replies := (served qs).flatMap fun q => app.reply q.parsed
    requests run.1 <+: (served qs).map WireRequest.parsed ∧ run.2.sent <+: replies ∧
      ((∀ e ∈ send, e.succeeds = true) →
        requests run.1 = (served qs).map WireRequest.parsed ∧ run.2.sent = replies) :=
  app.run_of_ideal fd recv send
    (app.run_replies qs hchat 0 (w := .accept fd recv []) ⟨rfl, by simp [Wire.accept]⟩ hrecv)

theorem isToken_get : IsToken (bytes "GET") := by decide +kernel

theorem upper_get : ∀ b ∈ bytes "GET", ¬ (97 ≤ b ∧ b ≤ 122) := by decide +kernel

theorem nil_within : ([] : Bytes).length ≤ 10 * 1024 * 1024 := by decide

/-- A request for the start page. -/
def getIndex : WireRequest where
  method := bytes "GET"
  target := bytes "//"
  version := bytes "HTTP/1.1"
  headers := [(bytes "Host", bytes "a")]
  body := []
  method_token := isToken_get
  method_upper := upper_get
  target_token := by decide +kernel
  version_token := isToken_http11
  target_safe := by decide +kernel
  names := by decide +kernel
  values := by decide +kernel
  distinct := by simp
  body_le := nil_within
  length_of_body := by simp
  length_value := by decide +kernel

/-- In two pieces, and written two bytes at first. -/
theorem replies_sent_index :
    (quiet.server.handleConnection 0 (.accept 5
        ⟨[.data 71 (bytes "ET // HT"), .eagain, .data 84 (bytes "P/1.1\r\nHost: a\r\n\r\n")], .eof⟩
        [.accept 1, .eagain])).2.sent
      = bytes "HTTP/1.1 302 Found\r\nLocation: /static/chat.html\r\nContent-Length: 0\r\n\r\n" := by
  have hindex : resource (segments 47 getIndex.parsed.path) = some .index := by decide +kernel
  have hmethod : getIndex.parsed.method = bytes "GET" := rfl
  have hserved : served [getIndex] = [getIndex] := by simp [served]
  obtain ⟨-, -, hall⟩ := quiet.replies_sent [getIndex]
    (fun q hq key h => by
      rw [hserved] at hq
      rw [List.mem_singleton.mp hq] at h
      cases hindex.symm.trans h.chat)
    5 ⟨[.data 71 (bytes "ET // HT"), .eagain, .data 84 (bytes "P/1.1\r\nHost: a\r\n\r\n")], .eof⟩
    (by decide +kernel) [.accept 1, .eagain]
  rw [hserved] at hall
  apply (hall (by decide)).2.trans
  simp [reply, hindex, hmethod, replyOf]

end App

/-! ## Chat sessions -/

/-- What a session writes to its own client for the frames it receives, up to a CLOSE. -/
def sessionReply (nick : Bytes) : List WebSocket.WireFrame → Bytes
  | [] => []
  | f :: fs =>
      if f.opcode = WsOpcode.CLOSE then []
      else if f.opcode = WsOpcode.PING then
        WebSocket.encodeFrame WsOpcode.TEXT [] ++ sessionReply nick fs
      else if f.opcode = WsOpcode.TEXT ∧ f.payload ≠ [] then
        WebSocket.encodeFrame WsOpcode.TEXT (chatMessage nick f.payload) ++ sessionReply nick fs
      else sessionReply nick fs

/-- The connection went from `w` to `w'` by sending `data`, and there is nothing left to
    be read on it. -/
structure ReadsOut (w : Wire) (data : Bytes) (w' : Wire) : Prop where
  sent : w'.sent = w.sent ++ data
  pending : w'.pending = []
  healthy : w'.conn.closed = true ∨ w'.Healthy

theorem ReadsOut.after {w w' w'' : Wire} {data data' : Bytes} (h : w'.sent = w.sent ++ data)
    (h' : ReadsOut w' data' w'') : ReadsOut w (data ++ data') w'' :=
  ⟨by rw [h'.sent, h, List.append_assoc], h'.pending, h'.healthy⟩

/-- A broadcast sends its message to the session that makes it. -/
theorem sends_broadcast {w : Wire} (hw : w.Healthy) {v : RoomView}
    (hv : v.closedBefore = false ∧ v.closedAfter = false) (msg : Bytes) :
    w.Sends (WebSocket.encodeFrame WsOpcode.TEXT msg) (w.broadcast v msg) := by
  have hbroadcast : w.broadcast v msg = w.sendText msg := by
    simp [Wire.broadcast, Wire.closedElsewhere, hv.1, hv.2, hw.isOpen]
  rw [hbroadcast]
  exact Wire.sends_write hw _

/-- A received frame, on a connection whose writes succeed. -/
theorem recvFrame_wireFrame {w : Wire} (hw : w.Healthy) {f : WebSocket.WireFrame} {rest : Bytes}
    (hpending : w.pending = f.encode ++ rest) :
    ∃ w' : Wire, w.recvFrame = (some f.frame, w') ∧ w'.Healthy ∧ w'.pending = rest ∧
      w'.sent = w.sent := by
  obtain ⟨hframe, hleft, hclosed, -⟩ := WebSocket.recvFrame_yields hw.isOpen w.recv
  rw [show w.conn.pending w.recv = _ from hpending, WebSocket.frameStream_encode]
    at hframe hleft hclosed
  exact ⟨_, Prod.ext hframe rfl, ⟨hclosed, hw.send⟩, hleft, rfl⟩

/-- **The loop of a session** that receives these frames, a CLOSE at most as the last. -/
theorem sessionLoop_reply (nick : Bytes) {views : Nat → RoomView}
    (hviews : ∀ i, (views i).closedBefore = false ∧ (views i).closedAfter = false)
    (fs : List WebSocket.WireFrame) (hlast : ∀ f ∈ fs.dropLast, f.opcode ≠ WsOpcode.CLOSE)
    (i : Nat) {w : Wire} (hw : w.Healthy)
    (hpending : w.pending = fs.flatMap (·.encode)) :
    ReadsOut w (sessionReply nick fs) (sessionLoop nick views i w) := by
  -- on the frames; what is done about one leaves a connection for the others
  induction fs generalizing i w with
  | nil =>
      obtain ⟨hframe, hleft, hclosed, -⟩ := WebSocket.recvFrame_yields hw.isOpen w.recv
      have hnone : WebSocket.frameStream [] = (none, [], true) := rfl
      rw [show w.conn.pending w.recv = _ from hpending, List.flatMap_nil, hnone]
        at hframe hleft hclosed
      rw [sessionLoop_none (Prod.ext hframe rfl)]
      exact ⟨(List.append_nil _).symm, hleft, .inl hclosed⟩
  | cons f fs ih =>
      rw [List.flatMap_cons] at hpending
      obtain ⟨w', hrecv, hw', hrest, hsent⟩ := recvFrame_wireFrame hw hpending
      have hopcode : f.frame.opcode = f.opcode := rfl
      have hpayload : f.frame.payload = f.payload := rfl
      have hfs : ∀ g ∈ fs.dropLast, g.opcode ≠ WsOpcode.CLOSE := fun g hg =>
        hlast g (by
          cases fs with
          | nil => cases hg
          | cons f' fs => exact List.mem_cons_of_mem _ hg)
      rw [sessionLoop_some hrecv, hopcode, hpayload, sessionReply]
      split
      next hclose =>
        -- nothing follows a CLOSE
        cases fs with
        | nil => exact ⟨by rw [hsent, List.append_nil], hrest, .inr hw'⟩
        | cons f' fs => exact absurd hclose (hlast f (by simp))
      next =>
        split
        next =>
          have hsends := Wire.sends_write hw' (WebSocket.encodeFrame WsOpcode.TEXT [])
          exact .after (hsends.sent.trans (by rw [hsent]))
            (ih hfs i hsends.healthy (hsends.pending.trans hrest))
        next =>
          split
          next =>
            have hsends := sends_broadcast hw' (hviews i) (chatMessage nick f.payload)
            exact .after (hsends.sent.trans (by rw [hsent]))
              (ih hfs (i + 1) hsends.healthy (hsends.pending.trans hrest))
          next =>
            have hout := ih hfs i hw' hrest
            exact ⟨hout.sent.trans (by rw [hsent]), hout.pending, hout.healthy⟩

namespace App

variable (app : App)

/-- The nickname a request gives. -/
def nickOf (req : HttpRequest) : Bytes := req.queryParam (bytes "nick") (bytes "匿名")

/-- A request for a chat is answered by the handshake, and the session follows. -/
theorem serve_chat (k : Nat) {req : HttpRequest} {key : Bytes} (h : Chats req key) (w : Wire) :
    ∃ j, (app.server.serve k req w).1 = session (nickOf req) (app.rooms k)
      (((w.record (.handler j)).write (WebSocket.upgradeResponse app.digest key)).record
        .upgrade) := by
  have hout := app.dispatched k req w
  rw [show (app.server.serve k req w).1
    = (HttpServer.dispatch k req .init w 0 false app.server.routes).wire from rfl]
  generalize HttpServer.dispatch k req .init w 0 false app.server.routes = out at hout
  cases hout with
  | missing h' => cases h'.symm.trans h.chat
  | wrongMethod _ hmethod => exact absurd h.get hmethod
  | @found r h' hmethod j params hfile =>
      obtain rfl : r = .chat := Option.some.inj (h'.symm.trans h.chat)
      have hrun : app.ws.run k { req with params := params } .init (w.record (.handler j))
          = ⟨{ req with params := params }, .init, session (nickOf req) (app.rooms k)
              (((w.record (.handler j)).write (WebSocket.upgradeResponse app.digest key)).record
                .upgrade), false⟩ := by
        simp only [ws, Wire.handshake, h.key]
        rfl
      rw [handlerOf, HttpServer.callHandler_returned (by rw [hrun]), hrun]
      exact ⟨j, rfl⟩

/-- What a chat session writes to its own client: the handshake, the message that it has
    joined, and what its frames come to. -/
def chatReply (req : HttpRequest) (key : Bytes) (views : RoomViews)
    (fs : List WebSocket.WireFrame) : Bytes :=
  WebSocket.upgradeResponse app.digest key ++
    WebSocket.encodeFrame WsOpcode.TEXT
      (joinMessage (nickOf req) views.join.online views.join.users) ++
    sessionReply (nickOf req) fs

/-- The turn of a request for a chat that is followed by frames only. -/
theorem serve_chatReply (k : Nat) {req : HttpRequest} {key : Bytes} (h : Chats req key)
    (hcalm : (app.rooms k).Calm) {fs : List WebSocket.WireFrame}
    (hlast : ∀ f ∈ fs.dropLast, f.opcode ≠ WsOpcode.CLOSE) {w : Wire} (hw : w.Healthy)
    (hpending : w.pending = fs.flatMap (·.encode)) :
    ReadsOut w (app.chatReply req key (app.rooms k) fs) (app.server.serve k req w).1 := by
  obtain ⟨j, hserve⟩ := app.serve_chat k h w
  have hrecord : (w.record (.handler j)).Healthy := ⟨hw.isOpen, hw.send⟩
  obtain ⟨hw₁, hpending₁, hsent₁⟩ :=
    Wire.sends_write hrecord (WebSocket.upgradeResponse app.digest key)
  generalize hw₂ : ((w.record (.handler j)).write
    (WebSocket.upgradeResponse app.digest key)).record .upgrade = w₂ at hserve
  have hhealthy : w₂.Healthy := by rw [← hw₂]; exact ⟨hw₁.isOpen, hw₁.send⟩
  have hpending₂ : w₂.pending = w.pending := by rw [← hw₂]; exact hpending₁
  have hsent₂ : w₂.sent = w.sent ++ WebSocket.upgradeResponse app.digest key := by
    rw [← hw₂]
    exact hsent₁
  have hjoin := sends_broadcast hhealthy hcalm.join
    (joinMessage (nickOf req) (app.rooms k).join.online (app.rooms k).join.users)
  have hloop := sessionLoop_reply (nickOf req) hcalm.chat fs hlast 0 hjoin.healthy
    (hjoin.pending.trans (hpending₂.trans hpending))
  have hsession : session (nickOf req) (app.rooms k) w₂
      = sessionLoop (nickOf req) (app.rooms k).chat 0 (w₂.broadcast (app.rooms k).join
          (joinMessage (nickOf req) (app.rooms k).join.online (app.rooms k).join.users)) := by
    simp [session, Wire.closedElsewhere, hcalm.leave.1, hcalm.leave.2]
  rw [hserve, hsession]
  exact .after (hjoin.sent.trans (by rw [hsent₂, List.append_assoc])) hloop

/-- **Requests, a handshake and a chat on one connection**, from any turn on. -/
theorem run_chat (hcalm : ∀ k, (app.rooms k).Calm) (qs : List WireRequest)
    (hqs : ∀ q ∈ qs, q.parsed.keepAlive = true ∧ ∀ key, ¬ Chats q.parsed key) (q : WireRequest)
    {key : Bytes} (hq : Chats q.parsed key) {fs : List WebSocket.WireFrame}
    (hlast : ∀ f ∈ fs.dropLast, f.opcode ≠ WsOpcode.CLOSE) (k : Nat) {w : Wire} (hw : w.Healthy)
    (hpending : w.pending = qs.flatMap WireRequest.serialise ++
      (q.serialise ++ fs.flatMap (·.encode))) :
    requests (app.server.handleConnection k w).1 = (qs ++ [q]).map WireRequest.parsed ∧
      (app.server.handleConnection k w).2.sent = w.sent ++
        ((qs.flatMap fun q => app.reply q.parsed) ++
          app.chatReply q.parsed key (app.rooms (k + qs.length)) fs) := by
  -- on the requests before the handshake
  induction qs generalizing k w with
  | nil =>
      obtain ⟨w₁, hw₁, hrest, hsent, hreq, hwire, hon⟩ := app.turn_wireRequest k hw hpending
      have hchat := app.serve_chatReply k hq (hcalm k) hlast hw₁ hrest
      rw [← hwire] at hchat
      cases hkeep : q.parsed.keepAlive with
      | false =>
          rw [HttpServer.handleConnection_stop hw.isOpen (hon.trans hkeep)]
          exact ⟨by simp [requests, hreq], hchat.sent.trans (by rw [hsent]; rfl)⟩
      | true =>
          obtain ⟨hnone, hsame⟩ := app.handleConnection_readOut (k + 1) hchat.pending
          rw [HttpServer.handleConnection_goesOn hw.isOpen (hon.trans hkeep)]
          refine ⟨?_, hsame.trans (hchat.sent.trans (by rw [hsent]; rfl))⟩
          simp only [requests] at hnone ⊢
          simp [hreq, hnone]
  | cons q' qs ih =>
      obtain ⟨⟨hkeep, hnot⟩, hqs⟩ := List.forall_mem_cons.mp hqs
      rw [List.flatMap_cons, List.append_assoc] at hpending
      obtain ⟨-, -, -, -, hreq, -, hon⟩ := app.turn_wireRequest k hw hpending
      obtain ⟨hw', hrest, hsent⟩ := app.turn_reply k hw hpending hnot
      obtain ⟨hrequests, hreplies⟩ := ih hqs (k + 1) hw' hrest
      rw [HttpServer.handleConnection_goesOn hw.isOpen (hon.trans hkeep)]
      constructor
      · simp only [requests] at hrequests ⊢
        simp [hreq, hrequests]
      · rw [hreplies, hsent, List.flatMap_cons, List.length_cons, Nat.add_assoc, Nat.add_comm 1]
        simp only [List.append_assoc]

/-- **A client that asks for pages and then chats.** The connection receives well-formed
    keep-alive requests, a handshake request and then frames of RFC 6455, a CLOSE at most
    as the last, in any pieces, and no other session closes it.  Nothing but these
    requests is parsed; and what the kernel accepts is a first part of the replies to the
    requests in order, the 101 response, the message of the join and, for each frame up
    to the CLOSE, what the session has to say to it.  When no `send` fails it is all of
    that.  Nobody but the session writes on the connection (`RoomView`). -/
theorem chat_sent (hcalm : ∀ k, (app.rooms k).Calm) (qs : List WireRequest)
    (hqs : ∀ q ∈ qs, q.parsed.keepAlive = true ∧ ∀ key, ¬ Chats q.parsed key) (q : WireRequest)
    (key : Bytes) (hq : Chats q.parsed key) (fs : List WebSocket.WireFrame)
    (hlast : ∀ f ∈ fs.dropLast, f.opcode ≠ WsOpcode.CLOSE) (fd : Core.Fd) (recv : RecvScript)
    (hrecv : recv.bytes = qs.flatMap WireRequest.serialise ++
      (q.serialise ++ fs.flatMap (·.encode))) (send : SendScript) :
    let run := app.server.handleConnection 0 (.accept fd recv send)
    let data := (qs.flatMap fun q => app.reply q.parsed) ++
      app.chatReply q.parsed key (app.rooms qs.length) fs
    requests run.1 <+: (qs ++ [q]).map WireRequest.parsed ∧ run.2.sent <+: data ∧
      ((∀ e ∈ send, e.succeeds = true) →
        requests run.1 = (qs ++ [q]).map WireRequest.parsed ∧ run.2.sent = data) := by
  have hideal := app.run_chat hcalm qs hqs q hq hlast 0
    (w := .accept fd recv []) ⟨rfl, by simp [Wire.accept]⟩ hrecv
  rw [Nat.zero_add] at hideal
  exact app.run_of_ideal fd recv send hideal

/-- A handshake request. -/
def getChat : WireRequest where
  method := bytes "GET"
  target := bytes "/ws?nick=ann"
  version := bytes "HTTP/1.1"
  headers := [(bytes "Sec-WebSocket-Key", bytes "k")]
  body := []
  method_token := isToken_get
  method_upper := upper_get
  target_token := by decide +kernel
  version_token := isToken_http11
  target_safe := by decide +kernel
  names := by decide +kernel
  values := by decide +kernel
  distinct := by simp
  body_le := nil_within
  length_of_body := by simp
  length_value := by decide +kernel

/-- `hi`, masked, and a CLOSE. -/
theorem chat_sent_hi :
    (quiet.server.handleConnection 0 (.accept 5
        ⟨[.data 71 (bytes "ET /ws?nick=ann HTTP/1.1\r\nSec-WebSocket-Key: k\r\n\r\n" ++ [0x81]),
          .eagain, .data 0x82 [1, 2, 3, 4, 105, 107, 0x88, 0]], .eof⟩ [.accept 6])).2.sent
      = quiet.chatReply getChat.parsed (bytes "k") (quiet.rooms 0)
          [⟨⟨true, 1, bytes "hi", some [1, 2, 3, 4], .bits7, by decide, by simp, by decide⟩,
              by decide⟩,
            ⟨⟨true, 8, [], none, .bits7, by decide, by simp, by decide⟩, by decide⟩] :=
  ((quiet.chat_sent (fun _ => ⟨⟨rfl, rfl⟩, fun _ => ⟨rfl, rfl⟩, ⟨rfl, rfl⟩⟩) [] (by simp) getChat
    (bytes "k") ⟨by decide +kernel, by decide +kernel, by decide +kernel⟩ _ (by simp; decide) 5
    ⟨[.data 71 (bytes "ET /ws?nick=ann HTTP/1.1\r\nSec-WebSocket-Key: k\r\n\r\n" ++ [0x81]),
      .eagain, .data 0x82 [1, 2, 3, 4, 105, 107, 0x88, 0]], .eof⟩ (by decide +kernel)
    [.accept 6]).2.2 (by decide)).2

end App

end CoroutineHttp.Ws
