/-
  CoroutineHttp.Http.Server

  `Route::match` and the request path of `class HttpServer`: the keep-alive loop
  of `handle_connection`, the middlewares, `dispatch` and `send_error`.

  A `Wire` is one accepted connection with what the kernel will answer on it, the
  bytes it accepted so far and the events of the current turn of the loop.
  Handlers are arbitrary functions on it that read from the connection but put no
  bytes back; the number they are called with is the number of the turn, so that
  they may answer equal requests differently.
-/

import CoroutineHttp.Http.Framing
import CoroutineHttp.Http.Response

namespace CoroutineHttp.Http

open CoroutineHttp.Library CoroutineHttp.Net

/-! ## The connection of a handler -/

/-- What happens on a connection, for the record. -/
inductive Event where
  | middleware (i : Nat)
  | handler (i : Nat)
  /-- `HttpResponse::flush` wrote a response: the object it left and the message. -/
  | response (res : HttpResponse) (message : Bytes)
  /-- `conn.write` of bytes that are no `HttpResponse`. -/
  | raw (data : Bytes)
  /-- `WebSocket::handshake` wrote its 101 response. -/
  | upgrade

namespace Event

/-- The event is a call of a middleware or of a handler. -/
def invokes : Event → Bool
  | .middleware _ | .handler _ => true
  | _ => false

/-- The event is an HTTP message to the client. -/
def writesHttp : Event → Bool
  | .response _ _ | .raw _ | .upgrade => true
  | _ => false

/-- The response that was written, if the event is one. -/
def response? : Event → Option (HttpResponse × Bytes)
  | .response res message => some (res, message)
  | _ => none

end Event

/-- A connection in the hands of the server. -/
structure Wire where
  conn : Connection
  recv : RecvScript
  send : SendScript
  sent : Bytes
  events : List Event

namespace Wire

/-- An accepted connection. -/
def accept (fd : Core.Fd) (recv : RecvScript) (send : SendScript) : Wire :=
  ⟨.init fd, recv, send, [], []⟩

/-- The bytes the peer has still to deliver. -/
def pending (w : Wire) : Bytes := w.conn.pending w.recv

def record (w : Wire) (e : Event) : Wire := { w with events := w.events ++ [e] }

/-- `conn.write(data)`. -/
def write (w : Wire) (data : Bytes) : Wire :=
  let (_, conn, send, accepted) := w.conn.write w.send data
  { w with conn := conn, send := send, sent := w.sent ++ accepted }

/-- `res.flush(conn)`. -/
def flush (w : Wire) (res : HttpResponse) : Wire :=
  (w.write res.message).record (.response res.flushed res.message)

/-- One call on a response object. -/
def call (w : Wire) (res : HttpResponse) (c : HttpResponse.ResCall) : Wire :=
  match res.toFlush c with
  | some r => w.flush r
  | none => w

/-- `HttpParser::parse(conn, req)` on a new request. -/
def parse (w : Wire) : Option HttpRequest × Wire :=
  let (req, conn, recv) := HttpParser.parse w.conn w.recv .init
  (req, { w with conn := conn, recv := recv })

theorem flush_closed (w : Wire) (res : HttpResponse) : (w.flush res).conn.closed
    = (w.conn.closed || Connection.failsBefore res.message.length w.send) :=
  w.conn.write_closed w.send res.message

@[simp] theorem pending_record (w : Wire) (e : Event) : (w.record e).pending = w.pending := rfl

end Wire

/-! ## Routes -/

/-- What a call of a handler leaves behind. -/
structure HandlerResult where
  req : HttpRequest
  res : HttpResponse
  wire : Wire
  /-- It ended with an exception. -/
  threw : Bool

/-- `HttpHandler`. -/
structure HttpHandler where
  run : Nat → HttpRequest → HttpResponse → Wire → HandlerResult
  /-- It can only take bytes from the connection. -/
  reads : ∀ turn req res w, (run turn req res w).wire.pending.length ≤ w.pending.length

/-- `struct Route`. -/
structure Route where
  method : Bytes
  pattern : Bytes
  handler : HttpHandler

namespace Route

/-- The `split` of `match`: the non-empty segments. -/
def split (s : Bytes) : List Bytes := (getlines 47 s).filter (· ≠ [])

/-- The loop of `match` over the segments of the pattern and of the path. -/
def matchSegments (params : StrMap) : List Bytes → List Bytes → Option StrMap
  -- both sides used up
  | [], [] => some params
  | seg :: ps, r :: rs =>
      -- takes the rest of the path, whatever follows in the pattern
      if seg = bytes "*" then
        some (params.insert (bytes "*") (List.intercalate (bytes "/") (r :: rs)))
      else if seg.head? = some 58 then matchSegments (params.insert seg.tail r) ps rs
      else if seg ≠ r then none
      else matchSegments params ps rs
  -- one side is longer; a `*` does not match an empty rest
  | _, _ => none

/-- `Route::match`: the parameters, if it returns true. -/
def «match» (r : Route) (path : Bytes) : Option StrMap :=
  matchSegments ∅ (split r.pattern) (split path)

end Route

/-! ## The server -/

/-- What a middleware answers. -/
inductive Verdict where
  | pass
  | stop
  | threw
deriving DecidableEq, Repr

/-- What a call of a middleware leaves behind. -/
structure MiddlewareResult where
  req : HttpRequest
  res : HttpResponse
  wire : Wire
  verdict : Verdict

/-- `HttpServer::Middleware`. -/
structure Middleware where
  run : Nat → HttpRequest → HttpResponse → Wire → MiddlewareResult
  reads : ∀ turn req res w, (run turn req res w).wire.pending.length ≤ w.pending.length

/-- `class HttpServer`, as far as it handles requests. -/
structure HttpServer where
  routes : List Route
  middlewares : List Middleware

namespace HttpServer

/-- The response `send_error` flushes. -/
def errorResponse (code : Int) (msg : Bytes) : HttpResponse :=
  ((HttpResponse.init.status code).header (bytes "Connection") (bytes "close")).setBody
    (bytes "application/json")
    (bytes "\x7b\"error\":\"" ++ msg ++ bytes "\",\"code\":" ++ intDec code ++ bytes "\x7d")

/-- `send_error`. -/
def sendError (w : Wire) (code : Int) (msg : Bytes) : Wire := w.flush (errorResponse code msg)

/-- The middlewares, from number `i` on, until one does not pass. -/
def runMiddlewares (turn : Nat) (req : HttpRequest) (res : HttpResponse) (w : Wire) :
    Nat → List Middleware → MiddlewareResult
  | _, [] => ⟨req, res, w, .pass⟩
  | i, mw :: mws =>
      let out := mw.run turn req res (w.record (.middleware i))
      match out.verdict with
      | .pass => runMiddlewares turn out.req out.res out.wire (i + 1) mws
      -- `break`, or the exception
      | _ => out

/-- The `try` block of `dispatch`. -/
def callHandler (turn : Nat) (handler : HttpHandler) (req : HttpRequest) (res : HttpResponse)
    (w : Wire) : HandlerResult :=
  let out := handler.run turn req res w
  if out.threw then
    { out with
      -- nothing keeps a handler from having answered before it throws
      wire :=
        if out.wire.conn.closed then out.wire
        else sendError out.wire 500 (bytes "Internal Server Error")
      threw := false }
  else out

/-- The loop of `dispatch` over the routes from number `i` on. -/
def dispatch (turn : Nat) (req : HttpRequest) (res : HttpResponse) (w : Wire) :
    Nat → Bool → List Route → HandlerResult
  | _, pathMatched, [] =>
      ⟨req, res,
        if pathMatched then sendError w 405 (bytes "Method Not Allowed")
        else sendError w 404 (bytes "Not Found"), false⟩
  | i, pathMatched, r :: rs =>
      match r.match req.path with
      | none => dispatch turn req res w (i + 1) pathMatched rs
      | some params =>
          if r.method ≠ bytes "*" ∧ r.method ≠ req.method then
            -- a later route may still have the method
            dispatch turn req res w (i + 1) true rs
          else
            callHandler turn r.handler { req with params := params } res (w.record (.handler i))

/-- One turn of the loop of `handle_connection`, for the record. -/
structure Exchange where
  turn : Nat
  /-- What `parse` returned, what it took from the stream and what it left. -/
  request : Option HttpRequest
  taken : Bytes
  left : Bytes
  events : List Event
  /-- What the kernel accepted. -/
  accepted : Bytes
  /-- The loop is left by `break`, or by an exception. -/
  stops : Bool
  /-- `conn.is_closed()` at the end of the turn. -/
  closed : Bool

/-- The responses of the turn: the objects and the messages. -/
def Exchange.responses (x : Exchange) : List (HttpResponse × Bytes) :=
  x.events.filterMap Event.response?

/-- How a turn ends: with the loop going on, or left. -/
structure Turn where
  exchange : Exchange
  wire : Wire
  goesOn : Bool

/-- The part of a turn after a successful `parse`: the connection it leaves, and
    whether the loop goes on. -/
def serve (srv : HttpServer) (k : Nat) (req : HttpRequest) (w : Wire) : Wire × Bool :=
  let mws := runMiddlewares k req .init w 0 srv.middlewares
  match mws.verdict with
  | .threw => (mws.wire, false) -- the exception leaves `handle_connection`
  -- no `dispatch`, but the same test of `keep_alive`
  | .stop => (mws.wire, mws.req.keepAlive)
  | .pass =>
      let out := dispatch k mws.req mws.res mws.wire 0 false srv.routes
      (out.wire, out.req.keepAlive)

/-- The part of a turn after a failed `parse`. -/
def refuse (w : Wire) : Wire :=
  -- the peer is gone, or sent something that is no request
  if w.conn.closed then w else sendError w 400 (bytes "Bad Request")

/-- One turn of the loop: everything after the test of `while`. -/
def turn (srv : HttpServer) (k : Nat) (w : Wire) : Turn :=
  let (req, w₁) := { w with events := [] }.parse
  let (w', on) :=
    match req with
    | none => (refuse w₁, false)
    | some req => srv.serve k req w₁
  { exchange :=
      { turn := k
        request := req
        taken := w.pending.take (w.pending.length - w₁.pending.length)
        left := w₁.pending
        events := w'.events
        accepted := w'.sent.drop w.sent.length
        stops := !on
        closed := w'.conn.closed }
    wire := w'
    goesOn := on }

section Turn

variable (srv : HttpServer) (k : Nat) {w w₁ : Wire} {req : HttpRequest}

theorem turn_exchange (w : Wire) :
    (srv.turn k w).exchange.turn = k ∧
      (srv.turn k w).exchange.request = w.parse.1 ∧
      (srv.turn k w).exchange.events = (srv.turn k w).wire.events ∧
      (srv.turn k w).exchange.stops = !(srv.turn k w).goesOn ∧
      (srv.turn k w).exchange.closed = (srv.turn k w).wire.conn.closed :=
  ⟨rfl, rfl, rfl, rfl, rfl⟩

theorem turn_none (h : ({ w with events := [] } : Wire).parse = (none, w₁)) :
    (srv.turn k w).wire = refuse w₁ ∧ (srv.turn k w).goesOn = false := by
  simp [turn, h]

theorem turn_some (h : ({ w with events := [] } : Wire).parse = (some req, w₁)) :
    (srv.turn k w).wire = (srv.serve k req w₁).1 ∧
      (srv.turn k w).goesOn = (srv.serve k req w₁).2 := by
  simp [turn, h]

/-- `parse` gets a byte if there is one. -/
theorem taken_ne_nil (hpending : w.pending ≠ []) : (srv.turn k w).exchange.taken ≠ [] := by
  obtain ⟨-, hleft, -, -⟩ := HttpParser.parse_yields w.conn w.recv .init
  have hshort := HttpParser.parseStream_left hpending .init
  have htaken : (srv.turn k w).exchange.taken
      = w.pending.take (w.pending.length - (srv.turn k w).exchange.left.length) := rfl
  have hleft' : (srv.turn k w).exchange.left
      = (HttpParser.parseStream w.pending .init).2.1 := hleft
  intro hnil
  have hlen := congrArg List.length (htaken.symm.trans hnil)
  rw [hleft', List.length_take, List.length_nil] at hlen
  omega

/-- With nothing to parse, nothing happens. -/
theorem turn_nothing (hpending : w.pending = []) :
    (srv.turn k w).exchange.request = none ∧ (srv.turn k w).goesOn = false ∧
      (srv.turn k w).wire.sent = w.sent ∧ (srv.turn k w).exchange.taken = [] ∧
      (srv.turn k w).exchange.events = [] := by
  obtain ⟨hreq, -, hclosed, -⟩ := HttpParser.parse_yields w.conn w.recv .init
  have hnil : HttpParser.parseStream [] .init = (none, [], true) := rfl
  rw [show w.conn.pending w.recv = _ from hpending, hnil] at hreq hclosed
  rw [Bool.or_true] at hclosed
  obtain ⟨w₁, hparse, hclosed₁, hsent, hevents⟩ : ∃ w₁,
      ({ w with events := [] } : Wire).parse = (none, w₁) ∧ w₁.conn.closed = true ∧
        w₁.sent = w.sent ∧ w₁.events = [] := ⟨_, Prod.ext hreq rfl, hclosed, rfl, rfl⟩
  obtain ⟨hwire, hstop⟩ := turn_none srv k hparse
  rw [refuse, if_pos hclosed₁] at hwire
  refine ⟨hreq, hstop, by rw [hwire, hsent], ?_, ?_⟩
  · have htaken : (srv.turn k w).exchange.taken
        = w.pending.take (w.pending.length - (srv.turn k w).exchange.left.length) := rfl
    rw [htaken, hpending, List.take_nil]
  · rw [(srv.turn_exchange k w).2.2.1, hwire, hevents]

end Turn

/-- `dispatch` ends in an error response, or in a call of one handler. -/
theorem dispatch_cases (turn : Nat) (req : HttpRequest) (res : HttpResponse) (w : Wire) (i : Nat)
    (pathMatched : Bool) (routes : List Route) :
    (∃ code msg, dispatch turn req res w i pathMatched routes
        = ⟨req, res, sendError w code msg, false⟩) ∨
      ∃ r ∈ routes, ∃ j params, dispatch turn req res w i pathMatched routes
        = callHandler turn r.handler { req with params := params } res (w.record (.handler j)) := by
  -- on the routes; passing one over changes neither request nor response
  induction routes generalizing i pathMatched with
  | nil => cases pathMatched <;> exact .inl ⟨_, _, rfl⟩
  | cons r rs ih =>
      have hmem : ∀ r' ∈ rs, r' ∈ r :: rs := fun r' hr' => List.mem_cons_of_mem r hr'
      simp only [dispatch]
      split
      · exact (ih _ _).imp_right fun ⟨r', hr', h⟩ => ⟨r', hmem r' hr', h⟩
      next params _ =>
        split
        · exact (ih _ _).imp_right fun ⟨r', hr', h⟩ => ⟨r', hmem r' hr', h⟩
        · exact .inr ⟨r, List.mem_cons_self, i, params, rfl⟩

/-! ## Termination -/

theorem pending_write (w : Wire) (data : Bytes) :
    (w.write data).pending.length ≤ w.pending.length := by
  have hbuf : (w.conn.write w.send data).2.1.readBuf = w.conn.readBuf := by
    unfold Connection.write
    split <;> rfl
  have hclosed := w.conn.write_closed w.send data
  simp only [Wire.pending, Wire.write, Connection.pending, hbuf, hclosed]
  cases w.conn.closed <;> cases Connection.failsBefore data.length w.send <;> simp

theorem pending_flush (w : Wire) (res : HttpResponse) :
    (w.flush res).pending.length ≤ w.pending.length := pending_write w _

theorem pending_runMiddlewares (turn : Nat) (mws : List Middleware) (req : HttpRequest)
    (res : HttpResponse) (w : Wire) (i : Nat) :
    (runMiddlewares turn req res w i mws).wire.pending.length ≤ w.pending.length := by
  induction mws generalizing req res w i with
  | nil => exact le_rfl
  | cons mw mws ih =>
      have hmw := mw.reads turn req res (w.record (.middleware i))
      simp only [runMiddlewares]
      split
      · exact (ih _ _ _ _).trans hmw
      · exact hmw

section CallHandler

variable {turn : Nat} {handler : HttpHandler} {req : HttpRequest} {res : HttpResponse} {w : Wire}

theorem callHandler_returned (h : (handler.run turn req res w).threw = false) :
    callHandler turn handler req res w = handler.run turn req res w := by
  simp [callHandler, h]

theorem callHandler_threw_closed (h : (handler.run turn req res w).threw = true)
    (hclosed : (handler.run turn req res w).wire.conn.closed = true) :
    callHandler turn handler req res w = { handler.run turn req res w with threw := false } := by
  simp [callHandler, h, hclosed]

theorem callHandler_threw_open (h : (handler.run turn req res w).threw = true)
    (hopen : (handler.run turn req res w).wire.conn.closed = false) :
    callHandler turn handler req res w = { handler.run turn req res w with
      wire := sendError (handler.run turn req res w).wire 500 (bytes "Internal Server Error")
      threw := false } := by
  simp [callHandler, h, hopen]

end CallHandler

theorem pending_callHandler (turn : Nat) (handler : HttpHandler) (req : HttpRequest)
    (res : HttpResponse) (w : Wire) :
    (callHandler turn handler req res w).wire.pending.length ≤ w.pending.length := by
  have hrun := handler.reads turn req res w
  simp only [callHandler]
  split
  · simp only
    split
    · exact hrun
    · exact (pending_flush _ _).trans hrun
  · exact hrun

theorem pending_dispatch (turn : Nat) (routes : List Route) (req : HttpRequest)
    (res : HttpResponse) (w : Wire) (i : Nat) (pathMatched : Bool) :
    (dispatch turn req res w i pathMatched routes).wire.pending.length ≤ w.pending.length := by
  induction routes generalizing i pathMatched with
  | nil => cases pathMatched <;> exact pending_flush w _
  | cons r rs ih =>
      unfold dispatch
      split
      · exact ih _ _
      next params _ =>
        split
        · exact ih _ _
        · exact pending_callHandler turn r.handler _ res _

/-- A request takes at least one byte. -/
theorem pending_parse {w w' : Wire} {req : HttpRequest} (h : w.parse = (some req, w')) :
    w'.pending.length < w.pending.length := by
  obtain ⟨hreq, hleft, -, -⟩ := HttpParser.parse_yields w.conn w.recv .init
  simp only [Wire.parse, Prod.mk.injEq] at h
  obtain ⟨hsome, rfl⟩ := h
  simp only [Wire.pending, hleft]
  refine HttpParser.parseStream_left (fun hnil => ?_) .init
  rw [hnil, show (HttpParser.parseStream [] .init).1 = none from rfl, hsome] at hreq
  cases hreq

theorem pending_serve (srv : HttpServer) (k : Nat) (req : HttpRequest) (w : Wire) :
    (srv.serve k req w).1.pending.length ≤ w.pending.length := by
  have hmws := pending_runMiddlewares k srv.middlewares req .init w 0
  simp only [serve]
  split
  · exact hmws
  · exact hmws
  · exact (pending_dispatch k srv.routes _ _ _ 0 false).trans hmws

theorem pending_turn {srv : HttpServer} {k : Nat} {w : Wire} (h : (srv.turn k w).goesOn) :
    (srv.turn k w).wire.pending.length < w.pending.length := by
  obtain ⟨req, w₁, hparse⟩ : ∃ req w₁, ({ w with events := [] } : Wire).parse = (req, w₁) :=
    ⟨_, _, rfl⟩
  cases req with
  | none => simp [(turn_none srv k hparse).2] at h
  | some req =>
      rw [(turn_some srv k hparse).1]
      exact (pending_serve srv k req w₁).trans_lt
        (pending_parse (w := { w with events := [] }) hparse)

/-- `handle_connection`: the turns of the loop and the connection it leaves. -/
def handleConnection (srv : HttpServer) (k : Nat) (w : Wire) : List Exchange × Wire :=
  if w.conn.closed then ([], w)
  else
    let t := srv.turn k w
    if _h : t.goesOn then
      let (exchanges, w') := srv.handleConnection (k + 1) t.wire
      (t.exchange :: exchanges, w')
    else ([t.exchange], t.wire)
termination_by w.pending.length
decreasing_by exact pending_turn _h

section Loop

variable {srv : HttpServer} {k : Nat} {w : Wire}

theorem handleConnection_closed (h : w.conn.closed = true) :
    srv.handleConnection k w = ([], w) := by
  unfold handleConnection
  rw [if_pos h]

theorem handleConnection_stop (hopen : w.conn.closed = false)
    (hstop : (srv.turn k w).goesOn = false) :
    srv.handleConnection k w = ([(srv.turn k w).exchange], (srv.turn k w).wire) := by
  unfold handleConnection
  rw [if_neg (by simp [hopen]), dif_neg (by simp [hstop])]

theorem handleConnection_goesOn (hopen : w.conn.closed = false)
    (hon : (srv.turn k w).goesOn = true) :
    srv.handleConnection k w
      = ((srv.turn k w).exchange :: (srv.handleConnection (k + 1) (srv.turn k w).wire).1,
          (srv.handleConnection (k + 1) (srv.turn k w).wire).2) := by
  rw [handleConnection, if_neg (by simp [hopen]), dif_pos hon]

/-- An open connection gets its first turn. -/
theorem exchange_mem_handleConnection (hopen : w.conn.closed = false) :
    (srv.turn k w).exchange ∈ (srv.handleConnection k w).1 := by
  cases hon : (srv.turn k w).goesOn with
  | false => simp [handleConnection_stop hopen hon]
  | true => simp [handleConnection_goesOn hopen hon]

/-- The loop, in turn `k` on `w`, comes to turn `k'` on `w'`. -/
inductive Reaches (srv : HttpServer) : Nat → Wire → Nat → Wire → Prop where
  | here {k : Nat} {w : Wire} (hopen : w.conn.closed = false) : Reaches srv k w k w
  | later {k k' : Nat} {w w' : Wire} (hopen : w.conn.closed = false)
      (hon : (srv.turn k w).goesOn = true)
      (h : Reaches srv (k + 1) (srv.turn k w).wire k' w') : Reaches srv k w k' w'

theorem open_of_reaches {k' : Nat} {w' : Wire} (h : Reaches srv k w k' w') :
    w.conn.closed = false := by
  cases h with
  | here hopen => exact hopen
  | later hopen _ _ => exact hopen

/-- What holds of the turns of a run holds of the first, and of those behind it. -/
theorem forall_reaches_iff {P : Nat → Wire → Prop} (hopen : w.conn.closed = false) :
    (∀ k' w', Reaches srv k w k' w' → P k' w') ↔
      P k w ∧ ((srv.turn k w).goesOn = true →
        ∀ k' w', Reaches srv (k + 1) (srv.turn k w).wire k' w' → P k' w') := by
  constructor
  · intro hall
    exact ⟨hall k w (.here hopen), fun hon k' w' h => hall k' w' (.later hopen hon h)⟩
  · rintro ⟨hfirst, hrest⟩ k' w' h
    cases h with
    | here => exact hfirst
    | later _ hon h => exact hrest hon k' w' h

/-- The exchanges of a run are those of the turns the loop comes to. -/
theorem mem_handleConnection_iff {x : Exchange} : x ∈ (srv.handleConnection k w).1 ↔
    ∃ k' w', Reaches srv k w k' w' ∧ (srv.turn k' w').exchange = x := by
  constructor
  · intro hx
    induction k, w using HttpServer.handleConnection.induct srv with
    | case1 k w hclosed => simp [handleConnection_closed hclosed] at hx
    | case2 k w hclosed t hon exchanges wEnd hrest ih =>
        have hopen : w.conn.closed = false := by simpa using hclosed
        rw [handleConnection_goesOn hopen hon] at hx
        rcases List.mem_cons.mp hx with rfl | hx
        · exact ⟨k, w, .here hopen, rfl⟩
        · obtain ⟨k', w', h, hx'⟩ := ih hx
          exact ⟨k', w', .later hopen hon h, hx'⟩
    | case3 k w hclosed t hstop =>
        have hopen : w.conn.closed = false := by simpa using hclosed
        rw [handleConnection_stop hopen (by simpa using hstop)] at hx
        exact ⟨k, w, .here hopen, (List.mem_singleton.mp hx).symm⟩
  · rintro ⟨k', w', h, rfl⟩
    induction h with
    | here hopen => exact exchange_mem_handleConnection hopen
    | later hopen hon h ih =>
        rw [handleConnection_goesOn hopen hon]
        exact List.mem_cons_of_mem _ ih

/-- What follows a turn in a run. -/
theorem handleConnection_split {before after : List Exchange} {x : Exchange}
    (h : (srv.handleConnection k w).1 = before ++ x :: after) :
    ∃ k' w', w'.conn.closed = false ∧ (srv.turn k' w').exchange = x ∧
      after = if (srv.turn k' w').goesOn then
        (srv.handleConnection (k' + 1) (srv.turn k' w').wire).1 else [] := by
  -- on the turns before; each of them went on, or there would be no next
  induction before generalizing k w with
  | nil =>
      cases hclosed : w.conn.closed with
      | true => simp [handleConnection_closed hclosed] at h
      | false =>
          refine ⟨k, w, hclosed, ?_⟩
          cases hon : (srv.turn k w).goesOn with
          | false =>
              rw [handleConnection_stop hclosed hon, List.nil_append, List.cons.injEq] at h
              exact ⟨h.1, by simpa using h.2.symm⟩
          | true =>
              rw [handleConnection_goesOn hclosed hon, List.nil_append, List.cons.injEq] at h
              exact ⟨h.1, by simpa using h.2.symm⟩
  | cons y before ih =>
      cases hclosed : w.conn.closed with
      | true => simp [handleConnection_closed hclosed] at h
      | false =>
          cases hon : (srv.turn k w).goesOn with
          | false => simp [handleConnection_stop hclosed hon] at h
          | true =>
              rw [handleConnection_goesOn hclosed hon, List.cons_append, List.cons.injEq] at h
              exact ih h.2

/-- Nothing follows a turn on a connection that is still open if and only if the
    loop is left. -/
theorem after_eq_nil_iff {before after : List Exchange} {x : Exchange}
    (h : (srv.handleConnection k w).1 = before ++ x :: after) (hopen : x.closed = false) :
    after = [] ↔ x.stops = true := by
  obtain ⟨k', w', -, rfl, hafter⟩ := handleConnection_split h
  obtain ⟨-, -, -, hstops, hclosed⟩ := srv.turn_exchange k' w'
  rw [hclosed] at hopen
  rw [hstops, hafter]
  cases (srv.turn k' w').goesOn with
  | false => simp
  | true =>
      have hnext : _ ∈ (srv.handleConnection (k' + 1) (srv.turn k' w').wire).1 :=
        exchange_mem_handleConnection hopen
      simpa using List.ne_nil_of_mem hnext

end Loop

end HttpServer

end CoroutineHttp.Http
