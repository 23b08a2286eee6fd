/-
  CoroutineHttp.Ws.App

  The server of `main.cpp`: its four routes, with the `/ws` session as seen from its
  own connection.  What the session learns of the room, and whether another session
  closes the connection while this one is suspended in a broadcast, is given beforehand
  (`RoomView`); so are the files and the functions of OpenSSL.  No other session's
  broadcast puts bytes on the connection here: several writers on one connection are
  the subject of `Chat`.
-/

import CoroutineHttp.Ws.ChatRoom

namespace CoroutineHttp.Ws

open CoroutineHttp.Library CoroutineHttp.Net CoroutineHttp.Http

/-! ## The chat room from one connection -/

/-- The room during one broadcast, of a session on whose connection nobody else writes. -/
structure RoomView where
  /-- What `size()` and `nicks_json()` answer. -/
  online : Nat
  users : Bytes
  /-- The write of another session has set `closed_` of this connection, by the time
      its turn comes or by the end of the loop. -/
  closedBefore : Bool
  closedAfter : Bool

/-- The room during one session. -/
structure RoomViews where
  join : RoomView
  chat : Nat → RoomView
  leave : RoomView

end CoroutineHttp.Ws

namespace CoroutineHttp.Http.Wire

open CoroutineHttp.Library CoroutineHttp.Net CoroutineHttp.Ws

/-- `conn.write(data)` of a response composed by hand. -/
def raw (w : Wire) (data : Bytes) : Wire := (w.write data).record (.raw data)

/-- `closed_` becomes true while the coroutine is suspended elsewhere. -/
def closedElsewhere (w : Wire) (closed : Bool) : Wire :=
  if closed then { w with conn := { w.conn with closed := true } } else w

/-- `handshake`; `none` is `false`. -/
def handshake (w : Wire) (d : WebSocket.Digest) (headers : StrMap) : Option Wire :=
  (WebSocket.handshakeKey headers).map fun key =>
    (w.write (WebSocket.upgradeResponse d key)).record .upgrade

/-- `recv_frame`. -/
def recvFrame (w : Wire) : Option WsFrame × Wire :=
  let (frame, conn, recv) := WebSocket.recvFrame w.conn w.recv
  (frame, { w with conn := conn, recv := recv })

/-- `send_text(msg)`. -/
def sendText (w : Wire) (msg : Bytes) : Wire :=
  w.write (WebSocket.encodeFrame WsOpcode.TEXT msg)

/-- `room.broadcast(msg)` with this connection in the room. -/
def broadcast (w : Wire) (v : RoomView) (msg : Bytes) : Wire :=
  let w := w.closedElsewhere v.closedBefore
  let w := if w.conn.closed then w else w.sendText msg
  w.closedElsewhere v.closedAfter

/-! ### The session takes bytes only -/

theorem pending_raw (w : Wire) (data : Bytes) :
    (w.raw data).pending.length ≤ w.pending.length := HttpServer.pending_write w data

theorem pending_closedElsewhere (w : Wire) (closed : Bool) :
    (w.closedElsewhere closed).pending.length ≤ w.pending.length := by
  unfold closedElsewhere
  split
  · simp [pending, Connection.pending]
  · exact le_rfl

theorem pending_sendText (w : Wire) (msg : Bytes) :
    (w.sendText msg).pending.length ≤ w.pending.length := HttpServer.pending_write w _

theorem pending_broadcast (w : Wire) (v : RoomView) (msg : Bytes) :
    (w.broadcast v msg).pending.length ≤ w.pending.length := by
  have hbefore := w.pending_closedElsewhere v.closedBefore
  unfold broadcast
  refine (pending_closedElsewhere _ _).trans ?_
  split
  · exact hbefore
  · exact (pending_sendText _ _).trans hbefore

theorem pending_recvFrame {w w' : Wire} {frame : Option WsFrame}
    (h : w.recvFrame = (frame, w')) :
    w'.pending.length ≤ w.pending.length ∧
      (frame.isSome → w'.pending.length < w.pending.length) := by
  simp only [recvFrame, Prod.mk.injEq] at h
  obtain ⟨rfl, rfl⟩ := h
  cases hclosed : w.conn.closed with
  | true => simp [WebSocket.recvFrame_closed hclosed, pending]
  | false =>
      obtain ⟨hframe, hleft, -, -⟩ := WebSocket.recvFrame_yields hclosed w.recv
      rw [hframe]
      simp only [pending, hleft]
      refine ⟨(Reading.onStream_suffix _ _ _).length_le, fun hsome => ?_⟩
      obtain ⟨f, hf⟩ := Option.isSome_iff_exists.mp hsome
      exact (WebSocket.frameStream_some (Prod.ext hf rfl)).2

end CoroutineHttp.Http.Wire

namespace CoroutineHttp.Ws

open CoroutineHttp.Library CoroutineHttp.Net CoroutineHttp.Http

/-! ## The routes -/

/-- The loop `while (ws.recv_frame(frame))` of a session, from its broadcast number
    `i` on. -/
def sessionLoop (nick : Bytes) (views : Nat → RoomView) (i : Nat) (w : Wire) : Wire :=
  match _h : w.recvFrame with
  | (none, w') => w'
  | (some frame, w') =>
      if frame.opcode = WsOpcode.CLOSE then w'
      else if frame.opcode = WsOpcode.PING then
        sessionLoop nick views i (w'.sendText [])
      else if frame.opcode = WsOpcode.TEXT ∧ frame.payload ≠ [] then
        sessionLoop nick views (i + 1) (w'.broadcast (views i) (chatMessage nick frame.payload))
      else sessionLoop nick views i w'
termination_by w.pending.length
decreasing_by
  · exact (Wire.pending_sendText _ _).trans_lt ((Wire.pending_recvFrame _h).2 rfl)
  · exact (Wire.pending_broadcast _ _ _).trans_lt ((Wire.pending_recvFrame _h).2 rfl)
  · exact (Wire.pending_recvFrame _h).2 rfl

/-- The `/ws` handler behind its handshake. -/
def session (nick : Bytes) (views : RoomViews) (w : Wire) : Wire :=
  let w := w.broadcast views.join (joinMessage nick views.join.online views.join.users)
  let w := sessionLoop nick views.chat 0 w
  -- the last broadcast goes to the others only
  (w.closedElsewhere views.leave.closedBefore).closedElsewhere views.leave.closedAfter

theorem pending_sessionLoop (nick : Bytes) (views : Nat → RoomView) (i : Nat) (w : Wire) :
    (sessionLoop nick views i w).pending.length ≤ w.pending.length := by
  fun_induction sessionLoop nick views i w with
  | case1 i w w' h => exact (Wire.pending_recvFrame h).1
  | case2 i w frame w' h hclose => exact (Wire.pending_recvFrame h).1
  | case3 i w frame w' h hclose hping ih =>
      exact (ih.trans (Wire.pending_sendText _ _)).trans (Wire.pending_recvFrame h).1
  | case4 i w frame w' h hclose hping htext ih =>
      exact (ih.trans (Wire.pending_broadcast _ _ _)).trans (Wire.pending_recvFrame h).1
  | case5 i w frame w' h hclose hping htext ih => exact ih.trans (Wire.pending_recvFrame h).1

theorem pending_session (nick : Bytes) (views : RoomViews) (w : Wire) :
    (session nick views w).pending.length ≤ w.pending.length := by
  unfold session
  exact (Wire.pending_closedElsewhere _ _).trans <| (Wire.pending_closedElsewhere _ _).trans <|
    (pending_sessionLoop _ _ _ _).trans (Wire.pending_broadcast _ _ _)

/-- What `main` depends on. -/
structure App where
  digest : WebSocket.Digest
  /-- `read_file`. -/
  files : Bytes → Bytes
  /-- The room as the session of each turn sees it. -/
  rooms : Nat → RoomViews

/-- `mime_type`. -/
def mimeType (path : Bytes) : Bytes :=
  if (find (bytes ".html") path).isSome then bytes "text/html; charset=utf-8"
  else if (find (bytes ".css") path).isSome then bytes "text/css"
  else if (find (bytes ".js") path).isSome then bytes "application/javascript"
  else bytes "text/plain"

namespace App

variable (app : App)

/-- `app.get("/", ...)`. -/
def index : HttpHandler where
  run _ req res w :=
    ⟨req, res, w.raw (bytes
      "HTTP/1.1 302 Found\r\nLocation: /static/chat.html\r\nContent-Length: 0\r\n\r\n"), false⟩
  reads _ _ _ w := w.pending_raw _

/-- `app.get("/static/*", ...)`, with `send_file`. -/
def static : HttpHandler where
  run _ req res w :=
    let fp := bytes "static/" ++ req.param (bytes "*") []
    let body := app.files fp
    -- an empty file counts as missing
    if body = [] then
      let res := res.status 404
      ⟨req, res.call (.text (bytes "404 Not Found")), w.call res (.text (bytes "404 Not Found")),
        false⟩
    else
      ⟨req, res, w.raw (bytes "HTTP/1.1 200 OK\r\nContent-Type: " ++ mimeType fp ++
        bytes "\r\nContent-Length: " ++ toDec body.length ++
        bytes "\r\nConnection: keep-alive\r\n\r\n" ++ body), false⟩
  reads _ _ _ w := by
    simp only
    split
    · exact HttpServer.pending_flush w _
    · exact w.pending_raw _

/-- `app.get("/api/ping", ...)`. -/
def ping : HttpHandler where
  run _ req res w :=
    let c := HttpResponse.ResCall.json
      (bytes "\x7b\"status\":\"ok\",\"server\":\"coroutine-http-mt\"\x7d")
    ⟨req, res.call c, w.call res c, false⟩
  reads _ _ _ w := HttpServer.pending_flush w _

/-- `app.get("/ws", ...)`. -/
def ws : HttpHandler where
  run turn req res w :=
    match w.handshake app.digest req.headers with
    -- no answer at all: the loop of `handle_connection` goes on
    | none => ⟨req, res, w, false⟩
    | some w =>
        ⟨req, res, session (req.queryParam (bytes "nick") (bytes "匿名")) (app.rooms turn) w, false⟩
  reads turn req _ w := by
    simp only [Wire.handshake]
    cases WebSocket.handshakeKey req.headers with
    | none => exact le_rfl
    | some key => exact (pending_session _ _ _).trans (HttpServer.pending_write w _)

/-- The server of `main`. -/
def server : HttpServer where
  routes :=
    [⟨bytes "GET", bytes "/", index⟩,
      ⟨bytes "GET", bytes "/static/*", app.static⟩,
      ⟨bytes "GET", bytes "/api/ping", ping⟩,
      ⟨bytes "GET", bytes "/ws", app.ws⟩]
  middlewares := []

/-- `main` with an empty room and no files. -/
def quiet : App where
  digest := ⟨id, id⟩
  files := fun _ => []
  rooms := fun _ => ⟨⟨1, [], false, false⟩, fun _ => ⟨1, [], false, false⟩, ⟨0, [], false, false⟩⟩

end App

end CoroutineHttp.Ws
