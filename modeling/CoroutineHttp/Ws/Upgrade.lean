/-
  CoroutineHttp.Ws.Upgrade

  What happens to a connection after its upgrade.  When a session ends, the `/ws`
  handler returns into the keep-alive loop, which looks at the upgrade request and
  at `closed_` only: `upgrade_final_iff` says when that is the end of HTTP on the
  connection.
-/

import CoroutineHttp.Http.OneResponse
import CoroutineHttp.Ws.App

namespace CoroutineHttp.Ws

open CoroutineHttp.Library CoroutineHttp.Net CoroutineHttp.Http

/-! ## The end of a session -/

/-- What a session that reads the stream `p` leaves unread, if it ends before the
    end of the stream: behind a CLOSE frame, or inside one that is too large. -/
def sessionRest (p : Bytes) : Option Bytes :=
  match _h : WebSocket.frameStream p with
  | (some frame, rest, _) =>
      if frame.opcode = WsOpcode.CLOSE then some rest else sessionRest rest
  | (none, rest, atEnd) => if atEnd then none else some rest
termination_by p.length
decreasing_by exact (WebSocket.frameStream_some _h).2

/-- A step of the session that does not read: the connection fails, or nothing
    about its reading changes. -/
def Quiet (w w' : Wire) : Prop :=
  w'.events = w.events ∧
    (w'.conn.closed = true ∨ (w'.conn.closed = w.conn.closed ∧ w'.pending = w.pending))

namespace Quiet

theorem refl (w : Wire) : Quiet w w := ⟨rfl, .inr ⟨rfl, rfl⟩⟩

theorem trans {w w' w'' : Wire} (h : Quiet w w') (h' : Quiet w' w'') : Quiet w w'' := by
  obtain ⟨he, h⟩ := h
  obtain ⟨he', h'⟩ := h'
  refine ⟨he'.trans he, ?_⟩
  rcases h' with hclosed | ⟨hsame, hpending⟩
  · exact .inl hclosed
  · rcases h with hclosed | ⟨hsame', hpending'⟩
    · exact .inl (hsame.trans hclosed)
    · exact .inr ⟨hsame.trans hsame', hpending.trans hpending'⟩

theorem write (w : Wire) (data : Bytes) : Quiet w (w.write data) := by
  refine ⟨rfl, ?_⟩
  have hclosed := w.conn.write_closed w.send data
  have hbuf : (w.conn.write w.send data).2.1.readBuf = w.conn.readBuf := by
    unfold Connection.write
    split <;> rfl
  cases hfails : Connection.failsBefore data.length w.send with
  | true => exact .inl (hclosed.trans (by simp [hfails]))
  | false =>
      rw [hfails, Bool.or_false] at hclosed
      exact .inr ⟨hclosed, by simp [Wire.pending, Wire.write, Connection.pending, hbuf, hclosed]⟩

theorem closedElsewhere (w : Wire) (closed : Bool) : Quiet w (w.closedElsewhere closed) := by
  unfold Wire.closedElsewhere
  split
  · exact ⟨rfl, .inl rfl⟩
  · exact refl w

theorem broadcast (w : Wire) (v : RoomView) (msg : Bytes) : Quiet w (w.broadcast v msg) := by
  unfold Wire.broadcast
  refine ((closedElsewhere w v.closedBefore).trans ?_).trans (closedElsewhere _ _)
  split
  · exact refl _
  · exact write _ _

end Quiet

/-- The session has come to its end: the connection is closed, or the session left it
    open with what `sessionRest` says. -/
def SessionEnded (w w' : Wire) : Prop :=
  w'.events = w.events ∧
    (w'.conn.closed = true ∨
      (w.conn.closed = false ∧ w'.conn.closed = false ∧
        sessionRest w.pending = some w'.pending))

theorem SessionEnded.before {w w' w'' : Wire} (h : Quiet w w') (h' : SessionEnded w' w'') :
    SessionEnded w w'' := by
  obtain ⟨he, h⟩ := h
  obtain ⟨he', h'⟩ := h'
  refine ⟨he'.trans he, h'.imp_right fun ⟨hopen, hopen', hrest⟩ => ?_⟩
  rcases h with hclosed | ⟨hsame, hpending⟩
  · simp [hclosed] at hopen
  · exact ⟨hsame ▸ hopen, hopen', hpending ▸ hrest⟩

theorem SessionEnded.after {w w' w'' : Wire} (h : SessionEnded w w') (h' : Quiet w' w'') :
    SessionEnded w w'' := by
  obtain ⟨he, h⟩ := h
  obtain ⟨he', h'⟩ := h'
  refine ⟨he'.trans he, ?_⟩
  rcases h' with hclosed | ⟨hsame, hpending⟩
  · exact .inl hclosed
  · rw [hsame, hpending]
    exact h

/-- One frame of the session: the connection is closed and there was none, or the
    frame is the next of the stream. -/
theorem recvFrame_cases {w w' : Wire} {frame : Option WsFrame}
    (h : w.recvFrame = (frame, w')) :
    w'.events = w.events ∧
      ((w.conn.closed = true ∧ frame = none ∧ w' = w) ∨
        (w.conn.closed = false ∧
          WebSocket.frameStream w.pending = (frame, w'.pending, w'.conn.closed))) := by
  simp only [Wire.recvFrame, Prod.mk.injEq] at h
  obtain ⟨rfl, rfl⟩ := h
  refine ⟨rfl, ?_⟩
  cases hclosed : w.conn.closed with
  | true => exact .inl ⟨rfl, by rw [WebSocket.recvFrame_closed hclosed],
      by rw [WebSocket.recvFrame_closed hclosed]⟩
  | false =>
      obtain ⟨hframe, hleft, hend, -⟩ := WebSocket.recvFrame_yields hclosed w.recv
      exact .inr ⟨rfl, Prod.ext hframe.symm (Prod.ext hleft.symm hend.symm)⟩

/-- **The end of the loop of a session.** -/
theorem sessionLoop_ended (nick : Bytes) (views : Nat → RoomView) (i : Nat) (w : Wire) :
    SessionEnded w (sessionLoop nick views i w) := by
  -- a frame that does not end the loop, with what is done about it
  have hnext : ∀ {w w' w₁ w'' : Wire} {frame : WsFrame}, w.recvFrame = (some frame, w') →
      frame.opcode ≠ WsOpcode.CLOSE → Quiet w' w₁ → SessionEnded w₁ w'' → SessionEnded w w'' := by
    intro w w' w₁ w'' frame h hopcode hquiet hended
    obtain ⟨hevents, (⟨-, hnone, -⟩ | ⟨hopen, hstream⟩)⟩ := recvFrame_cases h
    · cases hnone
    · obtain ⟨he, hend⟩ := hended.before hquiet
      refine ⟨he.trans hevents, hend.imp_right fun ⟨_, hopen', hrest⟩ => ⟨hopen, hopen', ?_⟩⟩
      rw [sessionRest, hstream]
      simp [hopcode, hrest]
  -- on the loop of the session
  fun_induction sessionLoop nick views i w with
  | case1 i w w' h =>
      obtain ⟨hevents, (⟨hclosed, -, rfl⟩ | ⟨hopen, hstream⟩)⟩ := recvFrame_cases h
      · exact ⟨rfl, .inl hclosed⟩
      · cases hclosed : w'.conn.closed with
        | true => exact ⟨hevents, .inl hclosed⟩
        | false =>
            refine ⟨hevents, .inr ⟨hopen, hclosed, ?_⟩⟩
            rw [sessionRest, hstream]
            simp [hclosed]
  | case2 i w frame w' h hclose =>
      obtain ⟨hevents, (⟨-, hnone, -⟩ | ⟨hopen, hstream⟩)⟩ := recvFrame_cases h
      · cases hnone
      · have hclosed := (WebSocket.frameStream_some hstream).1
        refine ⟨hevents, .inr ⟨hopen, hclosed, ?_⟩⟩
        rw [sessionRest, hstream]
        simp [hclose]
  | case3 i w frame w' h hclose hping ih => exact hnext h hclose (.write _ _) ih
  | case4 i w frame w' h hclose hping htext ih => exact hnext h hclose (.broadcast _ _ _) ih
  | case5 i w frame w' h hclose hping htext ih => exact hnext h hclose (.refl _) ih

/-- **The end of a session.** -/
theorem session_ended (nick : Bytes) (views : RoomViews) (w : Wire) :
    SessionEnded w (session nick views w) := by
  unfold session
  exact ((sessionLoop_ended nick views.chat 0 _).before (.broadcast _ _ _)).after
    ((Quiet.closedElsewhere _ _).trans (Quiet.closedElsewhere _ _))

/-! ## Sessions without failures -/

/-- No other session closes the connection. -/
structure RoomViews.Calm (views : RoomViews) : Prop where
  join : views.join.closedBefore = false ∧ views.join.closedAfter = false
  chat : ∀ i, (views.chat i).closedBefore = false ∧ (views.chat i).closedAfter = false
  leave : views.leave.closedBefore = false ∧ views.leave.closedAfter = false

theorem healthy_broadcast {w : Wire} (hw : w.Healthy) {v : RoomView}
    (hv : v.closedBefore = false ∧ v.closedAfter = false) (msg : Bytes) :
    (w.broadcast v msg).Healthy ∧ (w.broadcast v msg).pending = w.pending := by
  have hsend := Wire.sends_write hw (WebSocket.encodeFrame WsOpcode.TEXT msg)
  have hbroadcast : w.broadcast v msg = w.sendText msg := by
    simp [Wire.broadcast, Wire.closedElsewhere, hv.1, hv.2, hw.isOpen]
  rw [hbroadcast]
  exact ⟨hsend.healthy, hsend.pending⟩

/-- When no write fails, a session whose stream goes on leaves the connection open. -/
theorem sessionLoop_open (nick : Bytes) {views : Nat → RoomView}
    (hviews : ∀ i, (views i).closedBefore = false ∧ (views i).closedAfter = false) (i : Nat)
    {w : Wire} (hw : w.Healthy) (hrest : (sessionRest w.pending).isSome) :
    (sessionLoop nick views i w).conn.closed = false := by
  -- a frame that does not end the loop
  have hnext : ∀ {w w' : Wire} {frame : WsFrame}, w.Healthy → (sessionRest w.pending).isSome →
      w.recvFrame = (some frame, w') → frame.opcode ≠ WsOpcode.CLOSE →
      w'.Healthy ∧ (sessionRest w'.pending).isSome := by
    intro w w' frame hw hrest h hopcode
    have hsend : w'.send = w.send := by rw [show w' = _ from (congrArg Prod.snd h).symm]; rfl
    obtain ⟨-, (⟨hclosed, -, -⟩ | ⟨-, hstream⟩)⟩ := recvFrame_cases h
    · exact absurd (hclosed.symm.trans hw.isOpen) (by simp)
    · rw [sessionRest, hstream] at hrest
      simp only [if_neg hopcode] at hrest
      exact ⟨⟨(WebSocket.frameStream_some hstream).1, by rw [hsend]; exact hw.send⟩, hrest⟩
  -- on the loop of the session
  fun_induction sessionLoop nick views i w with
  | case1 i w w' h =>
      obtain ⟨-, (⟨hclosed, -, -⟩ | ⟨-, hstream⟩)⟩ := recvFrame_cases h
      · exact absurd (hclosed.symm.trans hw.isOpen) (by simp)
      · rw [sessionRest, hstream] at hrest
        cases hclosed : w'.conn.closed with
        | false => rfl
        | true => simp [hclosed] at hrest
  | case2 i w frame w' h hclose =>
      obtain ⟨-, (⟨-, hnone, -⟩ | ⟨-, hstream⟩)⟩ := recvFrame_cases h
      · cases hnone
      · exact (WebSocket.frameStream_some hstream).1
  | case3 i w frame w' h hclose hping ih =>
      obtain ⟨hw', hrest'⟩ := hnext hw hrest h hclose
      have hsend := Wire.sends_write hw' (WebSocket.encodeFrame WsOpcode.TEXT [])
      exact ih hsend.healthy (hsend.pending ▸ hrest')
  | case4 i w frame w' h hclose hping htext ih =>
      obtain ⟨hw', hrest'⟩ := hnext hw hrest h hclose
      obtain ⟨hw'', hpending⟩ := healthy_broadcast hw' (hviews i)
        (chatMessage nick frame.payload)
      exact ih hw'' (hpending ▸ hrest')
  | case5 i w frame w' h hclose hping htext ih =>
      obtain ⟨hw', hrest'⟩ := hnext hw hrest h hclose
      exact ih hw' hrest'

theorem session_open (nick : Bytes) {views : RoomViews} (hviews : views.Calm) {w : Wire}
    (hw : w.Healthy) (hrest : (sessionRest w.pending).isSome) :
    (session nick views w).conn.closed = false := by
  obtain ⟨hw', hpending⟩ := healthy_broadcast hw hviews.join
    (joinMessage nick views.join.online views.join.users)
  have hopen := sessionLoop_open nick hviews.chat 0 hw' (hpending ▸ hrest)
  simpa [session, Wire.closedElsewhere, hviews.leave.1, hviews.leave.2] using hopen

/-! ## One turn of the server -/

namespace App

variable (app : App)

/-- The static files are answered with one response, composed by hand or not. -/
theorem static_run (turn : Nat) (req : HttpRequest) (res : HttpResponse) (w : Wire) :
    (app.static.run turn req res w).threw = false ∧
      (app.static.run turn req res w).req = req ∧
      ∃ e, (app.static.run turn req res w).wire.events = w.events ++ [e] ∧ e ≠ .upgrade := by
  simp only [static]
  split
  · exact ⟨rfl, rfl, .response _ _, rfl, by simp⟩
  · exact ⟨rfl, rfl, .raw _, rfl, by simp⟩

/-- The `/ws` handler: no handshake and nothing, or the upgrade and a session. -/
theorem ws_run (turn : Nat) (req : HttpRequest) (res : HttpResponse) (w : Wire) :
    (app.ws.run turn req res w).threw = false ∧ (app.ws.run turn req res w).req = req ∧
      ((app.ws.run turn req res w).wire = w ∨
        (app.ws.run turn req res w).wire.events = w.events ++ [.upgrade] ∧
          ((app.ws.run turn req res w).wire.conn.closed = true ∨
            (w.conn.closed = false ∧ (app.ws.run turn req res w).wire.conn.closed = false ∧
              sessionRest w.pending = some (app.ws.run turn req res w).wire.pending))) := by
  simp only [ws, Wire.handshake]
  cases WebSocket.handshakeKey req.headers with
  | none => exact ⟨rfl, rfl, .inl rfl⟩
  | some key =>
      refine ⟨rfl, rfl, .inr ?_⟩
      have hwrite := (Quiet.write w (WebSocket.upgradeResponse app.digest key)).2
      obtain ⟨hevents, hend⟩ := session_ended
        (req.queryParam (bytes "nick") (bytes "匿名")) (app.rooms turn)
        ((w.write (WebSocket.upgradeResponse app.digest key)).record .upgrade)
      refine ⟨hevents, ?_⟩
      rcases hend with hend | ⟨hopen, hopen', hrest⟩
      · exact .inl hend
      rcases hwrite with hclosed | ⟨hsame, hpending⟩
      · exact absurd (hclosed.symm.trans hopen) (by simp)
      · exact .inr ⟨hsame.symm.trans hopen, hopen', hpending ▸ hrest⟩

/-- A request is answered in HTTP, or upgrades the connection, and then the session
    is all that happens. -/
theorem serve_cases (k : Nat) (req : HttpRequest) (w : Wire) :
    (app.server.serve k req w).2 = req.keepAlive ∧
      ((∃ es, (app.server.serve k req w).1.events = w.events ++ es ∧ .upgrade ∉ es) ∨
        ∃ j, (app.server.serve k req w).1.events = w.events ++ [.handler j, .upgrade] ∧
          ((app.server.serve k req w).1.conn.closed = true ∨
            (w.conn.closed = false ∧ (app.server.serve k req w).1.conn.closed = false ∧
              sessionRest w.pending = some (app.server.serve k req w).1.pending))) := by
  have hserve : app.server.serve k req w
      = ((HttpServer.dispatch k req .init w 0 false app.server.routes).wire,
          (HttpServer.dispatch k req .init w 0 false app.server.routes).req.keepAlive) := rfl
  rw [hserve]
  rcases HttpServer.dispatch_cases k req .init w 0 false app.server.routes
    with ⟨code, msg, h⟩ | ⟨r, hr, j, params, h⟩
  · rw [h]
    exact ⟨rfl, .inl ⟨[_], rfl, by simp⟩⟩
  rw [h]
  simp only [server, List.mem_cons, List.not_mem_nil, or_false] at hr
  rcases hr with rfl | rfl | rfl | rfl
  · -- "/"
    rw [HttpServer.callHandler_returned rfl]
    exact ⟨rfl, .inl ⟨[.handler j, .raw _], List.append_assoc _ _ _, by simp⟩⟩
  · -- "/static/*"
    obtain ⟨hthrew, hreq, e, hevents, he⟩ :=
      app.static_run k { req with params := params } .init (w.record (.handler j))
    rw [HttpServer.callHandler_returned hthrew, hevents, hreq]
    exact ⟨rfl, .inl ⟨[.handler j, e], List.append_assoc _ _ _, by simp [Ne.symm he]⟩⟩
  · -- "/api/ping"
    rw [HttpServer.callHandler_returned rfl]
    exact ⟨rfl, .inl ⟨[.handler j, .response _ _], List.append_assoc _ _ _, by simp⟩⟩
  · -- "/ws"
    obtain ⟨hthrew, hreq, hws⟩ :=
      app.ws_run k { req with params := params } .init (w.record (.handler j))
    rw [HttpServer.callHandler_returned hthrew, hreq]
    refine ⟨rfl, ?_⟩
    rcases hws with hwire | ⟨hevents, hend⟩
    · rw [hwire]
      exact .inl ⟨[.handler j], rfl, by simp⟩
    · exact .inr ⟨j, hevents.trans (List.append_assoc _ _ _), hend⟩

/-- A GET of `/ws` with a key upgrades the connection. -/
theorem serve_ws (k : Nat) {req : HttpRequest} (w : Wire) (hmethod : req.method = bytes "GET")
    (hpath : req.path = bytes "/ws") {key : Bytes}
    (hkey : WebSocket.handshakeKey req.headers = some key) :
    (app.server.serve k req w).1
      = session (req.queryParam (bytes "nick") (bytes "匿名")) (app.rooms k)
          (((w.record (.handler 3)).write (WebSocket.upgradeResponse app.digest key)).record
            .upgrade) := by
  have hindex : Route.match ⟨bytes "GET", bytes "/", index⟩ (bytes "/ws") = none := rfl
  have hstatic : Route.match ⟨bytes "GET", bytes "/static/*", app.static⟩ (bytes "/ws") = none :=
    rfl
  have hping : Route.match ⟨bytes "GET", bytes "/api/ping", ping⟩ (bytes "/ws") = none := rfl
  have hws : Route.match ⟨bytes "GET", bytes "/ws", app.ws⟩ (bytes "/ws") = some ∅ := rfl
  have hdispatch : HttpServer.dispatch k req .init w 0 false app.server.routes
      = HttpServer.callHandler k app.ws { req with params := ∅ } .init
          (w.record (.handler 3)) := by
    simp [server, HttpServer.dispatch, hpath, hindex, hstatic, hping, hws, hmethod]
  have hrun : app.ws.run k { req with params := ∅ } .init (w.record (.handler 3))
      = ⟨{ req with params := ∅ }, .init, session (req.queryParam (bytes "nick") (bytes "匿名"))
          (app.rooms k) (((w.record (.handler 3)).write
            (WebSocket.upgradeResponse app.digest key)).record .upgrade), false⟩ := by
    simp only [ws, Wire.handshake, hkey]
    rfl
  rw [show (app.server.serve k req w).1
    = (HttpServer.dispatch k req .init w 0 false app.server.routes).wire from rfl, hdispatch,
    HttpServer.callHandler_returned (by rw [hrun]), hrun]

end App

/-! ## The rest of the run -/

/-- HTTP is over on a connection once it is upgraded: after the 101 response no turn
    writes a response and `parse` gets no byte. -/
def UpgradeFinal (run : List HttpServer.Exchange) : Prop :=
  ∀ before x after, run = before ++ x :: after →
    ∀ es es', x.events = es ++ .upgrade :: es' →
      (∀ e ∈ es', e.writesHttp = false) ∧
        ∀ y ∈ after, y.taken = [] ∧ ∀ e ∈ y.events, e.writesHttp = false

namespace App

variable (app : App)

/-- A turn with an upgrade: the upgrade is the last event, the loop goes on by the
    upgrade request, and the connection is closed or left with `sessionRest`. -/
theorem turn_upgrade (k : Nat) {w : Wire}
    (h : .upgrade ∈ (app.server.turn k w).exchange.events) :
    ∃ req j, (app.server.turn k w).exchange.request = some req ∧
      (app.server.turn k w).exchange.events = [.handler j, .upgrade] ∧
      (app.server.turn k w).goesOn = req.keepAlive ∧
      ((app.server.turn k w).wire.conn.closed = true ∨
        ((app.server.turn k w).wire.conn.closed = false ∧
          sessionRest (app.server.turn k w).exchange.left
            = some (app.server.turn k w).wire.pending)) := by
  obtain ⟨-, hrequest, hevents, -, -⟩ := app.server.turn_exchange k w
  obtain ⟨out, w₁, hparse, hnil⟩ : ∃ out w₁,
      ({ w with events := [] } : Wire).parse = (out, w₁) ∧ w₁.events = [] := ⟨_, _, rfl, rfl⟩
  have hleft : (app.server.turn k w).exchange.left = w₁.pending :=
    congrArg (fun out => out.2.pending) hparse
  have hreq : w.parse.1 = out := congrArg Prod.fst hparse
  rw [hevents] at h
  cases out with
  | none =>
      rw [(HttpServer.turn_none app.server k hparse).1, HttpServer.refuse] at h
      split at h
      · simp [hnil] at h
      · rw [show (HttpServer.sendError w₁ 400 (bytes "Bad Request")).events
          = w₁.events ++ [.response _ _] from rfl, hnil] at h
        simp at h
  | some req =>
      obtain ⟨hwire, hon⟩ := HttpServer.turn_some app.server k hparse
      obtain ⟨hkeep, hcases⟩ := app.serve_cases k req w₁
      rw [hwire] at h
      rcases hcases with ⟨es, hes, hno⟩ | ⟨j, hes, hend⟩
      · rw [hes, hnil, List.nil_append] at h
        exact absurd h hno
      · rw [hrequest, hreq, hevents, hwire, hon, hleft, hes, hnil]
        exact ⟨req, j, rfl, rfl, hkeep, hend.imp_right fun h => h.2⟩

/-- A run in which upgrades are final leaves nothing unread on a connection that
    goes on after one. -/
theorem pending_of_final {run : List HttpServer.Exchange} (before : List HttpServer.Exchange)
    {k : Nat} {w : Wire} (hfinal : UpgradeFinal run)
    (hrun : run = before ++ (app.server.turn k w).exchange ::
      (app.server.handleConnection (k + 1) (app.server.turn k w).wire).1)
    (hupgrade : .upgrade ∈ (app.server.turn k w).exchange.events)
    (hopen : (app.server.turn k w).wire.conn.closed = false) :
    (app.server.turn k w).wire.pending = [] := by
  obtain ⟨req, j, -, hevents, -, -⟩ := app.turn_upgrade k hupgrade
  obtain ⟨-, hquiet⟩ := hfinal before _ _ hrun [.handler j] [] hevents
  by_contra hne
  exact app.server.taken_ne_nil (k + 1) hne
    (hquiet _ (HttpServer.exchange_mem_handleConnection hopen)).1

/-- **Upgrades are final.** In a run of the server of `main`, HTTP is over on the
    connection after an upgrade if and only if every upgrade request was not
    keep-alive, or its session came to the end of the stream, or left nothing to be
    read, or the connection failed. -/
theorem upgrade_final_iff (fd : Core.Fd) (recv : RecvScript) (send : SendScript) :
    UpgradeFinal (app.server.handleConnection 0 (.accept fd recv send)).1 ↔
      ∀ x ∈ (app.server.handleConnection 0 (.accept fd recv send)).1, .upgrade ∈ x.events →
        ∀ req, x.request = some req →
          req.keepAlive = false ∨ sessionRest x.left = none ∨ sessionRest x.left = some [] ∨
            x.closed = true := by
  constructor
  · intro hfinal x hx hupgrade req hreq
    obtain ⟨before, after, hrun⟩ := List.append_of_mem hx
    obtain ⟨k, w, -, rfl, hafter⟩ := HttpServer.handleConnection_split hrun
    obtain ⟨-, -, -, -, hclosed⟩ := app.server.turn_exchange k w
    obtain ⟨req', j, hreq', -, hon, hend⟩ := app.turn_upgrade k hupgrade
    cases hreq.symm.trans hreq'
    rcases hend with hend | ⟨hopen, hleft⟩
    · exact .inr (.inr (.inr (hclosed.trans hend)))
    cases hkeep : req.keepAlive with
    | false => exact .inl rfl
    | true =>
        -- the loop goes on, and the next `parse` gets what the session has left
        rw [if_pos (hon.trans hkeep)] at hafter
        rw [hafter] at hrun
        exact .inr (.inr (.inl (hleft.trans
          (congrArg some (app.pending_of_final before hfinal hrun hupgrade hopen)))))
  · intro hall before x after hrun es es' hevents
    have hx : x ∈ (app.server.handleConnection 0 (.accept fd recv send)).1 := by simp [hrun]
    have hupgrade : .upgrade ∈ x.events := by simp [hevents]
    have hcond := hall x hx hupgrade
    obtain ⟨k, w, -, rfl, hafter⟩ := HttpServer.handleConnection_split hrun
    obtain ⟨-, -, -, -, hclosed⟩ := app.server.turn_exchange k w
    obtain ⟨req, j, hreq, hes, hon, hend⟩ := app.turn_upgrade k hupgrade
    have hes' : es' = [] := by
      rw [hes] at hevents
      cases es with
      | nil => simp at hevents
      | cons e es =>
          cases es with
          | nil => exact (by simpa using hevents.symm : e = .handler j ∧ es' = []).2
          | cons e' es => simp at hevents
    refine ⟨by simp [hes'], ?_⟩
    -- what follows, if anything, is a turn that finds nothing to parse
    rw [hafter]
    split
    next hgo =>
      rcases hend with hclosed' | ⟨hopen, hleft⟩
      · simp [HttpServer.handleConnection_closed hclosed']
      · have hnil : (app.server.turn k w).wire.pending = [] := by
          rcases hcond req hreq with hkeep | hnone | hempty | hfail
          · exact absurd (hgo.symm.trans (hon.trans hkeep)) (by simp)
          · cases hleft.symm.trans hnone
          · exact Option.some.inj (hleft.symm.trans hempty)
          · exact absurd ((hclosed.symm.trans hfail).symm.trans hopen) (by simp)
        obtain ⟨-, hstop, -, htaken, hquiet⟩ := app.server.turn_nothing (k + 1) hnil
        rw [HttpServer.handleConnection_stop hopen hstop]
        intro y hy
        rw [List.mem_singleton.mp hy, hquiet]
        exact ⟨htaken, by simp⟩
    next => simp

/-- Behind a CLOSE frame the client goes on with an HTTP request, and it is parsed. -/
theorem upgrade_not_final :
    ¬ ∀ (app : App) (fd : Core.Fd) (recv : RecvScript) (send : SendScript),
      UpgradeFinal (app.server.handleConnection 0 (.accept fd recv send)).1 := by
  intro hends
  let recv : RecvScript :=
    ⟨[.data 71 (bytes "ET /ws HTTP/1.1\r\nSec-WebSocket-Key: k\r\n\r\n" ++
      [0x88, 0] ++ bytes "GET /api/ping HTTP/1.1\r\n\r\n")], .eof⟩
  let w : Wire := .accept 5 recv []
  obtain ⟨hparse, hleft, hclosed, -⟩ := HttpParser.parse_yields (.init 5) recv .init
  have hstream : (HttpParser.parseStream ((Connection.init 5).pending recv) .init).1.map
      (fun req => (req.method, req.path, req.keepAlive, WebSocket.handshakeKey req.headers))
        = some (bytes "GET", bytes "/ws", true, some (bytes "k")) := by decide +kernel
  have hrest : (HttpParser.parseStream ((Connection.init 5).pending recv) .init).2
      = ([0x88, 0] ++ bytes "GET /api/ping HTTP/1.1\r\n\r\n", false) := by decide +kernel
  obtain ⟨req, hreq, hfields⟩ := Option.map_eq_some_iff.mp hstream
  simp only [Prod.mk.injEq] at hfields
  obtain ⟨hmethod, hpath, hkeep, hkey⟩ := hfields
  rw [hrest] at hleft hclosed
  obtain ⟨w₁, hparsed, hw₁, hpending, hevents₁⟩ : ∃ w₁,
      ({ w with events := [] } : Wire).parse = (some req, w₁) ∧ w₁.Healthy ∧
        w₁.pending = [0x88, 0] ++ bytes "GET /api/ping HTTP/1.1\r\n\r\n" ∧ w₁.events = [] :=
    ⟨_, Prod.ext (hparse.trans hreq) rfl, ⟨hclosed, by simp [w, Wire.accept, Wire.parse]⟩,
      hleft, rfl⟩
  -- the session ends at the CLOSE frame and leaves the request
  have hframe : WebSocket.frameStream ([0x88, 0] ++ bytes "GET /api/ping HTTP/1.1\r\n\r\n")
      = (some ⟨true, 8, false, []⟩, bytes "GET /api/ping HTTP/1.1\r\n\r\n", false) := by
    decide +kernel
  have hunread : sessionRest w₁.pending = some (bytes "GET /api/ping HTTP/1.1\r\n\r\n") := by
    rw [hpending, sessionRest, hframe]
    rfl
  obtain ⟨hwire, hon⟩ := HttpServer.turn_some quiet.server 0 hparsed
  rw [quiet.serve_ws 0 w₁ hmethod hpath hkey] at hwire
  have hsends := Wire.sends_write (w := w₁.record (.handler 3)) ⟨hw₁.isOpen, hw₁.send⟩
    (WebSocket.upgradeResponse quiet.digest (bytes "k"))
  generalize hw₂ : ((w₁.record (.handler 3)).write (WebSocket.upgradeResponse quiet.digest
    (bytes "k"))).record .upgrade = w₂ at hwire
  have hpending₂ : w₂.pending = w₁.pending := by rw [← hw₂]; exact hsends.pending
  have hevents₂ : w₂.events = [.handler 3, .upgrade] := by
    rw [← hw₂]
    simp [Wire.record, Wire.write, hevents₁]
  have hw₂' : w₂.Healthy := by rw [← hw₂]; exact ⟨hsends.healthy.isOpen, hsends.healthy.send⟩
  have hcalm : (quiet.rooms 0).Calm := ⟨⟨rfl, rfl⟩, fun _ => ⟨rfl, rfl⟩, ⟨rfl, rfl⟩⟩
  have hopen := session_open (req.queryParam (bytes "nick") (bytes "匿名")) hcalm hw₂'
    (by rw [hpending₂, hunread]; rfl)
  obtain ⟨hevents, hend⟩ := session_ended (req.queryParam (bytes "nick") (bytes "匿名"))
    (quiet.rooms 0) w₂
  rw [← hwire] at hopen hevents hend
  have hrun : quiet.server.handleConnection 0 w = _ := HttpServer.handleConnection_goesOn rfl
    (hon.trans ((quiet.serve_cases 0 req w₁).1.trans hkeep))
  have hnil := quiet.pending_of_final [] (hends quiet 5 recv [])
    (congrArg Prod.fst hrun) (by
      rw [(quiet.server.turn_exchange 0 w).2.2.1, hevents, hevents₂]
      simp) hopen
  rcases hend with hclosed' | ⟨-, -, hleft'⟩
  · exact absurd (hclosed'.symm.trans hopen) (by simp)
  · rw [hpending₂, hunread, hnil] at hleft'
    exact absurd (Option.some.inj hleft') (by decide)

end App

end CoroutineHttp.Ws
