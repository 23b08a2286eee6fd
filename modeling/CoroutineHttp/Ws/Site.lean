/-
  CoroutineHttp.Ws.Site

  The server of `main.cpp` as its clients see it.

  All four handlers look at the byte stream only, and so does a `/ws` session: what
  the server does on a connection does not depend on the packets the stream arrives
  in (`chunks_irrelevant`).  They also stop at a failed write (`failStop_server`).
-/

import CoroutineHttp.Http.Chunks
import CoroutineHttp.Http.FailStop
import CoroutineHttp.Http.Registration
import CoroutineHttp.Ws.Fragments
import CoroutineHttp.Ws.StaticFiles

/-! ## Sessions on alike connections -/

namespace CoroutineHttp.Http.Wire.Alike

open CoroutineHttp.Library CoroutineHttp.Net CoroutineHttp.Ws

variable {w w' : Wire}

theorem closedElsewhere (h : w.Alike w') (closed : Bool) :
    (w.closedElsewhere closed).Alike (w'.closedElsewhere closed) := by
  unfold Wire.closedElsewhere
  split
  · exact ⟨by simp, rfl, h.fd, h.send, h.sent, h.events⟩
  · exact h

theorem sendText (h : w.Alike w') (msg : Bytes) : (w.sendText msg).Alike (w'.sendText msg) :=
  h.write _

theorem broadcast (h : w.Alike w') (v : RoomView) (msg : Bytes) :
    (w.broadcast v msg).Alike (w'.broadcast v msg) := by
  have hbefore := h.closedElsewhere v.closedBefore
  unfold Wire.broadcast
  apply closedElsewhere
  rw [hbefore.closed]
  split
  · exact hbefore
  · exact hbefore.sendText msg

/-- `recv_frame` finds the same frame on both. -/
theorem recvFrame (h : w.Alike w') {frame : Option WsFrame} {wNext : Wire}
    (hframe : w.recvFrame = (frame, wNext)) :
    ∃ wNext', w'.recvFrame = (frame, wNext') ∧ wNext.Alike wNext' := by
  obtain rfl : w.recvFrame.1 = frame := congrArg Prod.fst hframe
  obtain rfl : w.recvFrame.2 = wNext := congrArg Prod.snd hframe
  cases hclosed : w.conn.closed with
  | true =>
      refine ⟨w', ?_, ?_⟩
      · simp only [Wire.recvFrame, WebSocket.recvFrame_closed hclosed,
          WebSocket.recvFrame_closed (h.closed.trans hclosed)]
      · simp only [Wire.recvFrame, WebSocket.recvFrame_closed hclosed]
        exact h
  | false =>
      have hopen' : w'.conn.closed = false := h.closed.trans hclosed
      obtain ⟨hsame, hleft, hend, hfd⟩ := WebSocket.recvFrame_yields hclosed w.recv
      obtain ⟨hsame', hleft', hend', hfd'⟩ := WebSocket.recvFrame_yields hopen' w'.recv
      have hpending : w'.conn.pending w'.recv = w.conn.pending w.recv := h.pending hclosed
      refine ⟨w'.recvFrame.2, Prod.ext ?_ rfl, ?_⟩
      · rw [hpending, ← hsame] at hsame'
        exact hsame'
      · apply h.read (fun p => (WebSocket.frameStream p).2.1)
          (fun p => (WebSocket.frameStream p).2.2) hleft hleft' _ _ hfd hfd'
        · rw [hend, hclosed, Bool.false_or]
          rfl
        · rw [hend', hopen', Bool.false_or]
          rfl

theorem sessionLoop (nick : Bytes) (views : Nat → RoomView) (i : Nat) (h : w.Alike w') :
    (Ws.sessionLoop nick views i w).Alike (Ws.sessionLoop nick views i w') := by
  -- on the loop of the first session; the second receives the same frames
  fun_induction Ws.sessionLoop nick views i w generalizing w' with
  | case1 i w wNext hframe =>
      obtain ⟨wNext', hsame, hnext⟩ := h.recvFrame hframe
      rw [sessionLoop_none hsame]
      exact hnext
  | case2 i w frame wNext hframe hclose =>
      obtain ⟨wNext', hsame, hnext⟩ := h.recvFrame hframe
      rw [sessionLoop_some hsame, if_pos hclose]
      exact hnext
  | case3 i w frame wNext hframe hclose hping ih =>
      obtain ⟨wNext', hsame, hnext⟩ := h.recvFrame hframe
      rw [sessionLoop_some hsame, if_neg hclose, if_pos hping]
      exact ih (hnext.sendText _)
  | case4 i w frame wNext hframe hclose hping htext ih =>
      obtain ⟨wNext', hsame, hnext⟩ := h.recvFrame hframe
      rw [sessionLoop_some hsame, if_neg hclose, if_neg hping, if_pos htext]
      exact ih (hnext.broadcast _ _)
  | case5 i w frame wNext hframe hclose hping htext ih =>
      obtain ⟨wNext', hsame, hnext⟩ := h.recvFrame hframe
      rw [sessionLoop_some hsame, if_neg hclose, if_neg hping, if_neg htext]
      exact ih hnext

theorem session (nick : Bytes) (views : RoomViews) (h : w.Alike w') :
    (Ws.session nick views w).Alike (Ws.session nick views w') :=
  (((h.broadcast _ _).sessionLoop nick views.chat 0).closedElsewhere _).closedElsewhere _

end CoroutineHttp.Http.Wire.Alike

namespace CoroutineHttp.Ws

open CoroutineHttp.Library CoroutineHttp.Net CoroutineHttp.Http

namespace App

variable (app : App)

/-! ## The handlers of `main` -/

/-- The calls by which `main` registers them. -/
theorem server_eq : app.server = (((HttpServer.init.get (bytes "/") index).get
    (bytes "/static/*") app.static).get (bytes "/api/ping") ping).get (bytes "/ws") app.ws :=
  rfl

theorem streamOnly_index : index.StreamOnly := fun _ _ _ _ _ h =>
  ⟨rfl, rfl, rfl, (h.write _).record _⟩

theorem streamOnly_static : app.static.StreamOnly := by
  intro turn req res w w' h
  simp only [static]
  split
  · exact ⟨rfl, rfl, rfl, h.call (res.status 404) (.text (bytes "404 Not Found"))⟩
  · exact ⟨rfl, rfl, rfl, (h.write _).record _⟩

theorem streamOnly_ping : ping.StreamOnly := fun _ _ res _ _ h =>
  ⟨rfl, rfl, rfl, h.flush (res.setBody (bytes "application/json")
    (bytes "\x7b\"status\":\"ok\",\"server\":\"coroutine-http-mt\"\x7d"))⟩

theorem streamOnly_ws : app.ws.StreamOnly := by
  intro turn req res w w' h
  simp only [ws, Wire.handshake]
  cases WebSocket.handshakeKey req.headers with
  | none => exact ⟨rfl, rfl, rfl, h⟩
  | some key => exact ⟨rfl, rfl, rfl, ((h.write _).record _).session _ _⟩

theorem streamOnly_server : app.server.StreamOnly := by
  refine ⟨by simp [server], fun r hr => ?_⟩
  simp only [server, List.mem_cons, List.not_mem_nil, or_false] at hr
  rcases hr with rfl | rfl | rfl | rfl
  · exact streamOnly_index
  · exact app.streamOnly_static
  · exact streamOnly_ping
  · exact app.streamOnly_ws

/-- **Packets do not matter to the server of `main`.** On two connections that receive
    the same bytes, in whatever pieces and with whatever waits between them, and on
    which `send` is answered alike, and with the same answers of the room, the server takes
    the same turns: the same requests with the same bytes taken and left, the same
    responses and upgrades, the same bytes accepted by the kernel, and the connection
    closed or not. -/
theorem chunks_irrelevant (fd : Core.Fd) (recv recv' : RecvScript)
    (hstream : recv'.bytes = recv.bytes) (send : SendScript) :
    let run := app.server.handleConnection 0 (.accept fd recv send)
    let run' := app.server.handleConnection 0 (.accept fd recv' send)
    run'.1 = run.1 ∧ run'.2.sent = run.2.sent ∧ run'.2.conn.closed = run.2.conn.closed ∧
      run'.2.send = run.2.send := by
  obtain ⟨hexchanges, hend⟩ := HttpServer.alike_handleConnection app.streamOnly_server 0
    (Wire.alike_accept fd hstream send)
  exact ⟨hexchanges, hend.sent, hend.closed, hend.send⟩

/-- A request line that arrives in two pieces. -/
theorem chunks_irrelevant_split :
    (quiet.server.handleConnection 0 (.accept 5
        ⟨[.data 71 (bytes "ET /api/"), .eagain, .data 112 (bytes "ing HTTP/1.1\r\n\r\n")], .eof⟩
        [.accept 3, .fail])).1
      = (quiet.server.handleConnection 0 (.accept 5
        ⟨[.data 71 (bytes "ET /api/ping HTTP/1.1\r\n\r\n")], .error⟩ [.accept 3, .fail])).1 :=
  (chunks_irrelevant quiet 5 ⟨[.data 71 (bytes "ET /api/ping HTTP/1.1\r\n\r\n")], .error⟩
    ⟨[.data 71 (bytes "ET /api/"), .eagain, .data 112 (bytes "ing HTTP/1.1\r\n\r\n")], .eof⟩
    (by decide +kernel) [.accept 3, .fail]).1

end App

/-! ## Failed writes -/

theorem failStop_closedElsewhere (closed : Bool) :
    Wire.FailStop fun w => w.closedElsewhere closed := by
  cases closed with
  | false => exact .id
  | true => exact .reading (g := fun c r => ({ c with closed := true }, r)) fun _ _ _ => rfl

theorem failStop_broadcast (v : RoomView) (msg : Bytes) :
    Wire.FailStop fun w => w.broadcast v msg :=
  (failStop_closedElsewhere v.closedAfter).comp
    ((Wire.FailStop.unlessClosed (.write _)).comp (failStop_closedElsewhere v.closedBefore))

/-- On a closed connection no frame is received. -/
theorem recvFrame_of_closed {w : Wire} (h : w.conn.closed = true) : w.recvFrame = (none, w) := by
  simp only [Wire.recvFrame, WebSocket.recvFrame_closed h]

theorem recvFrame_inStep {script : SendScript} {w w' wNext : Wire} {frame : Option WsFrame}
    (h : Wire.InStep script w w') (hframe : w.recvFrame = (frame, wNext)) :
    ∃ wNext', w'.recvFrame = (frame, wNext') ∧ Wire.InStep script wNext wNext' := by
  obtain ⟨conn, recv, send, sent, events⟩ := w
  obtain ⟨conn', recv', send', sent', events'⟩ := w'
  obtain ⟨hconn, hrecv, hsent, hevents, hsend, hsend'⟩ := h
  simp only at hconn hrecv hsent hevents hsend hsend'
  subst hconn hrecv hsent hevents hsend'
  simp only [Wire.recvFrame, Prod.mk.injEq] at hframe
  obtain ⟨rfl, rfl⟩ := hframe
  exact ⟨_, rfl, ⟨rfl, rfl, rfl, rfl, hsend, rfl⟩⟩

theorem sent_sessionLoop (nick : Bytes) (views : Nat → RoomView) (i : Nat) (w : Wire) :
    w.sent <+: (sessionLoop nick views i w).sent := by
  have hrecv : ∀ {w w' : Wire} {frame : Option WsFrame}, w.recvFrame = (frame, w') →
      w'.sent = w.sent := by
    intro w w' frame h
    rw [show w' = _ from (congrArg Prod.snd h).symm]
    rfl
  fun_induction sessionLoop nick views i w with
  | case1 i w w' h => rw [hrecv h]
  | case2 i w frame w' h hclose => rw [hrecv h]
  | case3 i w frame w' h hclose hping ih =>
      rw [← hrecv h]
      exact ((Wire.FailStop.write _).grows w').trans ih
  | case4 i w frame w' h hclose hping htext ih =>
      rw [← hrecv h]
      exact ((failStop_broadcast _ _).grows w').trans ih
  | case5 i w frame w' h hclose hping htext ih =>
      rw [← hrecv h]
      exact ih

/-- A session that is behind has ended: on a closed connection there is no next frame. -/
theorem behind_sessionLoop (nick : Bytes) (views : Nat → RoomView) (i : Nat)
    {script : SendScript} {w w' : Wire} (h : Wire.Behind script w w') :
    Wire.Behind script (sessionLoop nick views i w) (sessionLoop nick views i w') := by
  rw [sessionLoop_none (recvFrame_of_closed h.closed)]
  exact ⟨h.closed, h.sent.trans (sent_sessionLoop nick views i w'), h.failed⟩

theorem lags_sessionLoop (nick : Bytes) (views : Nat → RoomView) (i : Nat) {script : SendScript}
    {w w' : Wire} (h : Wire.InStep script w w') :
    Wire.Lags script (sessionLoop nick views i w) (sessionLoop nick views i w') := by
  -- on the loop of the session; in step both receive the same frame
  fun_induction sessionLoop nick views i w generalizing w' with
  | case1 i w wNext hframe =>
      obtain ⟨wNext', hsame, hnext⟩ := recvFrame_inStep h hframe
      rw [sessionLoop_none hsame]
      exact .inl hnext
  | case2 i w frame wNext hframe hclose =>
      obtain ⟨wNext', hsame, hnext⟩ := recvFrame_inStep h hframe
      rw [sessionLoop_some hsame, if_pos hclose]
      exact .inl hnext
  | case3 i w frame wNext hframe hclose hping ih =>
      obtain ⟨wNext', hsame, hnext⟩ := recvFrame_inStep h hframe
      rw [sessionLoop_some hsame, if_neg hclose, if_pos hping]
      rcases (Wire.FailStop.write _).lags script _ _ hnext with hstep | hbehind
      · exact ih hstep
      · exact .inr (behind_sessionLoop nick views i hbehind)
  | case4 i w frame wNext hframe hclose hping htext ih =>
      obtain ⟨wNext', hsame, hnext⟩ := recvFrame_inStep h hframe
      rw [sessionLoop_some hsame, if_neg hclose, if_neg hping, if_pos htext]
      rcases (failStop_broadcast _ _).lags script _ _ hnext with hstep | hbehind
      · exact ih hstep
      · exact .inr (behind_sessionLoop nick views (i + 1) hbehind)
  | case5 i w frame wNext hframe hclose hping htext ih =>
      obtain ⟨wNext', hsame, hnext⟩ := recvFrame_inStep h hframe
      rw [sessionLoop_some hsame, if_neg hclose, if_neg hping, if_neg htext]
      exact ih hnext

theorem failStop_session (nick : Bytes) (views : RoomViews) :
    Wire.FailStop fun w => session nick views w := by
  have hloop : Wire.FailStop fun w => sessionLoop nick views.chat 0 w := by
    refine ⟨fun w h => ?_, sent_sessionLoop nick views.chat 0, fun script w w' h =>
      lags_sessionLoop nick views.chat 0 h⟩
    rw [sessionLoop_none (recvFrame_of_closed h)]
    exact ⟨h, rfl⟩
  exact (failStop_closedElsewhere _).comp ((failStop_closedElsewhere _).comp
    (hloop.comp (failStop_broadcast _ _)))

namespace App

variable (app : App)

theorem failStop_server : app.server.FailStop := by
  refine ⟨by simp [server], fun r hr => ?_⟩
  simp only [server, List.mem_cons, List.not_mem_nil, or_false] at hr
  have hraw : ∀ data, Wire.FailStop fun w => w.raw data := fun data =>
    (Wire.FailStop.record _).comp (.write data)
  rcases hr with rfl | rfl | rfl | rfl
  · exact fun turn req res => ⟨req, res, false, _, hraw _, fun w => rfl⟩
  · intro turn req res
    by_cases hbody : app.files (bytes "static/" ++ req.param (bytes "*") []) = []
    · exact ⟨_, _, _, _, .call (res.status 404) (.text (bytes "404 Not Found")), fun w =>
        if_pos hbody⟩
    · exact ⟨_, _, _, _, hraw _, fun w => if_neg hbody⟩
  · exact fun turn req res => ⟨req, _, false, _, .call res _, fun w => rfl⟩
  · intro turn req res
    simp only [ws, Wire.handshake]
    cases WebSocket.handshakeKey req.headers with
    | none => exact ⟨req, res, false, _, .id, fun w => rfl⟩
    | some key =>
        exact ⟨req, res, false, _, (failStop_session _ _).comp
          ((Wire.FailStop.record .upgrade).comp (.write _)), fun w => rfl⟩

end App

end CoroutineHttp.Ws
