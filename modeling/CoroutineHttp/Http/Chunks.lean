/-
  CoroutineHttp.Http.Chunks

  The request loop and the way its input is cut into the answers to `recv`.

  Two connections are alike when they differ in the chunks only.  A handler that
  reads through `read_until`, `read_exact` and the functions above them treats alike
  connections alike; for a server of such handlers the whole run of
  `handle_connection` depends on the byte stream alone.
-/

import CoroutineHttp.Http.Server

namespace CoroutineHttp.Http

open CoroutineHttp.Library CoroutineHttp.Net

/-! ## Alike connections -/

/-- The two connections differ only in the chunks of what is still to be read.  How
    much of it is buffered depends on the chunks, and after a failed write it is all
    that is left. -/
structure Wire.Alike (w w' : Wire) : Prop where
  pending : w.conn.closed = false → w'.pending = w.pending
  closed : w'.conn.closed = w.conn.closed
  fd : w'.conn.fd = w.conn.fd
  send : w'.send = w.send
  sent : w'.sent = w.sent
  events : w'.events = w.events

namespace Wire

/-- Accepted connections that receive the same stream. -/
theorem alike_accept (fd : Core.Fd) {recv recv' : RecvScript} (hstream : recv'.bytes = recv.bytes)
    (send : SendScript) : (accept fd recv send).Alike (accept fd recv' send) :=
  ⟨fun _ => hstream, rfl, rfl, rfl, rfl, rfl⟩

/-- A connection that goes on after a write has not been touched as to its reading. -/
theorem pending_write_open {w : Wire} {data : Bytes}
    (hopen : (w.write data).conn.closed = false) :
    w.conn.closed = false ∧ (w.write data).pending = w.pending := by
  have hclosed : (w.write data).conn.closed
      = (w.conn.closed || Connection.failsBefore data.length w.send) :=
    w.conn.write_closed w.send data
  have hbuf : (w.write data).conn.readBuf = w.conn.readBuf := by
    show (w.conn.write w.send data).2.1.readBuf = w.conn.readBuf
    unfold Connection.write
    split <;> rfl
  rw [hopen] at hclosed
  have hw : w.conn.closed = false := (Bool.or_eq_false_iff.mp hclosed.symm).1
  refine ⟨hw, ?_⟩
  show (w.write data).conn.readBuf ++ _ = w.conn.readBuf ++ _
  rw [hbuf, hopen, hw]
  rfl

/-- What a write does is up to `closed_` and the answers to `send`. -/
theorem write_congr {c c' : Connection} (hclosed : c'.closed = c.closed) (script : SendScript)
    (data : Bytes) :
    (c'.write script data).2.2 = (c.write script data).2.2 := by
  unfold Connection.write
  rw [hclosed]
  split <;> rfl

namespace Alike

variable {w w' : Wire}

theorem record (h : w.Alike w') (e : Event) : (w.record e).Alike (w'.record e) :=
  ⟨h.pending, h.closed, h.fd, h.send, h.sent, congrArg (· ++ [e]) h.events⟩

theorem write (h : w.Alike w') (data : Bytes) : (w.write data).Alike (w'.write data) := by
  have hwritten : (w'.conn.write w'.send data).2.2 = (w.conn.write w.send data).2.2 := by
    rw [h.send, write_congr h.closed]
  have hclosed : (w'.write data).conn.closed = (w.write data).conn.closed := by
    show (w'.conn.write w'.send data).2.1.closed = (w.conn.write w.send data).2.1.closed
    rw [Connection.write_closed, Connection.write_closed, h.closed, h.send]
  refine ⟨fun hopen => ?_, hclosed, ?_, congrArg Prod.fst hwritten, ?_, h.events⟩
  · obtain ⟨hw, hpending⟩ := pending_write_open hopen
    obtain ⟨-, hpending'⟩ := pending_write_open (hclosed.trans hopen)
    rw [hpending, hpending', h.pending hw]
  · show (w'.conn.write w'.send data).2.1.fd = (w.conn.write w.send data).2.1.fd
    rw [Connection.write_fd, Connection.write_fd, h.fd]
  · exact congrArg₂ (· ++ ·) h.sent (congrArg Prod.snd hwritten)

theorem flush (h : w.Alike w') (res : HttpResponse) : (w.flush res).Alike (w'.flush res) :=
  (h.write res.message).record _

theorem call (h : w.Alike w') (res : HttpResponse) (c : HttpResponse.ResCall) :
    (w.call res c).Alike (w'.call res c) := by
  unfold Wire.call
  split
  · exact h.flush _
  · exact h

/-- A call that reads, and whose result is up to the stream. -/
theorem read (h : w.Alike w') (left : Bytes → Bytes) (atEnd : Bytes → Bool)
    {conn conn' : Connection} {recv recv' : RecvScript}
    (hpending : conn.pending recv = left w.pending)
    (hpending' : conn'.pending recv' = left w'.pending)
    (hclosed : conn.closed = (w.conn.closed || atEnd w.pending))
    (hclosed' : conn'.closed = (w'.conn.closed || atEnd w'.pending))
    (hfd : conn.fd = w.conn.fd) (hfd' : conn'.fd = w'.conn.fd) :
    ({ w with conn := conn, recv := recv } : Wire).Alike
      { w' with conn := conn', recv := recv' } := by
  refine ⟨fun hopen => ?_, ?_, hfd'.trans (h.fd.trans hfd.symm), h.send, h.sent, h.events⟩
  · have hw : w.conn.closed = false := (Bool.or_eq_false_iff.mp (hclosed.symm.trans hopen)).1
    show conn'.pending recv' = conn.pending recv
    rw [hpending, hpending', h.pending hw]
  · show conn'.closed = conn.closed
    rw [hclosed, hclosed', h.closed]
    cases hw : w.conn.closed with
    | true => rfl
    | false => rw [h.pending hw]

/-- `parse` finds the same request on both, and leaves the same. -/
theorem parse (h : w.Alike w') (hopen : w.conn.closed = false) :
    w'.parse.1 = w.parse.1 ∧ w'.parse.2.pending = w.parse.2.pending ∧
      w.parse.2.Alike w'.parse.2 := by
  obtain ⟨hreq, hleft, hclosed, hfd⟩ := HttpParser.parse_yields w.conn w.recv .init
  obtain ⟨hreq', hleft', hclosed', hfd'⟩ := HttpParser.parse_yields w'.conn w'.recv .init
  have hpending : w'.conn.pending w'.recv = w.conn.pending w.recv := h.pending hopen
  refine ⟨?_, ?_, h.read (fun p => (HttpParser.parseStream p .init).2.1)
    (fun p => (HttpParser.parseStream p .init).2.2) hleft hleft' hclosed hclosed' hfd hfd'⟩
  · exact hreq'.trans (hpending ▸ hreq.symm)
  · exact hleft'.trans (hpending ▸ hleft.symm)

end Alike

end Wire

/-! ## Handlers that look at the stream only -/

structure HandlerResult.Alike (out out' : HandlerResult) : Prop where
  req : out'.req = out.req
  res : out'.res = out.res
  threw : out'.threw = out.threw
  wire : out.wire.Alike out'.wire

structure MiddlewareResult.Alike (out out' : MiddlewareResult) : Prop where
  req : out'.req = out.req
  res : out'.res = out.res
  verdict : out'.verdict = out.verdict
  wire : out.wire.Alike out'.wire

/-- The handler does the same on alike connections. -/
def HttpHandler.StreamOnly (handler : HttpHandler) : Prop :=
  ∀ turn req res {w w' : Wire}, w.Alike w' →
    (handler.run turn req res w).Alike (handler.run turn req res w')

def Middleware.StreamOnly (mw : Middleware) : Prop :=
  ∀ turn req res {w w' : Wire}, w.Alike w' →
    (mw.run turn req res w).Alike (mw.run turn req res w')

/-- All that the server calls looks at the stream only. -/
structure HttpServer.StreamOnly (srv : HttpServer) : Prop where
  middlewares : ∀ mw ∈ srv.middlewares, mw.StreamOnly
  handlers : ∀ r ∈ srv.routes, r.handler.StreamOnly

namespace HttpServer

variable {w w' : Wire}

theorem alike_runMiddlewares (turn : Nat) {mws : List Middleware}
    (hmws : ∀ mw ∈ mws, mw.StreamOnly) (req : HttpRequest) (res : HttpResponse) (i : Nat)
    (h : w.Alike w') :
    (runMiddlewares turn req res w i mws).Alike (runMiddlewares turn req res w' i mws) := by
  -- on the middlewares; one that passes hands alike connections to the next
  induction mws generalizing req res w w' i with
  | nil => exact ⟨rfl, rfl, rfl, h⟩
  | cons mw mws ih =>
      have hmw := hmws mw List.mem_cons_self turn req res (h.record (.middleware i))
      obtain ⟨hreq, hres, hverdict, hwire⟩ := hmw
      simp only [runMiddlewares, hreq, hres, hverdict]
      cases (mw.run turn req res (w.record (.middleware i))).verdict with
      | pass => exact ih (fun m hm => hmws m (List.mem_cons_of_mem _ hm)) _ _ _ hwire
      | stop => exact ⟨hreq, hres, hverdict, hwire⟩
      | threw => exact ⟨hreq, hres, hverdict, hwire⟩

theorem alike_callHandler (turn : Nat) {handler : HttpHandler} (hhandler : handler.StreamOnly)
    (req : HttpRequest) (res : HttpResponse) (h : w.Alike w') :
    (callHandler turn handler req res w).Alike (callHandler turn handler req res w') := by
  have hout := hhandler turn req res h
  obtain ⟨hreq, hres, hthrew, hwire⟩ := hout
  simp only [callHandler, hthrew, hwire.closed]
  split
  · split
    · exact ⟨hreq, hres, rfl, hwire⟩
    · exact ⟨hreq, hres, rfl, hwire.flush _⟩
  · exact ⟨hreq, hres, hthrew, hwire⟩

theorem alike_dispatch (turn : Nat) {routes : List Route}
    (hroutes : ∀ r ∈ routes, r.handler.StreamOnly) (req : HttpRequest) (res : HttpResponse)
    (i : Nat) (pathMatched : Bool) (h : w.Alike w') :
    (dispatch turn req res w i pathMatched routes).Alike
      (dispatch turn req res w' i pathMatched routes) := by
  -- on the routes still to be tried; which one is taken is up to the request
  induction routes generalizing i pathMatched with
  | nil => cases pathMatched <;> exact ⟨rfl, rfl, rfl, h.flush _⟩
  | cons r rs ih =>
      have hrs := ih fun r' hr' => hroutes r' (List.mem_cons_of_mem _ hr')
      simp only [dispatch]
      split
      · exact hrs _ _
      · split
        · exact hrs _ _
        · exact alike_callHandler turn (hroutes r List.mem_cons_self) _ _ (h.record _)

section Server

variable {srv : HttpServer}

theorem alike_serve (hsrv : srv.StreamOnly) (k : Nat) (req : HttpRequest) (h : w.Alike w') :
    (srv.serve k req w).1.Alike (srv.serve k req w').1 ∧
      (srv.serve k req w').2 = (srv.serve k req w).2 := by
  obtain ⟨hreq, hres, hverdict, hwire⟩ :=
    alike_runMiddlewares k hsrv.middlewares req .init 0 h
  simp only [serve, hreq, hres, hverdict]
  split
  · exact ⟨hwire, rfl⟩
  · exact ⟨hwire, rfl⟩
  · have hout := alike_dispatch k hsrv.handlers
      (runMiddlewares k req .init w 0 srv.middlewares).req
      (runMiddlewares k req .init w 0 srv.middlewares).res 0 false hwire
    exact ⟨hout.wire, congrArg HttpRequest.keepAlive hout.req⟩

/-- **One turn** on alike connections: the same exchange, and alike connections again. -/
theorem alike_turn (hsrv : srv.StreamOnly) (k : Nat) (h : w.Alike w')
    (hopen : w.conn.closed = false) :
    (srv.turn k w').exchange = (srv.turn k w).exchange ∧
      (srv.turn k w').goesOn = (srv.turn k w).goesOn ∧
      (srv.turn k w).wire.Alike (srv.turn k w').wire := by
  have hstart : ({ w with events := [] } : Wire).Alike { w' with events := [] } :=
    ⟨h.pending, h.closed, h.fd, h.send, h.sent, rfl⟩
  obtain ⟨hreq, hleft, hparsed⟩ := hstart.parse hopen
  have hpending : w'.pending = w.pending := h.pending hopen
  unfold turn
  generalize ({ w with events := [] } : Wire).parse = out at *
  generalize ({ w' with events := [] } : Wire).parse = out' at *
  obtain ⟨req, w₁⟩ := out
  obtain ⟨req', w₁'⟩ := out'
  simp only at hreq hleft hparsed ⊢
  subst hreq
  cases req' with
  | none =>
      have hrefused : (refuse w₁).Alike (refuse w₁') := by
        simp only [refuse, hparsed.closed]
        split
        · exact hparsed
        · exact hparsed.flush _
      simp only [hpending, hleft, hrefused.closed, hrefused.events, hrefused.sent, h.sent]
      exact ⟨trivial, trivial, hrefused⟩
  | some req =>
      obtain ⟨hserved, hon⟩ := alike_serve hsrv k req hparsed
      simp only [hpending, hleft, hon, hserved.closed, hserved.events, hserved.sent, h.sent]
      exact ⟨trivial, trivial, hserved⟩

/-- **The whole run** on alike connections. -/
theorem alike_handleConnection (hsrv : srv.StreamOnly) (k : Nat) (h : w.Alike w') :
    (srv.handleConnection k w').1 = (srv.handleConnection k w).1 ∧
      (srv.handleConnection k w).2.Alike (srv.handleConnection k w').2 := by
  -- on the loop of the first run; the second takes the same turns
  induction k, w using HttpServer.handleConnection.induct srv generalizing w' with
  | case1 k w hclosed =>
      rw [handleConnection_closed hclosed, handleConnection_closed (h.closed.trans hclosed)]
      exact ⟨rfl, h⟩
  | case2 k w hclosed t hon exchanges wEnd hrest =>
      rename_i ih
      have hopen : w.conn.closed = false := by simpa using hclosed
      obtain ⟨hexchange, hgoes, hwire⟩ := alike_turn hsrv k h hopen
      obtain ⟨hexchanges, hend⟩ := ih hwire
      rw [handleConnection_goesOn hopen hon,
        handleConnection_goesOn (h.closed.trans hopen) (hgoes.trans hon), hexchange, hexchanges]
      exact ⟨rfl, hend⟩
  | case3 k w hclosed t =>
      rename_i hstop
      have hopen : w.conn.closed = false := by simpa using hclosed
      have hstop : (srv.turn k w).goesOn = false := by simpa using hstop
      obtain ⟨hexchange, hgoes, hwire⟩ := alike_turn hsrv k h hopen
      rw [handleConnection_stop hopen hstop,
        handleConnection_stop (h.closed.trans hopen) (hgoes.trans hstop), hexchange]
      exact ⟨rfl, hwire⟩

end Server

end HttpServer

end CoroutineHttp.Http
