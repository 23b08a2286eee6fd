/-
  CoroutineHttp.Http.FailStop

  What a failing `send` does to the rest of a connection: nothing but cut it off.

  The run of the request loop with any answers to `send` is compared with the run in
  which every `send` accepts all it is offered.  The two stay in step until a write
  fails; from then on the connection is closed, nothing more is accepted on it, and
  the first run lags behind the second.
-/

import CoroutineHttp.Http.Script
import CoroutineHttp.Net.Packets
import CoroutineHttp.Net.Writing

namespace CoroutineHttp.Http

open CoroutineHttp.Library CoroutineHttp.Net

namespace Wire

/-! ## In step, or behind -/

section Lags

variable (script : SendScript) (w w' : Wire)

/-- The two connections are the same but for the answers to `send`: one is still within
    `script`, the other accepts everything. -/
structure InStep : Prop where
  conn : w.conn = w'.conn
  recv : w.recv = w'.recv
  sent : w.sent = w'.sent
  events : w.events = w'.events
  send : w.send <:+ script
  send' : w'.send = []

/-- The first connection has failed by an answer of `script`. -/
structure Behind : Prop where
  closed : w.conn.closed = true
  sent : w.sent <+: w'.sent
  failed : ∃ e ∈ script, e.succeeds = false

/-- The one or the other. -/
def Lags : Prop := InStep script w w' ∨ Behind script w w'

end Lags

/-- A use of the connection that stops at a failed write: on a closed connection it sends
    nothing, it takes back nothing that is sent, and of two connections in step it makes
    two that are in step, or one behind the other. -/
structure FailStop (f : Wire → Wire) : Prop where
  closed : ∀ w, w.conn.closed = true → (f w).conn.closed = true ∧ (f w).sent = w.sent
  grows : ∀ w, w.sent <+: (f w).sent
  lags : ∀ script w w', InStep script w w' → Lags script (f w) (f w')

namespace FailStop

variable {f g : Wire → Wire}

theorem id : FailStop fun w => w :=
  ⟨fun _ h => ⟨h, rfl⟩, fun _ => List.prefix_rfl, fun _ _ _ h => .inl h⟩

/-- Behind stays behind. -/
theorem behind (hf : FailStop f) {script : SendScript} {w w' : Wire} (h : Behind script w w') :
    Behind script (f w) (f w') := by
  obtain ⟨hclosed, hsent⟩ := hf.closed w h.closed
  exact ⟨hclosed, hsent ▸ h.sent.trans (hf.grows w'), h.failed⟩

theorem lags_of_lags (hf : FailStop f) {script : SendScript} {w w' : Wire}
    (h : Lags script w w') : Lags script (f w) (f w') :=
  h.elim (hf.lags script w w') fun h => .inr (hf.behind h)

theorem comp (hg : FailStop g) (hf : FailStop f) : FailStop fun w => g (f w) := by
  refine ⟨fun w h => ?_, fun w => (hf.grows w).trans (hg.grows _), fun script w w' h => ?_⟩
  · obtain ⟨hclosed, hsent⟩ := hf.closed w h
    obtain ⟨hclosed', hsent'⟩ := hg.closed _ hclosed
    exact ⟨hclosed', hsent'.trans hsent⟩
  · exact hg.lags_of_lags (hf.lags script w w' h)

theorem record (e : Event) : FailStop fun w => w.record e :=
  ⟨fun _ h => ⟨h, rfl⟩, fun _ => List.prefix_rfl, fun _ _ _ h =>
    .inl ⟨h.conn, h.recv, h.sent, congrArg (· ++ [e]) h.events, h.send, h.send'⟩⟩

/-- **A write** keeps in step, or fails with a part accepted. -/
theorem write (data : Bytes) : FailStop fun w => w.write data := by
  refine ⟨fun w h => ?_, fun w => List.prefix_append _ _, fun script w w' h => ?_⟩
  · simp only [Wire.write, Connection.write_of_closed h]
    exact ⟨h, List.append_nil _⟩
  by_cases hgo : (w.conn.closed || data.isEmpty) = true
  -- nothing is written on either
  · have hgo' : (w'.conn.closed || data.isEmpty) = true := h.conn ▸ hgo
    simp only [Wire.write, Connection.write, if_pos hgo, if_pos hgo', List.append_nil]
    exact .inl h
  have hgo' : ¬ (w'.conn.closed || data.isEmpty) = true := h.conn ▸ hgo
  have hopen : w.conn.closed = false := by
    cases hc : w.conn.closed
    · rfl
    · simp [hc] at hgo
  obtain ⟨haccepted, hall⟩ := Connection.sendLoop_accepted data 0 w.send
  have hclosed := Connection.sendLoop_closed data 0 w.send
  have hideal : Connection.sendLoop data 0 [] = ⟨0 + data.length, false, [], data⟩ := by
    simp [Connection.sendLoop]
  simp only [Wire.write, Connection.write, if_neg hgo, if_neg hgo', h.send', hideal]
  cases hfails : Connection.failsBefore data.length w.send with
  | false =>
      rw [hfails] at hclosed
      left
      exact ⟨by simp [h.conn, hclosed], h.recv, by simp [h.sent, hall hfails], h.events,
        (Connection.sendLoop_suffix data 0 w.send).trans h.send, rfl⟩
  | true =>
      rw [hfails] at hclosed
      right
      refine ⟨hclosed, ?_, ?_⟩
      · show w.sent ++ _ <+: w'.sent ++ data
        rw [h.sent]
        exact (List.prefix_append_right_inj _).mpr haccepted
      · obtain ⟨e, he, hno⟩ := Connection.exists_of_failsBefore hfails
        exact ⟨e, h.send.subset he, hno⟩

theorem flush (res : HttpResponse) : FailStop fun w => w.flush res :=
  (record _).comp (write res.message)

theorem call (res : HttpResponse) (c : HttpResponse.ResCall) : FailStop fun w => w.call res c := by
  cases hr : res.toFlush c with
  | none =>
      have hcall : (fun w : Wire => w.call res c) = fun w => w := by
        funext w
        simp [Wire.call, hr]
      rw [hcall]
      exact .id
  | some r =>
      have hcall : (fun w : Wire => w.call res c) = fun w => w.flush r := by
        funext w
        simp [Wire.call, hr]
      rw [hcall]
      exact .flush r

/-- A call that reads, or closes. -/
theorem reading {g : Connection → RecvScript → Connection × RecvScript}
    (hg : ∀ c r, c.closed = true → (g c r).1.closed = true) :
    FailStop fun w =>
      { w with conn := (g w.conn w.recv).1, recv := (g w.conn w.recv).2 } := by
  refine ⟨fun w h => ⟨hg _ _ h, rfl⟩, fun w => List.prefix_rfl, fun script w w' h => .inl ?_⟩
  have hsame : g w.conn w.recv = g w'.conn w'.recv := by rw [h.conn, h.recv]
  exact ⟨congrArg Prod.fst hsame, congrArg Prod.snd hsame, h.sent, h.events, h.send, h.send'⟩

/-- What is done on an open connection only. -/
theorem unlessClosed (hf : FailStop f) : FailStop fun w => if w.conn.closed then w else f w := by
  refine ⟨fun w h => ?_, fun w => ?_, fun script w w' h => ?_⟩
  · rw [if_pos h]
    exact ⟨h, rfl⟩
  · split
    · exact List.prefix_rfl
    · exact hf.grows w
  · simp only [h.conn]
    split
    · exact .inl h
    · exact hf.lags script w w' h

end FailStop

end Wire

/-! ## Handlers -/

/-- Whatever the connection answers, the handler does the same with it, and stops at a
    failed write. -/
def HttpHandler.FailStop (handler : HttpHandler) : Prop :=
  ∀ turn req res, ∃ req' res' threw f, Wire.FailStop f ∧
    ∀ w, handler.run turn req res w = ⟨req', res', f w, threw⟩

def Middleware.FailStop (mw : Middleware) : Prop :=
  ∀ turn req res, ∃ req' res' verdict f, Wire.FailStop f ∧
    ∀ w, mw.run turn req res w = ⟨req', res', f w, verdict⟩

structure HttpServer.FailStop (srv : HttpServer) : Prop where
  middlewares : ∀ mw ∈ srv.middlewares, mw.FailStop
  handlers : ∀ r ∈ srv.routes, r.handler.FailStop

namespace HttpServer

theorem failStop_runMiddlewares (turn : Nat) {mws : List Middleware}
    (hmws : ∀ mw ∈ mws, mw.FailStop) (req : HttpRequest) (res : HttpResponse) (i : Nat) :
    ∃ req' res' verdict f, Wire.FailStop f ∧
      ∀ w, runMiddlewares turn req res w i mws = ⟨req', res', f w, verdict⟩ := by
  -- on the middlewares; one that passes is followed by the others
  induction mws generalizing req res i with
  | nil => exact ⟨req, res, .pass, _, .id, fun w => rfl⟩
  | cons mw mws ih =>
      obtain ⟨req', res', verdict, f, hf, hrun⟩ := hmws mw List.mem_cons_self turn req res
      have hfirst : Wire.FailStop fun w => f (w.record (.middleware i)) := hf.comp (.record _)
      have hstop : ∀ w, verdict ≠ .pass → runMiddlewares turn req res w i (mw :: mws)
          = ⟨req', res', f (w.record (.middleware i)), verdict⟩ := by
        intro w hverdict
        simp only [runMiddlewares, hrun]
      by_cases hpass : verdict = .pass
      · obtain ⟨req'', res'', verdict', g, hg, hrest⟩ :=
          ih (fun m hm => hmws m (List.mem_cons_of_mem _ hm)) req' res' (i + 1)
        refine ⟨req'', res'', verdict', _, hg.comp hfirst, fun w => ?_⟩
        simp only [runMiddlewares, hrun, hpass, hrest]
      · exact ⟨req', res', verdict, _, hfirst, fun w => hstop w hpass⟩

theorem failStop_callHandler (turn : Nat) {handler : HttpHandler} (hhandler : handler.FailStop)
    (req : HttpRequest) (res : HttpResponse) :
    ∃ req' res' f, Wire.FailStop f ∧
      ∀ w, callHandler turn handler req res w = ⟨req', res', f w, false⟩ := by
  obtain ⟨req', res', threw, f, hf, hrun⟩ := hhandler turn req res
  cases threw with
  | false => exact ⟨req', res', f, hf, fun w => by simp [callHandler, hrun]⟩
  | true =>
      have hafter := Wire.FailStop.unlessClosed
        (.flush (errorResponse 500 (bytes "Internal Server Error")))
      refine ⟨req', res', _, hafter.comp hf, fun w => ?_⟩
      simp [callHandler, hrun, sendError]

theorem failStop_dispatch (turn : Nat) {routes : List Route}
    (hroutes : ∀ r ∈ routes, r.handler.FailStop) (req : HttpRequest) (res : HttpResponse)
    (i : Nat) (pathMatched : Bool) :
    ∃ req' res' f, Wire.FailStop f ∧
      ∀ w, dispatch turn req res w i pathMatched routes = ⟨req', res', f w, false⟩ := by
  -- on the routes still to be tried
  induction routes generalizing i pathMatched with
  | nil =>
      cases pathMatched with
      | true => exact ⟨req, res, _, .flush _, fun w => rfl⟩
      | false => exact ⟨req, res, _, .flush _, fun w => rfl⟩
  | cons r rs ih =>
      have hrs := ih fun r' hr' => hroutes r' (List.mem_cons_of_mem _ hr')
      simp only [dispatch]
      split
      · exact hrs _ _
      next params _ =>
        split
        · exact hrs _ _
        · obtain ⟨req', res', f, hf, hrun⟩ := failStop_callHandler turn
            (hroutes r List.mem_cons_self) { req with params := params } res
          exact ⟨req', res', _, hf.comp (.record (.handler i)), fun w => hrun _⟩

section Server

variable {srv : HttpServer}

theorem failStop_serve (hsrv : srv.FailStop) (k : Nat) (req : HttpRequest) :
    ∃ on f, Wire.FailStop f ∧ ∀ w, srv.serve k req w = (f w, on) := by
  obtain ⟨req', res', verdict, f, hf, hmws⟩ :=
    failStop_runMiddlewares k hsrv.middlewares req .init 0
  obtain ⟨req'', res'', g, hg, hdispatch⟩ :=
    failStop_dispatch k hsrv.handlers req' res' 0 false
  cases verdict with
  | threw => exact ⟨false, f, hf, fun w => by simp only [serve, hmws]⟩
  | stop => exact ⟨req'.keepAlive, f, hf, fun w => by simp only [serve, hmws]⟩
  | pass =>
      exact ⟨req''.keepAlive, _, hg.comp hf, fun w => by simp only [serve, hmws, hdispatch]⟩

/-- A turn is a use of the connection that stops at a failed write. -/
theorem failStop_turn (hsrv : srv.FailStop) (k : Nat) (out : Option HttpRequest) :
    ∃ on f, Wire.FailStop f ∧ ∀ w w₁, ({ w with events := [] } : Wire).parse = (out, w₁) →
      (srv.turn k w).wire = f w₁ ∧ (srv.turn k w).goesOn = on := by
  cases out with
  | none =>
      refine ⟨false, refuse, .unlessClosed (.flush (errorResponse 400 (bytes "Bad Request"))),
        fun w w₁ h => srv.turn_none k h⟩
  | some req =>
      obtain ⟨on, f, hf, hserve⟩ := failStop_serve hsrv k req
      refine ⟨on, f, hf, fun w w₁ h => ?_⟩
      obtain ⟨hwire, hon⟩ := srv.turn_some k h
      exact ⟨hwire.trans (by rw [hserve]), hon.trans (by rw [hserve])⟩

/-- In step, the two runs parse the same. -/
theorem inStep_parse {script : SendScript} {w w' : Wire} (h : Wire.InStep script w w') :
    ∃ out w₁ w₁', ({ w with events := [] } : Wire).parse = (out, w₁) ∧
      ({ w' with events := [] } : Wire).parse = (out, w₁') ∧ Wire.InStep script w₁ w₁' ∧
      w₁.pending = w₁'.pending ∧ w₁.sent = w.sent ∧ w₁'.sent = w'.sent := by
  obtain ⟨conn, recv, send, sent, events⟩ := w
  obtain ⟨conn', recv', send', sent', events'⟩ := w'
  obtain ⟨hconn, hrecv, hsent, hevents, hsend, hsend'⟩ := h
  simp only at hconn hrecv hsent hevents hsend hsend'
  subst hconn hrecv hsent hevents hsend'
  exact ⟨_, _, _, rfl, rfl, ⟨rfl, rfl, rfl, rfl, hsend, rfl⟩, rfl, rfl, rfl⟩

/-- The record of a turn, by what `parse` did. -/
theorem exchange_of_parse (k : Nat) {w w₁ : Wire} {out : Option HttpRequest}
    (h : ({ w with events := [] } : Wire).parse = (out, w₁)) :
    (srv.turn k w).exchange
      = { turn := k
          request := out
          taken := w.pending.take (w.pending.length - w₁.pending.length)
          left := w₁.pending
          events := (srv.turn k w).wire.events
          accepted := (srv.turn k w).wire.sent.drop w.sent.length
          stops := !(srv.turn k w).goesOn
          closed := (srv.turn k w).wire.conn.closed } := by
  obtain rfl : ({ w with events := [] } : Wire).parse.1 = out := congrArg Prod.fst h
  obtain rfl : ({ w with events := [] } : Wire).parse.2 = w₁ := congrArg Prod.snd h
  rfl

/-- **One turn**: the same exchange and in step again, or behind with the same request. -/
theorem lags_turn (hsrv : srv.FailStop) (k : Nat) {script : SendScript} {w w' : Wire}
    (h : Wire.InStep script w w') :
    (srv.turn k w).goesOn = (srv.turn k w').goesOn ∧
      (srv.turn k w).exchange.request = (srv.turn k w').exchange.request ∧
      ((Wire.InStep script (srv.turn k w).wire (srv.turn k w').wire ∧
          (srv.turn k w).exchange = (srv.turn k w').exchange) ∨
        Wire.Behind script (srv.turn k w).wire (srv.turn k w').wire) := by
  obtain ⟨out, w₁, w₁', hparse, hparse', hstep, hpending, -, -⟩ := inStep_parse h
  obtain ⟨on, f, hf, hturn⟩ := failStop_turn hsrv k out
  obtain ⟨hwire, hon⟩ := hturn w w₁ hparse
  obtain ⟨hwire', hon'⟩ := hturn w' w₁' hparse'
  have hsame : w.pending = w'.pending := by
    rw [Wire.pending, Wire.pending, h.conn, h.recv]
  have hgoes := hon.trans hon'.symm
  rw [exchange_of_parse k hparse, exchange_of_parse k hparse', hsame, hpending, hgoes, hwire,
    hwire']
  refine ⟨rfl, rfl, ?_⟩
  rcases hf.lags script w₁ w₁' hstep with hstep' | hbehind
  · exact .inl ⟨hstep', by rw [hstep'.events, hstep'.conn, hstep'.sent, h.sent]⟩
  · exact .inr hbehind

/-- A run takes nothing back. -/
theorem sent_handleConnection (hsrv : srv.FailStop) (k : Nat) (w : Wire) :
    w.sent <+: (srv.handleConnection k w).2.sent := by
  have hturn : ∀ k w, w.sent <+: (srv.turn k w).wire.sent := by
    intro k w
    obtain ⟨out, w₁, hparse, hsent⟩ : ∃ out w₁,
        ({ w with events := [] } : Wire).parse = (out, w₁) ∧ w₁.sent = w.sent := ⟨_, _, rfl, rfl⟩
    obtain ⟨on, f, hf, hwire⟩ := failStop_turn hsrv k out
    rw [(hwire w w₁ hparse).1, ← hsent]
    exact hf.grows w₁
  induction k, w using HttpServer.handleConnection.induct srv with
  | case1 k w hclosed => rw [handleConnection_closed hclosed]
  | case2 k w hclosed t hon exchanges wEnd hrest =>
      rename_i ih
      rw [handleConnection_goesOn (by simpa using hclosed) hon]
      exact (hturn k w).trans ih
  | case3 k w hclosed t =>
      rename_i hstop
      rw [handleConnection_stop (by simpa using hclosed) (by simpa using hstop)]
      exact hturn k w

/-- What the run on `w` has done when the run on `w'` has come to its end: the same, or
    less by a failed write. -/
def RunLags (script : SendScript) (run run' : List Exchange × Wire) : Prop :=
  (Wire.InStep script run.2 run'.2 ∧ run.1 = run'.1) ∨
    (Wire.Behind script run.2 run'.2 ∧
      run.1.map Exchange.request <+: run'.1.map Exchange.request)

/-- **Runs** that start in step. -/
theorem lags_handleConnection (hsrv : srv.FailStop) (k : Nat) {script : SendScript} {w w' : Wire}
    (h : Wire.InStep script w w') :
    RunLags script (srv.handleConnection k w) (srv.handleConnection k w') := by
  -- on the turns; a turn that falls behind is the last one
  induction k, w using HttpServer.handleConnection.induct srv generalizing w' with
  | case1 k w hclosed =>
      rw [handleConnection_closed hclosed, handleConnection_closed (h.conn ▸ hclosed)]
      exact .inl ⟨h, rfl⟩
  | case2 k w hclosed t hon exchanges wEnd hrest =>
      rename_i ih
      have hopen : w.conn.closed = false := by simpa using hclosed
      obtain ⟨hgoes, hreq, hturn⟩ := lags_turn hsrv k h
      rw [handleConnection_goesOn hopen hon,
        handleConnection_goesOn (h.conn ▸ hopen) (hgoes.symm.trans hon)]
      rcases hturn with ⟨hstep, hsame⟩ | hbehind
      · rcases ih hstep with ⟨hend, hexchanges⟩ | ⟨hend, hrequests⟩
        · exact .inl ⟨hend, by rw [hsame, hexchanges]⟩
        · refine .inr ⟨hend, ?_⟩
          simp only [List.map_cons, hreq]
          exact List.prefix_cons_inj _ |>.mpr hrequests
      · rw [handleConnection_closed hbehind.closed]
        refine .inr ⟨⟨hbehind.closed, ?_, hbehind.failed⟩, ?_⟩
        · exact hbehind.sent.trans (sent_handleConnection hsrv (k + 1) _)
        · simp only [List.map_cons, List.map_nil, hreq]
          exact List.prefix_cons_inj _ |>.mpr List.nil_prefix
  | case3 k w hclosed t =>
      rename_i hstop
      have hopen : w.conn.closed = false := by simpa using hclosed
      have hstop : (srv.turn k w).goesOn = false := by simpa using hstop
      obtain ⟨hgoes, hreq, hturn⟩ := lags_turn hsrv k h
      rw [handleConnection_stop hopen hstop,
        handleConnection_stop (h.conn ▸ hopen) (hgoes.symm.trans hstop)]
      rcases hturn with ⟨hstep, hsame⟩ | hbehind
      · exact .inl ⟨hstep, by rw [hsame]⟩
      · exact .inr ⟨hbehind, by simp only [List.map_cons, List.map_nil, hreq]; exact
          List.prefix_rfl⟩

/-- A run against the one on a connection that takes everything. -/
theorem lags_accept (hsrv : srv.FailStop) (fd : Core.Fd) (recv : RecvScript) (send : SendScript) :
    RunLags send (srv.handleConnection 0 (.accept fd recv send))
      (srv.handleConnection 0 (.accept fd recv [])) :=
  lags_handleConnection hsrv 0 ⟨rfl, rfl, rfl, rfl, List.suffix_rfl, rfl⟩

namespace RunLags

variable {script : SendScript} {run run' : List Exchange × Wire}

/-- A failed write only cuts off. -/
theorem cut (h : RunLags script run run') : run.2.sent <+: run'.2.sent ∧
    run.1.map Exchange.request <+: run'.1.map Exchange.request := by
  rcases h with ⟨hstep, hsame⟩ | ⟨hbehind, hrequests⟩
  · rw [hstep.sent, hsame]
    exact ⟨List.prefix_rfl, List.prefix_rfl⟩
  · exact ⟨hbehind.sent, hrequests⟩

/-- Nothing is missing on an open connection. -/
theorem whole (h : RunLags script run run') (hopen : run.2.conn.closed = false) :
    run.2.sent = run'.2.sent := by
  rcases h with ⟨hstep, -⟩ | ⟨hbehind, -⟩
  · exact hstep.sent
  · exact absurd (hbehind.closed.symm.trans hopen) (by simp)

/-- Without a failure the runs are the same. -/
theorem same (h : RunLags script run run') (hall : ∀ e ∈ script, e.succeeds = true) :
    run.1 = run'.1 ∧ run.2.sent = run'.2.sent := by
  rcases h with ⟨hstep, hsame⟩ | ⟨hbehind, -⟩
  · exact ⟨hsame, hstep.sent⟩
  · obtain ⟨e, he, hno⟩ := hbehind.failed
    exact absurd ((hall e he).symm.trans hno) (by simp)

end RunLags

end Server

end HttpServer

/-! ## Scripts -/

/-- A call of a handler on its response object or its connection. -/
theorem Action.failStop (res : HttpResponse) (a : Action) :
    Wire.FailStop fun w => a.wireTo res w := by
  cases a with
  | respond c => exact .call res c
  | read n =>
      exact .reading (g := fun c r => (c.read r n).2) fun c r h => by
        rw [(c.read_closed r n).1, h, Bool.true_or]
  | readUntil d =>
      exact .reading (g := fun c r => (c.readUntil r d).2) fun c r h =>
        (c.call_yields r (.readUntil d)).closed.trans (by rw [h, Bool.true_or])
  | readExact n =>
      exact .reading (g := fun c r => (c.readExact r n).2) fun c r h => by
        rw [(c.readExact_spec r n).closed, h, Bool.true_or]
  | close =>
      exact .reading (g := fun c r => (c.close.1, r)) fun c r h => by
        rw [Connection.close_of_closed h, h]

theorem Action.failStop_all (res : HttpResponse) (as : List Action) :
    Wire.FailStop fun w => Action.wireAll res w as := by
  induction as generalizing res with
  | nil => exact .id
  | cons a as ih => exact (ih (a.respondTo res)).comp (a.failStop res)

/-- Servers of scripts stop at a failed write. -/
theorem ScriptServer.failStop (s : ScriptServer) : s.server.FailStop := by
  constructor
  · intro mw hmw turn req res
    obtain ⟨script, -, rfl⟩ := List.mem_map.mp hmw
    exact ⟨_, _, _, _, Action.failStop_all res (script turn req).actions, fun w => rfl⟩
  · intro r hr turn req res
    obtain ⟨route, -, rfl⟩ := List.mem_map.mp hr
    exact ⟨_, _, _, _, Action.failStop_all res (route.script turn req).actions, fun w => rfl⟩

namespace HttpServer

/-- **Failures only cut off.** What the kernel accepts on a connection is a first part of
    what it would accept if it took everything at once, and the requests that are parsed
    are the first ones of those parsed then; when no answer to `send` is a failure, the
    whole run is the same, however the responses are cut up. -/
theorem failures_cut_off {srv : HttpServer} (hsrv : srv.FailStop) (fd : Core.Fd) (recv : RecvScript)
    (send : SendScript) :
    let run := srv.handleConnection 0 (.accept fd recv send)
    let ideal := srv.handleConnection 0 (.accept fd recv [])
    run.2.sent <+: ideal.2.sent ∧
      run.1.map Exchange.request <+: ideal.1.map Exchange.request ∧
      (run.2.conn.closed = false → run.2.sent = ideal.2.sent) ∧
      ((∀ e ∈ send, e.succeeds = true) → run.1 = ideal.1 ∧ run.2.sent = ideal.2.sent) := by
  have hlags := lags_accept hsrv fd recv send
  exact ⟨hlags.cut.1, hlags.cut.2, hlags.whole, hlags.same⟩

/-- A server with a handler that writes two responses, on a connection that takes three
    bytes and then fails. -/
theorem failures_cut_off_reset :
    let srv := (⟨[⟨bytes "GET", bytes "/", fun _ req =>
      ⟨[.respond (.text (bytes "a")), .respond (.text (bytes "b"))], req, false⟩⟩],
        []⟩ : ScriptServer).server
    let recv : RecvScript := ⟨[.data 71 (bytes "ET / HTTP/1.1\r\n\r\n")], .eof⟩
    (srv.handleConnection 0 (.accept 5 recv [.accept 2, .fail])).2.sent
      <+: (srv.handleConnection 0 (.accept 5 recv [])).2.sent :=
  (failures_cut_off (ScriptServer.failStop _) 5 _ [.accept 2, .fail]).1

end HttpServer

end CoroutineHttp.Http
