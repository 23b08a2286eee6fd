/-
  CoroutineHttp.Http.Script

  Handlers and middlewares that answer through `HttpResponse`: a `Script` is what
  one call of them does, chosen by the number of the turn and the request.

  `ScriptServer.answer` says what a server of such handlers does with a request,
  without a connection; `turn_answer` is the refinement by `HttpServer.turn`.
-/

import CoroutineHttp.Http.Server

namespace CoroutineHttp.Http

open CoroutineHttp.Library CoroutineHttp.Net

/-! ## Actions -/

/-- One call of a handler on its response object or its connection. -/
inductive Action where
  | respond (c : HttpResponse.ResCall)
  | read (maxBytes : Nat)
  | readUntil (delim : Bytes)
  | readExact (n : Nat)
  | close
deriving DecidableEq, Repr

namespace Action

/-- The response object after the call. -/
def respondTo (res : HttpResponse) : Action → HttpResponse
  | .respond c => res.call c
  | _ => res

/-- The connection after the call. -/
def wireTo (res : HttpResponse) (w : Wire) : Action → Wire
  | .respond c => w.call res c
  | .read maxBytes =>
      let (_, conn, recv) := w.conn.read w.recv maxBytes
      { w with conn := conn, recv := recv }
  | .readUntil delim =>
      let (_, conn, recv) := w.conn.readUntil w.recv delim
      { w with conn := conn, recv := recv }
  | .readExact n =>
      let (_, conn, recv) := w.conn.readExact w.recv n
      { w with conn := conn, recv := recv }
  | .close => { w with conn := w.conn.close.1 }

/-- The object on which the call flushes. -/
def toFlush (res : HttpResponse) : Action → Option HttpResponse
  | .respond c => res.toFlush c
  | _ => none

/-- The call writes a response. -/
def writes : Action → Bool
  | .respond c => c.writes
  | _ => false

/-- The call takes bytes from the connection. -/
def reads : Action → Bool
  | .read _ | .readUntil _ | .readExact _ => true
  | .respond _ | .close => false

/-- The call sets the `Connection` header. -/
def setsConnection : Action → Bool
  | .respond c => c.setsConnection
  | _ => false

theorem toFlush_isSome (res : HttpResponse) (a : Action) :
    (a.toFlush res).isSome = a.writes := by
  cases a with
  | respond c => exact res.toFlush_isSome c
  | read n => rfl
  | readUntil d => rfl
  | readExact n => rfl
  | close => rfl

theorem pending_wireTo (res : HttpResponse) (w : Wire) (a : Action) :
    (a.wireTo res w).pending.length ≤ w.pending.length := by
  cases a with
  | respond c =>
      simp only [wireTo, Wire.call]
      cases res.toFlush c with
      | none => exact le_rfl
      | some r => exact HttpServer.pending_flush w r
  | read n => exact w.conn.pending_read w.recv n
  | readUntil d => exact w.conn.pending_readUntil w.recv d
  | readExact n =>
      simp only [wireTo, Wire.pending, (w.conn.readExact_spec w.recv n).left, List.length_drop]
      omega
  | close => exact w.conn.pending_close w.recv

/-- The response object after all calls. -/
def respondAll (res : HttpResponse) (as : List Action) : HttpResponse := as.foldl respondTo res

/-- The connection after all calls. -/
def wireAll : HttpResponse → Wire → List Action → Wire
  | _, w, [] => w
  | res, w, a :: as => wireAll (a.respondTo res) (a.wireTo res w) as

/-- The objects on which the calls flush, in order. -/
def flushAll : HttpResponse → List Action → List HttpResponse
  | _, [] => []
  | res, a :: as => (a.toFlush res).toList ++ flushAll (a.respondTo res) as

theorem wireAll_append (res : HttpResponse) (w : Wire) (as bs : List Action) :
    wireAll res w (as ++ bs) = wireAll (respondAll res as) (wireAll res w as) bs := by
  induction as generalizing res w with
  | nil => rfl
  | cons a as ih => exact ih _ _

theorem pending_wireAll (res : HttpResponse) (w : Wire) (as : List Action) :
    (wireAll res w as).pending.length ≤ w.pending.length := by
  induction as generalizing res w with
  | nil => exact le_rfl
  | cons a as ih => exact (ih _ _).trans (a.pending_wireTo res w)

/-- Each writing call flushes once. -/
theorem length_flushAll (res : HttpResponse) (as : List Action) :
    (flushAll res as).length = as.countP writes := by
  induction as generalizing res with
  | nil => rfl
  | cons a as ih =>
      rw [flushAll, List.length_append, ih, List.countP_cons, ← a.toFlush_isSome res]
      cases a.toFlush res <;> simp [Nat.add_comm]

end Action

/-! ## Scripts -/

/-- One call of a handler: what it does, the request as it leaves it, and whether
    it ends with an exception. -/
structure Script where
  actions : List Action
  req : HttpRequest
  threw : Bool

/-- One call of a middleware. -/
structure MiddlewareScript where
  actions : List Action
  req : HttpRequest
  /-- What it returns. -/
  pass : Bool

/-- A handler that follows scripts. -/
def HttpHandler.ofScript (script : Nat → HttpRequest → Script) : HttpHandler where
  run turn req res w :=
    let s := script turn req
    ⟨s.req, Action.respondAll res s.actions, Action.wireAll res w s.actions, s.threw⟩
  reads _ _ res w := Action.pending_wireAll res w _

/-- A middleware that follows scripts. -/
def Middleware.ofScript (script : Nat → HttpRequest → MiddlewareScript) : Middleware where
  run turn req res w :=
    let s := script turn req
    ⟨s.req, Action.respondAll res s.actions, Action.wireAll res w s.actions,
      if s.pass then .pass else .stop⟩
  reads _ _ res w := Action.pending_wireAll res w _

/-- A route with its handler's scripts. -/
structure ScriptRoute where
  method : Bytes
  pattern : Bytes
  script : Nat → HttpRequest → Script

def ScriptRoute.route (r : ScriptRoute) : Route := ⟨r.method, r.pattern, .ofScript r.script⟩

structure ScriptServer where
  routes : List ScriptRoute
  middlewares : List (Nat → HttpRequest → MiddlewareScript)

/-! ## What a server of scripts answers -/

/-- How the answer to a request ends. -/
inductive Ending where
  | returned
  /-- No route for the request: `send_error`. -/
  | noRoute (code : Int) (msg : Bytes)
  /-- The handler threw: `send_error(500)`, unless the connection is closed. -/
  | threw

/-- What is done with a request: the calls on the response object, the request as
    it is left, and the ending. -/
structure Answer where
  actions : List Action
  req : HttpRequest
  ending : Ending

/-- The error response of an ending. -/
def Ending.error : Ending → Option HttpResponse
  | .returned => none
  | .noRoute code msg => some (HttpServer.errorResponse code msg)
  | .threw => some (HttpServer.errorResponse 500 (bytes "Internal Server Error"))

namespace Answer

/-- The objects that are flushed. -/
def responses (a : Answer) : List HttpResponse :=
  Action.flushAll .init a.actions ++ a.ending.error.toList

/-- The answer on a connection. -/
def deliver (a : Answer) (w : Wire) : Wire :=
  let w := Action.wireAll .init w a.actions
  match a.ending with
  | .returned => w
  | .noRoute code msg => HttpServer.sendError w code msg
  | .threw =>
      if w.conn.closed then w else HttpServer.sendError w 500 (bytes "Internal Server Error")

end Answer

namespace ScriptServer

def server (s : ScriptServer) : HttpServer :=
  ⟨s.routes.map ScriptRoute.route, s.middlewares.map Middleware.ofScript⟩

/-- What the middlewares do after `done`, and whether all pass. -/
def middlewareAnswer (turn : Nat) (req : HttpRequest) (done : List Action) :
    List (Nat → HttpRequest → MiddlewareScript) → List Action × HttpRequest × Bool
  | [] => (done, req, true)
  | mw :: mws =>
      let s := mw turn req
      if s.pass then middlewareAnswer turn s.req (done ++ s.actions) mws
      else (done ++ s.actions, s.req, false)

/-- What the routes do after `done`. -/
def routeAnswer (turn : Nat) (req : HttpRequest) (done : List Action) (pathMatched : Bool) :
    List ScriptRoute → Answer
  | [] =>
      ⟨done, req, if pathMatched then .noRoute 405 (bytes "Method Not Allowed")
        else .noRoute 404 (bytes "Not Found")⟩
  | r :: rs =>
      match r.route.match req.path with
      | none => routeAnswer turn req done pathMatched rs
      | some params =>
          if r.method ≠ bytes "*" ∧ r.method ≠ req.method then
            routeAnswer turn req done true rs
          else
            let s := r.script turn { req with params := params }
            ⟨done ++ s.actions, s.req, if s.threw then .threw else .returned⟩

/-- What the server does with a request. -/
def answer (s : ScriptServer) (turn : Nat) (req : HttpRequest) : Answer :=
  let (done, req, pass) := middlewareAnswer turn req [] s.middlewares
  if pass then routeAnswer turn req done false s.routes else ⟨done, req, .returned⟩

end ScriptServer

/-! ## The server does what it answers -/

namespace Wire

/-- The connection without the records of calls. -/
def forget (w : Wire) : Wire := { w with events := w.events.filter fun e => !e.invokes }

/-- The responses written so far. -/
def responses (w : Wire) : List (HttpResponse × Bytes) := w.events.filterMap Event.response?

@[simp] theorem forget_conn (w : Wire) : w.forget.conn = w.conn := rfl

theorem forget_record (w : Wire) {e : Event} (h : e.invokes = true) :
    (w.record e).forget = w.forget := by
  simp [forget, record, h]

theorem forget_flush (w : Wire) (res : HttpResponse) :
    (w.flush res).forget = w.forget.flush res := by
  simp [forget, flush, write, record, Event.invokes]

theorem forget_wireTo (res : HttpResponse) (w : Wire) (a : Action) :
    (a.wireTo res w).forget = a.wireTo res w.forget := by
  cases a with
  | respond c =>
      simp only [Action.wireTo, Wire.call]
      cases res.toFlush c with
      | none => rfl
      | some r => exact forget_flush w r
  | read n => rfl
  | readUntil d => rfl
  | readExact n => rfl
  | close => rfl

theorem forget_wireAll (res : HttpResponse) (w : Wire) (as : List Action) :
    (Action.wireAll res w as).forget = Action.wireAll res w.forget as := by
  induction as generalizing res w with
  | nil => rfl
  | cons a as ih => rw [Action.wireAll, ih, forget_wireTo, Action.wireAll]

/-- A record of a call is no response. -/
theorem responses_forget (w : Wire) : w.forget.responses = w.responses := by
  simp only [forget, responses, List.filterMap_filter]
  congr 1
  funext e
  cases e <;> rfl

theorem responses_flush (w : Wire) (res : HttpResponse) :
    (w.flush res).responses = w.responses ++ [(res.flushed, res.message)] := by
  simp [responses, flush, write, record, Event.response?]

/-- The calls write what they flush. -/
theorem responses_wireAll (res : HttpResponse) (w : Wire) (as : List Action) :
    (Action.wireAll res w as).responses
      = w.responses ++ (Action.flushAll res as).map fun r => (r.flushed, r.message) := by
  induction as generalizing res w with
  | nil => simp [Action.wireAll, Action.flushAll]
  | cons a as ih =>
      -- one call records the response it flushes
      have ha : (a.wireTo res w).responses
          = w.responses ++ (a.toFlush res).toList.map fun r => (r.flushed, r.message) := by
        cases a with
        | respond c =>
            simp only [Action.wireTo, Wire.call, Action.toFlush]
            cases res.toFlush c with
            | none => simp
            | some r => exact responses_flush w r
        | read n => simp [Action.wireTo, Action.toFlush, responses]
        | readUntil d => simp [Action.wireTo, Action.toFlush, responses]
        | readExact n => simp [Action.wireTo, Action.toFlush, responses]
        | close => simp [Action.wireTo, Action.toFlush, responses]
      rw [Action.wireAll, ih, ha, Action.flushAll, List.map_append, List.append_assoc]

end Wire

namespace ScriptServer

theorem runMiddlewares_answer (turn : Nat) (mws : List (Nat → HttpRequest → MiddlewareScript))
    (req : HttpRequest) (done : List Action) (w₀ w : Wire) (i : Nat)
    (hw : w.forget = Action.wireAll .init w₀ done) :
    let out := HttpServer.runMiddlewares turn req (Action.respondAll .init done) w i
      (mws.map Middleware.ofScript)
    let ans := middlewareAnswer turn req done mws
    out.req = ans.2.1 ∧ out.res = Action.respondAll .init ans.1 ∧
      out.wire.forget = Action.wireAll .init w₀ ans.1 ∧
      out.verdict = if ans.2.2 then .pass else .stop := by
  -- on the middlewares; `done` collects the calls of those that have run
  induction mws generalizing req done w i with
  | nil => exact ⟨rfl, rfl, hw, rfl⟩
  | cons mw mws ih =>
      have hres : Action.respondAll (Action.respondAll .init done) (mw turn req).actions
          = Action.respondAll .init (done ++ (mw turn req).actions) := by
        simp [Action.respondAll]
      have hwire : (Action.wireAll (Action.respondAll .init done) (w.record (.middleware i))
          (mw turn req).actions).forget
            = Action.wireAll .init w₀ (done ++ (mw turn req).actions) := by
        rw [Wire.forget_wireAll, Wire.forget_record w rfl, hw, ← Action.wireAll_append]
      simp only [List.map_cons, HttpServer.runMiddlewares, Middleware.ofScript, middlewareAnswer,
        hres]
      by_cases hpass : (mw turn req).pass = true
      · simp only [hpass, if_true]
        exact ih _ _ _ _ hwire
      · simp only [if_neg hpass]
        exact ⟨trivial, trivial, hwire, rfl⟩

theorem callHandler_answer (turn : Nat) (script : Nat → HttpRequest → Script)
    (req : HttpRequest) (done : List Action) (w₀ w : Wire)
    (hw : w.forget = Action.wireAll .init w₀ done) :
    let out := HttpServer.callHandler turn (.ofScript script) req (Action.respondAll .init done) w
    let s := script turn req
    out.req = s.req ∧ out.wire.forget
      = Answer.deliver ⟨done ++ s.actions, s.req, if s.threw then .threw else .returned⟩ w₀ := by
  have hwire : (Action.wireAll (Action.respondAll .init done) w (script turn req).actions).forget
      = Action.wireAll .init w₀ (done ++ (script turn req).actions) := by
    rw [Wire.forget_wireAll, hw, ← Action.wireAll_append]
  cases hthrew : (script turn req).threw with
  | false =>
      rw [HttpServer.callHandler_returned hthrew]
      simp only [hthrew, Bool.false_eq_true, if_false]
      exact ⟨rfl, hwire⟩
  | true =>
      have hconn := congrArg (fun w => w.conn.closed) hwire
      simp only [Wire.forget_conn] at hconn
      cases hclosed : (Action.wireAll (Action.respondAll .init done) w
          (script turn req).actions).conn.closed with
      | true =>
          rw [HttpServer.callHandler_threw_closed hthrew hclosed]
          refine ⟨rfl, hwire.trans ?_⟩
          simp [Answer.deliver, hthrew, ← hconn, hclosed]
      | false =>
          rw [HttpServer.callHandler_threw_open hthrew hclosed]
          refine ⟨rfl, (Wire.forget_flush _ _).trans ?_⟩
          simp only [Answer.deliver, hthrew, ← hconn, hclosed, if_true, Bool.false_eq_true,
            if_false, HttpServer.sendError]
          exact congrArg (Wire.flush · _) hwire

theorem dispatch_answer (turn : Nat) (routes : List ScriptRoute) (req : HttpRequest)
    (done : List Action) (w₀ w : Wire) (i : Nat) (pathMatched : Bool)
    (hw : w.forget = Action.wireAll .init w₀ done) :
    let out := HttpServer.dispatch turn req (Action.respondAll .init done) w i pathMatched
      (routes.map ScriptRoute.route)
    let ans := routeAnswer turn req done pathMatched routes
    out.req = ans.req ∧ out.wire.forget = ans.deliver w₀ := by
  -- on the routes still to be tried
  induction routes generalizing i pathMatched with
  | nil =>
      cases pathMatched with
      | true =>
          refine ⟨rfl, ?_⟩
          simp only [List.map_nil, HttpServer.dispatch, routeAnswer, Answer.deliver, if_true,
            HttpServer.sendError, Wire.forget_flush, hw]
      | false =>
          refine ⟨rfl, ?_⟩
          simp only [List.map_nil, HttpServer.dispatch, routeAnswer, Answer.deliver,
            Bool.false_eq_true, if_false, HttpServer.sendError, Wire.forget_flush, hw]
  | cons r rs ih =>
      have hmethod : r.route.method = r.method := rfl
      simp only [List.map_cons, HttpServer.dispatch, routeAnswer, hmethod]
      cases r.route.match req.path with
      | none => exact ih _ _
      | some params =>
          simp only
          split
          next => exact ih _ _
          next =>
            exact callHandler_answer turn r.script { req with params := params } done w₀ _
              ((Wire.forget_record w rfl).trans hw)

/-- **A turn delivers the answer.** Apart from the records of calls, the turn of a
    request leaves the connection as its answer does, and the loop goes on if and
    only if the request, as it is left, is a keep-alive one. -/
theorem turn_answer (s : ScriptServer) (k : Nat) {w w₁ : Wire} {req : HttpRequest}
    (hparse : { w with events := [] }.parse = (some req, w₁)) :
    (s.server.turn k w).goesOn = (s.answer k req).req.keepAlive ∧
      (s.server.turn k w).wire.forget = (s.answer k req).deliver w₁ := by
  have hw₁ : w₁.forget = Action.wireAll .init w₁ [] := by
    have hevents : w₁.events = [] := by
      rw [show w₁ = _ from (congrArg Prod.snd hparse).symm]
      rfl
    rw [Wire.forget, hevents, List.filter_nil, ← hevents]
    rfl
  obtain ⟨hreq, hres, hwire, hverdict⟩ := runMiddlewares_answer k s.middlewares req [] w₁ w₁ 0 hw₁
  have hinit : Action.respondAll .init [] = .init := rfl
  rw [hinit] at hreq hres hwire hverdict
  obtain ⟨hturn, hon⟩ := HttpServer.turn_some s.server k hparse
  rw [hturn, hon]
  simp only [HttpServer.serve, server, answer]
  generalize HttpServer.runMiddlewares k req .init w₁ 0 (s.middlewares.map .ofScript) = out at *
  generalize middlewareAnswer k req [] s.middlewares = ans at *
  obtain ⟨done, req', pass⟩ := ans
  obtain ⟨oreq, ores, owire, overdict⟩ := out
  simp only at hreq hres hwire hverdict
  subst hreq hres hverdict
  cases pass with
  | false => exact ⟨rfl, hwire⟩
  | true =>
      obtain ⟨hleft, hdeliver⟩ := dispatch_answer k s.routes oreq done w₁ owire 0 false hwire
      simp only [if_true]
      rw [hleft]
      exact ⟨rfl, hdeliver⟩

/-- What holds of all calls of the middlewares holds of what they do. -/
theorem middlewareAnswer_all {P : Action → Prop} (turn : Nat)
    (mws : List (Nat → HttpRequest → MiddlewareScript)) (req : HttpRequest)
    {done : List Action} (hdone : ∀ a ∈ done, P a)
    (hmws : ∀ mw ∈ mws, ∀ req, ∀ a ∈ (mw turn req).actions, P a) :
    ∀ a ∈ (middlewareAnswer turn req done mws).1, P a := by
  induction mws generalizing req done with
  | nil => exact hdone
  | cons mw mws ih =>
      have hmore : ∀ a ∈ done ++ (mw turn req).actions, P a := fun a ha =>
        (List.mem_append.mp ha).elim (hdone a) (hmws mw List.mem_cons_self req a)
      simp only [middlewareAnswer]
      split
      · exact ih _ hmore fun m hm => hmws m (List.mem_cons_of_mem _ hm)
      · exact hmore

/-- If not all middlewares pass, the last one called has not. -/
theorem middlewareAnswer_stop (turn : Nat) (mws : List (Nat → HttpRequest → MiddlewareScript))
    (req : HttpRequest) (done : List Action)
    (h : (middlewareAnswer turn req done mws).2.2 = false) :
    ∃ mw ∈ mws, ∃ req', (mw turn req').pass = false ∧
      ∀ a ∈ (mw turn req').actions, a ∈ (middlewareAnswer turn req done mws).1 := by
  -- on the middlewares; the one that stops is the last that runs
  induction mws generalizing req done with
  | nil => cases h
  | cons mw mws ih =>
      simp only [middlewareAnswer] at h ⊢
      split at h
      next hpass =>
        obtain ⟨m, hm, req', hstop, hsub⟩ := ih _ _ h
        refine ⟨m, List.mem_cons_of_mem _ hm, req', hstop, ?_⟩
        rwa [if_pos hpass]
      next hpass =>
        refine ⟨mw, List.mem_cons_self, req, by simpa using hpass, ?_⟩
        rw [if_neg hpass]
        exact fun a ha => List.mem_append_right _ ha

/-- The routes end in an error response, or in a call of one handler. -/
theorem routeAnswer_cases (turn : Nat) (routes : List ScriptRoute) (req : HttpRequest)
    (done : List Action) (pathMatched : Bool) :
    (∃ code msg, routeAnswer turn req done pathMatched routes = ⟨done, req, .noRoute code msg⟩) ∨
      ∃ r ∈ routes, ∃ req', routeAnswer turn req done pathMatched routes
        = ⟨done ++ (r.script turn req').actions, (r.script turn req').req,
            if (r.script turn req').threw then .threw else .returned⟩ := by
  induction routes generalizing pathMatched with
  | nil => cases pathMatched <;> exact .inl ⟨_, _, rfl⟩
  | cons r rs ih =>
      -- the routes after this one, whatever `pathMatched` is by then
      have hrest : ∀ b,
          (∃ code msg, routeAnswer turn req done b rs = ⟨done, req, .noRoute code msg⟩) ∨
          ∃ r' ∈ r :: rs, ∃ req', routeAnswer turn req done b rs
            = ⟨done ++ (r'.script turn req').actions, (r'.script turn req').req,
                if (r'.script turn req').threw then .threw else .returned⟩ := fun b =>
        (ih b).imp_right fun ⟨r', hr', h⟩ => ⟨r', List.mem_cons_of_mem _ hr', h⟩
      simp only [routeAnswer]
      split
      · exact hrest _
      · split
        · exact hrest _
        · exact .inr ⟨r, List.mem_cons_self, _, rfl⟩

/-- What a request may come to: no route, one handler, or a middleware that does not let it
    pass. -/
theorem answer_cases (s : ScriptServer) (turn : Nat) (req : HttpRequest) :
    let calls := (middlewareAnswer turn req [] s.middlewares).1
    (∃ code msg req', s.answer turn req = ⟨calls, req', .noRoute code msg⟩) ∨
      (∃ r ∈ s.routes, ∃ req', s.answer turn req
        = ⟨calls ++ (r.script turn req').actions, (r.script turn req').req,
            if (r.script turn req').threw then .threw else .returned⟩) ∨
      ∃ req', s.answer turn req = ⟨calls, req', .returned⟩ ∧
        ∃ mw ∈ s.middlewares, ∃ req', (mw turn req').pass = false ∧
          ∀ a ∈ (mw turn req').actions, a ∈ calls := by
  intro calls
  simp only [answer]
  split
  next =>
    rcases routeAnswer_cases turn s.routes (middlewareAnswer turn req [] s.middlewares).2.1
      (middlewareAnswer turn req [] s.middlewares).1 false with ⟨code, msg, h⟩ | ⟨r, hr, req', h⟩
    · exact .inl ⟨code, msg, _, h⟩
    · exact .inr (.inl ⟨r, hr, req', h⟩)
  next hstop =>
    exact .inr (.inr ⟨_, rfl,
      middlewareAnswer_stop turn s.middlewares req [] (by simpa using hstop)⟩)

/-- What holds of all calls of the middlewares and of the handlers holds of an answer's. -/
theorem answer_all {P : Action → Prop} (s : ScriptServer) (turn : Nat) (req : HttpRequest)
    (hmws : ∀ mw ∈ s.middlewares, ∀ req, ∀ a ∈ (mw turn req).actions, P a)
    (hroutes : ∀ r ∈ s.routes, ∀ req, ∀ a ∈ (r.script turn req).actions, P a) :
    ∀ a ∈ (s.answer turn req).actions, P a := by
  have hcalls : ∀ a ∈ (middlewareAnswer turn req [] s.middlewares).1, P a :=
    middlewareAnswer_all turn s.middlewares req (by simp) hmws
  rcases s.answer_cases turn req with ⟨code, msg, req', h⟩ | ⟨r, hr, req', h⟩ | ⟨req', h, -⟩
  · rw [h]
    exact hcalls
  · rw [h]
    intro a ha
    exact (List.mem_append.mp ha).elim (hcalls a) (hroutes r hr req' a)
  · rw [h]
    exact hcalls

end ScriptServer

/-- On a connection that is open at the end, all responses were written. -/
theorem Answer.responses_deliver (a : Answer) {w : Wire}
    (hopen : (a.deliver w).conn.closed = false) :
    (a.deliver w).responses
      = w.responses ++ a.responses.map fun r => (r.flushed, r.message) := by
  rw [Answer.responses, List.map_append, ← List.append_assoc, ← Wire.responses_wireAll]
  unfold Answer.deliver at hopen ⊢
  cases hend : a.ending with
  | returned => simp [Ending.error]
  | noRoute code msg => exact Wire.responses_flush _ _
  | threw =>
      simp only [hend] at hopen ⊢
      split at hopen
      next hclosed => simp [hclosed] at hopen
      next hclosed =>
        rw [if_neg hclosed]
        exact Wire.responses_flush _ _

end CoroutineHttp.Http
