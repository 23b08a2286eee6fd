/-
  CoroutineHttp.Http.Registration

  How a server is set up, and what it makes of routes that are registered later.

  `route` appends, and the first route that qualifies is taken.  So a route that is
  registered later takes no request from those before it: two runs, with and without it,
  are the same up to a turn in which the shorter table has no route for the request and
  answers 404 or 405.
-/

import CoroutineHttp.Http.Routing

namespace CoroutineHttp.Http

open CoroutineHttp.Library CoroutineHttp.Net

namespace HttpServer

/-! ## Registration -/

/-- The constructor. -/
def init : HttpServer := ⟨[], []⟩

/-- `route`. -/
def route (srv : HttpServer) (method path : Bytes) (handler : HttpHandler) : HttpServer :=
  { srv with routes := srv.routes ++ [⟨method, path, handler⟩] }

/-- `get`. -/
def get (srv : HttpServer) (path : Bytes) (handler : HttpHandler) : HttpServer :=
  srv.route (bytes "GET") path handler

/-- `post`. -/
def post (srv : HttpServer) (path : Bytes) (handler : HttpHandler) : HttpServer :=
  srv.route (bytes "POST") path handler

/-- `put`. -/
def put (srv : HttpServer) (path : Bytes) (handler : HttpHandler) : HttpServer :=
  srv.route (bytes "PUT") path handler

/-- `del`. -/
def del (srv : HttpServer) (path : Bytes) (handler : HttpHandler) : HttpServer :=
  srv.route (bytes "DELETE") path handler

/-- `use`. -/
def use (srv : HttpServer) (mw : Middleware) : HttpServer :=
  { srv with middlewares := srv.middlewares ++ [mw] }

/-- The calls `route(r.method, r.pattern, r.handler)` for each of `more`. -/
def routeAll (srv : HttpServer) (more : List Route) : HttpServer :=
  more.foldl (fun srv r => srv.route r.method r.pattern r.handler) srv

theorem routeAll_eq (srv : HttpServer) (more : List Route) :
    srv.routeAll more = { srv with routes := srv.routes ++ more } := by
  induction more generalizing srv with
  | nil => simp [routeAll]
  | cons r more ih =>
      rw [routeAll, List.foldl_cons, ← routeAll, ih, route, List.append_assoc]
      rfl

/-! ## Routes that come later -/

section Later

variable {srv : HttpServer} {more : List Route} {k : Nat} {req : HttpRequest} {w : Wire}

/-- The server has no route for the request, and one of `more` has its path.  The answer is
    an error, 405 or 404. -/
inductive Misses (srv : HttpServer) (more : List Route) (k : Nat) (req : HttpRequest) (w : Wire) :
    Prop where
  | intro (req' : HttpRequest) (res' : HttpResponse) (w' : Wire)
      (hpass : Passing k 0 req .init w srv.middlewares req' res' w')
      (hnone : ∀ r ∈ srv.routes, ¬ r.Qualifies req')
      (hmore : ∃ r ∈ more, (r.match req'.path).isSome)
      (hanswer : srv.serve k req w = (unrouted srv.routes req' w', req'.keepAlive))

/-- A first match stays the first. -/
theorem FirstMatch.append {routes before : List Route} {r : Route} {params : StrMap}
    (h : FirstMatch routes req before r params) (more : List Route) :
    FirstMatch (routes ++ more) req before r params := by
  obtain ⟨⟨after, hsplit⟩, hearlier, hmethod, hcaptures⟩ := h
  refine ⟨⟨after ++ more, ?_⟩, hearlier, hmethod, hcaptures⟩
  rw [hsplit, List.append_assoc, List.cons_append]

/-- Two servers to which the rule applies alike. -/
theorem serve_eq_of_served {srv' : HttpServer} {out : Wire × Bool} (h : Served srv k req w out)
    (h' : Served srv' k req w out) : srv'.serve k req w = srv.serve k req w :=
  h'.eq_serve.trans h.eq_serve.symm

/-- **One request.** -/
theorem serve_routeAll (srv : HttpServer) (more : List Route) (k : Nat) (req : HttpRequest)
    (w : Wire) :
    (srv.routeAll more).serve k req w = srv.serve k req w ∨ Misses srv more k req w := by
  rw [routeAll_eq]
  -- both servers come to the same rule, but for a request that the first has no route for
  rcases passing_or k 0 req .init w srv.middlewares with ⟨req', res', w', hpass⟩ |
    ⟨before, mw, after, req', res', w', hmws, hpass, hstop⟩
  · rcases firstMatch_or srv.routes req' with ⟨before, r, params, hfirst⟩ | hnone
    · left
      exact serve_eq_of_served (.handled req' res' w' before r params _ hpass hfirst rfl)
        (.handled req' res' w' before r params _ hpass (hfirst.append more) rfl)
    · have hold : Served srv k req w (unrouted srv.routes req' w', req'.keepAlive) :=
        .unrouted req' res' w' hpass hnone
      by_cases hmore : ∃ r ∈ more, (r.match req'.path).isSome
      · exact .inr ⟨req', res', w', hpass, hnone, hmore, hold.eq_serve⟩
      · left
        have hnone' : ∀ r ∈ srv.routes ++ more, ¬ r.Qualifies req' := by
          intro r hr
          rcases List.mem_append.mp hr with hr | hr
          · exact hnone r hr
          · exact fun hq => hmore ⟨r, hr, hq.2⟩
        have hsame : unrouted (srv.routes ++ more) req' w' = unrouted srv.routes req' w' := by
          have hiff : (∃ r ∈ srv.routes ++ more, (r.match req'.path).isSome)
              ↔ ∃ r ∈ srv.routes, (r.match req'.path).isSome := by
            simp only [List.mem_append, or_and_right, exists_or, hmore, or_false]
          simp only [unrouted, hiff]
        have hnew : Served { srv with routes := srv.routes ++ more } k req w
            (unrouted (srv.routes ++ more) req' w', req'.keepAlive) :=
          .unrouted req' res' w' hpass hnone'
        rw [hsame] at hnew
        exact serve_eq_of_served hold hnew
  · left
    rw [Nat.zero_add] at hstop
    cases hverdict : (mw.run k req' res' (w'.record (.middleware before.length))).verdict with
    | pass => exact absurd hverdict hstop
    | stop =>
        exact serve_eq_of_served
          (.stopped before mw after req' res' w' _ hmws hpass rfl hverdict)
          (.stopped before mw after req' res' w' _ hmws hpass rfl hverdict)
    | threw =>
        exact serve_eq_of_served
          (.threw before mw after req' res' w' _ hmws hpass rfl hverdict)
          (.threw before mw after req' res' w' _ hmws hpass rfl hverdict)

/-- **One turn.** -/
theorem turn_routeAll (srv : HttpServer) (more : List Route) (k : Nat) (w : Wire) :
    (srv.routeAll more).turn k w = srv.turn k w ∨
      ∃ req w₁, ({ w with events := [] } : Wire).parse = (some req, w₁) ∧
        Misses srv more k req w₁ := by
  obtain ⟨out, w₁, hparse⟩ : ∃ out w₁, ({ w with events := [] } : Wire).parse = (out, w₁) :=
    ⟨_, _, rfl⟩
  cases out with
  | none => exact .inl (by simp only [turn, hparse])
  | some req =>
      refine (serve_routeAll srv more k req w₁).imp (fun hsame => ?_) fun h =>
        ⟨req, w₁, hparse, h⟩
      simp only [turn, hparse, hsame]

/-- A run on an open connection begins with its first turn. -/
theorem handleConnection_cons (srv : HttpServer) (k : Nat) (hopen : w.conn.closed = false) :
    ∃ after, (srv.handleConnection k w).1 = (srv.turn k w).exchange :: after := by
  cases hon : (srv.turn k w).goesOn with
  | false => exact ⟨[], by rw [handleConnection_stop hopen hon]⟩
  | true => exact ⟨_, by rw [handleConnection_goesOn hopen hon]⟩

/-- **Later routes only fill gaps.** A server with more routes registered goes through the
    same run, or through the same turns up to one whose request the server has no route for
    and answers with an error. -/
theorem later_routes (srv : HttpServer) (more : List Route) (k : Nat) (w : Wire) :
    (srv.routeAll more).handleConnection k w = srv.handleConnection k w ∨
      ∃ before k' w' req w₁,
        ({ w' with events := [] } : Wire).parse = (some req, w₁) ∧ Misses srv more k' req w₁ ∧
        (∃ after, (srv.handleConnection k w).1
          = before ++ (srv.turn k' w').exchange :: after) ∧
        ∃ after, ((srv.routeAll more).handleConnection k w).1
          = before ++ ((srv.routeAll more).turn k' w').exchange :: after := by
  -- on the turns of the server itself
  induction k, w using HttpServer.handleConnection.induct srv with
  | case1 k w hclosed =>
      left
      rw [handleConnection_closed hclosed, handleConnection_closed hclosed]
  | case2 k w hclosed t hon exchanges wEnd hrest =>
      rename_i ih
      have hopen : w.conn.closed = false := by simpa using hclosed
      rcases turn_routeAll srv more k w with hsame | ⟨req, w₁, hparse, hmisses⟩
      · have hon' : ((srv.routeAll more).turn k w).goesOn = true := by rw [hsame]; exact hon
        have hold := handleConnection_goesOn hopen hon
        have hnew := handleConnection_goesOn hopen hon'
        rw [hsame] at hnew
        rcases ih with heq | ⟨before, k', w', req, w₁, hparse, hmisses, ⟨after, hafter⟩,
          after', hafter'⟩
        · left
          rw [hold, hnew, heq]
        · refine .inr ⟨(srv.turn k w).exchange :: before, k', w', req, w₁, hparse, hmisses,
            ⟨after, ?_⟩, after', ?_⟩
          · rw [hold, hafter]
            rfl
          · rw [hnew, hafter']
            rfl
      · exact .inr ⟨[], k, w, req, w₁, hparse, hmisses, handleConnection_cons srv k hopen,
          handleConnection_cons _ k hopen⟩
  | case3 k w hclosed t =>
      rename_i hstop
      have hopen : w.conn.closed = false := by simpa using hclosed
      have hstop : (srv.turn k w).goesOn = false := by simpa using hstop
      rcases turn_routeAll srv more k w with hsame | ⟨req, w₁, hparse, hmisses⟩
      · left
        have hstop' : ((srv.routeAll more).turn k w).goesOn = false := by rw [hsame]; exact hstop
        rw [handleConnection_stop hopen hstop, handleConnection_stop hopen hstop', hsame]
      · exact .inr ⟨[], k, w, req, w₁, hparse, hmisses, handleConnection_cons srv k hopen,
          handleConnection_cons _ k hopen⟩

end Later

end HttpServer

end CoroutineHttp.Http
