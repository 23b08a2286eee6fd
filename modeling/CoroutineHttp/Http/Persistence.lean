/-
  CoroutineHttp.Http.Persistence

  What responses say about the connection and what the server does with it.  The
  header is decided by `flush` and `send_error`, leaving the loop by the request
  alone: `persistence_iff` says for which requests the two agree.
-/

import CoroutineHttp.Http.Script

namespace CoroutineHttp.Http

open CoroutineHttp.Library CoroutineHttp.Net

/-! ## What the responses say -/

/-- `send_error` says close. -/
theorem HttpServer.errorResponse_saysClose (code : Int) (msg : Bytes) :
    (errorResponse code msg).flushed.SaysClose := by
  have hclose : ((HttpResponse.init.status code).header (bytes "Connection")
      (bytes "close")).headers[bytes "Connection"]? = some (bytes "close") :=
    Std.TreeMap.getElem?_insert_self
  unfold HttpResponse.SaysClose
  rw [HttpResponse.connection_flushed, errorResponse, HttpResponse.connection_setBody, hclose]
  rfl

/-- Responses whose `Connection` is left to `flush` do not say close. -/
theorem Action.flushAll_not_saysClose {res : HttpResponse} (hres : res.DefaultConnection)
    {as : List Action} (has : ∀ a ∈ as, a.setsConnection = false) :
    ∀ r ∈ flushAll res as, ¬ r.flushed.SaysClose := by
  induction as generalizing res with
  | nil => simp [flushAll]
  | cons a as ih =>
      have ha := has a List.mem_cons_self
      -- the object a call leaves has its `Connection` still to be set by `flush`
      have hnext : (a.respondTo res).DefaultConnection := by
        cases a with
        | respond c => exact hres.call ha
        | read n => exact hres
        | readUntil d => exact hres
        | readExact n => exact hres
        | close => exact hres
      intro r hr
      rw [flushAll, List.mem_append] at hr
      rcases hr with hr | hr
      · cases a with
        | respond c => exact hres.not_saysClose (Option.mem_toList.mp hr)
        | read n => cases hr
        | readUntil d => cases hr
        | readExact n => cases hr
        | close => cases hr
      · exact ih hnext (fun b hb => has b (List.mem_cons_of_mem _ hb)) r hr

/-! ## Handlers that leave `Connection` alone -/

/-- The handlers answer or throw and do not set `Connection`; a middleware that
    stops a request has answered it. -/
structure ScriptServer.Answers (s : ScriptServer) : Prop where
  handler_quiet : ∀ r ∈ s.routes, ∀ turn req,
    ∀ a ∈ (r.script turn req).actions, a.setsConnection = false
  handler_answers : ∀ r ∈ s.routes, ∀ turn req,
    (r.script turn req).threw = true ∨ ∃ a ∈ (r.script turn req).actions, a.writes = true
  middleware_quiet : ∀ mw ∈ s.middlewares, ∀ turn req,
    ∀ a ∈ (mw turn req).actions, a.setsConnection = false
  middleware_answers : ∀ mw ∈ s.middlewares, ∀ turn req,
    (mw turn req).pass = true ∨ ∃ a ∈ (mw turn req).actions, a.writes = true

namespace ScriptServer

variable {s : ScriptServer}

theorem answer_quiet (hs : s.Answers) (turn : Nat) (req : HttpRequest) :
    ∀ a ∈ (s.answer turn req).actions, a.setsConnection = false :=
  s.answer_all turn req (fun mw hmw => hs.middleware_quiet mw hmw turn)
    fun r hr => hs.handler_quiet r hr turn

/-- Every request gets a response. -/
theorem answer_responds (hs : s.Answers) (turn : Nat) (req : HttpRequest) :
    (s.answer turn req).responses ≠ [] := by
  have hwritten : ∀ {a : Answer}, (∃ act ∈ a.actions, act.writes = true) → a.responses ≠ [] := by
    intro a ⟨act, hact, hw⟩ hnil
    have hcount := Action.length_flushAll .init a.actions
    rw [(List.append_eq_nil_iff.mp hnil).1, List.length_nil] at hcount
    exact absurd hw (List.countP_eq_zero.mp hcount.symm act hact)
  rcases s.answer_cases turn req with ⟨code, msg, req', h⟩ | ⟨r, hr, req', h⟩ |
    ⟨req', h, mw, hmw, req₁, hstop, hsub⟩
  · rw [h]
    simp [Answer.responses, Ending.error]
  · rw [h]
    rcases hs.handler_answers r hr turn req' with hthrew | ⟨act, hact, hw⟩
    · simp [Answer.responses, Ending.error, hthrew]
    · exact hwritten ⟨act, List.mem_append_right _ hact, hw⟩
  · have hanswers := hs.middleware_answers mw hmw turn req₁
    obtain ⟨act, hact, hw⟩ := hanswers.resolve_left (by simp [hstop])
    rw [h]
    exact hwritten ⟨act, hsub act hact, hw⟩

end ScriptServer

/-! ## Agreement -/

/-- A property of the elements of a list in terms of what follows them, when only
    the last one can have it. -/
theorem forall_split_concat {α : Type*} {P : α → Prop} {Q : Prop} {init : List α} {last : α}
    (hinit : ∀ a ∈ init, ¬ P a) :
    (∀ rs r rs', init ++ [last] = rs ++ r :: rs' → (P r ↔ rs' = [] ∧ Q)) ↔ (P last ↔ Q) := by
  constructor
  · intro h
    simpa using h init last [] rfl
  · intro h rs r rs' heq
    rcases List.eq_nil_or_concat rs' with rfl | ⟨rs'', b, rfl⟩
    · obtain ⟨-, hr⟩ := List.append_inj' heq rfl
      cases hr
      simpa using h
    · have hr : r ∈ init := by
        have hsplit : init ++ [last] = (rs ++ r :: rs'') ++ [b] := by simp [heq]
        obtain ⟨rfl, -⟩ := List.append_inj' hsplit rfl
        simp
      exact iff_of_false (hinit r hr) (by simp)

/-- Advertised and actual persistence agree in a run of `handle_connection`: on a
    connection that did not fail, a response says close exactly when it is the last
    thing the server does. -/
def PersistenceAgrees (run : List HttpServer.Exchange) : Prop :=
  ∀ before x after, run = before ++ x :: after → x.closed = false →
    ∀ rs r rs', x.responses = rs ++ r :: rs' → (r.1.SaysClose ↔ rs' = [] ∧ after = [])

namespace ScriptServer

/-- Only the last response of an answer can say close, and it does if it is an
    error response. -/
theorem answer_last {s : ScriptServer} (hs : s.Answers) (turn : Nat) (req : HttpRequest) :
    ∃ init last, (s.answer turn req).responses = init ++ [last] ∧
      (∀ r ∈ init, ¬ r.flushed.SaysClose) ∧
      (last.flushed.SaysClose ↔ (s.answer turn req).ending.error.isSome) := by
  have hquiet : ∀ r ∈ Action.flushAll .init (s.answer turn req).actions, ¬ r.flushed.SaysClose :=
    Action.flushAll_not_saysClose (.inl rfl) (answer_quiet hs turn req)
  have hne := answer_responds hs turn req
  unfold Answer.responses at hne ⊢
  cases hend : (s.answer turn req).ending with
  | returned =>
      rw [hend] at hne
      simp only [Ending.error, Option.toList_none, List.append_nil] at hne ⊢
      obtain ⟨init, last, hl⟩ := (List.eq_nil_or_concat _).resolve_left hne
      rw [List.concat_eq_append] at hl
      rw [hl] at hquiet ⊢
      refine ⟨init, last, rfl, fun r hr => hquiet r (by simp [hr]), ?_⟩
      exact iff_of_false (hquiet last (by simp)) (by simp)
  | noRoute code msg =>
      exact ⟨_, _, rfl, hquiet, iff_of_true (HttpServer.errorResponse_saysClose _ _) rfl⟩
  | threw => exact ⟨_, _, rfl, hquiet, iff_of_true (HttpServer.errorResponse_saysClose _ _) rfl⟩

/-- A turn of a request on a connection that stays open writes the responses of
    its answer. -/
theorem turn_responses (s : ScriptServer) (k : Nat) {w : Wire} {req : HttpRequest}
    (hreq : w.parse.1 = some req) (hopen : (s.server.turn k w).exchange.closed = false) :
    (s.server.turn k w).exchange.stops = !(s.answer k req).req.keepAlive ∧
      (s.server.turn k w).exchange.responses
        = (s.answer k req).responses.map fun r => (r.flushed, r.message) := by
  obtain ⟨w₁, hparse, hevents⟩ : ∃ w₁, ({ w with events := [] } : Wire).parse = (some req, w₁) ∧
      w₁.responses = [] := ⟨_, Prod.ext hreq rfl, rfl⟩
  obtain ⟨hon, hwire⟩ := s.turn_answer k hparse
  obtain ⟨-, -, -, hstops, hclosed⟩ := s.server.turn_exchange k w
  refine ⟨hstops.trans (congrArg not hon), ?_⟩
  have hdelivered := congrArg Wire.responses hwire
  rw [hclosed, ← Wire.forget_conn, hwire] at hopen
  rw [Wire.responses_forget, Answer.responses_deliver _ hopen, hevents] at hdelivered
  exact hdelivered

/-- A turn without a request on a connection that stays open writes one error
    response and leaves the loop. -/
theorem turn_bad_request (s : ScriptServer) (k : Nat) {w : Wire} (hreq : w.parse.1 = none)
    (hopen : (s.server.turn k w).exchange.closed = false) :
    (s.server.turn k w).exchange.stops = true ∧
      (s.server.turn k w).exchange.responses
        = [((HttpServer.errorResponse 400 (bytes "Bad Request")).flushed,
            (HttpServer.errorResponse 400 (bytes "Bad Request")).message)] := by
  obtain ⟨w₁, hparse, hevents⟩ : ∃ w₁, ({ w with events := [] } : Wire).parse = (none, w₁) ∧
      w₁.responses = [] := ⟨_, Prod.ext hreq rfl, rfl⟩
  obtain ⟨hwire, hstop⟩ := HttpServer.turn_none s.server k hparse
  obtain ⟨-, -, hturn, hstops, hclosed⟩ := s.server.turn_exchange k w
  refine ⟨hstops.trans (congrArg not hstop), ?_⟩
  rw [hclosed, hwire, HttpServer.refuse] at hopen
  rw [HttpServer.Exchange.responses, hturn, hwire, HttpServer.refuse]
  split at hopen
  next hclosed => simp [hclosed] at hopen
  next hclosed =>
    have hflush := w₁.responses_flush (HttpServer.errorResponse 400 (bytes "Bad Request"))
    rw [hevents] at hflush
    rw [if_neg hclosed]
    exact hflush

/-- **Persistence.** For handlers that answer through `HttpResponse` and leave
    `Connection` alone, on every byte stream: advertised and actual persistence
    agree in a run if and only if exactly the requests that are not keep-alive are
    answered by `send_error`. -/
theorem persistence_iff (s : ScriptServer) (hs : s.Answers) (fd : Core.Fd) (recv : RecvScript)
    (send : SendScript) :
    PersistenceAgrees (s.server.handleConnection 0 (.accept fd recv send)).1 ↔
      ∀ x ∈ (s.server.handleConnection 0 (.accept fd recv send)).1, x.closed = false →
        ∀ req, x.request = some req →
          ((s.answer x.turn req).ending.error.isSome ↔
            (s.answer x.turn req).req.keepAlive = false) := by
  -- one turn: its responses agree with what follows it exactly under the condition
  have hturn : ∀ before x after,
      (s.server.handleConnection 0 (.accept fd recv send)).1 = before ++ x :: after →
      x.closed = false →
      ((∀ rs r rs', x.responses = rs ++ r :: rs' → (r.1.SaysClose ↔ rs' = [] ∧ after = [])) ↔
        ∀ req, x.request = some req →
          ((s.answer x.turn req).ending.error.isSome ↔
            (s.answer x.turn req).req.keepAlive = false)) := by
    intro before x after hrun hopen
    have hlast := HttpServer.after_eq_nil_iff hrun hopen
    obtain ⟨k, w, -, rfl, -⟩ := HttpServer.handleConnection_split hrun
    obtain ⟨hk, hrequest, -⟩ := s.server.turn_exchange k w
    rw [hrequest, hlast]
    cases hreq : w.parse.1 with
    | none =>
        obtain ⟨hstops, hresponses⟩ := s.turn_bad_request k hreq hopen
        rw [hresponses, hstops]
        rw [← List.nil_append [_],
          forall_split_concat (P := fun r : HttpResponse × Bytes => r.1.SaysClose) (by simp)]
        exact iff_of_true (iff_of_true (HttpServer.errorResponse_saysClose _ _) rfl) (by simp)
    | some req =>
        obtain ⟨hstops, hresponses⟩ := s.turn_responses k hreq hopen
        obtain ⟨init, last, hans, hinit, hclose⟩ := answer_last hs k req
        rw [hresponses, hstops, hk, hans, List.map_append, List.map_singleton,
          forall_split_concat (P := fun r : HttpResponse × Bytes => r.1.SaysClose)
            (by simpa using hinit)]
        simp [hclose]
  constructor
  · intro hagrees x hx hopen
    obtain ⟨before, after, hrun⟩ := List.append_of_mem hx
    exact (hturn before x after hrun hopen).mp (hagrees before x after hrun hopen)
  · intro hall before x after hrun hopen
    exact (hturn before x after hrun hopen).mpr (hall x (by simp [hrun]) hopen)

/-- `app.post("/echo", ...)` with the body as text. -/
def echo : ScriptServer where
  routes := [⟨bytes "POST", bytes "/echo", fun _ req => ⟨[.respond (.text req.body)], req, false⟩⟩]
  middlewares := []

/-- The echo server, with a request that is handled and one that closes the connection and
    is not. -/
theorem persistence_iff_echo :
    echo.Answers ∧
      PersistenceAgrees (echo.server.handleConnection 0 (.accept 5
        ⟨[.data 80 (bytes "OST /echo HTTP/1.1\r\nContent-Length: 2\r\n\r\nhi" ++
          bytes "GET /nope HTTP/1.1\r\nConnection: close\r\n\r\n")], .eof⟩ [])).1 := by
  have hs : echo.Answers :=
    ⟨by simp [echo, Action.setsConnection, HttpResponse.ResCall.setsConnection],
      by simp [echo, Action.writes, HttpResponse.ResCall.writes], by simp [echo], by simp [echo]⟩
  refine ⟨hs, (echo.persistence_iff hs 5 _ _).mpr ?_⟩
  have hall : ∀ x ∈ (echo.server.handleConnection 0 (.accept 5
      ⟨[.data 80 (bytes "OST /echo HTTP/1.1\r\nContent-Length: 2\r\n\r\nhi" ++
        bytes "GET /nope HTTP/1.1\r\nConnection: close\r\n\r\n")], .eof⟩ [])).1,
      x.closed = false → ∀ req ∈ x.request, ((echo.answer x.turn req).ending.error.isSome ↔
        (echo.answer x.turn req).req.keepAlive = false) := by decide +kernel
  exact fun x hx hopen req hreq => hall x hx hopen req hreq

/-- An unknown path: the 404 response says close, and the server reads on. -/
theorem persistence_not_found :
    ¬ ∀ (s : ScriptServer), s.Answers → ∀ (fd : Core.Fd) (recv : RecvScript) (send : SendScript),
      PersistenceAgrees (s.server.handleConnection 0 (.accept fd recv send)).1 := by
  intro hpersists
  have hs : echo.Answers :=
    ⟨by simp [echo, Action.setsConnection, HttpResponse.ResCall.setsConnection],
      by simp [echo, Action.writes, HttpResponse.ResCall.writes], by simp [echo], by simp [echo]⟩
  let recv : RecvScript := ⟨[.data 71 (bytes "ET /nope HTTP/1.1\r\n\r\n")], .eof⟩
  let w : Wire := .accept 5 recv []
  obtain ⟨hparse, -, hclosed, -⟩ := HttpParser.parse_yields (.init 5) recv .init
  have hstream : ((HttpParser.parseStream ((Connection.init 5).pending recv) .init).1.map
      fun req => (req.path, req.keepAlive)) = some (bytes "/nope", true) := by decide +kernel
  obtain ⟨req, hreq, hpath⟩ := Option.map_eq_some_iff.mp hstream
  have hpath' : req.path = bytes "/nope" := congrArg Prod.fst hpath
  have hkeep : req.keepAlive = true := congrArg Prod.snd hpath
  have hsome : w.parse.1 = some req := hparse.trans hreq
  have hans : echo.answer 0 req = ⟨[], req, .noRoute 404 (bytes "Not Found")⟩ := by
    have hmatch : (ScriptRoute.route ⟨bytes "POST", bytes "/echo",
        fun _ req => ⟨[.respond (.text req.body)], req, false⟩⟩).match (bytes "/nope") = none := by
      decide
    simp [answer, middlewareAnswer, routeAnswer, echo, hpath', hmatch]
  obtain ⟨w₁, hparsed, hsend, hopen⟩ : ∃ w₁, ({ w with events := [] } : Wire).parse
      = (some req, w₁) ∧ w₁.send = [] ∧ w₁.conn.closed = false := by
    refine ⟨_, Prod.ext hsome rfl, rfl, hclosed.trans ?_⟩
    decide +kernel
  obtain ⟨hon, hwire⟩ := echo.turn_answer 0 hparsed
  rw [hans] at hon hwire
  have hstays : (echo.server.turn 0 w).exchange.closed = false := by
    refine (congrArg (fun w => w.conn.closed) hwire).trans ((Wire.flush_closed _ _).trans ?_)
    rw [show (Action.wireAll .init w₁ []) = w₁ from rfl, hopen, hsend]
    rfl
  have hresponses := (echo.turn_responses 0 hsome hstays).2
  rw [hans] at hresponses
  have hagrees := hpersists echo hs 5 recv []
  rw [HttpServer.handleConnection_goesOn rfl (hon.trans hkeep)] at hagrees
  have hnext : _ ∈ (echo.server.handleConnection (0 + 1) (echo.server.turn 0 w).wire).1 :=
    HttpServer.exchange_mem_handleConnection
      ((echo.server.turn_exchange 0 w).2.2.2.2.symm.trans hstays)
  have hclose := (hagrees [] _ _ rfl hstays [] _ [] hresponses).mp
    (HttpServer.errorResponse_saysClose _ _)
  exact List.ne_nil_of_mem hnext hclose.2

end ScriptServer

end CoroutineHttp.Http
