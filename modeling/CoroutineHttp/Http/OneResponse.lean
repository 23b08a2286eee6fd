/-
  CoroutineHttp.Http.OneResponse

  The responses on a connection whose writes succeed, against the requests they
  answer.  Handlers write one response or throw; `dispatch` answers an exception on an
  open connection without knowing what was written before it.

  A handler may close the connection, or take bytes of the next requests from it.
  `one_response_iff` is about any of them; for handlers that take nothing its condition
  is one on their calls alone (`Answer.Once`).
-/

import CoroutineHttp.Http.RoundTrip
import CoroutineHttp.Http.Script
import CoroutineHttp.Net.Packets
import CoroutineHttp.Net.Writing

namespace CoroutineHttp.Http

open CoroutineHttp.Library CoroutineHttp.Net

/-! ## What is sent -/

/-- An open connection whose writes succeed. -/
structure Wire.Healthy (w : Wire) : Prop where
  isOpen : w.conn.closed = false
  send : ∀ e ∈ w.send, e.succeeds = true

/-- The connection went from `w` to `w'` by sending `data` and nothing else. -/
structure Wire.Sends (w : Wire) (data : Bytes) (w' : Wire) : Prop where
  healthy : w'.Healthy
  pending : w'.pending = w.pending
  sent : w'.sent = w.sent ++ data

namespace Wire

theorem Sends.refl {w : Wire} (hw : w.Healthy) : w.Sends [] w := ⟨hw, rfl, by simp⟩

theorem sends_write {w : Wire} (hw : w.Healthy) (data : Bytes) : w.Sends data (w.write data) := by
  obtain ⟨hconn, hsend, haccepted⟩ := Connection.write_succeeds hw.isOpen w.send data hw.send
  refine ⟨⟨?_, hsend⟩, ?_, ?_⟩
  · exact (congrArg Connection.closed hconn).trans hw.isOpen
  · exact congrArg (Connection.pending · w.recv) hconn
  · exact congrArg (w.sent ++ ·) haccepted

theorem sends_flush {w : Wire} (hw : w.Healthy) (res : HttpResponse) :
    w.Sends res.message (w.flush res) := by
  obtain ⟨⟨hopen, hsend⟩, hpending, hsent⟩ := sends_write hw res.message
  exact ⟨⟨hopen, hsend⟩, hpending, hsent⟩

/-- The writes on the connection succeed, as long as it is open. -/
def Reliable (w : Wire) : Prop := ∀ e ∈ w.send, e.succeeds = true

/-- The connection went from `w` to `w'`, and `data` was accepted. -/
structure Writes (w : Wire) (data : Bytes) (w' : Wire) : Prop where
  reliable : w'.Reliable
  closed : w.conn.closed = true → w'.conn.closed = true
  sent : w'.sent = w.sent ++ data

theorem Writes.refl {w : Wire} (hw : w.Reliable) : w.Writes [] w := ⟨hw, id, by simp⟩

theorem Writes.trans {w w' w'' : Wire} {data data' : Bytes} (h : w.Writes data w')
    (h' : w'.Writes data' w'') : w.Writes (data ++ data') w'' :=
  ⟨h'.reliable, fun hc => h'.closed (h.closed hc), by rw [h'.sent, h.sent, List.append_assoc]⟩

/-- A response is written if the connection is open. -/
theorem writes_flush {w : Wire} (hw : w.Reliable) (res : HttpResponse) :
    w.Writes (if w.conn.closed then [] else res.message) (w.flush res) := by
  cases hclosed : w.conn.closed with
  | true =>
      have hsame : w.write res.message = w := by
        simp [Wire.write, Connection.write_of_closed hclosed]
      rw [Wire.flush, hsame, if_pos rfl]
      exact ⟨hw, id, (List.append_nil _).symm⟩
  | false =>
      have hsends := sends_flush ⟨hclosed, hw⟩ res
      exact ⟨hsends.healthy.send, fun hc => absurd (hclosed.symm.trans hc) (by simp), hsends.sent⟩

end Wire

namespace Action

/-- The calls that are made while the connection is open. -/
def onOpen : HttpResponse → Wire → List Action → List Action
  | _, _, [] => []
  | res, w, a :: as =>
      if w.conn.closed then [] else a :: onOpen (a.respondTo res) (a.wireTo res w) as

theorem onOpen_closed (res : HttpResponse) {w : Wire} (hclosed : w.conn.closed = true)
    (as : List Action) : onOpen res w as = [] := by
  cases as with
  | nil => rfl
  | cons a as => rw [onOpen, if_pos hclosed]

theorem flushAll_append (res : HttpResponse) (as bs : List Action) :
    flushAll res (as ++ bs) = flushAll res as ++ flushAll (respondAll res as) bs := by
  induction as generalizing res with
  | nil => rfl
  | cons a as ih =>
      rw [List.cons_append, flushAll, ih, flushAll, List.append_assoc]
      rfl

/-- One call writes what it flushes, if the connection is open. -/
theorem writes_wireTo (res : HttpResponse) {w : Wire} (hw : w.Reliable) (a : Action) :
    w.Writes (if w.conn.closed then [] else (a.toFlush res).toList.flatMap HttpResponse.message)
      (a.wireTo res w) := by
  -- a call that flushes nothing
  have hnone : ∀ {w' : Wire}, w'.send = w.send → w'.sent = w.sent →
      (w.conn.closed = true → w'.conn.closed = true) →
      w.Writes (if w.conn.closed then [] else []) w' := by
    intro w' hsend hsent hclosed
    rw [ite_self]
    exact ⟨fun e he => hw e (hsend ▸ he), hclosed, by rw [hsent, List.append_nil]⟩
  cases a with
  | respond c =>
      simp only [wireTo, Wire.call, toFlush]
      cases res.toFlush c with
      | none => exact hnone rfl rfl id
      | some r => simpa using Wire.writes_flush hw r
  | read n =>
      exact hnone rfl rfl fun hc => by
        show (w.conn.read w.recv n).2.1.closed = true
        rw [(w.conn.read_closed w.recv n).1, hc, Bool.true_or]
  | readUntil d =>
      exact hnone rfl rfl fun hc =>
        (w.conn.call_yields w.recv (.readUntil d)).closed.trans (by rw [hc, Bool.true_or])
  | readExact n =>
      exact hnone rfl rfl fun hc => by
        show (w.conn.readExact w.recv n).2.1.closed = true
        rw [(w.conn.readExact_spec w.recv n).closed, hc, Bool.true_or]
  | close =>
      exact hnone rfl rfl fun hc => by
        show w.conn.close.1.closed = true
        rw [Connection.close_of_closed hc, hc]

/-- **Calls** write what those on the open connection flush. -/
theorem writes_wireAll (res : HttpResponse) {w : Wire} (hw : w.Reliable) (as : List Action) :
    w.Writes ((flushAll res (onOpen res w as)).flatMap HttpResponse.message)
      (wireAll res w as) := by
  -- on the calls, each on the connection the one before left
  induction as generalizing res w with
  | nil => exact .refl hw
  | cons a as ih =>
      have ha := a.writes_wireTo res hw
      have hrest := ha.trans (ih (a.respondTo res) ha.reliable)
      rw [wireAll]
      cases hclosed : w.conn.closed with
      | true =>
          rw [onOpen_closed _ (ha.closed hclosed)] at hrest
          rw [onOpen_closed res hclosed]
          simpa [hclosed, flushAll] using hrest
      | false =>
          rw [onOpen, hclosed, if_neg (by simp), flushAll, List.flatMap_append]
          simpa [hclosed] using hrest

/-- A connection that is open at the end was open all along. -/
theorem onOpen_of_open (res : HttpResponse) {w : Wire} (hw : w.Reliable) (as : List Action)
    (hopen : (wireAll res w as).conn.closed = false) : onOpen res w as = as := by
  induction as generalizing res w with
  | nil => rfl
  | cons a as ih =>
      have ha := a.writes_wireTo res hw
      have hnext := ih (a.respondTo res) ha.reliable hopen
      have hw' : w.conn.closed = false := by
        by_contra hc
        have hall := (writes_wireAll (a.respondTo res) ha.reliable as).closed
          (ha.closed (by simpa using hc))
        exact absurd (hopen.symm.trans hall) (by simp)
      rw [onOpen, hw', if_neg (by simp), hnext]

theorem onOpen_prefix (res : HttpResponse) (w : Wire) (as : List Action) :
    onOpen res w as <+: as := by
  induction as generalizing res w with
  | nil => exact List.prefix_rfl
  | cons a as ih =>
      rw [onOpen]
      split
      · exact List.nil_prefix
      · exact (List.prefix_cons_inj a).mpr (ih _ _)

end Action

/-! ## What an answer writes -/

namespace Answer

/-- The connection after the calls. -/
def called (a : Answer) (w : Wire) : Wire := Action.wireAll .init w a.actions

/-- The error response that is written after them. -/
def errorOn (a : Answer) (w : Wire) : Option HttpResponse :=
  if (a.called w).conn.closed then none else a.ending.error

/-- The responses that are written on `w`: those flushed while it is open. -/
def written (a : Answer) (w : Wire) : List HttpResponse :=
  Action.flushAll .init (Action.onOpen .init w a.actions) ++ (a.errorOn w).toList

/-- One call on the open connection writes a response and the ending adds none, or no
    call does and the ending does. -/
def OnceOn (a : Answer) (w : Wire) : Prop :=
  (Action.onOpen .init w a.actions).countP Action.writes = if (a.errorOn w).isSome then 0 else 1

instance (a : Answer) (w : Wire) : Decidable (a.OnceOn w) :=
  inferInstanceAs (Decidable (_ = _))

theorem onceOn_iff (a : Answer) (w : Wire) : a.OnceOn w ↔ (a.written w).length = 1 := by
  rw [OnceOn, written, List.length_append, Action.length_flushAll]
  cases a.errorOn w with
  | none => simp
  | some err => simp

/-- The ending flushes an error response, or nothing. -/
theorem deliver_cases (a : Answer) (w : Wire) :
    (a.deliver w = a.called w ∧ a.errorOn w = none) ∨
      ∃ err, a.ending.error = some err ∧ a.deliver w = (a.called w).flush err := by
  cases hend : a.ending with
  | returned =>
      refine .inl ⟨by simp only [deliver, hend, called], ?_⟩
      rw [errorOn, hend, Ending.error, ite_self]
  | noRoute code msg => exact .inr ⟨_, rfl, by simp only [deliver, hend]; rfl⟩
  | threw =>
      cases hclosed : (a.called w).conn.closed with
      | true =>
          rw [called] at hclosed
          refine .inl ⟨by simp only [deliver, hend, called, hclosed, if_true], ?_⟩
          rw [errorOn, called, hclosed, if_pos rfl]
      | false =>
          rw [called] at hclosed
          refine .inr ⟨_, rfl, ?_⟩
          simp only [deliver, hend, hclosed, Bool.false_eq_true, if_false]
          rfl

/-- **An answer** writes its responses as long as the connection is open. -/
theorem writes_deliver (a : Answer) {w : Wire} (hw : w.Reliable) :
    w.Writes ((a.written w).flatMap HttpResponse.message) (a.deliver w) := by
  have hcalls : w.Writes _ (a.called w) := Action.writes_wireAll .init hw a.actions
  rw [written, List.flatMap_append]
  rcases a.deliver_cases w with ⟨hdeliver, hnone⟩ | ⟨err, herr, hdeliver⟩
  · rw [hdeliver, hnone, Option.toList_none, List.flatMap_nil, List.append_nil]
    exact hcalls
  · rw [hdeliver]
    have herror := hcalls.trans (Wire.writes_flush hcalls.reliable err)
    rw [errorOn, herr]
    cases hclosed : (a.called w).conn.closed with
    | true => simpa [hclosed] using herror
    | false => simpa [hclosed] using herror

/-- The responses written are the first ones that are flushed. -/
theorem responses_written (a : Answer) {w : Wire} (hw : w.Reliable) :
    ∃ unwritten, (a.deliver w).responses
      = w.responses ++ (a.written w ++ unwritten).map fun r => (r.flushed, r.message) := by
  obtain ⟨bs, hbs⟩ := Action.onOpen_prefix .init w a.actions
  have hcalls : ∃ late, (a.called w).responses = w.responses ++ (Action.flushAll .init
      (Action.onOpen .init w a.actions) ++ late).map (fun r => (r.flushed, r.message)) ∧
      ((a.called w).conn.closed = false → late = []) := by
    refine ⟨Action.flushAll (Action.respondAll .init (Action.onOpen .init w a.actions)) bs, ?_, ?_⟩
    · rw [called, Wire.responses_wireAll, ← Action.flushAll_append, hbs]
    · intro hopen
      rw [Action.onOpen_of_open .init hw a.actions hopen] at hbs
      rw [List.append_right_eq_self.mp hbs]
      rfl
  obtain ⟨late, hresponses, hlate⟩ := hcalls
  rcases a.deliver_cases w with ⟨hdeliver, hnone⟩ | ⟨err, herr, hdeliver⟩
  · refine ⟨late, ?_⟩
    rw [hdeliver, hresponses, written, hnone, Option.toList_none, List.append_nil]
  · rw [hdeliver, Wire.responses_flush, hresponses, written, errorOn, herr]
    cases hclosed : (a.called w).conn.closed with
    | true => exact ⟨late ++ [err], by simp⟩
    | false => exact ⟨[], by simp [hlate hclosed]⟩

end Answer

/-- The calls up to the closing of the connection, of which one writes a response and the
    ending adds none, or none does and the ending does. -/
def Answer.Once (a : Answer) : Prop :=
  (a.actions.takeWhile (· ≠ .close)).countP Action.writes =
    if a.ending.error.isSome ∧ .close ∉ a.actions then 0 else 1

instance (a : Answer) : Decidable a.Once := inferInstanceAs (Decidable (_ = _))

/-- Calls that read nothing leave a connection as it is, or closed. -/
theorem Action.wireAll_quiet (res : HttpResponse) {w : Wire} (hw : w.Healthy)
    (hfd : 0 ≤ w.conn.fd) {as : List Action} (has : ∀ a ∈ as, a.reads = false) :
    (onOpen res w as).countP writes = (as.takeWhile (· ≠ .close)).countP writes ∧
      (wireAll res w as).conn.closed = decide (.close ∈ as) ∧
      (.close ∉ as → (wireAll res w as).conn = w.conn ∧ (wireAll res w as).recv = w.recv) := by
  -- on the calls; what comes after the first `close` is made in vain
  induction as generalizing res w with
  | nil => exact ⟨rfl, hw.isOpen, fun _ => ⟨rfl, rfl⟩⟩
  | cons a as ih =>
      have hrest : ∀ b ∈ as, b.reads = false := fun b hb => has b (List.mem_cons_of_mem a hb)
      -- a call that leaves the connection open
      have hgoes : ∀ w' : Wire, a ≠ .close → w'.Healthy → w'.conn = w.conn → w'.recv = w.recv →
          a.wireTo res w = w' →
          (onOpen res w (a :: as)).countP writes
              = ((a :: as).takeWhile (· ≠ .close)).countP writes ∧
            (wireAll res w (a :: as)).conn.closed = decide (.close ∈ a :: as) ∧
            (.close ∉ a :: as → (wireAll res w (a :: as)).conn = w.conn ∧
              (wireAll res w (a :: as)).recv = w.recv) := by
        intro w' hne hw' hconn hrecv hstep
        obtain ⟨hcount, hclosed, hsame⟩ := ih (a.respondTo res) hw' (hconn ▸ hfd) hrest
        rw [onOpen, hw.isOpen, if_neg (by simp), wireAll, hstep,
          List.takeWhile_cons_of_pos (by simpa using hne), List.countP_cons, List.countP_cons,
          hcount, hclosed]
        refine ⟨rfl, ?_, fun hnot => ?_⟩
        · simp [hne.symm]
        · obtain ⟨hconn', hrecv'⟩ := hsame fun h => hnot (List.mem_cons_of_mem a h)
          exact ⟨hconn'.trans hconn, hrecv'.trans hrecv⟩
      cases a with
      | respond c =>
          cases hflush : res.toFlush c with
          | none => exact hgoes w (by simp) hw rfl rfl (by simp [wireTo, Wire.call, hflush])
          | some r =>
              refine hgoes (w.flush r) (by simp) (Wire.sends_flush hw r).healthy ?_ rfl
                (by simp [wireTo, Wire.call, hflush])
              exact (Connection.write_succeeds hw.isOpen w.send r.message hw.send).1
      | read n => exact absurd (has _ List.mem_cons_self) (by simp [reads])
      | readUntil d => exact absurd (has _ List.mem_cons_self) (by simp [reads])
      | readExact n => exact absurd (has _ List.mem_cons_self) (by simp [reads])
      | close =>
          have hclosed : (wireTo res w .close).conn.closed = true := by
            show w.conn.close.1.closed = true
            rw [Connection.close_of_open hw.isOpen hfd]
          have hreliable : (wireTo res w .close).Reliable := hw.send
          refine ⟨?_, ?_, fun hnot => absurd List.mem_cons_self hnot⟩
          · rw [onOpen, hw.isOpen, if_neg (by simp), onOpen_closed _ hclosed]
            simp [writes]
          · rw [wireAll, (writes_wireAll _ hreliable as).closed hclosed]
            simp

/-- On a connection from which it takes nothing, what an answer writes is a matter of its
    calls. -/
theorem Answer.once_iff {a : Answer} {w : Wire} (hw : w.Healthy) (hfd : 0 ≤ w.conn.fd)
    (ha : ∀ act ∈ a.actions, act.reads = false) :
    (a.OnceOn w ↔ a.Once) ∧ (a.deliver w).conn.closed = decide (.close ∈ a.actions) ∧
      (.close ∉ a.actions → (a.deliver w).conn = w.conn ∧ (a.deliver w).recv = w.recv) := by
  obtain ⟨hcount, hclosed, hsame⟩ := Action.wireAll_quiet .init hw hfd ha
  have hcalled : (a.called w).conn.closed = decide (.close ∈ a.actions) := hclosed
  have hreliable : (a.called w).Reliable := (Action.writes_wireAll .init hw.send a.actions).reliable
  refine ⟨?_, ?_⟩
  · rw [OnceOn, Once, hcount, errorOn, hcalled]
    by_cases hclose : .close ∈ a.actions
    · simp [hclose]
    · simp [hclose]
  rcases a.deliver_cases w with ⟨hdeliver, -⟩ | ⟨err, -, hdeliver⟩
  · rw [hdeliver]
    exact ⟨hcalled, hsame⟩
  · rw [hdeliver]
    cases hc : (a.called w).conn.closed with
    | true =>
        refine ⟨?_, fun hnot => ?_⟩
        · rw [(Wire.writes_flush hreliable err).closed hc, ← hcalled, hc]
        · rw [hcalled, decide_eq_true_iff] at hc
          exact absurd hc hnot
    | false =>
        have hconn : ((a.called w).flush err).conn = (a.called w).conn :=
          (Connection.write_succeeds hc (a.called w).send err.message hreliable).1
        rw [hconn]
        exact ⟨hcalled, hsame⟩

/-! ## Runs -/

/-- A request gets one response, the first that is flushed in its turn, and nothing else
    is sent: one that is flushed on a closed connection is not written. -/
def HttpServer.Exchange.AnsweredOnce (x : HttpServer.Exchange) : Prop :=
  match x.request with
  | some _ => ∃ r rest, x.responses = r :: rest ∧ x.accepted = r.2
  | none => x.accepted = []

/-- One response for each request that is dispatched, and nothing else. -/
def OneResponseEach (run : List HttpServer.Exchange) : Prop := ∀ x ∈ run, x.AnsweredOnce

/-- The requests that are dispatched in a run. -/
def dispatched (run : List HttpServer.Exchange) : List HttpRequest :=
  run.filterMap HttpServer.Exchange.request

namespace ScriptServer

variable {s : ScriptServer} {k : Nat} {w : Wire}

/-- What `parse` finds on `w` is a request, which is answered once, or the end of the
    stream. -/
def AnswersOnce (s : ScriptServer) (k : Nat) (w : Wire) : Prop :=
  match ({ w with events := [] } : Wire).parse with
  | (some req, w₁) => (s.answer k req).OnceOn w₁
  | (none, w₁) => w₁.conn.closed = true

/-- The first response is all that is written if and only if one is. -/
theorem first_response_iff {written unwritten : List HttpResponse} :
    (∃ r rest, (written ++ unwritten).map (fun r => (r.flushed, r.message)) = r :: rest ∧
      written.flatMap HttpResponse.message = r.2) ↔ written.length = 1 := by
  cases written with
  | nil =>
      refine iff_of_false ?_ (by simp)
      rintro ⟨r, rest, hmap, hmessage⟩
      obtain ⟨r', -, rfl⟩ := List.mem_map.mp (hmap ▸ List.mem_cons_self : r ∈ _)
      exact r'.message_ne_nil hmessage.symm
  | cons r₁ written =>
      cases written with
      | nil => exact iff_of_true ⟨_, _, rfl, List.flatMap_singleton ..⟩ rfl
      | cons r₂ written =>
          refine iff_of_false ?_ (by simp)
          rintro ⟨r, rest, hmap, hmessage⟩
          obtain ⟨rfl, -⟩ := List.cons.inj hmap
          rw [List.flatMap_cons, List.flatMap_cons, List.append_right_eq_self] at hmessage
          exact r₂.message_ne_nil (List.append_eq_nil_iff.mp hmessage).1

/-- **One turn.** -/
theorem turn_once (s : ScriptServer) (k : Nat) (hw : w.Reliable) :
    w.Writes (s.server.turn k w).exchange.accepted (s.server.turn k w).wire ∧
      ((s.server.turn k w).exchange.AnsweredOnce ↔ s.AnswersOnce k w) := by
  obtain ⟨out, w₁, hparse⟩ : ∃ out w₁, ({ w with events := [] } : Wire).parse = (out, w₁) :=
    ⟨_, _, rfl⟩
  have hw₁ : w₁ = ({ w with events := [] } : Wire).parse.2 := (congrArg Prod.snd hparse).symm
  have hparsed : w.Writes [] w₁ := by
    refine ⟨hw₁ ▸ hw, fun hc => ?_, by rw [hw₁, List.append_nil]; rfl⟩
    rw [hw₁]
    exact (HttpParser.parse_yields w.conn w.recv .init).2.2.1.trans (by rw [hc, Bool.true_or])
  have haccepted : ∀ data, w.Writes data (s.server.turn k w).wire →
      (s.server.turn k w).exchange.accepted = data := by
    intro data h
    show (s.server.turn k w).wire.sent.drop w.sent.length = data
    rw [h.sent, List.drop_left]
  have hrequest : (s.server.turn k w).exchange.request = out := congrArg Prod.fst hparse
  rw [AnswersOnce, hparse, HttpServer.Exchange.AnsweredOnce, hrequest]
  cases out with
  | none =>
      obtain ⟨hwire, -⟩ := HttpServer.turn_none s.server k hparse
      rw [HttpServer.refuse, HttpServer.sendError] at hwire
      cases hclosed : w₁.conn.closed with
      | true =>
          rw [if_pos hclosed] at hwire
          rw [haccepted [] (hwire ▸ hparsed), hwire]
          exact ⟨hparsed, by simp [hclosed]⟩
      | false =>
          rw [if_neg (by simp [hclosed])] at hwire
          have hflush := hparsed.trans (Wire.writes_flush hparsed.reliable
            (HttpServer.errorResponse 400 (bytes "Bad Request")))
          rw [List.nil_append, if_neg (by simp [hclosed])] at hflush
          rw [haccepted _ (hwire ▸ hflush), hwire]
          exact ⟨hflush, iff_of_false (HttpResponse.message_ne_nil _) (by simp [hclosed])⟩
  | some req =>
      obtain ⟨-, hwire⟩ := s.turn_answer k hparse
      have hdeliver := (s.answer k req).writes_deliver hparsed.reliable
      obtain ⟨unwritten, hresponses⟩ := (s.answer k req).responses_written hparsed.reliable
      rw [← hwire] at hdeliver hresponses
      have hall : w.Writes _ (s.server.turn k w).wire :=
        hparsed.trans ⟨hdeliver.reliable, hdeliver.closed, hdeliver.sent⟩
      rw [List.nil_append] at hall
      have hnone : w₁.responses = [] := by rw [hw₁]; rfl
      have hflushed : (s.server.turn k w).exchange.responses
          = ((s.answer k req).written w₁ ++ unwritten).map fun r => (r.flushed, r.message) := by
        rw [Wire.responses_forget, hnone] at hresponses
        exact hresponses
      rw [haccepted _ hall]
      refine ⟨hall, ?_⟩
      simp only [hflushed]
      rw [first_response_iff, Answer.onceOn_iff]

/-- A run sends what its turns do. -/
theorem sent_run (s : ScriptServer) (k : Nat) (hw : w.Reliable) :
    (s.server.handleConnection k w).2.sent
      = w.sent ++ (s.server.handleConnection k w).1.flatMap HttpServer.Exchange.accepted := by
  induction k, w using HttpServer.handleConnection.induct s.server with
  | case1 k w hclosed => simp [HttpServer.handleConnection_closed hclosed]
  | case2 k w hclosed t hon exchanges wEnd hrest ih =>
      have hturn := (turn_once s k hw).1
      rw [HttpServer.handleConnection_goesOn (by simpa using hclosed) hon, ih hturn.reliable,
        hturn.sent, List.flatMap_cons, List.append_assoc]
  | case3 k w hclosed t hstop =>
      rw [HttpServer.handleConnection_stop (by simpa using hclosed) (by simpa using hstop),
        (turn_once s k hw).1.sent, List.flatMap_singleton]

theorem reliable_of_reaches (hw : w.Reliable) {k' : Nat} {w' : Wire}
    (h : s.server.Reaches k w k' w') : w'.Reliable := by
  induction h with
  | here => exact hw
  | later _ _ _ ih => exact ih (turn_once s _ hw).1.reliable

/-- **Runs.** One response for each request if and only if each turn answers once. -/
theorem oneResponseEach_iff (s : ScriptServer) (k : Nat) (hw : w.Reliable) :
    OneResponseEach (s.server.handleConnection k w).1 ↔
      ∀ k' w', s.server.Reaches k w k' w' → s.AnswersOnce k' w' := by
  constructor
  · intro hall k' w' h
    exact (turn_once s k' (reliable_of_reaches hw h)).2.mp
      (hall _ (HttpServer.mem_handleConnection_iff.mpr ⟨k', w', h, rfl⟩))
  · intro hall x hx
    obtain ⟨k', w', h, rfl⟩ := HttpServer.mem_handleConnection_iff.mp hx
    exact (turn_once s k' (reliable_of_reaches hw h)).2.mpr (hall k' w' h)

/-! ## Pipelined requests -/

/-- Neither the middlewares nor the handlers take bytes from the connection. -/
structure TakesNothing (s : ScriptServer) : Prop where
  middlewares : ∀ mw ∈ s.middlewares, ∀ turn req, ∀ a ∈ (mw turn req).actions, a.reads = false
  handlers : ∀ r ∈ s.routes, ∀ turn req, ∀ a ∈ (r.script turn req).actions, a.reads = false

/-- The pipelined requests that are dispatched, with their turns: all up to the first one
    that is not left keep-alive, or upon which the connection is closed. -/
def accepted (s : ScriptServer) (k : Nat) : List WireRequest → List (Nat × WireRequest)
  | [] => []
  | q :: qs =>
      (k, q) :: if (s.answer k q.parsed).req.keepAlive ∧ .close ∉ (s.answer k q.parsed).actions
        then s.accepted (k + 1) qs else []

theorem answer_takesNothing (hs : s.TakesNothing) (turn : Nat) (req : HttpRequest) :
    ∀ a ∈ (s.answer turn req).actions, a.reads = false :=
  s.answer_all turn req (fun mw hmw => hs.middlewares mw hmw turn)
    fun r hr => hs.handlers r hr turn

/-- The turn of a well-formed request. -/
theorem turn_serialise (hs : s.TakesNothing) (k : Nat) (hw : w.Healthy) (hfd : 0 ≤ w.conn.fd)
    {q : WireRequest} {rest : Bytes} (hpending : w.pending = q.serialise ++ rest) :
    (s.server.turn k w).exchange.request = some q.parsed ∧
      (s.AnswersOnce k w ↔ (s.answer k q.parsed).Once) ∧
      (s.server.turn k w).goesOn = (s.answer k q.parsed).req.keepAlive ∧
      (s.server.turn k w).wire.Reliable ∧
      (s.server.turn k w).wire.conn.closed = decide (.close ∈ (s.answer k q.parsed).actions) ∧
      (.close ∉ (s.answer k q.parsed).actions → (s.server.turn k w).wire.pending = rest ∧
        0 ≤ (s.server.turn k w).wire.conn.fd) := by
  obtain ⟨hreq, hleft, hclosed, hfd₁⟩ := HttpParser.parse_yields w.conn w.recv .init
  rw [show w.conn.pending w.recv = _ from hpending, q.parseStream_serialise] at hreq hleft hclosed
  rw [hw.isOpen] at hclosed
  obtain ⟨w₁, hparse, hw₁, hrest, hfd'⟩ : ∃ w₁,
      ({ w with events := [] } : Wire).parse = (some q.parsed, w₁) ∧ w₁.Healthy ∧
        w₁.pending = rest ∧ 0 ≤ w₁.conn.fd :=
    ⟨_, Prod.ext hreq rfl, ⟨hclosed, hw.send⟩, hleft, hfd₁ ▸ hfd⟩
  obtain ⟨hon, hwire⟩ := s.turn_answer k hparse
  obtain ⟨honce, hdelivered, hsame⟩ :=
    Answer.once_iff hw₁ hfd' (answer_takesNothing hs k q.parsed)
  have hconn : (s.server.turn k w).wire.conn = ((s.answer k q.parsed).deliver w₁).conn := by
    rw [← hwire]
    rfl
  have hrecv : (s.server.turn k w).wire.recv = ((s.answer k q.parsed).deliver w₁).recv := by
    rw [← hwire]
    rfl
  refine ⟨hreq, ?_, hon, (turn_once s k hw.send).1.reliable, ?_, fun hnot => ?_⟩
  · rw [AnswersOnce, hparse]
    exact honce
  · rw [hconn]
    exact hdelivered
  · obtain ⟨hconn₁, hrecv₁⟩ := hsame hnot
    rw [Wire.pending, hconn, hrecv, hconn₁, hrecv₁]
    exact ⟨hrest, hfd'⟩

/-- **The run over pipelined requests.** The accepted ones are dispatched, and what is to
    be answered once in its turn are these. -/
theorem run_serialise (hs : s.TakesNothing) (qs : List WireRequest) (k : Nat) (hw : w.Healthy)
    (hfd : 0 ≤ w.conn.fd) (hpending : w.pending = qs.flatMap WireRequest.serialise) :
    dispatched (s.server.handleConnection k w).1
        = (s.accepted k qs).map (fun p => p.2.parsed) ∧
      ((∀ k' w', s.server.Reaches k w k' w' → s.AnswersOnce k' w') ↔
        ∀ p ∈ s.accepted k qs, (s.answer p.1 p.2.parsed).Once) := by
  -- on the requests; one of them is one turn of the loop
  induction qs generalizing k w with
  -- the stream is over: the last turn parses nothing
  | nil =>
      obtain ⟨hreq, hstop, -, -, -⟩ := HttpServer.turn_nothing s.server k hpending
      obtain ⟨hnone, -, hclosed, -⟩ := HttpParser.parse_yields w.conn w.recv .init
      rw [show w.conn.pending w.recv = [] from hpending,
        show HttpParser.parseStream [] .init = (none, [], true) from rfl] at hnone hclosed
      rw [Bool.or_true] at hclosed
      have hanswers : s.AnswersOnce k w := by
        obtain ⟨w₁, hparse, hclosed₁⟩ : ∃ w₁, ({ w with events := [] } : Wire).parse = (none, w₁) ∧
            w₁.conn.closed = true := ⟨_, Prod.ext hnone rfl, hclosed⟩
        rw [AnswersOnce, hparse]
        exact hclosed₁
      rw [HttpServer.handleConnection_stop hw.isOpen hstop,
        HttpServer.forall_reaches_iff hw.isOpen]
      simp [dispatched, accepted, hreq, hanswers, hstop]
  | cons q qs ih =>
      obtain ⟨hreq, honce, hon, hreliable, hclosed, hnext⟩ :=
        turn_serialise hs k hw hfd (hpending.trans List.flatMap_cons)
      rw [HttpServer.forall_reaches_iff hw.isOpen, honce]
      cases hkeep : (s.answer k q.parsed).req.keepAlive with
      | false =>
          rw [HttpServer.handleConnection_stop hw.isOpen (hon.trans hkeep), hon, hkeep]
          simp [dispatched, accepted, hreq, hkeep]
      | true =>
          rw [HttpServer.handleConnection_goesOn hw.isOpen (hon.trans hkeep), hon, hkeep]
          by_cases hclose : .close ∈ (s.answer k q.parsed).actions
          -- the loop goes on with a closed connection, and ends there
          · have hgone : (s.server.turn k w).wire.conn.closed = true := by simp [hclosed, hclose]
            have hnone : ∀ k' w', ¬ s.server.Reaches (k + 1) (s.server.turn k w).wire k' w' :=
              fun k' w' h => absurd (hgone.symm.trans (HttpServer.open_of_reaches h)) (by simp)
            simp [dispatched, accepted, hreq, hkeep, hclose, hnone,
              HttpServer.handleConnection_closed hgone]
          · have hopen : (s.server.turn k w).wire.conn.closed = false := by simp [hclosed, hclose]
            obtain ⟨hrest, hfd'⟩ := hnext hclose
            obtain ⟨hdispatched, hall⟩ := ih (k + 1) ⟨hopen, hreliable⟩ hfd' hrest
            simp only [accepted, hkeep, hclose, not_false_eq_true, and_self, if_true,
              List.map_cons, List.forall_mem_cons, true_imp_iff]
            refine ⟨?_, and_congr_right fun _ => hall⟩
            rw [← hdispatched]
            simp [dispatched, hreq]

/-- A handler that answers, does `more` and throws, or does not throw. -/
def answerAnd (more : List Action) (threw : Bool) : ScriptServer where
  routes :=
    [⟨bytes "GET", bytes "/late",
      fun _ req => ⟨.respond (.text (bytes "done")) :: more, req, threw⟩⟩]
  middlewares := []

/-- `GET /late`. -/
def getLate : WireRequest where
  method := bytes "GET"
  target := bytes "/late"
  version := bytes "HTTP/1.1"
  headers := []
  body := []
  method_token := by decide +kernel
  method_upper := by decide +kernel
  target_token := by decide +kernel
  version_token := isToken_http11
  target_safe := by decide +kernel
  names := by decide +kernel
  values := by decide +kernel
  distinct := by decide +kernel
  body_le := by decide +kernel
  length_of_body := by decide +kernel
  length_value := by decide +kernel

theorem answer_getLate (more : List Action) (threw : Bool) :
    ∃ req, (answerAnd more threw).answer 0 getLate.parsed
      = ⟨.respond (.text (bytes "done")) :: more, req, if threw then .threw else .returned⟩ := by
  have hpath : getLate.parsed.path = bytes "/late" := by decide +kernel
  have hmethod : getLate.parsed.method = bytes "GET" := rfl
  have hmatch : (ScriptRoute.route ⟨bytes "GET", bytes "/late",
      fun _ req => ⟨.respond (.text (bytes "done")) :: more, req, threw⟩⟩).match (bytes "/late")
        = some ∅ := by
    rfl
  refine ⟨{ getLate.parsed with params := ∅ }, ?_⟩
  simp [answer, middlewareAnswer, routeAnswer, answerAnd, hpath, hmethod, hmatch]

theorem takesNothing_answerAnd {more : List Action} (hmore : ∀ a ∈ more, a.reads = false)
    (threw : Bool) : (answerAnd more threw).TakesNothing := by
  refine ⟨by simp [answerAnd], fun r hr turn req a ha => ?_⟩
  obtain rfl := List.mem_singleton.mp hr
  rcases List.mem_cons.mp ha with rfl | ha
  · rfl
  · exact hmore a ha

/-- The middlewares pass; a handler writes one response, or throws having written
    at most one. -/
structure RespondsOnce (s : ScriptServer) : Prop where
  middleware_pass : ∀ mw ∈ s.middlewares, ∀ turn req, (mw turn req).pass = true
  handler_returns : ∀ r ∈ s.routes, ∀ turn req, (r.script turn req).threw = false →
    (r.script turn req).actions.countP Action.writes = 1
  handler_throws : ∀ r ∈ s.routes, ∀ turn req, (r.script turn req).threw = true →
    (r.script turn req).actions.countP Action.writes ≤ 1

end ScriptServer

end CoroutineHttp.Http
