/-
  CoroutineHttp.Ws.Steps

  The steps of a coroutine of `CoroutineHttp.Ws.ChatRoom`, one by one: the program
  point each is taken at, its conditions, and what it leaves.  What every step keeps
  is proved by cases on these; only this module opens the step functions of a session.
-/

import CoroutineHttp.Ws.ChatRoom

namespace CoroutineHttp.Ws

open CoroutineHttp.Library CoroutineHttp.Core CoroutineHttp.Net

namespace Chat

/-! ## The steps -/

/-- A step of the session of `self`, whose locals are `s`. -/
inductive SessionStep (c : Chat) (self : CoroPtr) (s : Session) :
    ChatAct → Chat → Option (Act Task Unit) → Prop where
  -- critical sections
  | join (hpc : s.pc = .join) (hfree : c.room.owner = none) :
      SessionStep c self s .locked
        ((c.setRoom (c.room.join self s.nick)).goto self (.log .joined)) none
  | log (phase : Phase) (hpc : s.pc = .log phase) (hfree : c.room.owner = none) :
      SessionStep c self s .locked (c.goto self (.online phase)) none
  | online (phase : Phase) (hpc : s.pc = .online phase) (hfree : c.room.owner = none) :
      SessionStep c self s .locked (c.goto self (.users phase c.room.size)) none
  | users (phase : Phase) (online : Nat) (hpc : s.pc = .users phase online)
      (hfree : c.room.owner = none) :
      SessionStep c self s .locked
        (c.goto self (.broadcast phase
          (if phase = .left then leaveMessage s.nick online c.room.nicksJson
            else joinMessage s.nick online c.room.nicksJson))) none
  | lock (phase : Phase) (msg : Bytes) (hpc : s.pc = .broadcast phase msg)
      (hfree : c.room.owner = none) :
      SessionStep c self s .locked
        ((c.setRoom { c.room with owner := some self }).goto self
          (.each phase msg c.room.members)) none
  | leave (hpc : s.pc = .leave) (hfree : c.room.owner = none) :
      SessionStep c self s .locked
        ((c.setRoom (c.room.leave self)).goto self (.log .left)) none
  -- between the calls
  | unlock (phase : Phase) (msg : Bytes) (hpc : s.pc = .each phase msg []) :
      SessionStep c self s .next
        ((c.setRoom { c.room with owner := none }).goto self phase.next) none
  | skip (phase : Phase) (msg : Bytes) (p : CoroPtr) (todo : List CoroPtr) (t : Session)
      (hpc : s.pc = .each phase msg (p :: todo)) (ht : c.sessions p = some t)
      (hclosed : t.conn.closed = true) :
      SessionStep c self s .next (c.goto self (.each phase msg todo)) none
  | write (phase : Phase) (msg : Bytes) (p : CoroPtr) (todo : List CoroPtr) (t : Session)
      (hpc : s.pc = .each phase msg (p :: todo)) (ht : c.sessions p = some t)
      (hopen : t.conn.closed = false) :
      SessionStep c self s .next
        (c.goto self (.write p (WebSocket.encodeFrame WsOpcode.TEXT msg) (.each phase msg todo)))
        none
  | loop (hpc : s.pc = .loop) :
      SessionStep c self s .next
        (c.goto self (if s.conn.closed then .leave else .recv WebSocket.recvProgram)) none
  | frame (frame : Option WsFrame) (hpc : s.pc = .recv (.done frame)) :
      SessionStep c self s .next (c.goto self (afterFrame self s.nick frame)) none
  | buffered (n : Nat) (next : Bytes → Reading (Option WsFrame))
      (hpc : s.pc = .recv (.exact n next)) (hle : n ≤ s.conn.readBuf.length) :
      SessionStep c self s .next
        (c.modify self fun s' =>
          { s' with
            conn := { s'.conn with readBuf := s.conn.readBuf.drop n }
            pc := .recv (next (s.conn.readBuf.take n)) }) none
  | short (n : Nat) (next : Bytes → Reading (Option WsFrame))
      (hpc : s.pc = .recv (.exact n next)) (hlt : s.conn.readBuf.length < n)
      (hclosed : s.conn.closed = true) :
      SessionStep c self s .next (c.recvShort self s next) none
  | written (client : CoroPtr) (rest : Bytes) (back : Back) (t : Session)
      (hpc : s.pc = .write client rest back) (ht : c.sessions client = some t)
      (hdone : t.conn.closed = true ∨ rest = []) :
      SessionStep c self s .next (c.goto self back.pc) none
  -- the answers of `recv`
  | data (n : Nat) (next : Bytes → Reading (Option WsFrame)) (first : UInt8) (rest : Bytes)
      (hpc : s.pc = .recv (.exact n next)) (hlt : s.conn.readBuf.length < n)
      (hopen : s.conn.closed = false) (hlen : rest.length < 4096) :
      SessionStep c self s (.recv (.data first rest))
        (c.modify self fun s' =>
          { s' with conn := { s'.conn with readBuf := s.conn.readBuf ++ first :: rest } }) none
  | recvWait (n : Nat) (next : Bytes → Reading (Option WsFrame))
      (hpc : s.pc = .recv (.exact n next)) (hlt : s.conn.readBuf.length < n)
      (hopen : s.conn.closed = false) :
      SessionStep c self s (.recv .eagain) c (some (.waitEvent s.conn.fd EPOLLIN))
  | recvEnd (n : Nat) (next : Bytes → Reading (Option WsFrame))
      (hpc : s.pc = .recv (.exact n next)) (hlt : s.conn.readBuf.length < n)
      (hopen : s.conn.closed = false) :
      SessionStep c self s (.recv .ended) ((c.ended self).recvShort self s next) none
  -- the answers of `send`
  | accepted (client : CoroPtr) (rest : Bytes) (back : Back) (t : Session) (extra : Nat)
      (hpc : s.pc = .write client rest back) (ht : c.sessions client = some t)
      (hopen : t.conn.closed = false) (hrest : rest ≠ []) :
      SessionStep c self s (.send (.accept extra))
        ((c.took client (rest.take (min (extra + 1) rest.length))).goto self
          (.write client (rest.drop (min (extra + 1) rest.length)) back)) none
  | sendWait (client : CoroPtr) (rest : Bytes) (back : Back) (t : Session)
      (hpc : s.pc = .write client rest back) (ht : c.sessions client = some t)
      (hopen : t.conn.closed = false) (hrest : rest ≠ []) :
      SessionStep c self s (.send .eagain) c (some (.waitEvent t.conn.fd EPOLLOUT))
  | sendFail (client : CoroPtr) (rest : Bytes) (back : Back) (t : Session)
      (hpc : s.pc = .write client rest back) (ht : c.sessions client = some t)
      (hopen : t.conn.closed = false) (hrest : rest ≠ []) :
      SessionStep c self s (.send .fail) ((c.ended client).goto self back.pc) none
  -- HTTP
  | http (buf : Bytes) (ended : Bool) (hpc : s.pc = .http) :
      SessionStep c self s (.http buf ended)
        (c.modify self fun s =>
          { s with conn := { s.conn with readBuf := buf, closed := s.conn.closed || ended } }) none
  | httpWait (reading : Bool) (hpc : s.pc = .http) (hopen : s.conn.closed = false) :
      SessionStep c self s (.httpWait reading) c
        (some (.waitEvent s.conn.fd (if reading then EPOLLIN else EPOLLOUT)))
  | upgrade (nick : Bytes) (hpc : s.pc = .http) :
      SessionStep c self s (.upgrade nick)
        (c.modify self fun s => { s with nick := nick, pc := .join, accepted := [] }) none
  | destroy (fd : Fd) (hpc : s.pc = .http) (hfd : s.conn.close.2 = some fd) :
      SessionStep c self s .destroy
        { c.modify self fun s => { s with conn := s.conn.close.1, pc := .gone } with
          isOpen := Function.update c.isOpen fd false } (some (.closeFd fd))
  | destroyClosed (hpc : s.pc = .http) (hfd : s.conn.close.2 = none) :
      SessionStep c self s .destroy
        (c.modify self fun s => { s with conn := s.conn.close.1, pc := .gone }) none
  | finish (hpc : s.pc = .gone) : SessionStep c self s .finish c (some .finish)

/-- A step of the coroutine `self`. -/
inductive CoroutineStep (c : Chat) (self : CoroPtr) :
    ChatAct → Chat → Option (Act Task Unit) → Prop where
  | start (fd : Fd) (hnone : c.sessions self = none)
      (htask : (c.machine.sched.coros self).func = .connection fd) :
      CoroutineStep c self .start (c.started self fd) none
  | acceptWait (fd : Fd) (hnone : c.sessions self = none)
      (htask : (c.machine.sched.coros self).func = .acceptLoop fd) :
      CoroutineStep c self .acceptWait c (some (.waitEvent fd EPOLLIN))
  | accept (listenFd fd : Fd) (hnone : c.sessions self = none)
      (htask : (c.machine.sched.coros self).func = .acceptLoop listenFd)
      (hctx : (c.machine.sched.coros self).ctx ≠ .entry) (hfd : 0 ≤ fd)
      (hfresh : c.isOpen fd = false) :
      CoroutineStep c self (.accept fd) (c.opened fd) (some (.create (.connection fd)))
  | session {a : ChatAct} {c' : Chat} {b : Option (Act Task Unit)} (s : Session)
      (hs : c.sessions self = some s) (h : SessionStep c self s a c' b) :
      CoroutineStep c self a c' b

/-- A step without the part the scheduler has in it. -/
inductive ActStep (c : Chat) : ChatAct → Chat → Option (Act Task Unit) → Prop where
  | sys (a : Act Task Unit) (hrun : ofRun a = true) : ActStep c (.sys a) c (some a)
  | listen (fd : Fd) (hpc : c.machine.pc = .start) (hfd : 0 ≤ fd) (hfresh : c.isOpen fd = false) :
      ActStep c (.listen fd) (c.opened fd) (some (.create (.acceptLoop fd)))
  | post (t : Nat) (fd : Fd) (hfd : 0 ≤ fd) (hfresh : c.isOpen fd = false) :
      ActStep c (.post t fd) (c.opened fd) (some (.postAppend t (.connection fd)))
  | coroutine {a : ChatAct} {c' : Chat} {b : Option (Act Task Unit)} (self : CoroPtr)
      (hpc : c.machine.pc = .coroutine) (hself : c.machine.sched.runningCoro = some self)
      (h : c.coroutineAct self a = some (c', b)) : ActStep c a c' b

/-! ## Inversion -/

section Inversion

variable {c c' : Chat} {self : CoroPtr} {s : Session} {b : Option (Act Task Unit)}

theorem sessionStep_of_lockedAct (hfree : c.room.owner = none)
    (h : c.lockedAct self s = some c') : SessionStep c self s .locked c' none := by
  unfold lockedAct at h
  split at h <;> try cases h
  next hpc => exact .join hpc hfree
  next phase hpc => exact .log phase hpc hfree
  next phase hpc => exact .online phase hpc hfree
  next phase online hpc => exact .users phase online hpc hfree
  next phase msg hpc => exact .lock phase msg hpc hfree
  next hpc => exact .leave hpc hfree

theorem sessionStep_of_nextAct (h : c.nextAct self s = some c') :
    SessionStep c self s .next c' none := by
  unfold nextAct at h
  split at h
  next phase msg hpc =>
    cases h
    exact .unlock phase msg hpc
  next phase msg p todo hpc =>
    obtain ⟨t, ht, rfl⟩ := Option.map_eq_some_iff.mp h
    cases hclosed : t.conn.closed with
    | true => exact .skip phase msg p todo t hpc ht hclosed
    | false => exact .write phase msg p todo t hpc ht hclosed
  next hpc =>
    cases h
    exact .loop hpc
  next frame hpc =>
    cases h
    exact .frame frame hpc
  next n next hpc =>
    split at h
    next hle =>
      cases h
      exact .buffered n next hpc hle
    next hlt =>
      split at h
      next hclosed =>
        cases h
        exact .short n next hpc (Nat.lt_of_not_le hlt) hclosed
      next => cases h
  next client rest back hpc =>
    obtain ⟨t, ht, h⟩ := Option.bind_eq_some_iff.mp h
    split at h
    next hdone =>
      cases h
      exact .written client rest back t hpc ht hdone
    next => cases h
  next => cases h

theorem sessionStep_of_recvAct {answer : RecvAnswer}
    (h : c.recvAct self s answer = some (c', b)) : SessionStep c self s (.recv answer) c' b := by
  unfold recvAct at h
  split at h
  next n next hpc =>
    split at h
    next => cases h
    next hgo =>
      obtain ⟨hlt, hopen⟩ := not_or.mp hgo
      have hlt := Nat.lt_of_not_le hlt
      have hopen := Bool.eq_false_of_not_eq_true hopen
      cases answer with
      | data first rest =>
          dsimp only at h
          split at h
          next hlen =>
            cases h
            exact .data n next first rest hpc hlt hopen hlen
          next => cases h
      | eagain =>
          cases h
          exact .recvWait n next hpc hlt hopen
      | ended =>
          cases h
          exact .recvEnd n next hpc hlt hopen
  next => cases h

theorem sessionStep_of_sendAct {answer : SendAnswer}
    (h : c.sendAct self s answer = some (c', b)) : SessionStep c self s (.send answer) c' b := by
  unfold sendAct at h
  split at h
  next client rest back hpc =>
    obtain ⟨t, ht, h⟩ := Option.bind_eq_some_iff.mp h
    split at h
    next => cases h
    next hgo =>
      obtain ⟨hopen, hrest⟩ := not_or.mp hgo
      have hopen := Bool.eq_false_of_not_eq_true hopen
      cases answer with
      | accept extra =>
          cases h
          exact .accepted client rest back t extra hpc ht hopen hrest
      | eagain =>
          cases h
          exact .sendWait client rest back t hpc ht hopen hrest
      | fail =>
          cases h
          exact .sendFail client rest back t hpc ht hopen hrest
  next => cases h

theorem sessionStep_of_httpAct {a : ChatAct} (hpc : s.pc = .http)
    (h : c.httpAct self s a = some (c', b)) : SessionStep c self s a c' b := by
  unfold httpAct at h
  split at h
  next buf ended =>
    cases h
    exact .http buf ended hpc
  next reading =>
    split at h
    next => cases h
    next hopen =>
      cases h
      exact .httpWait reading hpc (Bool.eq_false_of_not_eq_true hopen)
  next nick =>
    cases h
    exact .upgrade nick hpc
  next =>
    dsimp only at h
    split at h
    next fd hfd =>
      cases h
      exact .destroy fd hpc hfd
    next hfd =>
      cases h
      exact .destroyClosed hpc hfd
  next => cases h

/-- Every step of a coroutine is one of these. -/
theorem coroutineStep_of_act {a : ChatAct} (h : c.coroutineAct self a = some (c', b)) :
    CoroutineStep c self a c' b := by
  unfold coroutineAct at h
  split at h
  next fd hnone htask =>
    cases h
    exact .start fd hnone htask
  next fd hnone htask =>
    cases h
    exact .acceptWait fd hnone htask
  next listenFd fd hnone htask =>
    split at h
    next => cases h
    next hfresh =>
      cases h
      obtain ⟨hctx, hrest⟩ := not_or.mp hfresh
      obtain ⟨hfd, hclosed⟩ := not_or.mp hrest
      exact .accept listenFd fd hnone htask hctx (not_lt.mp hfd)
        (Bool.eq_false_of_not_eq_true hclosed)
  next s hs =>
    refine .session s hs ?_
    split at h
    next hpc => exact sessionStep_of_httpAct hpc h
    next hpc =>
      cases h
      exact .finish hpc
    next =>
      split at h
      next hfree =>
        obtain ⟨c₁, h₁, h₂⟩ := Option.map_eq_some_iff.mp h
        cases h₂
        exact sessionStep_of_lockedAct hfree h₁
      next => cases h
    next =>
      obtain ⟨c₁, h₁, h₂⟩ := Option.map_eq_some_iff.mp h
      cases h₂
      exact sessionStep_of_nextAct h₁
    next => exact sessionStep_of_recvAct h
    next => exact sessionStep_of_sendAct h
    next => cases h
  next => cases h

theorem actStep_of_runningAct {a : ChatAct} (h : c.runningAct a = some (c', b)) :
    ActStep c a c' b := by
  unfold runningAct at h
  split at h
  next self hpc hself => exact .coroutine self hpc hself h
  next => cases h

/-- Every step outside the scheduler is one of these. -/
theorem actStep_of_act {a : ChatAct} (h : c.act a = some (c', b)) : ActStep c a c' b := by
  cases a with
  | sys a =>
      simp only [act] at h
      split at h
      next hrun =>
        cases h
        exact .sys a hrun
      next => cases h
  | listen fd =>
      simp only [act] at h
      split at h
      next => cases h
      next hfresh =>
        cases h
        obtain ⟨hpc, hrest⟩ := not_or.mp hfresh
        obtain ⟨hfd, hclosed⟩ := not_or.mp hrest
        exact .listen fd (not_not.mp hpc) (not_lt.mp hfd) (Bool.eq_false_of_not_eq_true hclosed)
  | post t fd =>
      simp only [act] at h
      split at h
      next => cases h
      next hfresh =>
        cases h
        obtain ⟨hfd, hclosed⟩ := not_or.mp hfresh
        exact .post t fd (not_lt.mp hfd) (Bool.eq_false_of_not_eq_true hclosed)
  | acceptWait | accept fd | start | http buf ended | httpWait reading | upgrade nick | locked
  | recv answer | send answer | next | destroy | finish => exact actStep_of_runningAct h

end Inversion

end Chat

end CoroutineHttp.Ws
