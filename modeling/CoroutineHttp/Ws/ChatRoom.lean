/-
  CoroutineHttp.Ws.ChatRoom

  `class ChatRoom` and any number of chat sessions on one scheduler: the coroutines
  of `main.cpp`'s `/ws` handler as programs of the scheduler thread of
  `CoroutineHttp.Core.Machine`.

  A step of a coroutine is a critical section of the room, one `recv` or `send` with
  the answer of the kernel, or what it computes between these.  `act` is what the
  step does to the room and to the locals of the coroutines, and the scheduler's part
  in it, if any: `wait_event` where the answer is `EAGAIN`.

  The lock of the room is a `std::mutex`.  A coroutine that wants it while another
  one has it blocks the thread: it has no step.
-/

import CoroutineHttp.Core.Machine
import CoroutineHttp.Ws.WebSocket

namespace CoroutineHttp.Ws

open CoroutineHttp.Library CoroutineHttp.Core CoroutineHttp.Net

/-! ## The messages -/

/-- The announcement of a member who did `what`. -/
def systemMessage (nick what : Bytes) (online : Nat) (users : Bytes) : Bytes :=
  bytes "\x7b\"type\":\"system\",\"msg\":\"" ++ nick ++ what ++ bytes "\",\"online\":" ++
    toDec online ++ bytes ",\"users\":" ++ users ++ bytes "\x7d"

def joinMessage (nick : Bytes) (online : Nat) (users : Bytes) : Bytes :=
  systemMessage nick (bytes " 加入了聊天室") online users

def leaveMessage (nick : Bytes) (online : Nat) (users : Bytes) : Bytes :=
  systemMessage nick (bytes " 离开了聊天室") online users

def chatMessage (nick payload : Bytes) : Bytes :=
  bytes "\x7b\"type\":\"message\",\"nick\":\"" ++ nick ++ bytes "\",\"msg\":\"" ++ payload ++
    bytes "\"\x7d"

/-! ## The room -/

/-- `struct Client`.  The `WebSocket` is a local of its session's coroutine, which
    names it. -/
structure Client where
  ws : CoroPtr
  nick : Bytes
deriving DecidableEq, Repr

/-- `class ChatRoom`; `owner` is who has locked `mutex_`. -/
structure ChatRoom where
  clients : List Client
  owner : Option CoroPtr
deriving DecidableEq, Repr

namespace ChatRoom

/-- `join`, under the lock; so are the next three. -/
def join (r : ChatRoom) (ws : CoroPtr) (nick : Bytes) : ChatRoom :=
  { r with clients := r.clients ++ [⟨ws, nick⟩] }

/-- `leave`. -/
def leave (r : ChatRoom) (ws : CoroPtr) : ChatRoom :=
  { r with clients := r.clients.filter fun c => c.ws != ws }

/-- `size`. -/
def size (r : ChatRoom) : Nat := r.clients.length

/-- `nicks_json`. -/
def nicksJson (r : ChatRoom) : Bytes :=
  bytes "[" ++ [44].intercalate (r.clients.map fun c => bytes "\"" ++ c.nick ++ bytes "\"") ++
    bytes "]"

/-- The members, in the order `broadcast` visits them. -/
def members (r : ChatRoom) : List CoroPtr := r.clients.map Client.ws

end ChatRoom

/-! ## The coroutines -/

/-- The tasks of the program: `TcpServer::accept_loop`, and the one that serves an
    accepted connection. -/
inductive Task where
  | acceptLoop (listenFd : Fd)
  | connection (clientFd : Fd)
deriving DecidableEq, Repr

/-- The descriptor the task captures. -/
def Task.fd : Task → Fd
  | .acceptLoop fd | .connection fd => fd

/-- The broadcasts of a session: on joining, of a text frame, on leaving. -/
inductive Phase where
  | joined
  | chatting
  | left
deriving DecidableEq, Repr

/-- Where a `write` returns to: the loop of `broadcast`, or the session loop. -/
inductive Back where
  | each (phase : Phase) (msg : Bytes) (todo : List CoroPtr)
  | loop
deriving DecidableEq, Repr

/-- Program points of the coroutine of a connection. -/
inductive SessionPc where
  /-- In `handle_connection`, outside the `/ws` handler. -/
  | http
  /-- Before `room.join(&ws, nick)`. -/
  | join
  /-- Before the `room.size()` of the line logged. -/
  | log (phase : Phase)
  /-- Before the `room.size()` of the announcement. -/
  | online (phase : Phase)
  /-- Before its `room.nicks_json()`. -/
  | users (phase : Phase) (online : Nat)
  /-- Before `room.broadcast(msg)`. -/
  | broadcast (phase : Phase) (msg : Bytes)
  /-- In `broadcast`, under the lock, at the head of the loop over the clients. -/
  | each (phase : Phase) (msg : Bytes) (todo : List CoroPtr)
  /-- Head of `while (ws.recv_frame(frame))`. -/
  | loop
  /-- In `recv_frame`. -/
  | recv (prog : Reading (Option WsFrame))
  /-- In the loop of `write` on the connection of `client`, with `rest` to send; then at `back`. -/
  | write (client : CoroPtr) (rest : Bytes) (back : Back)
  /-- Before `room.leave(&ws)`. -/
  | leave
  /-- The `Connection` has been destroyed. -/
  | gone

def Back.pc : Back → SessionPc
  | .each phase msg todo => .each phase msg todo
  | .loop => .loop

/-- Where a broadcast returns to. -/
def Phase.next : Phase → SessionPc
  | .joined | .chatting => .loop
  | .left => .http

/-- The locals of a connection's coroutine.  `accepted` is what the kernel has taken
    on the connection since the last handshake. -/
structure Session where
  conn : Connection
  nick : Bytes
  pc : SessionPc
  accepted : Bytes

/-- Answers to `recv`. -/
inductive RecvAnswer where
  | data (first : UInt8) (rest : Bytes)
  | eagain
  /-- 0, or an error other than `EAGAIN`. -/
  | ended
deriving DecidableEq, Repr

/-- Answers to `send`. -/
inductive SendAnswer where
  /-- `extra + 1` bytes are accepted, or all that are offered if these are fewer. -/
  | accept (extra : Nat)
  | eagain
  /-- 0, or an error other than `EAGAIN`. -/
  | fail
deriving DecidableEq, Repr

/-- What `recv_frame` returned decides how the session goes on. -/
def afterFrame (self : CoroPtr) (nick : Bytes) : Option WsFrame → SessionPc
  | none => .leave
  | some frame =>
      -- no answer to a close frame
      if frame.opcode = WsOpcode.CLOSE then .leave
      else if frame.opcode = WsOpcode.PING then
        -- `send_text("")`: a text frame, not a pong
        .write self (WebSocket.encodeFrame WsOpcode.TEXT []) .loop
      else if frame.opcode = WsOpcode.TEXT ∧ frame.payload ≠ [] then
        .broadcast .chatting (chatMessage nick frame.payload)
      -- `fin` and the other opcodes are not looked at
      else .loop

/-! ## One scheduler with its sessions -/

/-- The scheduler, the room, the locals of the connections' coroutines and the
    kernel's table of open descriptors. -/
structure Chat where
  machine : Machine Task Unit
  room : ChatRoom
  sessions : CoroPtr → Option Session
  isOpen : Fd → Bool

/-- Steps.  Those of `run`, of posting threads and of `main` are followed by those of
    the running coroutine. -/
inductive ChatAct where
  /-- A step of `run`, or the second half of a `post`. -/
  | sys (a : Act Task Unit)
  /-- `app.listen` in `main`: the accept loop of a listening socket. -/
  | listen (fd : Fd)
  /-- A connection has been accepted, and thread `t` appends its task. -/
  | post (t : Nat) (fd : Fd)
  /-- The accept loop waits for connections. -/
  | acceptWait
  /-- It accepts one and, without a dispatcher, creates its coroutine here. -/
  | accept (fd : Fd)
  /-- `Connection conn(client_fd, s)`. -/
  | start
  /-- HTTP is read and answered; this leaves `buf` to be read, and the connection may
      have ended. -/
  | http (buf : Bytes) (ended : Bool)
  /-- A `recv` or `send` of the HTTP part answers `EAGAIN`. -/
  | httpWait (reading : Bool)
  /-- A request is upgraded. -/
  | upgrade (nick : Bytes)
  /-- The next critical section of the room. -/
  | locked
  | recv (answer : RecvAnswer)
  | send (answer : SendAnswer)
  /-- What needs neither the room nor the kernel. -/
  | next
  /-- `~Connection`. -/
  | destroy
  /-- The task returns. -/
  | finish

/-- The actions of `run` and `post`. -/
def ofRun : Act Task Unit → Bool
  | .run | .readyLoop | .reap | .fireTimers _ | .epollWait _ | .epollFail _ | .event
  | .lastTimers _ | .readPipe | .swapQueue | .drain | .postWrite _ => true
  | _ => false

namespace Chat

/-- A program before `main` does anything. -/
def init (pipeReadFd : Fd) (pipeCap : ℕ+) : Chat where
  machine := .init pipeReadFd pipeCap ⟨.entry, .acceptLoop (-1), .ready, 0⟩
  room := ⟨[], none⟩
  sessions _ := none
  isOpen fd := fd == pipeReadFd

/-- The scheduler moves on. -/
def withMachine (c : Chat) (m : Machine Task Unit) : Chat := { c with machine := m }

/-- The locals of `p` change. -/
def modify (c : Chat) (p : CoroPtr) (f : Session → Session) : Chat :=
  { c with sessions := Function.update c.sessions p ((c.sessions p).map f) }

/-- `p` is at `pc`. -/
def goto (c : Chat) (p : CoroPtr) (pc : SessionPc) : Chat :=
  c.modify p fun s => { s with pc := pc }

/-- The kernel takes `sent` on the connection of `p`. -/
def took (c : Chat) (p : CoroPtr) (sent : Bytes) : Chat :=
  c.modify p fun s => { s with accepted := s.accepted ++ sent }

/-- `closed_ = true` on the connection of `p`. -/
def ended (c : Chat) (p : CoroPtr) : Chat :=
  c.modify p fun s => { s with conn := { s.conn with closed := true } }

/-- `p` constructs its `Connection`. -/
def started (c : Chat) (p : CoroPtr) (fd : Fd) : Chat :=
  { c with sessions := Function.update c.sessions p (some ⟨.init fd, [], .http, []⟩) }

def opened (c : Chat) (fd : Fd) : Chat :=
  { c with isOpen := Function.update c.isOpen fd true }

def setRoom (c : Chat) (r : ChatRoom) : Chat := { c with room := r }

/-- A critical section of `self`, whose locals are `s`; the room is unlocked. -/
def lockedAct (c : Chat) (self : CoroPtr) (s : Session) : Option Chat :=
  match s.pc with
  | .join => some ((c.setRoom (c.room.join self s.nick)).goto self (.log .joined))
  | .log phase => some (c.goto self (.online phase))
  | .online phase => some (c.goto self (.users phase c.room.size))
  | .users phase online =>
      let msg := if phase = .left then leaveMessage s.nick online c.room.nicksJson
        else joinMessage s.nick online c.room.nicksJson
      some (c.goto self (.broadcast phase msg))
  | .broadcast phase msg =>
      -- the lock is kept, so every wait in the loop keeps it too
      some ((c.setRoom { c.room with owner := some self }).goto self
        (.each phase msg c.room.members))
  | .leave => some ((c.setRoom (c.room.leave self)).goto self (.log .left))
  | _ => none

/-- `read_exact` gives up its buffer: the stream has ended. -/
def recvShort (c : Chat) (self : CoroPtr) (s : Session) (next : Bytes → Reading (Option WsFrame)) :
    Chat :=
  c.modify self fun s' =>
    { s' with conn := { s'.conn with readBuf := [] }, pc := .recv (next s.conn.readBuf) }

/-- What `self` computes between its calls. -/
def nextAct (c : Chat) (self : CoroPtr) (s : Session) : Option Chat :=
  match s.pc with
  -- the end of `broadcast` unlocks the room
  | .each phase _ [] => some ((c.setRoom { c.room with owner := none }).goto self phase.next)
  | .each phase msg (p :: todo) =>
      -- no step without the client's locals: its `WebSocket` is then a dangling pointer
      (c.sessions p).map fun t =>
        if t.conn.closed then c.goto self (.each phase msg todo)
        else c.goto self (.write p (WebSocket.encodeFrame WsOpcode.TEXT msg) (.each phase msg todo))
  | .loop => some (c.goto self (if s.conn.closed then .leave else .recv WebSocket.recvProgram))
  | .recv (.done frame) => some (c.goto self (afterFrame self s.nick frame))
  | .recv (.exact n next) =>
      -- `read_exact` has its bytes without a `recv`
      if n ≤ s.conn.readBuf.length then
        some (c.modify self fun s' =>
          { s' with
            conn := { s'.conn with readBuf := s.conn.readBuf.drop n }
            pc := .recv (next (s.conn.readBuf.take n)) })
      -- `read` on a closed connection returns nothing
      else if s.conn.closed then some (c.recvShort self s next)
      else none
  | .write client rest back =>
      -- `closed_` is looked at before the first `send` and after each wait
      (c.sessions client).bind fun t =>
        if t.conn.closed ∨ rest = [] then some (c.goto self back.pc) else none
  | _ => none

/-- `self` calls `recv`. -/
def recvAct (c : Chat) (self : CoroPtr) (s : Session) (answer : RecvAnswer) :
    Option (Chat × Option (Act Task Unit)) :=
  match s.pc with
  | .recv (.exact n next) =>
      if n ≤ s.conn.readBuf.length ∨ s.conn.closed then none
      else
        match answer with
        | .data first rest =>
            -- `read(4096)` gets at most 4096 bytes
            if rest.length < 4096 then
              some (c.modify self fun s' =>
                { s' with conn := { s'.conn with readBuf := s.conn.readBuf ++ first :: rest } },
                none)
            else none
        -- after the wait the coroutine is at the same point, and looks at `closed_` first
        | .eagain => some (c, some (.waitEvent s.conn.fd EPOLLIN))
        | .ended =>
            some ((c.ended self).recvShort self s next, none)
  | _ => none

/-- `self` calls `send` on the connection of `client`. -/
def sendAct (c : Chat) (self : CoroPtr) (s : Session) (answer : SendAnswer) :
    Option (Chat × Option (Act Task Unit)) :=
  match s.pc with
  | .write client rest back =>
      (c.sessions client).bind fun t =>
        if t.conn.closed ∨ rest = [] then none
        else
          match answer with
          | .accept extra =>
              let n := min (extra + 1) rest.length
              some ((c.took client (rest.take n)).goto self (.write client (rest.drop n) back),
                none)
          -- `wait_event` on the client's descriptor, in the coroutine that broadcasts
          | .eagain => some (c, some (.waitEvent t.conn.fd EPOLLOUT))
          | .fail =>
              -- `closed_` is set in the client's `Connection`; the loop of `broadcast` goes on
              some ((c.ended client).goto self back.pc, none)
  | _ => none

/-- A step of the HTTP part of `self`. -/
def httpAct (c : Chat) (self : CoroPtr) (s : Session) :
    ChatAct → Option (Chat × Option (Act Task Unit))
  | .http buf ended =>
      some (c.modify self fun s =>
        { s with conn := { s.conn with readBuf := buf, closed := s.conn.closed || ended } }, none)
  | .httpWait reading =>
      -- `read` and `write` do not get as far
      if s.conn.closed then none
      else some (c, some (.waitEvent s.conn.fd (if reading then EPOLLIN else EPOLLOUT)))
  | .upgrade nick =>
      some (c.modify self fun s => { s with nick := nick, pc := .join, accepted := [] }, none)
  | .destroy =>
      let c' := c.modify self fun s => { s with conn := s.conn.close.1, pc := .gone }
      match s.conn.close.2 with
      | some fd =>
          some ({ c' with isOpen := Function.update c.isOpen fd false }, some (.closeFd fd))
      -- `closed_` was set by an error or the end of the stream: no `::close`
      | none => some (c', none)
  | _ => none

/-- A step of the running coroutine `self`. -/
def coroutineAct (c : Chat) (self : CoroPtr) (a : ChatAct) :
    Option (Chat × Option (Act Task Unit)) :=
  match c.sessions self, (c.machine.sched.coros self).func, a with
  | none, .connection fd, .start =>
      some (c.started self fd, none)
  | none, .acceptLoop fd, .acceptWait => some (c, some (.waitEvent fd EPOLLIN))
  | none, .acceptLoop _, .accept fd =>
      -- `accept` comes after the first `wait_event`
      if (c.machine.sched.coros self).ctx = .entry ∨ fd < 0 ∨ c.isOpen fd then none
      else some (c.opened fd, some (.create (.connection fd)))
  | some s, _, a =>
      match s.pc, a with
      | .http, a => c.httpAct self s a
      | .gone, .finish => some (c, some .finish)
      | _, .locked =>
          -- a `lock` on a locked `std::mutex` blocks the thread
          if c.room.owner = none then (c.lockedAct self s).map (·, none) else none
      | _, .next => (c.nextAct self s).map (·, none)
      | _, .recv answer => c.recvAct self s answer
      | _, .send answer => c.sendAct self s answer
      | _, _ => none
  | _, _, _ => none

/-- A step of the running coroutine, if one runs. -/
def runningAct (c : Chat) (a : ChatAct) : Option (Chat × Option (Act Task Unit)) :=
  match c.machine.pc, c.machine.sched.runningCoro with
  | .coroutine, some self => c.coroutineAct self a
  | _, _ => none

/-- What a step does outside the scheduler, and the action of the scheduler it ends in. -/
def act (c : Chat) : ChatAct → Option (Chat × Option (Act Task Unit))
  | .sys a => if ofRun a then some (c, some a) else none
  | .listen fd =>
      if c.machine.pc ≠ .start ∨ fd < 0 ∨ c.isOpen fd then none
      else some (c.opened fd, some (.create (.acceptLoop fd)))
  | .post t fd =>
      if fd < 0 ∨ c.isOpen fd then none
      else some (c.opened fd, some (.postAppend t (.connection fd)))
  | a => c.runningAct a

section Step

variable (H : StdHeap timerAfter)

/-- The step function. -/
def step (c : Chat) (a : ChatAct) : Option Chat :=
  match c.act a with
  | none => none
  | some (c', none) => some c'
  | some (c', some b) => (c.machine.step H b).map c'.withMachine

end Step

end Chat

end CoroutineHttp.Ws
