/-
  CoroutineHttp.Core.Machine

  One scheduler thread as a state machine: `Scheduler::run` with its loops, the
  coroutine it is executing, and the threads that call `Scheduler::post`.

  `RunPc` is the program point of the scheduler thread.  While it is
  `coroutine`, the running coroutine chooses what it does next; elsewhere `run`
  does.  Posting threads step at any time.  What the environment decides (clock
  readings, the result of `epoll_wait`, the values sent) is a parameter of the
  action.  `run` is translated up to the switches, so one action is one
  uninterrupted stretch of the scheduler thread, except that the pipe branch is
  cut at each access to what posting threads share with it.
-/

import Mathlib.Data.PNat.Defs
import CoroutineHttp.Core.Scheduler

namespace CoroutineHttp.Core

open CoroutineHttp.Library

universe u v

/-- Program points of the scheduler thread. -/
inductive RunPc (τ : Type u) where
  /-- Before `run()` is called. -/
  | start
  /-- Head of `while (!ready_queue.empty())`; also the head of `while (true)`,
      which does nothing before it. -/
  | readyLoop
  /-- Inside the coroutine `running_coro`. -/
  | coroutine
  /-- Back in `run`, just after `swapcontext`. -/
  | switched
  /-- Section 2, before `fire_timers()`. -/
  | timers
  /-- Section 3, before `epoll_wait`. -/
  | polling
  /-- Head of the `for` loop over the events still to be handled. -/
  | events (evs : List Fd)
  /-- Head of `while (read(pipe_read_fd_, buf, sizeof(buf)) > 0)`. -/
  | readPipe (evs : List Fd)
  /-- In `drain_post_queue`, before the swap under the mutex. -/
  | swapQueue (evs : List Fd)
  /-- Head of the `for` loop of `drain_post_queue` over the tasks swapped out. -/
  | drain (local_ : List τ) (evs : List Fd)
  /-- After the `break` on a failed `epoll_wait`. -/
  | stopped
deriving DecidableEq, Repr

/-- Program points of a thread that calls `post`. -/
inductive PostPc where
  | idle
  /-- The task is in `post_queue_`; the byte is not yet written. -/
  | appended
deriving DecidableEq, Repr

/-- The scheduler thread, the channels, the wake-up pipe and the posters.
    `posted` and `fromPost` are history: the tasks appended so far, in order,
    and the coroutines `drain_post_queue` made of them. -/
structure Machine (τ : Type u) (α : Type v) where
  sched : Scheduler τ α
  chans : ChanId → Channel α
  pc : RunPc τ
  /-- The bytes in the wake-up pipe, and how many it can hold. -/
  pipe : Nat
  pipeCap : ℕ+
  posters : Nat → PostPc
  posted : List τ
  fromPost : List CoroPtr

/-- One step of the thread, of a posting thread or of the environment. -/
inductive Act (τ : Type u) (α : Type v) where
  /-- `run()` is called. -/
  | run
  /-- Iteration of the ready loop, or its exit. -/
  | readyLoop
  /-- `create(f)`, before `run()` or by the running coroutine. -/
  | create (f : τ)
  | yield
  | waitEvent (fd : Fd) (events : UInt32)
  | sleep (now ms : Int64)
  | send (ch : ChanId) (val : α)
  | recv (ch : ChanId)
  /-- The running coroutine closes a descriptor: the kernel drops its
      registration. -/
  | closeFd (fd : Fd)
  /-- The function of the running coroutine returns (or throws). -/
  | finish
  /-- The statements of `run` after `swapcontext`. -/
  | reap
  /-- Section 2. -/
  | fireTimers (now : Int64)
  /-- `epoll_wait` returns these descriptors. -/
  | epollWait (evs : List Fd)
  /-- `epoll_wait` fails; `true` for `EINTR`. -/
  | epollFail (eintr : Bool)
  /-- Iteration of the event loop. -/
  | event
  /-- The event loop is over: the last `fire_timers()`. -/
  | lastTimers (now : Int64)
  /-- One `read` of at most 64 bytes from the pipe. -/
  | readPipe
  /-- `local.swap(post_queue_)` under the mutex. -/
  | swapQueue
  /-- Iteration of the loop of `drain_post_queue`, or its exit. -/
  | drain
  /-- Thread `t` appends `f` to `post_queue_` under the mutex. -/
  | postAppend (t : Nat) (f : τ)
  /-- Thread `t` writes its byte; on a full pipe the write fails. -/
  | postWrite (t : Nat)

namespace Machine

variable {τ : Type u} {α : Type v}

/-- A scheduler as its constructor leaves it, before any coroutine exists.
    The objects behind unallocated pointers are irrelevant. -/
def init [Inhabited α] (pipeReadFd : Fd) (pipeCap : ℕ+) (junk : Coroutine τ α) :
    Machine τ α where
  sched :=
    { coros := fun _ => junk
      allocs := 0
      deletes := []
      runningCoro := none
      nextId := 1
      readyQueue := []
      waitingMap := ∅
      timerHeap := []
      epoll := Function.update (fun _ => none) pipeReadFd (some ⟨EPOLLIN, true⟩)
      pipeReadFd := pipeReadFd
      postQueue := [] }
  chans := fun _ => Channel.init
  pc := .start
  pipe := 0
  pipeCap := pipeCap
  posters := fun _ => .idle
  posted := []
  fromPost := []

/-- The thread is at `pc`, with scheduler state `s`. -/
def goto (m : Machine τ α) (s : Scheduler τ α) (pc : RunPc τ) : Machine τ α :=
  { m with sched := s, pc := pc }

/-- Write back channel `ch`. -/
def setChan (m : Machine τ α) (ch : ChanId) (c : Channel α) : Machine τ α :=
  { m with chans := Function.update m.chans ch c }

section Step

variable [Inhabited α] (H : StdHeap timerAfter)

/-- What the running coroutine `self` may do. -/
def stepCoroutine (m : Machine τ α) (self : CoroPtr) : Act τ α → Option (Machine τ α)
  | .create f => some (m.goto (m.sched.create f) .coroutine)
  | .yield => some (m.goto m.sched.yield .switched)
  | .waitEvent fd events => some (m.goto (m.sched.waitEvent fd events) .switched)
  | .sleep now ms => some (m.goto (m.sched.sleep H now ms) .switched)
  | .send ch val =>
      let r := Channel.send m.sched (m.chans ch) ch self val
      some ((m.setChan ch r.2).goto r.1 .switched)
  | .recv ch =>
      let r := Channel.recv m.sched (m.chans ch) ch self
      -- only a `recv` that found a sender returns without a switch
      some ((m.setChan ch r.2.1).goto r.1 (if r.2.2.isSome then .coroutine else .switched))
  | .closeFd fd =>
      some (m.goto { m.sched with epoll := m.sched.epoll.ctlDel fd } .coroutine)
  -- `co_entry`: the exception, if any, has been caught
  | .finish => some (m.goto (m.sched.setState self .done) .switched)
  -- the rest is not the coroutine's to do
  | _ => none

/-- What `run` does at its own program points. -/
def stepRun (m : Machine τ α) (a : Act τ α) : Option (Machine τ α) :=
  match m.pc, a with
  | .start, .run => some (m.goto m.sched .readyLoop)
  | .start, .create f => some (m.goto (m.sched.create f) .start)
  | .readyLoop, .readyLoop =>
      match m.sched.readyQueue with
      | [] => some (m.goto m.sched .timers)
      | p :: rest => some (m.goto (m.sched.switchTo p rest) .coroutine)
  | .switched, .reap => some (m.goto m.sched.reap .readyLoop)
  -- `continue` when a timer made a coroutine ready
  | .timers, .fireTimers now =>
      let s := (m.sched.fireTimers H now).1
      some (m.goto s (if s.readyQueue.isEmpty then .polling else .readyLoop))
  -- no descriptors is the timeout; one-shot registrations are disarmed
  | .polling, .epollWait evs =>
      some (m.goto { m.sched with epoll := evs.foldl Epoll.deliver m.sched.epoll }
        (.events evs))
  -- `EINTR` continues, any other error breaks
  | .polling, .epollFail eintr =>
      some (m.goto m.sched (if eintr then .readyLoop else .stopped))
  | .events [], .lastTimers now =>
      some (m.goto (m.sched.fireTimers H now).1 .readyLoop)
  | .events (fd :: evs), .event =>
      -- the pipe's own descriptor never goes through `waiting_map`
      if fd = m.sched.pipeReadFd then some (m.goto m.sched (.readPipe evs))
      else some (m.goto (m.sched.wakeFd fd) (.events evs))
  | .readPipe evs, .readPipe =>
      -- `read` returns -1 (`EAGAIN`) on the empty pipe and ends the loop
      if m.pipe = 0 then some (m.goto m.sched (.swapQueue evs))
      else some { m with pipe := m.pipe - min 64 m.pipe }
  -- the lock is held for the swap only
  | .swapQueue evs, .swapQueue =>
      some (m.goto { m.sched with postQueue := [] } (.drain m.sched.postQueue evs))
  | .drain [] evs, .drain => some (m.goto m.sched (.events evs))
  | .drain (f :: fs) evs, .drain =>
      some { m.goto (m.sched.create f) (.drain fs evs) with
        fromPost := m.fromPost ++ [m.sched.allocs] }
  | _, _ => none

/-- The step function: `none` when the action is not possible in the state. -/
def step (m : Machine τ α) (a : Act τ α) : Option (Machine τ α) :=
  match a with
  | .postAppend t f =>
      -- the lock is released before the byte is written
      if m.posters t = .idle then
        some { m with
          sched := { m.sched with postQueue := m.sched.postQueue ++ [f] }
          posters := Function.update m.posters t .appended
          posted := m.posted ++ [f] }
      else none
  | .postWrite t =>
      if m.posters t = .appended then
        some { m with
          -- `O_NONBLOCK`: on a full pipe the write fails, unseen
          pipe := if m.pipe < m.pipeCap then m.pipe + 1 else m.pipe
          posters := Function.update m.posters t .idle }
      else none
  | a =>
      match m.pc, m.sched.runningCoro with
      | .coroutine, some self => stepCoroutine H m self a
      | _, _ => stepRun H m a

end Step

/-! ## Inversion of a step -/

/-- The steps once more, as a relation: one rule for each thing that can happen,
    with what is known before it. -/
inductive Stepped [Inhabited α] (H : StdHeap timerAfter) (m : Machine τ α) :
    Act τ α → Machine τ α → Prop where
  | run (hpc : m.pc = .start) : Stepped H m .run (m.goto m.sched .readyLoop)
  | createMain (f : τ) (hpc : m.pc = .start) :
      Stepped H m (.create f) (m.goto (m.sched.create f) .start)
  | readyEmpty (hpc : m.pc = .readyLoop) (hq : m.sched.readyQueue = []) :
      Stepped H m .readyLoop (m.goto m.sched .timers)
  | readyNext (p : CoroPtr) (rest : List CoroPtr) (hpc : m.pc = .readyLoop)
      (hq : m.sched.readyQueue = p :: rest) :
      Stepped H m .readyLoop (m.goto (m.sched.switchTo p rest) .coroutine)
  | create (self : CoroPtr) (f : τ) (hpc : m.pc = .coroutine)
      (hself : m.sched.runningCoro = some self) :
      Stepped H m (.create f) (m.goto (m.sched.create f) .coroutine)
  | yield (self : CoroPtr) (hpc : m.pc = .coroutine)
      (hself : m.sched.runningCoro = some self) :
      Stepped H m .yield (m.goto m.sched.yield .switched)
  | waitEvent (self : CoroPtr) (fd : Fd) (events : UInt32) (hpc : m.pc = .coroutine)
      (hself : m.sched.runningCoro = some self) :
      Stepped H m (.waitEvent fd events) (m.goto (m.sched.waitEvent fd events) .switched)
  | sleep (self : CoroPtr) (now ms : Int64) (hpc : m.pc = .coroutine)
      (hself : m.sched.runningCoro = some self) :
      Stepped H m (.sleep now ms) (m.goto (m.sched.sleep H now ms) .switched)
  | send (self : CoroPtr) (ch : ChanId) (val : α) (hpc : m.pc = .coroutine)
      (hself : m.sched.runningCoro = some self) :
      Stepped H m (.send ch val)
        ((m.setChan ch (Channel.send m.sched (m.chans ch) ch self val).2).goto
          (Channel.send m.sched (m.chans ch) ch self val).1 .switched)
  | recv (self : CoroPtr) (ch : ChanId) (hpc : m.pc = .coroutine)
      (hself : m.sched.runningCoro = some self) :
      Stepped H m (.recv ch)
        ((m.setChan ch (Channel.recv m.sched (m.chans ch) ch self).2.1).goto
          (Channel.recv m.sched (m.chans ch) ch self).1
          (if (Channel.recv m.sched (m.chans ch) ch self).2.2.isSome then .coroutine
            else .switched))
  | closeFd (self : CoroPtr) (fd : Fd) (hpc : m.pc = .coroutine)
      (hself : m.sched.runningCoro = some self) :
      Stepped H m (.closeFd fd)
        (m.goto { m.sched with epoll := m.sched.epoll.ctlDel fd } .coroutine)
  | finish (self : CoroPtr) (hpc : m.pc = .coroutine)
      (hself : m.sched.runningCoro = some self) :
      Stepped H m .finish (m.goto (m.sched.setState self .done) .switched)
  | reap (hpc : m.pc = .switched) : Stepped H m .reap (m.goto m.sched.reap .readyLoop)
  | fireTimers (now : Int64) (hpc : m.pc = .timers) :
      Stepped H m (.fireTimers now)
        (m.goto (m.sched.fireTimers H now).1
          (if (m.sched.fireTimers H now).1.readyQueue.isEmpty then .polling else .readyLoop))
  | epollWait (evs : List Fd) (hpc : m.pc = .polling) :
      Stepped H m (.epollWait evs)
        (m.goto { m.sched with epoll := evs.foldl Epoll.deliver m.sched.epoll } (.events evs))
  | epollFail (eintr : Bool) (hpc : m.pc = .polling) :
      Stepped H m (.epollFail eintr)
        (m.goto m.sched (if eintr then .readyLoop else .stopped))
  | lastTimers (now : Int64) (hpc : m.pc = .events []) :
      Stepped H m (.lastTimers now) (m.goto (m.sched.fireTimers H now).1 .readyLoop)
  | eventPipe (fd : Fd) (evs : List Fd) (hpc : m.pc = .events (fd :: evs))
      (hfd : fd = m.sched.pipeReadFd) :
      Stepped H m .event (m.goto m.sched (.readPipe evs))
  | eventWake (fd : Fd) (evs : List Fd) (hpc : m.pc = .events (fd :: evs))
      (hfd : fd ≠ m.sched.pipeReadFd) :
      Stepped H m .event (m.goto (m.sched.wakeFd fd) (.events evs))
  | pipeEmpty (evs : List Fd) (hpc : m.pc = .readPipe evs) (hp : m.pipe = 0) :
      Stepped H m .readPipe (m.goto m.sched (.swapQueue evs))
  | pipeRead (evs : List Fd) (hpc : m.pc = .readPipe evs) (hp : m.pipe ≠ 0) :
      Stepped H m .readPipe { m with pipe := m.pipe - min 64 m.pipe }
  | swapQueue (evs : List Fd) (hpc : m.pc = .swapQueue evs) :
      Stepped H m .swapQueue
        (m.goto { m.sched with postQueue := [] } (.drain m.sched.postQueue evs))
  | drainDone (evs : List Fd) (hpc : m.pc = .drain [] evs) :
      Stepped H m .drain (m.goto m.sched (.events evs))
  | drainNext (f : τ) (fs : List τ) (evs : List Fd) (hpc : m.pc = .drain (f :: fs) evs) :
      Stepped H m .drain
        { m.goto (m.sched.create f) (.drain fs evs) with
          fromPost := m.fromPost ++ [m.sched.allocs] }
  | postAppend (t : Nat) (f : τ) (ht : m.posters t = .idle) :
      Stepped H m (.postAppend t f)
        { m with
          sched := { m.sched with postQueue := m.sched.postQueue ++ [f] }
          posters := Function.update m.posters t .appended
          posted := m.posted ++ [f] }
  | postWrite (t : Nat) (ht : m.posters t = .appended) :
      Stepped H m (.postWrite t)
        { m with
          pipe := if m.pipe < m.pipeCap then m.pipe + 1 else m.pipe
          posters := Function.update m.posters t .idle }

theorem stepCoroutine_cases [Inhabited α] {H : StdHeap timerAfter} {m m' : Machine τ α}
    {self : CoroPtr} {a : Act τ α} (hpc : m.pc = .coroutine)
    (hself : m.sched.runningCoro = some self)
    (h : stepCoroutine H m self a = some m') : Stepped H m a m' := by
  -- one rule for each action the coroutine has
  cases a <;> simp only [stepCoroutine, Option.some.injEq, reduceCtorEq] at h <;> subst h
  case create f => exact .create self f hpc hself
  case yield => exact .yield self hpc hself
  case waitEvent fd events => exact .waitEvent self fd events hpc hself
  case sleep now ms => exact .sleep self now ms hpc hself
  case send ch val => exact .send self ch val hpc hself
  case recv ch => exact .recv self ch hpc hself
  case closeFd fd => exact .closeFd self fd hpc hself
  case finish => exact .finish self hpc hself

theorem stepRun_cases [Inhabited α] {H : StdHeap timerAfter} {m m' : Machine τ α}
    {a : Act τ α} (h : stepRun H m a = some m') : Stepped H m a m' := by
  -- the cases of the match, in its order
  unfold stepRun at h
  split at h
  case h_1 hpc => cases h; exact .run hpc
  case h_2 f hpc => cases h; exact .createMain f hpc
  case h_3 hpc =>
    split at h
    next hq => cases h; exact .readyEmpty hpc hq
    next p rest hq => cases h; exact .readyNext p rest hpc hq
  case h_4 hpc => cases h; exact .reap hpc
  case h_5 now hpc => cases h; exact .fireTimers now hpc
  case h_6 evs hpc => cases h; exact .epollWait evs hpc
  case h_7 eintr hpc => cases h; exact .epollFail eintr hpc
  case h_8 now hpc => cases h; exact .lastTimers now hpc
  case h_9 fd evs hpc =>
    split at h
    next hfd => cases h; exact .eventPipe fd evs hpc hfd
    next hfd => cases h; exact .eventWake fd evs hpc hfd
  case h_10 evs hpc =>
    split at h
    next hp => cases h; exact .pipeEmpty evs hpc hp
    next hp => cases h; exact .pipeRead evs hpc hp
  case h_11 evs hpc => cases h; exact .swapQueue evs hpc
  case h_12 evs hpc => cases h; exact .drainDone evs hpc
  case h_13 f fs evs hpc => cases h; exact .drainNext f fs evs hpc
  case h_14 => cases h

/-- **Inversion.** Every step is an instance of one of the rules. -/
theorem step_cases [Inhabited α] {H : StdHeap timerAfter} {m m' : Machine τ α}
    {a : Act τ α} (h : step H m a = some m') : Stepped H m a m' := by
  unfold step at h
  split at h
  next t f =>
    split at h
    next ht => cases h; exact .postAppend t f ht
    next => cases h
  next t =>
    split at h
    next ht => cases h; exact .postWrite t ht
    next => cases h
  next =>
    split at h
    next self hpc hself => exact stepCoroutine_cases hpc hself h
    next => exact stepRun_cases h

end Machine

end CoroutineHttp.Core
