/-
  CoroutineHttp.Core.Coroutine

  The data model of `core/coroutine.h`: coroutine objects, timer entries,
  channels, the scheduler's containers and the kernel's epoll table.

  A `Coroutine *` is the number of its allocation, so an address is never
  reused and a dangling pointer cannot be mistaken for a new object.  The saved
  `ucontext_t` is the program point a coroutine is suspended at (`Ctx`), with
  the locals that another coroutine may write through a pointer (the `result`
  of `Channel::recv`).  `τ` is the type of tasks (`std::function<void()>`), `α`
  the element type of channels.
-/

import Mathlib.Data.List.AList
import CoroutineHttp.Library.Heap

namespace CoroutineHttp.Core

open CoroutineHttp.Library

universe u v

abbrev Fd := Int

/-- A `Coroutine *`: the number of the allocation that made the object. -/
abbrev CoroPtr := Nat

/-- Names of the `Channel<T>` objects of a program. -/
abbrev ChanId := Nat

/-! ## Coroutines -/

/-- `enum class State`. -/
inductive State where
  | ready
  | running
  | waiting
  | done
deriving DecidableEq, Repr

/-- The program point saved in `Coroutine::ctx`. -/
inductive Ctx (α : Type v) where
  /-- `makecontext`: at the start of `co_entry`. -/
  | entry
  | inYield
  | inWaitEvent (fd : Fd) (events : UInt32)
  | inSleep
  | inSend (ch : ChanId)
  | inRecv (ch : ChanId) (result : α)
deriving DecidableEq, Repr

/-- `struct Coroutine` (its stack is the `Ctx`). -/
structure Coroutine (τ : Type u) (α : Type v) where
  ctx : Ctx α
  func : τ
  state : State
  coroId : UInt64

/-- `struct TimerEntry`. -/
structure TimerEntry where
  expireMs : Int64
  co : CoroPtr
deriving DecidableEq, Repr

/-- The comparator `push_timer` and `pop_timer` hand to the heap algorithms:
    reversed, so that the front is the earliest deadline. -/
def timerAfter (a b : TimerEntry) : Bool := decide (a.expireMs > b.expireMs)

/-- Heap algorithms for this comparator, on a sorted range. -/
def sortedTimers : StdHeap timerAfter :=
  .ofSort timerAfter
    (fun a b => by simpa [timerAfter] using Int64.le_total a.expireMs b.expireMs)
    (fun a b c hab hbc => by
      simp only [timerAfter, decide_eq_false_iff_not, Int64.not_lt] at hab hbc ⊢
      exact Int64.le_trans hab hbc)

/-- The members of one `Channel<T>`.  `recv_slot_` points at the local `result`
    of a receiver's `recv`, so it is named by that coroutine. -/
structure Channel (α : Type v) where
  sendWaiter : Option CoroPtr
  sendVal : α
  recvWaiter : Option CoroPtr
  recvSlot : Option CoroPtr
deriving DecidableEq, Repr

/-- A channel as its constructor leaves it. -/
def Channel.init [Inhabited α] : Channel α := ⟨none, default, none, none⟩

/-! ## The kernel's epoll table -/

def EPOLLIN : UInt32 := 0x001
def EPOLLOUT : UInt32 := 0x004
def EPOLLONESHOT : UInt32 := 0x40000000
def EPOLLET : UInt32 := 0x80000000

/-- One registered descriptor: its event mask, and whether it still reports
    (`EPOLLONESHOT` disarms on delivery). -/
structure Registration where
  events : UInt32
  armed : Bool
deriving DecidableEq, Repr

/-- The interest list of an epoll instance. -/
abbrev Epoll := Fd → Option Registration

namespace Epoll

/-- `EPOLL_CTL_ADD`; `none` is the failure `EEXIST`. -/
def ctlAdd (e : Epoll) (fd : Fd) (events : UInt32) : Option Epoll :=
  match e fd with
  | some _ => none
  | none => some (Function.update e fd (some ⟨events, true⟩))

/-- `EPOLL_CTL_MOD`; without a registration it fails (`ENOENT`) and changes
    nothing. -/
def ctlMod (e : Epoll) (fd : Fd) (events : UInt32) : Epoll :=
  match e fd with
  | some _ => Function.update e fd (some ⟨events, true⟩)
  -- `ENOENT`; `wait_event` does not look at the result
  | none => e

/-- `EPOLL_CTL_DEL`, and what closing the last descriptor does. -/
def ctlDel (e : Epoll) (fd : Fd) : Epoll := Function.update e fd none

/-- An event of `fd` is handed out by `epoll_wait`. -/
def deliver (e : Epoll) (fd : Fd) : Epoll :=
  match e fd with
  | some r =>
      if r.events &&& EPOLLONESHOT = 0 then e
      else Function.update e fd (some { r with armed := false })
  -- without a registration `epoll_wait` reports nothing of `fd`
  | none => e

end Epoll

/-! ## The scheduler -/

/-- `class Scheduler`, with the heap its `Coroutine *` point into: `coros` are
    the objects, `allocs` counts the calls of `new Coroutine`, `deletes` lists
    the pointers given to `delete`. -/
structure Scheduler (τ : Type u) (α : Type v) where
  coros : CoroPtr → Coroutine τ α
  allocs : Nat
  deletes : List CoroPtr
  runningCoro : Option CoroPtr
  nextId : UInt64
  readyQueue : List CoroPtr
  waitingMap : AList (fun _ : Fd => CoroPtr)
  timerHeap : List TimerEntry
  epoll : Epoll
  pipeReadFd : Fd
  postQueue : List τ

end CoroutineHttp.Core
