/-
  CoroutineHttp.Core.Scheduler

  The operations of `core/coroutine.cpp` on one scheduler, and `Channel::send`
  and `Channel::recv` of `core/coroutine.h`.

  Each operation that ends in `swapcontext(&cur->ctx, &main_ctx)` is modelled up
  to that call: it saves where the coroutine is suspended and gives up
  `running_coro`.  What the operation still does when the coroutine is switched
  to again is in `resumed`.
-/

import CoroutineHttp.Core.Coroutine

namespace CoroutineHttp.Core

open CoroutineHttp.Library

universe u v

variable {τ : Type u} {α : Type v}

namespace Scheduler

/-- `co->state = st`. -/
def setState (s : Scheduler τ α) (p : CoroPtr) (st : State) : Scheduler τ α :=
  { s with coros := Function.update s.coros p { s.coros p with state := st } }

/-- Save the context of `p`: it will resume at `c`. -/
def saveCtx (s : Scheduler τ α) (p : CoroPtr) (c : Ctx α) : Scheduler τ α :=
  { s with coros := Function.update s.coros p { s.coros p with ctx := c } }

/-- `ready_queue.push_back(p)` after `p->state = State::READY`. -/
def makeReady (s : Scheduler τ α) (p : CoroPtr) : Scheduler τ α :=
  { s.setState p .ready with readyQueue := s.readyQueue ++ [p] }

/-- The common end of every blocking call: the coroutine keeps its context,
    `running_coro` is reset, and control goes back to `run`. -/
def swapOut (s : Scheduler τ α) (p : CoroPtr) (c : Ctx α) : Scheduler τ α :=
  { s.saveCtx p c with runningCoro := none }

/-- `Scheduler::create`. -/
def create (s : Scheduler τ α) (f : τ) : Scheduler τ α :=
  { s with
    -- `allocs` is the address `new` returns; `next_id++` wraps like `uint64_t`
    coros := Function.update s.coros s.allocs ⟨.entry, f, .ready, s.nextId⟩
    allocs := s.allocs + 1
    nextId := s.nextId + 1
    readyQueue := s.readyQueue ++ [s.allocs] }

/-- `Scheduler::yield`. -/
def yield (s : Scheduler τ α) : Scheduler τ α :=
  match s.runningCoro with
  -- `if (!running_coro) return;`
  | none => s
  | some cur => (s.makeReady cur).swapOut cur .inYield

/-- The registration half of `Scheduler::wait_event`: `MOD` when the map already
    holds a waiter for `fd`, else `ADD`, falling back to `MOD` on `EEXIST`. -/
def registerFd (s : Scheduler τ α) (fd : Fd) (events : UInt32) : Epoll :=
  let ev := events ||| EPOLLONESHOT ||| EPOLLET
  -- the map is asked, not the kernel: a waiter of another coroutine on `fd` is replaced
  if (s.waitingMap.lookup fd).isSome then s.epoll.ctlMod fd ev
  else
    match s.epoll.ctlAdd fd ev with
    | some e => e
    -- `EEXIST`: registered, but with no waiter in the map
    | none => s.epoll.ctlMod fd ev

/-- `Scheduler::wait_event`, up to the switch. -/
def waitEvent (s : Scheduler τ α) (fd : Fd) (events : UInt32) : Scheduler τ α :=
  match s.runningCoro with
  -- `if (!running_coro) return 0;`: the caller goes on without waiting
  | none => s
  | some cur =>
      { (s.setState cur .waiting).swapOut cur (.inWaitEvent fd events) with
        epoll := s.registerFd fd events
        -- `waiting_map[fd] = cur` forgets whoever waited for `fd` before
        waitingMap := s.waitingMap.insert fd cur }

/-! ## Timers -/

section Timers

variable (H : StdHeap timerAfter)

/-- `Scheduler::push_timer`. -/
def pushTimer (s : Scheduler τ α) (entry : TimerEntry) : Scheduler τ α :=
  { s with timerHeap := H.pushHeap (s.timerHeap ++ [entry]) }

/-- `Scheduler::pop_timer`: the heap without its back, and the back. -/
def popTimer (heap : List TimerEntry) : List TimerEntry × Option TimerEntry :=
  ((H.popHeap heap).dropLast, (H.popHeap heap).getLast?)

theorem popTimer_length {heap : List TimerEntry} (h : heap ≠ []) :
    (popTimer H heap).1.length < heap.length := by
  have hpos : 0 < heap.length := List.length_pos_of_ne_nil h
  simp only [popTimer, List.length_dropLast, H.pop_length]
  omega

/-- `Scheduler::sleep` at clock reading `now`, up to the switch. -/
def sleep (s : Scheduler τ α) (now ms : Int64) : Scheduler τ α :=
  match s.runningCoro with
  | none => s
  | some cur =>
      -- no timer: the coroutine stays ready
      if ms ≤ 0 then s.yield
      else ((s.setState cur .waiting).pushTimer H ⟨now + ms, cur⟩).swapOut cur .inSleep

/-- `Scheduler::fire_timers` at clock reading `now`; the number of fired entries
    comes with the state. -/
def fireTimers (s : Scheduler τ α) (now : Int64) : Scheduler τ α × Nat :=
  match _h : s.timerHeap with
  | [] => (s, 0)
  | front :: _ =>
      if front.expireMs ≤ now then
        let popped := popTimer H s.timerHeap
        match popped.2 with
        -- a heap that is not empty has a back (`pop_length`)
        | none => (s, 0)
        | some e =>
            let r := fireTimers ({ s with timerHeap := popped.1 }.makeReady e.co) now
            (r.1, r.2 + 1)
      else (s, 0)
termination_by s.timerHeap.length
decreasing_by exact popTimer_length H (by simp [_h])

/-- `Scheduler::next_timeout_ms` at clock reading `now`. -/
def nextTimeoutMs (s : Scheduler τ α) (now : Int64) : Int32 :=
  match s.timerHeap with
  | [] => -1
  | front :: _ =>
      let diff := front.expireMs - now
      -- `static_cast<int>` keeps the low 32 bits
      (if 0 < diff then diff else 0).toInt32

/-- The timeout `run` hands to `epoll_wait`. -/
def epollTimeout (s : Scheduler τ α) (now : Int64) : Int32 :=
  let timeout := s.nextTimeoutMs now
  -- no timer, or a difference the cast has made negative
  if timeout < 0 then 50 else timeout

/-- A delay that is not positive only yields. -/
theorem sleep_nonpos (s : Scheduler τ α) (now : Int64) {ms : Int64} (hms : ms ≤ 0) :
    s.sleep H now ms = s.yield := by
  cases hrun : s.runningCoro <;> simp [sleep, yield, hrun, hms]

theorem sleep_pos {s : Scheduler τ α} {p : CoroPtr} (hrun : s.runningCoro = some p) (now : Int64)
    {ms : Int64} (hms : 0 < ms) :
    s.sleep H now ms
      = ((s.setState p .waiting).pushTimer H ⟨now + ms, p⟩).swapOut p .inSleep := by
  simp only [sleep, hrun, if_neg (Int64.not_le.mpr hms)]

@[simp] theorem fireTimers_empty {s : Scheduler τ α} (h : s.timerHeap = []) (now : Int64) :
    s.fireTimers H now = (s, 0) := by
  unfold fireTimers
  split
  · rfl
  next hs => simp [h] at hs

/-- What holds of the scheduler whatever heap it has and however many of its
    coroutines are made ready, `fire_timers` keeps. -/
theorem fireTimers_keeps {P : Scheduler τ α → Prop} {now : Int64}
    (hstep : ∀ (s : Scheduler τ α) (heap : List TimerEntry) (p : CoroPtr),
      P s → P ({ s with timerHeap := heap }.makeReady p))
    (s : Scheduler τ α) (h0 : P s) : P (s.fireTimers H now).1 := by
  fun_induction fireTimers H s now with
  | case1 s hs => exact h0
  | case2 s front rest hs hdue popped hnone => exact h0
  | case3 s front rest hs hdue popped e he r ih => exact ih (hstep s _ _ h0)
  | case4 s front rest hs hdue => exact h0

/-- On a heap `pop_timer` yields its front, and what is left is a heap. -/
theorem popTimer_cons {front : TimerEntry} {rest : List TimerEntry}
    (h : IsHeap timerAfter (front :: rest)) :
    ∃ rest', popTimer H (front :: rest) = (rest', some front) ∧ rest'.Perm rest ∧
      IsHeap timerAfter rest' := by
  obtain ⟨rest', hpop, hperm, hheap⟩ := H.pop_spec front rest h
  exact ⟨rest', by simp [popTimer, hpop], hperm, hheap⟩

/-- **Loop rule of `fire_timers`.** A property of the scheduler that taking the
    front off the heap and making its owner ready keeps, holds afterwards if it
    holds, on a heap, before. -/
theorem fireTimers_rule {P : Scheduler τ α → Prop} {now : Int64}
    (hstep : ∀ (s : Scheduler τ α) (front : TimerEntry) (rest rest' : List TimerEntry),
      P s → s.timerHeap = front :: rest → rest'.Perm rest → IsHeap timerAfter rest' →
      front.expireMs ≤ now → P ({ s with timerHeap := rest' }.makeReady front.co))
    (s : Scheduler τ α) (hheap : IsHeap timerAfter s.timerHeap) (h0 : P s) :
    P (s.fireTimers H now).1 ∧ IsHeap timerAfter (s.fireTimers H now).1.timerHeap := by
  fun_induction fireTimers H s now with
  -- empty heap
  | case1 s hs => exact ⟨h0, hheap⟩
  | case2 s front rest hs hdue popped hnone => exact ⟨h0, hheap⟩
  -- the front is due; `ih` is about the scheduler without it
  | case3 s front rest hs hdue popped e he r ih =>
      rw [hs] at hheap
      obtain ⟨rest', hpop, hperm, hrest'⟩ := popTimer_cons H hheap
      have hpopped : popped = (rest', some front) := by rw [← hpop, ← hs]
      obtain rfl : front = e := by simpa [hpopped] using he
      refine ih ?_ ?_
      · simpa [makeReady, setState, hpopped] using hrest'
      · rw [hpopped]
        exact hstep s front rest rest' h0 hs hperm hrest' hdue
  -- the front is not due, so nothing is
  | case4 s front rest hs hdue => exact ⟨h0, hheap⟩

end Timers

/-! ## Resuming -/

/-- What the suspended call does once the coroutine runs again: `wait_event`
    removes its registration; the other calls return. -/
def resumed (s : Scheduler τ α) (p : CoroPtr) : Scheduler τ α :=
  match (s.coros p).ctx with
  | .inWaitEvent fd _ => { s with epoll := s.epoll.ctlDel fd }
  -- `yield`, `sleep`, `send` and `recv` end with their switch
  | _ => s

/-- One iteration of the ready loop of `Scheduler::run` up to the switch. -/
def switchTo (s : Scheduler τ α) (p : CoroPtr) (rest : List CoroPtr) : Scheduler τ α :=
  -- the front is popped before the switch
  ({ s with readyQueue := rest, runningCoro := some p }.setState p .running).resumed p

/-- What `run` does after the switch back: a finished coroutine is deleted. -/
def reap (s : Scheduler τ α) : Scheduler τ α :=
  match s.runningCoro with
  -- the coroutine blocked or yielded: `running_coro` is already null
  | none => s
  | some p =>
      if (s.coros p).state = .done then
        { s with deletes := s.deletes ++ [p], runningCoro := none }
      else { s with runningCoro := none }

/-- The I/O branch of the event loop: wake the waiter of `fd`. -/
def wakeFd (s : Scheduler τ α) (fd : Fd) : Scheduler τ α :=
  match s.waitingMap.lookup fd with
  -- an event without a waiter is dropped
  | none => s
  | some co => { s with waitingMap := s.waitingMap.erase fd }.makeReady co

end Scheduler

/-! ## Channels -/

namespace Channel

/-- `*recv_slot_ = std::move(val)`: write the `result` of the receiver. -/
def writeSlot (s : Scheduler τ α) (slot : Option CoroPtr) (val : α) : Scheduler τ α :=
  match slot with
  -- `recv_waiter_` and `recv_slot_` are set together, so this is not reached
  | none => s
  | some r =>
      match (s.coros r).ctx with
      | .inRecv ch _ => s.saveCtx r (.inRecv ch val)
      -- nor this: the slot is a local of a coroutine inside `recv`
      | _ => s

/-- `Channel::send` called by `self`, up to the switch it ends in. -/
def send (s : Scheduler τ α) (c : Channel α) (ch : ChanId) (self : CoroPtr) (val : α) :
    Scheduler τ α × Channel α :=
  match c.recvWaiter with
  | some r =>
      -- the receiver goes first into the queue, the sender after it
      (((writeSlot s c.recvSlot val).makeReady r).yield,
        { c with recvSlot := none, recvWaiter := none })
  | none =>
      -- there is one `send_val_`: that of an earlier blocked sender is lost
      ((s.setState self .waiting).swapOut self (.inSend ch),
        { c with sendVal := val, sendWaiter := some self })

/-- `Channel::recv` called by `self`.  With a blocked sender it returns its value
    at once; else (`none`) it blocks. -/
def recv [Inhabited α] (s : Scheduler τ α) (c : Channel α) (ch : ChanId) (self : CoroPtr) :
    Scheduler τ α × Channel α × Option α :=
  match c.sendWaiter with
  -- no switch: the receiver goes on with the value
  | some p => (s.makeReady p, { c with sendWaiter := none }, some c.sendVal)
  | none =>
      -- the slot of a receiver that already waits is overwritten
      ((s.setState self .waiting).swapOut self (.inRecv ch default),
        { c with recvWaiter := some self, recvSlot := some self }, none)

end Channel

end CoroutineHttp.Core
