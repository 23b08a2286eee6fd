/-
  CoroutineHttp.Core.Waiting

  `Scheduler::wait_event` against the event loop of `Scheduler::run`: a coroutine
  that waits on a descriptor keeps its entry in `waiting_map` and a registration for
  the event it asked for, until the event loop handles an event of the descriptor.

  `waiting_map` and the epoll instance have one entry for each descriptor, and
  `wait_event` removes the registration when it is resumed.  So the invariant
  (`Waiting`) needs that no two coroutines are in `wait_event` on one descriptor,
  where a coroutine that has been woken but not resumed counts: its removal is still
  to come.  `Unshared` is the condition on a step that keeps this so.
-/

import CoroutineHttp.Core.Placement

namespace CoroutineHttp.Core

open CoroutineHttp.Library

universe u v

variable {τ : Type u} {α : Type v}

/-! ## Waiting on a descriptor -/

/-- The descriptor of the `wait_event` it is saved in. -/
def Ctx.waitFd : Ctx α → Option Fd
  | .inWaitEvent fd _ => some fd
  | _ => none

namespace Scheduler

/-- `p` is suspended in `wait_event(fd, events)` and has not been woken. -/
def Parks (s : Scheduler τ α) (p : CoroPtr) (fd : Fd) (events : UInt32) : Prop :=
  p < s.allocs ∧ (s.coros p).state = .waiting ∧ (s.coros p).ctx = .inWaitEvent fd events

/-- `p` has called `wait_event(fd, ·)` and has not run since. -/
def InWait (s : Scheduler τ α) (p : CoroPtr) (fd : Fd) : Prop :=
  p < s.allocs ∧ ((s.coros p).state = .waiting ∨ (s.coros p).state = .ready) ∧
    ∃ events, (s.coros p).ctx = .inWaitEvent fd events

instance [DecidableEq α] (s : Scheduler τ α) (p : CoroPtr) (fd : Fd) (events : UInt32) :
    Decidable (s.Parks p fd events) :=
  inferInstanceAs (Decidable (p < s.allocs ∧ (s.coros p).state = .waiting ∧
    (s.coros p).ctx = .inWaitEvent fd events))

instance (s : Scheduler τ α) (p : CoroPtr) (fd : Fd) : Decidable (s.InWait p fd) :=
  decidable_of_iff (p < s.allocs ∧ ((s.coros p).state = .waiting ∨ (s.coros p).state = .ready) ∧
      (s.coros p).ctx.waitFd = some fd)
    (and_congr_right' (and_congr_right' (by
      cases (s.coros p).ctx <;> simp [Ctx.waitFd])))

theorem Parks.inWait {s : Scheduler τ α} {p : CoroPtr} {fd : Fd} {events : UInt32}
    (h : s.Parks p fd events) : s.InWait p fd :=
  ⟨h.1, .inl h.2.1, events, h.2.2⟩

theorem parkedOn_iff_parks {s : Scheduler τ α} {p : CoroPtr} {fd : Fd} :
    s.ParkedOn p fd ↔ ∃ events, s.Parks p fd events := by
  simp [ParkedOn, Parks]

/-- No channel has two blocked senders or two blocked receivers. -/
def ExclusiveChannels (s : Scheduler τ α) : Prop :=
  (∀ p q ch, s.BlockedSender p ch → s.BlockedSender q ch → p = q) ∧
    ∀ p q ch, s.BlockedReceiver p ch → s.BlockedReceiver q ch → p = q

/-- From `s` to `s'` no coroutine enters `wait_event`, and what `wait_event` and the
    event loop share stays as it is. -/
structure Aside (s s' : Scheduler τ α) : Prop where
  epoll : s'.epoll = s.epoll
  waitingMap : s'.waitingMap = s.waitingMap
  pipeReadFd : s'.pipeReadFd = s.pipeReadFd
  back : ∀ p fd events, p < s'.allocs → (s'.coros p).ctx = .inWaitEvent fd events →
    p < s.allocs ∧ (s.coros p).ctx = .inWaitEvent fd events ∧
      ((s'.coros p).state = .waiting → (s.coros p).state = .waiting)

namespace Aside

theorem of_same {s s' : Scheduler τ α} (hepoll : s'.epoll = s.epoll)
    (hmap : s'.waitingMap = s.waitingMap) (hpipe : s'.pipeReadFd = s.pipeReadFd)
    (hallocs : s'.allocs = s.allocs) (hcoros : s'.coros = s.coros) : Aside s s' :=
  ⟨hepoll, hmap, hpipe, fun _ _ _ hlt hctx =>
    ⟨hallocs ▸ hlt, hcoros ▸ hctx, fun hst => hcoros ▸ hst⟩⟩

theorem refl (s : Scheduler τ α) : Aside s s := of_same rfl rfl rfl rfl rfl

theorem trans {s s' s'' : Scheduler τ α} (h : Aside s s') (h' : Aside s' s'') :
    Aside s s'' := by
  refine ⟨h'.epoll.trans h.epoll, h'.waitingMap.trans h.waitingMap,
    h'.pipeReadFd.trans h.pipeReadFd, fun p fd events hlt hctx => ?_⟩
  obtain ⟨hlt', hctx', hst'⟩ := h'.back p fd events hlt hctx
  obtain ⟨hlt'', hctx'', hst''⟩ := h.back p fd events hlt' hctx'
  exact ⟨hlt'', hctx'', fun hst => hst'' (hst' hst)⟩

variable (s : Scheduler τ α) (p : CoroPtr)

/-- Any change of state but to `WAITING`. -/
theorem setState {st : State} (hst : st ≠ .waiting) : Aside s (s.setState p st) := by
  refine ⟨rfl, rfl, rfl, fun q fd events hlt hctx => ?_⟩
  by_cases hq : q = p
  · subst hq
    simp only [Scheduler.setState, Function.update_self] at hctx ⊢
    exact ⟨hlt, hctx, fun hw => absurd hw hst⟩
  · simp only [Scheduler.setState, Function.update_of_ne hq] at hctx ⊢
    exact ⟨hlt, hctx, id⟩

/-- A context outside `wait_event` is saved, whatever becomes of the state. -/
theorem suspend {st : State} {c : Ctx α} (hc : ∀ fd events, c ≠ .inWaitEvent fd events) :
    Aside s ((s.setState p st).swapOut p c) := by
  refine ⟨rfl, rfl, rfl, fun q fd events hlt hctx => ?_⟩
  by_cases hq : q = p
  · subst hq
    simp only [swapOut, saveCtx, Function.update_self] at hctx
    exact absurd hctx (hc fd events)
  · simp only [swapOut, saveCtx, Scheduler.setState, Function.update_of_ne hq] at hctx ⊢
    exact ⟨hlt, hctx, id⟩

theorem makeReady : Aside s (s.makeReady p) :=
  (setState s p (by decide)).trans (of_same rfl rfl rfl rfl rfl)

theorem create (f : τ) : Aside s (s.create f) := by
  refine ⟨rfl, rfl, rfl, fun q fd events hlt hctx => ?_⟩
  by_cases hq : q = s.allocs
  · subst hq
    simp [Scheduler.create] at hctx
  · simp only [Scheduler.create, Function.update_of_ne hq] at hctx ⊢
    exact ⟨Nat.lt_of_le_of_ne (Nat.le_of_lt_succ hlt) hq, hctx, id⟩

theorem yield : Aside s s.yield := by
  unfold Scheduler.yield
  split
  · exact refl s
  next cur _ =>
    have hsuspend : Aside s ((s.setState cur .ready).swapOut cur .inYield) :=
      suspend s cur (fun _ _ => by simp)
    exact hsuspend.trans (of_same rfl rfl rfl rfl rfl)

theorem sleep (H : StdHeap timerAfter) (now ms : Int64) : Aside s (s.sleep H now ms) := by
  unfold Scheduler.sleep
  split
  · exact refl s
  next cur _ =>
    split
    · exact yield s
    · have hsuspend : Aside s ((s.setState cur .waiting).swapOut cur .inSleep) :=
        suspend s cur (fun _ _ => by simp)
      exact hsuspend.trans (of_same rfl rfl rfl rfl rfl)

theorem fireTimers (H : StdHeap timerAfter) (now : Int64) :
    Aside s (s.fireTimers H now).1 := by
  apply fireTimers_keeps H _ s (refl s)
  intro s' heap q hs'
  have hheap : Aside s' { s' with timerHeap := heap } := of_same rfl rfl rfl rfl rfl
  exact hs'.trans (hheap.trans (makeReady _ q))

theorem reap : Aside s s.reap := by
  unfold Scheduler.reap
  split
  · exact refl s
  · split <;> exact of_same rfl rfl rfl rfl rfl

theorem writeSlot (slot : Option CoroPtr) (val : α) :
    Aside s (Channel.writeSlot s slot val) := by
  unfold Channel.writeSlot
  split
  · exact refl s
  next r =>
    split
    next ch _ hr =>
      refine ⟨rfl, rfl, rfl, fun q fd events hlt hctx => ?_⟩
      by_cases hq : q = r
      · subst hq
        simp [saveCtx] at hctx
      · simp only [saveCtx, Function.update_of_ne hq] at hctx ⊢
        exact ⟨hlt, hctx, id⟩
    · exact refl s

theorem send (c : Channel α) (ch : ChanId) (val : α) :
    Aside s (Channel.send s c ch p val).1 := by
  unfold Channel.send
  split
  · exact (writeSlot s _ val).trans ((makeReady _ _).trans (yield _))
  · exact suspend s p (fun _ _ => by simp)

theorem recv [Inhabited α] (c : Channel α) (ch : ChanId) :
    Aside s (Channel.recv s c ch p).1 := by
  unfold Channel.recv
  split
  · exact makeReady s _
  · exact suspend s p (fun _ _ => by simp)

end Aside

/-- What becomes of the running coroutine `p` in a step that is not its own call of
    `wait_event`: it is not in `wait_event`. -/
def Elsewhere (s s' : Scheduler τ α) (p : CoroPtr) : Prop :=
  s'.coros p = s.coros p ∨ s'.runningCoro = some p ∨ (s'.coros p).state = .done ∨
    ∀ fd events, (s'.coros p).ctx ≠ .inWaitEvent fd events

section Elsewhere

variable {s : Scheduler τ α} {p : CoroPtr}

theorem elsewhere_yield (hrun : s.runningCoro = some p) : Elsewhere s s.yield p := by
  refine .inr (.inr (.inr fun fd events => ?_))
  simp [Scheduler.yield, hrun, swapOut, saveCtx]

theorem elsewhere_sleep (hrun : s.runningCoro = some p) (H : StdHeap timerAfter)
    (now ms : Int64) : Elsewhere s (s.sleep H now ms) p := by
  by_cases hms : 0 < ms
  · rw [sleep_pos H hrun now hms]
    refine .inr (.inr (.inr fun fd events => ?_))
    simp [swapOut, saveCtx]
  · rw [sleep_nonpos H s now (Int64.not_lt.mp hms)]
    exact elsewhere_yield hrun

theorem elsewhere_fireTimers (hrun : s.runningCoro = some p) (H : StdHeap timerAfter)
    (now : Int64) : Elsewhere s (s.fireTimers H now).1 p := by
  refine .inr (.inl ?_)
  exact fireTimers_keeps H (P := fun s' => s'.runningCoro = some p) (fun _ _ _ h => h) s hrun

theorem elsewhere_send (hrun : s.runningCoro = some p) (c : Channel α) (ch : ChanId)
    (val : α) : Elsewhere s (Channel.send s c ch p val).1 p := by
  refine .inr (.inr (.inr fun fd events => ?_))
  unfold Channel.send
  split
  · have hslot := (writeSlot_running (s := s) c.recvSlot val p).1
    simp [Scheduler.yield, hslot, hrun, makeReady, Scheduler.setState, swapOut, saveCtx]
  · simp [swapOut, saveCtx]

theorem elsewhere_recv [Inhabited α] (hrun : s.runningCoro = some p) (c : Channel α)
    (ch : ChanId) : Elsewhere s (Channel.recv s c ch p).1 p := by
  unfold Channel.recv
  split
  · exact .inr (.inl hrun)
  · refine .inr (.inr (.inr fun fd events => ?_))
    simp [swapOut, saveCtx]

end Elsewhere

/-! ### The operations that concern waiting -/

section Operations

variable {s : Scheduler τ α} {p q : CoroPtr}

theorem waitEvent_self (hrun : s.runningCoro = some p) (fd : Fd) (events : UInt32) :
    ((s.waitEvent fd events).coros p).state = .waiting ∧
      ((s.waitEvent fd events).coros p).ctx = .inWaitEvent fd events := by
  simp [Scheduler.waitEvent, hrun, swapOut, saveCtx, setState]

theorem waitEvent_other (hrun : s.runningCoro = some p) (fd : Fd) (events : UInt32)
    (hq : q ≠ p) : (s.waitEvent fd events).coros q = s.coros q := by
  simp [Scheduler.waitEvent, hrun, swapOut, saveCtx, setState, hq]

theorem waitEvent_frame (s : Scheduler τ α) (fd : Fd) (events : UInt32) :
    (s.waitEvent fd events).allocs = s.allocs ∧
      (s.waitEvent fd events).pipeReadFd = s.pipeReadFd := by
  unfold Scheduler.waitEvent
  split <;> exact ⟨rfl, rfl⟩

/-- The call arms the descriptor and no other, provided it has no entry yet. -/
theorem registerFd_spec {fd : Fd} (hfree : s.waitingMap.lookup fd = none) (events : UInt32) :
    s.registerFd fd events fd = some ⟨events ||| EPOLLONESHOT ||| EPOLLET, true⟩ ∧
      ∀ fd', fd' ≠ fd → s.registerFd fd events fd' = s.epoll fd' := by
  unfold registerFd
  rw [hfree]
  cases hfd : s.epoll fd with
  | none =>
      simp only [Option.isSome_none, Epoll.ctlAdd, hfd]
      exact ⟨Function.update_self .., fun fd' hne => Function.update_of_ne hne _ _⟩
  | some r =>
      simp only [Option.isSome_none, Epoll.ctlAdd, Epoll.ctlMod, hfd]
      exact ⟨Function.update_self .., fun fd' hne => Function.update_of_ne hne _ _⟩

/-- Resuming `p` touches the registration of no descriptor but its own. -/
theorem switchTo_epoll {fd : Fd} (rest : List CoroPtr)
    (hfd : ∀ events, (s.coros p).ctx ≠ .inWaitEvent fd events) :
    (s.switchTo p rest).epoll fd = s.epoll fd := by
  unfold Scheduler.switchTo Scheduler.resumed
  split
  next fd' events hctx =>
    have hne : fd ≠ fd' := by
      rintro rfl
      exact hfd events (by simpa [setState] using hctx)
    exact Function.update_of_ne hne _ _
  next => rfl

/-- Waking makes the waiter of the descriptor ready, and changes no other coroutine. -/
theorem wakeFd_some {fd : Fd} (hlook : s.waitingMap.lookup fd = some p) :
    p ∈ (s.wakeFd fd).readyQueue ∧ ((s.wakeFd fd).coros p).state = .ready ∧
      ((s.wakeFd fd).coros p).ctx = (s.coros p).ctx ∧
      ∀ q, q ≠ p → (s.wakeFd fd).coros q = s.coros q := by
  simp only [wakeFd, hlook, makeReady, setState, Function.update_self]
  refine ⟨?_, trivial, trivial, fun q hq => Function.update_of_ne hq _ _⟩
  exact List.mem_append_right _ (List.mem_singleton_self p)

theorem wakeFd_none {fd : Fd} (hlook : s.waitingMap.lookup fd = none) : s.wakeFd fd = s := by
  simp [wakeFd, hlook]

theorem wakeFd_shared (s : Scheduler τ α) (fd : Fd) :
    (s.wakeFd fd).allocs = s.allocs ∧ (s.wakeFd fd).pipeReadFd = s.pipeReadFd ∧
      (s.wakeFd fd).epoll = s.epoll := by
  unfold Scheduler.wakeFd
  split <;> exact ⟨rfl, rfl, rfl⟩

theorem wakeFd_lookup_ne {fd fd' : Fd} (hne : fd' ≠ fd) :
    (s.wakeFd fd).waitingMap.lookup fd' = s.waitingMap.lookup fd' := by
  unfold Scheduler.wakeFd
  split
  · rfl
  · exact AList.lookup_erase_ne hne

end Operations

end Scheduler

/-! ## The steps that concern waiting -/

/-- The events the last `epoll_wait` returned that the loop has still to handle. -/
def RunPc.batch : RunPc τ → List Fd
  | .events evs | .readPipe evs | .swapQueue evs | .drain _ evs => evs
  | _ => []

namespace Machine

open Scheduler

/-- The steps as far as waiting is concerned. -/
inductive WaitStepped (m : Machine τ α) : Act τ α → Machine τ α → Prop where
  | aside (a : Act τ α) {m' : Machine τ α} (h : m.sched.Aside m'.sched)
      (hbatch : m'.pc.batch = m.pc.batch)
      (helse : ∀ p, m.sched.runningCoro = some p → m.sched.Elsewhere m'.sched p) :
      WaitStepped m a m'
  | waitEvent (self : CoroPtr) (fd : Fd) (events : UInt32) (hpc : m.pc = .coroutine)
      (hself : m.sched.runningCoro = some self) :
      WaitStepped m (.waitEvent fd events) (m.goto (m.sched.waitEvent fd events) .switched)
  | resume (p : CoroPtr) (rest : List CoroPtr) (hpc : m.pc = .readyLoop)
      (hq : m.sched.readyQueue = p :: rest) :
      WaitStepped m .readyLoop (m.goto (m.sched.switchTo p rest) .coroutine)
  | closeFd (fd : Fd) (hpc : m.pc = .coroutine) :
      WaitStepped m (.closeFd fd)
        (m.goto { m.sched with epoll := m.sched.epoll.ctlDel fd } .coroutine)
  | deliver (evs : List Fd) (hpc : m.pc = .polling) :
      WaitStepped m (.epollWait evs)
        (m.goto { m.sched with epoll := evs.foldl Epoll.deliver m.sched.epoll } (.events evs))
  | pipe (fd : Fd) (evs : List Fd) (hpc : m.pc = .events (fd :: evs))
      (hfd : fd = m.sched.pipeReadFd) :
      WaitStepped m .event (m.goto m.sched (.readPipe evs))
  | wake (fd : Fd) (evs : List Fd) (hpc : m.pc = .events (fd :: evs))
      (hfd : fd ≠ m.sched.pipeReadFd) :
      WaitStepped m .event (m.goto (m.sched.wakeFd fd) (.events evs))

theorem Stepped.wait [Inhabited α] {H : StdHeap timerAfter} {m m' : Machine τ α}
    {a : Act τ α} (hs : Stepped H m a m') : WaitStepped m a m' := by
  cases hs with
  | waitEvent self fd events hpc hself => exact .waitEvent self fd events hpc hself
  | readyNext p rest hpc hq => exact .resume p rest hpc hq
  | closeFd self fd hpc _ => exact .closeFd fd hpc
  | epollWait evs hpc => exact .deliver evs hpc
  | eventPipe fd evs hpc hfd => exact .pipe fd evs hpc hfd
  | eventWake fd evs hpc hfd => exact .wake fd evs hpc hfd
  -- the other steps touch neither registrations nor the map
  | run hpc | readyEmpty hpc _ | pipeEmpty evs hpc _ | drainDone evs hpc =>
      exact .aside _ (.refl _) (by rw [hpc]; rfl) fun _ _ => .inl rfl
  | epollFail eintr hpc =>
      exact .aside _ (.refl _) (by cases eintr <;> (rw [hpc]; rfl)) fun _ _ => .inl rfl
  | pipeRead evs hpc _ => exact .aside _ (.refl _) rfl fun _ _ => .inl rfl
  | swapQueue evs hpc =>
      exact .aside _ (.of_same rfl rfl rfl rfl rfl) (by rw [hpc]; rfl) fun _ _ => .inl rfl
  | postAppend t f _ | postWrite t _ =>
      exact .aside _ (.of_same rfl rfl rfl rfl rfl) rfl fun _ _ => .inl rfl
  | createMain f hpc | create self f hpc _ | drainNext f fs evs hpc =>
      exact .aside _ (.create _ f) (by rw [hpc]; rfl) fun _ hp => .inr (.inl hp)
  -- and leave whoever ran somewhere else than in `wait_event`
  | yield self hpc hself =>
      exact .aside _ (.yield _) (by rw [hpc]; rfl) fun _ hp => elsewhere_yield hp
  | sleep self now ms hpc hself =>
      exact .aside _ (.sleep _ H now ms) (by rw [hpc]; rfl)
        fun _ hp => elsewhere_sleep hp H now ms
  | send self ch val hpc hself =>
      refine .aside _ (.send _ self _ ch val) (by rw [hpc]; rfl) fun p hp => ?_
      obtain rfl : self = p := Option.some.inj (hself.symm.trans hp)
      exact elsewhere_send hp _ ch val
  | recv self ch hpc hself =>
      refine .aside _ (.recv _ self _ ch) ?_ fun p hp => ?_
      · rw [hpc]
        simp only [goto]
        split <;> rfl
      · obtain rfl : self = p := Option.some.inj (hself.symm.trans hp)
        exact elsewhere_recv hp _ ch
  | finish self hpc hself =>
      refine .aside _ (.setState _ self (by decide)) (by rw [hpc]; rfl) fun p hp => ?_
      obtain rfl : self = p := Option.some.inj (hself.symm.trans hp)
      exact .inr (.inr (.inl (by simp [goto, setState])))
  | reap hpc => exact .aside _ (.reap _) (by rw [hpc]; rfl) fun _ _ => .inl (by
      rw [show (m.goto m.sched.reap .readyLoop).sched = m.sched.reap from rfl]
      rw [(reap_frame m.sched).1])
  | fireTimers now hpc =>
      refine .aside _ (.fireTimers _ H now) ?_ fun _ hp => elsewhere_fireTimers hp H now
      rw [hpc]
      simp only [goto]
      split <;> rfl
  | lastTimers now hpc =>
      exact .aside _ (.fireTimers _ H now) (by rw [hpc]; rfl)
        fun _ hp => elsewhere_fireTimers hp H now

section Back

variable {m m' : Machine τ α} {a : Act τ α} {p : CoroPtr} {fd : Fd}

/-- A coroutine in `wait_event` that has not been resumed by the step was there before,
    or has just called it. -/
theorem WaitStepped.back {events : UInt32} (hs : WaitStepped m a m')
    (hlt : p < m'.sched.allocs) (hst : (m'.sched.coros p).state ≠ .running)
    (hctx : (m'.sched.coros p).ctx = .inWaitEvent fd events) :
    (p < m.sched.allocs ∧ (m.sched.coros p).ctx = .inWaitEvent fd events ∧
        ((m'.sched.coros p).state = .waiting → (m.sched.coros p).state = .waiting)) ∨
      (a = .waitEvent fd events ∧ m.sched.runningCoro = some p ∧
        m' = m.goto (m.sched.waitEvent fd events) .switched) := by
  cases hs with
  | aside _ h hbatch helse => exact .inl (h.back p fd events hlt hctx)
  | waitEvent self fd' events' hpc hself =>
      simp only [goto] at hlt hctx ⊢
      rw [(waitEvent_frame m.sched fd' events').1] at hlt
      by_cases hq : p = self
      · subst hq
        rw [(waitEvent_self hself fd' events').2] at hctx
        cases hctx
        exact .inr ⟨rfl, hself, rfl⟩
      · rw [waitEvent_other hself fd' events' hq] at hctx ⊢
        exact .inl ⟨hlt, hctx, id⟩
  | resume q rest hpc hq =>
      simp only [goto] at hlt hst hctx ⊢
      rw [(switchTo_shared m.sched q rest).2.1] at hlt
      -- the resumed coroutine is running
      have hpq : p ≠ q := by
        rintro rfl
        exact hst (switchTo_frame m.sched p rest).2.2.2
      rw [switchTo_other rest hpq] at hctx ⊢
      exact .inl ⟨hlt, hctx, id⟩
  | closeFd fd' hpc | deliver evs hpc | pipe fd' evs hpc hfd => exact .inl ⟨hlt, hctx, id⟩
  | wake fd' evs hpc hfd =>
      simp only [goto] at hlt hctx ⊢
      rw [(wakeFd_shared m.sched fd').1] at hlt
      cases hlook : m.sched.waitingMap.lookup fd' with
      | none =>
          rw [wakeFd_none hlook] at hctx ⊢
          exact .inl ⟨hlt, hctx, id⟩
      | some co =>
          obtain ⟨-, hready, hctx', hother⟩ := wakeFd_some hlook
          by_cases hpq : p = co
          · subst hpq
            -- woken, so it is parked no more
            refine .inl ⟨hlt, hctx'.symm.trans hctx, fun hw => ?_⟩
            rw [hready] at hw
            cases hw
          · rw [hother p hpq] at hctx ⊢
            exact .inl ⟨hlt, hctx, id⟩

/-- A coroutine is parked by its own call of `wait_event` only. -/
theorem WaitStepped.parks_back {events : UInt32} (hs : WaitStepped m a m')
    (hp : m'.sched.Parks p fd events) :
    m.sched.Parks p fd events ∨
      (a = .waitEvent fd events ∧ m.sched.runningCoro = some p ∧
        m' = m.goto (m.sched.waitEvent fd events) .switched) := by
  obtain ⟨hlt, hst, hctx⟩ := hp
  have hnot : (m'.sched.coros p).state ≠ .running := by simp [hst]
  exact (hs.back hlt hnot hctx).imp_left fun ⟨hlt', hctx', hback⟩ => ⟨hlt', hback hst, hctx'⟩

/-- `running_coro` runs or has just finished. -/
theorem Placed.running_state (hI : Placed m) (hp : m.sched.runningCoro = some p) :
    (m.sched.coros p).state = .running ∨ (m.sched.coros p).state = .done := by
  by_cases hpc : m.pc = .switched
  · have hrunning := hI.running
    rw [hpc] at hrunning
    exact .inr (hrunning p hp)
  · exact .inl (hI.running_live hpc hp)

theorem Placed.not_inWait_running (hI : Placed m) (hp : m.sched.runningCoro = some p) :
    ¬ m.sched.InWait p fd := by
  rintro ⟨-, hst, -⟩
  rcases hI.running_state hp with hst' | hst' <;> simp [hst'] at hst

/-- The running coroutine is not woken. -/
theorem Placed.running_elsewhere (hI : Placed m) (hs : WaitStepped m a m')
    (hself : m.sched.runningCoro = some p) :
    m.sched.Elsewhere m'.sched p ∨ (m'.sched.coros p).state = .waiting := by
  cases hs with
  | aside _ h hbatch helse => exact .inl (helse p hself)
  | waitEvent self fd' events' hpc hself' =>
      obtain rfl : p = self := Option.some.inj (hself.symm.trans hself')
      exact .inr (waitEvent_self hself fd' events').1
  | resume q rest hpc hq =>
      by_cases hpq : p = q
      · subst hpq
        exact .inl (.inr (.inl (switchTo_frame m.sched p rest).2.2.1))
      · exact .inl (.inl (switchTo_other rest hpq))
  | closeFd fd' hpc | deliver evs hpc | pipe fd' evs hpc hfd => exact .inl (.inl rfl)
  | wake fd' evs hpc hfd =>
      refine .inl (.inl ?_)
      cases hlook : m.sched.waitingMap.lookup fd' with
      | none => exact congrFun (congrArg Scheduler.coros (wakeFd_none hlook)) p
      | some co =>
          refine (wakeFd_some hlook).2.2.2 p ?_
          rintro rfl
          -- the waiter in the map is parked
          have hparked : m.sched.ParkedOn p fd' :=
            parkedOn_iff_homeOf.mpr (hI.exact.home_of_count _ (by simp [occurrences, hlook]))
          rcases hI.running_state hself with hst | hst <;> simp [hparked.2.1] at hst

/-- A coroutine gets into `wait_event` by its own call only. -/
theorem Placed.inWait_back (hI : Placed m) (hI' : Placed m')
    (hlater : m.sched.Later m'.sched) (hs : WaitStepped m a m') (hp : m'.sched.InWait p fd) :
    m.sched.InWait p fd ∨
      ∃ events, a = .waitEvent fd events ∧ m.sched.runningCoro = some p := by
  obtain ⟨hlt, hst, events, hctx⟩ := hp
  have hnot : (m'.sched.coros p).state ≠ .running := by
    rcases hst with hst | hst <;> simp [hst]
  rcases hs.back hlt hnot hctx with ⟨hlt', hctx', hback⟩ | ⟨rfl, hself, -⟩
  · refine .inl ⟨hlt', ?_, events, hctx'⟩
    rcases hst with hst | hst
    · exact .inl (hback hst)
    -- ready in `wait_event` now, so ready there or waiting before
    · cases hold : (m.sched.coros p).state with
      | waiting => exact .inl rfl
      | ready => exact .inr rfl
      | done =>
          have hdone := (hlater.finished p ⟨hlt', hold⟩).2
          simp [hdone] at hst
      | running =>
          have hhome : m.sched.homeOf p = some .runningCoro := by simp [homeOf, hlt', hold]
          have hself : m.sched.runningCoro = some p := by
            simpa [occurrences] using hI.exact.count_eq hhome .runningCoro
          -- the running coroutine does not get into `wait_event` by being woken
          exfalso
          rcases hI.running_elsewhere hs hself with (hsame | hself' | hdone | hctx'') | hwait
          · simp [hsame, hold] at hst
          · exact hI'.not_inWait_running hself' ⟨hlt, .inr hst, events, hctx⟩
          · simp [hdone] at hst
          · exact hctx'' fd events hctx
          · simp [hwait] at hst
  · exact .inr ⟨events, rfl, hself⟩

/-- Who is in the map is parked. -/
theorem Tidy.parks_of_lookup (hI : Tidy m) (h : m.sched.waitingMap.lookup fd = some p) :
    ∃ events, m.sched.Parks p fd events :=
  parkedOn_iff_parks.mp
    (parkedOn_iff_homeOf.mpr (hI.once.home_of_count _ (by simp [occurrences, h])))

/-- What becomes of a coroutine that is parked and in the map. -/
theorem Tidy.stays {events : UInt32} (hI : Tidy m) (hI' : Tidy m') (hs : WaitStepped m a m')
    (hp : m.sched.Parks p fd events) (hlook : m.sched.waitingMap.lookup fd = some p) :
    m'.sched.Parks p fd events ∨
      ((∃ evs, m.pc = .events (fd :: evs)) ∧ a = .event ∧ p ∈ m'.sched.readyQueue ∧
        (m'.sched.coros p).state = .ready) := by
  have hocc : m.sched.occurrences m.chans (.waitingMap fd) p ≠ 0 := by simp [occurrences, hlook]
  cases hs with
  | aside _ h _ _ =>
      -- the map still holds `p`, so `p` is parked, and by its old call
      have hlook' : m'.sched.waitingMap.lookup fd = some p := by
        rw [h.waitingMap]
        exact hlook
      obtain ⟨events', hp'⟩ := hI'.parks_of_lookup hlook'
      obtain ⟨-, hctx, -⟩ := h.back p fd events' hp'.1 hp'.2.2
      rw [hp.2.2] at hctx
      cases hctx
      exact .inl hp'
  | waitEvent self fd' events' hpc hself =>
      have hne : p ≠ self := hI.once.ne_running hself hocc (by simp)
      refine .inl ?_
      simp only [goto]
      rw [Parks, waitEvent_other hself fd' events' hne, (waitEvent_frame m.sched fd' events').1]
      exact hp
  | resume q rest hpc hq =>
      have hready : m.sched.occurrences m.chans .readyQueue q ≠ 0 := by simp [occurrences, hq]
      have hne : p ≠ q := hI.once.ne_of_place hocc hready (by simp)
      refine .inl ?_
      simp only [goto]
      rw [Parks, switchTo_other rest hne, (switchTo_shared m.sched q rest).2.1]
      exact hp
  | closeFd fd' hpc | deliver evs hpc | pipe fd' evs hpc hfd => exact .inl hp
  | wake fd' evs hpc hfd =>
      by_cases heq : fd = fd'
      · subst heq
        obtain ⟨hmem, hready, -, -⟩ := wakeFd_some hlook
        exact .inr ⟨⟨evs, hpc⟩, rfl, hmem, hready⟩
      · refine .inl ?_
        simp only [goto]
        rw [Parks, (wakeFd_shared m.sched fd').1]
        cases hlook' : m.sched.waitingMap.lookup fd' with
        | none =>
            rw [wakeFd_none hlook']
            exact hp
        | some co =>
            -- whoever is woken is parked on `fd'`
            have hne : p ≠ co := by
              rintro rfl
              obtain ⟨events', hp'⟩ := hI.parks_of_lookup hlook'
              have hctx := hp.2.2
              rw [hp'.2.2] at hctx
              cases hctx
              exact heq rfl
            rw [(wakeFd_some hlook').2.2.2 p hne]
            exact hp

end Back

/-! ## The invariant -/

/-- The condition on a step: a coroutine calls `wait_event` on a descriptor, or closes
    it, only while no other coroutine is in `wait_event` on it.  The pipe belongs to
    the scheduler. -/
def Unshared (m : Machine τ α) : Act τ α → Prop
  | .waitEvent fd _ => fd ≠ m.sched.pipeReadFd ∧ ∀ q, ¬ m.sched.InWait q fd
  | .closeFd fd => ∀ q, ¬ m.sched.InWait q fd
  | _ => True

/-- The kernel will report `events` of `fd`, or has just reported an event of it. -/
def Watched (m : Machine τ α) (fd : Fd) (events : UInt32) : Prop :=
  m.sched.epoll fd = some ⟨events ||| EPOLLONESHOT ||| EPOLLET, true⟩ ∨ fd ∈ m.pc.batch

/-- Nobody is lost in `wait_event`. -/
structure Waiting (m : Machine τ α) : Prop where
  placed : Placed m
  sole : ∀ p q fd, m.sched.InWait p fd → m.sched.InWait q fd → p = q
  notPipe : ∀ p fd, m.sched.InWait p fd → fd ≠ m.sched.pipeReadFd
  watched : ∀ p fd events, m.sched.Parks p fd events → m.Watched fd events

theorem waiting_init [Inhabited α] (pipeReadFd : Fd) (pipeCap : ℕ+) (junk : Coroutine τ α) :
    Waiting (init pipeReadFd pipeCap junk) where
  placed := placed_init pipeReadFd pipeCap junk
  sole _ _ _ hp := absurd hp.1 (Nat.not_lt_zero _)
  notPipe _ _ hp := absurd hp.1 (Nat.not_lt_zero _)
  watched _ _ _ hp := absurd hp.1 (Nat.not_lt_zero _)

section Invariant

variable {m m' : Machine τ α} {a : Act τ α} {p : CoroPtr} {fd : Fd} {events : UInt32}

theorem Waiting.lookup (hI : Waiting m) (hp : m.sched.Parks p fd events) :
    m.sched.waitingMap.lookup fd = some p := by
  have hhome := parkedOn_iff_homeOf.mp (parkedOn_iff_parks.mpr ⟨events, hp⟩)
  simpa [occurrences] using hI.placed.exact.count_eq hhome (.waitingMap fd)

theorem Waiting.lookup_free (hI : Waiting m) (h : ∀ q, ¬ m.sched.InWait q fd) :
    m.sched.waitingMap.lookup fd = none := by
  by_contra hsome
  obtain ⟨q, hq⟩ := Option.ne_none_iff_exists'.mp hsome
  obtain ⟨events, hq⟩ := hI.placed.tidy.parks_of_lookup hq
  exact h q hq.inWait

/-- Under the condition no two coroutines come to wait for one descriptor. -/
theorem Waiting.exclusive_fd (hI : Waiting m) (hs : WaitStepped m a m') (hun : m.Unshared a)
    (p q : CoroPtr) (fd : Fd) (hp : m'.sched.ParkedOn p fd) (hq : m'.sched.ParkedOn q fd) :
    p = q := by
  obtain ⟨ev, hp⟩ := parkedOn_iff_parks.mp hp
  obtain ⟨ev', hq⟩ := parkedOn_iff_parks.mp hq
  -- only one of the two can be the caller, and then the other was there before
  rcases hs.parks_back hp with hp | ⟨rfl, hself, -⟩
  · rcases hs.parks_back hq with hq | ⟨rfl, -, -⟩
    · exact hI.sole p q fd hp.inWait hq.inWait
    · exact absurd hp.inWait (hun.2 p)
  · rcases hs.parks_back hq with hq | ⟨-, hself', -⟩
    · exact absurd hq.inWait (hun.2 q)
    · exact Option.some.inj (hself.symm.trans hself')

theorem Waiting.sole_step (hI : Waiting m) (hI' : Placed m') (hlater : m.sched.Later m'.sched)
    (hs : WaitStepped m a m') (hun : m.Unshared a) (p q : CoroPtr) (fd : Fd)
    (hp : m'.sched.InWait p fd) (hq : m'.sched.InWait q fd) : p = q := by
  rcases hI.placed.inWait_back hI' hlater hs hp with hp | ⟨ev, rfl, hself⟩
  · rcases hI.placed.inWait_back hI' hlater hs hq with hq | ⟨ev, rfl, -⟩
    · exact hI.sole p q fd hp hq
    · exact absurd hp (hun.2 p)
  · rcases hI.placed.inWait_back hI' hlater hs hq with hq | ⟨-, -, hself'⟩
    · exact absurd hq (hun.2 q)
    · exact Option.some.inj (hself.symm.trans hself')

theorem WaitStepped.pipeReadFd_eq (hs : WaitStepped m a m') :
    m'.sched.pipeReadFd = m.sched.pipeReadFd := by
  cases hs with
  | aside _ h _ _ => exact h.pipeReadFd
  | waitEvent self fd events _ _ => exact (waitEvent_frame m.sched fd events).2
  | resume p rest _ _ => exact (switchTo_shared m.sched p rest).2.2.1
  | closeFd fd _ | deliver evs _ | pipe fd evs _ _ => rfl
  | wake fd evs _ _ => exact (wakeFd_shared m.sched fd).2.1

/-- A delivery disarms no other descriptor. -/
theorem deliver_ne (e : Epoll) {fd fd' : Fd} (hne : fd ≠ fd') : e.deliver fd' fd = e fd := by
  unfold Epoll.deliver
  cases e fd' with
  | none => rfl
  | some r =>
      dsimp only
      split
      · rfl
      · exact Function.update_of_ne hne _ _

theorem deliver_not_mem {fd : Fd} {evs : List Fd} (h : fd ∉ evs) (e : Epoll) :
    evs.foldl Epoll.deliver e fd = e fd := by
  -- on the events reported
  induction evs generalizing e with
  | nil => rfl
  | cons fd' evs ih =>
      rw [List.foldl_cons, ih (List.not_mem_of_not_mem_cons h)]
      exact deliver_ne e (List.ne_of_not_mem_cons h)

theorem Waiting.watched_step (hI : Waiting m) (hs : WaitStepped m a m')
    (hun : m.Unshared a) (hp : m'.sched.Parks p fd events) : m'.Watched fd events := by
  -- parked before: the registration was there and survives; or just registered
  rcases hs.parks_back hp with hold | ⟨rfl, hself, rfl⟩
  · have hwatched := hI.watched p fd events hold
    cases hs with
    | aside _ h hbatch _ => simpa only [Watched, h.epoll, hbatch] using hwatched
    | waitEvent self fd' events' hpc hself =>
        have hne : fd ≠ fd' := by
          rintro rfl
          exact hun.2 p hold.inWait
        have hfree := hI.lookup_free hun.2
        have hbatch : fd ∉ m.pc.batch := by simp [hpc, RunPc.batch]
        refine .inl ?_
        rw [show (m.goto (m.sched.waitEvent fd' events') .switched).sched.epoll fd
            = m.sched.registerFd fd' events' fd by simp [goto, Scheduler.waitEvent, hself],
          (registerFd_spec hfree events').2 fd hne]
        exact hwatched.resolve_right hbatch
    | resume q rest hpc hq =>
        have hbatch : fd ∉ m.pc.batch := by simp [hpc, RunPc.batch]
        refine .inl ((switchTo_epoll rest ?_).trans (hwatched.resolve_right hbatch))
        -- the woken coroutine would share the descriptor with `p`
        intro ev hctx
        have hready : m.sched.homeOf q = some .readyQueue :=
          hI.placed.exact.home_of_count _ (by simp [occurrences, hq])
        have hlt := lt_of_homeOf hready
        have hst : (m.sched.coros q).state = .ready := by
          refine Live.state_eq ⟨hlt, ?_⟩ hready
          exact not_done_of_homeOf hready (by decide)
        have hpq := hI.sole p q fd hold.inWait ⟨hlt, .inr hst, ev, hctx⟩
        subst hpq
        rw [hold.2.1] at hst
        cases hst
    | closeFd fd' hpc =>
        have hne : fd ≠ fd' := by
          rintro rfl
          exact hun p hold.inWait
        have hbatch : fd ∉ m.pc.batch := by simp [hpc, RunPc.batch]
        exact .inl ((Function.update_of_ne hne _ _).trans (hwatched.resolve_right hbatch))
    -- reported, the event is in the batch; else nothing is disarmed
    | deliver evs hpc =>
        have hbatch : fd ∉ m.pc.batch := by simp [hpc, RunPc.batch]
        by_cases hmem : fd ∈ evs
        · exact .inr hmem
        · exact .inl ((deliver_not_mem hmem _).trans (hwatched.resolve_right hbatch))
    | pipe fd' evs hpc hfd =>
        have hne : fd ≠ fd' := hfd ▸ hI.notPipe p fd hold.inWait
        refine hwatched.imp_right fun hmem => ?_
        rw [hpc] at hmem
        exact (List.mem_cons.mp hmem).resolve_left hne
    | wake fd' evs hpc hfd =>
        have hne : fd ≠ fd' := by
          -- the waiter of the handled descriptor is parked no more
          rintro rfl
          obtain ⟨-, hready, -, -⟩ := wakeFd_some (hI.lookup hold)
          have hst := hp.2.1
          simp only [goto] at hst
          rw [hready] at hst
          cases hst
        rcases hwatched with harmed | hmem
        · exact .inl ((congrFun (wakeFd_shared m.sched fd').2.2 fd).trans harmed)
        · rw [hpc] at hmem
          exact .inr ((List.mem_cons.mp hmem).resolve_left hne)
  · refine .inl ?_
    rw [show (m.goto (m.sched.waitEvent fd events) .switched).sched.epoll fd
      = m.sched.registerFd fd events fd by simp [goto, Scheduler.waitEvent, hself]]
    exact (registerFd_spec (hI.lookup_free hun.2) events).1

/-- **Step lemma.** -/
theorem Waiting.step [Inhabited α] {H : StdHeap timerAfter} (hI : Waiting m)
    (hs : Stepped H m a m') (hun : m.Unshared a) (hchan : m'.sched.ExclusiveChannels) :
    Waiting m' := by
  have hw := hs.wait
  -- the waiting stays exclusive, which is what the placement invariant asks for
  obtain ⟨hI', hlater⟩ := hI.placed.step hs ⟨hI.exclusive_fd hw hun, hchan.1, hchan.2⟩
  refine ⟨hI', hI.sole_step hI' hlater hw hun, ?_, fun p fd events => hI.watched_step hw hun⟩
  intro p fd hp
  rw [hw.pipeReadFd_eq]
  rcases hI.placed.inWait_back hI' hlater hw hp with hp | ⟨events, rfl, -⟩
  · exact hI.notPipe p fd hp
  · exact hun.1

/-- **What ends a wait.** A parked coroutine stays parked in every step but the one
    that handles an event of its descriptor, which puts it on the ready queue. -/
theorem Waiting.stays (hI : Waiting m) (hI' : Waiting m') (hs : WaitStepped m a m')
    (hp : m.sched.Parks p fd events) :
    m'.sched.Parks p fd events ∨
      ((∃ evs, m.pc = .events (fd :: evs)) ∧ a = .event ∧ p ∈ m'.sched.readyQueue ∧
        (m'.sched.coros p).state = .ready) :=
  hI.placed.tidy.stays hI'.placed.tidy hs hp (hI.lookup hp)

end Invariant

end Machine

/-! ### Two coroutines on one descriptor

The condition cannot be spared: the second call takes the entry of a coroutine that is
parked, and a woken one takes the registration of whoever parks before it runs. -/

namespace Scheduler

variable {s : Scheduler τ α} {p q : CoroPtr} {fd : Fd} {events : UInt32}

theorem waitEvent_overwrites (hrun : s.runningCoro = some p) (hq : s.Parks q fd events)
    (hne : q ≠ p) (events' : UInt32) :
    (s.waitEvent fd events').Parks q fd events ∧
      (s.waitEvent fd events').waitingMap.lookup fd = some p := by
  refine ⟨⟨?_, ?_⟩, ?_⟩
  · rw [(waitEvent_frame s fd events').1]
    exact hq.1
  · rw [waitEvent_other hrun fd events' hne]
    exact hq.2
  · simp [Scheduler.waitEvent, hrun]

theorem resume_unregisters (hq : s.Parks q fd events) (hne : q ≠ p) {events' : UInt32}
    (hp : (s.coros p).ctx = .inWaitEvent fd events') (rest : List CoroPtr) :
    (s.switchTo p rest).Parks q fd events ∧ (s.switchTo p rest).epoll fd = none := by
  refine ⟨⟨?_, ?_⟩, ?_⟩
  · rw [(switchTo_shared s p rest).2.1]
    exact hq.1
  · rw [switchTo_other rest hne]
    exact hq.2
  · simp [Scheduler.switchTo, Scheduler.resumed, setState, hp, Epoll.ctlDel]

end Scheduler

/-! ## Programs without channels -/

def Ctx.InChannel : Ctx α → Prop
  | .inSend _ | .inRecv _ _ => True
  | _ => False

def Act.UsesChannel : Act τ α → Prop
  | .send _ _ | .recv _ => True
  | _ => False

namespace Scheduler

/-- No coroutine is suspended in a channel. -/
def NoChannel (s : Scheduler τ α) : Prop := ∀ p, ¬ (s.coros p).ctx.InChannel

theorem NoChannel.exclusive {s : Scheduler τ α} (h : s.NoChannel) : s.ExclusiveChannels := by
  -- vacuous: nobody is suspended in a channel
  refine ⟨fun p q ch hp _ => ?_, fun p q ch hp _ => ?_⟩
  · apply absurd _ (h p)
    rw [hp.2.2]
    trivial
  · obtain ⟨-, -, x, hctx⟩ := hp
    apply absurd _ (h p)
    rw [hctx]
    trivial

section NoChannel

variable {s : Scheduler τ α} (h : s.NoChannel) (p : CoroPtr)

theorem NoChannel.of_coros {s' : Scheduler τ α} (h : s.NoChannel)
    (hsame : s'.coros = s.coros) : s'.NoChannel := by
  intro q
  rw [hsame]
  exact h q

include h

theorem NoChannel.setState (st : State) : (s.setState p st).NoChannel := by
  intro q
  by_cases hq : q = p
  · subst hq
    simpa [Scheduler.setState] using h q
  · simpa [Scheduler.setState, hq] using h q

theorem NoChannel.swapOut {c : Ctx α} (hc : ¬ c.InChannel) : (s.swapOut p c).NoChannel := by
  intro q
  by_cases hq : q = p
  · subst hq
    simpa [Scheduler.swapOut, saveCtx] using hc
  · simpa [Scheduler.swapOut, saveCtx, hq] using h q

theorem NoChannel.create (f : τ) : (s.create f).NoChannel := by
  intro q
  by_cases hq : q = s.allocs
  · subst hq
    simp [Scheduler.create, Ctx.InChannel]
  · simpa [Scheduler.create, hq] using h q

theorem NoChannel.yield : s.yield.NoChannel := by
  unfold Scheduler.yield
  split
  · exact h
  next cur _ => exact ((h.setState cur .ready).of_coros rfl).swapOut cur id

theorem NoChannel.waitEvent (fd : Fd) (events : UInt32) : (s.waitEvent fd events).NoChannel := by
  unfold Scheduler.waitEvent
  split
  · exact h
  next cur _ =>
    have hout : ((s.setState cur .waiting).swapOut cur (.inWaitEvent fd events)).NoChannel :=
      (h.setState cur .waiting).swapOut cur id
    exact hout.of_coros rfl

theorem NoChannel.sleep (H : StdHeap timerAfter) (now ms : Int64) :
    (s.sleep H now ms).NoChannel := by
  unfold Scheduler.sleep
  split
  · exact h
  next cur _ =>
    split
    · exact h.yield
    · exact ((h.setState cur .waiting).of_coros rfl).swapOut cur id

theorem NoChannel.fireTimers (H : StdHeap timerAfter) (now : Int64) :
    (s.fireTimers H now).1.NoChannel := by
  apply fireTimers_keeps H _ s h
  intro s' heap q hs'
  exact (hs'.setState q .ready).of_coros rfl

theorem NoChannel.switchTo (rest : List CoroPtr) : (s.switchTo p rest).NoChannel := by
  unfold Scheduler.switchTo
  rw [resumed_eq]
  exact (h.setState p .running).of_coros rfl

theorem NoChannel.wakeFd (fd : Fd) : (s.wakeFd fd).NoChannel := by
  unfold Scheduler.wakeFd
  split
  · exact h
  next co _ => exact (h.setState co .ready).of_coros rfl

end NoChannel

end Scheduler

namespace Machine

open Scheduler

theorem Stepped.noChannel [Inhabited α] {H : StdHeap timerAfter} {m m' : Machine τ α}
    {a : Act τ α} (hs : Stepped H m a m') (ha : ¬ a.UsesChannel) (h : m.sched.NoChannel) :
    m'.sched.NoChannel := by
  cases hs with
  | send self ch val _ _ | recv self ch _ _ => exact absurd trivial ha
  | createMain f _ | create self f _ _ | drainNext f fs evs _ => exact h.create f
  | readyNext p rest _ _ => exact h.switchTo p rest
  | yield self _ _ => exact h.yield
  | waitEvent self fd events _ _ => exact h.waitEvent fd events
  | sleep self now ms _ _ => exact h.sleep H now ms
  | finish self _ _ => exact h.setState self .done
  | reap _ => exact h.of_coros (reap_frame m.sched).1
  | fireTimers now _ | lastTimers now _ => exact h.fireTimers H now
  | eventWake fd evs _ _ => exact h.wakeFd fd
  | run _ | readyEmpty _ _ | closeFd self fd _ _ | epollWait evs _ | epollFail eintr _
  | eventPipe fd evs _ _ | pipeEmpty evs _ _ | pipeRead evs _ _ | swapQueue evs _
  | drainDone evs _ | postAppend t f _ | postWrite t _ => exact h

end Machine

end CoroutineHttp.Core
