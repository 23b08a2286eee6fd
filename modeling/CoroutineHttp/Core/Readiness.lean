/-
  CoroutineHttp.Core.Readiness

  `wait_event` and the event loop against the kernel: which descriptors are ready for
  what, and which of them `epoll` has an event for that it has not handed out.

  The kernel is assumed to behave as `epoll(7)` says (`Polled.step`): `ADD` fails on a
  registered descriptor only; `ADD` and `MOD` report readiness that already holds; a
  descriptor that becomes ready while its registration is armed is reported, and so may
  be one that stays ready; a report disarms an `EPOLLONESHOT` registration, and is made
  once in edge-triggered mode.  Readiness changes at any time, by what the peers do or
  by the system calls of the coroutines.  A coroutine calls `wait_event` whenever it
  likes: `Connection::read`, `Connection::write` and `accept_loop` do so when their
  system call has answered `EAGAIN`, which may no longer be true by then.

  `OneWaiter` is what is assumed of the program: at any time at most one coroutine is in
  `wait_event` on a descriptor, where one that has been woken counts until it is resumed.
  It is not enough that at most one is parked (`woken_unregisters`).
-/

import CoroutineHttp.Core.Placement
import CoroutineHttp.Core.Waiting

namespace CoroutineHttp.Core

open CoroutineHttp.Library

universe u v

variable {τ : Type u} {α : Type v}

def EPOLLERR : UInt32 := 0x008
def EPOLLHUP : UInt32 := 0x010

/-! ## Event masks -/

/-- Two masks meet if some bit is in both. -/
theorem and_ne_zero_iff {a b : UInt32} : a &&& b ≠ 0 ↔
    ∃ i, a.toBitVec.getLsbD i = true ∧ b.toBitVec.getLsbD i = true := by
  rw [Ne, ← UInt32.toBitVec_inj, UInt32.toBitVec_and]
  constructor
  · intro h
    by_contra hnone
    apply h
    apply BitVec.eq_of_getLsbD_eq
    intro i hi
    cases ha : a.toBitVec.getLsbD i <;> cases hb : b.toBitVec.getLsbD i <;> simp [ha, hb]
    exact hnone ⟨i, ha, hb⟩
  · rintro ⟨i, ha, hb⟩ h
    have hbit := congrArg (BitVec.getLsbD · i) h
    simp [ha, hb] at hbit

/-- A descriptor in state `mask` is reported to a registration for `events`; errors and
    hang-ups always are. -/
def reports (mask events : UInt32) : Bool :=
  decide (mask &&& (events ||| EPOLLERR ||| EPOLLHUP) ≠ 0)

theorem reports_iff {mask events : UInt32} : reports mask events = true ↔
    ∃ i, mask.toBitVec.getLsbD i = true ∧
      (events ||| EPOLLERR ||| EPOLLHUP).toBitVec.getLsbD i = true := by
  rw [reports, decide_eq_true_iff, and_ne_zero_iff]

/-- The flags of a registration do not hide events. -/
theorem reports_or {mask events : UInt32} (flags : UInt32) (h : reports mask events = true) :
    reports mask (events ||| flags) = true := by
  rw [reports_iff] at h ⊢
  obtain ⟨i, hmask, hevents⟩ := h
  refine ⟨i, hmask, ?_⟩
  simp only [UInt32.toBitVec_or, BitVec.getLsbD_or, Bool.or_eq_true] at hevents ⊢
  grind

/-- What is ready now has become ready or was before. -/
theorem reports_rising {mask events : UInt32} (old : UInt32) (h : reports mask events = true) :
    reports (mask &&& ~~~old) events = true ∨ reports old events = true := by
  simp only [reports_iff] at h ⊢
  obtain ⟨i, hmask, hevents⟩ := h
  have hi := BitVec.lt_of_getLsbD hmask
  cases hold : old.toBitVec.getLsbD i with
  | true => exact .inr ⟨i, hold, hevents⟩
  | false =>
      refine .inl ⟨i, ?_, hevents⟩
      simp only [UInt32.toBitVec_and, UInt32.toBitVec_not, BitVec.getLsbD_and,
        BitVec.getLsbD_not, hmask, hi, hold, decide_true, Bool.not_false, Bool.and_self]

theorem oneShot_registered (events : UInt32) :
    (events ||| EPOLLONESHOT ||| EPOLLET) &&& EPOLLONESHOT ≠ 0 := by
  rw [and_ne_zero_iff]
  refine ⟨30, ?_, by decide⟩
  simp only [UInt32.toBitVec_or, BitVec.getLsbD_or, Bool.or_eq_true]
  exact .inl (.inr (by decide))

/-! ## The kernel -/

/-- Registered, armed and ready: `epoll_wait` may hand out an event of `fd`. -/
def Epoll.reportable (e : Epoll) (ready : Fd → UInt32) (fd : Fd) : Bool :=
  match e fd with
  | some r => r.armed && reports (ready fd) r.events
  | none => false

/-- A scheduler with the kernel below it: what each descriptor is ready for, and for
    which of them `epoll` has an event to hand out. -/
structure Polled (τ : Type u) (α : Type v) where
  machine : Machine τ α
  ready : Fd → UInt32
  pending : Fd → Bool

/-- A step of the program or of the kernel. -/
inductive Event (τ : Type u) (α : Type v) where
  | program (a : Act τ α)
  /-- From now on `fd` is ready for `mask`; with `again`, what it was already ready for
      is signalled anew (more data has arrived). -/
  | readiness (fd : Fd) (mask : UInt32) (again : Bool)

/-- Neither waits on the pipe of the scheduler nor closes a descriptor. -/
def Event.plain (pipeReadFd : Fd) : Event τ α → Bool
  | .program (.waitEvent fd _) => fd != pipeReadFd
  | .program (.closeFd _) => false
  | _ => true

namespace Polled

def init [Inhabited α] (pipeReadFd : Fd) (pipeCap : ℕ+) (junk : Coroutine τ α)
    (ready : Fd → UInt32) : Polled τ α where
  machine := Machine.init pipeReadFd pipeCap junk
  ready := ready
  pending := (Machine.init pipeReadFd pipeCap junk : Machine τ α).sched.epoll.reportable ready

/-- What `epoll_wait(·, ·, 64, ·)` may return: descriptors it has an event for, that are
    still ready, each once. -/
def mayReturn (t : Polled τ α) (evs : List Fd) : Bool :=
  decide (evs.Nodup ∧ evs.length ≤ 64) &&
    evs.all fun fd => t.pending fd && t.machine.sched.epoll.reportable t.ready fd

/-- Reported once, not as long as it is ready. -/
def edgeTriggered (t : Polled τ α) (fd : Fd) : Bool :=
  match t.machine.sched.epoll fd with
  | some r => decide (r.events &&& EPOLLET ≠ 0)
  | none => true

/-- The events `epoll` holds after the program's step `a`. -/
def pendingAfter (t : Polled τ α) (a : Act τ α) : Fd → Bool :=
  match a, t.machine.sched.runningCoro with
  | .waitEvent fd events, some _ =>
      let e := t.machine.sched.registerFd fd events
      Function.update t.pending fd (t.pending fd || e.reportable t.ready fd)
  | .closeFd fd, _ => Function.update t.pending fd false
  | .epollWait evs, _ => fun fd => t.pending fd && !(evs.contains fd && t.edgeTriggered fd)
  | .readyLoop, _ =>
      match t.machine.sched.readyQueue with
      | [] => t.pending
      | p :: _ =>
          match (t.machine.sched.coros p).ctx with
          | .inWaitEvent fd _ => Function.update t.pending fd false
          | _ => t.pending
  | _, _ => t.pending

/-- A descriptor changes to `mask`: an armed registration for a bit that is signalled
    gets its event. -/
def signalled (t : Polled τ α) (fd : Fd) (mask : UInt32) (again : Bool) : Bool :=
  t.machine.sched.epoll.reportable
    (Function.update t.ready fd (if again then mask else mask &&& ~~~t.ready fd)) fd

def step [Inhabited α] (H : StdHeap timerAfter) (t : Polled τ α) :
    Event τ α → Option (Polled τ α)
  | .program a =>
      if (match a with | .epollWait evs => t.mayReturn evs | _ => true) then
        (Machine.step H t.machine a).map fun m' =>
          { t with machine := m', pending := t.pendingAfter a }
      else none
  | .readiness fd mask again =>
      some { t with
        ready := Function.update t.ready fd mask
        pending := Function.update t.pending fd (t.pending fd || t.signalled fd mask again) }

end Polled

/-! ## Who waits -/

namespace Machine

open Scheduler

/-- At most one coroutine is in `wait_event` on each descriptor. -/
def OneWaiter (s : Scheduler τ α) : Prop :=
  ∀ p q fd, s.InWait p fd → s.InWait q fd → p = q

instance (s : Scheduler τ α) : Decidable (OneWaiter s) :=
  decidable_of_iff (∀ p < s.allocs, ∀ q < s.allocs, ∀ fd ∈ (s.coros p).ctx.waitFd,
      s.InWait p fd → s.InWait q fd → p = q) <| by
    constructor
    · intro h p q fd hp hq
      obtain ⟨events, hctx⟩ := hp.2.2
      exact h p hp.1 q hq.1 fd (by simp [hctx, Ctx.waitFd]) hp hq
    · intro h p _ q _ fd _ hp hq
      exact h p q fd hp hq

/-- What is assumed of the program's steps: after each of them there is at most one
    waiter for each descriptor.  Nobody waits on the pipe of the scheduler, nor closes a
    descriptor on which a coroutine waits. -/
def Orderly (m : Machine τ α) (a : Act τ α) (m' : Machine τ α) : Prop :=
  OneWaiter m'.sched ∧
    match a with
    | .waitEvent fd _ => fd ≠ m.sched.pipeReadFd
    | .closeFd fd => ∀ q, ¬ m.sched.InWait q fd
    | _ => True

/-- Who is parked is in the map and watched, whoever is in the map or about to be woken
    is parked, and no event is reported twice. -/
structure Attended (m : Machine τ α) : Prop where
  tidy : m.Tidy
  one : OneWaiter m.sched
  mapped : ∀ p fd events, m.sched.Parks p fd events → m.sched.waitingMap.lookup fd = some p
  watched : ∀ p fd events, m.sched.Parks p fd events → m.Watched fd events
  notPipe : ∀ p fd, m.sched.waitingMap.lookup fd = some p → fd ≠ m.sched.pipeReadFd
  owned : ∀ fd, fd ≠ m.sched.pipeReadFd →
    (∃ r, m.sched.epoll fd = some r ∧ r.armed = true) ∨ fd ∈ m.pc.batch →
    m.sched.waitingMap.lookup fd ≠ none
  spent : ∀ fd r, fd ∈ m.pc.batch → fd ≠ m.sched.pipeReadFd → m.sched.epoll fd = some r →
    r.armed = false
  nodup : m.pc.batch.Nodup
  oneShot : ∀ fd r, fd ≠ m.sched.pipeReadFd → m.sched.epoll fd = some r →
    r.events &&& EPOLLONESHOT ≠ 0
  level : ∀ r, m.sched.epoll m.sched.pipeReadFd = some r → r.events &&& EPOLLET = 0

theorem attended_init [Inhabited α] (pipeReadFd : Fd) (pipeCap : ℕ+) (junk : Coroutine τ α) :
    Attended (init pipeReadFd pipeCap junk) where
  tidy := tidy_init pipeReadFd pipeCap junk
  one _ _ _ hp := absurd hp.1 (Nat.not_lt_zero _)
  mapped _ _ _ hp := absurd hp.1 (Nat.not_lt_zero _)
  watched _ _ _ hp := absurd hp.1 (Nat.not_lt_zero _)
  notPipe _ _ h := by simp [init] at h
  owned fd hfd h := by
    have hfd' : fd ≠ pipeReadFd := hfd
    simp [init, RunPc.batch, hfd'] at h
  spent _ _ h := by simp [init, RunPc.batch] at h
  nodup := List.nodup_nil
  oneShot fd r hfd h := by
    have hfd' : fd ≠ pipeReadFd := hfd
    simp [init, hfd'] at h
  level r h := by
    simp only [init, Function.update_self, Option.some.injEq] at h
    rw [← h]
    decide

section Steps

variable {m m' : Machine τ α} {a : Act τ α} {fd : Fd}

/-- A step that keeps the map, and under which registrations at most go or are
    disarmed. -/
theorem Attended.of_fewer (hI : Attended m) (htidy : m'.Tidy) (hone : OneWaiter m'.sched)
    (hmap : m'.sched.waitingMap = m.sched.waitingMap)
    (hpipe : m'.sched.pipeReadFd = m.sched.pipeReadFd)
    (hparks : ∀ p fd events, m'.sched.Parks p fd events →
      m.sched.Parks p fd events ∧ m'.Watched fd events)
    (hregs : ∀ fd r', m'.sched.epoll fd = some r' →
      ∃ r, m.sched.epoll fd = some r ∧ r'.events = r.events ∧ (r'.armed = true → r.armed = true))
    (hbatch : ∀ fd ∈ m'.pc.batch, fd ≠ m.sched.pipeReadFd →
      m.sched.waitingMap.lookup fd ≠ none ∧ ∀ r', m'.sched.epoll fd = some r' → r'.armed = false)
    (hnodup : m'.pc.batch.Nodup) : Attended m' where
  tidy := htidy
  one := hone
  mapped p fd events hp := by
    rw [hmap]
    exact hI.mapped p fd events (hparks p fd events hp).1
  watched p fd events hp := (hparks p fd events hp).2
  notPipe := by
    rw [hmap, hpipe]
    exact hI.notPipe
  -- what is armed after the step was armed before it
  owned fd hfd h := by
    rw [hpipe] at hfd
    rw [hmap]
    rcases h with ⟨r', hr', harmed⟩ | hmem
    · obtain ⟨r, hr, -, hstill⟩ := hregs fd r' hr'
      exact hI.owned fd hfd (.inl ⟨r, hr, hstill harmed⟩)
    · exact (hbatch fd hmem hfd).1
  spent fd r' hmem hfd := by
    rw [hpipe] at hfd
    exact (hbatch fd hmem hfd).2 r'
  nodup := hnodup
  oneShot fd r' hfd h := by
    rw [hpipe] at hfd
    obtain ⟨r, hr, hevents, -⟩ := hregs fd r' h
    rw [hevents]
    exact hI.oneShot fd r hfd hr
  level r' h := by
    rw [hpipe] at h
    obtain ⟨r, hr, hevents, -⟩ := hregs _ r' h
    rw [hevents]
    exact hI.level r hr

/-- A step that leaves the registrations, the map and the batch alone. -/
theorem Attended.of_same (hI : Attended m) (htidy : m'.Tidy) (hone : OneWaiter m'.sched)
    (hepoll : m'.sched.epoll = m.sched.epoll) (hmap : m'.sched.waitingMap = m.sched.waitingMap)
    (hpipe : m'.sched.pipeReadFd = m.sched.pipeReadFd) (hbatch : m'.pc.batch = m.pc.batch)
    (hback : ∀ p fd events, m'.sched.Parks p fd events → m.sched.Parks p fd events) :
    Attended m' := by
  refine hI.of_fewer htidy hone hmap hpipe (fun p fd events hp => ?_) (fun fd r h => ?_)
    (fun fd hmem hfd => ?_) (hbatch ▸ hI.nodup)
  · have hold := hback p fd events hp
    rw [Watched, hepoll, hbatch]
    exact ⟨hold, hI.watched p fd events hold⟩
  · exact ⟨r, hepoll ▸ h, rfl, id⟩
  · rw [hbatch] at hmem
    rw [hepoll]
    exact ⟨hI.owned fd hfd (.inr hmem), fun r => hI.spent fd r hmem hfd⟩

/-- Nobody is in the map of a descriptor on which the running coroutine comes to wait. -/
theorem Attended.lookup_free (hI : Attended m) {self : CoroPtr} {events : UInt32}
    (hself : m.sched.runningCoro = some self) (hone : OneWaiter (m.sched.waitEvent fd events)) :
    m.sched.waitingMap.lookup fd = none := by
  by_contra hsome
  obtain ⟨q, hq⟩ := Option.ne_none_iff_exists'.mp hsome
  have hocc : m.sched.occurrences m.chans (.waitingMap fd) q ≠ 0 := by simp [occurrences, hq]
  obtain ⟨hlt, hwait, hctx⟩ := parkedOn_iff_homeOf.mpr (hI.tidy.once.home_of_count _ hocc)
  have hne : q ≠ self := hI.tidy.once.ne_running hself hocc (by simp)
  obtain ⟨hallocs, -⟩ := waitEvent_frame m.sched fd events
  obtain ⟨hwait', hctx'⟩ := waitEvent_self hself fd events
  have hlt' : self < m.sched.allocs := lt_of_homeOf (hI.tidy.once.home_of_running hself)
  -- both would be in `wait_event` on `fd` after the call
  refine hne (hone q self fd ?_ ⟨?_, .inl hwait', events, hctx'⟩)
  · rw [InWait, waitEvent_other hself fd events hne, hallocs]
    exact ⟨hlt, .inl hwait, hctx⟩
  · rw [hallocs]
    exact hlt'

/-- Who is parked after the call is the caller, or was so before on another descriptor. -/
theorem Attended.parks_waitEvent (hI : Attended m) {self : CoroPtr} {events : UInt32}
    (hself : m.sched.runningCoro = some self) (hfree : m.sched.waitingMap.lookup fd = none)
    {p : CoroPtr} {fd' : Fd} {events' : UInt32}
    (hp : (m.sched.waitEvent fd events).Parks p fd' events') :
    (p = self ∧ fd' = fd ∧ events' = events) ∨ (fd' ≠ fd ∧ m.sched.Parks p fd' events') := by
  obtain ⟨hlt, hwait, hctx⟩ := hp
  by_cases hp : p = self
  · rw [hp, (waitEvent_self hself fd events).2] at hctx
    cases hctx
    exact .inl ⟨hp, rfl, rfl⟩
  · rw [waitEvent_other hself fd events hp] at hwait hctx
    rw [(waitEvent_frame m.sched fd events).1] at hlt
    refine .inr ⟨?_, hlt, hwait, hctx⟩
    rintro rfl
    rw [hI.mapped p fd' events' ⟨hlt, hwait, hctx⟩] at hfree
    cases hfree

theorem Attended.waitEvent (hI : Attended m) {self : CoroPtr} {events : UInt32}
    (hpc : m.pc = .coroutine) (hself : m.sched.runningCoro = some self)
    (htidy : (m.goto (m.sched.waitEvent fd events) .switched).Tidy)
    (hok : Orderly m (.waitEvent fd events) (m.goto (m.sched.waitEvent fd events) .switched)) :
    Attended (m.goto (m.sched.waitEvent fd events) .switched) := by
  have hfree := hI.lookup_free hself hok.1
  obtain ⟨harmed, hothers⟩ := registerFd_spec hfree events
  have hepoll : (m.sched.waitEvent fd events).epoll = m.sched.registerFd fd events := by
    simp [Scheduler.waitEvent, hself]
  have hmap : (m.sched.waitEvent fd events).waitingMap = m.sched.waitingMap.insert fd self := by
    simp [Scheduler.waitEvent, hself]
  -- a coroutine runs outside the loop over the events
  have hbatch : m.pc.batch = [] := by
    rw [hpc]
    rfl
  refine ⟨htidy, hok.1, fun p fd' events' hp => ?_, fun p fd' events' hp => ?_,
    fun p fd' h => ?_, fun fd' hfd h => ?_, fun fd' r h => ?_, List.nodup_nil,
    fun fd' r hfd h => ?_, fun r h => ?_⟩
  · simp only [goto] at hp ⊢
    rw [hmap]
    rcases hI.parks_waitEvent hself hfree hp with ⟨rfl, rfl, -⟩ | ⟨hne, hp⟩
    · exact AList.lookup_insert _
    · rw [AList.lookup_insert_ne hne]
      exact hI.mapped p fd' events' hp
  · simp only [goto, Watched] at hp ⊢
    rw [hepoll]
    rcases hI.parks_waitEvent hself hfree hp with ⟨-, rfl, rfl⟩ | ⟨hne, hp⟩
    · exact .inl harmed
    · have hwatched := hI.watched p fd' events' hp
      rw [Watched, hbatch] at hwatched
      rw [hothers fd' hne]
      exact .inl (hwatched.resolve_right List.not_mem_nil)
  · simp only [goto] at h ⊢
    rw [(waitEvent_frame m.sched fd events).2]
    by_cases hfd : fd' = fd
    · rw [hfd]
      exact hok.2
    · rw [hmap, AList.lookup_insert_ne hfd] at h
      exact hI.notPipe p fd' h
  · simp only [goto] at hfd h ⊢
    rw [(waitEvent_frame m.sched fd events).2] at hfd
    rw [hepoll] at h
    rw [hmap]
    by_cases hsame : fd' = fd
    · rw [hsame, AList.lookup_insert]
      intro hnone
      cases hnone
    · rw [AList.lookup_insert_ne hsame]
      rw [hothers fd' hsame] at h
      exact hI.owned fd' hfd (.inl (h.resolve_right List.not_mem_nil))
  · exact absurd h List.not_mem_nil
  · simp only [goto] at hfd h
    rw [(waitEvent_frame m.sched fd events).2] at hfd
    rw [hepoll] at h
    by_cases hsame : fd' = fd
    · rw [hsame, harmed] at h
      rw [← Option.some.inj h]
      exact oneShot_registered events
    · rw [hothers fd' hsame] at h
      exact hI.oneShot fd' r hfd h
  · simp only [goto] at h
    rw [(waitEvent_frame m.sched fd events).2, hepoll, hothers _ (Ne.symm hok.2)] at h
    exact hI.level r h

/-- What a resumed `wait_event` removes is gone, and nothing is added. -/
theorem switchTo_registered {s : Scheduler τ α} {p : CoroPtr} {rest : List CoroPtr}
    {r : Registration} (h : (s.switchTo p rest).epoll fd = some r) : s.epoll fd = some r := by
  unfold Scheduler.switchTo Scheduler.resumed at h
  split at h
  next fd' events hctx =>
    by_cases hfd : fd = fd'
    · simp [Epoll.ctlDel, hfd] at h
    · simpa [Epoll.ctlDel, setState, hfd] using h
  next => exact h

theorem Attended.resume (hI : Attended m) {p : CoroPtr} {rest : List CoroPtr}
    (hpc : m.pc = .readyLoop) (hq : m.sched.readyQueue = p :: rest)
    (htidy : (m.goto (m.sched.switchTo p rest) .coroutine).Tidy)
    (hone : OneWaiter (m.sched.switchTo p rest)) :
    Attended (m.goto (m.sched.switchTo p rest) .coroutine) := by
  obtain ⟨-, hallocs, hpipe, hmap⟩ := switchTo_shared m.sched p rest
  obtain ⟨hlt, hready, -⟩ := hI.tidy.once.ready (p := p) (hq ▸ List.mem_cons_self)
  have hbatch : m.pc.batch = [] := by
    rw [hpc]
    rfl
  -- whoever is parked after the switch is not the coroutine resumed
  have hback : ∀ q fd events, (m.sched.switchTo p rest).Parks q fd events →
      m.sched.Parks q fd events := by
    rintro q fd events ⟨hlt', hwait, hctx⟩
    have hne : q ≠ p := by
      rintro rfl
      rw [(switchTo_frame m.sched q rest).2.2.2] at hwait
      cases hwait
    rw [switchTo_other rest hne] at hwait hctx
    exact ⟨hallocs ▸ hlt', hwait, hctx⟩
  refine hI.of_fewer htidy hone hmap hpipe (fun q fd events hp => ?_)
    (fun fd r h => ⟨r, switchTo_registered h, rfl, id⟩)
    (fun fd h => absurd h List.not_mem_nil) List.nodup_nil
  have hold := hback q fd events hp
  have hwatched := hI.watched q fd events hold
  rw [Watched, hbatch] at hwatched
  -- the resumed coroutine waited on another descriptor: there is one waiter
  refine ⟨hold, .inl ((switchTo_epoll rest ?_).trans (hwatched.resolve_right List.not_mem_nil))⟩
  intro events' hctx
  obtain rfl := hI.one q p fd hold.inWait ⟨hlt, .inr hready, events', hctx⟩
  have hwait := hold.2.1
  rw [hready] at hwait
  cases hwait

theorem Attended.closeFd (hI : Attended m) (hpc : m.pc = .coroutine)
    (htidy : (m.goto { m.sched with epoll := m.sched.epoll.ctlDel fd } .coroutine).Tidy)
    (hok : ∀ q, ¬ m.sched.InWait q fd) :
    Attended (m.goto { m.sched with epoll := m.sched.epoll.ctlDel fd } .coroutine) := by
  have hbatch : m.pc.batch = [] := by
    rw [hpc]
    rfl
  have hregistered : ∀ fd' r, m.sched.epoll.ctlDel fd fd' = some r →
      m.sched.epoll fd' = some r := by
    intro fd' r h
    by_cases hfd : fd' = fd
    · simp [Epoll.ctlDel, hfd] at h
    · simpa [Epoll.ctlDel, hfd] using h
  refine hI.of_fewer htidy hI.one rfl rfl (fun p fd' events hp => ⟨hp, ?_⟩)
    (fun fd' r h => ⟨r, hregistered fd' r h, rfl, id⟩)
    (fun fd' h => absurd h List.not_mem_nil) List.nodup_nil
  have hwatched := hI.watched p fd' events hp
  rw [Watched, hbatch] at hwatched
  have hne : fd' ≠ fd := by
    rintro rfl
    exact hok p hp.inWait
  exact .inl ((Function.update_of_ne hne _ _).trans (hwatched.resolve_right List.not_mem_nil))

/-- What a report leaves of a registration. -/
theorem deliver_self {e : Epoll} {r : Registration} (h : e fd = some r) :
    e.deliver fd fd =
      some (if r.events &&& EPOLLONESHOT = 0 then r else { r with armed := false }) := by
  unfold Epoll.deliver
  rw [h]
  dsimp only
  split
  · exact h
  · exact Function.update_self ..

/-- After the reports `evs` a registration has kept its events; it is still armed only
    if it was, and not if it is one-shot and was reported. -/
theorem deliver_registered (evs : List Fd) {e : Epoll} {r' : Registration}
    (h : evs.foldl Epoll.deliver e fd = some r') :
    ∃ r, e fd = some r ∧ r'.events = r.events ∧ (r'.armed = true → r.armed = true) ∧
      (fd ∈ evs → r.events &&& EPOLLONESHOT ≠ 0 → r'.armed = false) := by
  -- on the reports; what one of them disarms stays disarmed
  induction evs generalizing e with
  | nil => exact ⟨r', h, rfl, id, fun hmem => absurd hmem List.not_mem_nil⟩
  | cons fd' evs ih =>
      rw [List.foldl_cons] at h
      obtain ⟨r, hr, hevents, harmed, hspent⟩ := ih h
      by_cases hfd : fd = fd'
      · subst hfd
        cases he : e fd with
        | none =>
            rw [Epoll.deliver, he] at hr
            cases he.symm.trans hr
        | some r0 =>
            rw [deliver_self he, Option.some.injEq] at hr
            refine ⟨r0, rfl, ?_, ?_, fun _ hone => ?_⟩
            · rw [hevents, ← hr]
              split <;> rfl
            · intro h'
              have hr' := harmed h'
              rw [← hr] at hr'
              split at hr'
              · exact hr'
              · cases hr'
            · cases hr' : r'.armed with
              | false => rfl
              | true =>
                  have hr'' := harmed hr'
                  rw [← hr, if_neg hone] at hr''
                  cases hr''
      · rw [deliver_ne e hfd] at hr
        refine ⟨r, hr, hevents, harmed, fun hmem hone => ?_⟩
        exact hspent ((List.mem_cons.mp hmem).resolve_left hfd) hone

theorem Attended.deliver (hI : Attended m) {evs : List Fd} (hpc : m.pc = .polling)
    (hnodup : evs.Nodup)
    (harmed : ∀ fd ∈ evs, ∃ r, m.sched.epoll fd = some r ∧ r.armed = true)
    (htidy : (m.goto { m.sched with epoll := evs.foldl Epoll.deliver m.sched.epoll }
      (.events evs)).Tidy) :
    Attended (m.goto { m.sched with epoll := evs.foldl Epoll.deliver m.sched.epoll }
      (.events evs)) := by
  have hbatch : m.pc.batch = [] := by
    rw [hpc]
    rfl
  -- a reported descriptor was armed, so it has a waiter in the map
  refine hI.of_fewer htidy hI.one rfl rfl (fun p fd events hp => ⟨hp, ?_⟩) (fun fd r' h => ?_)
    (fun fd hmem hfd => ⟨hI.owned fd hfd (.inl (harmed fd hmem)), fun r' h => ?_⟩) hnodup
  · have hwatched := hI.watched p fd events hp
    rw [Watched, hbatch] at hwatched
    by_cases hmem : fd ∈ evs
    · exact .inr hmem
    · exact .inl ((deliver_not_mem hmem _).trans (hwatched.resolve_right List.not_mem_nil))
  · obtain ⟨r, hr, hevents, hstill, -⟩ := deliver_registered evs h
    exact ⟨r, hr, hevents, hstill⟩
  · obtain ⟨r, hr, -, -, hspent⟩ := deliver_registered evs h
    exact hspent hmem (hI.oneShot fd r hfd hr)

/-- While the loop handles an event, this and those behind it are still to be handled. -/
theorem batch_of_events {evs : List Fd} (hpc : m.pc = .events (fd :: evs)) :
    m.pc.batch = fd :: evs ∧ ∀ fd' ∈ evs, fd' ∈ m.pc.batch := by
  rw [hpc]
  exact ⟨rfl, fun fd' h => List.mem_cons_of_mem _ h⟩

/-- The pipe's event is not a coroutine's. -/
theorem Attended.pipe (hI : Attended m) {evs : List Fd} (hpc : m.pc = .events (fd :: evs))
    (hfd : fd = m.sched.pipeReadFd) (htidy : (m.goto m.sched (.readPipe evs)).Tidy) :
    Attended (m.goto m.sched (.readPipe evs)) := by
  obtain ⟨hbatch, htail⟩ := batch_of_events hpc
  refine hI.of_fewer htidy hI.one rfl rfl (fun p fd' events hp => ⟨hp, ?_⟩)
    (fun fd' r h => ⟨r, h, rfl, id⟩) (fun fd' h hne => ⟨hI.owned fd' hne (.inr (htail fd' h)),
      fun r => hI.spent fd' r (htail fd' h) hne⟩) (hbatch ▸ hI.nodup).of_cons
  -- nobody waits for the pipe, so its event is nobody's
  refine (hI.watched p fd' events hp).imp_right fun hmem => ?_
  rw [hbatch] at hmem
  have hne := hI.notPipe p fd' (hI.mapped p fd' events hp)
  exact (List.mem_cons.mp hmem).resolve_left (hfd ▸ hne)

/-- Who is still parked after an event was handled waits on another descriptor. -/
theorem Attended.parks_wakeFd (hI : Attended m) {co p : CoroPtr} {fd' : Fd} {events : UInt32}
    (hlook : m.sched.waitingMap.lookup fd = some co)
    (hp : (m.sched.wakeFd fd).Parks p fd' events) : fd' ≠ fd ∧ m.sched.Parks p fd' events := by
  obtain ⟨hlt, hwait, hctx⟩ := hp
  obtain ⟨-, hready, -, hothers⟩ := wakeFd_some hlook
  have hne : p ≠ co := by
    rintro rfl
    rw [hready] at hwait
    cases hwait
  rw [hothers p hne] at hwait hctx
  rw [(wakeFd_shared m.sched fd).1] at hlt
  refine ⟨?_, hlt, hwait, hctx⟩
  rintro rfl
  have hmapped := hI.mapped p fd' events ⟨hlt, hwait, hctx⟩
  exact hne (Option.some.inj (hmapped.symm.trans hlook))

theorem Attended.wake (hI : Attended m) {evs : List Fd} (hpc : m.pc = .events (fd :: evs))
    (hfd : fd ≠ m.sched.pipeReadFd) (htidy : (m.goto (m.sched.wakeFd fd) (.events evs)).Tidy)
    (hone : OneWaiter (m.sched.wakeFd fd)) :
    Attended (m.goto (m.sched.wakeFd fd) (.events evs)) := by
  obtain ⟨hallocs, hpipe, hepoll⟩ := wakeFd_shared m.sched fd
  obtain ⟨hbatch, htail⟩ := batch_of_events hpc
  have hnodup : (fd :: evs).Nodup := hbatch ▸ hI.nodup
  -- an event of the batch has its waiter in the map
  obtain ⟨co, hlook⟩ := Option.ne_none_iff_exists'.mp
    (hI.owned fd hfd (.inr (hbatch ▸ List.mem_cons_self)))
  refine ⟨htidy, hone, fun p fd' events hp => ?_, fun p fd' events hp => ?_, fun p fd' h => ?_,
    fun fd' hne h => ?_, fun fd' r hmem hne h => ?_, hnodup.of_cons, fun fd' r hne h => ?_,
    fun r h => ?_⟩
  · obtain ⟨hne, hold⟩ := hI.parks_wakeFd hlook hp
    simp only [goto]
    rw [wakeFd_lookup_ne hne]
    exact hI.mapped p fd' events hold
  · obtain ⟨hne, hold⟩ := hI.parks_wakeFd hlook hp
    refine (hI.watched p fd' events hold).imp (fun h => ?_) fun hmem => ?_
    · simp only [goto]
      rw [hepoll]
      exact h
    · rw [hbatch] at hmem
      exact (List.mem_cons.mp hmem).resolve_left hne
  · simp only [goto] at h ⊢
    have hne : fd' ≠ fd := by
      rintro rfl
      simp [wakeFd, hlook, makeReady, setState] at h
    rw [hpipe]
    rw [wakeFd_lookup_ne hne] at h
    exact hI.notPipe p fd' h
  · simp only [goto] at hne h ⊢
    rw [hpipe] at hne
    rw [hepoll] at h
    -- the registration of `fd` is spent, and its event came once
    have hother : fd' ≠ fd := by
      rintro rfl
      rcases h with ⟨r, hr, harmed⟩ | hmem
      · rw [hI.spent fd' r (hbatch ▸ List.mem_cons_self) hne hr] at harmed
        cases harmed
      · exact (List.nodup_cons.mp hnodup).1 hmem
    rw [wakeFd_lookup_ne hother]
    exact hI.owned fd' hne (h.imp_right (htail fd'))
  · simp only [goto] at hne h
    rw [hpipe] at hne
    rw [hepoll] at h
    exact hI.spent fd' r (htail fd' hmem) hne h
  · simp only [goto] at hne h
    rw [hpipe] at hne
    rw [hepoll] at h
    exact hI.oneShot fd' r hne h
  · simp only [goto] at h
    rw [hpipe, hepoll] at h
    exact hI.level r h

/-- **Step lemma.** -/
theorem Attended.step [Inhabited α] {H : StdHeap timerAfter} (hI : Attended m)
    (hs : Stepped H m a m') (hok : Orderly m a m')
    (hevs : ∀ evs, a = .epollWait evs →
      evs.Nodup ∧ ∀ fd ∈ evs, ∃ r, m.sched.epoll fd = some r ∧ r.armed = true) :
    Attended m' := by
  have htidy := hI.tidy.step hs
  cases hs.wait with
  | aside _ h hbatch helse =>
      refine hI.of_same htidy hok.1 h.epoll h.waitingMap h.pipeReadFd hbatch ?_
      rintro p fd events ⟨hlt, hwait, hctx⟩
      obtain ⟨hlt', hctx', hst⟩ := h.back p fd events hlt hctx
      exact ⟨hlt', hst hwait, hctx'⟩
  | waitEvent self fd events hpc hself => exact hI.waitEvent hpc hself htidy hok
  | resume p rest hpc hq => exact hI.resume hpc hq htidy hok.1
  | closeFd fd hpc => exact hI.closeFd hpc htidy hok.2
  | deliver evs hpc => exact hI.deliver hpc (hevs evs rfl).1 (hevs evs rfl).2 htidy
  | pipe fd evs hpc hfd => exact hI.pipe hpc hfd htidy
  | wake fd evs hpc hfd => exact hI.wake hpc hfd htidy hok.1

end Steps

end Machine

/-! ## No wake-up is lost -/

namespace Polled

open Scheduler

/-- `Machine.Orderly` for the program's steps; the kernel is free. -/
def Orderly (t : Polled τ α) (ev : Event τ α) (t' : Polled τ α) : Prop :=
  match ev with
  | .program a => t.machine.Orderly a t'.machine
  | .readiness _ _ _ => True

/-- Whatever could be reported will be: `epoll` has an event for it. -/
def Heard (t : Polled τ α) : Prop :=
  ∀ fd, t.machine.sched.epoll.reportable t.ready fd = true → t.pending fd = true

section Steps

variable {t t' : Polled τ α} {a : Act τ α} {m' : Machine τ α}

theorem reportable_iff {e : Epoll} {ready : Fd → UInt32} {fd : Fd} :
    e.reportable ready fd = true ↔
      ∃ r, e fd = some r ∧ r.armed = true ∧ reports (ready fd) r.events = true := by
  unfold Epoll.reportable
  cases e fd <;> simp

/-- What is reported depends on the descriptor's own registration. -/
theorem reportable_congr {e e' : Epoll} {ready : Fd → UInt32} {fd : Fd} (h : e' fd = e fd) :
    e'.reportable ready fd = e.reportable ready fd := by
  unfold Epoll.reportable
  rw [h]

theorem Heard.readiness (h : Heard t) (fd : Fd) (mask : UInt32) (again : Bool) :
    Heard { t with
      ready := Function.update t.ready fd mask
      pending := Function.update t.pending fd (t.pending fd || t.signalled fd mask again) } := by
  intro fd' hreport
  obtain ⟨r, hr, harmed, hmask⟩ := reportable_iff.mp hreport
  by_cases hfd : fd' = fd
  · subst hfd
    simp only [Function.update_self, Bool.or_eq_true] at hmask ⊢
    -- a bit that is not signalled now was set, and reported, before
    by_cases hold : reports (t.ready fd') r.events = true
    · exact .inl (h fd' (reportable_iff.mpr ⟨r, hr, harmed, hold⟩))
    · refine .inr (reportable_iff.mpr ⟨r, hr, harmed, ?_⟩)
      rw [Function.update_self]
      cases again with
      | true => exact hmask
      | false => exact (reports_rising (t.ready fd') hmask).resolve_right hold
  · simp only [Function.update_of_ne hfd] at hmask ⊢
    exact h fd' (reportable_iff.mpr ⟨r, hr, harmed, hmask⟩)

/-- Steps without a system call on the `epoll` instance. -/
theorem Heard.quiet (h : Heard t) (hepoll : m'.sched.epoll = t.machine.sched.epoll)
    (hpending : t.pendingAfter a = t.pending) :
    Heard { t with machine := m', pending := t.pendingAfter a } := by
  intro fd hreport
  simp only [hepoll] at hreport
  rw [hpending]
  exact h fd hreport

/-- The registration of `fd` goes, and with it its event. -/
theorem Heard.unregister (h : Heard t) {fd : Fd}
    (hepoll : m'.sched.epoll = t.machine.sched.epoll.ctlDel fd)
    (hpending : t.pendingAfter a = Function.update t.pending fd false) :
    Heard { t with machine := m', pending := t.pendingAfter a } := by
  intro fd' hreport
  obtain ⟨r, hr, harmed, hmask⟩ := reportable_iff.mp hreport
  simp only [hepoll] at hr
  by_cases hfd : fd' = fd
  · simp [Epoll.ctlDel, hfd] at hr
  · rw [Epoll.ctlDel, Function.update_of_ne hfd] at hr
    simp only [hpending, Function.update_of_ne hfd]
    exact h fd' (reportable_iff.mpr ⟨r, hr, harmed, hmask⟩)

theorem Heard.register (h : Heard t) (hI : t.machine.Attended) {self : CoroPtr} {fd : Fd}
    {events : UInt32} (hself : t.machine.sched.runningCoro = some self)
    (hone : Machine.OneWaiter (t.machine.sched.waitEvent fd events)) :
    Heard { t with
      machine := t.machine.goto (t.machine.sched.waitEvent fd events) .switched
      pending := t.pendingAfter (.waitEvent fd events) } := by
  have hfree := hI.lookup_free hself hone
  obtain ⟨-, hothers⟩ := registerFd_spec hfree events
  have hepoll : (t.machine.sched.waitEvent fd events).epoll
      = t.machine.sched.registerFd fd events := by simp [Scheduler.waitEvent, hself]
  intro fd' hreport
  simp only [Machine.goto, hepoll] at hreport
  simp only [pendingAfter, hself]
  by_cases hfd : fd' = fd
  -- `EPOLL_CTL_ADD` and `MOD` look at the readiness at once
  · rw [hfd] at hreport
    rw [hfd, Function.update_self, hreport, Bool.or_true]
  · rw [Function.update_of_ne hfd]
    exact h fd' ((reportable_congr (hothers fd' hfd)) ▸ hreport)

/-- An event that has been handed out is not due again: its registration is disarmed. -/
theorem Heard.deliver (h : Heard t) (hI : t.machine.Attended) (evs : List Fd) :
    Heard { t with
      machine := t.machine.goto { t.machine.sched with
        epoll := evs.foldl Epoll.deliver t.machine.sched.epoll } (.events evs)
      pending := t.pendingAfter (.epollWait evs) } := by
  intro fd hreport
  obtain ⟨r', hr', harmed, hmask⟩ := reportable_iff.mp hreport
  obtain ⟨r, hr, hevents, hstill, hspent⟩ := Machine.deliver_registered evs hr'
  rw [hevents] at hmask
  have hold := h fd (reportable_iff.mpr ⟨r, hr, hstill harmed, hmask⟩)
  simp only [pendingAfter, hold, Bool.true_and, Bool.not_eq_true', Bool.and_eq_false_iff]
  -- the pipe is level-triggered; everything else that was reported is disarmed
  by_cases hmem : fd ∈ evs
  · right
    by_cases hfd : fd = t.machine.sched.pipeReadFd
    · rw [hfd] at hr
      simp [edgeTriggered, hfd, hr, hI.level r hr]
    · rw [hspent hmem (hI.oneShot fd r hfd hr)] at harmed
      cases harmed
  · left
    simpa using hmem

theorem Heard.program [Inhabited α] {H : StdHeap timerAfter} (h : Heard t)
    (hI : t.machine.Attended) (hs : Machine.Stepped H t.machine a m')
    (hok : t.machine.Orderly a m') :
    Heard { t with machine := m', pending := t.pendingAfter a } := by
  cases a with
  | waitEvent fd events =>
      cases hs with
      | waitEvent self _ _ _ hself => exact h.register hI hself hok.1
  | closeFd fd =>
      cases hs with
      | closeFd self _ hpc _ => exact h.unregister rfl rfl
  | epollWait evs =>
      cases hs with
      | epollWait _ hpc => exact h.deliver hI evs
  | readyLoop =>
      cases hs with
      | readyEmpty hpc hq => exact h.quiet rfl (by simp only [pendingAfter, hq])
      -- a coroutine resumed in `wait_event` removes its registration, no other does
      | readyNext p rest hpc hq =>
          have hsame : (({ t.machine.sched with readyQueue := rest, runningCoro := some p } :
              Scheduler τ α).setState p .running).coros p
                = { t.machine.sched.coros p with state := .running } := by
            simp [setState]
          cases hctx : (t.machine.sched.coros p).ctx with
          | inWaitEvent fd events =>
              have hpending : t.pendingAfter .readyLoop = Function.update t.pending fd false := by
                simp only [pendingAfter, hq, hctx]
              refine h.unregister ?_ hpending
              simp only [Machine.goto, Scheduler.switchTo, Scheduler.resumed, hsame, hctx]
              rfl
          | _ =>
              refine h.quiet ?_ (by simp only [pendingAfter, hq, hctx])
              simp only [Machine.goto, Scheduler.switchTo, Scheduler.resumed, hsame, hctx]
              rfl
  | event =>
      cases hs.wait with
      | aside _ haside _ _ => exact h.quiet haside.epoll rfl
      | pipe fd evs _ _ => exact h.quiet rfl rfl
      | wake fd evs _ _ => exact h.quiet (wakeFd_shared t.machine.sched fd).2.2 rfl
  | _ =>
      cases hs.wait with
      | aside _ haside _ _ => exact h.quiet haside.epoll rfl

end Steps

section Runs

variable [Inhabited α] {H : StdHeap timerAfter} {t t' : Polled τ α}

/-- What a program step of `Polled` is: a step of the machine, in which `epoll_wait`
    reports armed descriptors once each. -/
theorem step_program {a : Act τ α} (hs : Polled.step H t (.program a) = some t') :
    ∃ m', Machine.Stepped H t.machine a m' ∧
      t' = { t with machine := m', pending := t.pendingAfter a } ∧
      ∀ evs, a = .epollWait evs → evs.Nodup ∧
        ∀ fd ∈ evs, ∃ r, t.machine.sched.epoll fd = some r ∧ r.armed = true := by
  simp only [Polled.step, Option.ite_none_right_eq_some] at hs
  obtain ⟨hallowed, hs⟩ := hs
  obtain ⟨m', hm, rfl⟩ := Option.map_eq_some_iff.mp hs
  refine ⟨m', Machine.step_cases hm, rfl, ?_⟩
  rintro evs rfl
  simp only [mayReturn, Bool.and_eq_true, decide_eq_true_eq, List.all_eq_true] at hallowed
  refine ⟨hallowed.1.1, fun fd hfd => ?_⟩
  obtain ⟨r, hr, harmed, -⟩ := reportable_iff.mp (hallowed.2 fd hfd).2
  exact ⟨r, hr, harmed⟩

/-- **Step lemma.** -/
theorem invariant_step (hI : t.machine.Attended) (h : Heard t) {ev : Event τ α}
    (hs : Polled.step H t ev = some t') (hok : Orderly t ev t') :
    t'.machine.Attended ∧ Heard t' := by
  cases ev with
  | program a =>
      obtain ⟨m', hstepped, rfl, hevs⟩ := step_program hs
      exact ⟨hI.step hstepped hok hevs, h.program hI hstepped hok⟩
  | readiness fd mask again =>
      obtain rfl := Option.some.inj hs
      exact ⟨hI, h.readiness fd mask again⟩

/-- **Run lemma.** -/
theorem invariant_run (pipeReadFd : Fd) (pipeCap : ℕ+) (junk : Coroutine τ α)
    (ready : Fd → UInt32)
    (hrun : Run (Polled.step H) Orderly (init pipeReadFd pipeCap junk ready) t) :
    t.machine.Attended ∧ Heard t := by
  refine hrun.invariant (P := fun t => t.machine.Attended ∧ Heard t)
    ⟨Machine.attended_init pipeReadFd pipeCap junk, fun _ h => h⟩ ?_
  intro t ev t' ⟨hI, h⟩ hs hok
  exact invariant_step hI h hs hok

/-- **No wake-up is lost.** In every run with one waiter for each descriptor, however
    the descriptors become ready: a parked coroutine is in `waiting_map`, and if its
    descriptor is ready for what it asked, then its registration is armed and `epoll`
    has the event, or the event has been returned and is about to be handled; it stays
    parked until then; and the handling of an event makes the one coroutine parked on
    the descriptor ready, and no other, once. -/
theorem no_lost_wakeup (pipeReadFd : Fd) (pipeCap : ℕ+) (junk : Coroutine τ α)
    (ready : Fd → UInt32)
    (hrun : Run (Polled.step H) Orderly (init pipeReadFd pipeCap junk ready) t) :
    (∀ p fd events, t.machine.sched.Parks p fd events →
      t.machine.sched.waitingMap.lookup fd = some p ∧
      (reports (t.ready fd) events = true →
        (t.machine.sched.epoll fd = some ⟨events ||| EPOLLONESHOT ||| EPOLLET, true⟩ ∧
            t.pending fd = true) ∨
          fd ∈ t.machine.pc.batch) ∧
      ∀ ev t', Polled.step H t ev = some t' → Orderly t ev t' →
        t'.machine.sched.Parks p fd events ∨
          ((∃ evs, t.machine.pc = .events (fd :: evs)) ∧ ev = .program .event)) ∧
    (∀ fd evs, t.machine.pc = .events (fd :: evs) → fd ≠ t.machine.sched.pipeReadFd →
      ∃ p events, t.machine.sched.Parks p fd events ∧ fd ∉ evs ∧
        p ∉ t.machine.sched.readyQueue ∧
        ∃ t', Polled.step H t (.program .event) = some t' ∧
          t'.machine.sched.readyQueue = t.machine.sched.readyQueue ++ [p] ∧
          t'.machine.sched.coros = Function.update t.machine.sched.coros p
            { t.machine.sched.coros p with state := .ready } ∧
          t'.machine.sched.waitingMap.lookup fd = none) := by
  obtain ⟨hI, h⟩ := invariant_run pipeReadFd pipeCap junk ready hrun
  refine ⟨fun p fd events hp => ⟨hI.mapped p fd events hp, fun hready => ?_, ?_⟩, ?_⟩
  -- watched and ready, so the event is due
  · refine (hI.watched p fd events hp).imp_left fun harmed => ⟨harmed, ?_⟩
    refine h fd (reportable_iff.mpr ⟨_, harmed, rfl, ?_⟩)
    exact reports_or _ (reports_or _ hready)
  · intro ev t' hs hok
    obtain ⟨hI', -⟩ := invariant_step hI h hs hok
    cases ev with
    | program a =>
        obtain ⟨m', hstepped, rfl, -⟩ := step_program hs
        refine (hI.tidy.stays hI'.tidy hstepped.wait hp (hI.mapped p fd events hp)).imp_right ?_
        rintro ⟨hpc, rfl, -⟩
        exact ⟨hpc, rfl⟩
    | readiness fd' mask again =>
        obtain rfl := Option.some.inj hs
        exact .inl hp
  · intro fd evs hpc hfd
    have hbatch := (Machine.batch_of_events hpc).1
    -- the event was reported for an armed registration, which has a waiter
    obtain ⟨p, hlook⟩ := Option.ne_none_iff_exists'.mp
      (hI.owned fd hfd (.inr (hbatch ▸ List.mem_cons_self)))
    obtain ⟨events, hp⟩ := hI.tidy.parks_of_lookup hlook
    refine ⟨p, events, hp, (List.nodup_cons.mp (hbatch ▸ hI.nodup)).1, ?_, ?_⟩
    · intro hmem
      have hst := (hI.tidy.once.ready hmem).2.1
      rw [hp.2.1] at hst
      cases hst
    · refine ⟨_, by simp [Polled.step, Machine.step, Machine.stepRun, hpc, hfd]; rfl, ?_, ?_, ?_⟩
      all_goals simp [Machine.goto, wakeFd, hlook, makeReady, setState]

end Runs

theorem orderly_of_plain {t t' : Polled τ α} {ev : Event τ α}
    (h : Machine.OneWaiter t'.machine.sched ∧ ev.plain t.machine.sched.pipeReadFd = true) :
    Orderly t ev t' := by
  cases ev with
  | readiness fd mask again => trivial
  | program a =>
      refine ⟨h.1, ?_⟩
      cases a with
      | waitEvent fd events => exact bne_iff_ne.mp h.2
      | closeFd fd => exact Bool.noConfusion h.2
      | _ => trivial

/-- Two coroutines park, on 5 and on 6, and nobody is ready. -/
def bothPark : List (Event Nat Nat) :=
  [.program (.create 7), .program (.create 8), .program .run, .program .readyLoop,
    .program (.waitEvent 5 EPOLLIN), .program .reap, .program .readyLoop,
    .program (.waitEvent 6 EPOLLIN), .program .reap, .program .readyLoop]

/-- Two coroutines; the descriptor of the first becomes readable after it has parked. -/
theorem no_lost_wakeup_readable :
    ∃ t : Polled Nat Nat,
      Run (Polled.step sortedTimers) Orderly (init 3 64 ⟨.entry, 0, .ready, 0⟩ fun _ => 0) t ∧
      t.machine.sched.Parks 0 5 EPOLLIN ∧ t.ready 5 = EPOLLIN ∧
      ((t.machine.sched.epoll 5 = some ⟨EPOLLIN ||| EPOLLONESHOT ||| EPOLLET, true⟩ ∧
          t.pending 5 = true) ∨ 5 ∈ t.machine.pc.batch) := by
  obtain ⟨t, hplain, hend⟩ := exists_run_of_exec (Polled.step sortedTimers)
    (fun t ev t' => Machine.OneWaiter t'.machine.sched ∧
      ev.plain t.machine.sched.pipeReadFd = true)
    (fun t : Polled Nat Nat => decide (t.machine.sched.Parks 0 5 EPOLLIN ∧ t.ready 5 = EPOLLIN))
    (init 3 64 ⟨.entry, 0, .ready, 0⟩ fun _ => 0)
    (bothPark ++ [.readiness 5 EPOLLIN false]) (by decide +kernel)
  obtain ⟨hparks, hready⟩ := of_decide_eq_true hend
  have hrun := hplain.mono fun _ _ _ => orderly_of_plain
  exact ⟨t, hrun, hparks, hready,
    ((no_lost_wakeup 3 64 _ _ hrun).1 0 5 EPOLLIN hparks).2.1 (by rw [hready]; decide)⟩

/-! ### Where woken coroutines do not count -/

/-- After the step no descriptor has two parked coroutines, but one may be parked on the
    descriptor of another that has been woken. -/
def OneParked (t : Polled τ α) (ev : Event τ α) (t' : Polled τ α) : Prop :=
  t'.machine.sched.ExclusiveFds ∧ ev.plain t.machine.sched.pipeReadFd = true

instance (t : Polled τ α) (ev : Event τ α) (t' : Polled τ α) : Decidable (OneParked t ev t') :=
  inferInstanceAs (Decidable (_ ∧ _))

/-- The second coroutine is woken before the first, finds the send buffer of the first
    one's connection full and parks there; then the first is resumed. -/
theorem woken_unregisters :
    ¬ ∀ t : Polled Nat Nat,
      Run (Polled.step sortedTimers) OneParked (init 3 64 ⟨.entry, 0, .ready, 0⟩ fun _ => 0) t →
      ∀ p fd events, t.machine.sched.Parks p fd events →
        t.machine.sched.waitingMap.lookup fd = some p → reports (t.ready fd) events = true →
        t.machine.Watched fd events ∨ t.pending fd = true := by
  intro hheld
  obtain ⟨t, hrun, hend⟩ := exists_run_of_exec (Polled.step sortedTimers) OneParked
    (fun t : Polled Nat Nat => decide (t.machine.sched.Parks 1 5 EPOLLOUT ∧
      t.machine.sched.waitingMap.lookup 5 = some 1 ∧ reports (t.ready 5) EPOLLOUT = true ∧
      t.machine.sched.epoll 5 = none ∧ t.machine.pc = .coroutine ∧ t.pending 5 = false))
    (init 3 64 ⟨.entry, 0, .ready, 0⟩ fun _ => 0)
    (bothPark ++ [.readiness 6 EPOLLIN false, .readiness 5 EPOLLIN false,
      .program (.fireTimers 0), .program (.epollWait [6, 5]), .program .event, .program .event,
      .program (.lastTimers 0), .program .readyLoop, .program (.waitEvent 5 EPOLLOUT),
      .program .reap, .program .readyLoop, .readiness 5 (EPOLLIN ||| EPOLLOUT) false])
    (by decide +kernel)
  obtain ⟨hparks, hlook, hready, hepoll, hpc, hpending⟩ := of_decide_eq_true hend
  rcases hheld t hrun 1 5 EPOLLOUT hparks hlook hready with (harmed | hbatch) | hdue
  · rw [hepoll] at harmed
    cases harmed
  · rw [hpc] at hbatch
    cases hbatch
  · rw [hpending] at hdue
    cases hdue

end Polled

end CoroutineHttp.Core
