/-
  CoroutineHttp.Ws.Schedulers

  `MultiScheduler`: the chat sessions of `CoroutineHttp.Ws.ChatRoom` on any number of
  schedulers, each with a thread, under one room and one heap.

  A `Connection` waits on the scheduler it was constructed on (`home`), whoever writes to
  it, and `wait_event` acts on the `running_coro` of that scheduler.  So what a thread
  executes (`Thread`) is kept apart from what its scheduler takes it to execute, and the
  context saved in a coroutine apart from the coroutine it was saved of (`owner`).
-/

import CoroutineHttp.Ws.Sessions

namespace CoroutineHttp.Ws

open CoroutineHttp.Library CoroutineHttp.Core CoroutineHttp.Net

/-- A thread of the `MultiScheduler`. -/
structure Thread where
  /-- The scheduler whose `run` it is in. -/
  sched : Nat
  pc : RunPc Task
  /-- At `coroutine`, the coroutine whose code it executes. -/
  exec : Option CoroPtr

/-- The schedulers and their threads.  The heap of the coroutines is one; `machines` has
    the other members of each scheduler, its pipe and those who post to it. -/
structure World where
  coros : CoroPtr → Coroutine Task Unit
  allocs : Nat
  deletes : List CoroPtr
  machines : Nat → Machine Task Unit
  threads : Nat → Thread
  /-- The coroutine whose execution is saved in the context of another. -/
  owner : CoroPtr → CoroPtr
  /-- The scheduler a connection is bound to. -/
  home : CoroPtr → Nat
  room : ChatRoom
  sessions : CoroPtr → Option Session
  isOpen : Fd → Bool

/-- Steps. -/
inductive WorldAct where
  /-- Of thread `t`. -/
  | thread (t : Nat) (a : ChatAct)
  /-- A connection has been accepted, and `k` appends its task to scheduler `v`. -/
  | post (v k : Nat) (fd : Fd)
  /-- `k` writes the byte that wakes scheduler `v`. -/
  | postWrite (v k : Nat)

/-- The scheduler has a pointer to `p`. -/
def Knows (s : Scheduler Task Unit) (p : CoroPtr) : Prop :=
  p ∈ s.readyQueue ∨ s.runningCoro = some p ∨ ∃ fd, s.waitingMap.lookup fd = some p

/-- What a step of `run` does to the coroutines: it makes at most one, of the task
    `new`, and executes none that it did not know. -/
structure Onward (m m' : Machine Task Unit) (new : Option Task) : Prop where
  knows : ∀ p, Knows m'.sched p → Knows m.sched p ∨ (p = m.sched.allocs ∧ new.isSome)
  allocs : m'.sched.allocs = m.sched.allocs + if new.isSome then 1 else 0
  func : ∀ p, p < m.sched.allocs → (m'.sched.coros p).func = (m.sched.coros p).func
  created : ∀ f ∈ new, (m'.sched.coros m.sched.allocs).func = f
  timers : m'.sched.timerHeap = []
  posted : ∀ f ∈ m'.sched.postQueue, f ∈ m.sched.postQueue
  drained : ∀ fs evs, m'.pc = .drain fs evs → ∀ f ∈ fs,
    f ∈ m.sched.postQueue ∨ ∃ fs' evs', m.pc = .drain fs' evs' ∧ f ∈ fs'
  runs : m'.pc = .coroutine → ∃ p, m'.sched.runningCoro = some p

/-- A step that makes no coroutine. -/
theorem Onward.still {m m' : Machine Task Unit} (htimers : m'.sched.timerHeap = [])
    (hknows : ∀ p, Knows m'.sched p → Knows m.sched p)
    (hallocs : m'.sched.allocs = m.sched.allocs)
    (hfunc : ∀ p, (m'.sched.coros p).func = (m.sched.coros p).func)
    (hposted : ∀ f ∈ m'.sched.postQueue, f ∈ m.sched.postQueue)
    (hdrained : ∀ fs evs, m'.pc = .drain fs evs → ∀ f ∈ fs,
      f ∈ m.sched.postQueue ∨ ∃ fs' evs', m.pc = .drain fs' evs' ∧ f ∈ fs')
    (hruns : m'.pc = .coroutine → ∃ p, m'.sched.runningCoro = some p) : Onward m m' none :=
  ⟨fun p hp => .inl (hknows p hp), hallocs, fun p _ => hfunc p, nofun, htimers, hposted, hdrained,
    hruns⟩

/-- `create`. -/
theorem Onward.create {m m' : Machine Task Unit} (f : Task)
    (hsched : m'.sched = m.sched.create f) (htimers : m.sched.timerHeap = [])
    (hdrained : ∀ fs evs, m'.pc = .drain fs evs → ∀ f ∈ fs,
      f ∈ m.sched.postQueue ∨ ∃ fs' evs', m.pc = .drain fs' evs' ∧ f ∈ fs')
    (hruns : m'.pc = .coroutine → ∃ p, m'.sched.runningCoro = some p) : Onward m m' (some f) := by
  refine ⟨fun p hp => ?_, ?_, fun p hp => ?_, fun g hg => ?_, ?_, fun g hg => ?_, hdrained, hruns⟩
  · rw [hsched] at hp
    rcases hp with hp | hp | hp
    · rcases List.mem_append.mp hp with hp | hp
      · exact .inl (.inl hp)
      · exact .inr ⟨List.mem_singleton.mp hp, rfl⟩
    · exact .inl (.inr (.inl hp))
    · exact .inl (.inr (.inr hp))
  · rw [hsched]
    rfl
  · rw [hsched, Scheduler.create]
    dsimp only
    rw [Function.update_of_ne (Nat.ne_of_lt hp)]
  · cases hg
    rw [hsched, Scheduler.create]
    dsimp only
    rw [Function.update_self]
  · rw [hsched]
    exact htimers
  · rw [hsched] at hg
    exact hg

/-- A step of `run` to another program point. -/
theorem Onward.goto {m : Machine Task Unit} {pc : RunPc Task} (htimers : m.sched.timerHeap = [])
    (hpc : pc ≠ .coroutine)
    (hdrained : ∀ fs evs, pc = .drain fs evs → ∃ evs', m.pc = .drain fs evs') :
    Onward m (m.goto m.sched pc) none := by
  refine .still htimers (fun p hp => hp) rfl (fun p => rfl) (fun f hf => hf) ?_
    fun h => absurd h hpc
  intro fs evs h f hf
  obtain ⟨evs', hold⟩ := hdrained fs evs h
  exact .inr ⟨fs, evs', hold, hf⟩

theorem Onward.switch {m : Machine Task Unit} {p : CoroPtr} {rest : List CoroPtr}
    (htimers : m.sched.timerHeap = []) (hq : m.sched.readyQueue = p :: rest) :
    Onward m (m.goto (m.sched.switchTo p rest) .coroutine) none := by
  obtain ⟨-, htimer, hrun, -⟩ := Scheduler.switchTo_frame m.sched p rest
  obtain ⟨hqueue, hallocs, -, hmap⟩ := Scheduler.switchTo_shared m.sched p rest
  have hposted : (m.sched.switchTo p rest).postQueue = m.sched.postQueue := by
    rw [Scheduler.switchTo, Scheduler.resumed_eq]
    rfl
  refine .still (htimer.trans htimers) (fun q hk => ?_) hallocs (fun q => ?_)
    (fun f hf => hposted ▸ hf) (fun fs evs h => ?_) fun _ => ⟨p, hrun⟩
  · rcases hk with hk | hk | ⟨fd, hk⟩
    · left
      rw [hq]
      exact List.mem_cons_of_mem p (hqueue ▸ hk)
    · obtain rfl : p = q := Option.some.inj (hrun.symm.trans hk)
      left
      rw [hq]
      exact List.mem_cons_self
    · exact .inr (.inr ⟨fd, hmap ▸ hk⟩)
  · by_cases hqp : q = p
    · subst hqp
      show ((m.sched.switchTo q rest).coros q).func = (m.sched.coros q).func
      rw [Scheduler.switchTo, Scheduler.resumed_eq]
      simp [Scheduler.setState]
    · exact congrArg Coroutine.func (Scheduler.switchTo_other rest hqp)
  · cases h

theorem Onward.wake {m : Machine Task Unit} (htimers : m.sched.timerHeap = []) (fd : Fd)
    (evs : List Fd) : Onward m (m.goto (m.sched.wakeFd fd) (.events evs)) none := by
  cases hlook : m.sched.waitingMap.lookup fd with
  | none =>
      rw [Scheduler.wakeFd_none hlook]
      exact .goto htimers (by simp) (by simp)
  | some co =>
      have hwake : m.sched.wakeFd fd =
          { m.sched with waitingMap := m.sched.waitingMap.erase fd }.makeReady co := by
        rw [Scheduler.wakeFd, hlook]
      rw [hwake]
      refine .still htimers (fun q hk => ?_) rfl (fun q => ?_) (fun f hf => hf)
        (by simp [Machine.goto]) (by simp [Machine.goto])
      · rcases hk with hk | hk | ⟨fd', hk⟩
        · rcases List.mem_append.mp hk with hk | hk
          · exact .inl hk
          · obtain rfl := List.mem_singleton.mp hk
            exact .inr (.inr ⟨fd, hlook⟩)
        · exact .inr (.inl hk)
        · by_cases hfd : fd' = fd
          · subst hfd
            have hgone : (m.sched.waitingMap.erase fd').lookup fd' = none := AList.lookup_erase _ _
            have hnone : none = some q := hgone.symm.trans hk
            cases hnone
          · exact .inr (.inr ⟨fd', (AList.lookup_erase_ne hfd).symm.trans hk⟩)
      · show (Function.update m.sched.coros co _ q).func = _
        by_cases hq : q = co
        · subst hq
          rw [Function.update_self]
        · rw [Function.update_of_ne hq]

/-- Without timers the step of `run` that fires them does nothing. -/
theorem Onward.fire {H : StdHeap timerAfter} {m : Machine Task Unit} {pc : RunPc Task}
    (htimers : m.sched.timerHeap = []) (now : Int64) (hpc : pc ≠ .coroutine)
    (hdrained : ∀ fs evs, pc ≠ .drain fs evs) :
    Onward m (m.goto (m.sched.fireTimers H now).1 pc) none := by
  rw [Scheduler.fireTimers_empty H htimers]
  exact .goto htimers hpc fun fs evs h => absurd h (hdrained fs evs)

/-- **Steps of `run`.** With no timer set, the coroutines made are those of tasks that
    were posted, and those `main` creates. -/
theorem onward {H : StdHeap timerAfter} {m m' : Machine Task Unit} {a : Act Task Unit}
    (hs : Machine.Stepped H m a m') (hpc : m.pc ≠ .coroutine) (htimers : m.sched.timerHeap = [])
    (hpost : ∀ t, a ≠ .postWrite t) (hpost' : ∀ t f, a ≠ .postAppend t f) :
    ∃ new, Onward m m' new ∧
      ∀ f ∈ new, (∃ fs evs, m.pc = .drain fs evs ∧ f ∈ fs) ∨ a = .create f := by
  cases hs with
  -- steps that move the program point only
  | run h | readyEmpty h hq | eventPipe fd evs h hfd | pipeEmpty evs h hp | drainDone evs h =>
      exact ⟨none, .goto htimers nofun nofun, nofun⟩
  | epollFail eintr h =>
      refine ⟨none, .goto htimers ?_ ?_, nofun⟩
      · cases eintr <;> nofun
      · cases eintr <;> nofun
  | createMain f h =>
      refine ⟨some f, .create f rfl htimers nofun nofun, ?_⟩
      rintro _ ⟨⟩
      exact .inr rfl
  | readyNext p rest h hq => exact ⟨none, .switch htimers hq, nofun⟩
  | reap h =>
      obtain ⟨hcoros, hallocs, htimer, hrun⟩ := Scheduler.reap_frame m.sched
      obtain ⟨hready, hmap, hposted⟩ := Scheduler.reap_queues m.sched
      refine ⟨none, .still (htimer.trans htimers) (fun p hp => ?_) hallocs (fun p => ?_)
        (fun f hf => hposted ▸ hf) nofun nofun, nofun⟩
      · rcases hp with hp | hp | ⟨fd, hp⟩
        · exact .inl (hready ▸ hp)
        · exact absurd (hrun.symm.trans hp) nofun
        · exact .inr (.inr ⟨fd, hmap ▸ hp⟩)
      · exact congrArg (fun coros => (coros p).func) hcoros
  | fireTimers now h =>
      refine ⟨none, .fire htimers now ?_ ?_, nofun⟩
      · split <;> nofun
      · split <;> nofun
  | lastTimers now h => exact ⟨none, .fire htimers now nofun nofun, nofun⟩
  | epollWait evs h =>
      exact ⟨none, .still htimers (fun p hp => hp) rfl (fun p => rfl) (fun f hf => hf) nofun nofun,
        nofun⟩
  | eventWake fd evs h hfd => exact ⟨none, .wake htimers fd evs, nofun⟩
  | pipeRead evs h hp =>
      refine ⟨none, .still htimers (fun p hp => hp) rfl (fun p => rfl) (fun f hf => hf) ?_
        fun hc => absurd hc hpc, nofun⟩
      intro fs evs' hd
      exact absurd (h.symm.trans hd) nofun
  | swapQueue evs h =>
      refine ⟨none, .still htimers (fun p hp => hp) rfl (fun p => rfl) nofun ?_ nofun, nofun⟩
      rintro fs evs' ⟨⟩ f hf
      exact .inl hf
  | drainNext f fs evs h =>
      refine ⟨some f, .create f rfl htimers ?_ nofun, ?_⟩
      · rintro fs' evs' ⟨⟩ g hg
        exact .inr ⟨f :: fs, evs, h, List.mem_cons_of_mem f hg⟩
      · rintro _ ⟨⟩
        exact .inl ⟨f :: fs, evs, h, List.mem_cons_self⟩
  -- not steps of the thread
  | postAppend t f ht => exact absurd rfl (hpost' t f)
  | postWrite t ht => exact absurd rfl (hpost t)
  -- steps of a coroutine, which does not run here
  | create self f h _ | yield self h _ | waitEvent self fd events h _ | sleep self now ms h _
  | send self ch val h _ | recv self ch h _ | closeFd self fd h _ | finish self h _ =>
      exact absurd h hpc

namespace Chat

section Inversion

variable {c c' : Chat} {self : CoroPtr} {a : ChatAct} {b : Option (Act Task Unit)}

theorem CoroutineStepped.machine (hs : CoroutineStepped c self c' b) : c'.machine = c.machine := by
  cases hs with
  | move c' fd pc pc' hself hfree hview hroom hm hopen => exact hm
  | destroy c' fd fd' b hself hview hroom hm hclose => exact hm
  | start fd hnone htask | acceptWait fd hnone htask | accept fd hfresh
  | ownWait fd pc events hself hlive | clientWait client own fd pc pc' hself hclient htarget
  | join fd nick hself hfree | leave fd hself hfree | lock fd phase msg hself hfree
  | unlock fd phase msg hself | finish => rfl

/-- The actions a coroutine ends its step in. -/
theorem CoroutineStepped.ends (hs : CoroutineStepped c self c' b) :
    b = none ∨ (∃ fd events, b = some (.waitEvent fd events) ∧ c' = c) ∨
      (∃ fd, b = some (.create (.connection fd))) ∨ (∃ fd, b = some (.closeFd fd)) ∨
        b = some .finish := by
  cases hs with
  | start fd hnone htask | move c' fd pc pc' hself hfree hview hroom hm hopen
  | join fd nick hself hfree | leave fd hself hfree | lock fd phase msg hself hfree
  | unlock fd phase msg hself => exact .inl rfl
  | acceptWait fd hnone htask | ownWait fd pc events hself hlive
  | clientWait client own fd pc pc' hself hclient htarget =>
      exact .inr (.inl ⟨fd, _, rfl, rfl⟩)
  | accept fd hfresh => exact .inr (.inr (.inl ⟨fd, rfl⟩))
  | destroy c' fd fd' b hself hview hroom hm hclose =>
      rcases hclose with ⟨rfl, -⟩ | ⟨rfl, -⟩
      · exact .inr (.inr (.inr (.inl ⟨fd, rfl⟩)))
      · exact .inl rfl
  | finish => exact .inr (.inr (.inr (.inr rfl)))

theorem isSome_view (c : Chat) (p : CoroPtr) : (c.view p).isSome = (c.sessions p).isSome :=
  Option.isSome_map

theorem view_goto_ne (c : Chat) {p q : CoroPtr} (hq : q ≠ p) (pc : SessionPc) :
    (c.goto p pc).view q = c.view q := by
  simp [view, goto, modify, hq]

/-- A session begins with the construction of its `Connection`. -/
theorem coroutineAct_sessions (h : c.coroutineAct self a = some (c', b)) {q : CoroPtr}
    (hq : (c'.sessions q).isSome) :
    (c.sessions q).isSome ∨ (q = self ∧ a = .start ∧ b = none) := by
  by_cases hqs : q = self
  · subst hqs
    cases coroutineStep_of_act h with
    | start fd hnone htask => exact .inr ⟨rfl, rfl, rfl⟩
    | acceptWait fd hnone htask => exact .inl hq
    | accept listenFd fd hnone htask hctx hfd hfresh => exact .inl hq
    | session s hs h =>
        left
        rw [hs]
        rfl
  -- the locals of another coroutine may change, but stay
  · left
    rw [← isSome_view] at hq ⊢
    cases coroutineAct_cases h with
    | start fd hnone htask =>
        have hother : (c.started self fd).sessions q = c.sessions q :=
          Function.update_of_ne hqs _ _
        rwa [view, hother] at hq
    | move c' fd pc pc' _ hfree hview hroom hm hopen =>
        rwa [hview, Function.update_of_ne hqs] at hq
    | destroy c' fd fd' b _ hview hroom hm hclose =>
        rwa [hview, Function.update_of_ne hqs] at hq
    | join fd nick hview hfree | leave fd hview hfree | lock fd phase msg hview hfree
    | unlock fd phase msg hview =>
        rw [view_goto_ne _ hqs] at hq
        exact hq
    | acceptWait fd hnone htask | accept fd hfresh | ownWait fd pc events _ hlive
    | clientWait client own fd pc pc' _ hclient htarget | finish => exact hq

/-- Where `wait_event` is called: by the accept loop, by a `write`, and by a session that
    reads or is in its HTTP part. -/
theorem coroutineAct_waits {fd : Fd} {events : UInt32}
    (h : c.coroutineAct self a = some (c', some (.waitEvent fd events))) :
    (a = .acceptWait ∧ (c.machine.sched.coros self).func = .acceptLoop fd) ∨ a = .send .eagain ∨
      ((c.sessions self).isSome ∧ a ≠ .acceptWait ∧ ∀ answer, a ≠ .send answer) := by
  cases coroutineStep_of_act h with
  | acceptWait fd hnone htask => exact .inl ⟨rfl, htask⟩
  | session s hs h =>
      have hsome : (c.sessions self).isSome := by
        rw [hs]
        rfl
      cases h with
      | sendWait client rest back t hpc ht hopen hrest => exact .inr (.inl rfl)
      | recvWait n next hpc hlt hopen => exact .inr (.inr ⟨hsome, nofun, nofun⟩)
      | httpWait reading hpc hopen => exact .inr (.inr ⟨hsome, nofun, nofun⟩)

end Inversion

end Chat

namespace World

/-- Before `main` does anything; `pipes` are the pipes the schedulers make. -/
def init (n : Nat) (pipes : Nat → Fd) (pipeCap : ℕ+) : World where
  coros _ := ⟨.entry, .acceptLoop (-1), .ready, 0⟩
  allocs := 0
  deletes := []
  machines v := .init (pipes v) pipeCap ⟨.entry, .acceptLoop (-1), .ready, 0⟩
  threads t := ⟨t, .start, none⟩
  owner p := p
  home _ := 0
  room := ⟨[], none⟩
  sessions _ := none
  isOpen fd := (List.range n).any fun v => pipes v == fd

/-- Scheduler `v`, with the heap. -/
def sched (w : World) (v : Nat) : Scheduler Task Unit :=
  { (w.machines v).sched with coros := w.coros, allocs := w.allocs, deletes := w.deletes }

/-- What thread `t` sees. -/
def chat (w : World) (t : Nat) : Chat where
  machine :=
    { w.machines (w.threads t).sched with
      sched := w.sched (w.threads t).sched
      pc := (w.threads t).pc }
  room := w.room
  sessions := w.sessions
  isOpen := w.isOpen

/-- What thread `t` executes once its scheduler is at `m`: the coroutine it was in, or
    the one whose execution it has switched to. -/
def executes (w : World) (t : Nat) (m : Machine Task Unit) : Option CoroPtr :=
  if m.pc = .coroutine then
    -- already in a coroutine, or switching to the context saved in one
    if (w.threads t).pc = .coroutine then (w.threads t).exec else m.sched.runningCoro.map w.owner
  else none

/-- Thread `t` leaves what it sees at `c`. -/
def put (w : World) (t : Nat) (c : Chat) : World :=
  { w with
    coros := c.machine.sched.coros
    allocs := c.machine.sched.allocs
    deletes := c.machine.sched.deletes
    machines := Function.update w.machines (w.threads t).sched c.machine
    threads := Function.update w.threads t
      { w.threads t with pc := c.machine.pc, exec := w.executes t c.machine }
    room := c.room
    sessions := c.sessions
    isOpen := c.isOpen }

/-- `Connection conn(client_fd, *tl_scheduler)`. -/
def bind (w : World) (t : Nat) : ChatAct → World
  | .start =>
      match (w.threads t).exec with
      | some self => { w with home := Function.update w.home self t }
      | none => w
  | _ => w

/-- The scheduler `self` calls `wait_event` on: that of the client it writes to, or of its
    own connection, or `accept_sched_`. -/
def waitSched (w : World) (self : CoroPtr) (a : ChatAct) : Nat :=
  match a, (w.sessions self).map Session.pc with
  -- `accept_sched_` is the first one, whoever runs the accept loop
  | .acceptWait, _ => 0
  | .send _, some (.write client _ _) => w.home client
  | _, _ => w.home self

/-- Thread `t`, which executes `self`, calls `wait_event` on scheduler `u`.  Its context
    is saved in the running coroutine of `u`, and it goes on in the `run` of `u`. -/
def waitEvent (w : World) (t : Nat) (self : CoroPtr) (u : Nat) (fd : Fd) (events : UInt32) :
    World :=
  match (w.machines u).sched.runningCoro with
  -- `if (!running_coro) return 0;` of the other scheduler
  | none => w
  | some cur =>
      { w with
        coros := ((w.sched u).waitEvent fd events).coros
        machines := Function.update w.machines u
          { w.machines u with sched := (w.sched u).waitEvent fd events }
        owner := Function.update w.owner cur self
        threads := Function.update w.threads t ⟨u, .switched, none⟩ }

/-- `self` is done, and thread `t` goes on in the `run` of `tl_scheduler`. -/
def finish (w : World) (t : Nat) (self : CoroPtr) : World :=
  { w with
    coros := Function.update w.coros self { w.coros self with state := .done }
    threads := Function.update w.threads t ⟨t, .switched, none⟩ }

/-- The kernel drops the registrations of a closed descriptor. -/
def closeFd (w : World) (fd : Fd) : World :=
  { w with
    machines := fun v =>
      { w.machines v with
        sched := { (w.machines v).sched with epoll := (w.machines v).sched.epoll.ctlDel fd } } }

/-- What a step of thread `t` does outside the scheduler, and the action of a scheduler
    it ends in.  The accept loop is created on the first scheduler, and posts the
    connections it accepts. -/
def act (w : World) (t : Nat) (a : ChatAct) : Option (Chat × Option (Act Task Unit)) :=
  match a with
  -- posting is not a thread's step, and connections are posted, not created
  | .sys (.postWrite _) | .post _ _ | .accept _ => none
  | .sys a => (w.chat t).act (.sys a)
  | .listen fd => if t = 0 then (w.chat t).act (.listen fd) else none
  | a =>
      match (w.threads t).pc, (w.threads t).exec with
      | .coroutine, some self => (w.chat t).coroutineAct self a
      | _, _ => none

section Step

variable (H : StdHeap timerAfter) (n : Nat)

/-- A step of thread `t`. -/
def stepThread (w : World) (t : Nat) (a : ChatAct) : Option World :=
  match w.act t a with
  | none => none
  | some (c, none) => some ((w.put t c).bind t a)
  | some (c, some (.waitEvent fd events)) =>
      (w.threads t).exec.map fun self =>
        (w.put t c).waitEvent t self (w.waitSched self a) fd events
  -- `co_entry` does not look at `running_coro`: not the scheduler's step
  | some (c, some .finish) => (w.threads t).exec.map ((w.put t c).finish t)
  | some (c, some (.closeFd fd)) => some ((w.put t c).closeFd fd)
  | some (c, some b) => (c.machine.step H b).map fun m => w.put t (c.withMachine m)

/-- The step function of `n` schedulers. -/
def step (w : World) : WorldAct → Option World
  | .thread t a => if t < n then w.stepThread H t a else none
  | .post v k fd =>
      if n ≤ v ∨ fd < 0 ∨ w.isOpen fd then none
      else
        ((w.machines v).step H (.postAppend k (.connection fd))).map fun m =>
          { w with
            machines := Function.update w.machines v m
            isOpen := Function.update w.isOpen fd true }
  | .postWrite v k =>
      if n ≤ v then none
      else
        ((w.machines v).step H (.postWrite k)).map fun m =>
          { w with machines := Function.update w.machines v m }

end Step

/-- The call of `wait_event` that a step of thread `t` makes: the caller, the scheduler,
    the descriptor and the events. -/
def call (w : World) (t : Nat) (a : ChatAct) : Option (CoroPtr × Nat × Fd × UInt32) :=
  match w.act t a, (w.threads t).exec with
  | some (_, some (.waitEvent fd events)), some self => some (self, w.waitSched self a, fd, events)
  | _, _ => none

/-- The condition on a step: where a `send` answers `EAGAIN`, the connection it is on was
    accepted on the scheduler whose thread is executing. -/
def SendsHome (w : World) : WorldAct → World → Prop
  | .thread t (.send .eagain), _ =>
      ∀ self ∈ (w.threads t).exec, w.waitSched self (.send .eagain) = t
  | _, _ => True

instance (w : World) (a : WorldAct) (w' : World) : Decidable (w.SendsHome a w') := by
  unfold SendsHome
  split <;> infer_instance

/-- A call of `wait_event` parks its caller `p` on the scheduler of thread `t`, and
    touches no other coroutine and no other scheduler. -/
structure ParksCaller (w : World) (t : Nat) (p : CoroPtr) (fd : Fd) (events : UInt32)
    (w' : World) : Prop where
  waiting : (w'.machines t).sched.waitingMap.lookup fd = some p
  state : (w'.coros p).state = .waiting
  saved : (w'.coros p).ctx = .inWaitEvent fd events ∧ w'.owner p = p
  suspended : (w'.machines t).sched.runningCoro = none ∧ w'.threads t = ⟨t, .switched, none⟩
  coros : ∀ q, q ≠ p → w'.coros q = w.coros q ∧ w'.owner q = w.owner q
  others : ∀ v, v ≠ t → w'.machines v = w.machines v ∧ w'.threads v = w.threads v

section Invariant

variable {H : StdHeap timerAfter} {n : Nat} {w w' : World} {base : CoroPtr → Nat} {t : Nat}
  {self : CoroPtr}

/-- Thread `v` and its scheduler, at which the coroutines with `base` `v` are. -/
structure Own (base : CoroPtr → Nat) (allocs v : Nat) (th : Thread) (m : Machine Task Unit) :
    Prop where
  thread : th.sched = v
  exec : th.pc = .coroutine → ∃ p, th.exec = some p ∧ m.sched.runningCoro = some p
  knows : ∀ p, Knows m.sched p → p < allocs ∧ base p = v
  posted : ∀ f ∈ m.sched.postQueue, ∃ fd, f = .connection fd
  drained : ∀ fs evs, th.pc = .drain fs evs → ∀ f ∈ fs, ∃ fd, f = .connection fd
  timers : m.sched.timerHeap = []

/-- Every coroutine is known to one scheduler, on which it was made, and executed by the
    thread of this scheduler only. -/
structure Based (w : World) (base : CoroPtr → Nat) : Prop where
  own : ∀ v, Own base w.allocs v (w.threads v) (w.machines v)
  owner : ∀ p, w.owner p = p
  home : ∀ p, (w.sessions p).isSome → p < w.allocs ∧ w.home p = base p
  tasks : ∀ p fd, p < w.allocs → (w.coros p).func = .acceptLoop fd → base p = 0

theorem based_init (n : Nat) (pipes : Nat → Fd) (pipeCap : ℕ+) :
    Based (init n pipes pipeCap) fun _ => 0 where
  own v :=
    { thread := rfl
      exec := nofun
      knows := by
        rintro p (h | h | ⟨fd, h⟩)
        · cases h
        · cases h
        · cases h
      posted := nofun
      drained := nofun
      timers := rfl }
  owner p := rfl
  home p h := by cases h
  tasks p fd h := absurd h (Nat.not_lt_zero p)

/-- A new coroutine makes no difference to a thread that does not know it. -/
theorem Own.mono {base' : CoroPtr → Nat} {allocs allocs' v : Nat} {th : Thread}
    {m : Machine Task Unit} (h : Own base allocs v th m) (hle : allocs ≤ allocs')
    (hbase : ∀ p, p < allocs → base' p = base p) : Own base' allocs' v th m := by
  refine { h with knows := fun p hp => ?_ }
  obtain ⟨hlt, hb⟩ := h.knows p hp
  exact ⟨Nat.lt_of_lt_of_le hlt hle, (hbase p hlt).trans hb⟩

/-- Thread `t` and its scheduler move on. -/
theorem own_update {allocs : Nat} {threads : Nat → Thread} {machines : Nat → Machine Task Unit}
    {th : Thread} {m : Machine Task Unit}
    (hothers : ∀ v, v ≠ t → Own base allocs v (threads v) (machines v))
    (ht : Own base allocs t th m) (v : Nat) :
    Own base allocs v (Function.update threads t th v) (Function.update machines t m v) := by
  rcases eq_or_ne v t with rfl | hv
  · simpa only [Function.update_self] using ht
  · simpa only [Function.update_of_ne hv] using hothers v hv

/-- What thread `t` executes is the running coroutine of its scheduler. -/
theorem Based.running (hI : Based w base) (hpc : (w.threads t).pc = .coroutine)
    (hself : (w.threads t).exec = some self) :
    (w.machines t).sched.runningCoro = some self ∧ self < w.allocs ∧ base self = t := by
  obtain ⟨p, hp, hrun⟩ := (hI.own t).exec hpc
  obtain rfl : self = p := Option.some.inj (hself.symm.trans hp)
  exact ⟨hrun, (hI.own t).knows self (.inr (.inl hrun))⟩

/-- What thread `t` sees is its own scheduler. -/
theorem Based.chat_sched (hI : Based w base) (t : Nat) : (w.chat t).machine.sched = w.sched t :=
  congrArg w.sched (hI.own t).thread

theorem Based.chat_timers (hI : Based w base) (t : Nat) :
    (w.chat t).machine.sched.timerHeap = [] := by
  rw [hI.chat_sched]
  exact (hI.own t).timers

theorem Based.chat_running (hI : Based w base) (hpc : (w.threads t).pc = .coroutine)
    (hself : (w.threads t).exec = some self) :
    (w.chat t).machine.sched.runningCoro = some self := by
  rw [hI.chat_sched]
  exact (hI.running hpc hself).1

/-- A step of thread `t` that its scheduler allows. -/
theorem Based.put {c : Chat} {new : Option Task} (hI : Based w base)
    (hm : Onward (w.chat t).machine c.machine new)
    (hexec : c.machine.pc = .coroutine → ∃ p, w.executes t c.machine = some p ∧
      c.machine.sched.runningCoro = some p)
    (hnew : ∀ f ∈ new, ∀ fd, f = .acceptLoop fd → t = 0)
    (hsess : ∀ q, (c.sessions q).isSome → q < w.allocs ∧ w.home q = base q) :
    Based (w.put t c) (Function.update base w.allocs t) := by
  have ht := (hI.own t).thread
  have hbase (p : CoroPtr) (hp : p < w.allocs) : Function.update base w.allocs t p = base p :=
    Function.update_of_ne (Nat.ne_of_lt hp) _ _
  have hallocs : w.allocs ≤ c.machine.sched.allocs := by
    rw [hm.allocs]
    exact Nat.le_add_right _ _
  have hposted {f : Task} (hf : f ∈ (w.chat t).machine.sched.postQueue) :
      ∃ fd, f = .connection fd := by
    rw [hI.chat_sched] at hf
    exact (hI.own t).posted f hf
  -- the thread's own scheduler after the step, with the coroutine it may have made
  have hown : Own (Function.update base w.allocs t) c.machine.sched.allocs t
      { w.threads t with pc := c.machine.pc, exec := w.executes t c.machine } c.machine := by
    refine ⟨ht, hexec, fun p hp => ?_, fun f hf => hposted (hm.posted f hf),
      fun fs evs hpc f hf => ?_, hm.timers⟩
    · rcases hm.knows p hp with hk | ⟨rfl, hsome⟩
      · rw [hI.chat_sched] at hk
        obtain ⟨hlt, hb⟩ := (hI.own t).knows p hk
        exact ⟨Nat.lt_of_lt_of_le hlt hallocs, (hbase p hlt).trans hb⟩
      · refine ⟨?_, Function.update_self ..⟩
        rw [hm.allocs, if_pos hsome]
        exact Nat.lt_succ_self _
    · rcases hm.drained fs evs hpc f hf with hq | ⟨fs', evs', hpc', hf'⟩
      · exact hposted hq
      · exact (hI.own t).drained fs' evs' hpc' f hf'
  refine ⟨fun v => ?_, hI.owner, fun p hs => ?_, fun p fd hlt hf => ?_⟩
  · have hput : (w.put t c).machines = Function.update w.machines t c.machine := by
      rw [World.put, ht]
    rw [hput]
    exact own_update (fun v _ => (hI.own v).mono hallocs hbase) hown v
  · obtain ⟨hlt, hb⟩ := hsess p hs
    exact ⟨Nat.lt_of_lt_of_le hlt hallocs, hb.trans (hbase p hlt).symm⟩
  -- old tasks stay where they were; a new one is on thread `t`
  · by_cases hp : p < w.allocs
    · rw [hbase p hp]
      exact hI.tasks p fd hp ((hm.func p hp).symm.trans hf)
    · have hlt : p < c.machine.sched.allocs := hlt
      rw [hm.allocs] at hlt
      cases new with
      | none => exact absurd hlt hp
      | some f =>
          have heq : p = w.allocs := Nat.le_antisymm (Nat.le_of_lt_succ hlt) (Nat.not_lt.mp hp)
          subst heq
          rw [Function.update_self]
          exact hnew f rfl fd ((hm.created f rfl).symm.trans hf)

/-- A step of `run` on thread `t`, or of `main` before it. -/
theorem Based.run (hI : Based w base) {a : Act Task Unit} {m : Machine Task Unit} {c : Chat}
    (hs : Machine.Stepped H (w.chat t).machine a m) (hpc : (w.threads t).pc ≠ .coroutine)
    (hpost : ∀ k, a ≠ .postWrite k) (hpost' : ∀ k f, a ≠ .postAppend k f)
    (hcreate : ∀ f, a = .create f → t = 0) (hc : c.machine = m) (hsess : c.sessions = w.sessions) :
    Based (w.put t c) (Function.update base w.allocs t) := by
  subst hc
  obtain ⟨new, hm, hnew⟩ := onward hs hpc (hI.chat_timers t) hpost hpost'
  refine hI.put hm (fun hpc' => ?_) (fun f hf fd heq => ?_) fun q hq => hI.home q (hsess ▸ hq)
  -- the context switched to is that of the coroutine itself
  · obtain ⟨p, hp⟩ := hm.runs hpc'
    refine ⟨p, ?_, hp⟩
    rw [World.executes, if_pos hpc', if_neg hpc, hp, Option.map_some, hI.owner]
  · rcases hnew f hf with ⟨fs, evs, hdrain, hmem⟩ | hcr
    · obtain ⟨fd', hf'⟩ := (hI.own t).drained fs evs hdrain f hmem
      rw [heq] at hf'
      cases hf'
    · exact hcreate f hcr

/-- Thread `t` goes on executing `self`. -/
theorem put_thread {c : Chat} (hm : c.machine = (w.chat t).machine)
    (hpc : (w.threads t).pc = .coroutine) : (w.put t c).threads t = w.threads t := by
  have hpc' : c.machine.pc = .coroutine := by
    rw [hm]
    exact hpc
  simp only [World.put, Function.update_self, World.executes, if_pos hpc', if_pos hpc]
  rw [hpc', ← hpc]

/-- A step of `self` outside the scheduler. -/
theorem Based.act (hI : Based w base) {c : Chat} (hpc : (w.threads t).pc = .coroutine)
    (hself : (w.threads t).exec = some self) (hm : c.machine = (w.chat t).machine)
    (hsess : ∀ q, (c.sessions q).isSome → q < w.allocs ∧ w.home q = base q) :
    Based (w.put t c) (Function.update base w.allocs t) := by
  have hrun' : c.machine.sched.runningCoro = some self := by
    rw [hm]
    exact hI.chat_running hpc hself
  have hpc' : c.machine.pc = .coroutine := by
    rw [hm]
    exact hpc
  have hstill : Onward (w.chat t).machine c.machine none := by
    rw [hm] at hrun' ⊢
    exact .still (hI.chat_timers t) (fun p hp => hp) rfl (fun p => rfl) (fun f hf => hf)
      (fun fs evs h f hf => .inr ⟨fs, evs, h, hf⟩) fun _ => ⟨self, hrun'⟩
  refine hI.put hstill (fun _ => ⟨self, ?_, hrun'⟩) nofun hsess
  rw [World.executes, if_pos hpc', if_pos hpc]
  exact hself

/-- `wait_event` on the own scheduler. -/
theorem Based.waitEvent (hI : Based w base) (hpc : (w.threads t).pc = .coroutine)
    (hself : (w.threads t).exec = some self) (fd : Fd) (events : UInt32) :
    Based (w.waitEvent t self t fd events) base := by
  obtain ⟨hrun, hlt, hb⟩ := hI.running hpc hself
  have hrun' : (w.sched t).runningCoro = some self := hrun
  have hw : (w.sched t).waitEvent fd events =
      { ((w.sched t).setState self .waiting).swapOut self (.inWaitEvent fd events) with
        epoll := (w.sched t).registerFd fd events
        waitingMap := (w.sched t).waitingMap.insert fd self } := by
    rw [Scheduler.waitEvent, hrun']
  have hfunc (p : CoroPtr) :
      (((w.sched t).waitEvent fd events).coros p).func = (w.coros p).func := by
    by_cases hp : p = self
    · subst hp
      rw [hw]
      simp [Scheduler.swapOut, Scheduler.saveCtx, Scheduler.setState, World.sched]
    · rw [Scheduler.waitEvent_other hrun' fd events hp]
      rfl
  have hown : Own base w.allocs t ⟨t, .switched, none⟩
      { w.machines t with sched := (w.sched t).waitEvent fd events } := by
    rw [hw]
    refine ⟨rfl, (by simp), fun p hp => ?_, (hI.own t).posted, (by simp), (hI.own t).timers⟩
    -- the map has a new entry, which is `self`'s
    rcases hp with hp | hp | ⟨fd', hp⟩
    · exact (hI.own t).knows p (.inl hp)
    · cases hp
    · by_cases hfd : fd' = fd
      · subst hfd
        have hmine : some self = some p := (AList.lookup_insert _).symm.trans hp
        obtain rfl := Option.some.inj hmine
        exact ⟨hlt, hb⟩
      · exact (hI.own t).knows p (.inr (.inr ⟨fd', (AList.lookup_insert_ne hfd).symm.trans hp⟩))
  unfold World.waitEvent
  rw [hrun]
  refine ⟨own_update (fun v _ => hI.own v) hown, fun p => ?_, hI.home,
    fun p fd' hlt' hf => hI.tasks p fd' hlt' ((hfunc p).symm.trans hf)⟩
  by_cases hp : p = self
  · subst hp
    exact Function.update_self ..
  · exact (Function.update_of_ne hp _ _).trans (hI.owner p)

theorem Based.finish (hI : Based w base) (t : Nat) (self : CoroPtr) :
    Based (w.finish t self) base := by
  have hown : Own base w.allocs t ⟨t, .switched, none⟩ (w.machines t) :=
    { hI.own t with thread := rfl, exec := nofun, drained := nofun }
  refine ⟨fun v => ?_, hI.owner, hI.home, fun p fd hlt hf => hI.tasks p fd hlt ?_⟩
  · have h := own_update (fun v _ => hI.own v) hown v
    rwa [Function.update_eq_self] at h
  · rw [← hf]
    by_cases hp : p = self
    · subst hp
      simp [World.finish]
    · simp [World.finish, hp]

theorem Based.closeFd (hI : Based w base) (fd : Fd) : Based (w.closeFd fd) base :=
  ⟨fun v => { hI.own v with }, hI.owner, hI.home, hI.tasks⟩

/-- A thread that posts to scheduler `v`. -/
theorem Based.posted {v : Nat} {m : Machine Task Unit} {isOpen : Fd → Bool} (hI : Based w base)
    (hm : Own base w.allocs v (w.threads v) m) :
    Based { w with machines := Function.update w.machines v m, isOpen := isOpen } base := by
  refine ⟨fun u => ?_, hI.owner, hI.home, hI.tasks⟩
  have h := own_update (fun u _ => hI.own u) hm u
  rwa [Function.update_eq_self] at h

/-- Who acts in a step of thread `t`: the program outside the coroutines, `main`, or what
    the thread executes. -/
theorem act_cases {a : ChatAct} {c : Chat} {b : Option (Act Task Unit)}
    (h : w.act t a = some (c, b)) :
    (∃ a', b = some a' ∧ ofRun a' = true ∧ (∀ k, a' ≠ .postWrite k) ∧ c = w.chat t) ∨
      (∃ fd, b = some (.create (.acceptLoop fd)) ∧ t = 0 ∧ (w.threads t).pc = .start ∧
        c = (w.chat t).opened fd) ∨
      ∃ self, (w.threads t).pc = .coroutine ∧ (w.threads t).exec = some self ∧
        (w.chat t).coroutineAct self a = some (c, b) := by
  -- the steps that only a coroutine takes
  have hrunning : (match (w.threads t).pc, (w.threads t).exec with
        | .coroutine, some self => (w.chat t).coroutineAct self a
        | _, _ => none) = some (c, b) →
      ∃ self, (w.threads t).pc = .coroutine ∧ (w.threads t).exec = some self ∧
        (w.chat t).coroutineAct self a = some (c, b) := by
    intro h
    split at h
    next self hpc hself => exact ⟨self, hpc, hself, h⟩
    next => cases h
  cases a with
  | sys a =>
      have hsys : (w.chat t).act (.sys a) = some (c, b) ∧ ∀ k, a ≠ .postWrite k := by
        cases a with
        | postWrite k => cases h
        | run | readyLoop | create _ | yield | waitEvent _ _ | sleep _ _ | send _ _ | recv _
        | closeFd _ | finish | reap | fireTimers _ | epollWait _ | epollFail _ | event
        | lastTimers _ | readPipe | swapQueue | drain | postAppend _ _ => exact ⟨h, nofun⟩
      obtain ⟨h, hpost⟩ := hsys
      simp only [Chat.act] at h
      split at h
      next hrun =>
        cases h
        exact .inl ⟨a, rfl, hrun, hpost, rfl⟩
      next => cases h
  | listen fd =>
      simp only [World.act] at h
      split at h
      next ht =>
        simp only [Chat.act] at h
        split at h
        next => cases h
        next hfresh =>
          cases h
          have hpc : (w.threads t).pc = .start := by
            by_contra hpc
            exact hfresh (.inl hpc)
          exact .inr (.inl ⟨fd, rfl, ht, hpc, rfl⟩)
      next => cases h
  | post k fd | accept fd => cases h
  | acceptWait | start | http buf ended | httpWait reading | upgrade nick | locked
  | recv answer | send answer | next | destroy | finish =>
      exact .inr (.inr (hrunning h))

/-- The call is made by what the thread executes. -/
theorem call_cases {a : ChatAct} {u : Nat} {fd : Fd} {events : UInt32}
    (h : w.call t a = some (self, u, fd, events)) :
    ∃ c, w.act t a = some (c, some (.waitEvent fd events)) ∧ (w.threads t).pc = .coroutine ∧
      (w.threads t).exec = some self ∧ u = w.waitSched self a ∧
      (w.chat t).coroutineAct self a = some (c, some (.waitEvent fd events)) := by
  unfold World.call at h
  split at h
  next c fd' events' self' hact hself =>
    cases h
    rcases act_cases hact with ⟨a', hb, hrun, -⟩ | ⟨fd', hb, -⟩ | ⟨self', hpc, hself', hco⟩
    · cases hb
      cases hrun
    · cases hb
    · obtain rfl : self = self' := Option.some.inj (hself.symm.trans hself')
      exact ⟨c, hact, hpc, hself, rfl, hco⟩
  next => cases h

/-- Other than to send, a coroutine waits on the scheduler it was made on. -/
theorem Based.call_home (hI : Based w base) {a : ChatAct} {u : Nat} {fd : Fd} {events : UInt32}
    (hcall : w.call t a = some (self, u, fd, events)) :
    w.SendsHome (.thread t a) w' ↔ u = t := by
  obtain ⟨c, -, hpc, hself, rfl, hco⟩ := call_cases hcall
  obtain ⟨-, hlt, hbase⟩ := hI.running hpc hself
  rcases Chat.coroutineAct_waits hco with ⟨rfl, htask⟩ | rfl | ⟨hsome, hne, hsend⟩
  · refine ⟨fun _ => ?_, fun _ => trivial⟩
    -- the accept loop was created on the first scheduler
    show 0 = t
    rw [← hbase]
    exact (hI.tasks self fd hlt htask).symm
  -- on `send` the condition is the conclusion
  · refine ⟨fun h => h self hself, fun h self' hself' => ?_⟩
    obtain rfl : self = self' := Option.some.inj (hself.symm.trans hself')
    exact h
  · have hsched : w.waitSched self a = w.home self := by
      unfold World.waitSched
      split
      · exact absurd rfl hne
      next answer _ _ _ _ => exact absurd rfl (hsend answer)
      · rfl
    rw [hsched, (hI.home self hsome).2]
    refine ⟨fun _ => hbase, fun _ => ?_⟩
    unfold World.SendsHome
    split
    next t' w₁ heq =>
      cases heq
      exact absurd rfl (hsend .eagain)
    · trivial

/-- `run` is not in a coroutine when it acts. -/
theorem pc_of_ofRun {m m' : Machine Task Unit} {a : Act Task Unit}
    (hs : Machine.Stepped H m a m') (ha : ofRun a = true) (hpost : ∀ k, a ≠ .postWrite k) :
    m.pc ≠ .coroutine ∧ ∀ f, a ≠ .create f ∧ ∀ k, a ≠ .postAppend k f := by
  cases hs with
  | run h | readyEmpty h _ | readyNext _ _ h _ | reap h | fireTimers _ h | epollWait _ h
  | epollFail _ h | lastTimers _ h | eventPipe _ _ h _ | eventWake _ _ h _ | pipeEmpty _ h _
  | pipeRead _ h _ | swapQueue _ h | drainDone _ h | drainNext _ _ _ h =>
      refine ⟨?_, fun f => ⟨nofun, nofun⟩⟩
      rw [h]
      nofun
  | postWrite k _ => exact absurd rfl (hpost k)
  | createMain _ _ | create _ _ _ _ | yield _ _ _ | waitEvent _ _ _ _ _ | sleep _ _ _ _ _
  | send _ _ _ _ _ | recv _ _ _ _ | closeFd _ _ _ _ | finish _ _ _ | postAppend _ _ _ => cases ha

/-- The sessions after a step of `self` that is not the start of one. -/
theorem Based.sessions (hI : Based w base) {a : ChatAct} {c : Chat} {b : Act Task Unit}
    (hco : (w.chat t).coroutineAct self a = some (c, some b)) (q : CoroPtr)
    (hq : (c.sessions q).isSome) : q < w.allocs ∧ w.home q = base q := by
  rcases Chat.coroutineAct_sessions hco hq with hold | ⟨-, -, hb⟩
  · exact hI.home q hold
  · cases hb

theorem bind_eq (w : World) (t : Nat) (a : ChatAct) :
    w.bind t a = { w with home := (w.bind t a).home } := by
  unfold World.bind
  split
  · split <;> rfl
  · rfl

theorem bind_put {a : ChatAct} {c : Chat} (hm : c.machine = (w.chat t).machine)
    (hpc : (w.threads t).pc = .coroutine) : (w.put t c).bind t a = (w.bind t a).put t c := by
  rw [bind_eq w]
  cases a with
  | start =>
      have hthread := put_thread hm hpc
      simp only [World.bind, hthread]
      split <;> rfl
  | sys _ | listen _ | post _ _ | acceptWait | accept _ | http _ _ | httpWait _ | upgrade _ | locked
  | recv _ | send _ | next | destroy | finish => rfl

/-- A `Connection` is bound to the scheduler its coroutine was made on. -/
theorem Based.bind (hI : Based w base) (hpc : (w.threads t).pc = .coroutine)
    (hself : (w.threads t).exec = some self) (a : ChatAct) :
    Based (w.bind t a) base ∧ (a = .start → (w.bind t a).home self = base self) := by
  obtain ⟨-, -, hbase⟩ := hI.running hpc hself
  have hhome : ∀ q, (w.bind t a).home q = w.home q ∨ (q = self ∧ (w.bind t a).home q = base q) := by
    intro q
    cases a with
    | start =>
        simp only [World.bind, hself]
        by_cases hq : q = self
        · subst hq
          rw [Function.update_self]
          exact .inr ⟨rfl, hbase.symm⟩
        · exact .inl (Function.update_of_ne hq _ _)
    | sys _ | listen _ | post _ _ | acceptWait | accept _ | http _ _ | httpWait _ | upgrade _
    | locked | recv _ | send _ | next | destroy | finish => exact .inl rfl
  constructor
  · rw [bind_eq]
    refine ⟨hI.own, hI.owner, fun q hq => ?_, hI.tasks⟩
    obtain ⟨hlt, hb⟩ := hI.home q hq
    rcases hhome q with heq | ⟨-, heq⟩
    · exact ⟨hlt, heq.trans hb⟩
    · exact ⟨hlt, heq⟩
  · rintro rfl
    simp only [World.bind, hself, Function.update_self]
    exact hbase.symm

/-- `self` makes a coroutine for a connection. -/
theorem Based.create (hI : Based w base) {c : Chat} {m : Machine Task Unit} {fd : Fd}
    (hm : Machine.Stepped H c.machine (.create (.connection fd)) m)
    (hpc : (w.threads t).pc = .coroutine) (hself : (w.threads t).exec = some self)
    (hmach : c.machine = (w.chat t).machine)
    (hsess : ∀ q, (c.sessions q).isSome → q < w.allocs ∧ w.home q = base q) :
    Based (w.put t (c.withMachine m)) (Function.update base w.allocs t) := by
  rw [hmach] at hm
  have hrun := hI.chat_running hpc hself
  cases hm with
  | createMain f hstart => exact absurd (hpc.symm.trans hstart) nofun
  | create self' f hpc' hself' =>
      have honward : Onward (w.chat t).machine
          (c.withMachine ((w.chat t).machine.goto ((w.chat t).machine.sched.create (.connection fd))
            .coroutine)).machine (some (.connection fd)) :=
        .create _ rfl (hI.chat_timers t) nofun fun _ => ⟨self, hrun⟩
      refine hI.put honward (fun hpc₁ => ⟨self, ?_, hrun⟩) (fun f hf fd' heq => ?_) hsess
      · rw [World.executes, if_pos hpc₁, if_pos hpc]
        exact hself
      · cases hf
        cases heq

theorem Based.stepThread (hI : Based w base) {a : ChatAct} (hs : w.stepThread H t a = some w')
    (hok : w.SendsHome (.thread t a) w') : ∃ base', Based w' base' := by
  unfold World.stepThread at hs
  split at hs
  next => cases hs
  next c hact =>
    cases hs
    rcases act_cases hact with ⟨a', hb, -⟩ | ⟨fd, hb, -⟩ | ⟨self, hpc, hself, hco⟩
    · cases hb
    · cases hb
    -- outside the scheduler; only `start` makes a session
    · have hm := (Chat.coroutineAct_cases hco).machine
      obtain ⟨hbind, hstart⟩ := hI.bind hpc hself a
      rw [bind_put hm hpc]
      rw [bind_eq] at hbind hstart ⊢
      refine ⟨_, hbind.act hpc hself hm fun q hq => ?_⟩
      rcases Chat.coroutineAct_sessions hco hq with hold | ⟨rfl, rfl, -⟩
      · exact hbind.home q hold
      · exact ⟨(hI.running hpc hself).2.1, hstart rfl⟩
  next c fd events hact =>
    obtain ⟨self, hself, rfl⟩ := Option.map_eq_some_iff.mp hs
    have hcall : w.call t a = some (self, w.waitSched self a, fd, events) := by
      rw [World.call, hact, hself]
    obtain ⟨c', hact', hpc, -, -, hco⟩ := call_cases hcall
    cases hact.symm.trans hact'
    have hm := (Chat.coroutineAct_cases hco).machine
    have hthread := put_thread hm hpc
    -- the condition sends the caller to its own scheduler
    rw [(hI.call_home hcall).mp hok]
    exact ⟨_, (hI.act hpc hself hm (hI.sessions hco)).waitEvent (hthread ▸ hpc) (hthread ▸ hself) fd
      events⟩
  next c hact =>
    obtain ⟨self, hself, rfl⟩ := Option.map_eq_some_iff.mp hs
    rcases act_cases hact with ⟨a', hb, hrun, -⟩ | ⟨fd, hb, -⟩ | ⟨self', hpc, hself', hco⟩
    · cases hb
      cases hrun
    · cases hb
    · have hm := (Chat.coroutineAct_cases hco).machine
      exact ⟨_, (hI.act hpc hself' hm (hI.sessions hco)).finish t self⟩
  next c fd hact =>
    cases hs
    rcases act_cases hact with ⟨a', hb, hrun, -⟩ | ⟨fd', hb, -⟩ | ⟨self, hpc, hself, hco⟩
    · cases hb
      cases hrun
    · cases hb
    · have hm := (Chat.coroutineAct_cases hco).machine
      exact ⟨_, (hI.act hpc hself hm (hI.sessions hco)).closeFd fd⟩
  next c b hwait hfinish hclose hact =>
    obtain ⟨m, hm, rfl⟩ := Option.map_eq_some_iff.mp hs
    have hm := Machine.step_cases hm
    rcases act_cases hact with ⟨a', hb, hrun, hpost, rfl⟩ | ⟨fd, hb, rfl, hpc, rfl⟩ |
      ⟨self, hpc, hself, hco⟩
    · cases hb
      obtain ⟨hpc, hother⟩ := pc_of_ofRun hm hrun hpost
      exact ⟨_, hI.run hm hpc hpost (fun k f => (hother f).2 k) (fun f hf => absurd hf (hother f).1)
        rfl rfl⟩
    · cases hb
      refine ⟨_, hI.run hm ?_ nofun nofun (fun _ _ => rfl) rfl rfl⟩
      rw [hpc]
      nofun
    · have hmach := (Chat.coroutineAct_cases hco).machine
      rcases (Chat.coroutineAct_cases hco).ends
        with hb | ⟨fd, events, hb, -⟩ | ⟨fd, hb⟩ | ⟨fd, hb⟩ | hb
      · cases hb
      · cases hb
        exact absurd rfl (hwait fd events)
      · cases hb
        exact ⟨_, hI.create hm hpc hself hmach (hI.sessions hco)⟩
      · cases hb
        exact absurd rfl (hclose fd)
      · cases hb
        exact absurd rfl hfinish

/-- **Step lemma.** -/
theorem Based.step (hI : Based w base) {a : WorldAct} (hs : w.step H n a = some w')
    (hok : w.SendsHome a w') : ∃ base', Based w' base' := by
  cases a with
  | thread t a =>
      simp only [World.step] at hs
      split at hs
      · exact hI.stepThread hs hok
      · cases hs
  | post v k fd =>
      simp only [World.step] at hs
      split at hs
      · cases hs
      · obtain ⟨m, hm, rfl⟩ := Option.map_eq_some_iff.mp hs
        refine ⟨base, hI.posted ?_⟩
        cases Machine.step_cases hm with
        | postAppend k f ht =>
            refine { hI.own v with posted := fun f hf => ?_ }
            rcases List.mem_append.mp hf with hf | hf
            · exact (hI.own v).posted f hf
            · exact ⟨fd, List.mem_singleton.mp hf⟩
  | postWrite v k =>
      simp only [World.step] at hs
      split at hs
      · cases hs
      · obtain ⟨m, hm, rfl⟩ := Option.map_eq_some_iff.mp hs
        refine ⟨base, hI.posted ?_⟩
        cases Machine.step_cases hm with
        | postWrite k ht => exact { hI.own v with }

/-- **Run lemma.** -/
theorem based_run {pipes : Nat → Fd} {pipeCap : ℕ+}
    (hrun : Run (World.step H n) SendsHome (init n pipes pipeCap) w) : ∃ base, Based w base :=
  hrun.invariant (P := fun w => ∃ base, Based w base) ⟨_, based_init n pipes pipeCap⟩
    fun _ _ _ ⟨_, hI⟩ hs hok => hI.step hs hok

/-- The call on scheduler `u`. -/
theorem step_call {a : ChatAct} {u : Nat} {fd : Fd} {events : UInt32}
    (hcall : w.call t a = some (self, u, fd, events)) (hs : w.step H n (.thread t a) = some w') :
    w' = (w.put t (w.chat t)).waitEvent t self u fd events := by
  obtain ⟨c, hact, -, hself, rfl, hco⟩ := call_cases hcall
  obtain hb | ⟨fd', events', hb, rfl⟩ | ⟨fd', hb⟩ | ⟨fd', hb⟩ | hb :=
    (Chat.coroutineAct_cases hco).ends
  · cases hb
  · simp only [World.step] at hs
    split at hs
    · simp only [World.stepThread, hact, hself, Option.map_some] at hs
      exact (Option.some.inj hs).symm
    · cases hs
  · cases hb
  · cases hb
  · cases hb

/-- On the own scheduler the call parks its caller, on another one it does not. -/
theorem Based.parks_iff (hI : Based w base) (hpc : (w.threads t).pc = .coroutine)
    (hself : (w.threads t).exec = some self) (u : Nat) (fd : Fd) (events : UInt32) :
    ParksCaller w t self fd events ((w.put t (w.chat t)).waitEvent t self u fd events) ↔ u = t := by
  have hthread := put_thread (c := w.chat t) rfl hpc
  have hsched := (hI.own t).thread
  constructor
  · intro h
    have hgoes := h.suspended.2
    unfold World.waitEvent at hgoes
    split at hgoes
    next =>
      -- it returns at once
      rw [hthread] at hgoes
      rw [hgoes] at hpc
      cases hpc
    -- the thread goes on in the `run` of `u`
    next cur hcur =>
      simp only [Function.update_self] at hgoes
      cases hgoes
      rfl
  · rintro rfl
    have hput : (w.put u (w.chat u)).machines
        = Function.update w.machines u (w.chat u).machine := by
      rw [World.put, hsched]
    have hrun : ((w.put u (w.chat u)).machines u).sched.runningCoro = some self := by
      rw [hput, Function.update_self]
      exact hI.chat_running hpc hself
    have hrun' : ((w.put u (w.chat u)).sched u).runningCoro = some self := hrun
    obtain ⟨hstate, hctx⟩ := Scheduler.waitEvent_self hrun' fd events
    have hw : (w.put u (w.chat u)).waitEvent u self u fd events =
        { w.put u (w.chat u) with
          coros := (((w.put u (w.chat u)).sched u).waitEvent fd events).coros
          machines := Function.update (w.put u (w.chat u)).machines u
            { (w.put u (w.chat u)).machines u with
              sched := ((w.put u (w.chat u)).sched u).waitEvent fd events }
          owner := Function.update w.owner self self
          threads := Function.update (w.put u (w.chat u)).threads u ⟨u, .switched, none⟩ } := by
      rw [World.waitEvent, hrun]
      rfl
    rw [hw]
    refine ⟨?_, hstate, ⟨hctx, Function.update_self ..⟩, ⟨?_, Function.update_self ..⟩,
      fun q hq => ⟨?_, Function.update_of_ne hq _ _⟩, fun v hv => ⟨?_, ?_⟩⟩
    · simp only [Function.update_self, Scheduler.waitEvent, hrun']
      exact AList.lookup_insert _
    · simp only [Function.update_self, Scheduler.waitEvent, hrun']
      rfl
    · exact Scheduler.waitEvent_other hrun' fd events hq
    · simp only [Function.update_of_ne hv, hput]
    · simp only [Function.update_of_ne hv, World.put]

end Invariant

/-- **Suspension under `MultiScheduler`.** In every run in which a `send` answers `EAGAIN`
    only on a connection accepted on the scheduler whose thread calls it: a call of
    `wait_event` by what thread `t` executes parks the caller on the scheduler of `t`, and
    touches no other coroutine and no other scheduler, exactly if it meets the condition
    as well.  So every call by the accept loop and by a session that reads does. -/
theorem call_parks_caller (H : StdHeap timerAfter) (n : Nat) (pipes : Nat → Fd) (pipeCap : ℕ+)
    {w w' : World} (hrun : Run (World.step H n) SendsHome (init n pipes pipeCap) w) {t u : Nat}
    {a : ChatAct} {self : CoroPtr} {fd : Fd} {events : UInt32}
    (hcall : w.call t a = some (self, u, fd, events)) (hs : w.step H n (.thread t a) = some w') :
    ParksCaller w t self fd events w' ↔ w.SendsHome (.thread t a) w' := by
  obtain ⟨base, hI⟩ := based_run hrun
  obtain ⟨-, -, hpc, hself, -, -⟩ := call_cases hcall
  rw [step_call hcall hs, hI.call_home hcall]
  exact hI.parks_iff hpc hself u fd events

/-! ### Two schedulers -/

/-- Steps of thread `t`. -/
def onThread (t : Nat) (as : List ChatAct) : List WorldAct := as.map (.thread t)

/-- A connection is posted to scheduler `v`, whose pipe is `pipe`, and its session joins. -/
def enters (v : Nat) (pipe fd : Fd) (nick : Bytes) : List WorldAct :=
  [.post v 0 fd, .postWrite v 0] ++
    onThread v ([.sys .run, .sys .readyLoop, .sys (.fireTimers 0), .sys (.epollWait [pipe]),
      .sys .event, .sys .readPipe, .sys .readPipe, .sys .swapQueue, .sys .drain, .sys .drain,
      .sys (.lastTimers 0)] ++ Chat.joins nick)

/-- The sessions of two schedulers join; the first reads its next frame. -/
def bothEnter : List WorldAct :=
  enters 0 3 5 (bytes "a") ++ onThread 0 [.send (.accept 200), .next, .next, .next] ++
    enters 1 4 6 (bytes "b")

/-- The kernel takes the announcement to the first session; the second one waits for its
    own send buffer. -/
theorem call_parks_caller_own :
    ∃ w w', Run (World.step sortedTimers 2) SendsHome (init 2 (fun v => 3 + v) 64) w ∧
      w.step sortedTimers 2 (.thread 1 (.send .eagain)) = some w' ∧
      ParksCaller w 1 1 6 EPOLLOUT w' := by
  obtain ⟨w, hrun, hw⟩ := exists_run_of_exec (World.step sortedTimers 2) SendsHome
    (fun w => decide (w.call 1 (.send .eagain) = some (1, 1, 6, EPOLLOUT) ∧
      (w.step sortedTimers 2 (.thread 1 (.send .eagain))).isSome ∧
      w.SendsHome (.thread 1 (.send .eagain)) w))
    (init 2 (fun v => 3 + v) 64)
    (bothEnter ++ onThread 1 [.send (.accept 200), .next, .next]) (by decide +kernel)
  obtain ⟨hcall, hsome, hhome⟩ := of_decide_eq_true hw
  obtain ⟨w', hs⟩ := Option.isSome_iff_exists.mp hsome
  exact ⟨w, w', hrun, hs,
    (call_parks_caller sortedTimers 2 (fun v => 3 + v) 64 hrun hcall hs).mpr hhome⟩

/-- The send buffer of the first session is full when the second one announces itself: the
    first one is parked, although it was reading, and has the context of the second. -/
theorem broadcast_parks_other :
    ¬ ∀ w, Run (World.step sortedTimers 2) anyStep (init 2 (fun v => 3 + v) 64) w →
      ∀ t a self u fd events w', w.call t a = some (self, u, fd, events) →
        w.step sortedTimers 2 (.thread t a) = some w' → ParksCaller w t self fd events w' := by
  intro hparks
  -- the first session's context is taken, the caller's state stays `RUNNING`
  obtain ⟨w, hrun, hw⟩ := exists_run_of_exec (World.step sortedTimers 2) anyStep
    (fun w => decide (w.call 1 (.send .eagain) = some (1, 0, 5, EPOLLOUT) ∧
      ∃ w' ∈ w.step sortedTimers 2 (.thread 1 (.send .eagain)),
        w'.owner 0 = 1 ∧ (w'.coros 0).state = .waiting ∧ (w'.coros 1).state = .running))
    (init 2 (fun v => 3 + v) 64) bothEnter (by decide +kernel)
  obtain ⟨hcall, w', hs, -, -, hstate⟩ := of_decide_eq_true hw
  have hparked := (hparks w hrun 1 _ _ _ _ _ w' hcall hs).state
  rw [hstate] at hparked
  cases hparked

end World

end CoroutineHttp.Ws
