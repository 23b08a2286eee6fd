/-
  CoroutineHttp.Core.Post

  `Scheduler::post` against the pipe branch of `Scheduler::run`, under every
  interleaving of the posting threads with the scheduler thread.

  A task and its wake-up byte travel separately.  Two invariants say that this
  loses nothing: a queued task always has somebody who will wake the scheduler
  (`Awake`), and the tasks appended so far are, in order, those that became
  coroutines, those just swapped out and those still queued (`Accounted`).
  One pass over an event list that reports the pipe then creates every task
  that was posted before it.
-/

import CoroutineHttp.Library.Runs
import CoroutineHttp.Core.Machine

namespace CoroutineHttp.Core

open CoroutineHttp.Library

universe u v

variable {τ : Type u} {α : Type v}

/-! ## What the other operations leave alone -/

namespace Scheduler

/-- Nothing that posted tasks depend on has changed. -/
structure SameTasks (s s' : Scheduler τ α) : Prop where
  postQueue : s'.postQueue = s.postQueue
  allocs : s'.allocs = s.allocs
  pipeReadFd : s'.pipeReadFd = s.pipeReadFd
  func : ∀ p, (s'.coros p).func = (s.coros p).func

theorem SameTasks.refl (s : Scheduler τ α) : SameTasks s s := ⟨rfl, rfl, rfl, fun _ => rfl⟩

theorem SameTasks.trans {s s' s'' : Scheduler τ α} (h : SameTasks s s')
    (h' : SameTasks s' s'') : SameTasks s s'' :=
  ⟨h'.postQueue.trans h.postQueue, h'.allocs.trans h.allocs,
    h'.pipeReadFd.trans h.pipeReadFd, fun p => (h'.func p).trans (h.func p)⟩

section SameTasks

variable (s : Scheduler τ α) (p : CoroPtr)

theorem sameTasks_setState (st : State) : SameTasks s (s.setState p st) := by
  refine ⟨rfl, rfl, rfl, fun q => ?_⟩
  by_cases hq : q = p <;> simp [setState, hq]

theorem sameTasks_saveCtx (c : Ctx α) : SameTasks s (s.saveCtx p c) := by
  refine ⟨rfl, rfl, rfl, fun q => ?_⟩
  by_cases hq : q = p <;> simp [saveCtx, hq]

theorem sameTasks_makeReady : SameTasks s (s.makeReady p) :=
  (sameTasks_setState s p .ready).trans ⟨rfl, rfl, rfl, fun _ => rfl⟩

theorem sameTasks_swapOut (c : Ctx α) : SameTasks s (s.swapOut p c) :=
  (sameTasks_saveCtx s p c).trans ⟨rfl, rfl, rfl, fun _ => rfl⟩

theorem sameTasks_yield : SameTasks s s.yield := by
  unfold Scheduler.yield
  split
  · exact .refl s
  next cur _ => exact (sameTasks_makeReady s cur).trans (sameTasks_swapOut _ cur _)

theorem sameTasks_waitEvent (fd : Fd) (events : UInt32) :
    SameTasks s (s.waitEvent fd events) := by
  unfold Scheduler.waitEvent
  split
  · exact .refl s
  next cur _ =>
    exact (sameTasks_setState s cur .waiting).trans
      ((sameTasks_swapOut _ cur _).trans ⟨rfl, rfl, rfl, fun _ => rfl⟩)

theorem sameTasks_sleep (H : StdHeap timerAfter) (now ms : Int64) :
    SameTasks s (s.sleep H now ms) := by
  unfold Scheduler.sleep
  split
  · exact .refl s
  next cur _ =>
    split
    · exact sameTasks_yield s
    · have hpush : SameTasks (s.setState cur .waiting)
          ((s.setState cur .waiting).pushTimer H ⟨now + ms, cur⟩) := ⟨rfl, rfl, rfl, fun _ => rfl⟩
      exact (sameTasks_setState s cur .waiting).trans (hpush.trans (sameTasks_swapOut _ cur _))

theorem sameTasks_fireTimers (H : StdHeap timerAfter) (now : Int64) :
    SameTasks s (s.fireTimers H now).1 := by
  refine fireTimers_keeps H (P := SameTasks s) ?_ s (.refl s)
  intro s' heap q hs'
  have hheap : SameTasks s' { s' with timerHeap := heap } := ⟨rfl, rfl, rfl, fun _ => rfl⟩
  exact hs'.trans (hheap.trans (sameTasks_makeReady _ q))

theorem sameTasks_resumed : SameTasks s (s.resumed p) := by
  unfold Scheduler.resumed
  split <;> exact ⟨rfl, rfl, rfl, fun _ => rfl⟩

theorem sameTasks_switchTo (rest : List CoroPtr) : SameTasks s (s.switchTo p rest) := by
  have hpop : SameTasks s { s with readyQueue := rest, runningCoro := some p } :=
    ⟨rfl, rfl, rfl, fun _ => rfl⟩
  exact hpop.trans ((sameTasks_setState _ p .running).trans (sameTasks_resumed _ p))

theorem sameTasks_reap : SameTasks s s.reap := by
  unfold Scheduler.reap
  split
  · exact .refl s
  · split <;> exact ⟨rfl, rfl, rfl, fun _ => rfl⟩

theorem sameTasks_wakeFd (fd : Fd) : SameTasks s (s.wakeFd fd) := by
  unfold Scheduler.wakeFd
  split
  · exact .refl s
  next co _ =>
    have herase : SameTasks s { s with waitingMap := s.waitingMap.erase fd } :=
      ⟨rfl, rfl, rfl, fun _ => rfl⟩
    exact herase.trans (sameTasks_makeReady _ co)

theorem sameTasks_writeSlot (slot : Option CoroPtr) (val : α) :
    SameTasks s (Channel.writeSlot s slot val) := by
  unfold Channel.writeSlot
  split
  · exact .refl s
  · split
    · exact sameTasks_saveCtx s _ _
    · exact .refl s

theorem sameTasks_send (c : Channel α) (ch : ChanId) (val : α) :
    SameTasks s (Channel.send s c ch p val).1 := by
  unfold Channel.send
  split
  · exact (sameTasks_writeSlot s _ val).trans
      ((sameTasks_makeReady _ _).trans (sameTasks_yield _))
  · exact (sameTasks_setState s p .waiting).trans (sameTasks_swapOut _ p _)

theorem sameTasks_recv [Inhabited α] (c : Channel α) (ch : ChanId) :
    SameTasks s (Channel.recv s c ch p).1 := by
  unfold Channel.recv
  split
  · exact sameTasks_makeReady s _
  · exact (sameTasks_setState s p .waiting).trans (sameTasks_swapOut _ p _)

end SameTasks

end Scheduler

/-! ## What a step does with posted tasks -/

/-- Between emptying the pipe and swapping out the queue. -/
def RunPc.BeforeSwap : RunPc τ → Prop
  | .readPipe _ | .swapQueue _ => True
  | _ => False

/-- The current pass over the events has still to swap out the queue. -/
def RunPc.WillSwap (pipeReadFd : Fd) : RunPc τ → Prop
  | .events evs => pipeReadFd ∈ evs
  | .readPipe _ | .swapQueue _ => True
  | _ => False

/-- Inside the loop over the events of one `epoll_wait`. -/
def RunPc.InEvents : RunPc τ → Prop
  | .events _ | .readPipe _ | .swapQueue _ | .drain _ _ => True
  | _ => False

theorem RunPc.not_willSwap {pc : RunPc τ} {fd : Fd} (h : ¬ pc.InEvents) :
    ¬ pc.WillSwap fd := by
  cases pc <;> simp_all [RunPc.InEvents, RunPc.WillSwap]

namespace Machine

open Scheduler

/-- The tasks `drain_post_queue` holds in its local queue. -/
def swapped (m : Machine τ α) : List τ :=
  match m.pc with
  | .drain local_ _ => local_
  | _ => []

theorem swapped_of_not_inEvents {m : Machine τ α} (hpc : ¬ m.pc.InEvents) :
    m.swapped = [] := by
  unfold swapped
  split
  next h => simp [h, RunPc.InEvents] at hpc
  next => rfl

/-- The steps as far as posted tasks are concerned. -/
inductive PostStepped (m : Machine τ α) (a : Act τ α) (m' : Machine τ α) : Prop where
  /-- A step outside the pipe branch that creates no coroutine. -/
  | away (hsame : m.sched.SameTasks m'.sched) (hposted : m'.posted = m.posted)
      (hfrom : m'.fromPost = m.fromPost) (hposters : m'.posters = m.posters)
      (hpipe : m'.pipe = m.pipe) (hswapped : m.swapped = []) (hswapped' : m'.swapped = [])
      (hbefore : ¬ m.pc.BeforeSwap)
      (hwill : m.pc.WillSwap m.sched.pipeReadFd → m'.pc.WillSwap m.sched.pipeReadFd)
  /-- A coroutine made by the program itself. -/
  | spawn (f : τ) (ha : a = .create f) (hpc : ¬ m.pc.InEvents)
      (h : m' = m.goto (m.sched.create f) m.pc)
  | enterPipe (evs : List Fd) (hpc : m.pc = .events (m.sched.pipeReadFd :: evs))
      (h : m' = m.goto m.sched (.readPipe evs))
  | pipeEmpty (evs : List Fd) (hpc : m.pc = .readPipe evs)
      (h : m' = m.goto m.sched (.swapQueue evs))
  | pipeRead (evs : List Fd) (hpc : m.pc = .readPipe evs)
      (h : m' = { m with pipe := m.pipe - min 64 m.pipe })
  | swapQueue (evs : List Fd) (hpc : m.pc = .swapQueue evs)
      (h : m' = m.goto { m.sched with postQueue := [] } (.drain m.sched.postQueue evs))
  | drainDone (evs : List Fd) (hpc : m.pc = .drain [] evs)
      (h : m' = m.goto m.sched (.events evs))
  | drainNext (f : τ) (fs : List τ) (evs : List Fd) (hpc : m.pc = .drain (f :: fs) evs)
      (h : m' = { m.goto (m.sched.create f) (.drain fs evs) with
        fromPost := m.fromPost ++ [m.sched.allocs] })
  | postAppend (t : Nat) (f : τ) (ha : a = .postAppend t f)
      (h : m' = { m with
        sched := { m.sched with postQueue := m.sched.postQueue ++ [f] }
        posters := Function.update m.posters t .appended
        posted := m.posted ++ [f] })
  | postWrite (t : Nat)
      (h : m' = { m with
        pipe := if m.pipe < m.pipeCap then m.pipe + 1 else m.pipe
        posters := Function.update m.posters t .idle })

/-- A step that neither starts nor ends in the event loop. -/
theorem PostStepped.outside {m m' : Machine τ α} {a : Act τ α} (hpc : ¬ m.pc.InEvents)
    (hpc' : ¬ m'.pc.InEvents) (hsame : m.sched.SameTasks m'.sched)
    (hposted : m'.posted = m.posted) (hfrom : m'.fromPost = m.fromPost)
    (hposters : m'.posters = m.posters) (hpipe : m'.pipe = m.pipe) : PostStepped m a m' := by
  refine .away hsame hposted hfrom hposters hpipe (swapped_of_not_inEvents hpc)
    (swapped_of_not_inEvents hpc') ?_ ?_
  · cases hm : m.pc <;> simp_all [RunPc.InEvents, RunPc.BeforeSwap]
  · exact fun hwill => absurd hwill (RunPc.not_willSwap hpc)

theorem PostStepped.of_stepped [Inhabited α] {H : StdHeap timerAfter} {m m' : Machine τ α}
    {a : Act τ α} (h : Stepped H m a m') : PostStepped m a m' := by
  -- most steps neither start nor end in the loop over the events
  have hout : ∀ {pc : RunPc τ}, m.pc = pc → ¬ pc.InEvents → ¬ m.pc.InEvents := fun h => h ▸ id
  cases h with
  | run hpc => exact .outside (hout hpc id) id (.refl _) rfl rfl rfl rfl
  | readyEmpty hpc _ => exact .outside (hout hpc id) id (.refl _) rfl rfl rfl rfl
  | readyNext p rest hpc _ =>
      exact .outside (hout hpc id) id (sameTasks_switchTo _ p rest) rfl rfl rfl rfl
  | yield self hpc _ =>
      exact .outside (hout hpc id) id (sameTasks_yield _) rfl rfl rfl rfl
  | waitEvent self fd events hpc _ =>
      exact .outside (hout hpc id) id (sameTasks_waitEvent _ fd events) rfl rfl rfl rfl
  | sleep self now ms hpc _ =>
      exact .outside (hout hpc id) id (sameTasks_sleep _ H now ms) rfl rfl rfl rfl
  | send self ch val hpc _ =>
      exact .outside (hout hpc id) id (sameTasks_send _ self _ ch val) rfl rfl rfl rfl
  | recv self ch hpc _ =>
      refine .outside (hout hpc id) ?_ (sameTasks_recv _ self _ ch) rfl rfl rfl rfl
      simp only [goto]
      split <;> exact id
  | closeFd self fd hpc _ =>
      exact .outside (hout hpc id) id ⟨rfl, rfl, rfl, fun _ => rfl⟩ rfl rfl rfl rfl
  | finish self hpc _ =>
      exact .outside (hout hpc id) id (sameTasks_setState _ self .done) rfl rfl rfl rfl
  | reap hpc => exact .outside (hout hpc id) id (sameTasks_reap _) rfl rfl rfl rfl
  | fireTimers now hpc =>
      refine .outside (hout hpc id) ?_ (sameTasks_fireTimers _ H now) rfl rfl rfl rfl
      simp only [goto]
      split <;> exact id
  | epollFail eintr hpc =>
      refine .outside (hout hpc id) ?_ (.refl _) rfl rfl rfl rfl
      cases eintr <;> exact id
  -- here the loop over the events begins and goes on; the queue is still left alone
  | epollWait evs hpc =>
      refine .away ⟨rfl, rfl, rfl, fun _ => rfl⟩ rfl rfl rfl rfl ?_ ?_ ?_ ?_ <;>
        simp [swapped, goto, hpc, RunPc.BeforeSwap, RunPc.WillSwap]
  | lastTimers now hpc =>
      refine .away (sameTasks_fireTimers _ H now) rfl rfl rfl rfl ?_ ?_ ?_ ?_ <;>
        simp [swapped, goto, hpc, RunPc.BeforeSwap, RunPc.WillSwap]
  | eventWake fd evs hpc hfd =>
      refine .away (sameTasks_wakeFd _ fd) rfl rfl rfl rfl ?_ ?_ ?_ ?_ <;>
        simp [swapped, goto, hpc, RunPc.BeforeSwap, RunPc.WillSwap, Ne.symm hfd]
  | createMain f hpc => exact .spawn f rfl (hout hpc id) (by rw [hpc])
  | create self f hpc _ => exact .spawn f rfl (hout hpc id) (by rw [hpc])
  | eventPipe fd evs hpc hfd => exact .enterPipe evs (by rw [hpc, hfd]) rfl
  | pipeEmpty evs hpc _ => exact .pipeEmpty evs hpc rfl
  | pipeRead evs hpc _ => exact .pipeRead evs hpc rfl
  | swapQueue evs hpc => exact .swapQueue evs hpc rfl
  | drainDone evs hpc => exact .drainDone evs hpc rfl
  | drainNext f fs evs hpc => exact .drainNext f fs evs hpc rfl
  | postAppend t f _ => exact .postAppend t f rfl rfl
  | postWrite t _ => exact .postWrite t rfl

/-! ## Where the tasks are -/

/-- The task an action brings in. -/
def newTask : Act τ α → Option τ
  | .create f | .postAppend _ f => some f
  | _ => none

/-- The posted tasks that are not coroutines yet. -/
def queued (m : Machine τ α) : List τ := m.swapped ++ m.sched.postQueue

/-- What a step does to the tasks and to the coroutines made of them. -/
inductive TaskFlow (m : Machine τ α) (a : Act τ α) (m' : Machine τ α) : Prop where
  | still (hallocs : m'.sched.allocs = m.sched.allocs) (hqueued : m'.queued = m.queued)
  | enqueue (f : τ) (ha : newTask a = some f) (hallocs : m'.sched.allocs = m.sched.allocs)
      (hqueued : m'.queued = m.queued ++ [f])
  | spawn (f : τ) (ha : newTask a = some f) (hallocs : m'.sched.allocs = m.sched.allocs + 1)
      (hfunc : (m'.sched.coros m.sched.allocs).func = f) (hqueued : m'.queued = m.queued)
  | dequeue (f : τ) (fs : List τ) (hqueued : m.queued = f :: fs)
      (hallocs : m'.sched.allocs = m.sched.allocs + 1)
      (hfunc : (m'.sched.coros m.sched.allocs).func = f) (hqueued' : m'.queued = fs)

theorem PostStepped.taskFlow {m m' : Machine τ α} {a : Act τ α} (hs : PostStepped m a m') :
    TaskFlow m a m' := by
  cases hs with
  | away hsame _ _ _ _ hswapped hswapped' _ _ =>
      exact .still hsame.allocs (by rw [queued, queued, hswapped, hswapped', hsame.postQueue])
  | spawn f ha _ h =>
      subst h
      exact .spawn f (ha ▸ rfl) rfl (by simp [goto, Scheduler.create]) rfl
  | enterPipe evs hpc h | pipeEmpty evs hpc h | drainDone evs hpc h =>
      subst h
      exact .still rfl (by simp [queued, swapped, goto, hpc])
  | pipeRead evs _ h | postWrite t h =>
      subst h
      exact .still rfl rfl
  -- the swap moves the whole queue into the local one
  | swapQueue evs hpc h =>
      subst h
      exact .still rfl (by simp [queued, swapped, goto, hpc])
  | drainNext f fs evs hpc h =>
      subst h
      exact .dequeue f (fs ++ m.sched.postQueue) (by simp [queued, swapped, hpc]) rfl
        (by simp [goto, Scheduler.create]) rfl
  | postAppend t f ha h =>
      subst h
      exact .enqueue f (ha ▸ rfl) rfl (by simp [queued, swapped])

/-- No step changes what an existing coroutine runs, or the pipe. -/
theorem PostStepped.func_eq {m m' : Machine τ α} {a : Act τ α} (hs : PostStepped m a m') :
    m'.sched.pipeReadFd = m.sched.pipeReadFd ∧
      ∀ p, p < m.sched.allocs → (m'.sched.coros p).func = (m.sched.coros p).func := by
  cases hs with
  | away hsame _ _ _ _ _ _ _ _ => exact ⟨hsame.pipeReadFd, fun p _ => hsame.func p⟩
  | spawn f _ _ h | drainNext f fs evs _ h =>
      subst h
      exact ⟨rfl, fun p hp => by simp [goto, Scheduler.create, Nat.ne_of_lt hp]⟩
  | enterPipe evs _ h | pipeEmpty evs _ h | drainDone evs _ h | pipeRead evs _ h
  | postWrite t h | swapQueue evs _ h | postAppend t f _ h =>
      subst h
      exact ⟨rfl, fun _ _ => rfl⟩

/-! ## No lost wake-up -/

/-- A queued task has somebody who will wake the scheduler for it. -/
def Awake (m : Machine τ α) : Prop :=
  m.sched.postQueue ≠ [] → (∃ t, m.posters t = .appended) ∨ 0 < m.pipe ∨ m.pc.BeforeSwap

theorem Awake.step {m m' : Machine τ α} {a : Act τ α} (hI : Awake m)
    (hs : PostStepped m a m') : Awake m' := by
  intro hne
  cases hs with
  -- none of the three reasons to be awake can go away
  | away hsame _ _ hposters hpipe _ _ hbefore _ =>
      rw [hsame.postQueue] at hne
      rw [hposters, hpipe]
      rcases hI hne with h | h | h
      · exact .inl h
      · exact .inr (.inl h)
      · exact absurd h hbefore
  | spawn f _ _ h =>
      subst h
      exact hI hne
  -- bytes may go from here on, since the swap is still to come
  | enterPipe evs _ h | pipeEmpty evs _ h =>
      subst h
      exact .inr (.inr trivial)
  | pipeRead evs hpc h =>
      subst h
      exact .inr (.inr (by simp [hpc, RunPc.BeforeSwap]))
  -- the queue is empty after the swap
  | swapQueue evs _ h =>
      subst h
      exact absurd rfl hne
  | drainDone evs hpc h | drainNext f fs evs hpc h =>
      subst h
      rcases hI hne with h | h | h
      · exact .inl h
      · exact .inr (.inl h)
      · simp [hpc, RunPc.BeforeSwap] at h
  -- the poster has its byte still to write
  | postAppend t f _ h =>
      subst h
      exact .inl ⟨t, by simp⟩
  | postWrite t h =>
      subst h
      -- the pipe takes the byte, or is full and so not empty
      refine .inr (.inl ?_)
      have hcap := m.pipeCap.pos
      simp only
      split <;> omega

/-! ## Every task exactly once -/

/-- The tasks that became coroutines, in the order of their creation. -/
def created (m : Machine τ α) : List τ := m.fromPost.map fun p => (m.sched.coros p).func

/-- Every posted task is in exactly one stage, in the order of the appends; the
    coroutines made of them are distinct objects. -/
structure Accounted (m : Machine τ α) : Prop where
  tasks : m.created ++ m.swapped ++ m.sched.postQueue = m.posted
  increasing : m.fromPost.Pairwise (· < ·)
  allocated : ∀ p ∈ m.fromPost, p < m.sched.allocs

theorem created_of_sameTasks {m m' : Machine τ α} (hsame : m.sched.SameTasks m'.sched)
    (hfrom : m'.fromPost = m.fromPost) : m'.created = m.created := by
  unfold created
  rw [hfrom]
  exact List.map_congr_left fun p _ => hsame.func p

/-- `create` does not touch the coroutines that exist. -/
theorem Accounted.map_create {m : Machine τ α} (hI : Accounted m) (f : τ) :
    m.fromPost.map (fun p => ((m.sched.create f).coros p).func) = m.created := by
  refine List.map_congr_left fun p hp => ?_
  simp [Scheduler.create, Nat.ne_of_lt (hI.allocated p hp)]

/-- The loop of `drain_post_queue` makes a coroutine of its next task. -/
theorem Accounted.created_drain {m : Machine τ α} (hI : Accounted m) (f : τ) (pc : RunPc τ) :
    created { m.goto (m.sched.create f) pc with fromPost := m.fromPost ++ [m.sched.allocs] }
      = m.created ++ [f] := by
  rw [← hI.map_create f]
  simp [created, goto, Scheduler.create]

theorem Accounted.step {m m' : Machine τ α} {a : Act τ α} (hI : Accounted m)
    (hs : PostStepped m a m') :
    Accounted m' ∧ m.created <+: m'.created := by
  have htasks := hI.tasks
  cases hs with
  | away hsame hposted hfrom _ _ hswapped hswapped' _ _ =>
      have hcreated := created_of_sameTasks hsame hfrom
      refine ⟨⟨?_, hfrom ▸ hI.increasing, ?_⟩, hcreated ▸ List.prefix_refl _⟩
      · rw [hcreated, hswapped', ← hswapped, hsame.postQueue, hposted, htasks]
      · rw [hfrom, hsame.allocs]
        exact hI.allocated
  | spawn f _ _ h =>
      subst h
      have hcreated : (m.goto (m.sched.create f) m.pc).created = m.created := hI.map_create f
      refine ⟨⟨?_, hI.increasing, fun p hp => Nat.lt_succ_of_lt (hI.allocated p hp)⟩, ?_⟩
      · rw [hcreated]
        exact htasks
      · exact hcreated ▸ List.prefix_refl _
  -- the program point moves on, the tasks stay where they are
  | enterPipe evs hpc h | pipeEmpty evs hpc h | drainDone evs hpc h =>
      subst h
      refine ⟨⟨?_, hI.increasing, hI.allocated⟩, List.prefix_refl _⟩
      simpa [swapped, created, goto, hpc] using htasks
  | pipeRead evs _ h | postWrite t h =>
      subst h
      exact ⟨⟨htasks, hI.increasing, hI.allocated⟩, List.prefix_refl _⟩
  -- from the queue to the local one, in order
  | swapQueue evs hpc h =>
      subst h
      refine ⟨⟨?_, hI.increasing, hI.allocated⟩, List.prefix_refl _⟩
      simpa [swapped, created, goto, hpc] using htasks
  -- the front of the local queue becomes the youngest coroutine
  | drainNext f fs evs hpc h =>
      subst h
      have hcreated := hI.created_drain f (.drain fs evs)
      refine ⟨⟨?_, ?_, ?_⟩, hcreated ▸ List.prefix_append _ _⟩
      · rw [hcreated]
        simpa [swapped, hpc, goto, Scheduler.create] using htasks
      · refine List.pairwise_append.mpr ⟨hI.increasing, List.pairwise_singleton _ _, ?_⟩
        intro p hp q hq
        rw [List.mem_singleton.mp hq]
        exact hI.allocated p hp
      · intro p hp
        rcases List.mem_append.mp hp with hp | hp
        · exact Nat.lt_succ_of_lt (hI.allocated p hp)
        · rw [List.mem_singleton.mp hp]
          exact Nat.lt_succ_self _
  -- at the end of the queue and at the end of `posted`
  | postAppend t f _ h =>
      subst h
      refine ⟨⟨?_, hI.increasing, hI.allocated⟩, List.prefix_refl _⟩
      rw [← htasks]
      simp [swapped, created]

/-! ## A pass over the events -/

/-- `tasks` have become coroutines, or will before the loop over the current
    events is over. -/
def Handled (tasks : List τ) (m : Machine τ α) : Prop :=
  m.pc.WillSwap m.sched.pipeReadFd ∨ tasks <+: m.created ++ m.swapped

theorem Handled.step {m m' : Machine τ α} {a : Act τ α} {tasks : List τ} (hI : Handled tasks m)
    (hacc : Accounted m) (hposted : tasks <+: m.posted) (hs : PostStepped m a m') :
    Handled tasks m' := by
  cases hs with
  | away hsame _ hfrom _ _ hswapped hswapped' _ hwill =>
      unfold Handled
      rw [hsame.pipeReadFd, created_of_sameTasks hsame hfrom, hswapped', ← hswapped]
      exact hI.imp_left hwill
  | spawn f _ hpc h =>
      subst h
      have hcreated : (m.goto (m.sched.create f) m.pc).created = m.created := hacc.map_create f
      unfold Handled
      rw [hcreated]
      exact hI
  | enterPipe evs _ h | pipeEmpty evs _ h =>
      subst h
      exact .inl trivial
  | pipeRead evs _ h | postWrite t h | postAppend t f _ h =>
      subst h
      exact hI
  -- everything posted so far, `tasks` among it, is now created or swapped out
  | swapQueue evs hpc h =>
      subst h
      refine .inr ?_
      rw [← hacc.tasks] at hposted
      simpa [swapped, created, goto, hpc] using hposted
  | drainDone evs hpc h =>
      subst h
      rcases hI with hwill | hdone
      · simp [hpc, RunPc.WillSwap] at hwill
      · exact .inr (by simpa [swapped, created, goto, hpc] using hdone)
  | drainNext f fs evs hpc h =>
      subst h
      rcases hI with hwill | hdone
      · simp [hpc, RunPc.WillSwap] at hwill
      · refine .inr ?_
        rw [hacc.created_drain]
        simpa [swapped, hpc, goto] using hdone

theorem PostStepped.posted_prefix {m m' : Machine τ α} {a : Act τ α}
    (hs : PostStepped m a m') :
    m.posted <+: m'.posted := by
  cases hs with
  | away _ hposted => exact hposted ▸ List.prefix_refl _
  | postAppend t f _ h => exact h ▸ List.prefix_append _ _
  | spawn f _ _ h => exact h ▸ List.prefix_refl _
  | enterPipe evs _ h => exact h ▸ List.prefix_refl _
  | pipeEmpty evs _ h => exact h ▸ List.prefix_refl _
  | pipeRead evs _ h => exact h ▸ List.prefix_refl _
  | swapQueue evs _ h => exact h ▸ List.prefix_refl _
  | drainDone evs _ h => exact h ▸ List.prefix_refl _
  | drainNext f fs evs _ h => exact h ▸ List.prefix_refl _
  | postWrite t h => exact h ▸ List.prefix_refl _

section Pass

variable [Inhabited α] {H : StdHeap timerAfter}

/-- The invariants of all runs. -/
structure PostInv (m : Machine τ α) : Prop where
  awake : Awake m
  accounted : Accounted m

theorem postInv_init (pipeReadFd : Fd) (pipeCap : ℕ+) (junk : Coroutine τ α) :
    PostInv (init pipeReadFd pipeCap junk) :=
  ⟨fun h => absurd rfl h, rfl, List.Pairwise.nil, fun _ hp => absurd hp List.not_mem_nil⟩

/-- **Run lemma.** -/
theorem PostInv.run {m m' : Machine τ α} (hI : PostInv m) (hrun : Run (step H) anyStep m m') :
    PostInv m' := by
  refine hrun.invariant hI fun s a s' hs hstep _ => ?_
  have hpost := PostStepped.of_stepped (step_cases hstep)
  exact ⟨hs.awake.step hpost, (hs.accounted.step hpost).1⟩

theorem handled_run {m m' : Machine τ α} {tasks : List τ} (hI : PostInv m)
    (hhandled : Handled tasks m) (hposted : tasks <+: m.posted)
    (hrun : Run (step H) anyStep m m') : Handled tasks m' := by
  -- `Handled` is kept together with what its step lemma needs of the state before
  have hinv : PostInv m' ∧ Handled tasks m' ∧ tasks <+: m'.posted := by
    refine hrun.invariant (P := fun n => PostInv n ∧ Handled tasks n ∧ tasks <+: n.posted)
      ⟨hI, hhandled, hposted⟩ fun s a s' ⟨hs, hh, hp⟩ hstep _ => ?_
    have hpost := PostStepped.of_stepped (step_cases hstep)
    exact ⟨⟨hs.awake.step hpost, (hs.accounted.step hpost).1⟩,
      hh.step hs.accounted hp hpost, hp.trans hpost.posted_prefix⟩
  exact hinv.2.1

/-- A step of the scheduler thread in its loop over the events. -/
def PassStep : Machine τ α → Act τ α → Machine τ α → Prop := fun _ a _ =>
  a = .event ∨ a = .readPipe ∨ a = .swapQueue ∨ a = .drain

/-- The loop of `drain_post_queue` ends. -/
theorem drain_ends (evs : List Fd) (fs : List τ) :
    ∀ m : Machine τ α, m.pc = .drain fs evs →
      ∃ m', Run (step H) PassStep m m' ∧ m'.pc = .events evs ∧ m'.posted = m.posted := by
  -- on the tasks in the local queue
  induction fs with
  | nil =>
      intro m hpc
      have hstep : step H m .drain = some (m.goto m.sched (.events evs)) := by
        simp [step, stepRun, hpc]
      exact ⟨_, .single _ hstep (by simp [PassStep]), rfl, rfl⟩
  | cons f fs ih =>
      intro m hpc
      have hstep : step H m .drain = some { m.goto (m.sched.create f) (.drain fs evs) with
          fromPost := m.fromPost ++ [m.sched.allocs] } := by
        simp [step, stepRun, hpc]
      obtain ⟨m', hrun, hpc', hposted⟩ := ih { m.goto (m.sched.create f) (.drain fs evs) with
          fromPost := m.fromPost ++ [m.sched.allocs] } rfl
      exact ⟨m', (Run.single _ hstep (by simp [PassStep])).trans hrun, hpc', hposted⟩

/-- The loop that empties the pipe ends, if nobody keeps writing. -/
theorem readPipe_ends (evs : List Fd) (n : Nat) :
    ∀ m : Machine τ α, m.pc = .readPipe evs → m.pipe = n →
      ∃ m', Run (step H) PassStep m m' ∧ m'.pc = .swapQueue evs ∧ m'.posted = m.posted := by
  -- on the bytes in the pipe; each `read` takes at least one
  induction n using Nat.strong_induction_on with
  | _ n ih =>
      intro m hpc hpipe
      by_cases hzero : m.pipe = 0
      · have hstep : step H m .readPipe = some (m.goto m.sched (.swapQueue evs)) := by
          simp [step, stepRun, hpc, hzero]
        exact ⟨_, .single _ hstep (by simp [PassStep]), rfl, rfl⟩
      · have hstep : step H m .readPipe = some { m with pipe := m.pipe - min 64 m.pipe } := by
          simp [step, stepRun, hpc, hzero]
        obtain ⟨m', hrun, hpc', hposted⟩ :=
          ih (m.pipe - min 64 m.pipe) (by omega) { m with pipe := m.pipe - min 64 m.pipe } hpc rfl
        exact ⟨m', (Run.single _ hstep (by simp [PassStep])).trans hrun, hpc', hposted⟩

/-- The pass over the events ends. -/
theorem events_ends (evs : List Fd) :
    ∀ m : Machine τ α, m.pc = .events evs →
      ∃ m', Run (step H) PassStep m m' ∧ m'.pc = .events [] ∧ m'.posted = m.posted := by
  -- on the events; the pipe's own event runs through the two loops above
  induction evs with
  | nil => exact fun m hpc => ⟨m, .refl m, hpc, rfl⟩
  | cons fd evs ih =>
      intro m hpc
      by_cases hfd : fd = m.sched.pipeReadFd
      · have hstep : step H m .event = some (m.goto m.sched (.readPipe evs)) := by
          simp [step, stepRun, hpc, hfd]
        obtain ⟨m1, hrun1, hpc1, hp1⟩ := readPipe_ends (H := H) evs _
          (m.goto m.sched (.readPipe evs)) rfl rfl
        have hswap : step H m1 .swapQueue = some
            (m1.goto { m1.sched with postQueue := [] } (.drain m1.sched.postQueue evs)) := by
          simp [step, stepRun, hpc1]
        obtain ⟨m2, hrun2, hpc2, hp2⟩ := drain_ends (H := H) evs _
          (m1.goto { m1.sched with postQueue := [] } (.drain m1.sched.postQueue evs)) rfl
        obtain ⟨m3, hrun3, hpc3, hp3⟩ := ih m2 hpc2
        refine ⟨m3, ?_, hpc3, hp3.trans (hp2.trans hp1)⟩
        exact (Run.single _ hstep (by simp [PassStep])).trans (hrun1.trans
          ((Run.single _ hswap (by simp [PassStep])).trans (hrun2.trans hrun3)))
      · have hstep : step H m .event = some (m.goto (m.sched.wakeFd fd) (.events evs)) := by
          simp [step, stepRun, hpc, hfd]
        obtain ⟨m', hrun, hpc', hposted⟩ := ih (m.goto (m.sched.wakeFd fd) (.events evs)) rfl
        exact ⟨m', (Run.single _ hstep (by simp [PassStep])).trans hrun, hpc', hposted⟩

/-- **Post.** In every interleaving of posting threads with the scheduler: a task
    in `post_queue_` has a poster about to write its byte, a byte in the pipe, or
    a scheduler about to swap the queue out; the posted tasks are, in the order of
    the appends, those that became coroutines (each its own), those swapped out
    and those queued.  When the event list reports the pipe, everything posted so
    far has become coroutines by the end of the pass, and the pass does end. -/
theorem post_loses_nothing (pipeReadFd : Fd) (pipeCap : ℕ+) (junk : Coroutine τ α)
    {m : Machine τ α} (hrun : Run (step H) anyStep (init pipeReadFd pipeCap junk) m) :
    (m.sched.postQueue ≠ [] →
      (∃ t, m.posters t = .appended) ∨ 0 < m.pipe ∨ m.pc.BeforeSwap) ∧
    m.created ++ m.swapped ++ m.sched.postQueue = m.posted ∧
    m.fromPost.Pairwise (· < ·) ∧ (∀ p ∈ m.fromPost, p < m.sched.allocs) ∧
    (∀ evs, m.pc = .events evs → m.sched.pipeReadFd ∈ evs →
      (∀ m', Run (step H) anyStep m m' → ¬ m'.pc.InEvents → m.posted <+: m'.created) ∧
      ∃ m', Run (step H) PassStep m m' ∧ m'.pc = .events [] ∧ m'.created = m.posted) := by
  have hI := (postInv_init pipeReadFd pipeCap junk).run hrun
  refine ⟨hI.awake, hI.accounted.tasks, hI.accounted.increasing, hI.accounted.allocated, ?_⟩
  intro evs hpc hmem
  have hhandled : Handled m.posted m := .inl (by rw [hpc]; exact hmem)
  refine ⟨fun m' hrun' hout => ?_, ?_⟩
  · rcases handled_run hI hhandled (List.prefix_refl _) hrun' with hwill | hdone
    · exact absurd hwill (RunPc.not_willSwap hout)
    · rwa [swapped_of_not_inEvents hout, List.append_nil] at hdone
  · obtain ⟨m', hrun', hpc', hposted⟩ := events_ends (H := H) evs m hpc
    have hany := hrun'.any
    have htasks := (hI.run hany).accounted.tasks
    have hswapped : m'.swapped = [] := by simp [swapped, hpc']
    refine ⟨m', hrun', hpc', ?_⟩
    rw [hswapped, List.append_nil, hposted] at htasks
    -- no longer than what was created, so nothing is left in the queue
    rcases handled_run hI hhandled (List.prefix_refl _) hany with hwill | hdone
    · simp [hpc', RunPc.WillSwap] at hwill
    · rw [hswapped, List.append_nil] at hdone
      exact (htasks ▸ List.prefix_append _ _ : m'.created <+: m.posted).eq_of_length_le
        hdone.length_le

/-- One thread posts while the scheduler polls; the pass it causes makes the
    coroutine. -/
theorem post_loses_nothing_while_polling :
    ∃ m : Machine Nat Nat,
      Run (step sortedTimers) anyStep (init 3 64 ⟨.entry, 0, .ready, 0⟩) m ∧
      m.posted = [7] ∧
      ∃ m', Run (step sortedTimers) PassStep m m' ∧ m'.pc = .events [] ∧ m'.created = [7] := by
  let m0 : Machine Nat Nat := init 3 64 ⟨.entry, 0, .ready, 0⟩
  have hfire : step sortedTimers (m0.goto m0.sched .timers) (.fireTimers 0)
      = some (m0.goto m0.sched .polling) := by
    simp [step, stepRun, goto, m0, init]
  have hrun := (Run.refl _ : Run (step sortedTimers) anyStep m0 m0)
    |>.tail .run rfl trivial |>.tail .readyLoop rfl trivial
    |>.tail (.fireTimers 0) hfire trivial |>.tail (.postAppend 0 7) rfl trivial
    |>.tail (.postWrite 0) rfl trivial |>.tail (.epollWait [3]) rfl trivial
  obtain ⟨-, -, -, -, hpass⟩ := post_loses_nothing 3 64 ⟨.entry, 0, .ready, 0⟩ hrun
  exact ⟨_, hrun, rfl, (hpass [3] rfl (List.mem_singleton.mpr rfl)).2⟩

end Pass

end Machine

end CoroutineHttp.Core
