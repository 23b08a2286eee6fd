/-
  CoroutineHttp.Core.Channels

  `Channel::send` and `Channel::recv` over whole runs: which values have been sent,
  which have been received, and where the others are.

  A channel has one slot for a blocked sender and one for a blocked receiver, and
  whoever blocks next takes it.  `Unqueued` is the condition that nobody blocks while
  another one is blocked in the same call; under it no value and no coroutine is lost
  (`channel_delivers_once`).

  One step is looked at as channel `ch` sees it (`ChanStepped`): a call on it, a
  coroutine switched to, or anything else, which leaves alone who is in the channel.
-/

import CoroutineHttp.Core.Placement

namespace CoroutineHttp.Core

open CoroutineHttp.Library

universe u v

variable {τ : Type u} {α : Type v}

/-- Suspended in `send` or `recv` on `ch`. -/
def Ctx.onChan (ch : ChanId) : Ctx α → Bool
  | .inSend ch' => ch' == ch
  | .inRecv ch' _ => ch' == ch
  | _ => false

/-- The `result` of a `recv` on `ch`. -/
def Ctx.result (ch : ChanId) : Ctx α → Option α
  | .inRecv ch' x => if ch' = ch then some x else none
  | _ => none

theorem Ctx.result_eq_none {ch : ChanId} {c : Ctx α} (h : c.onChan ch = false) :
    c.result ch = none := by
  cases c <;> simp_all [onChan, result]

instance (ch : ChanId) (c : Ctx α) : Decidable (∃ x, c = .inRecv ch x) :=
  match c with
  | .inRecv ch' x =>
      decidable_of_iff (ch' = ch) ⟨fun h => ⟨x, h ▸ rfl⟩, fun ⟨_, h⟩ => (Ctx.inRecv.inj h).1⟩
  | .entry | .inYield | .inWaitEvent _ _ | .inSleep | .inSend _ => isFalse nofun

/-- The value of the blocked sender, if there is one. -/
def Channel.held (c : Channel α) : List α :=
  match c.sendWaiter with
  | some _ => [c.sendVal]
  | none => []

namespace Scheduler

/-- `p` has called `send` or `recv` on `ch`, has been suspended there and has not run
    since. -/
def InChan (s : Scheduler τ α) (ch : ChanId) (p : CoroPtr) : Prop :=
  p < s.allocs ∧ ((s.coros p).state = .waiting ∨ (s.coros p).state = .ready) ∧
    (s.coros p).ctx.onChan ch = true

instance [DecidableEq α] (s : Scheduler τ α) (p : CoroPtr) (ch : ChanId) :
    Decidable (s.BlockedSender p ch) :=
  inferInstanceAs (Decidable (_ ∧ _ ∧ _))

instance (s : Scheduler τ α) (p : CoroPtr) (ch : ChanId) : Decidable (s.BlockedReceiver p ch) :=
  inferInstanceAs (Decidable (_ ∧ _ ∧ _))

/-- The values that receivers on `ch` have been woken with and will return. -/
def onTheWay (s : Scheduler τ α) (ch : ChanId) : List α :=
  s.readyQueue.filterMap fun p => (s.coros p).ctx.result ch

/-! ## Beside a channel -/

/-- From `s` to `s'` nobody enters channel `ch` or leaves it, and who is in it stays as
    it is; other coroutines may be woken. -/
structure Beside (ch : ChanId) (s s' : Scheduler τ α) : Prop where
  queue : ∃ woken, s'.readyQueue = s.readyQueue ++ woken ∧ ∀ q ∈ woken, ¬ s'.InChan ch q
  kept : ∀ p, s.InChan ch p → s'.InChan ch p ∧ s'.coros p = s.coros p
  back : ∀ p, s'.InChan ch p → s.InChan ch p

namespace Beside

variable {ch : ChanId} {s s' s'' : Scheduler τ α} {p : CoroPtr}

theorem of_same (hcoros : s'.coros = s.coros) (hallocs : s'.allocs = s.allocs)
    (hqueue : s'.readyQueue = s.readyQueue) : Beside ch s s' where
  queue := ⟨[], by simp [hqueue], by simp⟩
  kept p hp := ⟨by simpa only [InChan, hcoros, hallocs] using hp, by rw [hcoros]⟩
  back p hp := by simpa only [InChan, hcoros, hallocs] using hp

theorem refl (s : Scheduler τ α) : Beside ch s s := of_same rfl rfl rfl

theorem trans (h : Beside ch s s') (h' : Beside ch s' s'') : Beside ch s s'' where
  queue := by
    obtain ⟨woken, hqueue, hwoken⟩ := h.queue
    obtain ⟨woken', hqueue', hwoken'⟩ := h'.queue
    refine ⟨woken ++ woken', by rw [hqueue', hqueue, List.append_assoc], fun q hq hin => ?_⟩
    rcases List.mem_append.mp hq with hq | hq
    · exact hwoken q hq (h'.back q hin)
    · exact hwoken' q hq hin
  kept p hp := by
    obtain ⟨hp', hsame⟩ := h.kept p hp
    obtain ⟨hp'', hsame'⟩ := h'.kept p hp'
    exact ⟨hp'', hsame'.trans hsame⟩
  back p hp := h.back p (h'.back p hp)

/-- Only coroutines in `P` change, which are in the channel neither before nor after. -/
theorem of_changes (P : CoroPtr → Prop) (hbefore : ∀ q, P q → ¬ s.InChan ch q)
    (hafter : ∀ q, P q → ¬ s'.InChan ch q) (hcoros : ∀ q, ¬ P q → s'.coros q = s.coros q)
    (hallocs : ∀ q, ¬ P q → (q < s'.allocs ↔ q < s.allocs))
    (hqueue : ∃ woken, s'.readyQueue = s.readyQueue ++ woken ∧ ∀ q ∈ woken, P q) :
    Beside ch s s' where
  queue := by
    obtain ⟨woken, hqueue, hwoken⟩ := hqueue
    exact ⟨woken, hqueue, fun q hq => hafter q (hwoken q hq)⟩
  kept q hq := by
    have hne : ¬ P q := fun hP => hbefore q hP hq
    refine ⟨?_, hcoros q hne⟩
    rw [InChan, hcoros q hne]
    exact ⟨(hallocs q hne).mpr hq.1, hq.2⟩
  back q hq := by
    have hne : ¬ P q := fun hP => hafter q hP hq
    rw [InChan, hcoros q hne] at hq
    exact ⟨(hallocs q hne).mp hq.1, hq.2⟩

theorem of_coros (hp : ¬ s.InChan ch p) (hp' : ¬ s'.InChan ch p)
    (hcoros : ∀ q, q ≠ p → s'.coros q = s.coros q)
    (hallocs : ∀ q, q ≠ p → (q < s'.allocs ↔ q < s.allocs))
    (hqueue : s'.readyQueue = s.readyQueue ∨ s'.readyQueue = s.readyQueue ++ [p]) :
    Beside ch s s' := by
  refine of_changes (· = p) (fun q hq => hq ▸ hp) (fun q hq => hq ▸ hp') hcoros hallocs ?_
  rcases hqueue with hqueue | hqueue
  · exact ⟨[], by simp [hqueue], by simp⟩
  · exact ⟨[p], hqueue, by simp⟩

attribute [local simp] Scheduler.makeReady Scheduler.swapOut saveCtx setState

theorem create (f : τ) : Beside ch s (s.create f) := by
  refine of_coros (p := s.allocs) (fun h => absurd h.1 (lt_irrefl _)) (fun h => ?_) (fun q hq => ?_)
    (fun q hq => ?_) (.inr rfl)
  · have hctx := h.2.2
    simp [Scheduler.create, Ctx.onChan] at hctx
  · simp [Scheduler.create, hq]
  · exact ⟨fun h => Nat.lt_of_le_of_ne (Nat.le_of_lt_succ h) hq, Nat.lt_succ_of_lt⟩

/-- The running coroutine is in no channel. -/
theorem not_inChan_running (hst : (s.coros p).state = .running) : ¬ s.InChan ch p := by
  rintro ⟨-, hst' | hst', -⟩ <;> rw [hst] at hst' <;> cases hst'

/-- The running coroutine `p` is suspended elsewhere. -/
theorem suspend (hst : (s.coros p).state = .running) (st : State) {c : Ctx α}
    (hc : c.onChan ch = false) : Beside ch s ((s.setState p st).swapOut p c) := by
  refine of_coros (p := p) (not_inChan_running hst) (fun h => ?_) (fun q hq => ?_)
    (fun q hq => Iff.rfl) (.inl rfl)
  · have hctx := h.2.2
    simp [hc] at hctx
  · simp [hq]

theorem yield (hrun : s.runningCoro = some p) (hst : (s.coros p).state = .running) :
    Beside ch s s.yield := by
  refine of_coros (p := p) (not_inChan_running hst) (fun h => ?_) (fun q hq => ?_)
    (fun q hq => ?_) (.inr ?_)
  · have hctx := h.2.2
    simp [Scheduler.yield, hrun, Ctx.onChan] at hctx
  · simp [Scheduler.yield, hrun, hq]
  · simp [Scheduler.yield, hrun]
  · simp [Scheduler.yield, hrun]

theorem waitEvent (hrun : s.runningCoro = some p) (hst : (s.coros p).state = .running) (fd : Fd)
    (events : UInt32) : Beside ch s (s.waitEvent fd events) := by
  have hout : Beside ch s ((s.setState p .waiting).swapOut p (.inWaitEvent fd events)) :=
    suspend hst .waiting rfl
  unfold Scheduler.waitEvent
  rw [hrun]
  exact hout.trans (of_same rfl rfl rfl)

theorem sleep (H : StdHeap timerAfter) (hrun : s.runningCoro = some p)
    (hst : (s.coros p).state = .running) (now ms : Int64) :
    Beside ch s (s.sleep H now ms) := by
  unfold Scheduler.sleep
  rw [hrun]
  dsimp only
  split
  · exact yield hrun hst
  · have hout : Beside ch s ((s.setState p .waiting).swapOut p .inSleep) :=
      suspend hst .waiting rfl
    exact hout.trans (of_same rfl rfl rfl)

theorem finish (hst : (s.coros p).state = .running) : Beside ch s (s.setState p .done) := by
  refine of_coros (p := p) (not_inChan_running hst) (fun h => ?_) (fun q hq => ?_)
    (fun q hq => Iff.rfl) (.inl rfl)
  · have hst' := h.2.1
    simp at hst'
  · simp [hq]

theorem reap (s : Scheduler τ α) : Beside ch s s.reap := by
  unfold Scheduler.reap
  split
  · exact refl s
  · split <;> exact of_same rfl rfl rfl

/-- A coroutine suspended outside the channel is woken. -/
theorem makeReady (hctx : (s.coros p).ctx.onChan ch = false) : Beside ch s (s.makeReady p) := by
  refine of_coros (p := p) (fun h => ?_) (fun h => ?_) (fun q hq => ?_) (fun q hq => Iff.rfl)
    (.inr rfl)
  · rw [h.2.2] at hctx
    cases hctx
  · have hctx' := h.2.2
    simp [hctx] at hctx'
  · simp [hq]

/-- What waits elsewhere is not in the channel. -/
theorem onChan_of_home {src : Place} (hsrc : s.homeOf p = some src) (hwait : src.state = .waiting)
    (hsend : src ≠ .sendWaiter ch) (hrecv : src ≠ .recvWaiter ch) :
    (s.coros p).ctx.onChan ch = false := by
  have hlt := lt_of_homeOf hsrc
  have hnd : (s.coros p).state ≠ .done := not_done_of_homeOf hsrc (by rintro rfl; cases hwait)
  have hst : (s.coros p).state = .waiting := (Live.state_eq ⟨hlt, hnd⟩ hsrc).trans hwait
  cases hctx : (s.coros p).ctx with
  | inSend ch' =>
      have hhome := blockedSender_iff_homeOf.mp ⟨hlt, hst, hctx⟩
      rw [hsrc] at hhome
      cases hhome
      simpa [Ctx.onChan] using hsend
  | inRecv ch' x =>
      have hhome := blockedReceiver_iff_homeOf.mp ⟨hlt, hst, x, hctx⟩
      rw [hsrc] at hhome
      cases hhome
      simpa [Ctx.onChan] using hrecv
  | _ => rfl

theorem wakeFd {chans : ChanId → Channel α} (hI : AtMostOnce s chans) (fd : Fd) :
    Beside ch s (s.wakeFd fd) := by
  unfold Scheduler.wakeFd
  split
  · exact refl s
  next co hlook =>
    have hhome : s.homeOf co = some (.waitingMap fd) :=
      hI.home_of_count _ (by simp [occurrences, hlook])
    have hcleared : Beside ch s { s with waitingMap := s.waitingMap.erase fd } :=
      of_same rfl rfl rfl
    exact hcleared.trans (makeReady (onChan_of_home hhome rfl (by simp) (by simp)))

theorem fireTimers (H : StdHeap timerAfter) {chans : ChanId → Channel α}
    (hI : AtMostOnce s chans) (hheap : IsHeap timerAfter s.timerHeap) (now : Int64) :
    Beside ch s (s.fireTimers H now).1 := by
  -- the owners of the entries are asleep, so in no channel
  have hrule := fireTimers_rule H (P := fun s' => AtMostOnce s' chans ∧ Beside ch s s')
    (fun s' front rest rest' ⟨hs', hb⟩ hq hperm _ (_ : front.expireMs ≤ now) => ?_) s hheap
    ⟨hI, refl s⟩
  · exact hrule.1.2
  · have hsrc : s'.occurrences chans .timerHeap front.co ≠ 0 := by simp [occurrences, hq]
    have hhome := hs'.home_of_count .timerHeap hsrc
    have hpopped : Beside ch s' { s' with timerHeap := rest' } := of_same rfl rfl rfl
    have hwoken : Shifts s' chans ({ s' with timerHeap := rest' }.makeReady front.co) chans :=
      hs'.wake .timerHeap hsrc (by simp) rfl rfl rfl (occurrences_popTimer hq hperm)
    refine ⟨(hs'.shifts hwoken).once, ?_⟩
    exact hb.trans (hpopped.trans
      (makeReady (onChan_of_home hhome rfl (by simp) (by simp))))

end Beside

/-! ## Calls on a channel -/

section Calls

variable {s : Scheduler τ α} {c : Channel α} {p r : CoroPtr} {ch : ChanId} {x : α}

attribute [local simp] Scheduler.makeReady Scheduler.swapOut saveCtx setState

/-- `send` with a receiver waiting: the receiver is woken with the value, and the sender
    yields behind it. -/
theorem send_some (hrun : s.runningCoro = some p) (hr : c.recvWaiter = some r)
    (hslot : c.recvSlot = some r) (hctx : (s.coros r).ctx = .inRecv ch x) (hne : p ≠ r) (val : α)
    (ch' : ChanId) :
    (Channel.send s c ch' p val).1.coros r
        = { s.coros r with state := .ready, ctx := .inRecv ch val } ∧
      (Channel.send s c ch' p val).1.coros p
        = { s.coros p with state := .ready, ctx := .inYield } ∧
      (∀ q, q ≠ r → q ≠ p → (Channel.send s c ch' p val).1.coros q = s.coros q) ∧
      (Channel.send s c ch' p val).1.readyQueue = s.readyQueue ++ [r, p] ∧
      (Channel.send s c ch' p val).1.runningCoro = none ∧
      (Channel.send s c ch' p val).1.allocs = s.allocs ∧
      (Channel.send s c ch' p val).2 = { c with recvSlot := none, recvWaiter := none } := by
  have hslot' : Channel.writeSlot s c.recvSlot val = s.saveCtx r (.inRecv ch val) := by
    simp only [Channel.writeSlot, hslot, hctx]
  unfold Channel.send
  rw [hr, hslot']
  refine ⟨?_, ?_, fun q hqr hqp => ?_, ?_, ?_, ?_, rfl⟩
  · simp [Scheduler.yield, hrun, hne.symm]
  · simp [Scheduler.yield, hrun, hne]
  · simp [Scheduler.yield, hrun, hqr, hqp]
  · simp [Scheduler.yield, hrun]
  · simp [Scheduler.yield, hrun]
  · simp [Scheduler.yield, hrun]

/-- A receiver that waits on `ch` is suspended in `recv` on it. -/
theorem AtMostOnce.receiver {chans : ChanId → Channel α} (hI : AtMostOnce s chans)
    (hr : (chans ch).recvWaiter = some r) : s.BlockedReceiver r ch :=
  blockedReceiver_iff_homeOf.mpr (hI.home_of_count _ (by simp [occurrences, hr]))

theorem AtMostOnce.sender {chans : ChanId → Channel α} (hI : AtMostOnce s chans)
    (hr : (chans ch).sendWaiter = some r) : s.BlockedSender r ch :=
  blockedSender_iff_homeOf.mpr (hI.home_of_count _ (by simp [occurrences, hr]))

namespace Beside

/-- A `send` on another channel. -/
theorem send {chans : ChanId → Channel α} (hI : AtMostOnce s chans)
    (hslot : (chans ch).recvSlot = (chans ch).recvWaiter) (hrun : s.runningCoro = some p)
    (hst : (s.coros p).state = .running) (val : α) {ch' : ChanId} (hne : ch ≠ ch') :
    Beside ch' s (Channel.send s (chans ch) ch p val).1 := by
  cases hr : (chans ch).recvWaiter with
  | none =>
      unfold Channel.send
      rw [hr]
      exact suspend hst .waiting (by simpa [Ctx.onChan] using hne)
  | some r =>
      obtain ⟨hlt, hwait, x, hctx⟩ := hI.receiver hr
      have hpr : p ≠ r := by
        rintro rfl
        rw [hst] at hwait
        cases hwait
      obtain ⟨hcr, hcp, hcoros, hqueue, -, hallocs, -⟩ :=
        send_some hrun hr (hslot.trans hr) hctx hpr val ch
      refine of_changes (fun q => q = r ∨ q = p) ?_ ?_ (fun q hq => ?_) (fun q _ => by rw [hallocs])
        ⟨_, hqueue, by simp⟩
      · rintro q (rfl | rfl) hq
        · have hon := hq.2.2
          rw [hctx] at hon
          exact hne (by simpa [Ctx.onChan] using hon)
        · exact not_inChan_running hst hq
      · rintro q (rfl | rfl) hq
        · have hon := hq.2.2
          rw [hcr] at hon
          exact hne (by simpa [Ctx.onChan] using hon)
        · have hon := hq.2.2
          rw [hcp] at hon
          simp [Ctx.onChan] at hon
      · exact hcoros q (fun h => hq (.inl h)) (fun h => hq (.inr h))

/-- A `recv` on another channel. -/
theorem recv [Inhabited α] {chans : ChanId → Channel α} (hI : AtMostOnce s chans)
    (hst : (s.coros p).state = .running) {ch' : ChanId} (hne : ch ≠ ch') :
    Beside ch' s (Channel.recv s (chans ch) ch p).1 := by
  unfold Channel.recv
  split
  next r hr =>
    refine makeReady ?_
    rw [(hI.sender hr).2.2]
    simpa [Ctx.onChan] using hne
  next => exact suspend hst .waiting (by simpa [Ctx.onChan] using hne)

end Beside

end Calls

/-! ## Values on the way -/

section OnTheWay

variable {s s' : Scheduler τ α} {chans chans' : ChanId → Channel α} {ch : ChanId} {p : CoroPtr}

/-- Who is in the ready queue and not in the channel has no `result` for it. -/
theorem AtMostOnce.result_eq_none (hI : AtMostOnce s chans) (hp : p ∈ s.readyQueue)
    (hout : ¬ s.InChan ch p) : (s.coros p).ctx.result ch = none := by
  obtain ⟨hlt, hst, -⟩ := hI.ready hp
  apply Ctx.result_eq_none
  by_contra hon
  exact hout ⟨hlt, .inr hst, by simpa using hon⟩

theorem Beside.onTheWay (h : Beside ch s s') (hI : AtMostOnce s chans)
    (hI' : AtMostOnce s' chans') : s'.onTheWay ch = s.onTheWay ch := by
  obtain ⟨woken, hqueue, hwoken⟩ := h.queue
  -- who has been woken has nothing for this channel
  have hnew : woken.filterMap (fun p => (s'.coros p).ctx.result ch) = [] := by
    rw [List.filterMap_eq_nil_iff]
    intro q hq
    exact hI'.result_eq_none (hqueue ▸ List.mem_append_right _ hq) (hwoken q hq)
  have hold : s.readyQueue.filterMap (fun p => (s'.coros p).ctx.result ch)
      = s.readyQueue.filterMap (fun p => (s.coros p).ctx.result ch) := by
    apply List.filterMap_congr
    intro q hq
    by_cases hin : s.InChan ch q
    · rw [(h.kept q hin).2]
    · rw [hI.result_eq_none hq hin]
      exact hI'.result_eq_none (hqueue ▸ List.mem_append_left _ hq) fun h' => hin (h.back q h')
  rw [Scheduler.onTheWay, hqueue, List.filterMap_append, hnew, hold, List.append_nil]
  rfl

/-- What coroutines outside the ready queue do does not matter. -/
theorem onTheWay_congr (hqueue : s'.readyQueue = s.readyQueue)
    (hcoros : ∀ q ∈ s.readyQueue, s'.coros q = s.coros q) : s'.onTheWay ch = s.onTheWay ch := by
  unfold onTheWay
  rw [hqueue]
  apply List.filterMap_congr
  intro q hq
  rw [hcoros q hq]

theorem onTheWay_append {woken : List CoroPtr} (hqueue : s'.readyQueue = s.readyQueue ++ woken)
    (hcoros : ∀ q ∈ s.readyQueue, s'.coros q = s.coros q) :
    s'.onTheWay ch = s.onTheWay ch ++ woken.filterMap fun p => (s'.coros p).ctx.result ch := by
  unfold onTheWay
  rw [hqueue, List.filterMap_append]
  congr 1
  apply List.filterMap_congr
  intro q hq
  rw [hcoros q hq]

end OnTheWay

end Scheduler

/-! ## Runs with their traffic -/

/-- A machine with the history of its channels. -/
structure Traced (τ : Type u) (α : Type v) where
  machine : Machine τ α
  /-- The values passed to `send`, in the order of the calls. -/
  sent : ChanId → List α
  /-- The values `recv` has returned, in the order of the returns. -/
  received : ChanId → List α
  /-- The channel on which a coroutine has called `send`, until that returns. -/
  sending : CoroPtr → Option ChanId
  /-- How many calls of `send` have returned. -/
  returned : ChanId → Nat

namespace Traced

open Scheduler

def init [Inhabited α] (pipeReadFd : Fd) (pipeCap : ℕ+) (junk : Coroutine τ α) : Traced τ α where
  machine := Machine.init pipeReadFd pipeCap junk
  sent := fun _ => []
  received := fun _ => []
  sending := fun _ => none
  returned := fun _ => 0

/-- `p` is switched to: its `recv` returns `result`, its `send` returns. -/
def resume (t : Traced τ α) (p : CoroPtr) : Traced τ α :=
  { t with
    received := fun ch => t.received ch ++ ((t.machine.sched.coros p).ctx.result ch).toList
    sending := Function.update t.sending p none
    returned := fun ch => t.returned ch + if t.sending p = some ch then 1 else 0 }

/-- The history after action `a` in state `t`. -/
def record [Inhabited α] (t : Traced τ α) (a : Act τ α) : Traced τ α :=
  match a, t.machine.sched.runningCoro with
  | .send ch val, some self =>
      { t with
        sent := Function.update t.sent ch (t.sent ch ++ [val])
        sending := Function.update t.sending self (some ch) }
  | .recv ch, some self =>
      -- a `recv` that blocks has returned nothing yet
      let r := Channel.recv t.machine.sched (t.machine.chans ch) ch self
      { t with received := Function.update t.received ch (t.received ch ++ r.2.2.toList) }
  | .readyLoop, _ =>
      match t.machine.sched.readyQueue with
      | [] => t
      | p :: _ => t.resume p
  | _, _ => t

def step [Inhabited α] (H : StdHeap timerAfter) (t : Traced τ α) (a : Act τ α) :
    Option (Traced τ α) :=
  (Machine.step H t.machine a).map fun m' => { t.record a with machine := m' }

end Traced

namespace Machine

open Scheduler

/-- The channel an action is a call on. -/
def callOn : Act τ α → Option ChanId
  | .send ch _ => some ch
  | .recv ch => some ch
  | _ => none

/-- A step as the channels see it: a call on one of them, a switch to a coroutine, or
    anything else, which they do not notice. -/
inductive Talk [Inhabited α] (m : Machine τ α) : Act τ α → Machine τ α → Prop where
  | quiet (a : Act τ α) (m' : Machine τ α) (hact : callOn a = none)
      (hbeside : ∀ ch, Beside ch m.sched m'.sched) (hchans : m'.chans = m.chans)
      (hrecord : ∀ t : Traced τ α, t.machine = m → t.record a = t)
      (hrun : ∀ p, m'.sched.runningCoro = some p → m.sched.runningCoro = some p) : Talk m a m'
  | switch (p : CoroPtr) (rest : List CoroPtr) (hq : m.sched.readyQueue = p :: rest) :
      Talk m .readyLoop (m.goto (m.sched.switchTo p rest) .coroutine)
  | send (self : CoroPtr) (ch : ChanId) (val : α) (hself : m.sched.runningCoro = some self)
      (hst : (m.sched.coros self).state = .running) :
      Talk m (.send ch val)
        ((m.setChan ch (Channel.send m.sched (m.chans ch) ch self val).2).goto
          (Channel.send m.sched (m.chans ch) ch self val).1 .switched)
  | recv (self : CoroPtr) (ch : ChanId) (hself : m.sched.runningCoro = some self)
      (hst : (m.sched.coros self).state = .running) :
      Talk m (.recv ch)
        ((m.setChan ch (Channel.recv m.sched (m.chans ch) ch self).2.1).goto
          (Channel.recv m.sched (m.chans ch) ch self).1
          (if (Channel.recv m.sched (m.chans ch) ch self).2.2.isSome then .coroutine
            else .switched))

section Inversion

variable [Inhabited α] {H : StdHeap timerAfter} {m m' : Machine τ α} {a : Act τ α}

/-- A stretch that ends with no coroutine running. -/
theorem Talk.quiet_none (hact : callOn a = none) (hbeside : ∀ ch, Beside ch m.sched m'.sched)
    (hchans : m'.chans = m.chans) (hrecord : ∀ t : Traced τ α, t.machine = m → t.record a = t)
    (hrun : m'.sched.runningCoro = none) : Talk m a m' := by
  refine .quiet a m' hact hbeside hchans hrecord fun p hp => ?_
  rw [hrun] at hp
  cases hp

/-- **Inversion**, for the channels. -/
theorem Stepped.talk (hI : Tidy m) (hs : Stepped H m a m') : Talk m a m' := by
  cases hs with
  | run hpc | epollWait evs hpc | epollFail eintr hpc | eventPipe fd evs hpc _
  | pipeEmpty evs hpc _ | pipeRead evs hpc _ | swapQueue evs hpc | drainDone evs hpc
  | postAppend t f _ | postWrite t _ | closeFd self fd hpc _ =>
      exact .quiet _ _ rfl (fun ch => .of_same rfl rfl rfl) rfl (fun _ _ => rfl) fun _ h => h
  -- the exit of the loop switches to nobody
  | readyEmpty hpc hq =>
      refine .quiet _ _ rfl (fun ch => .of_same rfl rfl rfl) rfl (fun t ht => ?_) fun _ h => h
      subst ht
      unfold Traced.record
      simp only [hq]
  | readyNext p rest hpc hq => exact .switch p rest hq
  | createMain f hpc | drainNext f fs evs hpc | create self f hpc _ =>
      exact .quiet _ _ rfl (fun ch => .create f) rfl (fun _ _ => rfl) fun _ h => h
  | yield self hpc hself =>
      have hst := hI.state_running hpc hself
      refine .quiet_none rfl (fun ch => .yield hself hst) rfl (fun _ _ => rfl) ?_
      simp [Machine.goto, Scheduler.yield, hself, swapOut]
  | waitEvent self fd events hpc hself =>
      have hst := hI.state_running hpc hself
      refine .quiet_none rfl (fun ch => .waitEvent hself hst fd events) rfl (fun _ _ => rfl) ?_
      simp [Machine.goto, Scheduler.waitEvent, hself, swapOut]
  | sleep self now ms hpc hself =>
      have hst := hI.state_running hpc hself
      obtain ⟨-, hrun, -⟩ := sleep_frame H hI.heap hself now ms
      exact .quiet_none rfl (fun ch => .sleep H hself hst now ms) rfl (fun _ _ => rfl) hrun
  | send self ch val hpc hself => exact .send self ch val hself (hI.state_running hpc hself)
  | recv self ch hpc hself => exact .recv self ch hself (hI.state_running hpc hself)
  | finish self hpc hself =>
      have hst := hI.state_running hpc hself
      exact .quiet _ _ rfl (fun ch => .finish hst) rfl (fun _ _ => rfl) fun _ h => h
  | reap hpc =>
      obtain ⟨-, -, -, hrun⟩ := reap_frame m.sched
      exact .quiet_none rfl (fun ch => .reap m.sched) rfl (fun _ _ => rfl) hrun
  | fireTimers now hpc =>
      obtain ⟨-, hrun⟩ := fireTimers_frame H hI.heap now
      exact .quiet _ _ rfl (fun ch => .fireTimers H hI.once hI.heap now) rfl (fun _ _ => rfl)
        fun p hp => hrun ▸ hp
  | lastTimers now hpc =>
      obtain ⟨-, hrun⟩ := fireTimers_frame H hI.heap now
      exact .quiet _ _ rfl (fun ch => .fireTimers H hI.once hI.heap now) rfl (fun _ _ => rfl)
        fun p hp => hrun ▸ hp
  | eventWake fd evs hpc _ =>
      obtain ⟨-, -, hrun⟩ := wakeFd_frame m.sched fd
      exact .quiet _ _ rfl (fun ch => .wakeFd hI.once fd) rfl (fun _ _ => rfl) fun p hp => hrun ▸ hp

end Inversion

end Machine

/-! ## One step and one channel -/

/-- A sender and a receiver are never blocked at once, and `recv_slot_` is the
    receiver's. -/
structure Channel.Sides (c : Channel α) : Prop where
  slot : c.recvSlot = c.recvWaiter
  one : c.sendWaiter = none ∨ c.recvWaiter = none

theorem Channel.Sides.send {c : Channel α} (hc : c.Sides) (s : Scheduler τ α) (ch : ChanId)
    (p : CoroPtr) (val : α) : (Channel.send s c ch p val).2.Sides := by
  unfold Channel.send
  split
  · exact ⟨rfl, .inr rfl⟩
  next hr => exact ⟨hc.slot, .inr hr⟩

theorem Channel.Sides.recv [Inhabited α] {c : Channel α} (hc : c.Sides) (s : Scheduler τ α)
    (ch : ChanId) (p : CoroPtr) : (Channel.recv s c ch p).2.1.Sides := by
  unfold Channel.recv
  split
  · exact ⟨hc.slot, .inl rfl⟩
  next hs => exact ⟨rfl, .inl hs⟩

namespace Traced

open Scheduler

/-- The invariant of every run. -/
structure Sound (t : Traced τ α) : Prop where
  tidy : t.machine.Tidy
  sides : ∀ ch, (t.machine.chans ch).Sides
  idle : ∀ p, t.machine.sched.runningCoro = some p → t.sending p = none

theorem sound_init [Inhabited α] (pipeReadFd : Fd) (pipeCap : ℕ+) (junk : Coroutine τ α) :
    Sound (init pipeReadFd pipeCap junk) where
  tidy := Machine.tidy_init pipeReadFd pipeCap junk
  sides _ := ⟨rfl, .inl rfl⟩
  idle _ h := nomatch h

theorem sides_setChan {m : Machine τ α} (h : ∀ ch, (m.chans ch).Sides) (ch : ChanId)
    {c : Channel α} (hc : c.Sides) (ch' : ChanId) : ((m.setChan ch c).chans ch').Sides := by
  by_cases hch : ch' = ch
  · subst hch
    simpa [Machine.setChan] using hc
  · simpa [Machine.setChan, hch] using h ch'

section Step

variable [Inhabited α] {H : StdHeap timerAfter} {t t' : Traced τ α} {a : Act τ α}

theorem step_talk (hI : Sound t) (hs : step H t a = some t') :
    ∃ m', Machine.Talk t.machine a m' ∧ t' = { t.record a with machine := m' } ∧ m'.Tidy := by
  obtain ⟨m', hm, rfl⟩ := Option.map_eq_some_iff.mp hs
  have hstepped := Machine.step_cases hm
  exact ⟨m', hstepped.talk hI.tidy, rfl, hI.tidy.step hstepped⟩

theorem Sound.step (hI : Sound t) (hs : Traced.step H t a = some t') : Sound t' := by
  obtain ⟨m', htalk, rfl, htidy⟩ := step_talk hI hs
  cases htalk with
  | quiet _ _ _ _ hchans hrecord hrun =>
      rw [hrecord t rfl]
      refine ⟨htidy, fun ch => ?_, fun p hp => hI.idle p (hrun p hp)⟩
      rw [hchans]
      exact hI.sides ch
  -- the resumed coroutine is back from its `send`, if it was in one
  | switch p rest hq =>
      refine ⟨htidy, hI.sides, fun q hrun => ?_⟩
      obtain ⟨-, -, hp, -⟩ := switchTo_frame t.machine.sched p rest
      obtain rfl : p = q := Option.some.inj (hp.symm.trans hrun)
      simp [record, hq, resume]
  | send self ch val hself hst =>
      obtain ⟨-, hnone, -⟩ := send_frame hself ch (t.machine.chans ch) val
      refine ⟨htidy, sides_setChan hI.sides ch ((hI.sides ch).send _ ch self val), ?_⟩
      intro q hrun
      cases hnone.symm.trans hrun
  | recv self ch hself hst =>
      obtain ⟨-, -, hrun'⟩ := recv_frame hself ch (t.machine.chans ch)
      refine ⟨htidy, sides_setChan hI.sides ch ((hI.sides ch).recv _ ch self), ?_⟩
      intro q hrun
      -- only a `recv` that found a sender goes on running
      have hq : q = self := by
        have hq' := hrun'.symm.trans hrun
        split at hq'
        · exact (Option.some.inj hq').symm
        · cases hq'
      subst hq
      have hidle := hI.idle q hself
      simpa [record, hself] using hidle

end Step

/-! ### What a step does to one channel -/

/-- Neither a call on `ch` nor the resumption of a coroutine that is in such a call. -/
structure Aside (ch : ChanId) (t t' : Traced τ α) : Prop where
  beside : Beside ch t.machine.sched t'.machine.sched
  chan : t'.machine.chans ch = t.machine.chans ch
  sent : t'.sent ch = t.sent ch
  received : t'.received ch = t.received ch
  returned : t'.returned ch = t.returned ch
  sending : ∀ p, t'.sending p = some ch ↔ t.sending p = some ch

/-- The ready loop switches to `p`. -/
structure Switched (ch : ChanId) (p : CoroPtr) (t t' : Traced τ α) : Prop where
  queue : t.machine.sched.readyQueue = p :: t'.machine.sched.readyQueue
  running : (t'.machine.sched.coros p).state = .running
  others : ∀ q, q ≠ p → t'.machine.sched.coros q = t.machine.sched.coros q
  allocs : t'.machine.sched.allocs = t.machine.sched.allocs
  chan : t'.machine.chans ch = t.machine.chans ch
  sent : t'.sent ch = t.sent ch
  received : t'.received ch
    = t.received ch ++ ((t.machine.sched.coros p).ctx.result ch).toList
  returned : t'.returned ch = t.returned ch + if t.sending p = some ch then 1 else 0
  sending : t'.sending = Function.update t.sending p none

/-- The running `p` sends `val` to the waiting receiver `r`. -/
structure HandedOver (ch : ChanId) (p r : CoroPtr) (val : α) (t t' : Traced τ α) : Prop where
  self : t.machine.sched.runningCoro = some p
  state : (t.machine.sched.coros p).state = .running
  waiter : (t.machine.chans ch).recvWaiter = some r
  blocked : t.machine.sched.BlockedReceiver r ch
  queue : t'.machine.sched.readyQueue = t.machine.sched.readyQueue ++ [r, p]
  receiver : t'.machine.sched.coros r
    = { t.machine.sched.coros r with state := .ready, ctx := .inRecv ch val }
  sender : t'.machine.sched.coros p
    = { t.machine.sched.coros p with state := .ready, ctx := .inYield }
  others : ∀ q, q ≠ r → q ≠ p → t'.machine.sched.coros q = t.machine.sched.coros q
  allocs : t'.machine.sched.allocs = t.machine.sched.allocs
  chan : t'.machine.chans ch
    = { t.machine.chans ch with recvSlot := none, recvWaiter := none }
  sent : t'.sent ch = t.sent ch ++ [val]
  received : t'.received = t.received
  returned : t'.returned = t.returned
  sending : t'.sending = Function.update t.sending p (some ch)

/-- The running `p` blocks in `send`. -/
structure SendBlocked (ch : ChanId) (p : CoroPtr) (val : α) (t t' : Traced τ α) : Prop where
  self : t.machine.sched.runningCoro = some p
  state : (t.machine.sched.coros p).state = .running
  free : (t.machine.chans ch).recvWaiter = none
  queue : t'.machine.sched.readyQueue = t.machine.sched.readyQueue
  coros : t'.machine.sched.coros = Function.update t.machine.sched.coros p
    { t.machine.sched.coros p with state := .waiting, ctx := .inSend ch }
  allocs : t'.machine.sched.allocs = t.machine.sched.allocs
  chan : t'.machine.chans ch
    = { t.machine.chans ch with sendVal := val, sendWaiter := some p }
  sent : t'.sent ch = t.sent ch ++ [val]
  received : t'.received = t.received
  returned : t'.returned = t.returned
  sending : t'.sending = Function.update t.sending p (some ch)

/-- The running `q` takes the value of the blocked sender `p`. -/
structure Took (ch : ChanId) (q p : CoroPtr) (t t' : Traced τ α) : Prop where
  self : t.machine.sched.runningCoro = some q
  waiter : (t.machine.chans ch).sendWaiter = some p
  blocked : t.machine.sched.BlockedSender p ch
  queue : t'.machine.sched.readyQueue = t.machine.sched.readyQueue ++ [p]
  coros : t'.machine.sched.coros = Function.update t.machine.sched.coros p
    { t.machine.sched.coros p with state := .ready }
  allocs : t'.machine.sched.allocs = t.machine.sched.allocs
  chan : t'.machine.chans ch = { t.machine.chans ch with sendWaiter := none }
  sent : t'.sent = t.sent
  received : t'.received ch = t.received ch ++ [(t.machine.chans ch).sendVal]
  returned : t'.returned = t.returned
  sending : t'.sending = t.sending

/-- The running `q` blocks in `recv`. -/
structure RecvBlocked (ch : ChanId) (q : CoroPtr) (x : α) (t t' : Traced τ α) : Prop where
  self : t.machine.sched.runningCoro = some q
  state : (t.machine.sched.coros q).state = .running
  free : (t.machine.chans ch).sendWaiter = none
  queue : t'.machine.sched.readyQueue = t.machine.sched.readyQueue
  coros : t'.machine.sched.coros = Function.update t.machine.sched.coros q
    { t.machine.sched.coros q with state := .waiting, ctx := .inRecv ch x }
  allocs : t'.machine.sched.allocs = t.machine.sched.allocs
  chan : t'.machine.chans ch
    = { t.machine.chans ch with recvWaiter := some q, recvSlot := some q }
  sent : t'.sent = t.sent
  received : t'.received ch = t.received ch
  returned : t'.returned = t.returned
  sending : t'.sending = t.sending

/-- One step, as channel `ch` sees it. -/
inductive ChanStepped [Inhabited α] (ch : ChanId) (t : Traced τ α) :
    Act τ α → Traced τ α → Prop where
  | aside (a : Act τ α) (t' : Traced τ α) (ha : Machine.callOn a ≠ some ch) (h : Aside ch t t') :
      ChanStepped ch t a t'
  | switched (p : CoroPtr) (t' : Traced τ α) (h : Switched ch p t t') :
      ChanStepped ch t .readyLoop t'
  | handedOver (p r : CoroPtr) (val : α) (t' : Traced τ α) (h : HandedOver ch p r val t t') :
      ChanStepped ch t (.send ch val) t'
  | sendBlocked (p : CoroPtr) (val : α) (t' : Traced τ α) (h : SendBlocked ch p val t t') :
      ChanStepped ch t (.send ch val) t'
  | took (q p : CoroPtr) (t' : Traced τ α) (h : Took ch q p t t') :
      ChanStepped ch t (.recv ch) t'
  | recvBlocked (q : CoroPtr) (t' : Traced τ α) (h : RecvBlocked ch q default t t') :
      ChanStepped ch t (.recv ch) t'

/-- A call on another channel. -/
theorem aside_of_call {t t' : Traced τ α} {ch ch' : ChanId} (hne : ch' ≠ ch)
    {s : Scheduler τ α} {c : Channel α} {pc : RunPc τ} (hbeside : Beside ch t.machine.sched s)
    (hsent : t'.sent ch = t.sent ch) (hreceived : t'.received ch = t.received ch)
    (hreturned : t'.returned = t.returned)
    (hsending : ∀ p, t'.sending p = some ch ↔ t.sending p = some ch)
    (hmachine : t'.machine = (t.machine.setChan ch' c).goto s pc) : Aside ch t t' := by
  refine ⟨?_, ?_, hsent, hreceived, congrFun hreturned ch, hsending⟩
  · rw [hmachine]
    exact hbeside
  · rw [hmachine]
    exact Function.update_of_ne (Ne.symm hne) _ _

section Step

variable [Inhabited α] {H : StdHeap timerAfter} {t t' : Traced τ α} {a : Act τ α}

/-- **Inversion**, for one channel. -/
theorem chan_cases (hI : Sound t) (hs : Traced.step H t a = some t') (ch : ChanId) :
    ChanStepped ch t a t' := by
  obtain ⟨m', htalk, rfl, htidy⟩ := step_talk hI hs
  have hsetChan : ∀ (c : Channel α) (s : Scheduler τ α) (pc : RunPc τ),
      ((t.machine.setChan ch c).goto s pc).chans ch = c := fun c s pc => by
    simp [Machine.goto, Machine.setChan]
  cases htalk with
  | quiet _ _ hact hbeside hchans hrecord hrun =>
      rw [hrecord t rfl]
      refine .aside a _ (by simp [hact]) ⟨hbeside ch, ?_, rfl, rfl, rfl, fun _ => Iff.rfl⟩
      rw [hchans]
  | switch p rest hq =>
      obtain ⟨-, -, -, hst⟩ := switchTo_frame t.machine.sched p rest
      obtain ⟨hqueue, hallocs, -⟩ := switchTo_shared t.machine.sched p rest
      refine .switched p _ ?_
      simp only [record, hq]
      refine ⟨?_, hst, fun q => switchTo_other rest, hallocs, rfl, rfl, rfl, rfl, rfl⟩
      rw [hq]
      exact congrArg _ hqueue.symm
  | send self ch' val hself hst =>
      by_cases hch : ch' = ch
      · subst hch
        cases hr : (t.machine.chans ch').recvWaiter with
        | none =>
            refine .sendBlocked self val _ ⟨hself, hst, hr, ?_, ?_, ?_, ?_, ?_, ?_, ?_, ?_⟩
            all_goals simp [record, hself, Channel.send, hr, Machine.goto, Machine.setChan,
              swapOut, saveCtx, setState]
        | some r =>
            have hblocked := hI.tidy.once.receiver hr
            obtain ⟨-, hwait, x, hctx⟩ := id hblocked
            have hne : self ≠ r := by
              rintro rfl
              rw [hst] at hwait
              cases hwait
            obtain ⟨hcr, hcp, hcoros, hqueue, -, hallocs, hchan⟩ :=
              send_some hself hr ((hI.sides ch').slot.trans hr) hctx hne val ch'
            refine .handedOver self r val _ ⟨hself, hst, hr, hblocked, hqueue, ?_, hcp, hcoros,
              hallocs, (hsetChan _ _ _).trans hchan, ?_, ?_, ?_, ?_⟩
            · exact hcr
            all_goals simp [record, hself]
      · refine .aside _ _ (by simpa [Machine.callOn] using hch) (aside_of_call hch
          (.send hI.tidy.once (hI.sides ch').slot hself hst val hch) ?_ ?_ ?_ ?_ rfl)
        · simp [record, hself, Ne.symm hch]
        · simp [record, hself]
        · simp [record, hself]
        · intro p
          by_cases hp : p = self
          · subst hp
            simp [record, hself, hch, hI.idle p hself]
          · simp [record, hself, hp]
  | recv self ch' hself hst =>
      by_cases hch : ch' = ch
      · subst hch
        cases hr : (t.machine.chans ch').sendWaiter with
        | none =>
            refine .recvBlocked self _ ⟨hself, hst, hr, ?_, ?_, ?_, ?_, ?_, ?_, ?_, ?_⟩
            all_goals simp [record, hself, Channel.recv, hr, Machine.goto, Machine.setChan,
              swapOut, saveCtx, setState]
        | some p =>
            have hblocked := hI.tidy.once.sender hr
            refine .took self p _ ⟨hself, hr, hblocked, ?_, ?_, ?_, ?_, ?_, ?_, ?_, ?_⟩
            all_goals simp [record, hself, Channel.recv, hr, Machine.goto, Machine.setChan,
              makeReady, setState]
      · refine .aside _ _ (by simpa [Machine.callOn] using hch) (aside_of_call hch
          (.recv hI.tidy.once hst hch) ?_ ?_ ?_ ?_ rfl)
        · simp [record, hself]
        · simp [record, hself, Ne.symm hch]
        · simp [record, hself]
        · simp [record, hself]

end Step

/-! ## Delivery -/

section Delivery

variable {ch : ChanId} {t t' : Traced τ α} {a : Act τ α}

/-- Nobody calls `send` on `ch` while a sender is blocked on it, nor `recv` while a
    receiver is. -/
def Unqueued (ch : ChanId) (t : Traced τ α) : Act τ α → Traced τ α → Prop
  | .send ch' _, _ => ch' = ch → ∀ p, ¬ t.machine.sched.BlockedSender p ch
  | .recv ch', _ => ch' = ch → ∀ p, ¬ t.machine.sched.BlockedReceiver p ch
  | _, _ => True

/-- Only allocated coroutines can be blocked, so the condition can be checked. -/
instance [DecidableEq α] (ch : ChanId) (t : Traced τ α) (a : Act τ α) (t' : Traced τ α) :
    Decidable (Unqueued ch t a t') :=
  match a with
  | .send ch' _ =>
      decidable_of_iff
        (ch' = ch → ∀ p < t.machine.sched.allocs, ¬ t.machine.sched.BlockedSender p ch)
        ⟨fun h hch p hp => h hch p hp.1 hp, fun h hch p _ => h hch p⟩
  | .recv ch' =>
      decidable_of_iff
        (ch' = ch → ∀ p < t.machine.sched.allocs, ¬ t.machine.sched.BlockedReceiver p ch)
        ⟨fun h hch p hp => h hch p hp.1 hp, fun h hch p _ => h hch p⟩
  | .run | .readyLoop | .create _ | .yield | .waitEvent _ _ | .sleep _ _ | .closeFd _ | .finish
  | .reap | .fireTimers _ | .epollWait _ | .epollFail _ | .event | .lastTimers _ | .readPipe
  | .swapQueue | .drain | .postAppend _ _ | .postWrite _ => isTrue trivial

/-- Each value sent on `ch` has been received, is the `result` of a woken receiver, or
    is held for a blocked sender; the channel knows who is blocked on it. -/
structure Settled (ch : ChanId) (t : Traced τ α) : Prop where
  accounted : (t.sent ch).Perm
    (t.received ch ++ t.machine.sched.onTheWay ch ++ (t.machine.chans ch).held)
  sender : ∀ p, t.machine.sched.BlockedSender p ch → (t.machine.chans ch).sendWaiter = some p
  receiver : ∀ p, t.machine.sched.BlockedReceiver p ch →
    (t.machine.chans ch).recvWaiter = some p

theorem settled_init [Inhabited α] (pipeReadFd : Fd) (pipeCap : ℕ+) (junk : Coroutine τ α) :
    Settled ch (init pipeReadFd pipeCap junk) where
  accounted := List.Perm.nil
  sender _ hp := absurd hp.1 (Nat.not_lt_zero _)
  receiver _ hp := absurd hp.1 (Nat.not_lt_zero _)

/-- Who is in the ready queue is neither the running coroutine nor a waiting one. -/
theorem Sound.ne_of_mem (hI : Sound t) {p q : CoroPtr}
    (hst : (t.machine.sched.coros p).state ≠ .ready) (hq : q ∈ t.machine.sched.readyQueue) :
    q ≠ p := by
  rintro rfl
  exact hst (hI.tidy.once.ready hq).2.1

theorem onTheWay_switched (hI : Sound t) {p : CoroPtr} (h : Switched ch p t t') :
    t.machine.sched.onTheWay ch
      = ((t.machine.sched.coros p).ctx.result ch).toList ++ t'.machine.sched.onTheWay ch := by
  have hcount := (hI.tidy.once.ready (p := p) (h.queue ▸ List.mem_cons_self)).2.2
  -- the front leaves the queue, and it was there once
  have hrest : t'.machine.sched.readyQueue.filterMap
      (fun q => (t.machine.sched.coros q).ctx.result ch) = t'.machine.sched.onTheWay ch := by
    unfold Scheduler.onTheWay
    apply List.filterMap_congr
    intro q hq
    have hne : q ≠ p := by
      rintro rfl
      rw [h.queue, List.count_cons_self] at hcount
      exact List.count_pos_iff.mpr hq |>.ne' (by omega)
    rw [h.others q hne]
  unfold Scheduler.onTheWay at hrest ⊢
  rw [h.queue, List.filterMap_cons, ← hrest]
  cases (t.machine.sched.coros p).ctx.result ch <;> rfl

theorem onTheWay_handedOver (hI : Sound t) {p r : CoroPtr} {val : α}
    (h : HandedOver ch p r val t t') :
    t'.machine.sched.onTheWay ch = t.machine.sched.onTheWay ch ++ [val] := by
  -- neither the receiver nor the sender was in the queue
  have hsame : ∀ q ∈ t.machine.sched.readyQueue,
      t'.machine.sched.coros q = t.machine.sched.coros q := by
    intro q hq
    exact h.others q (hI.ne_of_mem (by simp [h.blocked.2.1]) hq)
      (hI.ne_of_mem (by simp [h.state]) hq)
  rw [Scheduler.onTheWay_append h.queue hsame]
  simp [h.receiver, h.sender, Ctx.result]

theorem onTheWay_sendBlocked (hI : Sound t) {p : CoroPtr} {val : α}
    (h : SendBlocked ch p val t t') :
    t'.machine.sched.onTheWay ch = t.machine.sched.onTheWay ch := by
  apply Scheduler.onTheWay_congr h.queue
  intro q hq
  rw [h.coros, Function.update_of_ne (hI.ne_of_mem (by simp [h.state]) hq)]

theorem onTheWay_took (hI : Sound t) {q p : CoroPtr} (h : Took ch q p t t') :
    t'.machine.sched.onTheWay ch = t.machine.sched.onTheWay ch := by
  have hsame : ∀ r ∈ t.machine.sched.readyQueue,
      t'.machine.sched.coros r = t.machine.sched.coros r := by
    intro r hr
    rw [h.coros, Function.update_of_ne (hI.ne_of_mem (by simp [h.blocked.2.1]) hr)]
  rw [Scheduler.onTheWay_append h.queue hsame]
  simp [h.coros, h.blocked.2.2, Ctx.result]

theorem onTheWay_recvBlocked (hI : Sound t) {q : CoroPtr} {x : α} (h : RecvBlocked ch q x t t') :
    t'.machine.sched.onTheWay ch = t.machine.sched.onTheWay ch := by
  apply Scheduler.onTheWay_congr h.queue
  intro p hp
  rw [h.coros, Function.update_of_ne (hI.ne_of_mem (by simp [h.state]) hp)]

/-! ### What is held -/

theorem held_of_none {c : Channel α} (h : c.sendWaiter = none) : c.held = [] := by
  unfold Channel.held
  rw [h]

theorem held_of_some {c : Channel α} {p : CoroPtr} (h : c.sendWaiter = some p) :
    c.held = [c.sendVal] := by
  unfold Channel.held
  rw [h]

theorem Aside.held (h : Aside ch t t') :
    (t'.machine.chans ch).held = (t.machine.chans ch).held := by
  rw [h.chan]

/-- A handed-over value leaves nothing held: the sender was not waiting. -/
theorem HandedOver.held (hI : Sound t) {p r : CoroPtr} {val : α} (h : HandedOver ch p r val t t') :
    (t.machine.chans ch).held = [] ∧ (t'.machine.chans ch).held = [] := by
  have hnone : (t.machine.chans ch).sendWaiter = none := by
    rcases (hI.sides ch).one with hnone | hnone
    · exact hnone
    · rw [h.waiter] at hnone
      cases hnone
  exact ⟨held_of_none hnone, held_of_none (by rw [h.chan]; exact hnone)⟩

/-- While no sender is blocked the channel holds no value. -/
theorem Sound.held_of_free (hI : Sound t) (hfree : ∀ p, ¬ t.machine.sched.BlockedSender p ch) :
    (t.machine.chans ch).held = [] := by
  cases hw : (t.machine.chans ch).sendWaiter with
  | none => exact held_of_none hw
  | some p => exact absurd (hI.tidy.once.sender hw) (hfree p)

theorem Settled.accounted_step [Inhabited α] (hI : Sound t) (hI' : Sound t')
    (hset : Settled ch t) (hs : ChanStepped ch t a t') (hok : Unqueued ch t a t') :
    (t'.sent ch).Perm
      (t'.received ch ++ t'.machine.sched.onTheWay ch ++ (t'.machine.chans ch).held) := by
  have haccounted := hset.accounted
  cases hs with
  | aside _ _ _ h =>
      rw [h.sent, h.received, h.beside.onTheWay hI.tidy.once hI'.tidy.once, h.held]
      exact haccounted
  -- the `result` at the front of the queue is received
  | switched p _ h =>
      rw [onTheWay_switched hI h] at haccounted
      rw [h.sent, h.received, h.chan]
      simpa only [List.append_assoc] using haccounted
  -- the value sent is on its way at once
  | handedOver p r val _ h =>
      obtain ⟨hheld, hheld'⟩ := h.held hI
      rw [hheld, List.append_nil] at haccounted
      rw [h.sent, h.received, onTheWay_handedOver hI h, hheld', List.append_nil,
        ← List.append_assoc]
      exact haccounted.append_right [val]
  -- it is held; without a blocked sender nothing was held before
  | sendBlocked p val _ h =>
      rw [hI.held_of_free (hok rfl), List.append_nil] at haccounted
      rw [h.sent, h.received, onTheWay_sendBlocked hI h, h.chan]
      exact haccounted.append_right [val]
  -- the held value is received past those on the way: equal up to order
  | took q p _ h =>
      rw [held_of_some h.waiter, List.append_assoc] at haccounted
      rw [h.sent, h.received, onTheWay_took hI h, h.chan, held_of_none rfl, List.append_nil,
        List.append_assoc]
      exact haccounted.trans (List.perm_append_comm.append_left _)
  | recvBlocked q _ h =>
      rw [h.sent, h.received, onTheWay_recvBlocked hI h, h.chan]
      exact haccounted

/-! ### Who is blocked -/

/-- Who is blocked in a call on `ch` after a step was so before, or has just made it. -/
theorem ChanStepped.blocked_back [Inhabited α] (hs : ChanStepped ch t a t') {q : CoroPtr}
    (hlt : q < t'.machine.sched.allocs) (hwait : (t'.machine.sched.coros q).state = .waiting)
    (hon : (t'.machine.sched.coros q).ctx.onChan ch = true) :
    (q < t.machine.sched.allocs ∧ t'.machine.sched.coros q = t.machine.sched.coros q) ∨
      ((t'.machine.sched.coros q).ctx = .inSend ch ∧
        (t'.machine.chans ch).sendWaiter = some q) ∨
      ((∃ x, (t'.machine.sched.coros q).ctx = .inRecv ch x) ∧
        (t'.machine.chans ch).recvWaiter = some q) := by
  cases hs with
  | aside _ _ _ h =>
      have hin := h.beside.back q ⟨hlt, .inl hwait, hon⟩
      exact .inl ⟨hin.1, (h.beside.kept q hin).2⟩
  | switched p _ h =>
      have hne : q ≠ p := by
        rintro rfl
        rw [h.running] at hwait
        cases hwait
      exact .inl ⟨h.allocs ▸ hlt, h.others q hne⟩
  | handedOver p r val _ h =>
      have hr : q ≠ r := by
        rintro rfl
        rw [h.receiver] at hwait
        cases hwait
      have hp : q ≠ p := by
        rintro rfl
        rw [h.sender] at hwait
        cases hwait
      exact .inl ⟨h.allocs ▸ hlt, h.others q hr hp⟩
  | sendBlocked p val _ h =>
      rw [h.coros, h.chan]
      by_cases hq : q = p
      · subst hq
        rw [Function.update_self]
        exact .inr (.inl ⟨rfl, rfl⟩)
      · exact .inl ⟨h.allocs ▸ hlt, Function.update_of_ne hq _ _⟩
  | took r p _ h =>
      have hp : q ≠ p := by
        rintro rfl
        rw [h.coros, Function.update_self] at hwait
        cases hwait
      rw [h.coros]
      exact .inl ⟨h.allocs ▸ hlt, Function.update_of_ne hp _ _⟩
  | recvBlocked r _ h =>
      rw [h.coros, h.chan]
      by_cases hq : q = r
      · subst hq
        rw [Function.update_self]
        exact .inr (.inr ⟨⟨default, rfl⟩, rfl⟩)
      · exact .inl ⟨h.allocs ▸ hlt, Function.update_of_ne hq _ _⟩

theorem Settled.sender_step [Inhabited α] (hset : Settled ch t) (hs : ChanStepped ch t a t')
    (hok : Unqueued ch t a t') {q : CoroPtr} (hq : t'.machine.sched.BlockedSender q ch) :
    (t'.machine.chans ch).sendWaiter = some q := by
  obtain ⟨hlt, hwait, hctx⟩ := hq
  rcases hs.blocked_back hlt hwait (by simp [hctx, Ctx.onChan])
    with ⟨hlt', hsame⟩ | ⟨-, hnew⟩ | ⟨⟨x, hctx'⟩, -⟩
  · have hold : t.machine.sched.BlockedSender q ch := ⟨hlt', hsame ▸ hwait, hsame ▸ hctx⟩
    have hknown := hset.sender q hold
    cases hs with
    | sendBlocked p val _ h => exact absurd hold (hok rfl q)
    | took r p _ h =>
        -- the channel knew of one blocked sender, and that one has been woken
        obtain rfl : q = p := Option.some.inj (hknown.symm.trans h.waiter)
        rw [h.coros, Function.update_self] at hwait
        cases hwait
    | aside _ _ _ h | switched p _ h | handedOver p r val _ h | recvBlocked r _ h =>
        rw [h.chan]
        exact hknown
  · exact hnew
  · cases hctx.symm.trans hctx'

theorem Settled.receiver_step [Inhabited α] (hset : Settled ch t) (hs : ChanStepped ch t a t')
    (hok : Unqueued ch t a t') {q : CoroPtr} (hq : t'.machine.sched.BlockedReceiver q ch) :
    (t'.machine.chans ch).recvWaiter = some q := by
  obtain ⟨hlt, hwait, x, hctx⟩ := hq
  rcases hs.blocked_back hlt hwait (by simp [hctx, Ctx.onChan])
    with ⟨hlt', hsame⟩ | ⟨hctx', -⟩ | ⟨-, hnew⟩
  · have hold : t.machine.sched.BlockedReceiver q ch := ⟨hlt', hsame ▸ hwait, x, hsame ▸ hctx⟩
    have hknown := hset.receiver q hold
    cases hs with
    | recvBlocked r _ h => exact absurd hold (hok rfl q)
    | handedOver p r val _ h =>
        -- the channel knew of one blocked receiver, and that one has been woken
        obtain rfl : q = r := Option.some.inj (hknown.symm.trans h.waiter)
        rw [h.receiver] at hwait
        cases hwait
    | aside _ _ _ h | switched p _ h | sendBlocked p val _ h | took r p _ h =>
        rw [h.chan]
        exact hknown
  · cases hctx.symm.trans hctx'
  · exact hnew

/-- **Step lemma.** -/
theorem Settled.step [Inhabited α] (hI : Sound t) (hI' : Sound t') (hset : Settled ch t)
    (hs : ChanStepped ch t a t') (hok : Unqueued ch t a t') : Settled ch t' :=
  ⟨hset.accounted_step hI hI' hs hok, fun _ hq => hset.sender_step hs hok hq,
    fun _ hq => hset.receiver_step hs hok hq⟩

/-- **Run lemma.** -/
theorem Settled.run [Inhabited α] {H : StdHeap timerAfter} (hI : Sound t) (hset : Settled ch t)
    (hrun : Run (Traced.step H) (Unqueued ch) t t') : Sound t' ∧ Settled ch t' := by
  refine hrun.invariant (P := fun t => Sound t ∧ Settled ch t) ⟨hI, hset⟩ ?_
  intro t a t' ⟨hI, hset⟩ hs hok
  have hI' := hI.step hs
  exact ⟨hI', hset.step hI hI' (chan_cases hI hs ch) hok⟩

/-- What a channel owes its users in state `t`: no value is received that was not sent,
    or more often; what was sent and not received is the `result` of a receiver that has
    been woken, or held for a blocked sender; and each coroutine blocked on the channel
    is the one the channel will wake. -/
structure DeliversOnce (ch : ChanId) (t : Traced τ α) : Prop where
  contained : (t.received ch).Subperm (t.sent ch)
  accounted : (t.sent ch).Perm
    (t.received ch ++ t.machine.sched.onTheWay ch ++ (t.machine.chans ch).held)
  sender : ∀ p, t.machine.sched.BlockedSender p ch ↔ (t.machine.chans ch).sendWaiter = some p
  receiver : ∀ p, t.machine.sched.BlockedReceiver p ch ↔
    (t.machine.chans ch).recvWaiter = some p ∧ (t.machine.chans ch).recvSlot = some p

/-- A held value stays until the next `recv`, which returns it and wakes its sender. -/
theorem ChanStepped.matched [Inhabited α] (hI : Sound t) (hs : ChanStepped ch t a t')
    (hok : Unqueued ch t a t') {p : CoroPtr} (hp : (t.machine.chans ch).sendWaiter = some p) :
    (a = .recv ch ∧ t'.received ch = t.received ch ++ [(t.machine.chans ch).sendVal] ∧
        t'.machine.sched.readyQueue = t.machine.sched.readyQueue ++ [p]) ∨
      (a ≠ .recv ch ∧ t'.machine.chans ch = t.machine.chans ch) := by
  cases hs with
  | aside _ _ ha h =>
      refine .inr ⟨?_, h.chan⟩
      rintro rfl
      exact ha rfl
  | switched q _ h => exact .inr ⟨nofun, h.chan⟩
  | handedOver q r val _ h =>
      -- a sender and a receiver are not blocked at once
      rcases (hI.sides ch).one with hnone | hnone
      · cases hp.symm.trans hnone
      · cases h.waiter.symm.trans hnone
  | sendBlocked q val _ h => exact absurd (hI.tidy.once.sender hp) (hok rfl p)
  | took q r _ h =>
      obtain rfl : p = r := Option.some.inj (hp.symm.trans h.waiter)
      exact .inl ⟨rfl, h.received, h.queue⟩
  | recvBlocked q _ h => cases hp.symm.trans h.free

/-- **Delivery.** In every run in which nobody queues up on `ch`, the channel delivers
    each value once and forgets nobody, whatever else the coroutines do; and the value
    of a blocked sender stays until the next `recv`, which returns it. -/
theorem channel_delivers_once [Inhabited α] (H : StdHeap timerAfter) (pipeReadFd : Fd)
    (pipeCap : ℕ+) (junk : Coroutine τ α)
    (hrun : Run (Traced.step H) (Unqueued ch) (init pipeReadFd pipeCap junk) t) :
    DeliversOnce ch t ∧
      ∀ p a t', (t.machine.chans ch).sendWaiter = some p → Traced.step H t a = some t' →
        Unqueued ch t a t' →
        (a = .recv ch ∧ t'.received ch = t.received ch ++ [(t.machine.chans ch).sendVal] ∧
            t'.machine.sched.readyQueue = t.machine.sched.readyQueue ++ [p]) ∨
          (a ≠ .recv ch ∧ t'.machine.chans ch = t.machine.chans ch) := by
  obtain ⟨hI, hset⟩ := (settled_init pipeReadFd pipeCap junk).run
    (sound_init pipeReadFd pipeCap junk) hrun
  refine ⟨⟨?_, hset.accounted, fun p => ?_, fun p => ?_⟩, ?_⟩
  -- what has been received is part of what was sent
  · have haccounted := hset.accounted
    rw [List.append_assoc] at haccounted
    exact (List.sublist_append_left _ _).subperm.trans haccounted.symm.subperm
  · exact ⟨hset.sender p, hI.tidy.once.sender⟩
  · constructor
    · intro hp
      have hwaiter := hset.receiver p hp
      exact ⟨hwaiter, (hI.sides ch).slot.trans hwaiter⟩
    · rintro ⟨hwaiter, -⟩
      exact hI.tidy.once.receiver hwaiter
  · intro p a t' hp hs hok
    exact (chan_cases hI hs ch).matched hI hok hp

end Delivery

/-- The first coroutine receives, the second one sends. -/
theorem channel_delivers_once_handed_over :
    ∃ t : Traced Nat Nat,
      Run (Traced.step sortedTimers) (Unqueued 0) (init 3 64 ⟨.entry, 0, .ready, 0⟩) t ∧
      t.received 0 = [5] ∧ DeliversOnce 0 t := by
  obtain ⟨t, hrun, hreceived⟩ := exists_run_of_exec (Traced.step sortedTimers) (Unqueued 0)
    (fun t => decide (t.received 0 = [5])) (init 3 64 ⟨.entry, 0, .ready, 0⟩)
    [.create 7, .create 8, .run, .readyLoop, .recv 0, .reap, .readyLoop, .send 0 5, .reap,
      .readyLoop] (by decide)
  exact ⟨t, hrun, of_decide_eq_true hreceived, (channel_delivers_once sortedTimers 3 64 _ hrun).1⟩

/-- Of two senders that block on one channel the first is forgotten, and its value is
    lost. -/
theorem channel_forgets_sender :
    ¬ ∀ t : Traced Nat Nat,
      Run (Traced.step sortedTimers) anyStep (init 3 64 ⟨.entry, 0, .ready, 0⟩) t →
        DeliversOnce 0 t := by
  intro h
  obtain ⟨t, hrun, hlost⟩ := exists_run_of_exec (Traced.step sortedTimers) anyStep
    (fun t => decide (t.machine.sched.allocs = 2 ∧ (t.machine.sched.coros 0).state = .waiting ∧
      (t.machine.sched.coros 0).ctx = .inSend 0 ∧ (t.machine.chans 0).sendWaiter = some 1))
    (init 3 64 ⟨.entry, 0, .ready, 0⟩)
    [.create 7, .create 8, .run, .readyLoop, .send 0 5, .reap, .readyLoop, .send 0 6] (by decide)
  obtain ⟨hallocs, hst, hctx, hwaiter⟩ := of_decide_eq_true hlost
  have hknown := ((h t hrun).sender 0).mp ⟨by rw [hallocs]; decide, hst, hctx⟩
  rw [hwaiter] at hknown
  cases hknown

end Traced

end CoroutineHttp.Core
