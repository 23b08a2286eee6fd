/-
  CoroutineHttp.Core.Rendezvous

  A channel with one sending and one receiving coroutine: an ordered rendezvous.

  `send` has two ways to hand a value over.  With the receiver waiting it writes the
  value into the receiver's `result` and yields, and then the receiver stands before
  the sender in the FIFO ready queue (`Ordered.handed`).  Without one the sender blocks,
  and `recv` takes the value before it makes the sender ready.  Either way `recv` has
  the value when `send` returns.
-/

import CoroutineHttp.Core.Channels

namespace CoroutineHttp.Core.Traced

open CoroutineHttp.Library Scheduler

universe u v

variable {τ : Type u} {α : Type v}

/-- Only `S` sends on `ch`, and only `R` receives on it. -/
def UsedBy (ch : ChanId) (S R : CoroPtr) (t : Traced τ α) : Act τ α → Traced τ α → Prop
  | .send ch' _, _ => ch' = ch → t.machine.sched.runningCoro = some S
  | .recv ch', _ => ch' = ch → t.machine.sched.runningCoro = some R
  | _, _ => True

instance (ch : ChanId) (S R : CoroPtr) (t : Traced τ α) (a : Act τ α) (t' : Traced τ α) :
    Decidable (UsedBy ch S R t a t') := by
  cases a <;> unfold UsedBy <;> infer_instance

/-- The values handed over or held, in the order they were sent, and who is where while
    there is one. -/
structure Ordered (ch : ChanId) (S R : CoroPtr) (t : Traced τ α) : Prop where
  accounted : t.sent ch
    = t.received ch ++ t.machine.sched.onTheWay ch ++ (t.machine.chans ch).held
  few : (t.machine.sched.onTheWay ch ++ (t.machine.chans ch).held).length ≤ 1
  counted : t.returned ch + (if t.sending S = some ch then 1 else 0) = (t.sent ch).length
  sending : ∀ p, t.sending p = some ch → p = S
  sender : ∀ p, (t.machine.chans ch).sendWaiter = some p → p = S ∧ t.sending S = some ch
  receiver : ∀ p, (t.machine.chans ch).recvWaiter = some p → p = R
  handed : ∀ p ∈ t.machine.sched.readyQueue, (t.machine.sched.coros p).ctx.result ch ≠ none →
    p = R ∧ (t.machine.chans ch).sendWaiter = none ∧ t.sending S = some ch ∧
      [R, S].Sublist t.machine.sched.readyQueue

section Order

variable {ch : ChanId} {S R : CoroPtr} {t t' : Traced τ α} {a : Act τ α}

theorem ordered_init [Inhabited α] (pipeReadFd : Fd) (pipeCap : ℕ+) (junk : Coroutine τ α) :
    Ordered ch S R (init pipeReadFd pipeCap junk) where
  accounted := rfl
  few := Nat.zero_le _
  counted := rfl
  sending _ h := nomatch h
  sender _ h := nomatch h
  receiver _ h := nomatch h
  handed _ h := nomatch h

/-- While `S` is not in `send`, every value sent has been received. -/
theorem Ordered.settled (hO : Ordered ch S R t) (hidle : t.sending S ≠ some ch) :
    t.machine.sched.onTheWay ch = [] ∧ (t.machine.chans ch).held = [] := by
  constructor
  · rw [onTheWay, List.filterMap_eq_nil_iff]
    intro p hp
    by_contra hresult
    exact hidle (hO.handed p hp hresult).2.2.1
  · cases hw : (t.machine.chans ch).sendWaiter with
    | none => exact held_of_none hw
    | some p => exact absurd (hO.sender p hw).2 hidle

/-- The running coroutine is not blocked. -/
theorem Sound.not_waiting (hI : Sound t) {p : CoroPtr}
    (hrun : t.machine.sched.runningCoro = some p) : (t.machine.sched.coros p).state ≠ .waiting := by
  -- its home would be both `running_coro` and a waiting place
  intro hwait
  have hhome := hI.tidy.once.home_of_running hrun
  have hlive : t.machine.sched.Live p := ⟨lt_of_homeOf hhome, by rw [hwait]; decide⟩
  have hst := hlive.state_eq hhome
  rw [hwait] at hst
  cases hst

/-- The two coroutines block on the channel one at a time. -/
theorem UsedBy.unqueued (hI : Sound t) (hset : Settled ch t) (hO : Ordered ch S R t)
    (hok : UsedBy ch S R t a t') : Unqueued ch t a t' := by
  cases a with
  | send ch' val =>
      intro hch p hp
      obtain ⟨rfl, -⟩ := hO.sender p (hset.sender p hp)
      exact hI.not_waiting (hok hch) hp.2.1
  | recv ch' =>
      intro hch p hp
      obtain rfl := hO.receiver p (hset.receiver p hp)
      exact hI.not_waiting (hok hch) hp.2.1
  | _ => trivial

theorem Ordered.aside (hI : Sound t) (hI' : Sound t') (hO : Ordered ch S R t)
    (h : Aside ch t t') : Ordered ch S R t' := by
  have hway := h.beside.onTheWay hI.tidy.once hI'.tidy.once
  refine ⟨?_, ?_, ?_, fun p hp => hO.sending p ((h.sending p).mp hp), fun p hp => ?_,
    fun p hp => ?_, fun p hp hresult => ?_⟩
  · rw [h.sent, h.received, hway, h.chan]
    exact hO.accounted
  · rw [hway, h.chan]
    exact hO.few
  · rw [h.returned, h.sent]
    simp only [h.sending S]
    exact hO.counted
  · rw [h.chan] at hp
    obtain ⟨hpS, hsending⟩ := hO.sender p hp
    exact ⟨hpS, (h.sending S).mpr hsending⟩
  · rw [h.chan] at hp
    exact hO.receiver p hp
  -- who holds a value for the channel was in the queue before, with the sender behind it
  · obtain ⟨woken, hqueue, hwoken⟩ := h.beside.queue
    have hin : t'.machine.sched.InChan ch p := by
      by_contra hout
      exact hresult (hI'.tidy.once.result_eq_none hp hout)
    have hmem : p ∈ t.machine.sched.readyQueue := by
      rw [hqueue] at hp
      exact (List.mem_append.mp hp).resolve_right fun hw => hwoken p hw hin
    rw [(h.beside.kept p (h.beside.back p hin)).2] at hresult
    obtain ⟨hpR, hnone, hsending, hbefore⟩ := hO.handed p hmem hresult
    rw [h.chan, hqueue]
    exact ⟨hpR, hnone, (h.sending S).mpr hsending,
      hbefore.trans (List.sublist_append_left _ _)⟩

/-- If `S` is switched to, its value has been received: the receiver stood before it. -/
theorem Ordered.switched (hI : Sound t) (hO : Ordered ch S R t) {p : CoroPtr}
    (h : Switched ch p t t') : Ordered ch S R t' := by
  have hmem : p ∈ t.machine.sched.readyQueue := h.queue ▸ List.mem_cons_self
  have hready := hI.tidy.once.ready hmem
  -- nobody is in the queue twice
  have hrest : p ∉ t'.machine.sched.readyQueue := by
    intro hp
    have hcount := hready.2.2
    rw [h.queue, List.count_cons_self] at hcount
    have hpos := List.count_pos_iff.mpr hp
    omega
  have hway := onTheWay_switched hI h
  -- a coroutine before `S` in the queue is not at its head if `S` is
  have hnotS : [R, S].Sublist t.machine.sched.readyQueue → p ≠ S := by
    rintro hbefore rfl
    rw [h.queue] at hbefore
    cases hbefore with
    | cons _ hbefore => exact hrest (hbefore.subset (by simp))
    | cons_cons _ hbefore => exact hrest (hbefore.subset (by simp))
  refine ⟨?_, ?_, ?_, fun q hq => ?_, fun q hq => ?_, fun q hq => ?_, fun q hq hresult => ?_⟩
  · rw [h.sent, h.received, h.chan, hO.accounted, hway]
    simp only [List.append_assoc]
  · have hfew := hO.few
    rw [hway, List.append_assoc, List.length_append] at hfew
    rw [h.chan]
    omega
  · have hcounted := hO.counted
    rw [h.returned, h.sent, h.sending]
    by_cases hp : p = S
    · subst hp
      simpa using hcounted
    · have hother : t.sending p ≠ some ch := fun hp' => hp (hO.sending p hp')
      rw [if_neg hother, Function.update_of_ne (Ne.symm hp)]
      exact hcounted
  · rw [h.sending] at hq
    by_cases hp : q = p
    · rw [hp, Function.update_self] at hq
      cases hq
    · rw [Function.update_of_ne hp] at hq
      exact hO.sending q hq
  · rw [h.chan] at hq
    obtain ⟨rfl, hsending⟩ := hO.sender q hq
    have hne : q ≠ p := by
      rintro rfl
      have hwait := (hI.tidy.once.sender hq).2.1
      rw [hready.2.1] at hwait
      cases hwait
    rw [h.sending, Function.update_of_ne hne]
    exact ⟨rfl, hsending⟩
  · rw [h.chan] at hq
    exact hO.receiver q hq
  · have hne : q ≠ p := by
      rintro rfl
      exact hrest hq
    rw [h.others q hne] at hresult
    obtain ⟨rfl, hnone, hsending, hbefore⟩ :=
      hO.handed q (h.queue ▸ List.mem_cons_of_mem _ hq) hresult
    have hS := hnotS hbefore
    rw [h.chan, h.sending, Function.update_of_ne (Ne.symm hS)]
    refine ⟨rfl, hnone, hsending, ?_⟩
    rw [h.queue] at hbefore
    cases hbefore with
    | cons _ hbefore => exact hbefore
    | cons_cons _ hbefore => exact absurd rfl hne

/-- `S` calls `send`, when all earlier values have been received: its own is the only one on
    the way or held, it is the only one to be in the call, and has one more value to see
    received before that returns. -/
theorem Ordered.calls_send (hO : Ordered ch S R t) {val : α} (hidle : t.sending S ≠ some ch)
    (hkept : t'.machine.sched.onTheWay ch ++ (t'.machine.chans ch).held = [val])
    (hsent : t'.sent ch = t.sent ch ++ [val]) (hreceived : t'.received = t.received)
    (hreturned : t'.returned = t.returned)
    (hsending : t'.sending = Function.update t.sending S (some ch)) :
    t'.sent ch = t'.received ch ++ t'.machine.sched.onTheWay ch ++ (t'.machine.chans ch).held ∧
      (t'.machine.sched.onTheWay ch ++ (t'.machine.chans ch).held).length ≤ 1 ∧
      t'.returned ch + (if t'.sending S = some ch then 1 else 0) = (t'.sent ch).length ∧
      ∀ p, t'.sending p = some ch → p = S := by
  obtain ⟨hway, hheld⟩ := hO.settled hidle
  refine ⟨?_, ?_, ?_, fun p hp => ?_⟩
  · have haccounted := hO.accounted
    rw [hway, hheld, List.append_nil, List.append_nil] at haccounted
    rw [List.append_assoc, hkept, hsent, hreceived, haccounted]
  · rw [hkept]
    exact le_rfl
  · have hcounted := hO.counted
    rw [if_neg hidle, Nat.add_zero] at hcounted
    rw [hreturned, hsent, hsending, Function.update_self, if_pos rfl, List.length_append, hcounted]
    rfl
  · by_contra hpS
    rw [hsending, Function.update_of_ne hpS] at hp
    exact hpS (hO.sending p hp)

/-- The sender hands over to the receiver and queues up behind it. -/
theorem Ordered.handedOver (hI : Sound t) (hO : Ordered ch S R t) {r : CoroPtr} {val : α}
    (h : HandedOver ch S r val t t') : Ordered ch S R t' := by
  have hidle : t.sending S ≠ some ch := by
    rw [hI.idle S h.self]
    exact nofun
  have hway := (hO.settled hidle).1
  obtain ⟨-, hheld'⟩ := h.held hI
  -- a sender and a receiver are not blocked at once
  have hnone : (t.machine.chans ch).sendWaiter = none := by
    rcases (hI.sides ch).one with hnone | hnone
    · exact hnone
    · cases h.waiter.symm.trans hnone
  have hway' : t'.machine.sched.onTheWay ch = [val] := by
    rw [onTheWay_handedOver hI h, hway, List.nil_append]
  obtain ⟨haccounted', hfew', hcounted', hsending'⟩ := hO.calls_send hidle
    (by rw [hway', hheld', List.append_nil]) h.sent h.received h.returned h.sending
  refine ⟨haccounted', hfew', hcounted', hsending', fun p hp => ?_, fun p hp => ?_,
    fun p hp hresult => ?_⟩
  · rw [h.chan] at hp
    cases hnone.symm.trans hp
  · rw [h.chan] at hp
    cases hp
  · rw [h.queue] at hp
    rw [h.chan, h.sending, Function.update_self, h.queue, hO.receiver r h.waiter]
    -- from before nobody holds a value, since `S` was not in a call
    rcases List.mem_append.mp hp with hp | hp
    · have hr := hI.ne_of_mem (p := r) (by simp [h.blocked.2.1]) hp
      have hS := hI.ne_of_mem (p := S) (by simp [h.state]) hp
      rw [h.others p hr hS] at hresult
      exact absurd (hO.handed p hp hresult).2.2.1 hidle
    · refine ⟨?_, hnone, rfl, List.sublist_append_right _ _⟩
      have hcases : p = r ∨ p = S := by simpa using hp
      rcases hcases with rfl | rfl
      · exact hO.receiver p h.waiter
      · rw [h.sender] at hresult
        exact absurd rfl hresult

/-- Without a receiver it blocks. -/
theorem Ordered.sendBlocked (hI : Sound t) (hO : Ordered ch S R t) {val : α}
    (h : SendBlocked ch S val t t') : Ordered ch S R t' := by
  have hidle : t.sending S ≠ some ch := by
    rw [hI.idle S h.self]
    exact nofun
  have hway' : t'.machine.sched.onTheWay ch = [] :=
    (onTheWay_sendBlocked hI h).trans (hO.settled hidle).1
  have hheld' : (t'.machine.chans ch).held = [val] := by rw [h.chan, held_of_some rfl]
  obtain ⟨haccounted', hfew', hcounted', hsending'⟩ := hO.calls_send hidle
    (by rw [hway', hheld', List.nil_append]) h.sent h.received h.returned h.sending
  refine ⟨haccounted', hfew', hcounted', hsending', fun p hp => ?_, fun p hp => ?_,
    fun p hp hresult => ?_⟩
  · rw [h.chan] at hp
    rw [h.sending, Function.update_self]
    exact ⟨(Option.some.inj hp).symm, rfl⟩
  · rw [h.chan] at hp
    exact hO.receiver p hp
  · rw [h.queue] at hp
    have hS := hI.ne_of_mem (p := S) (by simp [h.state]) hp
    rw [h.coros, Function.update_of_ne hS] at hresult
    exact absurd (hO.handed p hp hresult).2.2.1 hidle

/-- The receiver takes the value of the blocked sender. -/
theorem Ordered.took (hI : Sound t) (hO : Ordered ch S R t) {q p : CoroPtr}
    (h : Took ch q p t t') : Ordered ch S R t' := by
  -- with a sender waiting, no value is on the way
  have hfree : ∀ r ∈ t.machine.sched.readyQueue,
      (t.machine.sched.coros r).ctx.result ch = none := by
    intro r hr
    by_contra hresult
    cases h.waiter.symm.trans (hO.handed r hr hresult).2.1
  have hway : t.machine.sched.onTheWay ch = [] := List.filterMap_eq_nil_iff.mpr hfree
  have hway' : t'.machine.sched.onTheWay ch = [] := (onTheWay_took hI h).trans hway
  have hheld' : (t'.machine.chans ch).held = [] := held_of_none (by rw [h.chan])
  refine ⟨?_, ?_, ?_, fun r hr => ?_, fun r hr => ?_, fun r hr => ?_, fun r hr hresult => ?_⟩
  · rw [h.sent, h.received, hway', hheld', hO.accounted, hway, held_of_some h.waiter,
      List.append_nil, List.append_nil, List.append_nil]
  · rw [hway', hheld']
    exact Nat.zero_le _
  · rw [h.returned, h.sent, h.sending]
    exact hO.counted
  · rw [h.sending] at hr
    exact hO.sending r hr
  · rw [h.chan] at hr
    cases hr
  · rw [h.chan] at hr
    exact hO.receiver r hr
  · rw [h.queue] at hr
    -- the woken sender has no `result`
    rcases List.mem_append.mp hr with hr | hr
    · have hne := hI.ne_of_mem (p := p) (by simp [h.blocked.2.1]) hr
      rw [h.coros, Function.update_of_ne hne] at hresult
      exact absurd (hfree r hr) hresult
    · rw [List.mem_singleton.mp hr, h.coros, Function.update_self] at hresult
      simp [h.blocked.2.2, Ctx.result] at hresult

/-- The receiver finds no sender and blocks. -/
theorem Ordered.recvBlocked (hI : Sound t) (hO : Ordered ch S R t) {x : α}
    (h : RecvBlocked ch R x t t') : Ordered ch S R t' := by
  have hheld' : (t'.machine.chans ch).held = (t.machine.chans ch).held := by rw [h.chan]; rfl
  refine ⟨?_, ?_, ?_, fun p hp => ?_, fun p hp => ?_, fun p hp => ?_, fun p hp hresult => ?_⟩
  · rw [h.sent, h.received, onTheWay_recvBlocked hI h, hheld']
    exact hO.accounted
  · rw [onTheWay_recvBlocked hI h, hheld']
    exact hO.few
  · rw [h.returned, h.sent, h.sending]
    exact hO.counted
  · rw [h.sending] at hp
    exact hO.sending p hp
  · rw [h.chan] at hp
    rw [h.sending]
    exact hO.sender p hp
  · rw [h.chan] at hp
    exact (Option.some.inj hp).symm
  · rw [h.queue] at hp
    have hR := hI.ne_of_mem (p := R) (by simp [h.state]) hp
    rw [h.coros, Function.update_of_ne hR] at hresult
    rw [h.chan, h.sending, h.queue]
    exact hO.handed p hp hresult

/-- **Step lemma.** -/
theorem Ordered.step [Inhabited α] (hI : Sound t) (hI' : Sound t') (hO : Ordered ch S R t)
    (hs : ChanStepped ch t a t') (hok : UsedBy ch S R t a t') : Ordered ch S R t' := by
  -- who calls is `S` or `R`, by the condition on the run
  cases hs with
  | aside _ _ _ h => exact hO.aside hI hI' h
  | switched p _ h => exact hO.switched hI h
  | handedOver p r val _ h =>
      obtain rfl : p = S := Option.some.inj (h.self.symm.trans (hok rfl))
      exact hO.handedOver hI h
  | sendBlocked p val _ h =>
      obtain rfl : p = S := Option.some.inj (h.self.symm.trans (hok rfl))
      exact hO.sendBlocked hI h
  | took q p _ h => exact hO.took hI h
  | recvBlocked q _ h =>
      obtain rfl : q = R := Option.some.inj (h.self.symm.trans (hok rfl))
      exact hO.recvBlocked hI h

/-- **Run lemma.** -/
theorem Ordered.run [Inhabited α] {H : StdHeap timerAfter} (hI : Sound t) (hset : Settled ch t)
    (hO : Ordered ch S R t) (hrun : Run (Traced.step H) (UsedBy ch S R) t t') :
    Sound t' ∧ Settled ch t' ∧ Ordered ch S R t' := by
  refine hrun.invariant (P := fun t => Sound t ∧ Settled ch t ∧ Ordered ch S R t)
    ⟨hI, hset, hO⟩ ?_
  intro t a t' ⟨hI, hset, hO⟩ hs hok
  have hI' := hI.step hs
  have hstepped := chan_cases hI hs ch
  exact ⟨hI', hset.step hI hI' hstepped (hok.unqueued hI hset hO), hO.step hI hI' hstepped hok⟩

/-- A `send` that has returned has been matched. -/
theorem Ordered.returned_le (hO : Ordered ch S R t) :
    t.returned ch ≤ (t.received ch).length := by
  have hcounted := hO.counted
  have hlength := congrArg List.length hO.accounted
  have hfew := hO.few
  -- in a call, at most its own value is outstanding; between calls, none is
  by_cases hsending : t.sending S = some ch
  · rw [if_pos hsending] at hcounted
    simp only [List.length_append] at hlength hfew
    omega
  · obtain ⟨hway, hheld⟩ := hO.settled hsending
    rw [if_neg hsending, Nat.add_zero] at hcounted
    rw [hway, hheld, List.append_nil, List.append_nil] at hlength
    omega

/-- **Rendezvous.** Used by one sender and one receiver, whatever else the coroutines
    do, the channel delivers in order; no `send` returns before its value has been
    received; the two are never blocked at once; and `recv_slot_` is set exactly while
    the receiver waits. -/
theorem channel_rendezvous [Inhabited α] (H : StdHeap timerAfter) (pipeReadFd : Fd)
    (pipeCap : ℕ+) (junk : Coroutine τ α)
    (hrun : Run (Traced.step H) (UsedBy ch S R) (init pipeReadFd pipeCap junk) t) :
    t.received ch <+: t.sent ch ∧ t.returned ch ≤ (t.received ch).length ∧
      ¬ ((t.machine.chans ch).sendWaiter ≠ none ∧ (t.machine.chans ch).recvWaiter ≠ none) ∧
      (∀ p q, ¬ (t.machine.sched.BlockedSender p ch ∧ t.machine.sched.BlockedReceiver q ch)) ∧
      ((t.machine.chans ch).recvSlot ≠ none ↔ (t.machine.chans ch).recvWaiter ≠ none) := by
  obtain ⟨hI, hset, hO⟩ := (ordered_init pipeReadFd pipeCap junk).run
    (sound_init pipeReadFd pipeCap junk) (settled_init pipeReadFd pipeCap junk) hrun
  have hone : ¬ ((t.machine.chans ch).sendWaiter ≠ none ∧ (t.machine.chans ch).recvWaiter ≠ none) :=
    fun h => (hI.sides ch).one.elim h.1 h.2
  refine ⟨?_, hO.returned_le, hone, fun p q h => hone ?_, ?_⟩
  · rw [hO.accounted, List.append_assoc]
    exact List.prefix_append _ _
  · constructor
    · rw [hset.sender p h.1]
      exact nofun
    · rw [hset.receiver q h.2]
      exact nofun
  · rw [(hI.sides ch).slot]

end Order

/-- The sender blocks first, then the receiver takes its value. -/
theorem channel_rendezvous_sender_first :
    ∃ t : Traced Nat Nat,
      Run (Traced.step sortedTimers) (UsedBy 0 0 1) (init 3 64 ⟨.entry, 0, .ready, 0⟩) t ∧
      t.sent 0 = [5] ∧ t.returned 0 = 1 ∧ t.returned 0 ≤ (t.received 0).length := by
  obtain ⟨t, hrun, hsent⟩ := exists_run_of_exec (Traced.step sortedTimers) (UsedBy 0 0 1)
    (fun t => decide (t.sent 0 = [5] ∧ t.returned 0 = 1)) (init 3 64 ⟨.entry, 0, .ready, 0⟩)
    [.create 7, .create 8, .run, .readyLoop, .send 0 5, .reap, .readyLoop, .recv 0, .yield, .reap,
      .readyLoop] (by decide)
  obtain ⟨hsent, hreturned⟩ := of_decide_eq_true hsent
  exact ⟨t, hrun, hsent, hreturned, (channel_rendezvous sortedTimers 3 64 _ hrun).2.1⟩

end CoroutineHttp.Core.Traced
