/-
  CoroutineHttp.Ws.Broadcasts

  `ChatRoom::broadcast` as a service to the clients of one scheduler: a client that joins
  receives what is said from there on, all clients in one order and nothing twice.

  The steps of a session are brought under the rules of `CoroutineHttp.Ws.Ledger`, one by
  one; a run is looked at together with the sequence of its joins, leaves and broadcasts.
-/

import CoroutineHttp.Ws.Ledger

namespace CoroutineHttp.Ws

open CoroutineHttp.Library CoroutineHttp.Core CoroutineHttp.Net

namespace Chat

/-! ## Steps -/

section Steps

variable {c c' : Chat} {log : List (GroupEvent CoroPtr Bytes)} {self : CoroPtr} {s : Session}
  {a : ChatAct} {b : Option (Act Task Unit)} {pc pc' : SessionPc}

/-- A change of `self` leaves what is sent, and opens no connection again. -/
theorem stream_back {f : Session → Session} (hs : c.sessions self = some s)
    (hstream : c'.stream = (c.modify self f).stream) (haccepted : (f s).accepted = s.accepted)
    (hclosed : (f s).conn.closed = false → s.conn.closed = false) :
    ∀ p b closed, c'.stream p = some (b, closed) →
      ∃ closed', c.stream p = some (b, closed') ∧ (closed = false → closed' = false) := by
  intro p b closed h
  have hmap : (c.modify self f).stream =
      Function.update c.stream self (some ((f s).accepted, (f s).conn.closed)) :=
    modify_map _ f hs
  rw [hstream, hmap] at h
  by_cases hp : p = self
  · rw [hp, Function.update_self] at h
    cases h
    refine ⟨s.conn.closed, ?_, hclosed⟩
    rw [hp, stream, hs, haccepted]
    rfl
  · rw [Function.update_of_ne hp] at h
    exact ⟨closed, h, id⟩

/-- `self` goes on outside `broadcast`, without an event. -/
theorem Ledger.modify {f : Session → Session} (hI : Ledger c log)
    (hs : c.sessions self = some s) (hpc : c'.pcAt = (c.modify self f).pcAt)
    (hstream : c'.stream = (c.modify self f).stream) (hc' : c'.room = c.room)
    (haccepted : (f s).accepted = s.accepted)
    (hclosed : (f s).conn.closed = false → s.conn.closed = false)
    (hat : s.pc = pc) (hat' : (f s).pc = pc') (hplain : pc.plain = true) (hfit : pc'.Fit)
    (hlocks : pc'.locks = false) (hmid : SamePlaces c c') : Ledger c' log := by
  have hself : c.pcAt self = some pc := hat ▸ pcAt_eq hs
  have hpc' : c'.pcAt = Function.update c.pcAt self (some pc') := by
    rw [hpc, ← hat']
    exact modify_map Session.pc f hs
  refine hI.keep hself hpc' (SessionPc.Fit.of_plain hplain).joined hfit
    (congrArg ChatRoom.members hc') hmid (stream_back hs hstream haccepted hclosed) fun p _ _ => ?_
  apply pending_update hself hpc' (congrArg ChatRoom.owner hc')
  rw [SessionPc.owes_of_not_locks hlocks,
    SessionPc.owes_of_not_locks (SessionPc.locks_of_plain hplain)]

/-- `self` goes on within `broadcast`. -/
theorem Ledger.goto (hI : Ledger c log) (hs : c.sessions self = some s) (hat : s.pc = pc)
    (hjoin : pc ≠ .join) (hfit : pc'.Fit) (hmid : SamePlaces c (c.goto self pc'))
    (howes : ∀ p b, c.stream p = some (b, false) → pc'.owes p = pc.owes p) :
    Ledger (c.goto self pc') log := by
  have hself : c.pcAt self = some pc := hat ▸ pcAt_eq hs
  refine hI.keep hself (pcAt_goto hself pc') hjoin hfit rfl hmid
    (fun p b closed h => ?_) fun p b h => ?_
  · rw [stream_goto] at h
    exact ⟨closed, h, id⟩
  · rw [stream_goto] at h
    exact pending_update hself (pcAt_goto hself pc') rfl (howes p b h)

/-- What the invariant knows of a point past the join. -/
theorem Ledger.fit (hI : Ledger c log) (hat : c.pcAt self = some pc) (hjoin : pc ≠ .join) :
    pc.Fit :=
  ⟨hjoin, hI.targets self pc hat, hI.said self pc hat⟩

/-- **The steps of a session** but the accepting of bytes. -/
theorem Ledger.session (hI : Ledger c log) (hroom : RoomOk c.view c.room)
    (hs : c.sessions self = some s) (hrun : c.machine.sched.runningCoro = some self)
    (h : SessionStep c self s a c' b) (hnot : ∀ extra, a ≠ .send (.accept extra))
    (hmid : SamePlaces c c') :
    Ledger c' (log ++ c.event a) := by
  have hat : ∀ pc, s.pc = pc → c.pcAt self = some pc := by
    rintro _ rfl
    exact pcAt_eq hs
  -- a connection that is open is not the one that is closed
  have hopen : ∀ p b q t, c.stream p = some (b, false) → c.sessions q = some t →
      t.conn.closed = true → q ≠ p := by
    rintro p b _ t hp ht hclosed rfl
    rw [stream_eq ht] at hp
    have hboth := (Prod.mk.inj (Option.some.inj hp)).2
    rw [hclosed] at hboth
    cases hboth
  have hnone : log ++ [] = log := List.append_nil log
  cases h with
  | join hpc hfree =>
      rw [event_locked hrun (hat _ hpc)]
      exact hI.join hroom (hat _ hpc) hfree s.nick rfl hmid
  | leave hpc hfree =>
      rw [event_locked hrun (hat _ hpc)]
      exact hI.leave (hat _ hpc) hfree rfl hmid
  | lock phase msg hpc hfree =>
      rw [event_locked hrun (hat _ hpc)]
      exact hI.lock hroom (hat _ hpc) hfree rfl hmid
  | log phase hpc hfree | online phase hpc hfree =>
      rw [event_locked hrun (hat _ hpc), show SessionPc.event self _ = [] from rfl, hnone]
      exact hI.modify hs rfl rfl rfl rfl id hpc rfl rfl (.of_plain rfl) rfl hmid
  | users phase online hpc hfree =>
      rw [event_locked hrun (hat _ hpc), show SessionPc.event self _ = [] from rfl, hnone]
      refine hI.modify hs rfl rfl rfl rfl id hpc rfl rfl ⟨by simp, List.nodup_nil, ?_⟩ rfl hmid
      intro hmsg
      have hnil := Option.some.inj hmsg
      split at hnil
      · exact systemMessage_ne_nil _ _ _ _ hnil
      · exact systemMessage_ne_nil _ _ _ _ hnil
  | unlock phase msg hpc =>
      rw [show c.event .next = [] from rfl, hnone]
      obtain ⟨fd, hview⟩ := view_of_pcAt (hat _ hpc)
      have howner := hroom.lock self fd _ hview rfl
      have hpc' := pcAt_goto (hat _ hpc : (c.setRoom _).pcAt self = _) phase.next
      refine hI.keep (hat _ hpc) hpc' (by simp) ?_ rfl hmid (fun p b closed h => ?_) fun p b h => ?_
      · cases phase with
        | joined | left | chatting => exact .of_plain rfl
      · rw [stream_goto] at h
        exact ⟨closed, h, id⟩
      · rw [pending_of_free rfl, pending_of_owner howner (hat _ hpc)]
        rfl
  | skip phase msg q todo t hpc ht hclosed =>
      rw [show c.event .next = [] from rfl, hnone]
      have hfit := hI.fit (hat _ hpc) (by simp)
      refine hI.goto hs hpc hfit.joined ⟨by simp, (List.nodup_cons.mp hfit.targets).2, hfit.said⟩
        hmid fun p b hp => ?_
      simp [SessionPc.owes, (hopen p b q t hp ht hclosed).symm]
  | write phase msg q todo t hpc ht hopen =>
      rw [show c.event .next = [] from rfl, hnone]
      have hfit := hI.fit (hat _ hpc) (by simp)
      refine hI.goto hs hpc hfit.joined ⟨by simp, hfit.targets, hfit.said⟩ hmid fun p b hp => ?_
      have hframe : WebSocket.encodeFrame WsOpcode.TEXT msg ≠ [] := textFrame_ne_nil msg
      simp [SessionPc.owes, hframe, eq_comm, or_comm]
  | written client rest back t hpc ht hdone =>
      rw [show c.event .next = [] from rfl, hnone]
      have hfit := hI.fit (hat _ hpc) (by simp)
      refine hI.goto hs hpc hfit.joined (back.fit hfit) hmid fun p b hp => ?_
      exact back.owes (hdone.imp_left (hopen p b client t hp ht))
  | loop hpc =>
      rw [show c.event .next = [] from rfl, hnone]
      refine hI.modify hs rfl rfl rfl rfl id hpc rfl rfl ?_ ?_ hmid
      · cases s.conn.closed with
        | true | false => exact .of_plain rfl
      · cases s.conn.closed with
        | true | false => rfl
  | frame frame hpc =>
      rw [show c.event .next = [] from rfl, hnone]
      exact hI.modify hs rfl rfl rfl rfl id hpc rfl rfl (afterFrame_fit self s.nick frame)
        (afterFrame_free self s.nick frame (.done frame)).locks hmid
  | buffered n next hpc hle | short n next hpc hlt hclosed =>
      rw [show c.event .next = [] from rfl, hnone]
      exact hI.modify hs rfl rfl rfl rfl id hpc rfl rfl (.of_plain rfl) rfl hmid
  | data n next first rest hpc hlt hopen hlen =>
      rw [show c.event (.recv _) = [] from rfl, hnone]
      exact hI.modify hs rfl rfl rfl rfl id hpc hpc rfl (.of_plain rfl) rfl hmid
  | recvEnd n next hpc hlt hopen =>
      rw [show c.event (.recv _) = [] from rfl, hnone]
      rw [recvShort_ended] at hmid ⊢
      exact hI.modify hs rfl rfl rfl rfl (fun hcl => Bool.noConfusion hcl) hpc rfl rfl
        (.of_plain rfl) rfl hmid
  | recvWait n next hpc hlt hopen | sendWait client rest back t hpc ht hopen hrest
  | httpWait reading hpc hopen | finish hpc =>
      rw [show c.event _ = [] from rfl, hnone]
      exact hI
  | accepted client rest back t extra hpc ht hopen hrest => exact absurd rfl (hnot extra)
  | sendFail client rest back t hpc ht hopen hrest =>
      rw [show c.event (.send _) = [] from rfl, hnone]
      have hfit := hI.fit (hat _ hpc) (by simp)
      have hself : (c.ended client).pcAt self = some (.write client rest back) := by
        rw [pcAt_ended]
        exact hat _ hpc
      have hpc' : ((c.ended client).goto self back.pc).pcAt =
          Function.update c.pcAt self (some back.pc) := by
        rw [pcAt_goto hself, pcAt_ended]
      have hstream : ((c.ended client).goto self back.pc).stream =
          Function.update c.stream client (some (t.accepted, true)) := by
        rw [stream_goto, stream_ended ht]
      refine hI.keep (hat _ hpc) hpc' hfit.joined (back.fit hfit) rfl hmid
        (fun p b closed h => ?_) fun p b h => ?_
      · rw [hstream] at h
        by_cases hp : p = client
        · rw [hp, Function.update_self] at h
          cases h
          refine ⟨t.conn.closed, ?_, fun hcl => Bool.noConfusion hcl⟩
          rw [hp, stream, ht]
          rfl
        · rw [Function.update_of_ne hp] at h
          exact ⟨closed, h, id⟩
      · apply pending_update (hat _ hpc) hpc' rfl
        apply back.owes
        -- what `client` has not got it will not get
        refine .inl ?_
        rintro rfl
        rw [hstream, Function.update_self] at h
        cases h
  | http buf ended hpc =>
      rw [show c.event (.http _ _) = [] from rfl, hnone]
      refine hI.modify hs rfl rfl rfl rfl (fun hcl => ?_) hpc hpc rfl (.of_plain rfl) rfl hmid
      exact (Bool.or_eq_false_iff.mp hcl).1
  | upgrade nick hpc =>
      rw [show c.event (.upgrade nick) = [] from rfl, hnone]
      exact hI.begin hroom (.inr ⟨hat _ hpc, rfl⟩) (modify_map Session.pc _ hs) (modify_map _ _ hs)
        rfl hmid
  | destroy fd hpc hfd | destroyClosed hpc hfd =>
      rw [show c.event .destroy = [] from rfl, hnone]
      refine hI.modify hs rfl rfl rfl rfl (fun hcl => ?_) hpc rfl rfl (.of_plain rfl) rfl hmid
      unfold Connection.close at hcl
      split at hcl
      · cases hcl
      · exact hcl

/-- Where no bytes are accepted, nobody comes on within a frame. -/
theorem Traffic.samePlaces (h : Traffic c self a c') (hnot : ∀ extra, a ≠ .send (.accept extra)) :
    SamePlaces c c' := by
  intro p b hopen q rest back
  cases h with
  | still hpc hstream hevs => exact mid_congr hpc q rest back
  | quiet hquiet => exact hquiet.mid_iff hopen q rest back
  | accept client rest back b n extra hpc ht hrest hn hpc' hstream' ha =>
      exact absurd ha (hnot extra)

/-- The accepting of bytes. -/
theorem Ledger.accepted (hI : Ledger c log) (hroom : RoomOk c.view c.room) (hwriters : Writers c)
    (hs : c.sessions self = some s) {extra : Nat}
    (h : SessionStep c self s (.send (.accept extra)) c' b) (hok : c.sendsAlone self = true) :
    Ledger c' log := by
  cases h with
  | accepted client rest back t _ hpc ht hopen hrest =>
      obtain ⟨hself, hclient, hpc', hstream'⟩ :=
        took_goto hs hpc ht hopen (min (extra + 1) rest.length)
      have hpos := List.length_pos_of_ne_nil hrest
      have hn : 0 < min (extra + 1) rest.length := by omega
      exact hI.accept hroom hself hclient hrest hn (hwriters.alone hroom hok hself) hpc' hstream'
        rfl

/-- The steps of a coroutine. -/
theorem Ledger.coroutine (hI : Ledger c log) (hroom : RoomOk c.view c.room) (hwriters : Writers c)
    (hrun : c.machine.sched.runningCoro = some self) (h : c.coroutineAct self a = some (c', b))
    (hok : ∀ extra, a = .send (.accept extra) → c.sendsAlone self = true) :
    Ledger c' (log ++ c.event a) := by
  have htraffic := coroutineAct_traffic hroom hrun h
  cases coroutineStep_of_act h with
  | start fd hnone htask =>
      have hpc : c.pcAt self = none := by
        rw [pcAt, hnone]
        rfl
      have hpc' : (c.started self fd).pcAt = Function.update c.pcAt self (some .http) := by
        funext q
        by_cases hq : q = self <;> simp [pcAt, started, hq]
      have hstream' : (c.started self fd).stream =
          Function.update c.stream self (some ([], false)) := by
        funext q
        by_cases hq : q = self <;> simp [stream, started, hq, Connection.init]
      rw [show c.event .start = [] from rfl, List.append_nil]
      exact hI.begin hroom (.inl ⟨hpc, rfl⟩) hpc' hstream' rfl
        (htraffic.samePlaces fun _ => by simp)
  | acceptWait fd hnone htask =>
      rw [show c.event .acceptWait = [] from rfl, List.append_nil]
      exact hI
  | accept listenFd fd hnone htask hctx hfd hfresh =>
      rw [show c.event (.accept fd) = [] from rfl, List.append_nil]
      exact hI.congr rfl rfl
  | session s hs h =>
      by_cases haccept : ∃ extra, a = .send (.accept extra)
      · obtain ⟨extra, rfl⟩ := haccept
        rw [show c.event (.send _) = [] from rfl, List.append_nil]
        exact hI.accepted hroom hwriters hs h (hok extra rfl)
      · have hnot : ∀ extra, a ≠ .send (.accept extra) := fun extra ha => haccept ⟨extra, ha⟩
        exact hI.session hroom hs hrun h hnot (htraffic.samePlaces hnot)

end Steps

/-! ## Runs -/

section Runs

variable {H : StdHeap timerAfter} {c c' : Chat} {log : List (GroupEvent CoroPtr Bytes)}
  {a : ChatAct} {s : Session}

/-- **Step lemma.** -/
theorem Ledger.step (hI : Ledger c log) (hsteady : Steady c) (hwriters : Writers c)
    (hs : c.step H a = some c') (hok : c.RepliesAlone a c') : Ledger c' (log ++ c.event a) := by
  -- the scheduler's part in a step does not touch the sessions, nor the room
  have hact : ∃ c₁ b, c.act a = some (c₁, b) ∧ c'.sessions = c₁.sessions ∧ c'.room = c₁.room := by
    rcases step_cases hs with hact | ⟨c₁, b, m', hact, -, rfl⟩
    · exact ⟨c', none, hact, rfl, rfl⟩
    · exact ⟨c₁, some b, hact, rfl, rfl⟩
  obtain ⟨c₁, b, hact, hsessions, hroom⟩ := hact
  refine Ledger.congr ?_ hsessions hroom
  cases actStep_of_act hact with
  | sys a hrun =>
      rw [show c.event (.sys a) = [] from rfl, List.append_nil]
      exact hI
  | listen fd hpc hfd hfresh =>
      rw [show c.event (.listen fd) = [] from rfl, List.append_nil]
      exact hI.congr rfl rfl
  | post t fd hfd hfresh =>
      rw [show c.event (.post t fd) = [] from rfl, List.append_nil]
      exact hI.congr rfl rfl
  | coroutine self hpc hself h =>
      refine hI.coroutine hsteady.room hwriters hself h ?_
      rintro extra rfl
      have hall : c.machine.sched.runningCoro.all c.sendsAlone = true := hok
      rw [hself] at hall
      exact hall

theorem ledger_init (pipeReadFd : Fd) (pipeCap : ℕ+) : Ledger (init pipeReadFd pipeCap) [] :=
  ⟨rfl, List.nodup_nil, nofun, nofun, fun _ _ => rfl, nofun, nofun, nofun⟩

/-- **Run lemma.** -/
theorem Ledger.run {r : Chat × List (GroupEvent CoroPtr Bytes)} {pipeReadFd : Fd} {pipeCap : ℕ+}
    (hrun : Run (logged (Chat.step H) event) (unlogged RepliesAlone)
      (init pipeReadFd pipeCap, []) r) : Steady r.1 ∧ Ledger r.1 r.2 := by
  have hall : Steady r.1 ∧ Writers r.1 ∧ Ledger r.1 r.2 := by
    refine hrun.invariant (P := fun r => Steady r.1 ∧ Writers r.1 ∧ Ledger r.1 r.2)
      ⟨steady_init pipeReadFd pipeCap, writers_init pipeReadFd pipeCap,
        ledger_init pipeReadFd pipeCap⟩ ?_
    rintro r a r' ⟨hsteady, hwriters, hledger⟩ hs hok
    obtain ⟨hstep, hlog⟩ := logged_eq_some_iff.mp hs
    refine ⟨hsteady.step hstep, hwriters.step hsteady hstep, ?_⟩
    rw [hlog]
    exact hledger.step hsteady hwriters hstep hok
  exact ⟨hall.1, hall.2.2⟩

/-- The frame that is being sent is due, unless it is a reply. -/
theorem Ledger.due_next (hI : Ledger c log) (hroom : RoomOk c.view c.room) {p : CoroPtr}
    {msgs : List Bytes} {next : Option Bytes} {b : Bytes} (h : c.Sends p msgs next b)
    (hall : texts msgs ++ c.pending p = GroupEvent.due p log) :
    texts (msgs ++ next.toList) <+: GroupEvent.due p log := by
  rw [texts_append, ← hall]
  apply (List.prefix_append_right_inj _).mpr
  cases h with
  | between hnone => exact List.nil_prefix
  | within q rest back part hmid honly hpart => exact hI.owed hroom hmid.writes hmid.more

theorem Ledger.received (hI : Ledger c log) (hroom : RoomOk c.view c.room) {p : CoroPtr}
    (hs : c.sessions p = some s) (hjoin : s.pc ≠ .join) :
    ∃ msgs next, Frames msgs next s.accepted ∧
      texts (msgs ++ next.toList) <+: GroupEvent.due p log ∧
      (s.conn.closed = false → (∀ msg, next = some msg → ∃ q rest back,
          c.pcAt q = some (.write p rest back) ∧ back.msg = msg ∧
          s.accepted ++ rest = (msgs ++ [msg]).flatMap textFrame) ∧
        (GroupEvent.due p log).length ≤ (texts msgs).length + 1 ∧
        (c.room.owner = none → texts msgs = GroupEvent.due p log)) := by
  have hat : c.pcAt p ≠ some .join := by
    rw [pcAt_eq hs]
    exact fun h => hjoin (Option.some.inj h)
  have hstream := stream_eq hs
  cases hclosed : s.conn.closed with
  | true =>
      obtain ⟨msgs, next, hframes, hpre⟩ := hI.begins p _ _ hat hstream
      exact ⟨msgs, next, hframes, hpre, fun hcl => Bool.noConfusion hcl⟩
  | false =>
      rw [hclosed] at hstream
      obtain ⟨msgs, next, hsends, hall⟩ := hI.sends p _ hat hstream
      refine ⟨msgs, next, hsends.frames, hI.due_next hroom hsends hall, fun _ => ⟨?_, ?_, ?_⟩⟩
      · intro msg hmsg
        rw [hmsg] at hsends
        exact hsends.writer
      · have hlen := c.pending_length p
        rw [← hall, List.length_append]
        omega
      · intro hfree
        rw [← hall, pending_of_free hfree, List.append_nil]

end Runs

/-- **Broadcasts.** In every run of chat sessions on one scheduler in which replies and
    broadcasts do not meet in the middle of a frame, the members are those that have
    joined and not left, and what a client has received are, the replies apart, the first
    of the messages said since it joined, the frame of the last perhaps in part: of one
    sequence for all clients, all of them but at most the last if its connection is open,
    and all of them if nobody broadcasts. -/
theorem broadcasts_in_order (H : StdHeap timerAfter) (pipeReadFd : Fd) (pipeCap : ℕ+) {c : Chat}
    {log : List (GroupEvent CoroPtr Bytes)}
    (hrun : Run (logged (Chat.step H) event) (unlogged RepliesAlone)
      (init pipeReadFd pipeCap, []) (c, log)) :
    c.room.members = GroupEvent.members log ∧
    ∀ p s, c.sessions p = some s → s.pc ≠ .join →
      GroupEvent.due p log <:+: GroupEvent.said log ∧
      ∃ msgs next, Frames msgs next s.accepted ∧
        texts (msgs ++ next.toList) <+: GroupEvent.due p log ∧
        (s.conn.closed = false → (∀ msg, next = some msg → ∃ q rest back,
            c.pcAt q = some (.write p rest back) ∧ back.msg = msg ∧
            s.accepted ++ rest = (msgs ++ [msg]).flatMap textFrame) ∧
          (GroupEvent.due p log).length ≤ (texts msgs).length + 1 ∧
          (c.room.owner = none → texts msgs = GroupEvent.due p log)) := by
  obtain ⟨hsteady, hI⟩ : Steady c ∧ Ledger c log := Ledger.run hrun
  refine ⟨hI.members, fun p s hs hjoin => ?_⟩
  exact ⟨GroupEvent.due_infix p log, hI.received hsteady.room hs hjoin⟩

/-- The announcement of the second member. -/
def secondMessage : Bytes := joinMessage (bytes "b") 2 (bytes "[\"a\",\"b\"]")

/-- Two sessions join one after the other: the first one is told of both, the second one
    of itself. -/
theorem broadcasts_in_order_two :
    ∃ c log first second,
      Run (logged (Chat.step sortedTimers) event) (unlogged RepliesAlone) (init 3 64, []) (c, log) ∧
      log = [.join 0, .say first, .join 1, .say second] ∧ c.room.members = [0, 1] ∧
      (∃ s msgs next, c.sessions 0 = some s ∧ Frames msgs next s.accepted ∧
        texts msgs = [first, second]) ∧
      (∃ s msgs next, c.sessions 1 = some s ∧ Frames msgs next s.accepted ∧
        texts msgs = [second]) := by
  obtain ⟨⟨c, log⟩, hrun, hend⟩ := exists_run_of_exec (logged (Chat.step sortedTimers) event)
    (unlogged RepliesAlone)
    (fun r => decide (r.2 = [.join 0, .say firstMessage, .join 1, .say secondMessage] ∧
      r.1.room.owner = none ∧ ([0, 1].map fun p =>
        (r.1.sessions p).map fun s => (s.conn.closed, s.pc.inRoom)) =
          [some (false, true), some (false, true)]))
    (init 3 64, [])
    (firstWaits ++ joins (bytes "b") ++ [.send (.accept 200), .next, .next, .send (.accept 200),
      .next, .next]) (by decide +kernel)
  obtain ⟨rfl, hfree, hopen⟩ := of_decide_eq_true hend
  obtain ⟨hmembers, hall⟩ := broadcasts_in_order sortedTimers 3 64 hrun
  obtain ⟨hfirst, hrest⟩ := List.cons.inj hopen
  have hsecond := (List.cons.inj hrest).1
  have hreceived : ∀ p, (c.sessions p).map (fun s => (s.conn.closed, s.pc.inRoom)) =
      some (false, true) → ∃ s msgs next, c.sessions p = some s ∧ Frames msgs next s.accepted ∧
      texts msgs = GroupEvent.due p
        [.join 0, .say firstMessage, .join 1, .say secondMessage] := by
    intro p hp
    obtain ⟨s, hs, hboth⟩ := Option.map_eq_some_iff.mp hp
    obtain ⟨hclosed, hin⟩ := Prod.mk.inj hboth
    have hjoin : s.pc ≠ .join := by
      intro hpc
      rw [hpc] at hin
      cases hin
    obtain ⟨-, msgs, next, hframes, -, hdue⟩ := hall p s hs hjoin
    exact ⟨s, msgs, next, hs, hframes, (hdue hclosed).2.2 hfree⟩
  exact ⟨c, _, firstMessage, secondMessage, hrun, rfl, hmembers, hreceived 0 hfirst,
    hreceived 1 hsecond⟩

end Chat

end CoroutineHttp.Ws
