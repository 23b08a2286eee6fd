/-
  CoroutineHttp.Net.Connection

  `class Connection` of `net/connection.h`, one call at a time.

  What the kernel answers on a connection is given beforehand: a `RecvScript` is
  the answers to the successive `recv` calls, a `SendScript` those to `send`.
  `EAGAIN` stands for the whole of `sched_.wait_event(...)` and the retry.  An
  answer that only arises because another coroutine used the same connection
  while this one was suspended is an answer of its own (`closedMeanwhile`).
-/

import Mathlib.Data.List.Flatten
import CoroutineHttp.Library.Search
import CoroutineHttp.Library.Ascii
import CoroutineHttp.Core.Coroutine

namespace CoroutineHttp.Net

open CoroutineHttp.Library CoroutineHttp.Core

/-! ## What the kernel answers -/

/-- Answers to `recv` before the end of the stream. -/
inductive RecvEvent where
  /-- At least one byte is there. -/
  | data (first : UInt8) (rest : Bytes)
  | eagain
deriving DecidableEq, Repr

/-- How the stream ends. -/
inductive RecvEnd where
  | eof
  | error
  /-- `EAGAIN`, and when the coroutine is resumed `closed_` has been set. -/
  | closedMeanwhile
deriving DecidableEq, Repr

/-- The answers to the `recv` calls still to come. -/
structure RecvScript where
  events : List RecvEvent
  ending : RecvEnd
deriving DecidableEq, Repr

/-- The bytes one answer carries. -/
def RecvEvent.bytes : RecvEvent → Bytes
  | .data first rest => first :: rest
  | .eagain => []

/-- The byte stream, whatever its chunks. -/
def RecvScript.bytes (r : RecvScript) : Bytes := r.events.flatMap RecvEvent.bytes

/-- Answers to `send`. -/
inductive SendEvent where
  /-- `extra + 1` bytes are accepted, or all that are offered if these are fewer. -/
  | accept (extra : Nat)
  | eagain
  /-- `EAGAIN`, and when the coroutine is resumed `closed_` has been set. -/
  | closedMeanwhile
  /-- 0, or an error other than `EAGAIN`. -/
  | fail
deriving DecidableEq, Repr

/-- The kernel takes bytes, if perhaps few at a time and after a wait. -/
def SendEvent.succeeds : SendEvent → Bool
  | .accept _ | .eagain => true
  | .closedMeanwhile | .fail => false

/-- The answers to the `send` calls still to come; after them every call accepts
    what it is offered. -/
abbrev SendScript := List SendEvent

/-! ## The class -/

/-- `class Connection`. -/
structure Connection where
  fd : Fd
  closed : Bool
  readBuf : Bytes
deriving DecidableEq, Repr

namespace Connection

/-- The constructor. -/
def init (fd : Fd) : Connection := ⟨fd, false, []⟩

/-- `close()`, and the descriptor it hands to `::close`. -/
def close (c : Connection) : Connection × Option Fd :=
  -- `closed_` after an error keeps the descriptor from ever being closed
  if !c.closed && decide (0 ≤ c.fd) then ({ c with fd := -1, closed := true }, some c.fd)
  else (c, none)

theorem close_of_closed {c : Connection} (hclosed : c.closed = true) : c.close = (c, none) := by
  simp [close, hclosed]

theorem close_of_open {c : Connection} (hopen : c.closed = false) (hfd : 0 ≤ c.fd) :
    c.close = ({ c with fd := -1, closed := true }, some c.fd) := by
  simp [close, hopen, hfd]

/-- What a move leaves of its source (the moved-from string is empty). -/
def movedFrom : Connection := ⟨-1, true, []⟩

/-! ### Reading -/

/-- The `recv` loop of `read`, on an open connection. -/
def recvLoop (c : Connection) (maxBytes : Nat) (ending : RecvEnd) :
    List RecvEvent → Bytes × Connection × RecvScript
  -- 0, an error, or `closed_` found set after the wait
  | [] => ([], { c with closed := true }, ⟨[], ending⟩)
  -- `wait_event`, then the next `recv`
  | .eagain :: events => recvLoop c maxBytes ending events
  | .data first rest :: events =>
      match maxBytes with
      -- a `recv` of no bytes returns 0, as at the end of the stream
      | 0 => ([], { c with closed := true }, ⟨.data first rest :: events, ending⟩)
      | n + 1 =>
          -- what does not fit into the buffer stays with the kernel
          match rest.drop n with
          | [] => (first :: rest, c, ⟨events, ending⟩)
          | b :: bs => (first :: rest.take n, c, ⟨.data b bs :: events, ending⟩)

/-- `read`. -/
def read (c : Connection) (r : RecvScript) (maxBytes : Nat) :
    Bytes × Connection × RecvScript :=
  if c.closed then ([], c, r) else c.recvLoop maxBytes r.ending r.events

/-- What a `read` that asks for at least one byte may do. -/
inductive ReadOutcome (c : Connection) (r : RecvScript) :
    Bytes × Connection × RecvScript → Prop where
  | chunk (b : UInt8) (bs : Bytes) (r' : RecvScript) (hopen : c.closed = false)
      (hbytes : r.bytes = b :: bs ++ r'.bytes) : ReadOutcome c r (b :: bs, c, r')
  | closed (hclosed : c.closed = true) : ReadOutcome c r ([], c, r)
  | ended (r' : RecvScript) (hopen : c.closed = false) (hbytes : r.bytes = []) :
      ReadOutcome c r ([], { c with closed := true }, r')

theorem recvLoop_outcome (c : Connection) (hopen : c.closed = false) {maxBytes : Nat}
    (hmax : 0 < maxBytes) (ending : RecvEnd) (events : List RecvEvent) :
    ReadOutcome c ⟨events, ending⟩ (c.recvLoop maxBytes ending events) := by
  -- on the answers; an `EAGAIN` leaves the stream as it is
  induction events with
  | nil => exact .ended _ hopen rfl
  | cons event events ih =>
      cases event with
      | eagain =>
          have hsame : RecvScript.bytes ⟨.eagain :: events, ending⟩
              = RecvScript.bytes ⟨events, ending⟩ := rfl
          rw [recvLoop]
          generalize c.recvLoop maxBytes ending events = out at ih ⊢
          cases ih with
          | chunk b bs r' _ hbytes => exact .chunk b bs r' hopen (hsame.trans hbytes)
          | closed hclosed => simp [hopen] at hclosed
          | ended r' _ hbytes => exact .ended r' hopen (hsame.trans hbytes)
      | data first rest =>
          -- a buffer of `n + 1` bytes: the first, and at most `n` of the rest
          obtain ⟨n, rfl⟩ := Nat.exists_eq_succ_of_ne_zero hmax.ne'
          simp only [recvLoop]
          split
          next => exact .chunk first rest _ hopen (by simp [RecvScript.bytes, RecvEvent.bytes])
          next b bs hdrop =>
            refine .chunk first (rest.take n) _ hopen ?_
            have hsplit : rest.take n ++ b :: bs = rest := by rw [← hdrop, List.take_append_drop]
            have hbytes : rest ++ events.flatMap RecvEvent.bytes
                = rest.take n ++ (b :: bs ++ events.flatMap RecvEvent.bytes) := by
              rw [← List.append_assoc, hsplit]
            simpa [RecvScript.bytes, RecvEvent.bytes] using hbytes

/-- **Outcome of `read`.** -/
theorem read_outcome (c : Connection) (r : RecvScript) {maxBytes : Nat} (hmax : 0 < maxBytes) :
    ReadOutcome c r (c.read r maxBytes) := by
  unfold read
  split
  next hclosed => exact .closed hclosed
  next hopen => exact recvLoop_outcome c (by simpa using hopen) hmax r.ending r.events

/-- A chunk shortens what is left of the stream. -/
theorem read_decreases {c : Connection} {r : RecvScript} {maxBytes : Nat} {b : UInt8}
    {bs : Bytes} {c' : Connection} {r' : RecvScript} (hmax : 0 < maxBytes)
    (h : c.read r maxBytes = (b :: bs, c', r')) : r'.bytes.length < r.bytes.length := by
  have hout := read_outcome c r hmax
  rw [h] at hout
  cases hout with
  | chunk _ _ _ _ hbytes =>
      rw [hbytes, List.length_append, List.length_cons]
      omega

/-- `read_until`. -/
def readUntil (c : Connection) (r : RecvScript) (delim : Bytes) :
    Bytes × Connection × RecvScript :=
  match find delim c.readBuf with
  | some pos =>
      (c.readBuf.take (pos + delim.length),
        { c with readBuf := c.readBuf.drop (pos + delim.length) }, r)
  | none =>
      match _h : c.read r 4096 with
      -- the rest of the buffer, without the delimiter
      | ([], c', r') => (c'.readBuf, { c' with readBuf := [] }, r')
      | (b :: bs, c', r') =>
          readUntil { c' with readBuf := c'.readBuf ++ b :: bs } r' delim
termination_by r.bytes.length
decreasing_by exact read_decreases (by decide) _h

/-- The loop of `read_exact` that fills the buffer up to `n` bytes. -/
def fill (c : Connection) (r : RecvScript) (n : Nat) : Connection × RecvScript :=
  if c.readBuf.length < n then
    match _h : c.read r 4096 with
    -- `break`
    | ([], c', r') => (c', r')
    | (b :: bs, c', r') => fill { c' with readBuf := c'.readBuf ++ b :: bs } r' n
  else (c, r)
termination_by r.bytes.length
decreasing_by exact read_decreases (by decide) _h

/-- `read_exact`. -/
def readExact (c : Connection) (r : RecvScript) (n : Nat) : Bytes × Connection × RecvScript :=
  let (c', r') := c.fill r n
  if n ≤ c'.readBuf.length then
    (c'.readBuf.take n, { c' with readBuf := c'.readBuf.drop n }, r')
  -- short: the stream has ended
  else (c'.readBuf, { c' with readBuf := [] }, r')

/-! ### Writing -/

/-- What a `write` returns and leaves: its result, whether it set `closed_`, the
    answers still to come and the bytes the kernel accepted. -/
structure Sent where
  ret : Int
  closed : Bool
  script : SendScript
  accepted : Bytes
deriving DecidableEq, Repr

/-- The loop of `write` with `rest` still to send, `sent` bytes already accepted. -/
def sendLoop (rest : Bytes) (sent : Nat) : SendScript → Sent
  | [] => ⟨sent + rest.length, false, [], rest⟩
  | event :: script =>
      -- `sent < total` fails; the answer is not asked for
      if rest = [] then ⟨sent, false, event :: script, []⟩
      else
        match event with
        | .accept extra =>
            let n := min (extra + 1) rest.length
            let s := sendLoop (rest.drop n) (sent + n) script
            { s with accepted := rest.take n ++ s.accepted }
        | .eagain => sendLoop rest sent script
        -- what has been sent so far, possibly 0
        | .closedMeanwhile => ⟨sent, true, script, []⟩
        -- an error after some bytes still returns their number
        | .fail => ⟨if 0 < sent then sent else -1, true, script, []⟩

/-- With `n` bytes to send, some answer before they are all accepted ends the
    connection. -/
def failsBefore (n : Nat) : SendScript → Bool
  | [] => false
  | event :: script =>
      if n = 0 then false
      else
        match event with
        | .accept extra => failsBefore (n - min (extra + 1) n) script
        | .eagain => failsBefore n script
        | .closedMeanwhile | .fail => true

theorem sendLoop_closed (rest : Bytes) (sent : Nat) (script : SendScript) :
    (sendLoop rest sent script).closed = failsBefore rest.length script := by
  induction script generalizing rest sent with
  | nil => rfl
  | cons event script ih =>
      by_cases hrest : rest = []
      · simp [sendLoop, failsBefore, hrest]
      · cases event <;> simp [sendLoop, failsBefore, hrest, ih]

/-- `write`: the result, the connection, the answers still to come and the bytes
    accepted. -/
def write (c : Connection) (script : SendScript) (data : Bytes) :
    Int × Connection × SendScript × Bytes :=
  if c.closed || data.isEmpty then (0, c, script, [])
  else
    let s := sendLoop data 0 script
    (s.ret, { c with closed := s.closed }, s.script, s.accepted)

theorem write_closed (c : Connection) (script : SendScript) (data : Bytes) :
    (c.write script data).2.1.closed = (c.closed || failsBefore data.length script) := by
  unfold write
  split
  next h =>
    rcases Bool.or_eq_true_iff.mp h with hclosed | hempty
    · simp [hclosed]
    · rw [List.isEmpty_iff.mp hempty]
      cases script <;> simp [failsBefore]
  next h =>
    have hopen : c.closed = false := by
      cases hc : c.closed
      · rfl
      · simp [hc] at h
    simp [sendLoop_closed, hopen]

theorem write_fd (c : Connection) (script : SendScript) (data : Bytes) :
    (c.write script data).2.1.fd = c.fd := by
  unfold write
  split <;> rfl

/-- When no `send` fails, everything is sent. -/
theorem sendLoop_succeeds (rest : Bytes) (sent : Nat) (script : SendScript)
    (h : ∀ e ∈ script, e.succeeds = true) :
    (sendLoop rest sent script).accepted = rest ∧ (sendLoop rest sent script).closed = false ∧
      ∀ e ∈ (sendLoop rest sent script).script, e.succeeds = true := by
  -- on the answers, for every rest still to send
  induction script generalizing rest sent with
  | nil => exact ⟨rfl, rfl, by simp [sendLoop]⟩
  | cons event script ih =>
      have htail : ∀ e ∈ script, e.succeeds = true := fun e he => h e (List.mem_cons_of_mem _ he)
      by_cases hrest : rest = []
      · simp only [sendLoop, hrest, if_true]
        exact ⟨trivial, trivial, h⟩
      · cases event with
        | accept extra =>
            obtain ⟨haccepted, hclosed, hscript⟩ :=
              ih (rest.drop (min (extra + 1) rest.length))
                (sent + min (extra + 1) rest.length) htail
            simp only [sendLoop, if_neg hrest]
            exact ⟨by rw [haccepted, List.take_append_drop], hclosed, hscript⟩
        | eagain =>
            simp only [sendLoop, if_neg hrest]
            exact ih rest sent htail
        | closedMeanwhile => exact absurd (h _ List.mem_cons_self) (by simp [SendEvent.succeeds])
        | fail => exact absurd (h _ List.mem_cons_self) (by simp [SendEvent.succeeds])

/-- A `write` that does not fail. -/
theorem write_succeeds {c : Connection} (hopen : c.closed = false) (script : SendScript)
    (data : Bytes) (h : ∀ e ∈ script, e.succeeds = true) :
    (c.write script data).2.1 = c ∧
      (∀ e ∈ (c.write script data).2.2.1, e.succeeds = true) ∧
      (c.write script data).2.2.2 = data := by
  unfold write
  by_cases hempty : data = []
  · simp only [hempty, List.isEmpty_nil, Bool.or_true, if_true]
    exact ⟨trivial, h, trivial⟩
  · obtain ⟨haccepted, hclosed, hscript⟩ := sendLoop_succeeds data 0 script h
    have hgo : ¬ (c.closed || data.isEmpty) = true := by simp [hopen, hempty]
    simp only [if_neg hgo, hclosed]
    exact ⟨by rw [← hopen], hscript, haccepted⟩

/-- A `read` that asks for nothing takes the answer for the end of the stream. -/
theorem recvLoop_zero (c : Connection) (ending : RecvEnd) (events : List RecvEvent) :
    (c.recvLoop 0 ending events).2.1 = { c with closed := true } := by
  induction events with
  | nil => rfl
  | cons event events ih => cases event <;> simp [recvLoop, ih]

theorem read_closed (c : Connection) (r : RecvScript) (maxBytes : Nat) :
    (c.read r maxBytes).2.1.closed
        = (c.closed || decide (maxBytes = 0 ∨ r.bytes = [])) ∧
      (c.read r maxBytes).2.1.fd = c.fd := by
  rcases Nat.eq_zero_or_pos maxBytes with rfl | hmax
  · unfold read
    split
    next hclosed => simp [hclosed]
    next => simp [recvLoop_zero]
  · have hout := read_outcome c r hmax
    generalize c.read r maxBytes = out at hout ⊢
    cases hout with
    | chunk b bs r' hopen hbytes => simp [hopen, hbytes, hmax.ne']
    | closed hclosed => simp [hclosed]
    | ended r' hopen hbytes => simp [hopen, hbytes]

end Connection

end CoroutineHttp.Net
