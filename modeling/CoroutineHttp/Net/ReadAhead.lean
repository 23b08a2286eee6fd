/-
  CoroutineHttp.Net.ReadAhead

  How far a connection reads ahead of its caller.

  The buffer is filled while a call is short of bytes, and 4096 at a time.  So what a
  call leaves in it comes from the last chunk, whose first byte it needed, or was there
  before: less than 4096 bytes, whatever has been called.  What the caller has not asked
  for stays with the kernel.
-/

import CoroutineHttp.Net.ReadOrder

namespace CoroutineHttp.Net

open CoroutineHttp.Library CoroutineHttp.Core

theorem length_nextChunk (maxBytes : Nat) (events : List RecvEvent) :
    (nextChunk maxBytes events).length ≤ maxBytes := by
  induction events with
  | nil => exact Nat.zero_le _
  | cons event events ih =>
      cases event with
      | eagain => exact ih
      | data first rest => exact List.length_take_le _ _

namespace Connection

/-! ## One call -/

/-- What a call does with bytes: those it receives make up for its result and for what it
    leaves in the buffer, and it leaves less than a chunk there, or no more than there was. -/
def Receives (c : Connection) (r : RecvScript) (out : Bytes × Connection × RecvScript) : Prop :=
  ∃ received, r.bytes = received ++ out.2.2.bytes ∧
    c.readBuf.length + received.length = out.1.length + out.2.1.readBuf.length ∧
    out.2.1.readBuf.length ≤ max c.readBuf.length 4095

section OneCall

variable {c c' : Connection} {r r' : RecvScript} {delim bs : Bytes} {b : UInt8}

/-- The loop of `read` hands out what it receives, and leaves the buffer alone. -/
theorem recvLoop_received (c : Connection) (maxBytes : Nat) (ending : RecvEnd)
    (events : List RecvEvent) :
    RecvScript.bytes ⟨events, ending⟩
        = (c.recvLoop maxBytes ending events).1
          ++ (c.recvLoop maxBytes ending events).2.2.bytes ∧
      (c.recvLoop maxBytes ending events).2.1.readBuf = c.readBuf := by
  induction events with
  | nil => exact ⟨rfl, rfl⟩
  | cons event events ih =>
      cases event with
      | eagain => exact ih
      | data first rest =>
          cases maxBytes with
          | zero => exact ⟨rfl, rfl⟩
          | succ n =>
              -- the chunk, and what did not fit into it
              simp only [recvLoop]
              split
              next => exact ⟨rfl, rfl⟩
              next b bs hdrop =>
                refine ⟨?_, rfl⟩
                have hsplit : rest.take n ++ b :: bs = rest := by
                  rw [← hdrop, List.take_append_drop]
                have hbytes : rest ++ events.flatMap RecvEvent.bytes
                    = rest.take n ++ (b :: bs ++ events.flatMap RecvEvent.bytes) := by
                  rw [← List.append_assoc, hsplit]
                simpa [RecvScript.bytes, RecvEvent.bytes] using hbytes

theorem read_received (c : Connection) (r : RecvScript) (maxBytes : Nat) :
    r.bytes = (c.read r maxBytes).1 ++ (c.read r maxBytes).2.2.bytes ∧
      (c.read r maxBytes).2.1.readBuf = c.readBuf ∧
      (c.read r maxBytes).1.length ≤ maxBytes := by
  unfold read
  split
  · exact ⟨rfl, rfl, Nat.zero_le _⟩
  · obtain ⟨hbytes, hbuf⟩ := c.recvLoop_received maxBytes r.ending r.events
    refine ⟨hbytes, hbuf, ?_⟩
    rw [recvLoop_next]
    exact length_nextChunk maxBytes r.events

theorem receives_read (c : Connection) (r : RecvScript) (maxBytes : Nat) :
    c.Receives r (c.read r maxBytes) := by
  obtain ⟨hbytes, hbuf, -⟩ := c.read_received r maxBytes
  exact ⟨_, hbytes, by rw [hbuf, Nat.add_comm], by rw [hbuf]; exact le_max_left _ _⟩

/-- A chunk on the way into the buffer. -/
theorem chunk_received (hread : c.read r 4096 = (b :: bs, c', r')) :
    c' = c ∧ r.bytes = (b :: bs) ++ r'.bytes ∧ (b :: bs).length ≤ 4096 := by
  obtain ⟨hbytes, -, hlen⟩ := c.read_received r 4096
  have hsame := (pending_of_read_cons (by decide) hread).1
  rw [hread] at hbytes hlen
  exact ⟨hsame, hbytes, hlen⟩

theorem rest_received (hread : c.read r 4096 = ([], c', r')) :
    r.bytes = r'.bytes ∧ c'.readBuf = c.readBuf := by
  obtain ⟨hbytes, hbuf, -⟩ := c.read_received r 4096
  rw [hread] at hbytes hbuf
  exact ⟨hbytes, hbuf⟩

/-- A delimiter that was not in the buffer ends within the chunk behind it. -/
theorem left_of_find {buf chunk : Bytes} {pos : Nat} (hnone : find delim buf = none)
    (hfind : find delim (buf ++ chunk) = some pos) :
    ((buf ++ chunk).drop (pos + delim.length)).length < chunk.length := by
  by_contra hge
  rw [List.length_drop, List.length_append] at hge
  have hle := find_le hfind
  rw [List.length_append] at hle
  have hin : pos + delim.length ≤ buf.length := by omega
  -- it would have been in the buffer
  apply not_infix_of_find_eq_none hnone
  have hsplit : (buf ++ chunk).take (pos + delim.length) = (buf ++ chunk).take pos ++ delim := by
    have hspec := find_spec hfind
    have hlen : ((buf ++ chunk).take pos ++ delim).length = pos + delim.length := by
      rw [List.length_append, List.length_take, List.length_append]
      omega
    conv_lhs => rw [hspec, List.take_left' hlen]
  have hprefix : delim <:+: (buf ++ chunk).take (pos + delim.length) :=
    ⟨(buf ++ chunk).take pos, [], by rw [List.append_nil, hsplit]⟩
  rw [List.take_append_of_le_length hin] at hprefix
  exact hprefix.trans (List.take_prefix _ _).isInfix

/-! ### `read_until` -/

/-- What `read_until` receives is in its result or left in the buffer. -/
theorem readUntil_received (c : Connection) (r : RecvScript) (delim : Bytes) :
    ∃ received, r.bytes = received ++ (c.readUntil r delim).2.2.bytes ∧
      c.readBuf.length + received.length
        = (c.readUntil r delim).1.length + (c.readUntil r delim).2.1.readBuf.length := by
  fun_induction readUntil c r delim with
  | case1 c r pos hfind =>
      refine ⟨[], rfl, ?_⟩
      have hle := find_le hfind
      simp only [List.length_take, List.length_drop, List.length_nil]
      omega
  | case2 c r hnone c' r' hread =>
      obtain ⟨hbytes, hbuf⟩ := rest_received hread
      exact ⟨[], hbytes, by rw [hbuf, List.length_nil]⟩
  | case3 c r hnone b bs c' r' hread ih =>
      obtain ⟨rfl, hbytes, -⟩ := chunk_received hread
      obtain ⟨received, hreceived, hlen⟩ := ih
      refine ⟨b :: bs ++ received, by rw [hbytes, hreceived, List.append_assoc], ?_⟩
      rw [List.length_append] at hlen
      rw [List.length_append]
      omega

/-- Once the delimiter is known not to be in the buffer, `read_until` leaves less than a
    chunk: on the loop, `old` is what has been searched, and `new` the last chunk. -/
theorem readUntil_left (c : Connection) (r : RecvScript) (delim : Bytes) {old new : Bytes}
    (hbuf : c.readBuf = old ++ new) (hnone : find delim old = none) (hnew : new.length ≤ 4096) :
    (c.readUntil r delim).2.1.readBuf.length ≤ 4095 := by
  fun_induction readUntil c r delim generalizing old new with
  | case1 c r pos hfind =>
      rw [hbuf] at hfind
      have hlt := left_of_find hnone hfind
      simp only [hbuf]
      omega
  | case2 c r hmiss c' r' hread => exact Nat.zero_le _
  | case3 c r hmiss b bs c' r' hread ih =>
      obtain ⟨rfl, -, hchunk⟩ := chunk_received hread
      exact ih rfl hmiss hchunk

theorem receives_readUntil (c : Connection) (r : RecvScript) (delim : Bytes) :
    c.Receives r (c.readUntil r delim) := by
  obtain ⟨received, hbytes, hlen⟩ := c.readUntil_received r delim
  refine ⟨received, hbytes, hlen, ?_⟩
  cases hfind : find delim c.readBuf with
  | some pos =>
      rw [readUntil_found hfind]
      simp only [List.length_drop]
      omega
  | none =>
      have hleft := c.readUntil_left r delim (List.append_nil c.readBuf).symm hfind (by simp)
      omega

/-! ### `read_exact` -/

theorem fill_received (c : Connection) (r : RecvScript) (n : Nat) :
    (∃ received, r.bytes = received ++ (c.fill r n).2.bytes ∧
        c.readBuf.length + received.length = (c.fill r n).1.readBuf.length) ∧
      (c.fill r n).1.readBuf.length ≤ max c.readBuf.length (n + 4095) := by
  fun_induction fill c r n with
  | case1 c r hlt c' r' hread =>
      obtain ⟨hbytes, hbuf⟩ := rest_received hread
      exact ⟨⟨[], hbytes, by rw [hbuf]; rfl⟩, by rw [hbuf]; exact le_max_left _ _⟩
  | case2 c r hlt b bs c' r' hread ih =>
      obtain ⟨rfl, hbytes, hchunk⟩ := chunk_received hread
      obtain ⟨⟨received, hreceived, hlen⟩, hle⟩ := ih
      rw [List.length_append] at hlen hle
      refine ⟨⟨b :: bs ++ received, by rw [hbytes, hreceived, List.append_assoc], ?_⟩, ?_⟩
      · rw [List.length_append]
        omega
      -- it asked for a chunk because there were fewer than `n` bytes
      · omega
  | case3 c r hge => exact ⟨⟨[], rfl, rfl⟩, le_max_left _ _⟩

theorem receives_readExact (c : Connection) (r : RecvScript) (n : Nat) :
    c.Receives r (c.readExact r n) := by
  obtain ⟨⟨received, hbytes, hlen⟩, hle⟩ := c.fill_received r n
  unfold readExact
  generalize c.fill r n = out at *
  obtain ⟨c', r'⟩ := out
  simp only at hbytes hlen hle ⊢
  split
  next hn =>
    refine ⟨received, hbytes, ?_, ?_⟩
    · simp only [List.length_take, List.length_drop]
      omega
    · simp only [List.length_drop]
      omega
  next hn => exact ⟨received, hbytes, hlen, Nat.zero_le _⟩

/-- **Step lemma.** -/
theorem receives_anyRead (c : Connection) (r : RecvScript) (call : AnyRead) :
    c.Receives r (c.anyRead r call) := by
  cases call with
  | read maxBytes => exact c.receives_read r maxBytes
  | buffered call =>
      cases call with
      | readUntil delim => exact c.receives_readUntil r delim
      | readExact n => exact c.receives_readExact r n

end OneCall

/-! ## Calls in any order -/

/-- What successive calls leave. -/
def after (c : Connection) (r : RecvScript) : List AnyRead → Connection × RecvScript
  | [] => (c, r)
  | first :: calls => (c.anyRead r first).2.1.after (c.anyRead r first).2.2 calls

/-- **Run lemma.** -/
theorem receives_after (c : Connection) (r : RecvScript) (calls : List AnyRead) :
    c.Receives r ((c.results r calls).flatten, c.after r calls) := by
  induction calls generalizing c r with
  | nil => exact ⟨[], rfl, by simp [results, after], le_max_left _ _⟩
  | cons first calls ih =>
      obtain ⟨received, hbytes, hlen, hle⟩ := c.receives_anyRead r first
      obtain ⟨received', hbytes', hlen', hle'⟩ :=
        ih (c.anyRead r first).2.1 (c.anyRead r first).2.2
      simp only [Receives, results, after, List.flatten_cons, List.length_append]
      refine ⟨received ++ received', by rw [hbytes, hbytes', List.append_assoc], ?_, ?_⟩
      · rw [List.length_append]
        simp only at hlen'
        omega
      · simp only at hle'
        omega

/-- **No caller is read ahead of by a chunk.** Whatever `read`, `read_until` and `read_exact`
    are called in whatever order, and however the stream arrives: what has been received is
    as long as the results together with what is buffered, and that is less than 4096 bytes. -/
theorem reads_ahead (fd : Fd) (r : RecvScript) (calls : List AnyRead) :
    ∃ received, r.bytes = received ++ ((init fd).after r calls).2.bytes ∧
      received.length = ((init fd).results r calls).flatten.length
        + ((init fd).after r calls).1.readBuf.length ∧
      ((init fd).after r calls).1.readBuf.length < 4096 := by
  obtain ⟨received, hbytes, hlen, hle⟩ := (init fd).receives_after r calls
  simp only [init, List.length_nil, Nat.zero_add, Nat.zero_max] at hlen hle
  exact ⟨received, hbytes, hlen, Nat.lt_succ_of_le hle⟩

end Connection

end CoroutineHttp.Net
