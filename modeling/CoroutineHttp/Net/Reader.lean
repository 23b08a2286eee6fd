/-
  CoroutineHttp.Net.Reader

  `read_until` and `read_exact` against the reference reader: what they return
  and what they leave depend on the bytes still to come (`pending`) only, not on
  how the kernel cuts them into chunks or how often it answers `EAGAIN`.  A `read`
  returns the next chunk, and what is buffered stays behind.
-/

import CoroutineHttp.Net.Connection

namespace CoroutineHttp.Net

open CoroutineHttp.Library

/-- What a `recv` of at most `maxBytes` bytes hands out, once it does not answer `EAGAIN`. -/
def nextChunk (maxBytes : Nat) : List RecvEvent → Bytes
  | [] => []
  | .eagain :: events => nextChunk maxBytes events
  | .data first rest :: _ => (first :: rest).take maxBytes

theorem nextChunk_zero (events : List RecvEvent) : nextChunk 0 events = [] := by
  induction events with
  | nil => rfl
  | cons event events ih => cases event <;> simp [nextChunk, ih]

namespace Connection

/-- The bytes a reader can still get: those buffered and, unless the connection
    is closed, the rest of the stream. -/
def pending (c : Connection) (r : RecvScript) : Bytes :=
  c.readBuf ++ if c.closed then [] else r.bytes

/-- A call on `c` returned `result` and left `left` to be read; `atEnd` says that
    it needed bytes beyond the end of the stream. -/
structure Yields (c : Connection) (out : Bytes × Connection × RecvScript)
    (result left : Bytes) (atEnd : Bool) : Prop where
  result : out.1 = result
  left : out.2.1.pending out.2.2 = left
  closed : out.2.1.closed = (c.closed || atEnd)
  fd : out.2.1.fd = c.fd

section Pending

variable {c c' : Connection} {r r' : RecvScript}

theorem pending_open (hopen : c.closed = false) : c.pending r = c.readBuf ++ r.bytes := by
  simp [pending, hopen]

theorem pending_closed (hclosed : c.closed = true) : c.pending r = c.readBuf := by
  simp [pending, hclosed]

/-- Moving a chunk from the stream into the buffer changes nothing. -/
theorem pending_of_read_cons {maxBytes : Nat} (hmax : 0 < maxBytes) {b : UInt8} {bs : Bytes}
    (hread : c.read r maxBytes = (b :: bs, c', r')) :
    c' = c ∧ pending { c with readBuf := c.readBuf ++ b :: bs } r' = c.pending r := by
  have hout := read_outcome c r hmax
  rw [hread] at hout
  cases hout with
  | chunk _ _ _ hopen hbytes => exact ⟨rfl, by simp [pending, hopen, hbytes]⟩

/-- A `read` that returns nothing has reached the end. -/
theorem pending_of_read_nil {maxBytes : Nat} (hmax : 0 < maxBytes)
    (hread : c.read r maxBytes = ([], c', r')) :
    c.pending r = c.readBuf ∧ c'.readBuf = c.readBuf ∧ c'.closed = true ∧ c'.fd = c.fd := by
  have hout := read_outcome c r hmax
  rw [hread] at hout
  cases hout with
  | closed hclosed => exact ⟨pending_closed hclosed, rfl, hclosed, rfl⟩
  | ended _ hopen hbytes => exact ⟨by simp [pending, hopen, hbytes], rfl, rfl, rfl⟩

end Pending

/-! ## `read` -/

theorem recvLoop_next (c : Connection) (maxBytes : Nat) (ending : RecvEnd)
    (events : List RecvEvent) :
    (c.recvLoop maxBytes ending events).1 = nextChunk maxBytes events := by
  induction events with
  | nil => rfl
  | cons event events ih =>
      cases event with
      | eagain => exact ih
      | data first rest =>
          cases maxBytes with
          | zero => rfl
          | succ n =>
              simp only [recvLoop, nextChunk, List.take_succ_cons]
              split
              next hdrop => rw [List.take_of_length_le (by simpa using hdrop)]
              next => rfl

/-- **One `read`**, of any size: it returns a chunk from behind the buffer, or nothing, and
    then only the buffer is left. -/
theorem read_takes (c : Connection) (r : RecvScript) (maxBytes : Nat) :
    let chunk := nextChunk maxBytes r.events
    let out := c.read r maxBytes
    (c.closed = false ∧ out.1 = chunk ∧
        ∃ rest, c.pending r = c.readBuf ++ chunk ++ rest ∧
          out.2.1.pending out.2.2 = c.readBuf ++ rest) ∨
      ((c.closed = true ∨ chunk = []) ∧ out.1 = [] ∧ out.2.1.pending out.2.2 = c.readBuf) := by
  intro chunk out
  by_cases hclosed : c.closed = true
  · have hout : out = ([], c, r) := if_pos hclosed
    rw [hout]
    exact .inr ⟨.inl hclosed, rfl, pending_closed hclosed⟩
  have hopen : c.closed = false := by simpa using hclosed
  have hloop : out = c.recvLoop maxBytes r.ending r.events := if_neg hclosed
  have hnext : out.1 = chunk := hloop ▸ c.recvLoop_next maxBytes r.ending r.events
  rcases Nat.eq_zero_or_pos maxBytes with rfl | hmax
  -- a `read` of no bytes closes the connection, whatever there is
  · have hnone : chunk = [] := nextChunk_zero r.events
    have hconn : out.2.1 = { c with closed := true } := hloop ▸ c.recvLoop_zero r.ending r.events
    rw [hnext, hconn]
    exact .inr ⟨.inr hnone, hnone, pending_closed rfl⟩
  · have houtcome : ReadOutcome c r out := c.read_outcome r hmax
    generalize out = out at hnext houtcome
    cases houtcome with
    | chunk b bs r' _ hbytes =>
        refine .inl ⟨hopen, hnext, r'.bytes, ?_, pending_open hopen⟩
        rw [pending_open hopen, hbytes, ← hnext, List.append_assoc]
    | closed hc => exact absurd hc hclosed
    | ended r' _ _ => exact .inr ⟨.inr hnext.symm, rfl, pending_closed rfl⟩

/-- No `read` returns more bytes than it takes. -/
theorem read_length (c : Connection) (r : RecvScript) (maxBytes : Nat) :
    (c.read r maxBytes).1.length
        + ((c.read r maxBytes).2.1.pending (c.read r maxBytes).2.2).length
      ≤ (c.pending r).length := by
  rcases c.read_takes r maxBytes with ⟨-, hresult, rest, hpending, hleft⟩ | ⟨-, hresult, hleft⟩
  · rw [hresult, hpending, hleft]
    simp only [List.length_append]
    omega
  · rw [hresult, hleft, pending, List.length_append, List.length_nil]
    omega

/-- What is not read when the connection is closed stays with the kernel. -/
theorem pending_close (c : Connection) (r : RecvScript) :
    (c.close.1.pending r).length ≤ (c.pending r).length := by
  unfold close
  split
  · simp [pending]
  · exact le_rfl

/-- A `read` takes bytes and puts none back. -/
theorem pending_read (c : Connection) (r : RecvScript) (maxBytes : Nat) :
    ((c.read r maxBytes).2.1.pending (c.read r maxBytes).2.2).length
      ≤ (c.pending r).length := by
  have hlength := c.read_length r maxBytes
  omega

/-! ## `read_until` -/

/-- The delimiter is in the buffer. -/
theorem readUntil_found {c : Connection} {r : RecvScript} {delim : Bytes} {pos : Nat}
    (hfind : find delim c.readBuf = some pos) :
    c.readUntil r delim = (c.readBuf.take (pos + delim.length),
      { c with readBuf := c.readBuf.drop (pos + delim.length) }, r) := by
  rw [readUntil, hfind]

/-- It is not, and another chunk comes. -/
theorem readUntil_chunk {c c' : Connection} {r r' : RecvScript} {delim bs : Bytes} {b : UInt8}
    (hfind : find delim c.readBuf = none) (hread : c.read r 4096 = (b :: bs, c', r')) :
    c.readUntil r delim = readUntil { c' with readBuf := c'.readBuf ++ b :: bs } r' delim := by
  conv_lhs => rw [readUntil, hfind, hread]

/-- With the delimiter ahead, `read_until` returns everything up to its first
    occurrence, delimiter included. -/
theorem readUntil_some (c : Connection) (r : RecvScript) {delim : Bytes} {pos : Nat}
    (h : find delim (c.pending r) = some pos) :
    Yields c (c.readUntil r delim) ((c.pending r).take (pos + delim.length))
      ((c.pending r).drop (pos + delim.length)) false := by
  -- on the loop; a chunk moves bytes into the buffer and leaves what is pending the same
  fun_induction readUntil c r delim with
  -- the buffer has the delimiter, at the first occurrence in the whole stream
  | case1 c r pos' hfind =>
      have hpos : some pos' = some pos := (find_append hfind _).symm.trans h
      cases hpos
      have hle := find_le hfind
      refine ⟨?_, ?_, by simp, rfl⟩
      · rw [pending, List.take_append_of_le_length hle]
      · rw [pending, pending, List.drop_append_of_le_length hle]
  -- the end of the stream: the delimiter was not ahead
  | case2 c r hnone c' r' hread =>
      rw [(pending_of_read_nil (by decide) hread).1, hnone] at h
      cases h
  | case3 c r hnone b bs c' r' hread ih =>
      obtain ⟨rfl, hpending⟩ := pending_of_read_cons (by decide) hread
      rw [hpending] at ih
      obtain ⟨hresult, hleft, hclosed, hfd⟩ := ih h
      exact ⟨hresult, hleft, hclosed, hfd⟩

/-- Without it, `read_until` returns whatever there is and the connection is
    closed. -/
theorem readUntil_none (c : Connection) (r : RecvScript) {delim : Bytes}
    (h : find delim (c.pending r) = none) :
    Yields c (c.readUntil r delim) (c.pending r) [] true := by
  fun_induction readUntil c r delim with
  | case1 c r pos hfind =>
      rw [pending, find_append hfind] at h
      cases h
  | case2 c r hnone c' r' hread =>
      obtain ⟨hpending, hbuf, hclosed, hfd⟩ := pending_of_read_nil (by decide) hread
      refine ⟨hbuf.trans hpending.symm, pending_closed hclosed, ?_, hfd⟩
      simpa using hclosed
  | case3 c r hnone b bs c' r' hread ih =>
      obtain ⟨rfl, hpending⟩ := pending_of_read_cons (by decide) hread
      rw [hpending] at ih
      obtain ⟨hresult, hleft, hclosed, hfd⟩ := ih h
      exact ⟨hresult, hleft, hclosed, hfd⟩

/-- `read_until` takes bytes and puts none back. -/
theorem pending_readUntil (c : Connection) (r : RecvScript) (delim : Bytes) :
    ((c.readUntil r delim).2.1.pending (c.readUntil r delim).2.2).length
      ≤ (c.pending r).length := by
  cases hfind : find delim (c.pending r) with
  | none => simp [(c.readUntil_none r hfind).left]
  | some pos => simp [(c.readUntil_some r hfind).left]

/-! ## `read_exact` -/

/-- The filling loop moves bytes into the buffer until there are `n`, or the
    stream is over. -/
theorem fill_spec (c : Connection) (r : RecvScript) (n : Nat) :
    (c.fill r n).1.pending (c.fill r n).2 = c.pending r ∧
      (c.fill r n).1.closed = (c.closed || decide ((c.pending r).length < n)) ∧
      (c.fill r n).1.fd = c.fd ∧
      (n ≤ (c.fill r n).1.readBuf.length ∨ (c.fill r n).1.readBuf = c.pending r) := by
  -- on the loop, as for `read_until`
  fun_induction fill c r n with
  | case1 c r hlt c' r' hread =>
      obtain ⟨hpending, hbuf, hclosed, hfd⟩ := pending_of_read_nil (by decide) hread
      rw [hpending]
      refine ⟨(pending_closed hclosed).trans hbuf, ?_, hfd, .inr hbuf⟩
      simp [hclosed, hlt]
  | case2 c r hlt b bs c' r' hread ih =>
      obtain ⟨rfl, hpending⟩ := pending_of_read_cons (by decide) hread
      rw [hpending] at ih
      exact ih
  -- enough bytes in the buffer: the stream is not asked
  | case3 c r hge =>
      refine ⟨rfl, ?_, rfl, .inl (not_lt.mp hge)⟩
      have hlen : n ≤ (c.pending r).length := by
        simp only [pending, List.length_append]
        omega
      simp [not_lt.mpr hlen]

/-- `read_exact(n)` returns the next `n` bytes, or all there are. -/
theorem readExact_spec (c : Connection) (r : RecvScript) (n : Nat) :
    Yields c (c.readExact r n) ((c.pending r).take n) ((c.pending r).drop n)
      (decide ((c.pending r).length < n)) := by
  obtain ⟨hpending, hclosed, hfd, hbuf⟩ := fill_spec c r n
  unfold readExact
  generalize c.fill r n = out at *
  obtain ⟨c', r'⟩ := out
  simp only at hpending hclosed hfd hbuf ⊢
  by_cases hle : n ≤ c'.readBuf.length
  · rw [if_pos hle]
    refine ⟨?_, ?_, hclosed, hfd⟩
    · rw [← hpending, pending, List.take_append_of_le_length hle]
    · rw [← hpending, pending, pending, List.drop_append_of_le_length hle]
  · -- the buffer holds everything, and that is fewer than `n` bytes
    have hall := hbuf.resolve_left hle
    have hshort : (c.pending r).length < n := by rw [← hall]; omega
    have hc' : c'.closed = true := by simp [hclosed, hshort]
    rw [if_neg hle]
    refine ⟨?_, ?_, hclosed, hfd⟩
    · rw [List.take_of_length_le hshort.le, hall]
    · rw [List.drop_of_length_le hshort.le]
      simp [pending, hc']

end Connection

/-! ## Programs that read by exact counts -/

/-- A program whose only access to a connection is `read_exact`. -/
inductive Reading (α : Type) where
  | done (a : α)
  | exact (n : Nat) (next : Bytes → Reading α)

namespace Reading

variable {α : Type}

/-- The program on a connection. -/
def run (c : Connection) (r : RecvScript) : Reading α → α × Connection × RecvScript
  | done a => (a, c, r)
  | exact n next =>
      let (result, c', r') := c.readExact r n
      (next result).run c' r'

/-- The program on a byte stream: the result, the bytes left, and whether it came to
    the end of the stream. -/
def onStream (p : Bytes) (atEnd : Bool) : Reading α → α × Bytes × Bool
  | done a => (a, p, atEnd)
  | exact n next => (next (p.take n)).onStream (p.drop n) (atEnd || decide (p.length < n))

/-- Having come to the end earlier makes no difference but in the record of it. -/
theorem onStream_atEnd (prog : Reading α) (p : Bytes) (atEnd : Bool) :
    prog.onStream p atEnd
      = ((prog.onStream p false).1, (prog.onStream p false).2.1,
          atEnd || (prog.onStream p false).2.2) := by
  -- on the program: one `read_exact`, and the program that goes on with its result
  induction prog generalizing p atEnd with
  | done a => simp [onStream]
  | exact n next ih =>
      rw [onStream, ih, onStream, ih _ _ (false || _)]
      simp [Bool.or_assoc]

/-- **Reading programs read the stream.** -/
theorem run_yields (prog : Reading α) (c : Connection) (r : RecvScript) :
    (prog.run c r).1 = (prog.onStream (c.pending r) false).1 ∧
      (prog.run c r).2.1.pending (prog.run c r).2.2 = (prog.onStream (c.pending r) false).2.1 ∧
      (prog.run c r).2.1.closed = (c.closed || (prog.onStream (c.pending r) false).2.2) ∧
      (prog.run c r).2.1.fd = c.fd := by
  induction prog generalizing c r with
  | done a => exact ⟨rfl, rfl, by simp [run, onStream], rfl⟩
  | exact n next ih =>
      obtain ⟨hresult, hleft, hclosed, hfd⟩ := c.readExact_spec r n
      -- the rest of the program, on what the first call left
      obtain ⟨h1, h2, h3, h4⟩ := ih (c.readExact r n).1 (c.readExact r n).2.1 (c.readExact r n).2.2
      rw [hleft, hresult] at h1 h2 h3
      rw [hresult] at h4
      rw [hclosed, Bool.or_assoc] at h3
      simp only [run, hresult, onStream]
      rw [onStream_atEnd _ _ (false || _), Bool.false_or]
      exact ⟨h1, h2, h3, h4.trans hfd⟩

/-- What is left is a last part of the stream. -/
theorem onStream_suffix (prog : Reading α) (p : Bytes) (atEnd : Bool) :
    (prog.onStream p atEnd).2.1 <:+ p := by
  induction prog generalizing p atEnd with
  | done a => exact List.suffix_rfl
  | exact n next ih => exact (ih _ _ _).trans (List.drop_suffix _ _)

section Need

variable {β : Type}

/-- `read_exact(n)`, and `return false` if it came up short. -/
def need (n : Nat) (next : Bytes → Reading (Option β)) : Reading (Option β) :=
  .exact n fun result => if result.length < n then .done none else next result

theorem need_onStream_short {n : Nat} {p : Bytes} (h : p.length < n)
    (next : Bytes → Reading (Option β)) (atEnd : Bool) :
    (need n next).onStream p atEnd = (none, [], true) := by
  have hdrop : p.drop n = [] := List.drop_of_length_le h.le
  simp [need, onStream, hdrop, h]

theorem need_onStream {n : Nat} {p : Bytes} (h : n ≤ p.length)
    (next : Bytes → Reading (Option β)) (atEnd : Bool) :
    (need n next).onStream p atEnd = (next (p.take n)).onStream (p.drop n) atEnd := by
  have htake : ¬ (p.take n).length < n := by simpa using h
  simp only [need, onStream, if_neg htake, not_lt.mpr h, decide_false, Bool.or_false]

/-- With the bytes asked for in front of the stream, they are what comes back. -/
theorem need_append {n : Nat} {bs : Bytes} (h : bs.length = n) (rest : Bytes)
    (next : Bytes → Reading (Option β)) (atEnd : Bool) :
    (need n next).onStream (bs ++ rest) atEnd = (next bs).onStream rest atEnd := by
  rw [need_onStream (by simp [h]), List.take_left' h, List.drop_left' h]

end Need

/-- What follows a stream that was not read to its end is left as it is. -/
theorem onStream_append {prog : Reading α} {p : Bytes} {a : α} {left : Bytes}
    (h : prog.onStream p false = (a, left, false)) (rest : Bytes) :
    prog.onStream (p ++ rest) false = (a, left ++ rest, false) := by
  induction prog generalizing p with
  | done b =>
      cases h
      rfl
  | exact n next ih =>
      rw [onStream, Bool.false_or] at h
      -- a short `read_exact` would have come to the end of `p`
      have hn : n ≤ p.length := by
        by_contra hlt
        rw [onStream_atEnd, decide_eq_true (by omega)] at h
        cases h
      rw [decide_eq_false (by omega)] at h
      have hlong : ¬ (p ++ rest).length < n := by
        rw [List.length_append]
        omega
      rw [onStream, Bool.false_or, decide_eq_false hlong, List.take_append_of_le_length hn,
        List.drop_append_of_le_length hn]
      exact ih _ h

end Reading

end CoroutineHttp.Net
