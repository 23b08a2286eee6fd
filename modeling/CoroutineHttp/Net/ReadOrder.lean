/-
  CoroutineHttp.Net.ReadOrder

  The whole reading interface of a connection.  `read_until` and `read_exact` take bytes
  from the front of what is pending; `read` asks the kernel and leaves `read_buf_`
  where it is, so that it keeps the order only when what is buffered and what it gets
  can change places.
-/

import CoroutineHttp.Net.Packets

namespace CoroutineHttp.Net

open CoroutineHttp.Library CoroutineHttp.Core

/-- A call of the reading interface. -/
inductive AnyRead where
  | read (maxBytes : Nat)
  | buffered (call : ReadCall)
deriving DecidableEq, Repr

namespace Connection

/-! ## Calls in any order -/

/-- One call. -/
def anyRead (c : Connection) (r : RecvScript) : AnyRead → Bytes × Connection × RecvScript
  | .read maxBytes => c.read r maxBytes
  | .buffered call => c.call r call

/-- The results of successive calls. -/
def results (c : Connection) (r : RecvScript) : List AnyRead → List Bytes
  | [] => []
  | first :: calls =>
      (c.anyRead r first).1 :: (c.anyRead r first).2.1.results (c.anyRead r first).2.2 calls

/-- The call takes its bytes in turn: a `read` of an open connection finds nothing in the
    buffer or nothing to receive, or the two spell the same either way round. -/
def InTurn (c : Connection) (r : RecvScript) : AnyRead → Prop
  | .read maxBytes =>
      c.closed = true ∨ c.readBuf ++ nextChunk maxBytes r.events
        = nextChunk maxBytes r.events ++ c.readBuf
  | .buffered _ => True

/-- Each of the calls does. -/
def AllInTurn (c : Connection) (r : RecvScript) : List AnyRead → Prop
  | [] => True
  | first :: calls =>
      c.InTurn r first ∧ (c.anyRead r first).2.1.AllInTurn (c.anyRead r first).2.2 calls

section Calls

variable {c : Connection} {r : RecvScript}

/-! ### One call -/

/-- **Step lemma.** A call in turn returns what comes first of what is pending. -/
theorem InTurn.begins {call : AnyRead} (h : c.InTurn r call) :
    (c.anyRead r call).1 ++ (c.anyRead r call).2.1.pending (c.anyRead r call).2.2
      <+: c.pending r := by
  cases call with
  | buffered call => exact (c.call_append_pending r call) ▸ List.prefix_rfl
  | read maxBytes =>
      rw [anyRead]
      rcases c.read_takes r maxBytes with ⟨hopen, hresult, rest, hpending, hleft⟩ |
        ⟨-, hresult, hleft⟩
      · have hswap := h.resolve_left (by simp [hopen])
        rw [hresult, hpending, hleft, hswap, List.append_assoc]
      · rw [hresult, hleft]
        exact List.prefix_append _ _

/-- No call returns more bytes than it takes. -/
theorem anyRead_length (c : Connection) (r : RecvScript) (call : AnyRead) :
    (c.anyRead r call).1.length
        + ((c.anyRead r call).2.1.pending (c.anyRead r call).2.2).length
      ≤ (c.pending r).length := by
  cases call with
  | buffered call => rw [← c.call_append_pending r call, List.length_append, anyRead]
  | read maxBytes => exact c.read_length r maxBytes

/-- A `read` out of turn shows as soon as the buffer is read. -/
theorem inTurn_of_begins {call : AnyRead}
    (h : ∀ n, (c.anyRead r call).1
      ++ ((c.anyRead r call).2.1.pending (c.anyRead r call).2.2).take n <+: c.pending r) :
    c.InTurn r call := by
  cases call with
  | buffered call => trivial
  | read maxBytes =>
      have hbuffer := h c.readBuf.length
      rw [anyRead] at hbuffer
      rcases c.read_takes r maxBytes with ⟨-, hresult, rest, hpending, hleft⟩ |
        ⟨hclosed | hnone, -, -⟩
      · rw [hresult, hleft, List.take_left, hpending] at hbuffer
        -- both orders begin the stream, and they are of one length
        have hsame := List.prefix_of_prefix_length_le (List.prefix_append _ _) hbuffer
          (by simp [Nat.add_comm])
        exact .inr (hsame.eq_of_length (by simp [Nat.add_comm]))
      · exact .inl hclosed
      · right
        rw [hnone, List.append_nil, List.nil_append]

/-! ### Sequences of calls -/

/-- No sequence of calls returns more bytes than there are. -/
theorem results_length (c : Connection) (r : RecvScript) (calls : List AnyRead) :
    (c.results r calls).flatten.length ≤ (c.pending r).length := by
  induction calls generalizing c r with
  | nil => exact Nat.zero_le _
  | cons first calls ih =>
      have hfirst := c.anyRead_length r first
      have hrest := ih (c.anyRead r first).2.1 (c.anyRead r first).2.2
      rw [results, List.flatten_cons, List.length_append]
      omega

/-- A single `read_exact`. -/
theorem results_exact (c : Connection) (r : RecvScript) (n : Nat) :
    (c.results r [.buffered (.readExact n)]).flatten = (c.pending r).take n := by
  rw [← (c.readExact_spec r n).result]
  exact List.append_nil _

/-- **Run lemma.** The calls are in turn if and only if, after each of them, what has
    been returned begins what was pending, and still does with one `read_exact` more. -/
theorem allInTurn_iff (c : Connection) (r : RecvScript) (calls : List AnyRead) :
    c.AllInTurn r calls ↔ ∀ before, before <+: calls → ∀ n,
      (c.results r (before ++ [.buffered (.readExact n)])).flatten <+: c.pending r := by
  -- on the calls, each on what the one before left pending
  induction calls generalizing c r with
  | nil =>
      apply iff_of_true trivial
      intro before hbefore n
      rw [List.prefix_nil.mp hbefore, List.nil_append, results_exact]
      exact List.take_prefix _ _
  | cons first calls ih =>
      rw [AllInTurn, ih]
      constructor
      · rintro ⟨hfirst, hrest⟩ before hbefore n
        cases before with
        | nil =>
            rw [List.nil_append, results_exact]
            exact List.take_prefix _ _
        | cons b before =>
            obtain ⟨rfl, htail⟩ := List.cons_prefix_cons.mp hbefore
            rw [List.cons_append, results, List.flatten_cons]
            exact ((List.prefix_append_right_inj _).mpr (hrest before htail n)).trans hfirst.begins
      · intro hall
        have hfirst : c.InTurn r first := by
          apply inTurn_of_begins
          intro n
          have hone := hall [first] (List.cons_prefix_cons.mpr ⟨rfl, List.nil_prefix⟩) n
          rwa [List.singleton_append, results, List.flatten_cons, results_exact] at hone
        refine ⟨hfirst, fun before hbefore n => ?_⟩
        have hmore := hall (first :: before) (List.cons_prefix_cons.mpr ⟨rfl, hbefore⟩) n
        rw [List.cons_append, results, List.flatten_cons] at hmore
        -- both continue the first result in the same stream
        apply (List.prefix_append_right_inj (c.anyRead r first).1).mp
        apply List.prefix_of_prefix_length_le hmore hfirst.begins
        rw [List.length_append, List.length_append]
        exact Nat.add_le_add_left (results_length _ _ _) _

theorem results_append (c : Connection) (r : RecvScript) (calls more : List AnyRead) :
    (c.results r calls).flatten <+: (c.results r (calls ++ more)).flatten := by
  induction calls generalizing c r with
  | nil => exact List.nil_prefix
  | cons first calls ih => exact (List.prefix_append_right_inj _).mpr (ih _ _)

/-- **Reading in order.** On a fresh connection, calls of the three readers that are all
    in turn return, at every point, the beginning of the byte stream; and only such calls
    do, where the next call may be a `read_exact`. -/
theorem reads_in_order_iff (fd : Fd) (r : RecvScript) (calls : List AnyRead) :
    ((init fd).AllInTurn r calls →
        ∀ before, before <+: calls → ((init fd).results r before).flatten <+: r.bytes) ∧
      ((init fd).AllInTurn r calls ↔ ∀ before, before <+: calls → ∀ n,
        ((init fd).results r (before ++ [.buffered (.readExact n)])).flatten <+: r.bytes) := by
  have hiff := (init fd).allInTurn_iff r calls
  have hpending : (init fd).pending r = r.bytes := pending_open rfl
  rw [hpending] at hiff
  refine ⟨fun hturn before hbefore => ?_, hiff⟩
  exact (results_append _ _ before _).trans (hiff.mp hturn before hbefore 0)

end Calls

/-- The packets `a\r\nb` and `cd`: `read_until` returns the line and leaves `b` in the buffer,
    and `read` goes past it. -/
theorem read_out_of_order :
    ¬ ∀ (fd : Fd) (r : RecvScript) (calls : List AnyRead),
      ((init fd).results r calls).flatten <+: r.bytes := by
  intro hall
  have hprefix := hall 5 ⟨[.data 97 [13, 10, 98], .data 99 [100]], .eof⟩
    [.buffered (.readUntil [13, 10]), .read 4096]
  have hline : (init 5).readUntil ⟨[.data 97 [13, 10, 98], .data 99 [100]], .eof⟩ [13, 10]
      = ([97, 13, 10], ⟨5, false, [98]⟩, ⟨[.data 99 [100]], .eof⟩) := by
    have hfound : find [13, 10] (mk 5 false [97, 13, 10, 98]).readBuf = some 1 := by decide
    rw [readUntil_chunk (by decide) rfl]
    exact readUntil_found hfound
  rw [results, anyRead, call, hline] at hprefix
  exact absurd hprefix (by decide)

end Connection

end CoroutineHttp.Net
