/-
  CoroutineHttp.Net.Packets

  Sequences of `read_until` and `read_exact` against the reference reader, which
  works on the byte stream alone: neither the results nor `is_closed()` depend on how
  the stream is cut into the answers to `recv`.
-/

import CoroutineHttp.Net.Reader

namespace CoroutineHttp.Net

open CoroutineHttp.Library CoroutineHttp.Core

/-- A call of one of the readers that keep what they do not return. -/
inductive ReadCall where
  | readUntil (delim : Bytes)
  | readExact (n : Nat)
deriving DecidableEq, Repr

namespace Connection

/-- One call. -/
def call (c : Connection) (r : RecvScript) : ReadCall → Bytes × Connection × RecvScript
  | .readUntil delim => c.readUntil r delim
  | .readExact n => c.readExact r n

/-- Calls one after another, and their results. -/
def callAll (c : Connection) (r : RecvScript) :
    List ReadCall → List Bytes × Connection × RecvScript
  | [] => ([], c, r)
  | first :: calls =>
      let (result, c', r') := c.call r first
      let (results, c'', r'') := c'.callAll r' calls
      (result :: results, c'', r'')

theorem callAll_cons (c : Connection) (r : RecvScript) (first : ReadCall)
    (calls : List ReadCall) :
    (c.callAll r (first :: calls)).1
        = (c.call r first).1 :: ((c.call r first).2.1.callAll (c.call r first).2.2 calls).1 ∧
      (c.callAll r (first :: calls)).2
        = ((c.call r first).2.1.callAll (c.call r first).2.2 calls).2 :=
  ⟨rfl, rfl⟩

end Connection

/-! ## The reference reader -/

namespace ReadCall

/-- How many bytes of the stream `p` the call is to return, if it need not look beyond
    the end of it. -/
def within (p : Bytes) : ReadCall → Option Nat
  | readUntil delim => shortestEndingIn delim p
  | readExact n => if n ≤ p.length then some n else none

/-- What the call is to return of `p`: these, or whatever there is. -/
def reference (p : Bytes) (call : ReadCall) : Bytes :=
  match call.within p with
  | some n => p.take n
  | none => p

/-- What it is to leave. -/
def remainder (p : Bytes) (call : ReadCall) : Bytes := p.drop (call.reference p).length

/-- The call needs bytes beyond the end of `p`. -/
def beyondEnd (p : Bytes) (call : ReadCall) : Bool := (call.within p).isNone

/-- The results of successive calls on the stream `p`. -/
def referenceAll (p : Bytes) : List ReadCall → List Bytes
  | [] => []
  | call :: calls => call.reference p :: referenceAll (call.remainder p) calls

/-- Some of the calls needs bytes beyond the end of the stream. -/
def anyBeyondEnd (p : Bytes) : List ReadCall → Bool
  | [] => false
  | call :: calls => call.beyondEnd p || anyBeyondEnd (call.remainder p) calls

theorem reference_of_within {p : Bytes} {call : ReadCall} {n : Nat} (h : call.within p = some n)
    (hn : n ≤ p.length) :
    call.reference p = p.take n ∧ call.remainder p = p.drop n ∧ call.beyondEnd p = false := by
  have href : call.reference p = p.take n := by simp [reference, h]
  refine ⟨href, ?_, by simp [beyondEnd, h]⟩
  rw [remainder, href, List.length_take_of_le hn]

theorem reference_of_beyond {p : Bytes} {call : ReadCall} (h : call.within p = none) :
    call.reference p = p ∧ call.remainder p = [] ∧ call.beyondEnd p = true := by
  have href : call.reference p = p := by simp [reference, h]
  refine ⟨href, ?_, by simp [beyondEnd, h]⟩
  rw [remainder, href, List.drop_length]

/-- The reference reader splits the stream. -/
theorem reference_append_remainder (p : Bytes) (call : ReadCall) :
    call.reference p ++ call.remainder p = p := by
  apply List.prefix_iff_eq_append.mp
  show call.reference p <+: p
  rw [reference]
  split
  · exact List.take_prefix _ _
  · exact List.prefix_rfl

end ReadCall

namespace Connection

open ReadCall

/-- **One call.** -/
theorem call_yields (c : Connection) (r : RecvScript) (call : ReadCall) :
    Yields c (c.call r call) (call.reference (c.pending r)) (call.remainder (c.pending r))
      (call.beyondEnd (c.pending r)) := by
  -- both functions return what is within the stream, or all of it
  cases call with
  | readUntil delim =>
      have hwithin : (ReadCall.readUntil delim).within (c.pending r)
          = (find delim (c.pending r)).map (· + delim.length) :=
        shortestEndingIn_eq_find delim (c.pending r)
      cases hfind : find delim (c.pending r) with
      | none =>
          rw [hfind] at hwithin
          obtain ⟨href, hrem, hend⟩ := reference_of_beyond hwithin
          rw [href, hrem, hend]
          exact c.readUntil_none r hfind
      | some pos =>
          rw [hfind] at hwithin
          obtain ⟨href, hrem, hend⟩ := reference_of_within hwithin (find_le hfind)
          rw [href, hrem, hend]
          exact c.readUntil_some r hfind
  | readExact n =>
      have hyields := c.readExact_spec r n
      by_cases hn : n ≤ (c.pending r).length
      · have hwithin : (ReadCall.readExact n).within (c.pending r) = some n := by
          simp [within, hn]
        obtain ⟨href, hrem, hend⟩ := reference_of_within hwithin hn
        rw [href, hrem, hend]
        have hshort : decide ((c.pending r).length < n) = false := by simpa using hn
        rw [hshort] at hyields
        exact hyields
      · have hwithin : (ReadCall.readExact n).within (c.pending r) = none := by
          simp [within, hn]
        obtain ⟨href, hrem, hend⟩ := reference_of_beyond hwithin
        rw [href, hrem, hend]
        have hlt : (c.pending r).length < n := by omega
        rw [List.take_of_length_le hlt.le, List.drop_of_length_le hlt.le, decide_eq_true hlt]
          at hyields
        exact hyields

/-- A call cuts what is pending in two. -/
theorem call_append_pending (c : Connection) (r : RecvScript) (call : ReadCall) :
    (c.call r call).1 ++ (c.call r call).2.1.pending (c.call r call).2.2 = c.pending r := by
  obtain ⟨hresult, hleft, -, -⟩ := c.call_yields r call
  rw [hresult, hleft, call.reference_append_remainder]

/-- **Sequences of calls.** -/
theorem callAll_yields (c : Connection) (r : RecvScript) (calls : List ReadCall) :
    (c.callAll r calls).1 = referenceAll (c.pending r) calls ∧
      (c.callAll r calls).2.1.closed = (c.closed || anyBeyondEnd (c.pending r) calls) := by
  -- on the calls, each on what the one before left pending
  induction calls generalizing c r with
  | nil => exact ⟨rfl, (Bool.or_false _).symm⟩
  | cons call calls ih =>
      obtain ⟨hresult, hleft, hclosed, -⟩ := c.call_yields r call
      obtain ⟨hresults, hends⟩ := ih (c.call r call).2.1 (c.call r call).2.2
      rw [hleft] at hresults hends
      obtain ⟨hcons, hrest⟩ := c.callAll_cons r call calls
      refine ⟨?_, ?_⟩
      · rw [hcons, hresult, hresults, referenceAll]
      · rw [hrest, hends, hclosed, anyBeyondEnd, Bool.or_assoc]

/-- **Packet boundaries do not matter.** On a fresh connection the calls return what
    the reference reader does on the byte stream, and `closed_` is set exactly when
    one of them needs bytes beyond its end; any other way to cut the stream gives the
    same. -/
theorem packets_irrelevant (fd fd' : Fd) (r r' : RecvScript) (hstream : r'.bytes = r.bytes)
    (calls : List ReadCall) :
    (((init fd).callAll r calls).1 = referenceAll r.bytes calls ∧
        ((init fd).callAll r calls).2.1.closed = anyBeyondEnd r.bytes calls) ∧
      ((init fd').callAll r' calls).1 = ((init fd).callAll r calls).1 ∧
        ((init fd').callAll r' calls).2.1.closed = ((init fd).callAll r calls).2.1.closed := by
  -- both runs are that of the reference reader on one stream
  obtain ⟨hresults, hclosed⟩ := (init fd).callAll_yields r calls
  obtain ⟨hresults', hclosed'⟩ := (init fd').callAll_yields r' calls
  have hpending : (init fd).pending r = r.bytes := pending_open rfl
  have hpending' : (init fd').pending r' = r.bytes := (pending_open rfl).trans hstream
  rw [hpending] at hresults hclosed
  rw [hpending'] at hresults' hclosed'
  exact ⟨⟨hresults, hclosed⟩, hresults'.trans hresults.symm, hclosed'.trans hclosed.symm⟩

/-- A delimiter split over two answers, with an `EAGAIN` between. -/
theorem packets_irrelevant_split :
    ((init 5).callAll ⟨[.data 97 [13], .eagain, .data 10 [98]], .eof⟩
        [.readUntil (bytes "\r\n"), .readExact 2]).1
      = ((init 5).callAll ⟨[.data 97 [13, 10, 98]], .eof⟩
        [.readUntil (bytes "\r\n"), .readExact 2]).1 :=
  (packets_irrelevant 5 5 ⟨[.data 97 [13, 10, 98]], .eof⟩
    ⟨[.data 97 [13], .eagain, .data 10 [98]], .eof⟩ (by decide) _).2.1

end Connection

end CoroutineHttp.Net
