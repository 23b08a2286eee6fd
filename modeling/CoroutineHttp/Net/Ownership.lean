/-
  CoroutineHttp.Net.Ownership

  Who closes a descriptor.  A `Pool` is the `Connection` objects of a program
  with the calls of `::close` made so far; a step is one member function call on
  one of them.  Each construction brings a descriptor of its own, so two
  `::close` calls on one descriptor cannot be confused with a reuse of its
  number.

  Beside each object stands the descriptor it owns: the one it was constructed
  with or took over in a move.  This is history and independent of what the
  fields of the object say; `ended` likewise records on which descriptors the
  owner was told that the stream is over or broken.
-/

import CoroutineHttp.Library.Runs
import CoroutineHttp.Net.Reader

namespace CoroutineHttp.Net

open CoroutineHttp.Library CoroutineHttp.Core

/-- Names of `Connection` objects. -/
abbrev ObjId := Nat

/-! ## The calls that do I/O -/

/-- A reading or writing call, with what the kernel answers during it. -/
inductive Io where
  | read (r : RecvScript) (maxBytes : Nat)
  | readUntil (r : RecvScript) (delim : Bytes)
  | readExact (r : RecvScript) (n : Nat)
  | write (script : SendScript) (data : Bytes)
deriving DecidableEq, Repr

namespace Io

/-- What the call leaves of the object. -/
def run (c : Connection) : Io → Connection
  | .read r maxBytes => (c.read r maxBytes).2.1
  | .readUntil r delim => (c.readUntil r delim).2.1
  | .readExact r n => (c.readExact r n).2.1
  | .write script data => (c.write script data).2.1

/-- The answers hold nothing that takes a second coroutine on the object. -/
def alone : Io → Bool
  | .read r _ | .readUntil r _ | .readExact r _ => r.ending != .closedMeanwhile
  | .write script _ => !script.contains .closedMeanwhile

/-- On an open connection the call comes upon the end of the stream or an error:
    it asks for bytes that are not there, or some `send` before its last byte is
    accepted fails. -/
def meetsEnd (c : Connection) : Io → Bool
  | .read r maxBytes => !c.closed && decide (maxBytes = 0 ∨ r.bytes = [])
  | .readUntil r delim => !c.closed && (find delim (c.pending r)).isNone
  | .readExact r n => !c.closed && decide ((c.pending r).length < n)
  | .write script data => !c.closed && Connection.failsBefore data.length script

/-- A call never changes the descriptor, and it sets `closed_` exactly when it
    meets the end. -/
theorem run_spec (c : Connection) (io : Io) :
    (io.run c).fd = c.fd ∧ (io.run c).closed = (c.closed || io.meetsEnd c) := by
  cases io with
  | read r maxBytes =>
      obtain ⟨hclosed, hfd⟩ := c.read_closed r maxBytes
      exact ⟨hfd, by cases hc : c.closed <;> simp [run, meetsEnd, hclosed, hc]⟩
  | readUntil r delim =>
      cases hfind : find delim (c.pending r) with
      | none =>
          have h := c.readUntil_none r hfind
          exact ⟨h.fd, by cases hc : c.closed <;> simp [run, meetsEnd, h.closed, hc, hfind]⟩
      | some pos =>
          have h := c.readUntil_some r hfind
          exact ⟨h.fd, by cases hc : c.closed <;> simp [run, meetsEnd, h.closed, hc, hfind]⟩
  | readExact r n =>
      have h := c.readExact_spec r n
      exact ⟨h.fd, by cases hc : c.closed <;> simp [run, meetsEnd, h.closed, hc]⟩
  | write script data =>
      exact ⟨c.write_fd script data,
        by cases hc : c.closed <;> simp [run, meetsEnd, c.write_closed, hc]⟩

end Io

/-! ## The pool -/

/-- A live object and the descriptor it owns. -/
structure Holder where
  conn : Connection
  owns : Option Fd
deriving DecidableEq, Repr

structure Pool where
  objs : ObjId → Option Holder
  /-- The arguments of the `::close` calls made by `Connection::close`. -/
  closes : List Fd
  /-- The descriptors given to constructors. -/
  given : List Fd
  /-- The descriptors on which a call met the end. -/
  ended : List Fd

/-- One call on one object, or two for a move. -/
inductive PoolAct where
  /-- `Connection o(fd, sched)`. -/
  | construct (o : ObjId) (fd : Fd)
  | io (o : ObjId) (call : Io)
  /-- `o.close()`. -/
  | close (o : ObjId)
  /-- `Connection o(std::move(src))`. -/
  | moveConstruct (o src : ObjId)
  /-- `o = std::move(src)`. -/
  | moveAssign (o src : ObjId)
  /-- `~Connection`. -/
  | destroy (o : ObjId)

namespace Pool

/-- No objects yet. -/
def empty : Pool := ⟨fun _ => none, [], [], []⟩

/-- Object `o` becomes `h`, or ceases to exist. -/
def setObj (p : Pool) (o : ObjId) (h : Option Holder) : Pool :=
  { p with objs := Function.update p.objs o h }

/-- `close()` is called on the object in `h`: the log of `::close` grows by what
    it closes. -/
def closing (p : Pool) (h : Holder) : Pool :=
  { p with closes := p.closes ++ h.conn.close.2.toList }

def step (p : Pool) : PoolAct → Option Pool
  | .construct o fd =>
      -- the kernel gives out a number again only after its close: one of the pool is new
      if p.objs o = none ∧ 0 ≤ fd ∧ fd ∉ p.given then
        some { p.setObj o (some ⟨.init fd, some fd⟩) with given := p.given ++ [fd] }
      else none
  | .io o call =>
      match p.objs o with
      | some h =>
          if call.alone then
            some { p.setObj o (some { h with conn := call.run h.conn }) with
              ended := if call.meetsEnd h.conn then p.ended ++ h.owns.toList else p.ended }
          else none
      | none => none
  | .close o =>
      match p.objs o with
      | some h => some ((p.closing h).setObj o (some { h with conn := h.conn.close.1 }))
      | none => none
  | .moveConstruct o src =>
      match p.objs o, p.objs src with
      | none, some h =>
          some ((p.setObj o (some h)).setObj src (some ⟨Connection.movedFrom, none⟩))
      | _, _ => none
  | .moveAssign o src =>
      match p.objs o, p.objs src with
      | some h, some hsrc =>
          -- `if (this != &other)`
          if o = src then some p
          else
            some (((p.closing h).setObj o (some hsrc)).setObj src
              (some ⟨Connection.movedFrom, none⟩))
      | _, _ => none
  | .destroy o =>
      match p.objs o with
      | some h => some ((p.closing h).setObj o none)
      | none => none

/-- Object `o` owns `fd`. -/
def Owns (p : Pool) (o : ObjId) (fd : Fd) : Prop := ∃ c, p.objs o = some ⟨c, some fd⟩

/-! ## The invariant -/

/-- How an object and the logs stand to the descriptor it owns. -/
inductive Holds (closes ended : List Fd) : Holder → Prop where
  /-- Moved from. -/
  | empty {c : Connection} (hclosed : c.closed = true) : Holds closes ended ⟨c, none⟩
  | live {c : Connection} (hfd : 0 ≤ c.fd) (hopen : c.closed = false)
      (hcount : closes.count c.fd = 0) (hended : c.fd ∉ ended) :
      Holds closes ended ⟨c, some c.fd⟩
  /-- Told that the stream is over; `close` will do nothing any more. -/
  | ended {c : Connection} {fd : Fd} (hclosed : c.closed = true)
      (hcount : closes.count fd = 0) (hended : fd ∈ ended) : Holds closes ended ⟨c, some fd⟩
  /-- Closed explicitly. -/
  | released {c : Connection} {fd : Fd} (hclosed : c.closed = true)
      (hcount : closes.count fd = 1) (hended : fd ∉ ended) : Holds closes ended ⟨c, some fd⟩

/-- A descriptor without an owner was closed once, unless its stream had ended
    before: then never. -/
def Settled (closes ended : List Fd) (fd : Fd) : Prop :=
  (closes.count fd = 1 ∧ fd ∉ ended) ∨ (closes.count fd = 0 ∧ fd ∈ ended)

structure Sound (p : Pool) : Prop where
  holds : ∀ o h, p.objs o = some h → Holds p.closes p.ended h
  given : ∀ o fd, p.Owns o fd → fd ∈ p.given
  unique : ∀ o o' fd, p.Owns o fd → p.Owns o' fd → o = o'
  settled : ∀ fd ∈ p.given, (∀ o, ¬ p.Owns o fd) → Settled p.closes p.ended fd
  fresh : ∀ fd, fd ∉ p.given → p.closes.count fd = 0 ∧ fd ∉ p.ended

theorem Holds.congr {closes ended closes' ended' : List Fd} {h : Holder}
    (hh : Holds closes ended h)
    (hsame : ∀ fd, h.owns = some fd →
      closes'.count fd = closes.count fd ∧ (fd ∈ ended' ↔ fd ∈ ended)) :
    Holds closes' ended' h := by
  cases hh with
  | empty hclosed => exact .empty hclosed
  | @live c hfd hopen hcount hended =>
      obtain ⟨hc, he⟩ := hsame c.fd rfl
      exact .live hfd hopen (hc.trans hcount) (fun hm => hended (he.mp hm))
  | @ended c fd hclosed hcount hended =>
      obtain ⟨hc, he⟩ := hsame fd rfl
      exact .ended hclosed (hc.trans hcount) (he.mpr hended)
  | @released c fd hclosed hcount hended =>
      obtain ⟨hc, he⟩ := hsame fd rfl
      exact .released hclosed (hc.trans hcount) (fun hm => hended (he.mp hm))

theorem Settled.congr {closes ended closes' ended' : List Fd} {fd : Fd}
    (hs : Settled closes ended fd)
    (hsame : closes'.count fd = closes.count fd ∧ (fd ∈ ended' ↔ fd ∈ ended)) :
    Settled closes' ended' fd := by
  unfold Settled
  rw [hsame.1, hsame.2]
  exact hs

/-- **`close`.** It settles the descriptor the object owns, leaves an object with
    which nothing more can be closed, and touches no other descriptor. -/
theorem Holds.close {closes ended : List Fd} {h : Holder} (hh : Holds closes ended h) :
    Holds (closes ++ h.conn.close.2.toList) ended ⟨h.conn.close.1, h.owns⟩ ∧
      (∀ fd, h.owns = some fd → Settled (closes ++ h.conn.close.2.toList) ended fd) ∧
      ∀ fd, h.owns ≠ some fd →
        (closes ++ h.conn.close.2.toList).count fd = closes.count fd := by
  cases hh with
  | empty hclosed =>
      rw [Connection.close_of_closed hclosed]
      exact ⟨by simpa using Holds.empty hclosed, by simp, by simp⟩
  -- the one case in which `::close` is called
  | @live c hfd hopen hcount hended =>
      rw [Connection.close_of_open hopen hfd]
      have hone : (closes ++ [c.fd]).count c.fd = 1 := by simp [hcount]
      refine ⟨.released rfl hone hended, ?_, ?_⟩
      · rintro fd ⟨⟩
        exact .inl ⟨hone, hended⟩
      · intro fd hne
        have hne' : c.fd ≠ fd := fun he => hne (congrArg some he)
        simp [hne']
  -- `closed_` is set already, so `close` does nothing
  | @ended c fd hclosed hcount hended =>
      rw [Connection.close_of_closed hclosed]
      refine ⟨by simpa using Holds.ended hclosed hcount hended, ?_, by simp⟩
      rintro fd ⟨⟩
      exact .inr ⟨by simpa using hcount, hended⟩
  | @released c fd hclosed hcount hended =>
      rw [Connection.close_of_closed hclosed]
      refine ⟨by simpa using Holds.released hclosed hcount hended, ?_, by simp⟩
      rintro fd ⟨⟩
      exact .inl ⟨by simpa using hcount, hended⟩

/-- **I/O.** A call keeps the object in step with the logs. -/
theorem Holds.io {closes ended : List Fd} {h : Holder} (hh : Holds closes ended h)
    (call : Io) :
    Holds closes (if call.meetsEnd h.conn then ended ++ h.owns.toList else ended)
        ⟨call.run h.conn, h.owns⟩ ∧
      ∀ fd, h.owns ≠ some fd →
        (fd ∈ (if call.meetsEnd h.conn then ended ++ h.owns.toList else ended) ↔ fd ∈ ended) := by
  obtain ⟨hfd', hclosed'⟩ := call.run_spec h.conn
  -- on a closed connection no call does anything
  have hquiet : h.conn.closed = true → call.meetsEnd h.conn = false := by
    intro hc
    cases call <;> simp [Io.meetsEnd, hc]
  refine ⟨?_, fun fd hne => ?_⟩
  · cases hh with
    | empty hclosed =>
        rw [hclosed, Bool.true_or] at hclosed'
        exact .empty hclosed'
    | @live c hfd hopen hcount hended =>
        rw [hopen, Bool.false_or] at hclosed'
        simp only at hfd' hclosed' ⊢
        cases hend : call.meetsEnd c with
        | true =>
            rw [if_pos rfl]
            exact .ended (hclosed'.trans hend) hcount (by simp)
        | false =>
            rw [if_neg (by simp), ← hfd']
            exact .live (hfd'.symm ▸ hfd) (hclosed'.trans hend) (hfd'.symm ▸ hcount)
              (hfd'.symm ▸ hended)
    | @ended c fd hclosed hcount hended =>
        rw [hquiet hclosed, if_neg (by simp)]
        rw [hclosed, Bool.true_or] at hclosed'
        exact .ended hclosed' hcount hended
    | @released c fd hclosed hcount hended =>
        rw [hquiet hclosed, if_neg (by simp)]
        rw [hclosed, Bool.true_or] at hclosed'
        exact .released hclosed' hcount hended
  · split
    · simp only [List.mem_append, Option.mem_toList, hne, or_false]
    · rfl

/-! ## Steps -/

/-- The object `o` is rewritten, keeping what it owns, or destroyed, settling what
    it owned; nothing happens to other objects or descriptors. -/
theorem Sound.update {p p' : Pool} {o : ObjId} {h : Holder} (hI : Sound p)
    (ho : p.objs o = some h) (hgiven : p'.given = p.given)
    (hlogs : ∀ fd, h.owns ≠ some fd →
      p'.closes.count fd = p.closes.count fd ∧ (fd ∈ p'.ended ↔ fd ∈ p.ended))
    (hothers : ∀ o', o' ≠ o → p'.objs o' = p.objs o')
    (hkept : ∀ h', p'.objs o = some h' → h'.owns = h.owns ∧ Holds p'.closes p'.ended h')
    (hgone : p'.objs o = none → ∀ fd, h.owns = some fd → Settled p'.closes p'.ended fd) :
    Sound p' := by
  have hown : ∀ {fd}, h.owns = some fd → p.Owns o fd := fun {fd} hfd => by
    obtain ⟨c, f⟩ := h
    cases hfd
    exact ⟨c, ho⟩
  -- ownership does not grow, and shrinks only by the destruction of `o`
  have howns : ∀ {o' fd}, p'.Owns o' fd → p.Owns o' fd := by
    intro o' fd ⟨c, hc⟩
    by_cases hoo : o' = o
    · subst hoo
      exact hown (hkept _ hc).1.symm
    · exact ⟨c, (hothers o' hoo) ▸ hc⟩
  refine ⟨?_, ?_, ?_, ?_, ?_⟩
  · intro o' h' ho'
    by_cases hoo : o' = o
    · subst hoo
      exact (hkept h' ho').2
    · have hp : p.objs o' = some h' := (hothers o' hoo) ▸ ho'
      refine (hI.holds o' h' hp).congr fun fd hfd => hlogs fd fun hcon => hoo ?_
      refine hI.unique o' o fd ?_ (hown hcon)
      obtain ⟨c, f⟩ := h'
      cases hfd
      exact ⟨c, hp⟩
  · intro o' fd hfd
    rw [hgiven]
    exact hI.given o' fd (howns hfd)
  · intro o1 o2 fd h1 h2
    exact hI.unique o1 o2 fd (howns h1) (howns h2)
  · intro fd hfd hno
    rw [hgiven] at hfd
    by_cases hf : h.owns = some fd
    · cases hobj : p'.objs o with
      | none => exact hgone hobj fd hf
      | some h' =>
          obtain ⟨c', f'⟩ := h'
          have hf' : f' = some fd := (hkept _ hobj).1.trans hf
          exact absurd ⟨c', hf' ▸ hobj⟩ (hno o)
    · refine (hI.settled fd hfd fun o' hO => ?_).congr (hlogs fd hf)
      obtain ⟨c, hc⟩ := hO
      by_cases hoo : o' = o
      · subst hoo
        rw [ho] at hc
        cases hc
        exact hf rfl
      · exact hno o' ⟨c, (hothers o' hoo).trans hc⟩
  · intro fd hfd
    rw [hgiven] at hfd
    have hf : h.owns ≠ some fd := fun hcon => hfd (hI.given o fd (hown hcon))
    obtain ⟨hcount, hended⟩ := hI.fresh fd hfd
    exact ⟨(hlogs fd hf).1.trans hcount, fun hm => hended ((hlogs fd hf).2.mp hm)⟩

/-- The object `o` is rewritten and keeps what it owns; `q` is `p` with other logs. -/
theorem Sound.rewrite {p q : Pool} {o : ObjId} {h h' : Holder} (hI : Sound p)
    (ho : p.objs o = some h) (hobjs : q.objs = p.objs) (hgiven : q.given = p.given)
    (hlogs : ∀ fd, h.owns ≠ some fd →
      q.closes.count fd = p.closes.count fd ∧ (fd ∈ q.ended ↔ fd ∈ p.ended))
    (howns : h'.owns = h.owns) (hholds : Holds q.closes q.ended h') :
    Sound (q.setObj o (some h')) := by
  refine hI.update ho hgiven hlogs ?_ ?_ ?_
  · intro o' hoo
    rw [← hobjs]
    exact Function.update_of_ne hoo _ _
  · intro h'' hh''
    obtain rfl : h' = h'' := by simpa [setObj] using hh''
    exact ⟨howns, hholds⟩
  · intro hnone
    simp [setObj] at hnone

/-- A destruction. -/
theorem Sound.destroy {p : Pool} {o : ObjId} {h : Holder} (hI : Sound p)
    (ho : p.objs o = some h) : Sound ((p.closing h).setObj o none) := by
  obtain ⟨-, hsettled, hcount⟩ := (hI.holds o h ho).close
  refine hI.update ho rfl (fun fd hne => ⟨hcount fd hne, Iff.rfl⟩) ?_ ?_ ?_
  · intro o' hoo
    exact Function.update_of_ne hoo _ _
  · intro h' hh'
    simp [setObj] at hh'
  · exact fun _ fd hfd => hsettled fd hfd

/-- A move into a new object. -/
theorem Sound.move {p : Pool} (hI : Sound p) (o src : ObjId) {h : Holder}
    (ho : p.objs o = none) (hsrc : p.objs src = some h) :
    Sound ((p.setObj o (some h)).setObj src (some ⟨Connection.movedFrom, none⟩)) := by
  have hne : o ≠ src := by
    rintro rfl
    rw [ho] at hsrc
    cases hsrc
  -- ownership only changes hands from `src` to `o`
  have howns : ∀ o' fd,
      ((p.setObj o (some h)).setObj src (some ⟨Connection.movedFrom, none⟩)).Owns o' fd ↔
        (o' = o ∧ p.Owns src fd) ∨ (o' ≠ o ∧ o' ≠ src ∧ p.Owns o' fd) := by
    intro o' fd
    by_cases h1 : o' = src
    · subst h1
      simp [Owns, setObj, Ne.symm hne]
    · by_cases h2 : o' = o
      · subst h2
        simp [Owns, setObj, h1, hsrc]
      · simp [Owns, setObj, h1, h2]
  refine ⟨?_, ?_, ?_, ?_, hI.fresh⟩
  · intro o' h' ho'
    by_cases h1 : o' = src
    · subst h1
      obtain rfl : (⟨Connection.movedFrom, none⟩ : Holder) = h' := by simpa [setObj] using ho'
      exact .empty rfl
    · by_cases h2 : o' = o
      · subst h2
        obtain rfl : h = h' := by simpa [setObj, h1] using ho'
        exact hI.holds src h hsrc
      · exact hI.holds o' h' (by simpa [setObj, h1, h2] using ho')
  · intro o' fd hO
    rcases (howns o' fd).mp hO with ⟨-, hO⟩ | ⟨-, -, hO⟩
    · exact hI.given src fd hO
    · exact hI.given o' fd hO
  · intro o1 o2 fd h1 h2
    rcases (howns o1 fd).mp h1 with ⟨rfl, hO1⟩ | ⟨hno1, hns1, hO1⟩ <;>
      rcases (howns o2 fd).mp h2 with ⟨rfl, hO2⟩ | ⟨hno2, hns2, hO2⟩
    · rfl
    · exact absurd (hI.unique o2 src fd hO2 hO1) hns2
    · exact absurd (hI.unique o1 src fd hO1 hO2) hns1
    · exact hI.unique o1 o2 fd hO1 hO2
  · intro fd hfd hno
    refine hI.settled fd hfd fun o' hO => ?_
    by_cases h1 : o' = src
    · subst h1
      exact hno o ((howns o fd).mpr (.inl ⟨rfl, hO⟩))
    · have h2 : o' ≠ o := by
        rintro rfl
        obtain ⟨c, hc⟩ := hO
        rw [ho] at hc
        cases hc
      exact hno o' ((howns o' fd).mpr (.inr ⟨h2, h1, hO⟩))

/-- A construction on a descriptor not used before. -/
theorem Sound.construct {p : Pool} {o : ObjId} {fd : Fd} (hI : Sound p)
    (ho : p.objs o = none) (h0 : 0 ≤ fd) (hnew : fd ∉ p.given) :
    Sound { p.setObj o (some ⟨.init fd, some fd⟩) with given := p.given ++ [fd] } := by
  obtain ⟨hcount, hended⟩ := hI.fresh fd hnew
  have howns : ∀ o' f,
      Owns { p.setObj o (some ⟨.init fd, some fd⟩) with given := p.given ++ [fd] } o' f ↔
        (o' = o ∧ f = fd) ∨ (o' ≠ o ∧ p.Owns o' f) := by
    intro o' f
    by_cases h2 : o' = o
    · subst h2
      simp [Owns, setObj, eq_comm]
    · simp [Owns, setObj, h2]
  have hgiven : ∀ {o' f}, p.Owns o' f → f ≠ fd := by
    rintro o' f hO rfl
    exact hnew (hI.given o' f hO)
  refine ⟨?_, ?_, ?_, ?_, ?_⟩
  · intro o' h' ho'
    by_cases h2 : o' = o
    · subst h2
      obtain rfl : (⟨.init fd, some fd⟩ : Holder) = h' := by simpa [setObj] using ho'
      exact .live h0 rfl hcount hended
    · exact hI.holds o' h' (by simpa [setObj, h2] using ho')
  · intro o' f hO
    rcases (howns o' f).mp hO with ⟨-, rfl⟩ | ⟨-, hO⟩
    · simp
    · exact List.mem_append_left _ (hI.given o' f hO)
  · intro o1 o2 f h1 h2
    rcases (howns o1 f).mp h1 with ⟨rfl, hf1⟩ | ⟨hno1, hO1⟩ <;>
      rcases (howns o2 f).mp h2 with ⟨rfl, hf2⟩ | ⟨hno2, hO2⟩
    · rfl
    · exact absurd hf1 (hgiven hO2)
    · exact absurd hf2 (hgiven hO1)
    · exact hI.unique o1 o2 f hO1 hO2
  · intro f hf hno
    rcases List.mem_append.mp hf with hf | hf
    · refine hI.settled f hf fun o' hO => ?_
      have h2 : o' ≠ o := by
        rintro rfl
        obtain ⟨c, hc⟩ := hO
        rw [ho] at hc
        cases hc
      exact hno o' ((howns o' f).mpr (.inr ⟨h2, hO⟩))
    · exact absurd ((howns o f).mpr (.inl ⟨rfl, List.mem_singleton.mp hf⟩)) (hno o)
  · intro f hf
    exact hI.fresh f fun hm => hf (List.mem_append_left _ hm)

/-- **Step lemma.** -/
theorem Sound.step {p p' : Pool} {a : PoolAct} (hI : Sound p) (hs : p.step a = some p') :
    Sound p' := by
  cases a with
  | construct o fd =>
      simp only [Pool.step] at hs
      split at hs
      next h =>
        cases hs
        exact hI.construct h.1 h.2.1 h.2.2
      next => cases hs
  | io o call =>
      simp only [Pool.step] at hs
      split at hs
      next h ho =>
        split at hs
        next =>
          cases hs
          obtain ⟨hholds, hended⟩ := (hI.holds o h ho).io call
          exact hI.rewrite (q := { p with
              ended := if call.meetsEnd h.conn then p.ended ++ h.owns.toList else p.ended })
            ho rfl rfl (fun fd hne => ⟨rfl, hended fd hne⟩) rfl hholds
        next => cases hs
      next => cases hs
  | close o =>
      simp only [Pool.step] at hs
      split at hs
      next h ho =>
        cases hs
        obtain ⟨hholds, -, hcount⟩ := (hI.holds o h ho).close
        exact hI.rewrite (q := p.closing h) ho rfl rfl
          (fun fd hne => ⟨hcount fd hne, Iff.rfl⟩) rfl hholds
      next => cases hs
  -- no `close`: the descriptor changes hands
  | moveConstruct o src =>
      simp only [Pool.step] at hs
      split at hs
      next h ho hsrc =>
        cases hs
        exact hI.move o src ho hsrc
      next => cases hs
  | moveAssign o src =>
      simp only [Pool.step] at hs
      split at hs
      next h hsrc ho hosrc =>
        split at hs
        next =>
          cases hs
          exact hI
        next hne =>
          cases hs
          -- `*this` is closed, then takes the source over as a new object would
          have hmove := (hI.destroy ho).move o src (h := hsrc)
            (by simp [setObj]) (by simpa [setObj, closing, Ne.symm hne] using hosrc)
          simpa [setObj] using hmove
      next => cases hs
  | destroy o =>
      simp only [Pool.step] at hs
      split at hs
      next h ho =>
        cases hs
        exact hI.destroy ho
      next => cases hs

theorem sound_empty : Sound empty where
  holds _ _ h := by cases h
  given _ _ h := by cases h.choose_spec
  unique _ _ _ h := by cases h.choose_spec
  settled _ h := absurd h List.not_mem_nil
  fresh _ _ := ⟨rfl, List.not_mem_nil⟩

/-- **Ownership.** Once no object owns a descriptor any more, `::close` has been
    called on it exactly once if and only if no call of its owners came upon the
    end of the stream or an error; in that case it has not been called at all. -/
theorem closed_once_iff {p : Pool} (hrun : Run step anyStep empty p) (fd : Fd)
    (hgiven : fd ∈ p.given) (hno : ∀ o, ¬ p.Owns o fd) :
    (p.closes.count fd = 1 ↔ fd ∉ p.ended) ∧ (fd ∈ p.ended → p.closes.count fd = 0) := by
  have hI : Sound p := hrun.invariant sound_empty fun _ _ _ hs hstep _ => hs.step hstep
  -- settled: closed once, or ended and never closed
  rcases hI.settled fd hgiven hno with ⟨hcount, hended⟩ | ⟨hcount, hended⟩
  · exact ⟨⟨fun _ => hended, fun _ => hcount⟩, fun hm => absurd hm hended⟩
  · refine ⟨⟨fun hc => ?_, fun hm => absurd hended hm⟩, fun _ => hcount⟩
    omega

/-- A connection that is closed before its end of stream is seen. -/
theorem closed_once_iff_read_destroy :
    ∃ p : Pool, Run step anyStep empty p ∧ p.ended = [] ∧ p.closes.count 5 = 1 := by
  have hrun := (Run.refl _ : Run step anyStep empty empty)
    |>.tail (.construct 0 5) rfl trivial
    |>.tail (.io 0 (.read ⟨[.eagain, .data 71 [69, 84]], .eof⟩ 4096)) rfl trivial
    |>.tail (.moveConstruct 1 0) rfl trivial |>.tail (.destroy 0) rfl trivial
    |>.tail (.destroy 1) rfl trivial
  refine ⟨_, hrun, rfl, (closed_once_iff hrun 5 (by decide) ?_).1.mpr (by decide)⟩
  rintro o ⟨c, hc⟩
  by_cases h0 : o = 0 <;> by_cases h1 : o = 1 <;> simp_all [setObj, closing, empty]

/-- A client that disconnects: its descriptor is never closed. -/
theorem not_closed_after_eof :
    ¬ ∀ (p : Pool) (fd : Fd), Run step anyStep empty p → fd ∈ p.given →
      (∀ o, ¬ p.Owns o fd) → p.closes.count fd = 1 := by
  intro honce
  have hrun := (Run.refl _ : Run step anyStep empty empty)
    |>.tail (.construct 0 5) rfl trivial
    |>.tail (.io 0 (.read ⟨[], .eof⟩ 4096)) rfl trivial |>.tail (.destroy 0) rfl trivial
  have hcount := honce _ 5 hrun (by decide) (by
    rintro o ⟨c, hc⟩
    by_cases h0 : o = 0 <;> simp_all [setObj, closing, empty])
  exact absurd hcount (by decide)

end Pool

end CoroutineHttp.Net
