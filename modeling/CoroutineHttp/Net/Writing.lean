/-
  CoroutineHttp.Net.Writing

  What one call of `write` has sent when it returns, for all answers of the kernel.
  `writeLoop` is the loop with the offset of the source; `sendLoop` is the same on
  the part that is left (`sendLoop_drop`), and what it sends is a prefix of that part.
-/

import CoroutineHttp.Net.Connection

namespace CoroutineHttp.Net

open CoroutineHttp.Library CoroutineHttp.Core

namespace Connection

/-! ## The offset -/

/-- The bytes `send(fd_, ptr + sent, total - sent, ...)` is offered. -/
def offered (data : Bytes) (sent : Nat) : Bytes := (data.drop sent).take (data.length - sent)

/-- The loop of `write` at offset `sent`. -/
def writeLoop (data : Bytes) (sent : Nat) : SendScript → Sent
  | [] => ⟨data.length, false, [], offered data sent⟩
  | event :: script =>
      if sent < data.length then
        match event with
        | .accept extra =>
            let n := min (extra + 1) (data.length - sent)
            let s := writeLoop data (sent + n) script
            { s with accepted := (offered data sent).take n ++ s.accepted }
        | .eagain => writeLoop data sent script
        | .closedMeanwhile => ⟨sent, true, script, []⟩
        | .fail => ⟨if 0 < sent then sent else -1, true, script, []⟩
      else ⟨sent, false, event :: script, []⟩

theorem offered_eq (data : Bytes) (sent : Nat) : offered data sent = data.drop sent := by
  rw [offered, List.take_of_length_le]
  rw [List.length_drop]

/-- Offset and length stay in step: the loop works on what is left of the data. -/
theorem sendLoop_drop (data : Bytes) (script : SendScript) {sent : Nat}
    (hsent : sent ≤ data.length) :
    sendLoop (data.drop sent) sent script = writeLoop data sent script := by
  induction script generalizing sent with
  | nil =>
      rw [sendLoop, writeLoop, offered_eq, List.length_drop]
      congr 1
      omega
  | cons event script ih =>
      have hempty : data.drop sent = [] ↔ ¬ sent < data.length := by
        rw [List.drop_eq_nil_iff, not_lt]
      by_cases hlt : sent < data.length
      · have hne : ¬ data.drop sent = [] := by rwa [hempty, not_not]
        cases event with
        | accept extra =>
            have hle : sent + min (extra + 1) (data.length - sent) ≤ data.length := by omega
            simp only [sendLoop, writeLoop, if_neg hne, if_pos hlt, List.length_drop, offered_eq,
              List.drop_drop, ih hle]
        | eagain =>
            simp only [sendLoop, writeLoop, if_neg hne, if_pos hlt]
            exact ih hsent
        | closedMeanwhile | fail => simp only [sendLoop, writeLoop, if_neg hne, if_pos hlt]
      · have hnil := hempty.mpr hlt
        cases event <;> simp only [sendLoop, writeLoop, if_pos hnil, if_neg hlt]

/-! ## Any answers -/

/-- The loop accepts a prefix, all of it unless it fails. -/
theorem sendLoop_accepted (rest : Bytes) (sent : Nat) (script : SendScript) :
    (sendLoop rest sent script).accepted <+: rest ∧
      (failsBefore rest.length script = false → (sendLoop rest sent script).accepted = rest) := by
  induction script generalizing rest sent with
  | nil => exact ⟨List.prefix_rfl, fun _ => rfl⟩
  | cons event script ih =>
      by_cases hrest : rest = []
      · subst hrest
        simp [sendLoop]
      have hlen : ¬ rest.length = 0 := by simpa using hrest
      simp only [sendLoop, failsBefore, if_neg hrest, if_neg hlen]
      cases event with
      | accept extra =>
          obtain ⟨hpre, hall⟩ := ih (rest.drop (min (extra + 1) rest.length))
            (sent + min (extra + 1) rest.length)
          rw [List.length_drop] at hall
          have hsplit := List.take_append_drop (min (extra + 1) rest.length) rest
          refine ⟨?_, fun h => ?_⟩
          · conv_rhs => rw [← hsplit]
            exact List.prefix_append_right_inj _ |>.mpr hpre
          · simp only
            rw [hall h, hsplit]
      | eagain => exact ih rest sent
      | closedMeanwhile => exact ⟨List.nil_prefix, fun h => by cases h⟩
      | fail => exact ⟨List.nil_prefix, fun h => by cases h⟩

/-- The answers still to come are the last ones. -/
theorem sendLoop_suffix (rest : Bytes) (sent : Nat) (script : SendScript) :
    (sendLoop rest sent script).script <:+ script := by
  induction script generalizing rest sent with
  | nil => exact List.suffix_rfl
  | cons event script ih =>
      simp only [sendLoop]
      split
      · exact List.suffix_rfl
      · cases event with
        | accept extra => exact (ih _ _).trans (List.suffix_cons _ _)
        | eagain => exact (ih _ _).trans (List.suffix_cons _ _)
        | closedMeanwhile => exact List.suffix_cons _ _
        | fail => exact List.suffix_cons _ _

/-- The loop fails by an answer that is no success. -/
theorem exists_of_failsBefore {n : Nat} {script : SendScript} (h : failsBefore n script = true) :
    ∃ e ∈ script, e.succeeds = false := by
  induction script generalizing n with
  | nil => cases h
  | cons event script ih =>
      simp only [failsBefore] at h
      split at h
      · cases h
      · cases event with
        | accept extra => exact (ih h).imp fun e he => ⟨List.mem_cons_of_mem _ he.1, he.2⟩
        | eagain => exact (ih h).imp fun e he => ⟨List.mem_cons_of_mem _ he.1, he.2⟩
        | closedMeanwhile => exact ⟨_, List.mem_cons_self, rfl⟩
        | fail => exact ⟨_, List.mem_cons_self, rfl⟩

/-! ## The prefix that is sent -/

/-- With nobody else on the connection, what the loop has sent is a prefix, and its
    result says how long it is. -/
theorem sendLoop_prefix (rest : Bytes) (sent : Nat) {script : SendScript}
    (halone : .closedMeanwhile ∉ script) :
    ∃ m, (sendLoop rest sent script).accepted = rest.take m ∧
      (failsBefore rest.length script = false → m = rest.length ∧
        (sendLoop rest sent script).ret = (sent + m : Nat)) ∧
      (failsBefore rest.length script = true → m < rest.length ∧
        (sendLoop rest sent script).ret
          = if 0 < sent + m then ((sent + m : Nat) : Int) else -1) := by
  -- on the answers, at every offset; a part accepted stands before the rest
  induction script generalizing rest sent with
  | nil => exact ⟨rest.length, by simp [sendLoop], by simp [sendLoop], by simp [failsBefore]⟩
  | cons event script ih =>
      have halone' : .closedMeanwhile ∉ script := fun hm => halone (List.mem_cons_of_mem _ hm)
      by_cases hrest : rest = []
      · subst hrest
        exact ⟨0, by simp [sendLoop], by simp [sendLoop], by simp [failsBefore]⟩
      have hpos : 0 < rest.length := List.length_pos_iff.mpr hrest
      cases event with
      | accept extra =>
          obtain ⟨m, haccepted, hall, hfail⟩ := ih (rest.drop (min (extra + 1) rest.length))
            (sent + min (extra + 1) rest.length) halone'
          rw [List.length_drop] at hall hfail
          simp only [sendLoop, failsBefore, if_neg hrest, if_neg hpos.ne']
          refine ⟨min (extra + 1) rest.length + m, ?_, fun h => ?_, fun h => ?_⟩
          · rw [haccepted, List.take_add]
          · obtain ⟨hm, hret⟩ := hall h
            exact ⟨by omega, by rw [hret, Nat.add_assoc]⟩
          · obtain ⟨hm, hret⟩ := hfail h
            exact ⟨by omega, by rw [hret, Nat.add_assoc]⟩
      | eagain =>
          simp only [sendLoop, failsBefore, if_neg hrest, if_neg hpos.ne']
          exact ih rest sent halone'
      | closedMeanwhile => exact absurd List.mem_cons_self halone
      | fail =>
          refine ⟨0, by simp [sendLoop, hrest], by simp [failsBefore, hpos.ne'], fun _ => ?_⟩
          exact ⟨hpos, by simp [sendLoop, hrest]⟩

/-- A closed connection is not written to. -/
theorem write_of_closed {c : Connection} (h : c.closed = true) (script : SendScript)
    (data : Bytes) : c.write script data = (0, c, script, []) := by
  simp [write, h]

/-- **`write` sends a prefix and says how long it is.** With nobody else on the
    connection: without an error that is all of the data; after one the connection is
    closed, and no later call sends anything. -/
theorem write_prefix {c : Connection} (hopen : c.closed = false) {script : SendScript}
    (halone : .closedMeanwhile ∉ script) (data : Bytes) :
    ∃ m, m ≤ data.length ∧ (c.write script data).2.2.2 = data.take m ∧
      (failsBefore data.length script = false → m = data.length ∧
        (c.write script data).1 = m ∧ (c.write script data).2.1 = c) ∧
      (failsBefore data.length script = true →
        ((c.write script data).1 = if 0 < m then (m : Int) else -1) ∧
        (c.write script data).2.1.closed = true ∧
        ∀ script' data', (c.write script data).2.1.write script' data'
          = (0, (c.write script data).2.1, script', [])) := by
  by_cases hempty : data = []
  · subst hempty
    have hnothing : c.write script [] = (0, c, script, []) := by simp [write]
    have hnever : failsBefore ([] : Bytes).length script = false := by
      cases script <;> simp [failsBefore]
    rw [hnothing]
    refine ⟨0, le_rfl, rfl, fun _ => ⟨rfl, rfl, rfl⟩, fun h => ?_⟩
    rw [hnever] at h
    cases h
  have hgo : ¬ (c.closed || data.isEmpty) = true := by simp [hopen, hempty]
  have hwrite : c.write script data = ((sendLoop data 0 script).ret,
      { c with closed := (sendLoop data 0 script).closed }, (sendLoop data 0 script).script,
      (sendLoop data 0 script).accepted) := by rw [write, if_neg hgo]
  have hclosed := sendLoop_closed data 0 script
  obtain ⟨m, haccepted, hall, hfail⟩ := sendLoop_prefix data 0 halone
  rw [Nat.zero_add] at hall hfail
  rw [hwrite]
  refine ⟨m, ?_, haccepted, fun h => ?_, fun h => ?_⟩
  · cases hends : failsBefore data.length script with
    | false => exact (hall hends).1.le
    | true => exact (hfail hends).1.le
  · obtain ⟨hm, hret⟩ := hall h
    rw [h] at hclosed
    exact ⟨hm, hret, by rw [hclosed, ← hopen]⟩
  · rw [h] at hclosed
    exact ⟨(hfail h).2, hclosed, fun script' data' => write_of_closed hclosed script' data'⟩

/-- Two bytes accepted, a wait, and then an error. -/
theorem write_prefix_reset :
    let script : SendScript := [.accept 1, .eagain, .fail]
    let out := (init 5).write script [71, 69, 84, 32]
    ∃ m, m ≤ 4 ∧ out.2.2.2 = [71, 69, 84, 32].take m ∧
      (failsBefore 4 script = false → m = 4 ∧ out.1 = m ∧ out.2.1 = init 5) ∧
      (failsBefore 4 script = true → (out.1 = if 0 < m then (m : Int) else -1) ∧
        out.2.1.closed = true ∧
        ∀ script' data', out.2.1.write script' data' = (0, out.2.1, script', [])) :=
  write_prefix rfl (by decide) [71, 69, 84, 32]

end Connection

end CoroutineHttp.Net
