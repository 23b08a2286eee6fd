/-
  CoroutineHttp.Ws.Announcements

  The system messages of the `/ws` handler, for sessions on any schedulers: each call of
  `join`, `leave`, `size`, `nicks_json` and `broadcast` is one step, and the steps of
  the sessions fall in any order.

  A message takes its count and its list from the room in two calls, in the order the
  compiler chooses for the operands of `+`, and is broadcast in a third.  `Fresh` is the
  condition on these calls under which the announced roster is that of the room.
-/

import CoroutineHttp.Library.Runs
import CoroutineHttp.Ws.ChatRoom

namespace CoroutineHttp.Ws

open CoroutineHttp.Library CoroutineHttp.Core

/-- The nicks of the members, in the order of the room. -/
def ChatRoom.nicks (room : ChatRoom) : List Bytes := room.clients.map Client.nick

/-- What `nicks_json` makes of the nicks. -/
def nicksText (users : List Bytes) : Bytes :=
  bytes "[" ++ [44].intercalate (users.map fun nick => bytes "\"" ++ nick ++ bytes "\"") ++
    bytes "]"

theorem ChatRoom.nicksJson_eq (room : ChatRoom) : room.nicksJson = nicksText room.nicks := by
  rw [nicksJson, nicksText, nicks, List.map_map]
  rfl

theorem ChatRoom.length_nicks (room : ChatRoom) : room.nicks.length = room.size :=
  List.length_map ..

/-- What a system message is about. -/
inductive Change where
  | joined
  | left
deriving DecidableEq, Repr

/-- A system message: whose it is, and what was read of the room. -/
structure Announcement where
  change : Change
  nick : Bytes
  online : Nat
  users : List Bytes
deriving DecidableEq, Repr

/-- The text that is broadcast. -/
def Announcement.text (a : Announcement) : Bytes :=
  match a.change with
  | .joined => joinMessage a.nick a.online (nicksText a.users)
  | .left => leaveMessage a.nick a.online (nicksText a.users)

/-- Where a session is in the handler. -/
inductive Place where
  /-- Before `join`, or behind the broadcast that follows `leave`. -/
  | outside
  /-- Before the `room.size()` of the line logged. -/
  | log (change : Change)
  /-- The message is put together of what has been read. -/
  | announce (change : Change) (online : Option Nat) (users : Option (List Bytes))
  /-- In the loop over the frames. -/
  | inside
deriving DecidableEq, Repr

/-- Between `join` or `leave` and the broadcast that announces it. -/
def Place.announcing : Place → Bool
  | .log _ | .announce _ _ _ => true
  | .outside | .inside => false

/-- Behind the announcement. -/
def Change.next : Change → Place
  | .joined => .inside
  | .left => .outside

/-- The room, the sessions and the system messages broadcast, the last one first. -/
structure Roster where
  room : ChatRoom
  nick : CoroPtr → Bytes
  place : CoroPtr → Place
  announced : List Announcement

/-- The calls of the session `p`. -/
inductive RosterAct where
  | join (p : CoroPtr) (nick : Bytes)
  | logged (p : CoroPtr)
  | size (p : CoroPtr)
  | nicks (p : CoroPtr)
  | broadcast (p : CoroPtr)
  /-- A text frame is passed on. -/
  | say (p : CoroPtr) (payload : Bytes)
  | leave (p : CoroPtr)
deriving DecidableEq, Repr

namespace Roster

def init : Roster := ⟨⟨[], none⟩, fun _ => [], fun _ => .outside, []⟩

/-- `p` goes on. -/
def goto (r : Roster) (p : CoroPtr) (place : Place) : Roster :=
  { r with place := Function.update r.place p place }

theorem place_goto_self (r : Roster) (p : CoroPtr) (place : Place) :
    (r.goto p place).place p = place := Function.update_self ..

theorem place_goto_other (r : Roster) {p q : CoroPtr} (place : Place) (h : q ≠ p) :
    (r.goto p place).place q = r.place q := Function.update_of_ne h ..

/-- The step function. -/
def step (r : Roster) : RosterAct → Option Roster
  | .join p nick =>
      match r.place p with
      | .outside =>
          some ({ r with room := r.room.join p nick, nick := Function.update r.nick p nick }.goto p
            (.log .joined))
      | _ => none
  | .logged p =>
      match r.place p with
      | .log change => some (r.goto p (.announce change none none))
      | _ => none
  | .size p =>
      match r.place p with
      | .announce change none users => some (r.goto p (.announce change (some r.room.size) users))
      | _ => none
  | .nicks p =>
      match r.place p with
      | .announce change online none =>
          some (r.goto p (.announce change online (some r.room.nicks)))
      | _ => none
  | .broadcast p =>
      match r.place p with
      | .announce change (some online) (some users) =>
          some ({ r with announced := ⟨change, r.nick p, online, users⟩ :: r.announced }.goto p
            change.next)
      | _ => none
  | .say p _ =>
      match r.place p with
      | .inside => some r
      | _ => none
  | .leave p =>
      match r.place p with
      | .inside => some ({ r with room := r.room.leave p }.goto p (.log .left))
      | _ => none

/-- No session is between `join` or `leave` and its announcement. -/
def Quiet (r : Roster) : Prop := ∀ p, (r.place p).announcing = false

/-- The condition on a step: the second of the two reads finds as many members as the
    first, and a list that is out of date is not the last one to be broadcast. -/
def Fresh (r : Roster) : RosterAct → Roster → Prop
  | .size p, _ => ∀ change users,
      r.place p = .announce change none (some users) → users.length = r.room.size
  | .nicks p, _ => ∀ change online,
      r.place p = .announce change (some online) none → r.room.size = online
  | .broadcast p, _ => ∀ change online users,
      r.place p = .announce change (some online) (some users) →
        users = r.room.nicks ∨ ∃ q, q ≠ p ∧ (r.place q).announcing = true
  | _, _ => True

/-- The count agrees with the list in every announcement, and when all is quiet the last
    one lists the members. -/
structure Consistent (r : Roster) : Prop where
  counts : ∀ a ∈ r.announced, a.online = a.users.length
  lists : r.Quiet → ∀ a ∈ r.announced.head?, a.users = r.room.nicks

/-- The invariant. -/
structure Kept (r : Roster) : Prop where
  read : ∀ p change online users,
    r.place p = .announce change (some online) (some users) → online = users.length
  counts : ∀ a ∈ r.announced, a.online = a.users.length
  lists : (∃ p, (r.place p).announcing = true) ∨
    ∀ a ∈ r.announced.head?, a.users = r.room.nicks

section Kept

variable {r r' : Roster}

theorem kept_init : Kept init :=
  ⟨nofun, nofun, .inr nofun⟩

/-- `p` goes on within its announcement, and nothing is broadcast. -/
theorem Kept.announce (hI : Kept r) {p : CoroPtr} {place : Place}
    (hplace : r'.place = Function.update r.place p place)
    (hannounced : r'.announced = r.announced) (hbusy : place.announcing = true)
    (hread : ∀ change online users,
      place = .announce change (some online) (some users) → online = users.length) : Kept r' := by
  refine ⟨fun q change online users hq => ?_, hannounced ▸ hI.counts, .inl ⟨p, ?_⟩⟩
  · by_cases hqp : q = p
    · rw [hplace, hqp, Function.update_self] at hq
      exact hread change online users hq
    · rw [hplace, Function.update_of_ne hqp] at hq
      exact hI.read q change online users hq
  · rw [hplace, Function.update_self]
    exact hbusy

/-- `p` broadcasts its announcement. -/
theorem Kept.broadcast (hI : Kept r) {p : CoroPtr} {change : Change} {online : Nat}
    {users : List Bytes} (hp : r.place p = .announce change (some online) (some users))
    (hfresh : users = r.room.nicks ∨ ∃ q, q ≠ p ∧ (r.place q).announcing = true) :
    Kept ({ r with announced := ⟨change, r.nick p, online, users⟩ :: r.announced }.goto p
      change.next) := by
  refine ⟨fun q change' online' users' hq => ?_, fun a ha => ?_, ?_⟩
  -- `p` has left its announcement, and the other places are as before
  · by_cases hqp : q = p
    · rw [hqp, place_goto_self] at hq
      cases change <;> cases hq
    · rw [place_goto_other _ _ hqp] at hq
      exact hI.read q change' online' users' hq
  · rcases List.mem_cons.mp ha with rfl | ha
    · exact hI.read p change online users hp
    · exact hI.counts a ha
  -- a list out of date is the last one broadcast only until `q` announces itself
  · rcases hfresh with hcurrent | ⟨q, hqp, hbusy⟩
    · refine .inr fun a ha => ?_
      cases ha
      exact hcurrent
    · refine .inl ⟨q, ?_⟩
      rw [place_goto_other _ _ hqp]
      exact hbusy

/-- **Step lemma.** -/
theorem Kept.step (hI : Kept r) {a : RosterAct} (hs : r.step a = some r') (hok : r.Fresh a r') :
    Kept r' := by
  cases a with
  | join p nick =>
      simp only [Roster.step] at hs
      split at hs
      · cases hs
        exact hI.announce rfl rfl rfl nofun
      · cases hs
  | logged p =>
      simp only [Roster.step] at hs
      split at hs
      · cases hs
        exact hI.announce rfl rfl rfl nofun
      · cases hs
  | size p =>
      simp only [Roster.step] at hs
      split at hs
      next change users hp =>
        cases hs
        refine hI.announce rfl rfl rfl fun change' online' users' h => ?_
        cases h
        exact (hok change users' hp).symm
      next => cases hs
  | nicks p =>
      simp only [Roster.step] at hs
      split at hs
      next change online hp =>
        cases hs
        refine hI.announce rfl rfl rfl fun change' online' users' h => ?_
        cases h
        rw [ChatRoom.length_nicks]
        exact (hok change online' hp).symm
      next => cases hs
  | broadcast p =>
      simp only [Roster.step] at hs
      split at hs
      next change online users hp =>
        cases hs
        exact hI.broadcast hp (hok change online users hp)
      next => cases hs
  | say p payload =>
      simp only [Roster.step] at hs
      split at hs
      · cases hs
        exact hI
      · cases hs
  | leave p =>
      simp only [Roster.step] at hs
      split at hs
      · cases hs
        exact hI.announce rfl rfl rfl nofun
      · cases hs

theorem Kept.consistent (hI : Kept r) : Consistent r := by
  refine ⟨hI.counts, fun hquiet => ?_⟩
  rcases hI.lists with ⟨p, hbusy⟩ | hlists
  · rw [hquiet p] at hbusy
    cases hbusy
  · exact hlists

end Kept

/-- **The roster.** In every interleaving of the calls of any number of sessions in which
    the two reads of a message agree and no list out of date is broadcast last, the
    announced roster is consistent. -/
theorem announcements_consistent {r : Roster} (hrun : Run step Fresh init r) : Consistent r :=
  (hrun.invariant kept_init fun _ _ _ hI hs hok => hI.step hs hok).consistent

/-- Two sessions join, and the first one to join is the second to announce itself. -/
theorem announcements_consistent_two :
    ∃ r, Run step Fresh init r ∧ Consistent r ∧
      r.announced.map Announcement.users = [[[97], [98]], [[97], [98]]] := by
  have h0 : Run step Fresh init init := .refl init
  have h1 := (h0.tail (.join 0 [97]) rfl (by trivial)).tail (.logged 0) rfl (by trivial)
  have h2 := (h1.tail (.join 1 [98]) rfl (by trivial)).tail (.logged 1) rfl (by trivial)
  have h3 := h2.tail (.size 1) rfl (by rintro _ _ ⟨⟩)
  have h4 := h3.tail (.nicks 1) rfl (by rintro _ _ ⟨⟩; rfl)
  have h5 := h4.tail (.broadcast 1) rfl (by rintro _ _ _ ⟨⟩; exact .inl rfl)
  have h6 := h5.tail (.nicks 0) rfl (by rintro _ _ ⟨⟩)
  have h7 := h6.tail (.size 0) rfl (by rintro _ _ ⟨⟩; rfl)
  have h8 := h7.tail (.broadcast 0) rfl (by rintro _ _ _ ⟨⟩; exact .inl rfl)
  exact ⟨_, h8, announcements_consistent h8, rfl⟩

/-! ### The condition -/

/-- A broadcast against the condition leaves the last roster announced out of date. -/
theorem Consistent.fresh {r r' : Roster} {p : CoroPtr} (h : Consistent r')
    (hs : r.step (.broadcast p) = some r') : r.Fresh (.broadcast p) r' := by
  intro change online users hp
  by_contra hnot
  obtain ⟨hstale, halone⟩ := not_or.mp hnot
  simp only [Roster.step, hp] at hs
  cases hs
  -- with nobody else announcing, the broadcast leaves all quiet
  refine hstale (h.lists (fun q => ?_) _ rfl)
  by_cases hqp : q = p
  · rw [hqp, place_goto_self]
    cases change <;> rfl
  · rw [place_goto_other _ _ hqp]
    by_contra hbusy
    exact halone ⟨q, hqp, Bool.eq_true_of_not_eq_false hbusy⟩

/-- The first session counts the members before the second one joins, and lists them
    after. -/
theorem count_disagrees : ¬ ∀ r, Run step anyStep init r → Consistent r := by
  intro hconsistent
  obtain ⟨r, hrun, hbad⟩ := exists_run_of_exec step anyStep
    (fun r => decide (r.announced = [⟨.joined, [97], 1, [[97], [98]]⟩])) init
    [.join 0 [97], .logged 0, .size 0, .join 1 [98], .nicks 0, .broadcast 0] (by decide +kernel)
  have hcounts := (hconsistent r hrun).counts
  rw [of_decide_eq_true hbad] at hcounts
  exact absurd (hcounts _ List.mem_cons_self) (by decide)

end Roster

end CoroutineHttp.Ws
