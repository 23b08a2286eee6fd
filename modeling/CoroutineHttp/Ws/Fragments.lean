/-
  CoroutineHttp.Ws.Fragments

  Text messages in one frame and in several.  The loop of a session takes every TEXT
  frame for a message and passes over CONTINUATION frames, and nobody looks at `fin`:
  of a message in fragments the first one is broadcast, as if it were the whole.
-/

import CoroutineHttp.Ws.Frames
import CoroutineHttp.Ws.Upgrade

namespace CoroutineHttp.Ws

open CoroutineHttp.Library CoroutineHttp.Net CoroutineHttp.Http
open WebSocket (ClientFrame)

/-! ## What the loop broadcasts -/

/-- The loop of a session, with the messages it hands to `room.broadcast`. -/
def sessionLog (nick : Bytes) (views : Nat → RoomView) (i : Nat) (w : Wire) :
    Wire × List Bytes :=
  match _h : w.recvFrame with
  | (none, w') => (w', [])
  | (some frame, w') =>
      if frame.opcode = WsOpcode.CLOSE then (w', [])
      else if frame.opcode = WsOpcode.PING then
        sessionLog nick views i (w'.sendText [])
      else if frame.opcode = WsOpcode.TEXT ∧ frame.payload ≠ [] then
        let msg := chatMessage nick frame.payload
        let out := sessionLog nick views (i + 1) (w'.broadcast (views i) msg)
        (out.1, msg :: out.2)
      else sessionLog nick views i w'
termination_by w.pending.length
decreasing_by
  · exact (Wire.pending_sendText _ _).trans_lt ((Wire.pending_recvFrame _h).2 rfl)
  · exact (Wire.pending_broadcast _ _ _).trans_lt ((Wire.pending_recvFrame _h).2 rfl)
  · exact (Wire.pending_recvFrame _h).2 rfl

section Loop

variable {nick : Bytes} {views : Nat → RoomView} {i : Nat} {w w' : Wire} {frame : WsFrame}

theorem sessionLoop_none (h : w.recvFrame = (none, w')) : sessionLoop nick views i w = w' := by
  rw [sessionLoop]
  split
  next h' => exact congrArg Prod.snd (h'.symm.trans h)
  next h' => cases h'.symm.trans h

theorem sessionLoop_some (h : w.recvFrame = (some frame, w')) :
    sessionLoop nick views i w =
      if frame.opcode = WsOpcode.CLOSE then w'
      else if frame.opcode = WsOpcode.PING then sessionLoop nick views i (w'.sendText [])
      else if frame.opcode = WsOpcode.TEXT ∧ frame.payload ≠ [] then
        sessionLoop nick views (i + 1) (w'.broadcast (views i) (chatMessage nick frame.payload))
      else sessionLoop nick views i w' := by
  rw [sessionLoop]
  split
  next h' => cases h'.symm.trans h
  next h' =>
    cases h'.symm.trans h
    rfl

theorem sessionLog_none (h : w.recvFrame = (none, w')) :
    sessionLog nick views i w = (w', []) := by
  rw [sessionLog]
  split
  next h' => exact congrArg (·, []) (congrArg Prod.snd (h'.symm.trans h))
  next h' => cases h'.symm.trans h

theorem sessionLog_some (h : w.recvFrame = (some frame, w')) :
    sessionLog nick views i w =
      if frame.opcode = WsOpcode.CLOSE then (w', [])
      else if frame.opcode = WsOpcode.PING then sessionLog nick views i (w'.sendText [])
      else if frame.opcode = WsOpcode.TEXT ∧ frame.payload ≠ [] then
        let msg := chatMessage nick frame.payload
        let out := sessionLog nick views (i + 1) (w'.broadcast (views i) msg)
        (out.1, msg :: out.2)
      else sessionLog nick views i w' := by
  rw [sessionLog]
  split
  next h' => cases h'.symm.trans h
  next h' =>
    cases h'.symm.trans h
    rfl

/-- It is the loop of the session. -/
theorem sessionLog_fst (nick : Bytes) (views : Nat → RoomView) (i : Nat) (w : Wire) :
    (sessionLog nick views i w).1 = sessionLoop nick views i w := by
  fun_induction sessionLog nick views i w with
  | case1 i w w' h => rw [sessionLoop_none h]
  | case2 i w frame w' h hclose => rw [sessionLoop_some h, if_pos hclose]
  | case3 i w frame w' h hclose hping ih =>
      rw [sessionLoop_some h, if_neg hclose, if_pos hping, ih]
  | case4 i w frame w' h hclose hping htext msg out ih =>
      rw [sessionLoop_some h, if_neg hclose, if_neg hping, if_pos htext, ← ih]
  | case5 i w frame w' h hclose hping htext ih =>
      rw [sessionLoop_some h, if_neg hclose, if_neg hping, if_neg htext, ih]

end Loop

/-! ## The frames of a client -/

/-- What `recv_frame` makes of a frame: all of it, or nothing if it is too long. -/
theorem frameStream_clientFrame (f : ClientFrame) (rest : Bytes) :
    (f.payload.length ≤ WebSocket.maxPayload ∧
      WebSocket.frameStream (f.encode ++ rest) = (some f.frame, rest, false)) ∨
    (WebSocket.maxPayload < f.payload.length ∧
      (WebSocket.frameStream (f.encode ++ rest)).1 = none) := by
  rcases Nat.lt_or_ge WebSocket.maxPayload f.payload.length with hlarge | hsmall
  · -- only the longest form holds such a length
    have hform : f.form = .bits64 := by
      have hholds := f.form_holds
      cases hf : f.form with
      | bits64 => rfl
      | bits7 | bits16 =>
          rw [hf] at hholds
          exact absurd (hlarge.trans hholds) (by decide)
    have hbits := (WebSocket.lengthByte_bits (b := 127) (by decide) f.key.isSome).2
    have hbound : f.payload.length < 256 ^ 8 := by
      have hholds := f.form_holds
      rwa [hform] at hholds
    have hrefused := @WebSocket.frameStream_oversized f.head _ _ hbits hlarge hbound
      (f.body ++ rest)
    refine .inr ⟨hlarge, ?_⟩
    rw [← hrefused, ClientFrame.encode, ClientFrame.lengthByte, hform, List.cons_append,
      List.cons_append, List.append_assoc]
    rfl
  · exact .inl ⟨hsmall, WebSocket.frameStream_encode ⟨f, hsmall⟩ rest⟩

/-! ## A message on the wire -/

/-- PING or PONG. -/
def WebSocket.ClientFrame.IsControl (f : ClientFrame) : Prop :=
  f.opcode = WsOpcode.PING ∨ f.opcode = WsOpcode.PONG

/-- The frames that carry on a message begun with `fin = 0`. -/
inductive Continues : Bytes → List ClientFrame → Prop where
  | last {f : ClientFrame} (hop : f.opcode = WsOpcode.CONTINUATION) (hfin : f.fin = true) :
      Continues f.payload [f]
  | more {f : ClientFrame} {msg : Bytes} {fs : List ClientFrame}
      (hop : f.opcode = WsOpcode.CONTINUATION) (hfin : f.fin = false) (h : Continues msg fs) :
      Continues (f.payload ++ msg) (f :: fs)
  | control {f : ClientFrame} {msg : Bytes} {fs : List ClientFrame} (hop : f.IsControl)
      (h : Continues msg fs) : Continues msg (f :: fs)

/-- The ways to send a text message: one frame, or several, with control frames in
    between. -/
inductive SendsText : Bytes → List ClientFrame → Prop where
  | whole {f : ClientFrame} (hop : f.opcode = WsOpcode.TEXT) (hfin : f.fin = true) :
      SendsText f.payload [f]
  | fragmented {f : ClientFrame} {msg : Bytes} {fs : List ClientFrame}
      (hop : f.opcode = WsOpcode.TEXT) (hfin : f.fin = false) (h : Continues msg fs) :
      SendsText (f.payload ++ msg) (f :: fs)

/-- No frame after the first carries a byte. -/
def FirstCarriesAll (fs : List ClientFrame) : Prop :=
  ∀ f ∈ fs, f.opcode = WsOpcode.CONTINUATION → f.payload = []

theorem Continues.nil_iff {msg : Bytes} {fs : List ClientFrame} (h : Continues msg fs) :
    msg = [] ↔ FirstCarriesAll fs := by
  induction h with
  | last hop hfin => simp [FirstCarriesAll, hop]
  | more hop hfin h ih =>
      rw [List.append_eq_nil_iff, ih]
      simp [FirstCarriesAll, hop]
  | control hop h ih =>
      rw [ih]
      rcases hop with hop | hop <;> simp [FirstCarriesAll, hop, WsOpcode.CONTINUATION,
        WsOpcode.PING, WsOpcode.PONG]

theorem Continues.opcode {msg : Bytes} {fs : List ClientFrame} (h : Continues msg fs) :
    ∀ f ∈ fs, f.opcode = WsOpcode.CONTINUATION ∨ f.IsControl := by
  induction h with
  | last hop hfin => simp [hop]
  | more hop hfin h ih => exact List.forall_mem_cons.mpr ⟨.inl hop, ih⟩
  | control hop h ih => exact List.forall_mem_cons.mpr ⟨.inr hop, ih⟩

/-! ## What the loop makes of it -/

/-- The connection has failed, or `p` is what it still receives. -/
def Expects (w : Wire) (p : Bytes) : Prop := w.conn.closed = true ∨ w.pending = p

theorem Expects.quiet {w w' : Wire} {p : Bytes} (h : Expects w p) (hquiet : Quiet w w') :
    Expects w' p := by
  rcases hquiet.2 with hclosed | ⟨hclosed, hpending⟩
  · exact .inl hclosed
  · exact h.imp hclosed.trans hpending.trans

/-- The frame that is received is the next one. -/
theorem Expects.recvFrame {w w' : Wire} {frame : WsFrame} {f : ClientFrame} {rest : Bytes}
    (hw : Expects w (f.encode ++ rest)) (h : w.recvFrame = (some frame, w')) :
    frame = f.frame ∧ f.payload.length ≤ WebSocket.maxPayload ∧ Expects w' rest := by
  obtain ⟨-, (⟨-, hnone, -⟩ | ⟨hopen, hstream⟩)⟩ := recvFrame_cases h
  · cases hnone
  · have hpending : w.pending = f.encode ++ rest := hw.resolve_left (by simp [hopen])
    rw [hpending] at hstream
    rcases frameStream_clientFrame f rest with ⟨hsmall, hread⟩ | ⟨-, hrefused⟩
    · rw [hread] at hstream
      simp only [Prod.mk.injEq, Option.some.injEq] at hstream
      exact ⟨hstream.1.symm, hsmall, .inr hstream.2.1.symm⟩
    · rw [hstream] at hrefused
      cases hrefused

/-- At the end of the bytes no frame is received. -/
theorem Expects.recvFrame_ne {w w' : Wire} {frame : WsFrame} (hw : Expects w []) :
    w.recvFrame ≠ (some frame, w') := by
  intro h
  obtain ⟨-, (⟨-, hnone, -⟩ | ⟨hopen, hstream⟩)⟩ := recvFrame_cases h
  · cases hnone
  · have hpending : w.pending = [] := hw.resolve_left (by simp [hopen])
    have hlt := (WebSocket.frameStream_some hstream).2
    rw [hpending] at hlt
    exact absurd hlt (Nat.not_lt_zero _)

section Message

variable {nick : Bytes} {views : Nat → RoomView} {i : Nat} {w : Wire} {fs : List ClientFrame}

/-- CONTINUATION and control frames are broadcast by nobody. -/
theorem sessionLog_silent (hop : ∀ f ∈ fs, f.opcode = WsOpcode.CONTINUATION ∨ f.IsControl)
    (hw : Expects w (fs.flatMap ClientFrame.encode)) : (sessionLog nick views i w).2 = [] := by
  -- on the frames, whatever becomes of the connection meanwhile
  induction fs generalizing w with
  | nil =>
      cases h : w.recvFrame with
      | mk frame w' =>
          cases frame with
          | none => rw [sessionLog_none h]
          | some frame => exact absurd h hw.recvFrame_ne
  | cons f fs ih =>
      obtain ⟨hf, hfs⟩ := List.forall_mem_cons.mp hop
      rw [List.flatMap_cons] at hw
      cases h : w.recvFrame with
      | mk frame w' =>
          cases frame with
          | none => rw [sessionLog_none h]
          | some frame =>
              obtain ⟨rfl, -, hw'⟩ := hw.recvFrame h
              have hopcode : f.frame.opcode = f.opcode := rfl
              rw [sessionLog_some h, hopcode]
              rcases hf with hf | hf | hf
              · simp only [hf]
                exact ih hfs hw'
              · simp only [hf]
                exact ih hfs (hw'.quiet (.write _ _))
              · simp only [hf]
                exact ih hfs hw'

/-- A TEXT frame is broadcast as it is, unless it is empty or too long. -/
theorem sessionLog_text {f : ClientFrame} (htext : f.opcode = WsOpcode.TEXT)
    (hop : ∀ f ∈ fs, f.opcode = WsOpcode.CONTINUATION ∨ f.IsControl)
    (hopen : w.conn.closed = false)
    (hw : w.pending = (f :: fs).flatMap ClientFrame.encode) :
    (sessionLog nick views i w).2
      = if f.payload ≠ [] ∧ f.payload.length ≤ WebSocket.maxPayload then
          [chatMessage nick f.payload]
        else [] := by
  rw [List.flatMap_cons] at hw
  have hclose : WsOpcode.TEXT ≠ WsOpcode.CLOSE := by decide
  have hping : WsOpcode.TEXT ≠ WsOpcode.PING := by decide
  cases h : w.recvFrame with
  | mk frame w' =>
      cases frame with
      | none =>
          -- refused for its length
          obtain ⟨-, (⟨hclosed, -, -⟩ | ⟨-, hstream⟩)⟩ := recvFrame_cases h
          · simp [hopen] at hclosed
          · rw [hw] at hstream
            rcases frameStream_clientFrame f (fs.flatMap ClientFrame.encode) with
              ⟨-, hread⟩ | ⟨hlarge, -⟩
            · rw [hread] at hstream
              cases hstream
            · rw [sessionLog_none h, if_neg fun hsmall => absurd hsmall.2 (Nat.not_le.mpr hlarge)]
      | some frame =>
          obtain ⟨rfl, hsmall, hw'⟩ := Expects.recvFrame (.inr hw) h
          have hopcode : f.frame.opcode = WsOpcode.TEXT := htext
          have hpayload : f.frame.payload = f.payload := rfl
          rw [sessionLog_some h, hopcode, hpayload, if_neg hclose, if_neg hping]
          by_cases hne : f.payload = []
          · rw [if_neg fun hc => hc.2 hne, if_neg fun hc => hc.1 hne]
            exact sessionLog_silent hop hw'
          · rw [if_pos ⟨rfl, hne⟩, if_pos ⟨hne, hsmall⟩]
            exact congrArg (_ :: ·) (sessionLog_silent hop (hw'.quiet (.broadcast _ _ _)))

theorem chatMessage_inj {nick payload payload' : Bytes} :
    chatMessage nick payload = chatMessage nick payload' ↔ payload = payload' := by
  simp [chatMessage]

/-- **Fragmentation.** However a text message is sent on an open connection, the loop
    broadcasts it, once and in full, if and only if the first frame carries all of it and
    is not too long. -/
theorem sessionLog_whole_iff {msg : Bytes} (hmsg : msg ≠ []) (hsends : SendsText msg fs)
    (hopen : w.conn.closed = false) (hw : w.pending = fs.flatMap ClientFrame.encode) :
    (sessionLog nick views i w).2 = [chatMessage nick msg] ↔
      FirstCarriesAll fs ∧ msg.length ≤ WebSocket.maxPayload := by
  have hne : WsOpcode.TEXT ≠ WsOpcode.CONTINUATION := by decide
  cases hsends with
  | @whole f hop hfin =>
      have hall : FirstCarriesAll [f] := by simp [FirstCarriesAll, hop, hne]
      rw [sessionLog_text hop (by simp) hopen hw, and_iff_right hall]
      by_cases hlen : f.payload.length ≤ WebSocket.maxPayload <;> simp [hmsg, hlen]
  | @fragmented f msg' fs hop hfin h =>
      have hall : FirstCarriesAll (f :: fs) ↔ msg' = [] := by
        rw [h.nil_iff]
        simp [FirstCarriesAll, hop, hne]
      rw [sessionLog_text hop h.opcode hopen hw, hall]
      by_cases hnil : msg' = []
      · subst hnil
        rw [List.append_nil] at hmsg ⊢
        by_cases hlen : f.payload.length ≤ WebSocket.maxPayload <;> simp [hmsg, hlen]
      · -- what is broadcast, if anything, is shorter than the message
        refine iff_of_false ?_ fun hc => hnil hc.1
        split
        · intro heq
          have hpayload := chatMessage_inj.mp (List.singleton_inj.mp heq)
          exact hnil (List.self_eq_append_right.mp hpayload)
        · simp

end Message

/-- A message in a masked frame, and behind a PING an empty last fragment. -/
theorem sessionLog_whole_masked :
    (sessionLog (bytes "ann") (fun _ => ⟨1, [], false, false⟩) 0 (.accept 5
        ⟨[.data 0x01 [0x82, 1, 2, 3], .eagain, .data 4 [105, 107, 0x89, 0], .data 0x80 [0]],
          .eof⟩ [])).2
      = [chatMessage (bytes "ann") (bytes "hi")] := by
  let first : ClientFrame := ⟨false, WsOpcode.TEXT, bytes "hi", some [1, 2, 3, 4], .bits7,
    by decide, by simp, by decide⟩
  let ping : ClientFrame := ⟨true, WsOpcode.PING, [], none, .bits7, by decide, by simp, by decide⟩
  let last : ClientFrame := ⟨true, WsOpcode.CONTINUATION, [], none, .bits7, by decide, by simp,
    by decide⟩
  have hsends : SendsText (bytes "hi") [first, ping, last] :=
    .fragmented (f := first) rfl rfl (.control (f := ping) (.inl rfl) (.last (f := last) rfl rfl))
  apply (sessionLog_whole_iff (by decide) hsends rfl (by decide +kernel)).mpr
  exact ⟨by simp [FirstCarriesAll, first, ping, last, WsOpcode.TEXT, WsOpcode.CONTINUATION,
    WsOpcode.PING], by decide⟩

/-- `hello` in two fragments is broadcast as `hel`. -/
theorem fragments_cut :
    ¬ ∀ (nick : Bytes) (views : Nat → RoomView) (i : Nat) (w : Wire) (msg : Bytes)
      (fs : List ClientFrame), msg ≠ [] → SendsText msg fs → w.conn.closed = false →
      w.pending = fs.flatMap ClientFrame.encode →
      (sessionLog nick views i w).2 = [chatMessage nick msg] := by
  intro hall
  let first : ClientFrame := ⟨false, WsOpcode.TEXT, [104, 101, 108], none, .bits7, by decide,
    by simp, by decide⟩
  let second : ClientFrame := ⟨true, WsOpcode.CONTINUATION, [108, 111], none, .bits7, by decide,
    by simp, by decide⟩
  let views : Nat → RoomView := fun _ => ⟨1, [], false, false⟩
  let w : Wire := .accept 5 ⟨[.data 0x01 [3, 104, 101, 108, 0x80, 2, 108, 111]], .eof⟩ []
  have hstream : w.pending = [first, second].flatMap ClientFrame.encode := by decide +kernel
  have hsent : SendsText [104, 101, 108, 108, 111] [first, second] :=
    .fragmented (f := first) rfl rfl (.last (f := second) rfl rfl)
  have hwhole := hall (bytes "ann") views 0 w [104, 101, 108, 108, 111] [first, second]
    (by decide) hsent rfl hstream
  have hcut : (sessionLog (bytes "ann") views 0 w).2
      = [chatMessage (bytes "ann") [104, 101, 108]] :=
    sessionLog_text rfl (by simp [second]) rfl hstream
  rw [hcut, List.singleton_inj, chatMessage_inj] at hwhole
  exact absurd hwhole (by decide)

end CoroutineHttp.Ws
