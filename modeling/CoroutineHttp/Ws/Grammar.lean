/-
  CoroutineHttp.Ws.Grammar

  What `recv_frame` accepts: the frames of RFC 6455 with a payload of at most 10 MiB, with
  any reserved bits, and nothing else.

  `CoroutineHttp.Ws.Frames` reads an encoded frame back; here the bytes that were read
  are put together to an encoding again, one inversion lemma for each of the
  continuations `recv_frame` is made of.
-/

import CoroutineHttp.Ws.Frames

namespace CoroutineHttp.Ws

open CoroutineHttp.Library CoroutineHttp.Core CoroutineHttp.Net CoroutineHttp.Http

namespace WebSocket

/-! ## Numbers -/

theorem bigEndian_concat (bs : Bytes) (b : UInt8) :
    bigEndian (bs ++ [b]) = bigEndian bs * 256 + b.toNat := by
  rw [bigEndian, List.foldl_append]
  rfl

theorem bigEndian_lt (bs : Bytes) : bigEndian bs < 256 ^ bs.length := by
  induction bs using List.reverseRecOn with
  | nil => exact Nat.one_pos
  | append_singleton bs b ih =>
      have hb : b.toNat < 256 := b.toNat_lt
      rw [bigEndian_concat, List.length_append, List.length_singleton, Nat.pow_succ]
      omega

/-- Every string of bytes is the one that its number is written as. -/
theorem toBigEndian_bigEndian (bs : Bytes) : toBigEndian bs.length (bigEndian bs) = bs := by
  induction bs using List.reverseRecOn with
  | nil => rfl
  | append_singleton bs b ih =>
      have hb : b.toNat < 256 := b.toNat_lt
      have hdiv : (bigEndian bs * 256 + b.toNat) / 256 = bigEndian bs := by omega
      have hlast : UInt8.ofNat (bigEndian bs * 256 + b.toNat) = b := by
        apply UInt8.toNat_inj.mp
        rw [UInt8.toNat_ofNat']
        omega
      rw [bigEndian_concat, List.length_append, List.length_singleton, toBigEndian, hdiv, ih, hlast]

/-! ## Reserved bits -/

/-- A frame as it may be sent: RFC 6455 wants the reserved bits of the first byte 0 where
    nothing else is agreed on. -/
structure RawFrame extends WireFrame where
  reserved : UInt8
  reserved_bits : reserved &&& 0x8F = 0

/-- The bytes of the frame. -/
def RawFrame.encode (w : RawFrame) : Bytes :=
  (w.reserved ||| w.head) :: w.lengthByte :: (w.form.extended w.payload.length ++ w.body)

theorem or_and_byte (a b m : UInt8) : (a ||| b) &&& m = (a &&& m) ||| (b &&& m) := by
  apply UInt8.toBitVec_inj.mp
  exact BitVec.and_or_distrib_right

/-- The reserved bits are in neither part of the first byte that is looked at. -/
theorem reserved_head {r : UInt8} (h : r &&& 0x8F = 0) (b : UInt8) :
    (r ||| b) &&& 0x80 = b &&& 0x80 ∧ (r ||| b) &&& 0x0F = b &&& 0x0F := by
  have hparts : ∀ r : UInt8, r &&& 0x8F = 0 → r &&& 0x80 = 0 ∧ r &&& 0x0F = 0 :=
    forall_byte (by decide +kernel)
  obtain ⟨hfin, hopcode⟩ := hparts r h
  rw [or_and_byte, or_and_byte, hfin, hopcode, UInt8.zero_or, UInt8.zero_or]
  exact ⟨rfl, rfl⟩

theorem recvBody_congr {b0 b0' : UInt8} (hfin : b0 &&& 0x80 = b0' &&& 0x80)
    (hopcode : b0 &&& 0x0F = b0' &&& 0x0F) (b1 : UInt8) : recvBody b0 b1 = recvBody b0' b1 := by
  unfold recvBody
  rw [hfin, hopcode]

/-- **A frame is read back** whatever its reserved bits are. -/
theorem frameStream_raw (w : RawFrame) (rest : Bytes) :
    frameStream (w.encode ++ rest) = (some w.frame, rest, false) := by
  obtain ⟨hfin, hopcode⟩ := reserved_head w.reserved_bits w.head
  have hplain := frameStream_encode w.toWireFrame rest
  rw [ClientFrame.encode, List.cons_append, List.cons_append, frameStream_cons] at hplain
  rw [RawFrame.encode, List.cons_append, List.cons_append, frameStream_cons,
    recvBody_congr hfin hopcode, hplain]

/-! ## What has been read -/

section Inversion

variable {p rest : Bytes} {f : WsFrame} {atEnd : Bool}

/-- A frame is not had of a `read_exact` that falls short. -/
theorem need_inv {n : Nat} {next : Bytes → Reading (Option WsFrame)}
    (h : (Reading.need n next).onStream p false = (some f, rest, atEnd)) :
    ∃ bs t, bs.length = n ∧ p = bs ++ t ∧ (next bs).onStream t false = (some f, rest, atEnd) := by
  rcases Nat.lt_or_ge p.length n with hlt | hge
  · rw [Reading.need_onStream_short hlt] at h
    cases h
  · rw [Reading.need_onStream hge] at h
    exact ⟨p.take n, p.drop n, List.length_take_of_le hge, (List.take_append_drop n p).symm, h⟩

/-- The length has been read in one of the three forms. -/
theorem recvLength_inv {b1 : UInt8} {next : Nat → Reading (Option WsFrame)}
    (h : (recvLength b1 next).onStream p false = (some f, rest, atEnd)) :
    ∃ (form : LengthForm) (n : Nat) (t : Bytes), b1 &&& 0x7F = form.indicator n ∧
      n < form.bound ∧ p = form.extended n ++ t ∧
      (next n).onStream t false = (some f, rest, atEnd) := by
  unfold recvLength at h
  dsimp only at h
  split at h
  next h126 =>
    obtain ⟨ext, t, hlen, rfl, hnext⟩ := need_inv h
    refine ⟨.bits16, bigEndian ext, t, UInt8.toNat_inj.mp h126, ?_, ?_, hnext⟩
    · show bigEndian ext < 256 ^ 2
      exact hlen ▸ bigEndian_lt ext
    · rw [LengthForm.extended, ← hlen, toBigEndian_bigEndian]
  next h126 =>
    split at h
    next h127 =>
      obtain ⟨ext, t, hlen, rfl, hnext⟩ := need_inv h
      refine ⟨.bits64, bigEndian ext, t, UInt8.toNat_inj.mp h127, ?_, ?_, hnext⟩
      · show bigEndian ext < 256 ^ 8
        exact hlen ▸ bigEndian_lt ext
      · rw [LengthForm.extended, ← hlen, toBigEndian_bigEndian]
    next h127 =>
      -- seven bits, and neither of the two values that announce more
      have hle : (b1 &&& 0x7F).toNat ≤ 127 := by
        rw [UInt8.toNat_and]
        exact Nat.and_le_right
      refine ⟨.bits7, (b1 &&& 0x7F).toNat, p, ?_, ?_, rfl, h⟩
      · rw [LengthForm.indicator, UInt8.ofNat_toNat]
      · show (b1 &&& 0x7F).toNat < 126
        omega

/-- The masking key has been read, if there is one. -/
theorem recvMask_inv {masked : Bool} {next : Bytes → Reading (Option WsFrame)}
    (h : (recvMask masked next).onStream p false = (some f, rest, atEnd)) :
    ∃ (key : Option Bytes) (t : Bytes), key.isSome = masked ∧ (∀ k ∈ key, k.length = 4) ∧
      p = key.getD [] ++ t ∧
      (next (key.getD [0, 0, 0, 0])).onStream t false = (some f, rest, atEnd) := by
  unfold recvMask at h
  split at h
  next hmasked =>
    obtain ⟨k, t, hlen, rfl, hnext⟩ := need_inv h
    refine ⟨some k, t, hmasked.symm, ?_, rfl, hnext⟩
    rintro _ ⟨⟩
    exact hlen
  next hmasked =>
    refine ⟨none, p, ?_, nofun, rfl, h⟩
    exact (Bool.eq_false_of_not_eq_true hmasked).symm

/-- The two header bytes, put together again. -/
theorem head_of_bits (b0 : UInt8) :
    (b0 &&& 0x70) ||| ((if b0 &&& 0x80 != 0 then 0x80 else 0) ||| (b0 &&& 0x0F)) = b0 ∧
      (b0 &&& 0x70) &&& 0x8F = 0 ∧ b0 &&& 0x0F < 16 :=
  forall_byte (P := fun b0 =>
    (b0 &&& 0x70) ||| ((if b0 &&& 0x80 != 0 then 0x80 else 0) ||| (b0 &&& 0x0F)) = b0 ∧
      (b0 &&& 0x70) &&& 0x8F = 0 ∧ b0 &&& 0x0F < 16) (by decide +kernel) b0

theorem lengthByte_of_bits (b1 : UInt8) :
    (if b1 &&& 0x80 != 0 then 0x80 else 0) ||| (b1 &&& 0x7F) = b1 :=
  forall_byte (P := fun b1 => (if b1 &&& 0x80 != 0 then 0x80 else 0) ||| (b1 &&& 0x7F) = b1)
    (by decide +kernel) b1

/-- **A frame that is accepted was sent.** -/
theorem frameStream_inv (h : frameStream p = (some f, rest, atEnd)) :
    ∃ w : RawFrame, w.frame = f ∧ p = w.encode ++ rest := by
  obtain ⟨header, t₀, hheader, rfl, h₀⟩ := need_inv h
  obtain ⟨b0, b1, rfl⟩ := List.length_eq_two.mp hheader
  have hbody : (recvBody b0 b1).onStream t₀ false = (some f, rest, atEnd) := h₀
  unfold recvBody at hbody
  obtain ⟨form, n, t₁, hform, hn, rfl, h₁⟩ := recvLength_inv hbody
  split at h₁
  next => cases h₁
  next hmax =>
    obtain ⟨key, t₂, hkey, hfour, rfl, h₂⟩ := recvMask_inv h₁
    obtain ⟨raw, t₃, hraw, rfl, h₃⟩ := need_inv h₂
    obtain ⟨hhead, hreserved, hopcode⟩ := head_of_bits b0
    cases h₃
    have hlength := lengthByte_of_bits b1
    rw [← hkey] at hlength ⊢
    -- the payload is what the masking key, if there is one, makes of the bytes read
    let payload := if key.isSome then unmask (key.getD [0, 0, 0, 0]) raw else raw
    have hpayload : payload.length = n := by
      show (if key.isSome then unmask (key.getD [0, 0, 0, 0]) raw else raw).length = n
      split
      · rw [unmask_length, hraw]
      · exact hraw
    let w : RawFrame := ⟨⟨⟨b0 &&& 0x80 != 0, b0 &&& 0x0F, payload, key, form, hopcode, hfour,
      hpayload.trans_lt hn⟩, hpayload.trans_le (Nat.not_lt.mp hmax)⟩, b0 &&& 0x70, hreserved⟩
    have hsecond : w.lengthByte = b1 := by
      rw [hform] at hlength
      rw [ClientFrame.lengthByte, ← hlength, hpayload]
    have hbehind : w.body = key.getD [] ++ raw := by
      unfold ClientFrame.body
      cases key with
      | none => rfl
      | some k => exact congrArg (k ++ ·) (unmask_unmask k raw)
    have hfirst : w.reserved ||| w.head = b0 := hhead
    have hextended : w.form.extended w.payload.length = form.extended n := by rw [hpayload]
    refine ⟨w, rfl, ?_⟩
    rw [RawFrame.encode, hfirst, hsecond, hextended, hbehind]
    simp only [List.cons_append, List.nil_append, List.append_assoc]

end Inversion

/-! ## On a connection -/

theorem frameStream_iff {p rest : Bytes} {f : WsFrame} :
    frameStream p = (some f, rest, false) ↔ ∃ w : RawFrame, w.frame = f ∧ p = w.encode ++ rest := by
  constructor
  · exact frameStream_inv
  · rintro ⟨w, rfl, rfl⟩
    exact frameStream_raw w rest

/-- **The frames accepted.** Successive calls of `recv_frame` on an open connection
    return the frames `fs` and leave `rest` if and only if the stream is `rest` behind
    the encodings of `fs`: frames of RFC 6455, whatever their reserved bits, with their
    lengths in any form that holds them, and at most 10 MiB of payload each. -/
theorem accepted_frames (conn : Connection) (hopen : conn.closed = false) (r : RecvScript)
    (fs : List WsFrame) (rest : Bytes) :
    ((recvFrames conn r fs.length).1 = fs.map some ∧
        (recvFrames conn r fs.length).2.1.pending (recvFrames conn r fs.length).2.2 = rest) ↔
      ∃ ws : List RawFrame, ws.map (fun w => w.frame) = fs ∧
        conn.pending r = ws.flatMap RawFrame.encode ++ rest := by
  -- on the frames; a frame that is returned leaves the connection open
  induction fs generalizing conn r with
  | nil =>
      constructor
      · rintro ⟨-, hrest⟩
        exact ⟨[], rfl, hrest⟩
      · rintro ⟨ws, hws, hrest⟩
        rw [List.map_eq_nil_iff.mp hws] at hrest
        exact ⟨rfl, hrest⟩
  | cons f fs ih =>
      obtain ⟨hframe, hleft, hclosed, -⟩ := recvFrame_yields hopen r
      have hcons : recvFrames conn r (f :: fs).length =
          ((recvFrame conn r).1 ::
              (recvFrames (recvFrame conn r).2.1 (recvFrame conn r).2.2 fs.length).1,
            (recvFrames (recvFrame conn r).2.1 (recvFrame conn r).2.2 fs.length).2) := rfl
      rw [hcons, List.map_cons]
      constructor
      · rintro ⟨hfs, hrest⟩
        obtain ⟨hf, hfs⟩ := List.cons.inj hfs
        rcases hstream : frameStream (conn.pending r) with ⟨frame, left, atEnd⟩
        rw [hstream] at hframe hleft hclosed
        obtain rfl : frame = some f := hframe.symm.trans hf
        obtain ⟨rfl, -⟩ := frameStream_some hstream
        obtain ⟨w, hw, hpending⟩ := frameStream_inv hstream
        obtain ⟨ws, hws, hrest'⟩ := (ih _ hclosed _).mp ⟨hfs, hrest⟩
        refine ⟨w :: ws, by rw [List.map_cons, hw, hws], ?_⟩
        rw [hpending, List.flatMap_cons, List.append_assoc, ← hrest']
        exact congrArg (w.encode ++ ·) hleft.symm
      · rintro ⟨ws, hws, hpending⟩
        cases ws with
        | nil => cases hws
        | cons w ws =>
            obtain ⟨rfl, hws'⟩ := List.cons.inj hws
            rw [List.flatMap_cons, List.append_assoc] at hpending
            rw [hpending, frameStream_raw] at hframe hleft hclosed
            obtain ⟨hfs, hrest⟩ := (ih _ hclosed _).mpr ⟨ws, hws', hleft⟩
            exact ⟨by rw [hframe, hfs], hrest⟩

/-- Two frames, the second one masked and with two reserved bits set. -/
theorem accepted_frames_reserved : ∃ ws : List RawFrame,
    ws.map (fun w => w.frame) = [⟨true, 1, false, [104, 105]⟩, ⟨false, 10, true, [99]⟩] ∧
      [0x81, 2, 104, 105, 0x3A, 0xFE, 0, 1, 1, 2, 3, 4, 98, 7] =
        ws.flatMap RawFrame.encode ++ [7] :=
  (accepted_frames (.init 5) rfl ⟨[.data 0x81 [2, 104], .eagain,
      .data 105 [0x3A, 0xFE, 0, 1, 1, 2, 3, 4, 98, 7]], .eof⟩
    [⟨true, 1, false, [104, 105]⟩, ⟨false, 10, true, [99]⟩] [7]).mp (by decide +kernel)

end WebSocket

end CoroutineHttp.Ws
