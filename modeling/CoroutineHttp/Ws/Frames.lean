/-
  CoroutineHttp.Ws.Frames

  `recv_frame` against the frame format of RFC 6455: it inverts every encoding of a
  frame, those of `send_frame` among them, and refuses what is cut short or announces
  too much.
-/

import CoroutineHttp.Ws.WebSocket

namespace CoroutineHttp.Ws

open CoroutineHttp.Library CoroutineHttp.Core CoroutineHttp.Net CoroutineHttp.Http

namespace WebSocket

/-! ## Numbers -/

/-- The last `k` bytes of a number, the most significant first. -/
def toBigEndian : Nat → Nat → Bytes
  | 0, _ => []
  | k + 1, n => toBigEndian k (n / 256) ++ [UInt8.ofNat n]

theorem toBigEndian_length (k n : Nat) : (toBigEndian k n).length = k := by
  induction k generalizing n with
  | zero => rfl
  | succ k ih => rw [toBigEndian, List.length_append, ih, List.length_singleton]

theorem bigEndian_toBigEndian {k n : Nat} (h : n < 256 ^ k) :
    bigEndian (toBigEndian k n) = n := by
  -- on the bytes; the last one is the remainder
  induction k generalizing n with
  | zero =>
      rw [Nat.pow_zero, Nat.lt_one_iff] at h
      rw [h]
      rfl
  | succ k ih =>
      have hdiv : n / 256 < 256 ^ k := by
        rw [Nat.pow_succ] at h
        exact Nat.div_lt_of_lt_mul (by omega)
      have hlast : (UInt8.ofNat n).toNat = n % 256 := UInt8.toNat_ofNat'
      have hpre := ih hdiv
      unfold bigEndian at hpre ⊢
      rw [toBigEndian, List.foldl_append, List.foldl_cons, List.foldl_nil, hpre, hlast]
      omega

/-! ## Masking -/

theorem unmask_length (mask payload : Bytes) : (unmask mask payload).length = payload.length := by
  simp [unmask]

/-- Masking twice with one key gives the payload back. -/
theorem unmask_unmask (mask payload : Bytes) : unmask mask (unmask mask payload) = payload := by
  apply List.ext_getElem
  · rw [unmask_length, unmask_length]
  · intro i _ _
    simp only [unmask, List.getElem_mapIdx, UInt8.xor_assoc, UInt8.xor_self, UInt8.xor_zero]

/-! ## The frames of RFC 6455 -/

/-- The three ways to write the length of a payload. -/
inductive LengthForm where
  | bits7
  | bits16
  | bits64
deriving DecidableEq, Repr

namespace LengthForm

/-- The lengths a form can hold: 126 and 127 announce the longer forms. -/
def bound : LengthForm → Nat
  | bits7 => 126
  | bits16 => 256 ^ 2
  | bits64 => 256 ^ 8

/-- The seven bits in the second byte. -/
def indicator (n : Nat) : LengthForm → UInt8
  | bits7 => UInt8.ofNat n
  | bits16 => 126
  | bits64 => 127

/-- The bytes that follow it. -/
def extended (n : Nat) : LengthForm → Bytes
  | bits7 => []
  | bits16 => toBigEndian 2 n
  | bits64 => toBigEndian 8 n

end LengthForm

/-- A frame as a client may send it: its content, the masking key if it has one, and how
    the length is written. -/
structure ClientFrame where
  fin : Bool
  opcode : UInt8
  payload : Bytes
  key : Option Bytes
  form : LengthForm
  opcode_lt : opcode < 16
  key_length : ∀ k ∈ key, k.length = 4
  form_holds : payload.length < form.bound

/-- A frame that `recv_frame` does not refuse for its length. -/
structure WireFrame extends ClientFrame where
  payload_le : payload.length ≤ maxPayload

namespace ClientFrame

variable (w : ClientFrame)

/-- What the receiver is to get. -/
def frame : WsFrame := ⟨w.fin, w.opcode, w.key.isSome, w.payload⟩

/-- The first byte. -/
def head : UInt8 := (if w.fin then 0x80 else 0) ||| w.opcode

/-- The second byte: the mask bit and the length or its indicator. -/
def lengthByte : UInt8 :=
  (if w.key.isSome then 0x80 else 0) ||| w.form.indicator w.payload.length

/-- The payload, behind the masking key if there is one. -/
def body : Bytes :=
  match w.key with
  | none => w.payload
  | some k => k ++ unmask k w.payload

/-- The bytes of the frame. -/
def encode : Bytes :=
  w.head :: w.lengthByte :: (w.form.extended w.payload.length ++ w.body)

end ClientFrame

/-! ### The two header bytes -/

theorem head_bits {b : UInt8} (h : b < 16) (fin : Bool) :
    (((if fin then 0x80 else 0) ||| b) &&& 0x80 != 0) = fin ∧
      ((if fin then 0x80 else 0) ||| b) &&& 0x0F = b := by
  have hall : ∀ fin : Bool, ∀ b : UInt8, b < 16 →
      (((if fin then 0x80 else 0) ||| b) &&& 0x80 != 0) = fin ∧
        ((if fin then 0x80 else 0) ||| b) &&& 0x0F = b := fun fin =>
    forall_byte (by cases fin <;> decide +kernel)
  exact hall fin b h

theorem lengthByte_bits {b : UInt8} (h : b < 128) (masked : Bool) :
    (((if masked then 0x80 else 0) ||| b) &&& 0x80 != 0) = masked ∧
      ((if masked then 0x80 else 0) ||| b) &&& 0x7F = b := by
  have hall : ∀ masked : Bool, ∀ b : UInt8, b < 128 →
      (((if masked then 0x80 else 0) ||| b) &&& 0x80 != 0) = masked ∧
        ((if masked then 0x80 else 0) ||| b) &&& 0x7F = b := fun masked =>
    forall_byte (by cases masked <;> decide +kernel)
  exact hall masked b h

theorem LengthForm.indicator_lt {form : LengthForm} {n : Nat} (h : n < form.bound) :
    form.indicator n < 128 := by
  cases form with
  | bits7 =>
      have hn : n < 126 := h
      rw [LengthForm.indicator, UInt8.lt_iff_toNat_lt,
        UInt8.toNat_ofNat_of_lt' (Nat.lt_trans hn (by decide))]
      exact Nat.lt_trans hn (by decide)
  | bits16 => exact (by decide : (126 : UInt8) < 128)
  | bits64 => exact (by decide : (127 : UInt8) < 128)

/-! ## Reading a frame back -/

section Reading

variable {b0 b1 : UInt8} {n : Nat} {form : LengthForm}

/-- The length is read in whatever form it is written. -/
theorem recvLength_extended (hb1 : b1 &&& 0x7F = form.indicator n) (hn : n < form.bound)
    (rest : Bytes) (next : Nat → Reading (Option WsFrame)) :
    (recvLength b1 next).onStream (form.extended n ++ rest) false
      = (next n).onStream rest false := by
  unfold recvLength
  dsimp only
  cases form with
  | bits7 =>
      have hlt : n < 126 := hn
      have hlen : (b1 &&& 0x7F).toNat = n := by
        rw [hb1]
        exact UInt8.toNat_ofNat_of_lt' (Nat.lt_trans hlt (by decide))
      rw [hlen, if_neg (by omega), if_neg (by omega)]
      rfl
  | bits16 =>
      have hback : bigEndian (toBigEndian 2 n) = n := bigEndian_toBigEndian hn
      have hlen : (b1 &&& 0x7F).toNat = 126 := congrArg UInt8.toNat hb1
      rw [if_pos hlen, LengthForm.extended, Reading.need_append (toBigEndian_length 2 n), hback]
  | bits64 =>
      have hback : bigEndian (toBigEndian 8 n) = n := bigEndian_toBigEndian hn
      have hlen : (b1 &&& 0x7F).toNat = 127 := congrArg UInt8.toNat hb1
      rw [if_neg (by omega), if_pos hlen, LengthForm.extended,
        Reading.need_append (toBigEndian_length 8 n), hback]

end Reading

/-- The two header bytes are taken first. -/
theorem frameStream_cons (b0 b1 : UInt8) (rest : Bytes) :
    frameStream (b0 :: b1 :: rest) = (recvBody b0 b1).onStream rest false :=
  Reading.need_append (rfl : [b0, b1].length = 2) rest _ false

/-- **A frame is read back**, and nothing behind it is touched. -/
theorem frameStream_encode (w : WireFrame) (rest : Bytes) :
    frameStream (w.encode ++ rest) = (some w.frame, rest, false) := by
  have hhead : (w.head &&& 0x80 != 0) = w.fin ∧ w.head &&& 0x0F = w.opcode :=
    head_bits w.opcode_lt w.fin
  have hlength : (w.lengthByte &&& 0x80 != 0) = w.key.isSome ∧
      w.lengthByte &&& 0x7F = w.form.indicator w.payload.length :=
    lengthByte_bits (LengthForm.indicator_lt w.form_holds) w.key.isSome
  rw [ClientFrame.encode, List.cons_append, List.cons_append, frameStream_cons, List.append_assoc]
  unfold recvBody
  dsimp only
  rw [recvLength_extended hlength.2 w.form_holds, if_neg (Nat.not_lt.mpr w.payload_le),
    hhead.1, hhead.2, hlength.1]
  unfold recvMask ClientFrame.body ClientFrame.frame
  cases hkey : w.key with
  | none =>
      simp only [Option.isSome_none, Bool.false_eq_true, if_false]
      rw [Reading.need_append rfl]
      rfl
  | some k =>
      simp only [Option.isSome_some, if_true]
      rw [List.append_assoc, Reading.need_append (w.key_length k hkey),
        Reading.need_append (unmask_length k w.payload), unmask_unmask]
      rfl

/-- **A frame cut short is refused.** -/
theorem frameStream_cut {w : WireFrame} {p : Bytes} (hp : p <+: w.encode) (hne : p ≠ w.encode) :
    (frameStream p).1 = none := by
  obtain ⟨rest, hrest⟩ := hp
  rcases hout : frameStream p with ⟨frame, left, atEnd⟩
  cases frame with
  | none => rfl
  | some f =>
      -- what is missing would be left over of the whole frame
      obtain ⟨rfl, -⟩ := frameStream_some hout
      have hwhole := Reading.onStream_append hout rest
      have hencode := frameStream_encode w []
      rw [List.append_nil] at hencode
      unfold frameStream at hencode
      rw [hrest, hencode] at hwhole
      have hnil : left ++ rest = [] := (congrArg (fun out => out.2.1) hwhole).symm
      rw [(List.append_eq_nil_iff.mp hnil).2, List.append_nil] at hrest
      exact absurd hrest hne

/-- **A header that announces too much is refused**, whatever follows it. -/
theorem frameStream_oversized {b0 b1 : UInt8} {n : Nat} (hb1 : b1 &&& 0x7F = 127)
    (hmax : maxPayload < n) (hn : n < 256 ^ 8) (rest : Bytes) :
    (frameStream (b0 :: b1 :: (toBigEndian 8 n ++ rest))).1 = none := by
  have hlength := @recvLength_extended b1 n .bits64 hb1 hn rest
  unfold LengthForm.extended at hlength
  rw [frameStream_cons]
  unfold recvBody
  dsimp only
  rw [hlength, if_pos hmax]
  rfl

/-! ## The frames `send_frame` writes -/

/-- The shortest form that holds `n`. -/
def LengthForm.shortest (n : Nat) : LengthForm :=
  if n < 126 then .bits7 else if n < 65536 then .bits16 else .bits64

theorem LengthForm.shortest_holds {n : Nat} (h : n ≤ maxPayload) : n < (shortest n).bound := by
  have hmax : maxPayload < 256 ^ 8 := by decide
  unfold shortest
  split
  next hlt => exact hlt
  next =>
    split
    next hlt => exact hlt
    next => exact Nat.lt_of_le_of_lt h hmax

theorem encodeLength_eq (n : Nat) :
    encodeLength n
      = (LengthForm.shortest n).indicator n :: (LengthForm.shortest n).extended n := by
  unfold encodeLength LengthForm.shortest
  split
  · rfl
  · split
    · simp [LengthForm.indicator, LengthForm.extended, toBigEndian, Nat.shiftRight_eq_div_pow]
    · simp [LengthForm.indicator, LengthForm.extended, toBigEndian, List.range_succ,
        Nat.shiftRight_eq_div_pow, Nat.div_div_eq_div_mul]

/-- What `send_frame` sends, as a frame of RFC 6455. -/
def sentFrame (opcode : UInt8) (payload : Bytes) (hopcode : opcode < 16)
    (hpayload : payload.length ≤ maxPayload) : WireFrame where
  fin := true
  opcode := opcode
  payload := payload
  key := none
  form := .shortest payload.length
  opcode_lt := hopcode
  key_length := by simp
  form_holds := LengthForm.shortest_holds hpayload
  payload_le := hpayload

theorem encode_sentFrame {opcode : UInt8} {payload : Bytes} (hopcode : opcode < 16)
    (hpayload : payload.length ≤ maxPayload) :
    (sentFrame opcode payload hopcode hpayload).encode = encodeFrame opcode payload := by
  rw [encodeFrame, encodeLength_eq, List.cons_append]
  simp [ClientFrame.encode, ClientFrame.head, ClientFrame.lengthByte, ClientFrame.body, sentFrame]

/-! ## Frames on a connection -/

/-- Successive calls of `recv_frame`. -/
def recvFrames (conn : Connection) (r : RecvScript) :
    Nat → List (Option WsFrame) × Connection × RecvScript
  | 0 => ([], conn, r)
  | n + 1 =>
      let (frame, conn', r') := recvFrame conn r
      let (frames, conn'', r'') := recvFrames conn' r' n
      (frame :: frames, conn'', r'')

/-- One frame after another is read back. -/
theorem recvFrames_encode {conn : Connection} {r : RecvScript} {ws : List WireFrame}
    {rest : Bytes} (hopen : conn.closed = false)
    (hstream : conn.pending r = ws.flatMap (·.encode) ++ rest) :
    (recvFrames conn r ws.length).1 = ws.map (fun w => some w.frame) ∧
      (recvFrames conn r ws.length).2.1.pending (recvFrames conn r ws.length).2.2 = rest ∧
      (recvFrames conn r ws.length).2.1.closed = false := by
  -- on the frames; each leaves the rest pending on an open connection
  induction ws generalizing conn r with
  | nil => exact ⟨rfl, hstream, hopen⟩
  | cons w ws ih =>
      obtain ⟨hframe, hleft, hclosed, -⟩ := recvFrame_yields hopen r
      rw [List.flatMap_cons, List.append_assoc] at hstream
      rw [hstream, frameStream_encode] at hframe hleft hclosed
      obtain ⟨hframes, hrest, hopen'⟩ := ih hclosed hleft
      refine ⟨?_, hrest, hopen'⟩
      have hcons : (recvFrames conn r (ws.length + 1)).1
          = (recvFrame conn r).1 ::
            (recvFrames (recvFrame conn r).2.1 (recvFrame conn r).2.2 ws.length).1 := rfl
      rw [List.length_cons, hcons, hframe, hframes, List.map_cons]

/-- **Frames round-trip.** On an open connection `recv_frame` gives back the frames
    encoded on it, one after another, and leaves what follows them; of a frame
    `send_frame` wrote it gives back the payload; a frame that the stream cuts short and
    a header that announces more than 10 MiB are refused. -/
theorem frames_round_trip (conn : Connection) (hopen : conn.closed = false) (r : RecvScript) :
    (∀ (ws : List WireFrame) (rest : Bytes),
      conn.pending r = ws.flatMap (·.encode) ++ rest →
      (recvFrames conn r ws.length).1 = ws.map (fun w => some w.frame) ∧
        (recvFrames conn r ws.length).2.1.pending (recvFrames conn r ws.length).2.2 = rest ∧
        (recvFrames conn r ws.length).2.1.closed = false) ∧
    (∀ (opcode : UInt8) (payload rest : Bytes), opcode < 16 → payload.length ≤ maxPayload →
      conn.pending r = encodeFrame opcode payload ++ rest →
      (recvFrame conn r).1 = some ⟨true, opcode, false, payload⟩ ∧
        (recvFrame conn r).2.1.pending (recvFrame conn r).2.2 = rest) ∧
    (∀ w : WireFrame, conn.pending r <+: w.encode → conn.pending r ≠ w.encode →
      (recvFrame conn r).1 = none) ∧
    ∀ (b0 b1 : UInt8) (n : Nat) (rest : Bytes), b1 &&& 0x7F = 127 → maxPayload < n →
      n < 256 ^ 8 → conn.pending r = b0 :: b1 :: (toBigEndian 8 n ++ rest) →
      (recvFrame conn r).1 = none := by
  obtain ⟨hframe, hleft, -, -⟩ := recvFrame_yields hopen r
  refine ⟨fun ws rest hstream => recvFrames_encode hopen hstream, ?_, ?_, ?_⟩
  · intro opcode payload rest hopcode hpayload hstream
    have hencode := frameStream_encode (sentFrame opcode payload hopcode hpayload) rest
    rw [encode_sentFrame, ← hstream] at hencode
    rw [hencode] at hframe hleft
    exact ⟨hframe, hleft⟩
  · intro w hp hne
    rw [hframe, frameStream_cut hp hne]
  · intro b0 b1 n rest hb1 hmax hn hstream
    rw [hframe, hstream, frameStream_oversized hb1 hmax hn]

/-- Two frames, the second one masked and with its length in 16 bits, in two pieces. -/
theorem frames_round_trip_masked :
    (recvFrames (.init 5) ⟨[.data 0x81 [2, 104], .eagain,
        .data 105 [0x0A, 0xFE, 0, 1, 1, 2, 3, 4, 98]], .eof⟩ 2).1
      = [some ⟨true, 1, false, [104, 105]⟩, some ⟨false, 10, true, [99]⟩] :=
  ((frames_round_trip (.init 5) rfl ⟨[.data 0x81 [2, 104], .eagain,
      .data 105 [0x0A, 0xFE, 0, 1, 1, 2, 3, 4, 98]], .eof⟩).1
    [⟨⟨true, 1, [104, 105], none, .bits7, by decide, by simp, by decide⟩, by decide⟩,
      ⟨⟨false, 10, [99], some [1, 2, 3, 4], .bits16, by decide, by simp, by decide⟩, by decide⟩]
    [] (by decide +kernel)).1

end WebSocket

end CoroutineHttp.Ws
