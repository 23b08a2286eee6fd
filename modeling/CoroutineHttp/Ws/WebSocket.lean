/-
  CoroutineHttp.Ws.WebSocket

  `class WebSocket`: the frames `recv_frame` reads and `send_frame` writes, and the
  handshake.  SHA-1 and Base64 come from OpenSSL and are parameters.
-/

import CoroutineHttp.Http.Server

namespace CoroutineHttp.Ws

open CoroutineHttp.Library CoroutineHttp.Net CoroutineHttp.Http

/-- `struct WsFrame`; the opcode is any value of four bits. -/
structure WsFrame where
  fin : Bool
  opcode : UInt8
  masked : Bool
  payload : Bytes
deriving DecidableEq, Repr

namespace WsOpcode

def CONTINUATION : UInt8 := 0x0
def TEXT : UInt8 := 0x1
def CLOSE : UInt8 := 0x8
def PING : UInt8 := 0x9
def PONG : UInt8 := 0xA

end WsOpcode

namespace WebSocket

/-! ## Receiving -/

/-- The loop that makes `payload_len` of its bytes. -/
def bigEndian (ext : Bytes) : Nat := ext.foldl (fun len b => len * 256 + b.toNat) 0

/-- `payload[i] ^= mask[i % 4]`. -/
def unmask (mask payload : Bytes) : Bytes :=
  payload.mapIdx fun i b => b ^^^ mask.getD (i % 4) 0

/-- The payload length announced by the second byte `b1`. -/
def recvLength (b1 : UInt8) (next : Nat → Reading (Option WsFrame)) : Reading (Option WsFrame) :=
  let payloadLen := (b1 &&& 0x7F).toNat
  -- both longer forms are taken for any length, however small
  if payloadLen = 126 then .need 2 fun ext => next (bigEndian ext)
  else if payloadLen = 127 then .need 8 fun ext => next (bigEndian ext)
  else next payloadLen

/-- The mask, if the frame is masked. -/
def recvMask (masked : Bool) (next : Bytes → Reading (Option WsFrame)) :
    Reading (Option WsFrame) :=
  if masked then .need 4 next else next [0, 0, 0, 0]

/-- The largest payload `recv_frame` reads. -/
def maxPayload : Nat := 10 * 1024 * 1024

/-- `recv_frame` behind its first two bytes. -/
def recvBody (b0 b1 : UInt8) : Reading (Option WsFrame) :=
  let masked := b1 &&& 0x80 != 0
  recvLength b1 fun payloadLen =>
    -- `false` without reading on; the connection stays open
    if maxPayload < payloadLen then .done none
    else
      recvMask masked fun mask =>
        -- every opcode and every `fin` is accepted
        .need payloadLen fun payload =>
          .done (some
            { fin := b0 &&& 0x80 != 0
              opcode := b0 &&& 0x0F
              masked := masked
              payload := if masked then unmask mask payload else payload })

/-- `recv_frame` on an open connection; `none` is `false`. -/
def recvProgram : Reading (Option WsFrame) :=
  .need 2 fun header => recvBody (header.getD 0 0) (header.getD 1 0)

/-- `recv_frame`. -/
def recvFrame (conn : Connection) (r : RecvScript) : Option WsFrame × Connection × RecvScript :=
  -- bytes still buffered are not looked at
  if conn.closed then (none, conn, r) else recvProgram.run conn r

/-- `recv_frame` on the stream `p`: the frame, the bytes left, and whether it came to
    the end of the stream. -/
def frameStream (p : Bytes) : Option WsFrame × Bytes × Bool := recvProgram.onStream p false

/-- On an open connection `recv_frame` reads the stream. -/
theorem recvFrame_yields {conn : Connection} (hopen : conn.closed = false) (r : RecvScript) :
    (recvFrame conn r).1 = (frameStream (conn.pending r)).1 ∧
      (recvFrame conn r).2.1.pending (recvFrame conn r).2.2
        = (frameStream (conn.pending r)).2.1 ∧
      (recvFrame conn r).2.1.closed = (frameStream (conn.pending r)).2.2 ∧
      (recvFrame conn r).2.1.fd = conn.fd := by
  obtain ⟨hframe, hleft, hclosed, hfd⟩ := recvProgram.run_yields conn r
  rw [hopen, Bool.false_or] at hclosed
  simp only [recvFrame, hopen, Bool.false_eq_true, if_false]
  exact ⟨hframe, hleft, hclosed, hfd⟩

theorem recvFrame_closed {conn : Connection} (hclosed : conn.closed = true) (r : RecvScript) :
    recvFrame conn r = (none, conn, r) := by
  simp [recvFrame, hclosed]

/-! ### A received frame

The three continuations of `recv_frame` keep a program from yielding a frame at the
end of the stream, and none takes bytes back. -/

/-- The program yields a frame only without having come to the end of the stream. -/
def FrameBeforeEnd (prog : Reading (Option WsFrame)) : Prop :=
  ∀ p, (prog.onStream p false).1.isSome → (prog.onStream p false).2.2 = false

theorem FrameBeforeEnd.need {n : Nat} {next : Bytes → Reading (Option WsFrame)}
    (h : ∀ bs, FrameBeforeEnd (next bs)) : FrameBeforeEnd (.need n next) := by
  intro p hsome
  rcases Nat.lt_or_ge p.length n with hlt | hge
  · simp [Reading.need_onStream_short hlt] at hsome
  · rw [Reading.need_onStream hge] at hsome ⊢
    exact h _ _ hsome

theorem FrameBeforeEnd.recvLength {b1 : UInt8} {next : Nat → Reading (Option WsFrame)}
    (h : ∀ n, FrameBeforeEnd (next n)) : FrameBeforeEnd (recvLength b1 next) := by
  unfold WebSocket.recvLength
  simp only
  split
  · exact .need fun ext => h _
  · split
    · exact .need fun ext => h _
    · exact h _

theorem FrameBeforeEnd.recvMask {masked : Bool} {next : Bytes → Reading (Option WsFrame)}
    (h : ∀ m, FrameBeforeEnd (next m)) : FrameBeforeEnd (recvMask masked next) := by
  unfold WebSocket.recvMask
  split
  · exact .need h
  · exact h _

theorem FrameBeforeEnd.recvBody (b0 b1 : UInt8) : FrameBeforeEnd (recvBody b0 b1) := by
  unfold WebSocket.recvBody
  refine .recvLength fun payloadLen => ?_
  split
  · intro p hsome
    cases hsome
  · exact .recvMask fun mask => .need fun payload p _ => rfl

/-- A frame takes at least two bytes, and does not come to the end of the stream. -/
theorem frameStream_some {p rest : Bytes} {frame : WsFrame} {atEnd : Bool}
    (h : frameStream p = (some frame, rest, atEnd)) :
    atEnd = false ∧ rest.length < p.length := by
  unfold frameStream recvProgram at h
  rcases Nat.lt_or_ge p.length 2 with hlt | hge
  · simp [Reading.need_onStream_short hlt] at h
  · rw [Reading.need_onStream hge] at h
    have hend := FrameBeforeEnd.recvBody ((p.take 2).getD 0 0) ((p.take 2).getD 1 0) (p.drop 2)
    have hle := (Reading.onStream_suffix
      (recvBody ((p.take 2).getD 0 0) ((p.take 2).getD 1 0)) (p.drop 2) false).length_le
    rw [h] at hend hle
    simp only [List.length_drop] at hle
    exact ⟨hend rfl, by omega⟩

/-! ## Sending -/

/-- The bytes of the length, with the indicator in front where it needs one. -/
def encodeLength (len : Nat) : Bytes :=
  if len < 126 then [UInt8.ofNat len]
  else if len < 65536 then [126, UInt8.ofNat (len >>> 8), UInt8.ofNat len]
  else 127 :: (List.range 8).map fun i => UInt8.ofNat (len >>> (8 * (7 - i)))

/-- The frame `send_frame` writes. -/
def encodeFrame (opcode : UInt8) (payload : Bytes) : Bytes :=
  (0x80 ||| opcode) :: (encodeLength payload.length ++ payload)

/-! ## The handshake -/

/-- `WS_MAGIC`. -/
def magic : Bytes := bytes "258EAFA5-E914-47DA-95CA-C5AB0DC85B11"

/-- `SHA1` and `base64_encode`, from OpenSSL. -/
structure Digest where
  sha1 : Bytes → Bytes
  base64 : Bytes → Bytes

/-- `compute_accept`. -/
def computeAccept (d : Digest) (key : Bytes) : Bytes := d.base64 (d.sha1 (key ++ magic))

/-- The key of the handshake, if the headers have one that is not blank. -/
def handshakeKey (headers : StrMap) : Option Bytes :=
  match headers[bytes "sec-websocket-key"]? with
  | none => none
  | some v =>
      -- blanks in front; blanks and carriage returns at the end
      let key := (v.dropWhile (· == 32)).rdropWhile fun b => b == 32 || b == 13
      if key = [] then none else some key

/-- The 101 response. -/
def upgradeResponse (d : Digest) (key : Bytes) : Bytes :=
  bytes "HTTP/1.1 101 Switching Protocols\r\nUpgrade: websocket\r\nConnection: Upgrade\r\n" ++
    bytes "Sec-WebSocket-Accept: " ++ computeAccept d key ++ bytes "\r\n\r\n"

end WebSocket

end CoroutineHttp.Ws
