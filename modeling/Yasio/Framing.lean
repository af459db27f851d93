import Mathlib.Data.List.Basic
import Mathlib.Algebra.Order.Ring.Int

/-!
# Receiving and unpacking

The receive half of an `io_transport` and the functions of `io_service.cpp` that cut what arrives
into packets: `__builtin_decode_len`, `call_read`, `do_read` and `unpack`.  The host is little
endian.  An `int` is an `Int` whose sums are wrapped where the source lets them leave the range.
-/

namespace Yasio

/-- The result of storing an integer in an `int`. -/
def toInt32 (x : Int) : Int := Int.bmod x (2 ^ 32)

theorem toInt32_eq_self {x : Int} (h1 : -2 ^ 31 ≤ x) (h2 : x < 2 ^ 31) : toInt32 x = x := by
  unfold toInt32
  exact Int.bmod_eq_of_le (by omega) (by omega)

theorem toInt32_bounds (x : Int) : -2 ^ 31 ≤ toInt32 x ∧ toInt32 x < 2 ^ 31 := by
  unfold toInt32
  rw [Int.bmod_eq_emod]
  split <;> omega

/-- `yasio::clamp`. -/
def clamp (v lo hi : Int) : Int := if v < lo then lo else if hi < v then hi else v

/-! ## Error numbers -/

def EPERM : Int := 1
def EINTR : Int := 4
def EAGAIN : Int := 11
def EWOULDBLOCK : Int := EAGAIN
def ENOBUFS : Int := 105
def ETIMEDOUT : Int := 110
def EINPROGRESS : Int := 115

namespace Errc

def invalidPacket : Int := -27
def resolveHostFailed : Int := -26
def noAvailableAddress : Int := -25
def shutdownByLocalhost : Int := -24
def sslHandshakeFailed : Int := -23
def eof : Int := -20

end Errc

/-- `xxsocket::not_recv_error`. -/
def notRecvError (error : Int) : Bool := error == EWOULDBLOCK || error == EAGAIN || error == EINTR

/-- `xxsocket::not_send_error`. -/
def notSendError (error : Int) : Bool :=
  error == EWOULDBLOCK || error == EAGAIN || error == EINTR || error == ENOBUFS

/-! ## Unpack parameters -/

/-- `io_channel::uparams_`.  The two lengths that `set_option` clamps are never negative. -/
structure UnpackParams where
  maxFrameLength : Int := 10 * 1024 * 1024
  lengthFieldOffset : Int := -1
  lengthFieldLength : ℕ := 4
  lengthAdjustment : Int := 0
  initialBytesToStrip : ℕ := 0
  noBswap : Bool := false
  deriving DecidableEq, Repr

namespace UnpackParams

/-- `YOPT_C_UNPACK_PARAMS`. -/
def setUnpackParams (u : UnpackParams) (maxFrame offset length adjustment : Int) : UnpackParams :=
  { u with
    maxFrameLength := maxFrame
    lengthFieldOffset := offset
    lengthFieldLength := (clamp length 1 4).toNat
    lengthAdjustment := adjustment }

/-- `YASIO_UNPACK_MAX_STRIP`. -/
def maxStrip : Int := 32

/-- `YOPT_C_UNPACK_STRIP`. -/
def setUnpackStrip (u : UnpackParams) (strip : Int) : UnpackParams :=
  { u with initialBytesToStrip := (clamp strip 0 maxStrip).toNat }

/-- `YOPT_C_UNPACK_NO_BSWAP`. -/
def setUnpackNoBswap (u : UnpackParams) (flag : Int) : UnpackParams :=
  { u with noBswap := flag != 0 }

end UnpackParams

/-! ## Decoding a length field -/

/-- The unsigned value of bytes that lie in memory in this order. -/
def leNat : List UInt8 → ℕ
  | [] => 0
  | b :: bs => b.toNat + 256 * leNat bs

/-- `ntohl` on a 32-bit value. -/
def ntohl (v : ℕ) : ℕ :=
  v % 256 * 2 ^ 24 + v / 2 ^ 8 % 256 * 2 ^ 16 + v / 2 ^ 16 % 256 * 2 ^ 8 + v / 2 ^ 24 % 256

/-- `yasio::network_to_host(int, int)`, as the bits of its result. -/
def networkToHost (value size : ℕ) : ℕ :=
  if size < 4 then ntohl value / 2 ^ ((4 - size) * 8) else ntohl value

/-- `io_channel::__builtin_decode_len` on the first `n` bytes behind `d`. -/
def decodeLen (u : UnpackParams) (d : List UInt8) (n : ℕ) : Int :=
  let loffset := u.lengthFieldOffset
  let lsize := u.lengthFieldLength
  if 0 ≤ loffset then
    if toInt32 (loffset + lsize) ≤ n then
      let field := leNat ((d.drop loffset.toNat).take lsize)
      let len := toInt32 (if u.noBswap then field else networkToHost field lsize)
      let len := toInt32 (len + u.lengthAdjustment)
      -- A complete header may decode to 0 as well.
      if u.maxFrameLength < len then -1 else len
    else 0
  else n

/-! ## The receive half of a transport -/

/-- `yasio__max_rcvbuf`. -/
def maxRcvbuf : ℕ := 65536

/-- `buffer_`, `offset_`, `expected_size_` and `expected_packet_` of an `io_transport`. -/
structure Rx where
  buffer : List UInt8
  offset : ℕ := 0
  expectedSize : Int := -1
  expectedPacket : List UInt8 := []
  deriving DecidableEq, Repr

/-- An exception that leaves a function. -/
inductive Thrown
  | outOfRange
  deriving DecidableEq, Repr

/-- What the socket gave to `read_cb_`: bytes, no bytes (end of stream), or `-1` and an `errno`. -/
inductive RawRead
  | bytes (bs : List UInt8)
  | fail (errno : ℕ)
  deriving DecidableEq, Repr

/-- The bytes that `recv` stores at its buffer argument. -/
def RawRead.data : RawRead → List UInt8
  | .bytes bs => bs
  | .fail _ => []

/-- The bytes received and not yet consumed. -/
def Rx.held (rx : Rx) : List UInt8 := rx.buffer.take rx.offset

/-- `recv` into `buffer_.data() + offset_`. -/
def Rx.store (rx : Rx) (bs : List UInt8) : Rx :=
  { rx with
    buffer := rx.buffer.take rx.offset ++ bs ++ rx.buffer.drop (rx.offset + bs.length) }

/-- `io_transport::call_read`: the result and `error`.  `tcp` is the test of `YCM_TCP`. -/
def callRead (tcp : Bool) : RawRead → Int × Int
  | .bytes [] => if tcp then (-1, Errc.eof) else (0, 0)
  | .bytes bs => (bs.length, 0)
  | .fail errno => if notRecvError errno then (0, 0) else (-1, errno)

/-- What one call of `io_service::do_read` does besides changing the transport. -/
inductive Verdict
  /-- returns `false` after `set_last_errno(error, READ)` -/
  | closed (error : Int)
  /-- returns `true`, no packet -/
  | pending
  /-- returns `true` after `fire_event` of the packet -/
  | packet (p : List UInt8)
  /-- returns `true` after `forward_packet` of the view -/
  | view (p : List UInt8)
  deriving DecidableEq, Repr

/-- The transport after `do_read`, the verdict, and whether `wait_duration_` was set to zero. -/
structure ReadResult where
  rx : Rx
  verdict : Verdict
  busy : Bool := false
  deriving DecidableEq, Repr

/-- The arguments of one call of `unpack`. -/
structure UnpackCall where
  want : Int
  transferred : ℕ
  strip : ℕ
  deriving DecidableEq, Repr

namespace UnpackCall

/-- `bytes_available` -/
def available (call : UnpackCall) (rx : Rx) : Int := (call.transferred + rx.offset : ℕ)

/-- The end of the range that `unpack` appends, counted from `buffer_.data()`; its start is
`strip`. -/
def last (call : UnpackCall) (rx : Rx) : Int := min call.want (call.available rx)

end UnpackCall

/-- `memmove(buffer_.data(), buffer_.data() + want, n)` -/
def moveToHead (buffer : List UInt8) (want n : ℕ) : List UInt8 :=
  (buffer.drop want).take n ++ buffer.drop n

/-- `io_service::unpack`.  `pod_vector::insert` throws unless its range is `first <= last`. -/
def Rx.unpack (rx : Rx) (call : UnpackCall) : Except Thrown ReadResult :=
  if (call.strip : Int) ≤ call.last rx then
    let pkt := rx.expectedPacket ++ (rx.buffer.take (call.last rx).toNat).drop call.strip
    let offset := call.available rx - call.want
    if 0 ≤ offset then
      let buffer :=
        if 0 < offset then moveToHead rx.buffer call.want.toNat offset.toNat else rx.buffer
      -- `fetch_packet` forgets the frame and moves the packet out
      .ok { rx := { buffer, offset := offset.toNat, expectedSize := -1, expectedPacket := [] }
            verdict := .packet pkt
            busy := 0 < offset }
    else
      -- All that has come is in the packet, and the rest is to follow.
      .ok { rx := { rx with offset := 0, expectedPacket := pkt }, verdict := .pending }
  else .error .outOfRange

/-- The branch that `do_read` takes on `n` new bytes, before it acts on it. -/
inductive Plan
  | reject
  | more
  | unpack (expectedSize : Int) (call : UnpackCall)
  deriving DecidableEq, Repr

/-- The branches of `io_service::do_read` when packets are not forwarded. -/
def Rx.plan (u : UnpackParams) (rx : Rx) (n : ℕ) : Plan :=
  let bytesToStrip := u.initialBytesToStrip
  if rx.expectedSize = -1 then
    let length := decodeLen u rx.buffer (rx.offset + n)
    if 0 < length then
      if length < bytesToStrip then .reject
      else .unpack length ⟨length, n, bytesToStrip⟩
    else if length = 0 then .more
    else .reject
  else
    -- The bytes that were stripped from the head of the frame count as received.
    .unpack rx.expectedSize
      ⟨rx.expectedSize - (rx.expectedPacket.length + bytesToStrip : ℕ), n, 0⟩

/-- What `do_read` does on `n` new bytes in each of its branches. -/
def Rx.act (rx : Rx) (n : ℕ) : Plan → Except Thrown ReadResult
  | .reject => .ok { rx, verdict := .closed Errc.invalidPacket }
  | .more => .ok { rx := { rx with offset := rx.offset + n }, verdict := .pending }
  | .unpack size call => { rx with expectedSize := size }.unpack call

/-- `io_service::do_read` behind the call of `transport->do_read`, which gave `n` and `error` and
left the new bytes behind `offset_`.  `forward` is `options_.forward_packet_`. -/
def Rx.process (forward : Bool) (u : UnpackParams) (rx : Rx) (n error : Int) :
    Except Thrown ReadResult :=
  if 0 ≤ n then
    if forward then
      if 0 < n then .ok { rx, verdict := .view (rx.buffer.take n.toNat) }
      else .ok { rx, verdict := .pending }
    else
      rx.act n.toNat (rx.plan u n.toNat)
  else .ok { rx, verdict := .closed error }

/-- `io_service::do_read` on a transport whose `do_read` is that of `io_transport`. -/
def Rx.doRead (forward tcp : Bool) (u : UnpackParams) (rx : Rx) (r : RawRead) :
    Except Thrown ReadResult :=
  (rx.store r.data).process forward u (callRead tcp r).1 (callRead tcp r).2

end Yasio
