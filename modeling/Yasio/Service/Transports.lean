import Yasio.Service.Base

/-!
# Processing the transports

One turn of the loop of `process_transports`: `do_read`, `do_write`, the test of the masks and
`handle_close`.
-/

namespace Yasio

open Function (update)

/-- What `send`, `sendto`, `yssl_write` or `ikcp_send` answers; `zero` is a 0 with an error, as
`yssl_write` gives it when the peer has closed the session. -/
inductive RawSend
  | sent (n : ℕ)
  | zero (errno : ℕ)
  | fail (errno : ℕ)
  deriving DecidableEq, Repr

/-- A read returns at most as many bytes as it was asked for. -/
def RawRead.limit (n : ℕ) : RawRead → RawRead
  | .bytes bs => .bytes (bs.take n)
  | .fail errno => .fail errno

/-- What `yssl_do_handshake` answers: 0, `EWOULDBLOCK` or `ssl_handshake_failed`. -/
inductive Handshake
  | complete
  | pending
  | failed
  deriving DecidableEq, Repr

/-- What the outside answers while a transport is processed. -/
structure TransportAnswers where
  /-- `recv`, `recvfrom` or `yssl_read` -/
  raw : RawRead := .fail 11
  /-- the sender that `recvfrom` reports -/
  peer : Endpoint := .unspec
  /-- what `io_transport_kcp::do_read` makes of it -/
  message : RawRead := .fail 11
  /-- `yssl_do_handshake` -/
  handshake : Handshake := .pending
  send : RawSend := .fail 11
  /-- what lies behind the address in the object that `getpeername` fills -/
  tail : ℕ := 0

namespace Service

variable (s : Service)

/-- `io_transport_ssl::do_ssl_handshake` -/
def sslHandshake (b : Block) : Handshake → Service
  | .complete =>
    (s.setIo b { s.io b with state := .opened }).fireEvents [s.transportEvent b .onOpen 0]
  | .pending => s
  | .failed =>
    let i := (s.built b).ctx
    -- Nothing is said about a connection that a server has accepted.
    s.fireEvents
      (if testbits (s.kind i) Ycm.client then [s.channelEvent i Errc.sslHandshakeFailed] else [])

/-- What the lower layer of `b` reads when its socket is ready. -/
def transportRead (b : Block) (a : TransportAnswers) : RawRead :=
  let free := (s.rx b).buffer.length - (s.rx b).offset
  let raw :=
    if s.ready (s.built b).sock { read := true, error := true } then a.raw.limit free else .fail 11
  match (s.built b).cls with
  | .tcp | .udp => raw
  | .ssl => if (s.io b).state = .opened then raw else .fail 11
  | .kcp => a.message

/-- A datagram comes through the socket of `b`: an unconnected transport takes its sender for its
peer. -/
def receiveFrom (b : Block) (a : TransportAnswers) : Service :=
  let u := s.udp b
  if (s.built b).cls.isUdp ∧ a.raw.data ≠ [] ∧
      s.ready (s.built b).sock { read := true, error := true } then
    { s with
      udp := update s.udp b { u with peer := if u.connected then u.peer else a.peer }
      delivered :=
        match s.mapKey b with
        | none => s.delivered
        | some key =>
          s.delivered ++
            [{ channel := (s.built b).ctx
               peer := a.peer
               alive := b ∈ s.transports
               ctx := (s.built b).ctx
               builtFor := some key }] }
  else s

/-- `transport->do_read`, as far as it changes the service. -/
def beforeRead (b : Block) (a : TransportAnswers) : Service :=
  let s := s.ask (s.built b).sock { read := true, error := true }
  let s :=
    { s with
      waitDuration :=
        if (s.built b).cls = TransportClass.kcp ∧ a.message.data ≠ [] then 0 else s.waitDuration }
  if (s.built b).cls = .ssl ∧ (s.io b).state ≠ .opened then s.sslHandshake b a.handshake
  else s.receiveFrom b a

/-- What `do_read` does with the result of the framing, and whether it returns `true`. -/
def afterRead (b : Block) (result : ReadResult) : Service × Bool :=
  let s :=
    { s with
      rx := update s.rx b result.rx
      waitDuration := if result.busy then 0 else s.waitDuration }
  match result.verdict with
  | .closed error => (s.setIo b { s.io b with error }, false)
  | .pending => (s, true)
  | .packet p => (s.fireEvents [s.transportEvent b .onPacket 0 p], true)
  | .view v => (s.forwardPacket b v, true)

/-- `do_read` -/
def doRead (b : Block) (a : TransportAnswers) : Except Thrown (Service × Bool) :=
  let i := (s.built b).ctx
  if s.sock (s.built b).sock = none then .ok (s, false)
  else if (s.built b).cls = .ssl ∧ (s.io b).state ≠ .opened ∧ a.handshake = .failed then
    let s := s.beforeRead b a
    .ok (s.setIo b { s.io b with error := Errc.sslHandshakeFailed }, false)
  else
    let r := s.transportRead b a
    ((s.rx b).doRead s.options.forwardPacket (testbits (s.kind i) Ycm.tcp) (s.uparams i) r).map
      ((s.beforeRead b a).afterRead b)

/-- `call_write` on the operation at the head of the queue: what is left of it, and `error`, or
the error that closes the connection. -/
def callWrite (udp : Bool) (op : SendOp) : RawSend → Except Int (Option SendOp × Int)
  | .sent n =>
    if op.offset + n < op.data.length then .ok (some { op with offset := op.offset + n }, 0)
    else .ok (none, 0)
  | .zero errno => .ok (some op, errno)
  | .fail errno =>
    if notSendError errno then .ok (some op, errno)
    -- A UDP transport drops the datagram and stays open.
    else if udp then .ok (none, errno)
    else .error errno

/-- `do_write` behind `call_write`: `pending` are the operations that are left. -/
def afterWrite (b : Block) (pending : List SendOp) (error : Int) : Service :=
  let full := error = EWOULDBLOCK ∨ error = EAGAIN ∨ error = ENOBUFS
  let k := (s.built b).sock
  -- The kernel has no room: the next turn is the one that the watcher reports.
  if pending ≠ [] ∧ full then
    { (if (s.tx b).pollout then s else s.modEvent k { write := true } .none) with
      tx := update s.tx b { sendQueue := pending, pollout := true } }
  else
    { (if (s.tx b).pollout then s.modEvent k .none { write := true } else s) with
      tx := update s.tx b { sendQueue := pending, pollout := false }
      waitDuration := if pending = [] then s.waitDuration else 0 }

/-- The connection that the socket of `b` belongs to, if it is still the one of `b`: a channel that
is opened again opens the same socket object. -/
def connection (b : Block) : Option ℕ :=
  if s.gen (s.built b).sock = (s.built b).gen then some (s.built b).id else none

/-- The bytes that a send put on the connection that the socket of `b` belongs to. -/
def recordSent (b : Block) (op : SendOp) : RawSend → Service
  | .sent n =>
    { s with
      sent := s.sent ++ [⟨s.connection b, op.origin, (op.data.drop op.offset).take n⟩] }
  | .zero _ | .fail _ => s

/-- `io_transport::do_write` -/
def doWrite (b : Block) (send : RawSend) : Service × Bool :=
  let i := (s.built b).ctx
  if s.sock (s.built b).sock = none then (s, false)
  else
    match (s.tx b).sendQueue with
    | [] => (s.afterWrite b [] 0, true)
    | op :: rest =>
      match callWrite (testbits (s.kind i) Ycm.udp) op send with
      | .error error => (s.setIo b { s.io b with error }, false)
      | .ok (left, error) =>
        ((s.recordSent b op send).afterWrite b (left.toList ++ rest) error, true)

/-- `handle_close` of the transport at position `n`, and its removal. -/
def dropTransport (n : ℕ) (b : Block) (tail : ℕ) : Service :=
  { s.handleClose b tail with transports := s.transports.eraseIdx n }

/-- Something asks for the end of this transport. -/
def closeAsked (b : Block) : Bool :=
  let i := (s.built b).ctx
  (s.io b).opOpen || (s.io b).opClose || (s.chan i).opOpen || (s.chan i).opClose || s.stopFlag

/-- One turn of the loop of `process_transports` behind `do_read` and `do_write`. -/
def endTransport (n : ℕ) (b : Block) (tail : ℕ) (ok : Bool) : Service :=
  if ok then
    if s.closeAsked b then
      -- An error that is set already is kept.
      (s.setIo b
        { s.io b with
          error := if (s.io b).error = 0 then Errc.shutdownByLocalhost else (s.io b).error
        }).dropTransport n b tail
    else { s with phase := .transports (n + 1) }
  else s.dropTransport n b tail

/-- One turn of the loop of `process_transports`, at position `n`. -/
def visitTransport (n : ℕ) (b : Block) (a : TransportAnswers) : Service :=
  match s.doRead b a with
  -- Nothing on the way out of the thread function catches the exception.
  | .error _ => { s.beforeRead b a with phase := .terminated }
  | .ok (s, false) => s.endTransport n b a.tail false
  | .ok (s, true) => (s.doWrite b a.send).1.endTransport n b a.tail (s.doWrite b a.send).2

end Service

end Yasio
