import Yasio.Service.ConnectTimer
import Yasio.Service.Interest

/-!
# Waking the service thread

`poll_io` sleeps until a descriptor is ready, its time is over or another thread calls `wakeup`.  A
call that leaves work for the service thread does so first and calls `wakeup` at its end.  The poll
that finds the interrupter readable resets it.
-/

namespace Yasio

open Function (update)

namespace Service

variable (s : Service)

/-! ## Who calls `wakeup` -/

/-- `schedule_timer` does when the timer is then the earliest one. -/
def scheduleWakes (t : TimerId) : Bool := (s.scheduleTimer t).timerQueue.getLast? = some t

/-- `remove_timer` does when it has taken the timer out and others are left. -/
def removeWakes (t : TimerId) : Bool := t ∈ s.timerQueue && s.timerQueue.erase t ≠ []

/-- `highp_timer::cancel` -/
def cancelWakes (t : TimerId) : Bool := !s.expired t && s.removeWakes t

/-- Whether a call of a user or of a resolver thread ends with `wakeup`. -/
def callWakes : Action → Bool
  | .answer _ _ | .openInsert _ | .writeQueue _ _ | .write _ _ _ => true
  | .closeChannel i => !(s.chan i).opClose && (s.sock i).isSome
  | .closeTransport b => !(s.io b).opClose
  | .scheduleTimer n time => (s.expiresAt (.user n) time).scheduleWakes (.user n)
  | .cancelTimer n => s.cancelWakes (.user n)
  | .stop => !s.stopFlag && s.phase ≠ .exiting && s.phase ≠ .stopping
  | _ => false

/-- `do_ssl_handshake` of `b` does while the handshake is pending. -/
def handshakeWakes (b : Block) (a : TransportAnswers) : Bool :=
  (s.sock (s.built b).sock).isSome && (s.built b).cls = .ssl && (s.io b).state ≠ .opened &&
    a.handshake = .pending

/-- Whether the turn of channel `i` that leads from `s` to `t` does. -/
def channelWakes (t : Service) (i : ℕ) : Bool :=
  -- `schedule_timer`
  (t.armed ≠ s.armed && t.timerQueue.getLast? = some (.connect i)) ||
  -- `remove_timer`
  (.connect i ∈ s.timerQueue && .connect i ∉ t.timerQueue && t.timerQueue ≠ []) ||
  -- `active_transport`
  (t.transports ≠ s.transports && testbits (t.kind i) Ycm.ssl && testbits (t.kind i) Ycm.client) ||
  -- `close` of a transport whose `handle_input` has failed
  t.transports.any fun b => (t.io b).opClose && !(b ∈ s.transports && (s.io b).opClose)

/-- Whether a step of the service thread that leads to `t` calls `wakeup`. -/
def threadWakes (t : Service) : Action → Bool
  | .transport a => s.transportTurn.any fun x => s.handshakeWakes x.2 a
  | .channel _ => s.channelTurn.any (s.channelWakes t)
  | _ => false

end Service

/-- A service, whether the descriptor of its interrupter is readable, the number of calls that are
about to end with `wakeup`, and the time to which the last poll may last. -/
structure Waking where
  service : Service
  signalled : Bool := false
  calls : ℕ := 0
  deadline : Int := 0

inductive WakingAction
  | act (a : Action)
  | wakeup

namespace Waking

def step (inetPton : Host → Option Ip) (x : WakingAction) (w : Waking) : Option Waking :=
  let s := w.service
  match x with
  | .act a =>
    (Yasio.step inetPton a s).map fun t =>
      { service := t
        signalled :=
          match a with
          -- A poll that fails resets nothing.
          | .poll answer => w.signalled && answer.isNone
          | a => w.signalled || s.threadWakes t a
        calls := if s.callWakes a then w.calls + 1 else w.calls
        deadline :=
          match a with
          | .frame now => now + s.getTimeout now
          | _ => w.deadline }
  | .wakeup => if 0 < w.calls then some { w with signalled := true, calls := w.calls - 1 } else none

def fresh (channelCount : ℕ) (options : Options) (uparams : ℕ → UnpackParams) : Waking where
  service := .fresh channelCount options uparams

/-- The service thread is in `poll_io`, and nobody has woken it or is about to. -/
def Asleep (w : Waking) : Prop :=
  w.service.phase = .polling ∧ w.signalled = false ∧ w.calls = 0 ∧
    ∀ x ∈ w.service.opens, x.2 ≠ .masked

instance (w : Waking) : Decidable w.Asleep := inferInstanceAs (Decidable (_ ∧ _))

end Waking

end Yasio
