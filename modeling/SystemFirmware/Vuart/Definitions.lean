import SystemFirmware.Lib.Exec
import Mathlib.Logic.Function.Basic

/-!
# Virtual UART — definitions

`include/tenstorrent/uart_tt_virt.h`: two byte rings in memory shared between the device
and a host, with free-running 32-bit counters. A ring is empty when its counters are
equal and full when they are its capacity apart; the byte of a counter value is at that
value modulo the capacity, behind the transmit buffer for the receive ring.

`tt_vuart_poll_out` and `tt_vuart_poll_in` are cut at their accesses to the counters and
the buffer, and a schedule picks who moves. The capacities are never written, so they
are parameters.
-/

namespace SystemFirmware.Vuart

open Lib

/-! ## The descriptor -/

/-- The two rings. The device is the producer of `tx` and the host of `rx`; the
other side is the consumer. -/
inductive Dir where
  | tx
  | rx
  deriving DecidableEq

def bufSize (head tail : UInt32) : UInt32 := tail - head

def bufEmpty (head tail : UInt32) : Bool := bufSize head tail == 0

def bufFull (head tail cap : UInt32) : Bool := bufSize head tail == cap

def offs (cap : Dir → UInt32) : Dir → UInt32
  | .tx => 0
  | .rx => cap .tx

def index (cap : Dir → UInt32) (d : Dir) (counter : UInt32) : UInt32 :=
  offs cap d + counter % cap d

/-! ## The callers -/

/-- Where the producer is in `tt_vuart_poll_out`, named after the access that comes
next. -/
inductive OutPc where
  | idle
  | loadTail (outChar : UInt8)
  | loadHead (outChar : UInt8) (tail : UInt32)
  /-- `++vuart->tx_oflow`, a word no one else accesses. -/
  | oflow
  | store (outChar : UInt8) (tail : UInt32)
  | publish (outChar : UInt8) (tail : UInt32)
  deriving DecidableEq

inductive InPc where
  | idle
  | loadHead
  | loadTail (head : UInt32)
  | loadByte (head : UInt32)
  /-- `atomic_compare_exchange_strong`. -/
  | exchange (head : UInt32) (ch : UInt8)
  deriving DecidableEq

/-- The counters of a ring, its two callers, and the bytes `tt_vuart_poll_out` accepted and
`tt_vuart_poll_in` returned. -/
structure Ring where
  head : UInt32
  tail : UInt32
  out : OutPc
  inp : InPc
  accepted : List UInt8
  returned : List UInt8

structure World where
  ring : Dir → Ring
  txOflow : UInt32
  buf : UInt32 → UInt8

def World.set (s : World) (d : Dir) (r : Ring) : World :=
  { s with ring := Function.update s.ring d r }

def World.start (counter : Dir → UInt32) (txOflow : UInt32) (buf : UInt32 → UInt8) : World :=
  ⟨fun d => ⟨counter d, counter d, .idle, .idle, [], []⟩, txOflow, buf⟩

/-! ## Accesses -/

/-- The next access of the producer. On a full transmit ring `expired` is true without
`CONFIG_UART_TT_VIRT_TX_BLOCK`, with it from the deadline on; before that the loop starts over. -/
def outStep (cap : Dir → UInt32) (d : Dir) (expired : Bool) (s : World) : Option World :=
  let r := s.ring d
  match r.out with
  | .idle => none
  | .loadTail outChar => some (s.set d { r with out := .loadHead outChar r.tail })
  | .loadHead outChar tail =>
    if d = .tx ∧ bufFull r.head tail (cap d) = true then
      some (s.set d { r with out := if expired then .oflow else .loadTail outChar })
    else some (s.set d { r with out := .store outChar tail })
  | .oflow => some { s.set d { r with out := .idle } with txOflow := s.txOflow + 1 }
  | .store outChar tail => some { s.set d { r with out := .publish outChar tail } with
      buf := Function.update s.buf (index cap d tail) outChar }
  | .publish outChar tail => some (s.set d { r with
      out := .idle
      tail := tail + 1
      accepted := r.accepted ++ [outChar] })

def inStep (cap : Dir → UInt32) (d : Dir) (s : World) : Option World :=
  let r := s.ring d
  match r.inp with
  | .idle => none
  | .loadHead => some (s.set d { r with inp := .loadTail r.head })
  | .loadTail head =>
    -- an empty ring returns -1
    some (s.set d { r with inp := if bufEmpty head r.tail then .idle else .loadByte head })
  | .loadByte head => some (s.set d { r with inp := .exchange head (s.buf (index cap d head)) })
  | .exchange head ch =>
    if r.head = head then
      some (s.set d { r with inp := .idle, head := head + 1, returned := r.returned ++ [ch] })
    else some (s.set d { r with inp := .loadHead })

inductive Action where
  /-- `tt_vuart_poll_out` is called; the host calls it only if the ring is not full. -/
  | pollOut (d : Dir) (outChar : UInt8)
  | out (d : Dir) (expired : Bool)
  | pollIn (d : Dir)
  | inp (d : Dir)
  deriving DecidableEq

def step (cap : Dir → UInt32) (s : World) : Action → Option World
  | .pollOut d outChar =>
    let r := s.ring d
    if r.out = .idle ∧ (d = .rx → bufFull r.head r.tail (cap d) = false) then
      some (s.set d { r with out := .loadTail outChar })
    else none
  | .out d expired => outStep cap d expired s
  | .pollIn d =>
    let r := s.ring d
    if r.inp = .idle then some (s.set d { r with inp := .loadHead }) else none
  | .inp d => inStep cap d s

end SystemFirmware.Vuart
