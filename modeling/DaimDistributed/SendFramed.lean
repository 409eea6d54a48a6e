import DaimDistributed.Framing
import DaimDistributed.Slots

/-!
`send_framed` of `daim_peer_transport.c`, called by any number of threads while connection
slots are acquired and torn down.

A thread is a program counter; the two locks are held from one step to another. The kernel
hands out a descriptor again once it is closed, and a send goes to whatever connection the
descriptor refers to by then.
-/

namespace DaimDistributed.SendFramed

open Framing Transitions
open Slots (maxConnections)

/-- A frame to be sent; the guard of `send_framed` on its length is passed. -/
structure Request where
  messageType : UInt8
  payload : List UInt8
  fits : payload.length ≤ daimPeerMaxPayloadSize

lemma length_le_of_guard {payload : List UInt8} (h : ¬ daimPeerMaxPayloadSize < payload.length) :
    payload.length ≤ daimPeerMaxPayloadSize :=
  not_lt.mp h

/-- `struct connection`. The connection that a slot was acquired for is kept for the record. -/
structure Slot where
  fd : ℕ := 0
  active : Bool := false
  sendLock : Option ℕ := none
  conn : ℕ := 0

/-- A connection as the kernel has it: the bytes written, and whether a send has failed. The
frames that were begun are kept for the record. -/
structure Stream where
  written : List UInt8 := []
  broken : Bool := false
  frames : List Outgoing := []

/-- The descriptor that a thread has got and not given up, and the slot acquired for it. -/
structure Mine where
  fd : ℕ
  conn : ℕ
  slot : Option ℕ := none

/-- Where a thread is: in `send_framed`, on its way into `run_connection`, or in its
teardown. -/
inductive Pc
  | idle
  | takeSendLock (i : ℕ) (q : Request)
  | takeLock (i : ℕ) (q : Request)
  | checkActive (i : ℕ) (q : Request)
  | allocate (i : ℕ) (q : Request) (c : ℕ)
  | store (i : ℕ) (q : Request) (c : ℕ) (id : UInt64)
  | allocated (i : ℕ) (q : Request) (c : ℕ) (id : UInt64)
  | build (i : ℕ) (q : Request) (c : ℕ) (id : UInt64)
  | sending (i c fd : ℕ) (o : Outgoing) (sentTotal : ℕ)
  | dropBoth (i : ℕ)
  | dropSendLock (i : ℕ) (sent : Option ℕ)
  | count (sent : ℕ)
  | counting (sent : ℕ)
  | connected
  | acquire
  | refused
  | refuse
  | teardown (i : ℕ)
  | close (i : ℕ)
  | closed (i : ℕ)
  | reset (i : ℕ)
  | dropLock

structure Thread where
  mine : Option Mine := none
  pc : Pc := .idle

/-- The transport, its threads, and the kernel's side. The numbers of connections and of
message ids so far are kept for the record. -/
structure Transport where
  nodeId : UInt64
  slots : ℕ → Slot := fun _ => {}
  lock : Option ℕ := none
  nextMessageId : UInt64 := 0
  messagesSent : ℕ := 0
  bytesSent : ℕ := 0
  threads : ℕ → Thread := fun _ => {}
  fds : ℕ → Option ℕ := fun _ => none
  streams : ℕ → Stream := fun _ => {}
  opened : ℕ := 0
  allocated : ℕ := 0

/-- What `send` can return: a count, `EINTR`, or another error. -/
inductive SendResult
  | count (n : ℕ)
  | interrupted
  | error

inductive Act
  | call (i : ℕ) (messageType : UInt8) (payload : List UInt8)
  | connect (fd : ℕ)
  | hangUp
  | teardown
  | send (r : SendResult)
  | next (now : UInt64)

def Transport.goto (x : Transport) (t : ℕ) (pc : Pc) : Transport :=
  { x with threads := Function.update x.threads t { x.threads t with pc := pc } }

/-- The thread has another descriptor, or none. -/
def Transport.hold (x : Transport) (t : ℕ) (mine : Option Mine) (pc : Pc) : Transport :=
  { x with threads := Function.update x.threads t ⟨mine, pc⟩ }

def Transport.setSlot (x : Transport) (i : ℕ) (s : Slot) : Transport :=
  { x with slots := Function.update x.slots i s }

def Transport.setSendLock (x : Transport) (i : ℕ) (holder : Option ℕ) : Transport :=
  x.setSlot i { x.slots i with sendLock := holder }

def Transport.setFd (x : Transport) (fd : ℕ) (conn : Option ℕ) : Transport :=
  { x with fds := Function.update x.fds fd conn }

def Transport.setStream (x : Transport) (c : ℕ) (s : Stream) : Transport :=
  { x with streams := Function.update x.streams c s }

/-- A send fails: the connection behind the descriptor takes no more bytes. -/
def Transport.breakFd (x : Transport) (fd : ℕ) : Transport :=
  match x.fds fd with
  | none => x
  | some c => x.setStream c { x.streams c with broken := true }

/-- `n` more bytes of `o` are written, behind the first `sentTotal`. -/
def Stream.write (s : Stream) (o : Outgoing) (sentTotal n : ℕ) : Stream :=
  { s with
    written := s.written ++ (o.bytes.drop sentTotal).take n
    frames := if sentTotal = 0 then s.frames ++ [o] else s.frames }

/-- One `send` of `send_all`. A count of 0 is taken for the end of the stream; and nothing is
written through a closed descriptor or on a broken connection. -/
def sendStep (x : Transport) (t i c fd : ℕ) (o : Outgoing) (sentTotal : ℕ) :
    SendResult → Option Transport
  | .interrupted => some x
  | .error | .count 0 => some ((x.breakFd fd).goto t (.dropSendLock i none))
  | .count (n + 1) =>
    match x.fds fd with
    | none => none
    | some d =>
      if (x.streams d).broken = true ∨ o.bytes.length < sentTotal + (n + 1) then none
      else
        let x := x.setStream d ((x.streams d).write o sentTotal (n + 1))
        if sentTotal + (n + 1) < o.bytes.length then
          some (x.goto t (.sending i c fd o (sentTotal + (n + 1))))
        else some (x.goto t (.dropSendLock i (some o.bytes.length)))

/-- The first slot that is not active. -/
def freeSlot (x : Transport) : Option ℕ :=
  (List.range maxConnections).find? fun i => !(x.slots i).active

/-- The next step of a thread where the code leaves no choice; a lock is waited for. -/
def nextStep (x : Transport) (t : ℕ) (now : UInt64) : Option Transport :=
  match (x.threads t).pc, (x.threads t).mine with
  | .takeSendLock i q, _ =>
    if (x.slots i).sendLock = none then
      some ((x.setSendLock i (some t)).goto t (.takeLock i q))
    else none
  | .takeLock i q, _ =>
    if x.lock = none then some ({ x with lock := some t }.goto t (.checkActive i q)) else none
  | .checkActive i q, _ =>
    if (x.slots i).active = true then some (x.goto t (.allocate i q (x.slots i).conn))
    else some (x.goto t (.dropBoth i))
  | .allocate i q c, _ => some (x.goto t (.store i q c (x.nextMessageId + 1)))
  | .store i q c id, _ =>
    some ({ x with nextMessageId := id, allocated := x.allocated + 1 }.goto t
      (.allocated i q c id))
  | .allocated i q c id, _ => some ({ x with lock := none }.goto t (.build i q c id))
  | .build i q c id, _ =>
    some (x.goto t
      (.sending i c (x.slots i).fd ⟨q.messageType, x.nodeId, id, now, q.payload, q.fits⟩ 0))
  | .dropBoth i, _ => some ({ x with lock := none }.goto t (.dropSendLock i none))
  | .dropSendLock i sent, _ =>
    some ((x.setSendLock i none).goto t (match sent with | some n => .count n | none => .idle))
  | .count n, _ =>
    if x.lock = none then some ({ x with lock := some t }.goto t (.counting n)) else none
  | .counting n, _ =>
    some ({ x with
      messagesSent := x.messagesSent + 1, bytesSent := x.bytesSent + n }.goto t .dropLock)
  | .dropLock, _ => some ({ x with lock := none }.goto t .idle)
  | .connected, _ =>
    if x.lock = none then some ({ x with lock := some t }.goto t .acquire) else none
  | .acquire, some m =>
    match freeSlot x with
    | some i =>
      some ((x.setSlot i { x.slots i with fd := m.fd, active := true, conn := m.conn }).hold t
        (some { m with slot := some i }) .dropLock)
    | none => some (x.goto t .refused)
  | .refused, _ => some ({ x with lock := none }.goto t .refuse)
  | .refuse, some m => some ((x.setFd m.fd none).hold t none .idle)
  | .teardown i, _ =>
    if (x.slots i).sendLock = none then some ((x.setSendLock i (some t)).goto t (.close i))
    else none
  | .close i, some m => some ((x.setFd m.fd none).goto t (.closed i))
  | .closed i, _ =>
    if x.lock = none then some ({ x with lock := some t }.goto t (.reset i)) else none
  | .reset i, _ =>
    some ((x.setSlot i { x.slots i with active := false }).hold t none (.dropBoth i))
  | _, _ => none

def step (x : Transport) (l : ℕ × Act) : Option Transport :=
  match l.2, (x.threads l.1).pc, (x.threads l.1).mine with
  | .call i messageType payload, .idle, _ =>
    if h : daimPeerMaxPayloadSize < payload.length then some x
    else some (x.goto l.1 (.takeSendLock i ⟨messageType, payload, length_le_of_guard h⟩))
  | .connect fd, .idle, none =>
    if x.fds fd = none then
      some ({ x.setFd fd (some x.opened) with opened := x.opened + 1 }.hold l.1
        (some ⟨fd, x.opened, none⟩) .connected)
    else none
  | .hangUp, .connected, some m => some ((x.setFd m.fd none).hold l.1 none .idle)
  | .teardown, .idle, some m => m.slot.map fun i => x.goto l.1 (.teardown i)
  | .send r, .sending i c fd o sentTotal, _ => sendStep x l.1 i c fd o sentTotal r
  | .next now, _, _ => nextStep x l.1 now
  | _, _, _ => none

def transport : Lts Transport (ℕ × Act) := ofFun (fun x => ∃ nodeId, x = { nodeId := nodeId }) step

end DaimDistributed.SendFramed
