import DaimDistributed.Slots
import DaimDistributed.Threads

/-!
The threads of one peer transport, from `daim_peer_transport_create` to
`daim_peer_transport_destroy`.

Every critical section of `t->lock` is written out. How long the dial thread backs off and what
the messages of a connection say does not matter here: a wait may end at every poll, and a
receive may fail or bring a message.
-/

namespace DaimDistributed.Shutdown

open Threads
open Slots (maxConnections)

def maxConfiguredPeers : ℕ := 31

def maxThreads : ℕ := maxConnections + maxConfiguredPeers + 1

/-- What a thread is: one of the application that is in a call, or one of the transport. -/
inductive Kind
  | create
  | addPeer
  | destroy
  | dial
  | accept
  | handler
  deriving DecidableEq

/-- `daim_peer_transport_create`. -/
inductive CreateOp
  | listen
  | createAcceptThread
  | returns
  deriving DecidableEq

/-- `daim_peer_transport_add_peer`. -/
inductive AddPeerOp
  | allocate
  | malloc (idx : ℕ)
  | createDialThread (idx : ℕ)
  deriving DecidableEq

/-- `dial_thread_main`. -/
inductive DialOp
  | checkStop
  | socket
  | connect (fd : ℕ)
  | countReconnect
  | checkWait
  | sleep
  deriving DecidableEq

/-- `accept_thread_main`. -/
inductive AcceptOp
  | accept
  | checkStop (fd : ℕ)
  | malloc (fd : ℕ)
  | increment (fd : ℕ)
  | createHandler (fd : ℕ)
  deriving DecidableEq

/-- `run_connection`. -/
inductive RunOp
  | acquire (fd : ℕ)
  | sendHello (i fd : ℕ)
  | recvHello (i fd : ℕ)
  | exchange (i fd : ℕ)
  | setReady (i fd : ℕ)
  | checkStop (i fd : ℕ)
  | recv (i fd : ℕ)
  | handle (i fd : ℕ)
  | takeSendLock (i fd : ℕ)
  | shutdown (i fd : ℕ)
  | close (i fd : ℕ)
  | clear (i : ℕ)
  | dropSendLock (i : ℕ)
  deriving DecidableEq

/-- `daim_peer_transport_destroy`. -/
inductive DestroyOp
  | requestStop
  | shutdownListener
  | closeListener
  | sweep (i : ℕ)
  | copyThreads
  | join (threads : List ℕ)
  | waitHandlers
  | destroyLocks
  | free
  deriving DecidableEq

/-- An operation. `active_accept_handlers` is counted down by a handler that is over, and by the
accept thread, which still holds the descriptor, where a handler could not be started. -/
inductive Op
  | create (o : CreateOp)
  | addPeer (o : AddPeerOp)
  | registerThread (th : ℕ)
  | dial (o : DialOp)
  | accept (o : AcceptOp)
  | run (o : RunOp)
  | decrement (fd : Option ℕ)
  | broadcast (fd : Option ℕ)
  | closeFd (fd : ℕ)
  | destroy (o : DestroyOp)
  deriving DecidableEq

/-- `struct connection`, with the connection the slot was acquired for, for the record. -/
structure Slot where
  fd : ℕ := 0
  active : Bool := false
  ready : Bool := false
  sendLock : Bool := false
  conn : ℕ := 0
  deriving DecidableEq

/-- `struct daim_peer_transport` and the descriptors. A descriptor refers to a connection;
connections are numbered in the order they are opened. For the record: whether `create` has
returned the transport, the thread that has called `destroy`, and whether the transport is
freed. -/
structure Transport where
  stop : Bool := false
  listening : Bool := false
  slots : ℕ → Slot := fun _ => {}
  peerCount : ℕ := 0
  threads : List ℕ := []
  activeAcceptHandlers : ℕ := 0
  fds : ℕ → Option ℕ := fun _ => none
  shut : ℕ → Bool := fun _ => false
  opened : ℕ := 0
  creating : Bool := false
  created : Bool := false
  destroyer : Option ℕ := none
  freed : Bool := false

namespace Transport

def setSlot (m : Transport) (i : ℕ) (s : Slot) : Transport :=
  { m with slots := Function.update m.slots i s }

/-- A new connection on a descriptor. -/
def openFd (m : Transport) (fd : ℕ) : Transport :=
  { m with fds := Function.update m.fds fd (some m.opened), opened := m.opened + 1 }

def closeFd (m : Transport) (fd : ℕ) : Transport :=
  { m with fds := Function.update m.fds fd none }

/-- `shutdown(fd, SHUT_RDWR)`, on whatever the descriptor refers to. -/
def shutdownFd (m : Transport) (fd : ℕ) : Transport :=
  match m.fds fd with
  | none => m
  | some c => { m with shut := Function.update m.shut c true }

end Transport

abbrev Code := List (Instr Op)

abbrev State := Threads.State Kind Op Transport

abbrev Effect := Threads.Effect Kind Op Transport

/-- How a call of the system or the C library ends. -/
inductive Outcome
  | ok
  | fail
  | fd (n : ℕ)
  deriving DecidableEq

/-! ### The code of the threads -/

def createCode : Code := [.op (.create .listen)]

def addPeerCode : Code := [.lock, .op (.addPeer .allocate)]

def destroyCode : Code := [.lock, .op (.destroy .requestStop)]

/-- The head of the loop of `dial_thread_main`. -/
def dialLoop : Code := [.lock, .op (.dial .checkStop)]

/-- The head of the loop of `accept_thread_main`. -/
def acceptLoop : Code := [.op (.accept .accept)]

def runConnection (fd : ℕ) : Code := [.lock, .op (.run (.acquire fd))]

/-- `accept_conn_thread_main`. -/
def acceptConnThreadMain (fd : ℕ) : Code :=
  runConnection fd ++ [.lock, .op (.decrement none)]

/-- What is behind the label `done` in `run_connection`. -/
def teardown (i fd : ℕ) : Code := [.op (.run (.takeSendLock i fd))]

/-- The head of the loop of `run_connection`. -/
def steadyLoop (i fd : ℕ) : Code := [.lock, .op (.run (.checkStop i fd))]

/-- The head of the loop on `active_accept_handlers`. -/
def waitLoop : Code := [.lock, .op (.destroy .waitHandlers)]

/-! ### What the operations do -/

/-- An operation that only says what comes next. -/
def goOn (m : Transport) (next : Code) : Option Effect := some { mem := m, next := next }

def createStep (x : State) (m : Transport) : CreateOp → Outcome → Option Effect
  | .listen, .ok => goOn { m with listening := true } [.op (.create .createAcceptThread)]
  | .listen, _ => goOn m []
  | .createAcceptThread, .ok =>
    some {
      mem := m
      next := [.lock, .op (.registerThread x.count), .unlock, .op (.create .returns)]
      starts := some (.accept, acceptLoop) }
  | .createAcceptThread, _ => goOn { m with listening := false } []
  | .returns, _ => goOn { m with created := true } []

def addPeerStep (x : State) (m : Transport) : AddPeerOp → Outcome → Option Effect
  | .allocate, _ =>
    if maxConfiguredPeers ≤ m.peerCount then goOn m [.unlock]
    else goOn { m with peerCount := m.peerCount + 1 }
      [.unlock, .op (.addPeer (.malloc m.peerCount))]
  | .malloc idx, .ok => goOn m [.op (.addPeer (.createDialThread idx))]
  | .malloc _, _ => goOn m []
  | .createDialThread _, .ok =>
    some {
      mem := m
      next := [.lock, .op (.registerThread x.count), .unlock]
      starts := some (.dial, dialLoop) }
  | .createDialThread _, _ => goOn m []

def registerThread (m : Transport) (th : ℕ) : Transport :=
  if m.threads.length < maxThreads then { m with threads := m.threads ++ [th] } else m

def dialStep (m : Transport) : DialOp → Outcome → Option Effect
  | .checkStop, _ => goOn m (if m.stop then [.unlock] else [.unlock, .op (.dial .socket)])
  | .socket, .fd fd =>
    if m.fds fd = none then goOn (m.openFd fd) [.op (.dial (.connect fd))] else none
  | .socket, _ => goOn m []
  | .connect fd, .ok => goOn m (runConnection fd ++ dialLoop)
  | .connect fd, _ =>
    goOn m [.op (.closeFd fd), .lock, .op (.dial .countReconnect), .unlock,
      .lock, .op (.dial .checkWait)]
  | .countReconnect, _ => goOn m []
  | .checkWait, e =>
    if m.stop ∨ e = .ok then goOn m (.unlock :: dialLoop)
    else goOn m [.unlock, .op (.dial .sleep)]
  | .sleep, _ => goOn m [.lock, .op (.dial .checkWait)]

def acceptStep (m : Transport) : AcceptOp → Outcome → Option Effect
  | .accept, .fd fd =>
    if m.listening ∧ m.fds fd = none then
      goOn (m.openFd fd) [.lock, .op (.accept (.checkStop fd))]
    else none
  | .accept, _ => goOn m []
  | .checkStop fd, _ =>
    goOn m (if m.stop then [.unlock, .op (.closeFd fd)]
      else [.unlock, .op (.accept (.malloc fd))])
  | .malloc fd, .ok => goOn m [.lock, .op (.accept (.increment fd))]
  | .malloc fd, _ => goOn m (.op (.closeFd fd) :: acceptLoop)
  | .increment fd, _ =>
    goOn { m with activeAcceptHandlers := m.activeAcceptHandlers + 1 }
      [.unlock, .op (.accept (.createHandler fd))]
  | .createHandler fd, .ok =>
    some { mem := m, next := acceptLoop, starts := some (.handler, acceptConnThreadMain fd) }
  | .createHandler fd, _ => goOn m [.lock, .op (.decrement (some fd))]

/-- The first slot that is not active. -/
def freeSlot (m : Transport) : Option ℕ :=
  (List.range maxConnections).find? fun i => !(m.slots i).active

def runStep (m : Transport) : RunOp → Outcome → Option Effect
  | .acquire fd, _ =>
    match freeSlot m with
    | none => goOn m [.unlock, .op (.closeFd fd)]
    | some i =>
      goOn (m.setSlot i { m.slots i with
          fd := fd, active := true, ready := false, conn := (m.fds fd).getD 0 })
        [.unlock, .op (.run (.sendHello i fd))]
  | .sendHello i fd, .ok =>
    if (m.slots i).sendLock then none else goOn m [.op (.run (.recvHello i fd))]
  | .sendHello i fd, _ => if (m.slots i).sendLock then none else goOn m (teardown i fd)
  | .recvHello i fd, .ok => goOn m [.op (.run (.exchange i fd))]
  | .recvHello i fd, _ => goOn m (teardown i fd)
  | .exchange i fd, .ok => goOn m [.lock, .op (.run (.setReady i fd))]
  | .exchange i fd, _ => goOn m (teardown i fd)
  | .setReady i fd, _ =>
    goOn (m.setSlot i { m.slots i with ready := true }) (.unlock :: steadyLoop i fd)
  | .checkStop i fd, _ =>
    goOn m (if m.stop then .unlock :: teardown i fd else [.unlock, .op (.run (.recv i fd))])
  | .recv i fd, .ok => goOn m [.op (.run (.handle i fd))]
  | .recv i fd, _ => goOn m (teardown i fd)
  | .handle i fd, _ => goOn m (steadyLoop i fd)
  | .takeSendLock i fd, _ =>
    if (m.slots i).sendLock then none
    else goOn (m.setSlot i { m.slots i with sendLock := true }) [.op (.run (.shutdown i fd))]
  | .shutdown i fd, _ => goOn (m.shutdownFd fd) [.op (.run (.close i fd))]
  | .close i fd, _ => goOn (m.closeFd fd) [.lock, .op (.run (.clear i))]
  | .clear i, _ =>
    goOn (m.setSlot i { m.slots i with active := false, ready := false })
      [.unlock, .op (.run (.dropSendLock i))]
  | .dropSendLock i, _ => goOn (m.setSlot i { m.slots i with sendLock := false }) []

def sweepSlot (m : Transport) (i : ℕ) : Transport :=
  if (m.slots i).active then m.shutdownFd (m.slots i).fd else m

def destroyStep (x : State) (m : Transport) : DestroyOp → Option Effect
  | .requestStop => goOn { m with stop := true } [.unlock, .op (.destroy .shutdownListener)]
  | .shutdownListener => goOn { m with listening := false } [.op (.destroy .closeListener)]
  | .closeListener => goOn m [.lock, .op (.destroy (.sweep 0))]
  | .sweep i =>
    goOn (sweepSlot m i)
      [.op (.destroy (if i + 1 < maxConnections then .sweep (i + 1) else .copyThreads))]
  | .copyThreads => goOn m [.unlock, .op (.destroy (.join m.threads))]
  | .join [] => goOn m waitLoop
  | .join (th :: threads) =>
    if x.code th = [] then goOn m [.op (.destroy (.join threads))] else none
  | .waitHandlers =>
    -- `pthread_cond_wait` gives up the lock and takes it again, also without a broadcast
    goOn m (if 0 < m.activeAcceptHandlers then .unlock :: waitLoop
      else [.unlock, .op (.destroy .destroyLocks)])
  | .destroyLocks => goOn m [.op (.destroy .free)]
  | .free => goOn { m with freed := true } []

def exec (x : State) : Op → Outcome → Option Effect
  | .create o, e => createStep x x.mem o e
  | .addPeer o, e => addPeerStep x x.mem o e
  | .registerThread th, _ => goOn (registerThread x.mem th) []
  | .dial o, e => dialStep x.mem o e
  | .accept o, e => acceptStep x.mem o e
  | .run o, e => runStep x.mem o e
  | .decrement fd, _ =>
    goOn { x.mem with activeAcceptHandlers := x.mem.activeAcceptHandlers - 1 }
      [.op (.broadcast fd)]
  | .broadcast none, _ => goOn x.mem [.unlock]
  | .broadcast (some fd), _ => goOn x.mem (.unlock :: .op (.closeFd fd) :: acceptLoop)
  | .closeFd fd, _ => goOn (x.mem.closeFd fd) []
  | .destroy o, _ => destroyStep x x.mem o

/-! ### Calls of the application -/

inductive Call
  | create
  | addPeer
  | destroy
  deriving DecidableEq

/-- No call of `create` or `add_peer` is under way. -/
def Idle (x : State) : Prop :=
  ∀ u < x.count, x.kind u = .create ∨ x.kind u = .addPeer → x.code u = []

instance (x : State) : Decidable (Idle x) := by unfold Idle; infer_instance

/-- One transport is created; peers are added once it is there, and not while it is destroyed
or behind it. -/
def call (x : State) : Call → Option (Transport × Kind × Code)
  | .create => if x.mem.creating then none else
      some ({ x.mem with creating := true }, .create, createCode)
  | .addPeer => if x.mem.created ∧ x.mem.destroyer = none then
      some (x.mem, .addPeer, addPeerCode) else none
  | .destroy => if x.mem.created ∧ x.mem.destroyer = none ∧ Idle x then
      some ({ x.mem with destroyer := some x.count }, .destroy, destroyCode) else none

def program : Program Kind Op Transport Outcome Call where
  exec := exec
  call := call

abbrev Label := Threads.Label Outcome Call

/-- Nothing is there yet. -/
def initial : State := ⟨{}, none, 0, fun _ => .create, fun _ => []⟩

def system : Transitions.Lts State Label :=
  Transitions.ofFun (· = initial) (Threads.step program)

/-! ### What an operation can do -/

inductive Does (x : State) : Op → Effect → Prop
  | listen : Does x (.create .listen)
      { mem := { x.mem with listening := true }, next := [.op (.create .createAcceptThread)] }
  | noListener : Does x (.create .listen) { mem := x.mem }
  | startAccept : Does x (.create .createAcceptThread)
      { mem := x.mem
        next := [.lock, .op (.registerThread x.count), .unlock, .op (.create .returns)]
        starts := some (.accept, acceptLoop) }
  | noAcceptThread : Does x (.create .createAcceptThread)
      { mem := { x.mem with listening := false } }
  | returns : Does x (.create .returns) { mem := { x.mem with created := true } }
  | full : Does x (.addPeer .allocate) { mem := x.mem, next := [.unlock] }
  | allocate : x.mem.peerCount < maxConfiguredPeers → Does x (.addPeer .allocate)
      { mem := { x.mem with peerCount := x.mem.peerCount + 1 }
        next := [.unlock, .op (.addPeer (.malloc x.mem.peerCount))] }
  | malloc {idx : ℕ} : Does x (.addPeer (.malloc idx))
      { mem := x.mem, next := [.op (.addPeer (.createDialThread idx))] }
  | noMalloc {idx : ℕ} : Does x (.addPeer (.malloc idx)) { mem := x.mem }
  | startDial {idx : ℕ} : Does x (.addPeer (.createDialThread idx))
      { mem := x.mem
        next := [.lock, .op (.registerThread x.count), .unlock]
        starts := some (.dial, dialLoop) }
  | noDialThread {idx : ℕ} : Does x (.addPeer (.createDialThread idx)) { mem := x.mem }
  | register {th : ℕ} : Does x (.registerThread th) { mem := registerThread x.mem th }
  | dialStop : Does x (.dial .checkStop) { mem := x.mem, next := [.unlock] }
  | dialOn : Does x (.dial .checkStop)
      { mem := x.mem, next := [.unlock, .op (.dial .socket)] }
  | socket {fd : ℕ} : x.mem.fds fd = none → Does x (.dial .socket)
      { mem := x.mem.openFd fd, next := [.op (.dial (.connect fd))] }
  | noSocket : Does x (.dial .socket) { mem := x.mem }
  | connect {fd : ℕ} : Does x (.dial (.connect fd))
      { mem := x.mem, next := runConnection fd ++ dialLoop }
  | noConnect {fd : ℕ} : Does x (.dial (.connect fd))
      { mem := x.mem
        next := [.op (.closeFd fd), .lock, .op (.dial .countReconnect), .unlock,
          .lock, .op (.dial .checkWait)] }
  | countReconnect : Does x (.dial .countReconnect) { mem := x.mem }
  | waited : Does x (.dial .checkWait) { mem := x.mem, next := .unlock :: dialLoop }
  | wait : Does x (.dial .checkWait) { mem := x.mem, next := [.unlock, .op (.dial .sleep)] }
  | sleep : Does x (.dial .sleep) { mem := x.mem, next := [.lock, .op (.dial .checkWait)] }
  | accept {fd : ℕ} : x.mem.fds fd = none → Does x (.accept .accept)
      { mem := x.mem.openFd fd, next := [.lock, .op (.accept (.checkStop fd))] }
  | noAccept : Does x (.accept .accept) { mem := x.mem }
  | acceptStop {fd : ℕ} : Does x (.accept (.checkStop fd))
      { mem := x.mem, next := [.unlock, .op (.closeFd fd)] }
  | acceptOn {fd : ℕ} : Does x (.accept (.checkStop fd))
      { mem := x.mem, next := [.unlock, .op (.accept (.malloc fd))] }
  | mallocHandler {fd : ℕ} : Does x (.accept (.malloc fd))
      { mem := x.mem, next := [.lock, .op (.accept (.increment fd))] }
  | noMallocHandler {fd : ℕ} : Does x (.accept (.malloc fd))
      { mem := x.mem, next := .op (.closeFd fd) :: acceptLoop }
  | increment {fd : ℕ} : Does x (.accept (.increment fd))
      { mem := { x.mem with activeAcceptHandlers := x.mem.activeAcceptHandlers + 1 }
        next := [.unlock, .op (.accept (.createHandler fd))] }
  | startHandler {fd : ℕ} : Does x (.accept (.createHandler fd))
      { mem := x.mem
        next := acceptLoop
        starts := some (.handler, acceptConnThreadMain fd) }
  | noHandler {fd : ℕ} : Does x (.accept (.createHandler fd))
      { mem := x.mem, next := [.lock, .op (.decrement (some fd))] }
  | refuse {fd : ℕ} : freeSlot x.mem = none → Does x (.run (.acquire fd))
      { mem := x.mem, next := [.unlock, .op (.closeFd fd)] }
  | acquire {fd i : ℕ} : freeSlot x.mem = some i → Does x (.run (.acquire fd))
      { mem := x.mem.setSlot i { x.mem.slots i with
          fd := fd, active := true, ready := false, conn := (x.mem.fds fd).getD 0 }
        next := [.unlock, .op (.run (.sendHello i fd))] }
  | sendHello {i fd : ℕ} : Does x (.run (.sendHello i fd))
      { mem := x.mem, next := [.op (.run (.recvHello i fd))] }
  | noHello {i fd : ℕ} : Does x (.run (.sendHello i fd)) { mem := x.mem, next := teardown i fd }
  | recvHello {i fd : ℕ} : Does x (.run (.recvHello i fd))
      { mem := x.mem, next := [.op (.run (.exchange i fd))] }
  | noRecvHello {i fd : ℕ} : Does x (.run (.recvHello i fd))
      { mem := x.mem, next := teardown i fd }
  | exchange {i fd : ℕ} : Does x (.run (.exchange i fd))
      { mem := x.mem, next := [.lock, .op (.run (.setReady i fd))] }
  | noExchange {i fd : ℕ} : Does x (.run (.exchange i fd))
      { mem := x.mem, next := teardown i fd }
  | setReady {i fd : ℕ} : Does x (.run (.setReady i fd))
      { mem := x.mem.setSlot i { x.mem.slots i with ready := true }
        next := .unlock :: steadyLoop i fd }
  | runStop {i fd : ℕ} : Does x (.run (.checkStop i fd))
      { mem := x.mem, next := .unlock :: teardown i fd }
  | runOn {i fd : ℕ} : Does x (.run (.checkStop i fd))
      { mem := x.mem, next := [.unlock, .op (.run (.recv i fd))] }
  | recv {i fd : ℕ} : Does x (.run (.recv i fd))
      { mem := x.mem, next := [.op (.run (.handle i fd))] }
  | noRecv {i fd : ℕ} : Does x (.run (.recv i fd)) { mem := x.mem, next := teardown i fd }
  | handle {i fd : ℕ} : Does x (.run (.handle i fd)) { mem := x.mem, next := steadyLoop i fd }
  | takeSendLock {i fd : ℕ} : Does x (.run (.takeSendLock i fd))
      { mem := x.mem.setSlot i { x.mem.slots i with sendLock := true }
        next := [.op (.run (.shutdown i fd))] }
  | shutdown {i fd : ℕ} : Does x (.run (.shutdown i fd))
      { mem := x.mem.shutdownFd fd, next := [.op (.run (.close i fd))] }
  | close {i fd : ℕ} : Does x (.run (.close i fd))
      { mem := x.mem.closeFd fd, next := [.lock, .op (.run (.clear i))] }
  | clear {i : ℕ} : Does x (.run (.clear i))
      { mem := x.mem.setSlot i { x.mem.slots i with active := false, ready := false }
        next := [.unlock, .op (.run (.dropSendLock i))] }
  | dropSendLock {i : ℕ} : Does x (.run (.dropSendLock i))
      { mem := x.mem.setSlot i { x.mem.slots i with sendLock := false } }
  | decrement {fd : Option ℕ} : Does x (.decrement fd)
      { mem := { x.mem with activeAcceptHandlers := x.mem.activeAcceptHandlers - 1 }
        next := [.op (.broadcast fd)] }
  | broadcast : Does x (.broadcast none) { mem := x.mem, next := [.unlock] }
  | giveUp {fd : ℕ} : Does x (.broadcast (some fd))
      { mem := x.mem, next := .unlock :: .op (.closeFd fd) :: acceptLoop }
  | closeFd {fd : ℕ} : Does x (.closeFd fd) { mem := x.mem.closeFd fd }
  | requestStop : Does x (.destroy .requestStop)
      { mem := { x.mem with stop := true }, next := [.unlock, .op (.destroy .shutdownListener)] }
  | shutdownListener : Does x (.destroy .shutdownListener)
      { mem := { x.mem with listening := false }, next := [.op (.destroy .closeListener)] }
  | closeListener : Does x (.destroy .closeListener)
      { mem := x.mem, next := [.lock, .op (.destroy (.sweep 0))] }
  | sweep {i : ℕ} : i + 1 < maxConnections → Does x (.destroy (.sweep i))
      { mem := sweepSlot x.mem i, next := [.op (.destroy (.sweep (i + 1)))] }
  | lastSweep {i : ℕ} : maxConnections ≤ i + 1 → Does x (.destroy (.sweep i))
      { mem := sweepSlot x.mem i, next := [.op (.destroy .copyThreads)] }
  | copyThreads : Does x (.destroy .copyThreads)
      { mem := x.mem, next := [.unlock, .op (.destroy (.join x.mem.threads))] }
  | joined : Does x (.destroy (.join [])) { mem := x.mem, next := waitLoop }
  | join {th : ℕ} {threads : List ℕ} : x.code th = [] → Does x (.destroy (.join (th :: threads)))
      { mem := x.mem, next := [.op (.destroy (.join threads))] }
  | waitHandlers : 0 < x.mem.activeAcceptHandlers → Does x (.destroy .waitHandlers)
      { mem := x.mem, next := .unlock :: waitLoop }
  | noHandlers : x.mem.activeAcceptHandlers = 0 → Does x (.destroy .waitHandlers)
      { mem := x.mem, next := [.unlock, .op (.destroy .destroyLocks)] }
  | destroyLocks : Does x (.destroy .destroyLocks)
      { mem := x.mem, next := [.op (.destroy .free)] }
  | free : Does x (.destroy .free) { mem := { x.mem with freed := true } }

variable {x : State} {e : Outcome} {r : Effect} {o : Op}

lemma createStep_does {o : CreateOp} (h : createStep x x.mem o e = some r) :
    Does x (.create o) r := by
  unfold createStep goOn at h
  split at h <;> cases h
  · exact .listen
  · exact .noListener
  · exact .startAccept
  · exact .noAcceptThread
  · exact .returns

lemma addPeerStep_does {o : AddPeerOp} (h : addPeerStep x x.mem o e = some r) :
    Does x (.addPeer o) r := by
  unfold addPeerStep goOn at h
  split at h
  · split_ifs at h with hfull
    · cases h
      exact .full
    · cases h
      exact .allocate (Nat.lt_of_not_le hfull)
  all_goals cases h
  · exact .malloc
  · exact .noMalloc
  · exact .startDial
  · exact .noDialThread

lemma dialStep_does {o : DialOp} (h : dialStep x.mem o e = some r) : Does x (.dial o) r := by
  unfold dialStep goOn at h
  split at h
  · cases h
    split_ifs
    · exact .dialStop
    · exact .dialOn
  · split_ifs at h with hf
    cases h
    exact .socket hf
  · cases h
    exact .noSocket
  · cases h
    exact .connect
  · cases h
    exact .noConnect
  · cases h
    exact .countReconnect
  · split_ifs at h
    · cases h
      exact .waited
    · cases h
      exact .wait
  · cases h
    exact .sleep

lemma acceptStep_does {o : AcceptOp} (h : acceptStep x.mem o e = some r) :
    Does x (.accept o) r := by
  unfold acceptStep goOn at h
  split at h
  · split_ifs at h with hf
    cases h
    exact .accept hf.2
  · cases h
    exact .noAccept
  · cases h
    split_ifs
    · exact .acceptStop
    · exact .acceptOn
  all_goals cases h
  · exact .mallocHandler
  · exact .noMallocHandler
  · exact .increment
  · exact .startHandler
  · exact .noHandler

lemma runStep_does {o : RunOp} (h : runStep x.mem o e = some r) : Does x (.run o) r := by
  unfold runStep goOn at h
  split at h
  · split at h
    · cases h
      exact .refuse ‹_›
    · cases h
      exact .acquire ‹_›
  · split_ifs at h
    cases h
    exact .sendHello
  · split_ifs at h
    cases h
    exact .noHello
  · cases h
    exact .recvHello
  · cases h
    exact .noRecvHello
  · cases h
    exact .exchange
  · cases h
    exact .noExchange
  · cases h
    exact .setReady
  · cases h
    split_ifs
    · exact .runStop
    · exact .runOn
  · cases h
    exact .recv
  · cases h
    exact .noRecv
  · cases h
    exact .handle
  · split_ifs at h
    cases h
    exact .takeSendLock
  · cases h
    exact .shutdown
  · cases h
    exact .close
  · cases h
    exact .clear
  · cases h
    exact .dropSendLock

lemma destroyStep_does {o : DestroyOp} (h : destroyStep x x.mem o = some r) :
    Does x (.destroy o) r := by
  unfold destroyStep goOn at h
  split at h
  · cases h
    exact .requestStop
  · cases h
    exact .shutdownListener
  · cases h
    exact .closeListener
  · cases h
    split_ifs with hlast
    · exact .sweep hlast
    · exact .lastSweep (Nat.le_of_not_lt hlast)
  · cases h
    exact .copyThreads
  · cases h
    exact .joined
  · split_ifs at h with hover
    cases h
    exact .join hover
  · cases h
    split_ifs with hw
    · exact .waitHandlers hw
    · exact .noHandlers (Nat.eq_zero_of_not_pos hw)
  · cases h
    exact .destroyLocks
  · cases h
    exact .free

lemma does_of_exec (h : program.exec x o e = some r) : Does x o r := by
  change exec x o e = some r at h
  unfold exec at h
  split at h
  · exact createStep_does h
  · exact addPeerStep_does h
  · cases h
    exact .register
  · exact dialStep_does h
  · exact acceptStep_does h
  · exact runStep_does h
  · cases h
    exact .decrement
  · cases h
    exact .broadcast
  · cases h
    exact .giveUp
  · cases h
    exact .closeFd
  · exact destroyStep_does h

/-! ### What an operation leaves alone -/

lemma shutdownFd_eq (m : Transport) (fd : ℕ) :
    m.shutdownFd fd = { m with shut := (m.shutdownFd fd).shut } := by
  unfold Transport.shutdownFd
  split <;> rfl

lemma sweepSlot_eq (m : Transport) (i : ℕ) :
    sweepSlot m i = { m with shut := (sweepSlot m i).shut } := by
  unfold sweepSlot
  split
  · exact shutdownFd_eq m _
  · rfl

lemma destroyer_does (h : Does x o r) : r.mem.destroyer = x.mem.destroyer := by
  cases h with
  | shutdown =>
    rw [shutdownFd_eq]
  | sweep | lastSweep =>
    rw [sweepSlot_eq]
  | register =>
    simp only [registerThread]
    split <;> rfl
  | _ => rfl

/-- What a call has found. -/
inductive Calls (x : State) : Call → Transport → Kind × Code → Prop
  | create : x.mem.creating = false →
      Calls x .create { x.mem with creating := true } (.create, createCode)
  | addPeer : x.mem.created = true → x.mem.destroyer = none →
      Calls x .addPeer x.mem (.addPeer, addPeerCode)
  | destroy : x.mem.created = true → x.mem.destroyer = none → Idle x →
      Calls x .destroy { x.mem with destroyer := some x.count } (.destroy, destroyCode)

lemma calls_of_call {c : Call} {m : Transport} {k : Kind × Code}
    (h : program.call x c = some (m, k)) : Calls x c m k := by
  change call x c = some (m, k) at h
  unfold call at h
  split at h
  · split_ifs at h with hc
    cases h
    exact .create (eq_false_of_ne_true hc)
  · split_ifs at h with hc
    cases h
    exact .addPeer hc.1 hc.2
  · split_ifs at h with hc
    cases h
    exact .destroy hc.1 hc.2.1 hc.2.2

/-! ### The lock -/

/-- Which operations are done under `t->lock`, and which of them stay under it. -/
def sides : Op → Bool × Bool
  | .registerThread _ | .dial .countReconnect => (true, true)
  | .addPeer .allocate | .dial .checkStop | .dial .checkWait | .accept (.checkStop _)
  | .accept (.increment _) | .run (.acquire _) | .run (.setReady _ _) | .run (.checkStop _ _)
  | .run (.clear _) | .decrement _ | .broadcast _ | .destroy .requestStop | .destroy (.sweep _)
  | .destroy .copyThreads | .destroy .waitHandlers => (true, false)
  | _ => (false, false)

/-- **`t->lock` is taken and given up in turn**, on every path of every thread. -/
theorem disciplined : Disciplined program sides where
  next x o e r h := by
    cases does_of_exec h <;> rfl
  starts x o e r c h hc := by
    cases does_of_exec h <;> cases hc <;> rfl
  calls x c m c' h := by
    cases calls_of_call h <;> rfl

/-! ### Schedules -/

/-- `n` steps of thread `t`, none of which fails. -/
def ran (t n : ℕ) : List Label := List.replicate n (.run t .ok)

/-- A transport with one peer: thread 1 accepts, thread 3 dials. -/
def onePeer : List Label := .call .create :: ran 0 6 ++ .call .addPeer :: ran 2 8

end DaimDistributed.Shutdown
