import Mathlib.Tactic.Common

/-!
The signal table of `daim_core.c`.
-/

namespace DaimDistributed.Core

/-- The handlers that are registered with `daim_signal` in this repository. -/
inductive Sighandler
  | distributedLearning -- `on_no_rule` of `daim_distributed_learning_app.c`
  | learning -- `on_no_rule` of `daim_learning_app.c`
  | other
  deriving DecidableEq

def noRule : ℕ := 18

/-- `ENTITY_LEAVE + 1`. -/
def signalSlots : ℕ := 21

/-- The part of `struct core_state` that signals use. -/
structure CoreState where
  lockReady : Bool := false
  initialised : Bool := false
  signals : List (Option Sighandler) := List.replicate signalSlots none
  deriving DecidableEq

/-- With the mutex created. -/
def daimInit (c : CoreState) : CoreState :=
  if c.initialised then { c with lockReady := true }
  else ⟨true, true, List.replicate signalSlots none⟩

def daimQuit (c : CoreState) : CoreState :=
  if c.lockReady then { c with initialised := false, signals := List.replicate signalSlots none }
  else c

def daimSignal (c : CoreState) (sigType : ℕ) (handler : Option Sighandler) : CoreState :=
  if c.lockReady && c.initialised && decide (sigType < signalSlots) then
    { c with signals := c.signals.set sigType handler }
  else c

/-- The handler `daim_core_emit` calls; `none` where it returns `DAIM_CORE_ERROR`. -/
def daimCoreEmit (c : CoreState) (sigType : ℕ) : Option Sighandler :=
  if c.lockReady && c.initialised && decide (sigType < signalSlots) then
    (c.signals[sigType]?).join
  else none

/-- An initialised core calls the handler that was registered last. -/
lemma emit_signal {c : CoreState} (hl : c.lockReady = true) (hi : c.initialised = true)
    (hs : c.signals.length = signalSlots) {sigType : ℕ} (hlt : sigType < signalSlots)
    (handler : Option Sighandler) :
    daimCoreEmit (daimSignal c sigType handler) sigType = handler := by
  have h1 : sigType < c.signals.length := hs ▸ hlt
  simp [daimCoreEmit, daimSignal, hl, hi, hlt, h1]

end DaimDistributed.Core
