import DaimDistributed.BigEndian
import DaimDistributed.Delimited
import DaimDistributed.Protocol

/-!
What an OpenFlow 1.3 switch reads out of a Flow-Mod.

The decoder takes numbers off the front of the message, follows the lengths that stand in it
and refuses what it does not know. The order of the fields, the types and the padding are
those of the OpenFlow 1.3 wire protocol.
-/

namespace DaimDistributed.OfSwitch

open HostState BigEndian Delimited

/-- A field a flow can be matched by. -/
inductive MatchField
  | inPort (port : UInt32)
  | ethDst (mac : Mac)
  | ethType (type : UInt16)
  deriving DecidableEq

/-- `ofp_action_output`. -/
structure OutputAction where
  port : ℕ
  maxLen : ℕ
  deriving DecidableEq

/-- `ofp_flow_mod`. -/
structure FlowMod where
  xid : ℕ
  cookie : ℕ
  cookieMask : ℕ
  tableId : ℕ
  command : ℕ
  idleTimeout : ℕ
  hardTimeout : ℕ
  priority : ℕ
  bufferId : ℕ
  outPort : ℕ
  outGroup : ℕ
  flags : ℕ
  fields : List MatchField
  actions : List OutputAction
  deriving DecidableEq

/-- The next `n` bytes. -/
def chunk (n : ℕ) (s : List UInt8) : Option (List UInt8 × List UInt8) :=
  if s.length < n then none else some (s.take n, s.drop n)

/-- A number of `n` bytes. -/
def num (n : ℕ) (s : List UInt8) : Option (ℕ × List UInt8) :=
  (chunk n s).map fun r => (value r.1, r.2)

/-- Fields of the basic class, without a mask. -/
def matchField (cls field : ℕ) (hasMask : Bool) (payload : List UInt8) : Option MatchField :=
  if cls ≠ 0x8000 ∨ hasMask = true then none
  else if field = 0 ∧ payload.length = 4 then some (.inPort (.ofNat (value payload)))
  else if field = 3 ∧ payload.length = 6 then some (.ethDst (Protocol.getMac payload).1)
  else if field = 5 ∧ payload.length = 2 then some (.ethType (.ofNat (value payload)))
  else none

/-- The class has 16 bits, the field 7, the flag for a mask one, the length 8. -/
def readOxm (s : List UInt8) : Option (MatchField × List UInt8) := do
  let (header, s) ← num 4 s
  let (payload, s) ← chunk (header % 2 ^ 8) s
  let field ← matchField (header / 2 ^ 16) (header / 2 ^ 9 % 2 ^ 7) (header / 2 ^ 8 % 2 = 1) payload
  some (field, s)

/-- The next multiple of 8. -/
def padded (n : ℕ) : ℕ := (n + 7) / 8 * 8

/-- `ofp_match`; its length leaves the padding out. -/
def readMatch (s : List UInt8) : Option (List MatchField × List UInt8) := do
  let (type, s) ← num 2 s
  let (length, s) ← num 2 s
  let (oxms, s) ← chunk (length - 4) s
  let (padding, s) ← chunk (padded length - length) s
  let fields ← readAll readOxm oxms
  if type = 1 ∧ 4 ≤ length ∧ padding.all (· = 0) then some (fields, s) else none

/-- `OFPAT_OUTPUT` only. -/
def readAction (s : List UInt8) : Option (OutputAction × List UInt8) := do
  let (type, s) ← num 2 s
  let (length, s) ← num 2 s
  let (port, s) ← num 4 s
  let (maxLen, s) ← num 2 s
  let (_, s) ← chunk 6 s
  if type = 0 ∧ length = 16 then some (⟨port, maxLen⟩, s) else none

/-- `OFPIT_APPLY_ACTIONS` only. -/
def readInstruction (s : List UInt8) : Option (List OutputAction × List UInt8) := do
  let (type, s) ← num 2 s
  let (length, s) ← num 2 s
  let (_, s) ← chunk 4 s
  let (body, s) ← chunk (length - 8) s
  let actions ← readAll readAction body
  if type = 4 ∧ 8 ≤ length then some (actions, s) else none

def readFlowMod (msg : List UInt8) : Option FlowMod := do
  let (version, s) ← num 1 msg
  let (type, s) ← num 1 s
  let (length, s) ← num 2 s
  let (xid, s) ← num 4 s
  let (cookie, s) ← num 8 s
  let (cookieMask, s) ← num 8 s
  let (tableId, s) ← num 1 s
  let (command, s) ← num 1 s
  let (idleTimeout, s) ← num 2 s
  let (hardTimeout, s) ← num 2 s
  let (priority, s) ← num 2 s
  let (bufferId, s) ← num 4 s
  let (outPort, s) ← num 4 s
  let (outGroup, s) ← num 4 s
  let (flags, s) ← num 2 s
  let (_, s) ← chunk 2 s
  let (fields, s) ← readMatch s
  let instructions ← readAll readInstruction s
  if version = 4 ∧ type = 14 ∧ length = msg.length then
    some ⟨xid, cookie, cookieMask, tableId, command, idleTimeout, hardTimeout, priority, bufferId,
      outPort, outGroup, flags, fields, instructions.flatten⟩
  else none

/-- The flows a non-strict deletion takes away: those that have every field of its match. A
flow is the list of the fields it is matched by. -/
def FlowMod.selects (m : FlowMod) (flow : List MatchField) : Prop := ∀ fld ∈ m.fields, fld ∈ flow

/-! ### What is read back -/

lemma chunk_append {n : ℕ} {bs rest : List UInt8} (h : bs.length = n) :
    chunk n (bs ++ rest) = some (bs, rest) := by
  rw [chunk, if_neg (by rw [List.length_append]; omega), List.take_left' h, List.drop_left' h]

lemma num_bytes {n v : ℕ} (hv : v < 256 ^ n) (rest : List UInt8) :
    num n (bytes n v ++ rest) = some (v, rest) := by
  rw [num, chunk_append (length_bytes n v), Option.map_some, value_bytes hv]

end DaimDistributed.OfSwitch
