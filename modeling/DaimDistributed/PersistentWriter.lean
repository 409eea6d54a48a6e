import DaimDistributed.FlowMod
import DaimDistributed.Transitions

/-!
What `ovs_persistent_adapter.c` writes to the switch: Flow-Mods for its callers, and echo
replies from the reader thread.

Everything a call touches it touches under the lock of the context, so that a call is one
step. What `send` returns is part of the label: nothing, or how many bytes the socket took.
-/

namespace DaimDistributed.PersistentWriter

open FlowString OfMessage FlowMod Transitions

/-- `struct persistent_context`, with natural numbers for its counters, and what the socket has
taken so far. -/
structure Context where
  nextXid : UInt32 := 100
  stream : List UInt8 := buildHello 1
  flowModsSent : ℕ := 0
  bytesSent : ℕ := 0
  echoRepliesSent : ℕ := 0
  deriving DecidableEq

/-- `send`, which returns -1 or takes a part of the message. -/
def Context.send (ctx : Context) (msg : List UInt8) (sent : Option ℕ) : Context :=
  { ctx with stream := ctx.stream ++ msg.take (sent.getD 0) }

/-- The functions for adding and deleting differ in the command only. The result is 0 or -1. -/
def persistentFlow (command : UInt8) (ctx : Context) (flow : List Char) (sent : Option ℕ) :
    Context × ℤ :=
  match parseFlowString flow with
  | none => (ctx, -1)
  | some f =>
    let msg := buildFlowMod ctx.nextXid command f
    let ctx := ({ ctx with nextXid := ctx.nextXid + 1 } : Context).send msg sent
    if sent = some msg.length then
      ({ ctx with
          flowModsSent := ctx.flowModsSent + 1, bytesSent := ctx.bytesSent + msg.length }, 0)
    else (ctx, -1)

def persistentFlowAdd : Context → List Char → Option ℕ → Context × ℤ := persistentFlow ofpfcAdd

def persistentFlowDelete : Context → List Char → Option ℕ → Context × ℤ :=
  persistentFlow ofpfcDelete

/-- The part of `reader_loop` that answers an `ECHO_REQUEST`. -/
def echoReply (ctx : Context) (xid : UInt32) (sent : Option ℕ) : Context :=
  let reply := buildEchoReply xid
  let ctx := ctx.send reply sent
  if sent = some reply.length then { ctx with echoRepliesSent := ctx.echoRepliesSent + 1 }
  else ctx

inductive Call
  | flowAdd (flow : List Char)
  | flowDelete (flow : List Char)
  | echoReply (xid : UInt32)
  deriving DecidableEq

/-- A call, and what its `send` returns. -/
structure Write where
  call : Call
  sent : Option ℕ
  deriving DecidableEq

/-- The message a call hands to `send`, if it gets there. -/
def Call.message (ctx : Context) : Call → Option (List UInt8)
  | .flowAdd flow => (parseFlowString flow).map (buildFlowMod ctx.nextXid ofpfcAdd)
  | .flowDelete flow => (parseFlowString flow).map (buildFlowMod ctx.nextXid ofpfcDelete)
  | .echoReply xid => some (buildEchoReply xid)

def Call.run (ctx : Context) (sent : Option ℕ) : Call → Context
  | .flowAdd flow => (persistentFlowAdd ctx flow sent).1
  | .flowDelete flow => (persistentFlowDelete ctx flow sent).1
  | .echoReply xid => PersistentWriter.echoReply ctx xid sent

/-- The socket takes no more than it is given. -/
def step (ctx : Context) (w : Write) : Option Context :=
  if (w.call.message ctx).all (fun msg => w.sent.getD 0 ≤ msg.length) then
    some (w.call.run ctx w.sent)
  else none

/-- An adapter whose handshake is done. -/
def system : Lts Context Write := ofFun (· = {}) step

/-! ### What a run has written -/

/-- The message of a step whose `send` took all of it. -/
def wholeMessage (p : Context × Write) : Option (List UInt8) :=
  (p.2.call.message p.1).filter fun msg => p.2.sent = some msg.length

/-- The socket took a part of the message only. -/
def Cut (p : Context × Write) : Prop :=
  ∃ msg k, p.2.call.message p.1 = some msg ∧ p.2.sent = some k ∧ 0 < k ∧ k < msg.length

/-- The socket took something. -/
def Puts (p : Context × Write) : Prop :=
  ∃ msg k, p.2.call.message p.1 = some msg ∧ p.2.sent = some k ∧ 0 < k

/-- No send puts anything behind a message of which the socket has taken a part only. -/
def NothingBehindCut (h : List (Context × Write)) : Prop :=
  ∀ h₁ p h₂, h = h₁ ++ p :: h₂ → Puts p → ∀ q ∈ h₁, ¬ Cut q

def isFlowMod (m : Message) : Bool := m.type = ofptFlowMod

/-- The socket has taken the messages `ms`, the HELLO and those of the sends that took all, and
behind them the part `rest` of one more. The counters count the Flow-Mods among `ms`. -/
structure Framed (h : List (Context × Write)) (ctx : Context) (ms : List Message)
    (rest : List UInt8) : Prop where
  stream : ctx.stream = ms.flatMap Message.bytes ++ rest
  whole : ms.map Message.bytes = buildHello 1 :: h.filterMap wholeMessage
  rest : rest = [] ∨ ∃ p ∈ h, ∃ msg, p.2.call.message p.1 = some msg ∧ rest <+: msg ∧ rest ≠ msg
  flowModsSent : ctx.flowModsSent = (ms.filter isFlowMod).length
  bytesSent : ctx.bytesSent = ((ms.filter isFlowMod).map Message.length).sum

/-! ### One call -/

def Call.isFlow : Call → Bool
  | .echoReply _ => false
  | _ => true

variable {ctx ctx' : Context} {c : Call} {w : Write} {msg : List UInt8} {sent : Option ℕ}
  {h : List (Context × Write)}

/-- What a call sends is a well-formed message. -/
lemma exists_message (hm : c.message ctx = some msg) :
    ∃ m : Message, m.bytes = msg ∧ isFlowMod m = c.isFlow := by
  have hflow : ∀ flow command, (parseFlowString flow).map (buildFlowMod ctx.nextXid command) =
      some msg → ∃ m : Message, m.bytes = msg ∧ isFlowMod m = true := by
    intro flow command hm
    obtain ⟨f, -, rfl⟩ := Option.map_eq_some_iff.mp hm
    obtain ⟨m, ht, hb⟩ := buildFlowMod_message f ctx.nextXid command
    exact ⟨m, hb, decide_eq_true ht⟩
  cases c with
  | flowAdd flow => exact hflow flow _ hm
  | flowDelete flow => exact hflow flow _ hm
  | echoReply xid =>
    cases hm
    exact ⟨⟨ofpVersion13, ofptEchoReply, xid, [], by decide⟩, List.append_nil _, rfl⟩

/-- What a call that sends leaves. -/
lemma run_some (hm : c.message ctx = some msg) (sent : Option ℕ) :
    (c.run ctx sent).stream = ctx.stream ++ msg.take (sent.getD 0) ∧
      (c.run ctx sent).flowModsSent =
        ctx.flowModsSent + (if c.isFlow ∧ sent = some msg.length then 1 else 0) ∧
      (c.run ctx sent).bytesSent =
        ctx.bytesSent + (if c.isFlow ∧ sent = some msg.length then msg.length else 0) := by
  have hflow : ∀ flow command, (parseFlowString flow).map (buildFlowMod ctx.nextXid command) =
      some msg →
      (persistentFlow command ctx flow sent).1.stream = ctx.stream ++ msg.take (sent.getD 0) ∧
      (persistentFlow command ctx flow sent).1.flowModsSent =
        ctx.flowModsSent + (if sent = some msg.length then 1 else 0) ∧
      (persistentFlow command ctx flow sent).1.bytesSent =
        ctx.bytesSent + (if sent = some msg.length then msg.length else 0) := by
    intro flow command hm
    obtain ⟨f, hf, rfl⟩ := Option.map_eq_some_iff.mp hm
    simp only [persistentFlow, hf]
    split_ifs <;> exact ⟨rfl, rfl, rfl⟩
  cases c with
  | flowAdd flow =>
    simp only [Call.isFlow, true_and]
    exact hflow flow _ hm
  | flowDelete flow =>
    simp only [Call.isFlow, true_and]
    exact hflow flow _ hm
  | echoReply xid =>
    cases hm
    simp only [Call.run, echoReply, Call.isFlow, Bool.false_eq_true, false_and, if_false]
    split_ifs <;> exact ⟨rfl, rfl, rfl⟩

/-- A flow string that cannot be parsed changes nothing. -/
lemma run_none (hm : c.message ctx = none) (sent : Option ℕ) : c.run ctx sent = ctx := by
  have hflow : ∀ flow command, (parseFlowString flow).map (buildFlowMod ctx.nextXid command) =
      none → (persistentFlow command ctx flow sent).1 = ctx := by
    intro flow command hm
    simp only [persistentFlow, Option.map_eq_none_iff.mp hm]
  cases c with
  | flowAdd flow => exact hflow flow _ hm
  | flowDelete flow => exact hflow flow _ hm
  | echoReply xid => cases hm

lemma step_some (hst : step ctx w = some ctx') :
    (w.call.message ctx = none ∧ ctx' = ctx) ∨
      ∃ msg, w.call.message ctx = some msg ∧ w.sent.getD 0 ≤ msg.length ∧
        ctx' = w.call.run ctx w.sent := by
  unfold step at hst
  split_ifs at hst with hle
  cases hst
  rcases hm : w.call.message ctx with _ | msg
  · exact .inl ⟨rfl, run_none hm _⟩
  · rw [hm] at hle
    exact .inr ⟨msg, rfl, by simpa using hle, rfl⟩

/-! ### A whole run -/

lemma nothingBehindCut_of_append {p : Context × Write} (hn : NothingBehindCut (h ++ [p])) :
    NothingBehindCut h := fun h₁ q h₂ he hq =>
  hn h₁ q (h₂ ++ [p]) (by simp [he]) hq

lemma filterMap_snoc_none {p : Context × Write} (hp : wholeMessage p = none) :
    (h ++ [p]).filterMap wholeMessage = h.filterMap wholeMessage := by
  simp [hp]

lemma Framed.mono {ms : List Message} {rest : List UInt8} {p : Context × Write}
    (hf : Framed h ctx ms rest) (hp : wholeMessage p = none) : Framed (h ++ [p]) ctx ms rest where
  stream := hf.stream
  whole := by rw [filterMap_snoc_none hp, hf.whole]
  rest := hf.rest.imp_right fun ⟨q, hq, hr⟩ => ⟨q, List.mem_append_left _ hq, hr⟩
  flowModsSent := hf.flowModsSent
  bytesSent := hf.bytesSent

/-- Nothing was cut, so nothing is left over. -/
def Tidy (h : List (Context × Write)) (rest : List UInt8) : Prop :=
  (∀ q ∈ h, ¬ Cut q) → rest = []

/-- The socket takes nothing. -/
lemma step_nothing {ms : List Message} {rest : List UInt8} (hf : Framed h ctx ms rest)
    (hm : w.call.message ctx = some msg) (hne : msg ≠ []) (h0 : w.sent.getD 0 = 0) :
    Framed (h ++ [(ctx, w)]) (w.call.run ctx w.sent) ms rest := by
  have hnw : ¬ w.sent = some msg.length := fun he => by
    rw [he, Option.getD_some] at h0
    exact hne (List.eq_nil_of_length_eq_zero h0)
  obtain ⟨hs, hc, hb⟩ := run_some hm w.sent
  have hwm : wholeMessage (ctx, w) = none := by simp [wholeMessage, hm, hnw]
  have hf' := hf.mono hwm
  rw [h0, List.take_zero, List.append_nil] at hs
  rw [if_neg fun hc => hnw hc.2, Nat.add_zero] at hc hb
  exact ⟨hs.trans hf'.stream, hf'.whole, hf'.rest, hc.trans hf'.flowModsSent,
    hb.trans hf'.bytesSent⟩

/-- The socket takes all of the message. -/
lemma step_whole {ms : List Message} (hf : Framed h ctx ms [])
    (hm : w.call.message ctx = some msg) (hall : w.sent = some msg.length) :
    ∃ m, Framed (h ++ [(ctx, w)]) (w.call.run ctx w.sent) (ms ++ [m]) [] := by
  obtain ⟨m, rfl, hfm⟩ := exists_message hm
  obtain ⟨hs, hc, hb⟩ := run_some hm w.sent
  have hwm : wholeMessage (ctx, w) = some m.bytes := by simp [wholeMessage, hm, hall]
  refine ⟨m, ?_, ?_, .inl rfl, ?_, ?_⟩
  · rw [hs, hf.stream, hall]
    simp
  · rw [List.map_append, hf.whole, List.filterMap_append]
    simp [hwm]
  · rw [hc, hf.flowModsSent, List.filter_append]
    cases hfl : w.call.isFlow <;> simp [hfm, hfl, hall]
  · rw [hb, hf.bytesSent, List.filter_append]
    cases hfl : w.call.isFlow <;> simp [hfm, hfl, hall]

/-- The socket takes a part of it. -/
lemma step_cut {ms : List Message} {k : ℕ} (hf : Framed h ctx ms [])
    (hm : w.call.message ctx = some msg) (hk : w.sent = some k) (hlt : k < msg.length) :
    Framed (h ++ [(ctx, w)]) (w.call.run ctx w.sent) ms (msg.take k) := by
  obtain ⟨hs, hc, hb⟩ := run_some hm w.sent
  have hnw : ¬ w.sent = some msg.length := by
    rw [hk]
    simp
    omega
  have hwm : wholeMessage (ctx, w) = none := by simp [wholeMessage, hm, hnw]
  have hf' := hf.mono hwm
  rw [if_neg fun hc => hnw hc.2, Nat.add_zero] at hc hb
  refine ⟨?_, hf'.whole, .inr ⟨(ctx, w), by simp, msg, hm, List.take_prefix _ _, ?_⟩,
    hc.trans hf'.flowModsSent, hb.trans hf'.bytesSent⟩
  · rw [hs, hf.stream, hk, List.append_nil, Option.getD_some]
  · intro he
    have := congrArg List.length he
    rw [List.length_take_of_le (Nat.le_of_lt hlt)] at this
    omega

lemma message_ne_nil (hm : w.call.message ctx = some msg) : msg ≠ [] := by
  obtain ⟨m, rfl, -⟩ := exists_message hm
  exact List.ne_nil_of_length_pos (by rw [length_bytes, Message.length, ofpHeaderSize]; omega)

/-- **What one step adds to the stream**, if nothing was cut before, or nothing is put there. -/
theorem step_framed {ms : List Message} {rest : List UInt8} (hf : Framed h ctx ms rest)
    (ht : Tidy h rest) (hn : Puts (ctx, w) → ∀ q ∈ h, ¬ Cut q) (hst : step ctx w = some ctx') :
    ∃ ms' rest', Framed (h ++ [(ctx, w)]) ctx' ms' rest' ∧ Tidy (h ++ [(ctx, w)]) rest' := by
  have hmono : Tidy (h ++ [(ctx, w)]) rest := fun hq => ht fun q hm =>
    hq q (List.mem_append_left _ hm)
  rcases step_some hst with ⟨hm, rfl⟩ | ⟨msg, hm, hle, rfl⟩
  · have hwm : wholeMessage (ctx', w) = none := by simp [wholeMessage, hm]
    exact ⟨ms, rest, hf.mono hwm, hmono⟩
  · rcases Nat.eq_zero_or_pos (w.sent.getD 0) with h0 | hpos
    · exact ⟨ms, rest, step_nothing hf hm (message_ne_nil hm) h0, hmono⟩
    · obtain ⟨k, hk⟩ : ∃ k, w.sent = some k := by
        cases hs : w.sent with
        | none => simp [hs] at hpos
        | some k => exact ⟨k, rfl⟩
      rw [hk, Option.getD_some] at hpos hle
      obtain rfl := ht (hn ⟨msg, k, hm, hk, hpos⟩)
      rcases Nat.lt_or_eq_of_le hle with hlt | rfl
      · refine ⟨ms, msg.take k, step_cut hf hm hk hlt, fun hq => ?_⟩
        exact absurd ⟨msg, k, hm, hk, hpos, hlt⟩ (hq (ctx, w) (by simp))
      · obtain ⟨m, hm'⟩ := step_whole hf hm hk
        exact ⟨ms ++ [m], [], hm', fun _ => rfl⟩

lemma fits_empty : ofpHeaderSize + ([] : List UInt8).length < 2 ^ 16 := by decide

/-- **The stream stays framed as long as nothing is put behind a message that was cut.** In every
run in which no send puts a byte behind a send of which the socket took a part only, the socket
has the HELLO and the messages that were taken as a whole, in order, and at most one more that
is incomplete, at the very end; and the counters count the Flow-Mods among the whole ones. -/
theorem stream_framed (hr : Run system h ctx) (hn : NothingBehindCut h) :
    ∃ ms rest, Framed h ctx ms rest := by
  have hall : ∃ ms rest, Framed h ctx ms rest ∧ Tidy h rest := by
    induction hr with
    | init h0 =>
      obtain rfl := h0
      refine ⟨[⟨ofpVersion13, ofptHello, 1, [], fits_empty⟩], [], ⟨rfl, rfl, .inl rfl, rfl, rfl⟩,
        fun _ => rfl⟩
    | @step h x y w _ hst ih =>
      obtain ⟨ms, rest, hf, ht⟩ := ih (nothingBehindCut_of_append hn)
      exact step_framed hf ht (fun hp => hn h (x, w) [] rfl hp) hst
  obtain ⟨ms, rest, hf, -⟩ := hall
  exact ⟨ms, rest, hf⟩

/-- An addition of the flow `ip`, of which the socket takes all 64 bytes. -/
def wholeAdd : Write := ⟨.flowAdd ['i', 'p'], some 64⟩

/-- And one of which it takes 10. -/
def cutAdd : Write := ⟨.flowAdd ['i', 'p'], some 10⟩

def afterAdd : Context := wholeAdd.call.run {} wholeAdd.sent

/-- Only the last message may be cut. -/
lemma nothingBehindCut_of_dropLast (hc : ∀ q ∈ h.dropLast, ¬ Cut q) : NothingBehindCut h := by
  rintro h₁ p h₂ rfl - q hq
  refine hc q ?_
  rw [List.dropLast_append_of_ne_nil (List.cons_ne_nil p h₂)]
  exact List.mem_append_left _ hq

/-- The second addition is cut, and nothing follows it. -/
theorem stream_framed_cutLast : ∃ ms rest, Framed [({}, wholeAdd), (afterAdd, cutAdd)]
    (cutAdd.call.run afterAdd cutAdd.sent) ms rest := by
  have h1 : step {} wholeAdd = some afterAdd := by decide
  have h2 : step afterAdd cutAdd = some (cutAdd.call.run afterAdd cutAdd.sent) := by decide
  have hlen : (wholeAdd.call.message {}).map List.length = some 64 := by decide
  refine stream_framed (Run.step (Run.step (.init rfl) h1) h2) (nothingBehindCut_of_dropLast ?_)
  intro q hq
  obtain rfl : q = ({}, wholeAdd) := by simpa using hq
  rintro ⟨msg, k, hm, hk, -, hlt⟩
  rw [hm, Option.map_some, Option.some_inj] at hlen
  cases hk
  omega

/-! ### A message behind one that was cut -/

def afterCut : Context := cutAdd.call.run {} cutAdd.sent

def afterWhole : Context := wholeAdd.call.run afterCut wholeAdd.sent

lemma cut_run : Run system [({}, cutAdd), (afterCut, wholeAdd)] afterWhole := by
  have h1 : step {} cutAdd = some afterCut := by decide
  have h2 : step afterCut wholeAdd = some afterWhole := by decide
  exact Run.step (Run.step (.init rfl) h1) h2

/-- The first addition is cut after 10 bytes, and the second follows it. -/
theorem whole_behind_cut : ∃ h ctx, Run system h ctx ∧ ¬ ∃ ms rest, Framed h ctx ms rest := by
  refine ⟨_, _, cut_run, ?_⟩
  rintro ⟨ms, rest, hf⟩
  have hw : [({}, cutAdd), (afterCut, wholeAdd)].filterMap wholeMessage =
      [buildFlowMod 101 ofpfcAdd { hasIp := true }] := by decide
  have hs := hf.stream
  rw [List.flatMap_def, hf.whole, hw] at hs
  have hlen : 16 ≤ [buildHello 1, buildFlowMod 101 ofpfcAdd { hasIp := true }].flatten.length := by
    decide
  have hne : afterWhole.stream.take 16 ≠
      [buildHello 1, buildFlowMod 101 ofpfcAdd { hasIp := true }].flatten.take 16 := by decide
  refine hne ?_
  rw [hs, List.take_append_of_le_length hlen]

end DaimDistributed.PersistentWriter
