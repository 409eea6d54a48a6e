import DaimDistributed.OfMessage

/-!
How `ovs_persistent_adapter.c` reads what the switch sends: the HELLO in the handshake, and
every other message in the loop of the reader thread.

A stream is the list of the bytes still to be read. What `recv` and `send` return is given from
outside: a call may fail, a `recv` with `MSG_WAITALL` may be cut short (by the time limit of the
handshake, by a signal, by the end of the stream), and so may a `send`.
-/

namespace DaimDistributed.PersistentReader

open OfMessage

def bodySize : ℕ := 2048

def discardSize : ℕ := 256

/-- What the calls of one round return: `recv` for the header, `recv` for the body and `send`;
`none` where the call fails. -/
structure Outcome where
  header : Option ℕ
  body : Option ℕ
  sent : Option ℕ
  deriving DecidableEq

/-- The stream behind a `recv` of at most `asked` bytes. -/
def recv (s : List UInt8) (asked : ℕ) (n : Option ℕ) : List UInt8 := s.drop (min (n.getD 0) asked)

/-- One round of `reader_loop`: the bytes it sends and the stream behind what it has read.
`none` where it leaves the loop. -/
def readerRound (s : List UInt8) (o : Outcome) : Option (List UInt8 × List UInt8) :=
  if o.header ≠ some 8 then none
  else
    let header := s.take 8
    let s := recv s 8 o.header
    let len := headerLength header
    let xid := headerXid header
    let remaining := if 8 < len then len - 8 else 0
    let remaining := if bodySize < remaining then bodySize else remaining
    if 0 < remaining ∧ o.body.getD 0 = 0 then none
    else
      some (if headerType header = ofptEchoRequest then
          (buildEchoReply xid).take (o.sent.getD 0) else [],
        recv s remaining o.body)

/-- `do_handshake`, up to where it starts to read: its own HELLO is sent first. What the second
`recv` returns is not looked at. -/
def doHandshake (s : List UInt8) (o : Outcome) : Option (List UInt8) :=
  if o.sent ≠ some (buildHello 1).length then none
  else if o.header ≠ some 8 then none
  else
    let header := s.take 8
    let s := recv s 8 o.header
    let len := headerLength header
    if 8 < len then
      let remaining := len - 8
      let remaining := if discardSize < remaining then discardSize else remaining
      some (recv s remaining o.body)
    else some s

/-- How many bytes of a body are asked for with a buffer of `size` bytes. -/
def asked (size : ℕ) (s : List UInt8) : ℕ := min (headerLength (s.take 8) - 8) size

/-- No call returns more than it is asked for, and `recv` no more than there is. -/
structure Possible (size : ℕ) (s : List UInt8) (o : Outcome) : Prop where
  header : o.header.getD 0 ≤ min 8 s.length
  body : o.body.getD 0 ≤ min (asked size s) (s.drop 8).length
  sent : o.sent.getD 0 ≤ 8

/-- A run of `reader_loop` on the stream `s`: what its calls return round by round, what is left
of the stream whenever it starts to read a header, and the bytes it sends. -/
inductive ReaderLoop : List UInt8 → List Outcome → List (List UInt8) → List UInt8 → Prop
  | leave {s : List UInt8} {o : Outcome} (hp : Possible bodySize s o)
      (h : readerRound s o = none) : ReaderLoop s [o] [s] []
  | next {s r reply out : List UInt8} {o : Outcome} {os : List Outcome}
      {heads : List (List UInt8)} (hp : Possible bodySize s o)
      (h : readerRound s o = some (reply, r)) (hl : ReaderLoop r os heads out) :
      ReaderLoop s (o :: os) (s :: heads) (reply ++ out)
  /-- A `recv` waits for bytes that the switch has not sent. -/
  | wait {s : List UInt8} (h : s.length < 8 ∨ (s.drop 8).length < asked bodySize s) :
      ReaderLoop s [] [s] []

/-- What the switch sends. -/
def stream (ms : List Message) : List UInt8 := ms.flatMap Message.bytes

/-- What is left are the last messages, all of them whole. -/
def AtBoundary (ms : List Message) (r : List UInt8) : Prop := ∃ j, r = stream (ms.drop j)

/-- The reply that a message is to be answered with. -/
def reply (m : Message) : Option (List UInt8) :=
  if m.type = ofptEchoRequest then some (buildEchoReply m.xid) else none

/-- The replies to all the messages, in order. -/
def replies (ms : List Message) : List UInt8 := (ms.filterMap reply).flatten

/-- A round at `m` stays in the loop: the header is there and the body, where there is one, is
not refused. -/
def Passes (m : Message) (o : Outcome) : Prop :=
  o.header = some 8 ∧ (0 < m.body.length → o.body.getD 0 ≠ 0)

/-- The body fits and is received whole, and the reply is sent whole. -/
structure Served (m : Message) (o : Outcome) : Prop where
  fits : m.length ≤ 2056
  body : o.body.getD 0 = m.body.length
  sent : m.type = ofptEchoRequest → o.sent = some 8

/-- Every message is served, up to the end or up to a round that leaves the loop when no
ECHO_REQUEST is left. -/
inductive Orderly : List Message → List Outcome → Prop
  | done {os : List Outcome} : Orderly [] os
  | left {m : Message} {ms : List Message} {o : Outcome} {os : List Outcome} (h : ¬ Passes m o)
      (hq : ∀ m' ∈ m :: ms, m'.type ≠ ofptEchoRequest) : Orderly (m :: ms) (o :: os)
  | served {m : Message} {ms : List Message} {o : Outcome} {os : List Outcome} (hp : Passes m o)
      (hm : Served m o) (h : Orderly ms os) : Orderly (m :: ms) (o :: os)

/-! ### One message -/

section
variable (m : Message) (rest : List UInt8) (o : Outcome)

lemma length_eq : m.length = 8 + m.body.length := rfl

lemma take_message : (m.bytes ++ rest).take 8 = m.header := take_bytes m rest

lemma drop_message : (m.bytes ++ rest).drop 8 = m.body ++ rest := drop_bytes m rest

lemma asked_message (size : ℕ) : asked size (m.bytes ++ rest) = min m.body.length size := by
  rw [asked, take_message, headerLength_header, length_eq, Nat.add_sub_cancel_left]

/-- What a round at `m` sends. -/
def answer : List UInt8 :=
  if m.type = ofptEchoRequest then (buildEchoReply m.xid).take (o.sent.getD 0) else []

lemma remaining_eq (size : ℕ) : (if size < (if 8 < m.length then m.length - 8 else 0) then size
    else (if 8 < m.length then m.length - 8 else 0)) = min m.body.length size := by
  have hL := length_eq m
  split_ifs <;> omega

variable {o} in
/-- The body is taken as far as the buffer reaches. -/
lemma round_passes (h : Passes m o) : readerRound (m.bytes ++ rest) o =
    some (answer m o, recv (m.body ++ rest) (min m.body.length bodySize) o.body) := by
  obtain ⟨hh, hb⟩ := h
  have hgo : ¬ (0 < min m.body.length bodySize ∧ o.body.getD 0 = 0) := by
    rintro ⟨hpos, hz⟩
    exact hb (lt_of_lt_of_le hpos (min_le_left _ _)) hz
  have hrecv : recv (m.bytes ++ rest) 8 (some 8) = m.body ++ rest := drop_message m rest
  simp only [readerRound, hh, ne_eq, not_true, if_false, take_message, hrecv,
    headerLength_header, headerType_header, headerXid_header, remaining_eq, if_neg hgo, answer]

lemma round_none (h : ¬ Passes m o) : readerRound (m.bytes ++ rest) o = none := by
  by_cases hh : o.header = some 8
  · have hb : 0 < m.body.length ∧ o.body.getD 0 = 0 := by
      by_contra hb
      exact h ⟨hh, fun hpos hz => hb ⟨hpos, hz⟩⟩
    have hstop : 0 < min m.body.length bodySize ∧ o.body.getD 0 = 0 :=
      ⟨lt_min hb.1 (by decide), hb.2⟩
    simp only [readerRound, hh, ne_eq, not_true, if_false, take_message, headerLength_header,
      remaining_eq, if_pos hstop]
  · simp only [readerRound, ne_eq, hh, not_false_eq_true, if_true]

variable {o} in
lemma handshake_message {s : List UInt8} (h : doHandshake (m.bytes ++ rest) o = some s) :
    s = recv (m.body ++ rest) (min m.body.length discardSize) o.body := by
  have hL := length_eq m
  unfold doHandshake at h
  split_ifs at h with hs hh
  rw [not_not] at hh
  have hrecv : recv (m.bytes ++ rest) 8 (some 8) = m.body ++ rest := drop_message m rest
  simp only [hh, hrecv, take_message, headerLength_header] at h
  split_ifs at h with h8 hd
  · rw [← Option.some.inj h, min_eq_right (by omega)]
  · rw [← Option.some.inj h, min_eq_left (by omega), hL, Nat.add_sub_cancel_left]
  · have hz : m.body.length = 0 := by omega
    rw [← Option.some.inj h, hz, recv, Nat.zero_min, Nat.min_zero, List.drop_zero]

end

/-! ### Boundaries -/

section
variable {m : Message} {ms : List Message} {r s : List UInt8}

lemma stream_cons : stream (m :: ms) = m.bytes ++ stream ms := List.flatMap_cons

lemma length_stream_cons :
    (stream (m :: ms)).length = 8 + m.body.length + (stream ms).length := by
  rw [stream_cons, List.length_append, length_bytes, length_eq]

lemma length_drop_le (ms : List Message) (j : ℕ) : (stream (ms.drop j)).length ≤
    (stream ms).length := by
  conv_rhs => rw [← List.take_append_drop j ms, stream, List.flatMap_append, List.length_append]
  exact Nat.le_add_left _ _

lemma atBoundary_self (ms : List Message) : AtBoundary ms (stream ms) := ⟨0, rfl⟩

lemma AtBoundary.cons (h : AtBoundary ms r) : AtBoundary (m :: ms) r := by
  obtain ⟨j, hj⟩ := h
  exact ⟨j + 1, hj⟩

/-- Once the message is behind, it is out of the way. -/
lemma AtBoundary.tail (h : AtBoundary (m :: ms) r) (hr : r.length ≤ (stream ms).length) :
    AtBoundary ms r := by
  obtain ⟨j, rfl⟩ := h
  rcases j with _ | j
  · rw [List.drop_zero, length_stream_cons] at hr
    omega
  · exact ⟨j, rfl⟩

/-- Inside a message there is no boundary. -/
lemma AtBoundary.outside (h : AtBoundary (m :: ms) r)
    (hlt : r.length < (stream (m :: ms)).length) : r.length ≤ (stream ms).length := by
  obtain ⟨j, rfl⟩ := h
  rcases j with _ | j
  · exact absurd hlt (lt_irrefl _)
  · exact length_drop_le ms j

/-- The `recv` of a body ends at a boundary only where it gives the whole of it. -/
lemma recv_body {size : ℕ} {n : Option ℕ} (hn : n.getD 0 ≤ min m.body.length size)
    (hb : AtBoundary (m :: ms) (recv (m.body ++ stream ms) (min m.body.length size) n)) :
    n.getD 0 = m.body.length := by
  have hlen : (recv (m.body ++ stream ms) (min m.body.length size) n).length =
      m.body.length + (stream ms).length - n.getD 0 := by
    rw [recv, min_eq_left hn, List.length_drop, List.length_append]
  have hle := hb.outside (by rw [hlen, length_stream_cons]; omega)
  rw [hlen] at hle
  omega

lemma recv_whole {size : ℕ} {n : Option ℕ} (hn : n.getD 0 = m.body.length)
    (hs : m.body.length ≤ size) :
    recv (m.body ++ stream ms) (min m.body.length size) n = stream ms := by
  rw [recv, hn, min_eq_left hs, min_self, List.drop_left]

end

/-! ### A run of the loop -/

section
variable {m : Message} {ms : List Message} {s r out : List UInt8} {o : Outcome}
  {os : List Outcome} {heads : List (List UInt8)}

lemma ReaderLoop.head_mem (h : ReaderLoop s os heads out) : s ∈ heads := by
  cases h <;> exact List.mem_cons_self

lemma round_length (hr : readerRound s o = some (out, r)) : r.length ≤ s.length := by
  unfold readerRound at hr
  split_ifs at hr
  simp only [Option.ite_none_left_eq_some, Option.some.injEq, Prod.mk.injEq] at hr
  obtain ⟨-, -, rfl⟩ := hr
  simp only [recv, List.length_drop]
  omega

lemma ReaderLoop.heads_le (h : ReaderLoop s os heads out) : ∀ r ∈ heads,
    r.length ≤ s.length := by
  induction h with
  | leave => simp
  | wait => simp
  | next _ hr _ ih =>
    rintro x (_ | ⟨_, hx⟩)
    · exact le_refl _
    · exact (ih x hx).trans (round_length hr)

/-- With nothing left to read the loop reads no message and sends nothing. -/
lemma ReaderLoop.nil (h : ReaderLoop [] os heads out) : heads = [[]] ∧ out = [] := by
  cases h with
  | leave => exact ⟨rfl, rfl⟩
  | wait => exact ⟨rfl, rfl⟩
  | @next _ r _ _ o _ _ hp hr _ =>
    have hh := hp.header
    have h8 : o.header ≠ some 8 := by
      intro h8
      rw [h8] at hh
      exact absurd hh (by decide)
    rw [readerRound, if_pos h8] at hr
    cases hr

/-- With a message left to read there is a round, and the loop is left or goes on behind what
it has read. -/
lemma ReaderLoop.cons (h : ReaderLoop (stream (m :: ms)) os heads out) :
    ∃ o os', os = o :: os' ∧ o.body.getD 0 ≤ min m.body.length bodySize ∧ o.sent.getD 0 ≤ 8 ∧
      (¬ Passes m o ∧ heads = [stream (m :: ms)] ∧ out = [] ∨
        Passes m o ∧ ∃ heads' out',
          ReaderLoop (recv (m.body ++ stream ms) (min m.body.length bodySize) o.body) os' heads'
            out' ∧
          heads = stream (m :: ms) :: heads' ∧ out = answer m o ++ out') := by
  rw [stream_cons] at h ⊢
  cases h with
  | @leave _ o hp hr =>
    have hb := hp.body
    rw [asked_message] at hb
    refine ⟨o, [], rfl, hb.trans (min_le_left _ _), hp.sent, .inl ⟨fun hpass => ?_, rfl, rfl⟩⟩
    rw [round_passes m _ hpass] at hr
    cases hr
  | @next _ r reply out' o os' heads' hp hr hl =>
    have hb := hp.body
    rw [asked_message] at hb
    have hpass : Passes m o := by
      by_contra hpass
      rw [round_none m _ o hpass] at hr
      cases hr
    rw [round_passes m _ hpass] at hr
    cases hr
    exact ⟨o, os', rfl, hb.trans (min_le_left _ _), hp.sent,
      .inr ⟨hpass, heads', out', hl, rfl, rfl⟩⟩
  | wait hw =>
    -- the message is there, so neither call waits
    exfalso
    rw [asked_message, drop_message, List.length_append, List.length_append, length_bytes,
      length_eq] at hw
    omega

end

/-! ### Orderly runs and aligned runs -/

section
variable {m : Message} {ms : List Message} {out : List UInt8} {o : Outcome}
  {os : List Outcome} {heads : List (List UInt8)}

lemma replies_cons (m : Message) (ms : List Message) :
    replies (m :: ms) = (reply m).getD [] ++ replies ms := by
  rcases h : reply m with _ | b
  · rw [replies, List.filterMap_cons_none h, Option.getD_none, List.nil_append, replies]
  · rw [replies, List.filterMap_cons_some h, List.flatten_cons, Option.getD_some, replies]

lemma replies_quiet (h : ∀ m ∈ ms, m.type ≠ ofptEchoRequest) : replies ms = [] := by
  have hnone : ms.filterMap reply = [] := List.filterMap_eq_nil_iff.2 fun m hm => if_neg (h m hm)
  rw [replies, hnone, List.flatten_nil]

lemma quiet_of_replies (h : replies ms = []) : ∀ m ∈ ms, m.type ≠ ofptEchoRequest := by
  intro m hm ht
  have hmem : buildEchoReply m.xid ∈ ms.filterMap reply :=
    List.mem_filterMap.2 ⟨m, hm, if_pos ht⟩
  have hnil : buildEchoReply m.xid = [] := List.flatten_eq_nil_iff.1 h _ hmem
  cases hnil

lemma length_reply (xid : UInt32) : (buildEchoReply xid).length = 8 := by
  simp [buildEchoReply, putU8, putU16, putU32]

/-- A round sends no more than the reply, and the reply only where `send` takes all of it. -/
lemma answer_le : (answer m o).length ≤ ((reply m).getD []).length := by
  unfold answer reply
  split_ifs
  · exact List.length_take_le' _ _
  · exact le_refl _

lemma answer_eq (h : m.type = ofptEchoRequest → o.sent = some 8) :
    answer m o = (reply m).getD [] := by
  unfold answer reply
  split_ifs with ht
  · rw [h ht, Option.getD_some, Option.getD_some, List.take_of_length_le (length_reply _).le]
  · rfl

lemma sent_of_length (hs : o.sent.getD 0 ≤ 8)
    (h : (answer m o).length = ((reply m).getD []).length) :
    m.type = ofptEchoRequest → o.sent = some 8 := by
  intro ht
  unfold answer reply at h
  rw [if_pos ht, if_pos ht, Option.getD_some, List.length_take, length_reply] at h
  rcases hsent : o.sent with _ | n
  · rw [hsent] at h
    exact absurd h (by decide)
  · rw [hsent, Option.getD_some] at h hs
    rw [show n = 8 by omega]

/-- Where every message is served, headers start at boundaries and the replies are exact. -/
lemma aligned_of_orderly (ho : Orderly ms os) (hl : ReaderLoop (stream ms) os heads out) :
    (∀ r ∈ heads, AtBoundary ms r) ∧ out = replies ms := by
  induction ho generalizing heads out with
  | done =>
    obtain ⟨rfl, rfl⟩ := hl.nil
    exact ⟨fun r hr => List.mem_singleton.1 hr ▸ atBoundary_self [], rfl⟩
  | left hleft hq =>
    obtain ⟨o', os', hos, -, -, ⟨-, rfl, rfl⟩ | ⟨hpass, -⟩⟩ := hl.cons
    · exact ⟨fun r hr => List.mem_singleton.1 hr ▸ atBoundary_self _, (replies_quiet hq).symm⟩
    · cases hos
      exact absurd hpass hleft
  | @served m ms o os hp hm _ ih =>
    obtain ⟨o', os', hos, -, -, ⟨hleft, -⟩ | ⟨-, heads', out', hl', rfl, rfl⟩⟩ := hl.cons
    · cases hos
      exact absurd hp hleft
    cases hos
    have hfit : m.body.length ≤ bodySize := Nat.le_of_add_le_add_left hm.fits
    rw [recv_whole hm.body hfit] at hl'
    obtain ⟨hal, rfl⟩ := ih hl'
    refine ⟨?_, by rw [replies_cons, answer_eq hm.sent]⟩
    rintro r (_ | ⟨_, hr⟩)
    · exact atBoundary_self _
    · exact (hal r hr).cons

/-- Aligned at the next header, the round has read the whole body. -/
lemma round_aligned (hn : o.body.getD 0 ≤ min m.body.length bodySize)
    (hl : ReaderLoop (recv (m.body ++ stream ms) (min m.body.length bodySize) o.body) os heads
      out)
    (hal : ∀ r ∈ stream (m :: ms) :: heads, AtBoundary (m :: ms) r) :
    m.length ≤ 2056 ∧ o.body.getD 0 = m.body.length ∧ ReaderLoop (stream ms) os heads out ∧
      ∀ r ∈ heads, AtBoundary ms r := by
  have hbody := recv_body hn (hal _ (List.mem_cons_of_mem _ hl.head_mem))
  have hfit : m.body.length ≤ bodySize := by omega
  rw [recv_whole hbody hfit] at hl
  exact ⟨Nat.add_le_add_left hfit 8, hbody, hl, fun r hr =>
    (hal r (List.mem_cons_of_mem _ hr)).tail (hl.heads_le r hr)⟩

/-- An aligned run sends no more than the replies, and these only if it is orderly. -/
lemma orderly_of_aligned (hl : ReaderLoop (stream ms) os heads out)
    (hal : ∀ r ∈ heads, AtBoundary ms r) :
    out.length ≤ (replies ms).length ∧ (out.length = (replies ms).length → Orderly ms os) := by
  induction ms generalizing os heads out with
  | nil =>
    obtain ⟨-, rfl⟩ := hl.nil
    exact ⟨le_refl _, fun _ => .done⟩
  | cons m ms ih =>
    obtain ⟨o, os', rfl, hn, hsent, ⟨hleft, rfl, rfl⟩ | ⟨hp, heads', out', hl', rfl, rfl⟩⟩ :=
      hl.cons
    · refine ⟨Nat.zero_le _, fun h => .left hleft (quiet_of_replies ?_)⟩
      exact List.length_eq_zero_iff.1 h.symm
    · obtain ⟨hfit, hbody, hloop, htail⟩ := round_aligned hn hl' hal
      obtain ⟨hle, hord⟩ := ih hloop htail
      have hans : (answer m o).length ≤ ((reply m).getD []).length := answer_le
      rw [replies_cons, List.length_append, List.length_append]
      refine ⟨Nat.add_le_add hans hle, fun h => ?_⟩
      have hsame : (answer m o).length = ((reply m).getD []).length := by omega
      exact .served hp ⟨hfit, hbody, sent_of_length hsent hsame⟩ (hord (by omega))

end

/-! ### Runs in which no call fails -/

/-- Every `recv` gives all it is asked for and every `send` takes all it is given. -/
inductive Prompt : List UInt8 → List Outcome → Prop
  | wait {s : List UInt8} : Prompt s []
  | next {s reply r : List UInt8} {o : Outcome} {os : List Outcome} (header : o.header = some 8)
      (body : o.body.getD 0 = asked bodySize s)
      (sent : headerType (s.take 8) = ofptEchoRequest → o.sent = some 8)
      (hr : readerRound s o = some (reply, r)) (h : Prompt r os) : Prompt s (o :: os)

/-- Then the condition is that the bodies fit. -/
theorem orderly_iff_of_prompt {ms : List Message} {out : List UInt8} {os : List Outcome}
    {heads : List (List UInt8)} (hl : ReaderLoop (stream ms) os heads out)
    (hq : Prompt (stream ms) os) : Orderly ms os ↔ ∀ m ∈ ms, m.length ≤ 2056 := by
  induction ms generalizing os heads out with
  | nil => exact ⟨fun _ m hm => absurd hm List.not_mem_nil, fun _ => .done⟩
  | cons m ms ih =>
    obtain ⟨o, os', rfl, -, -, hround⟩ := hl.cons
    rw [stream_cons] at hq
    cases hq with
    | next header body sent hr hq =>
    rw [asked_message] at body
    rw [take_message, headerType_header] at sent
    have hp : Passes m o :=
      ⟨header, fun hpos => by rw [body]; exact (lt_min hpos (by decide)).ne'⟩
    obtain ⟨hleft, -⟩ | ⟨-, heads', out', hl', -, -⟩ := hround
    · exact absurd hp hleft
    rw [round_passes m _ hp] at hr
    cases hr
    have hserved : Served m o ↔ m.length ≤ 2056 := by
      refine ⟨Served.fits, fun hfit => ⟨hfit, ?_, sent⟩⟩
      rw [body, min_eq_left (Nat.le_of_add_le_add_left hfit)]
    have hrest : m.length ≤ 2056 → (Orderly ms os' ↔ ∀ m ∈ ms, m.length ≤ 2056) := by
      intro hfit
      rw [recv_whole (hserved.2 hfit).body (Nat.le_of_add_le_add_left hfit)] at hl' hq
      exact ih hl' hq
    rw [List.forall_mem_cons]
    constructor
    · rintro (_ | ⟨hleft, -⟩ | ⟨-, hm, ho⟩)
      · exact absurd hp hleft
      · exact ⟨hm.fits, (hrest hm.fits).1 ho⟩
    · rintro ⟨hfit, hall⟩
      exact .served hp (hserved.2 hfit) ((hrest hfit).2 hall)

/-- **The reader stays aligned exactly as long as the bodies fit and come whole.** Every header
read starts at a message boundary, and the ECHO_REQUESTs behind the HELLO have their replies, one
each and in order, if and only if the HELLO has at most 264 bytes, its body is received whole, and
every later message has at most 2056 bytes and is served, up to the end or to a round that leaves
the loop when no ECHO_REQUEST is left. -/
theorem aligned_iff {hello : Message} {ms : List Message} {o : Outcome} {os : List Outcome}
    {s out : List UInt8} {heads : List (List UInt8)}
    (hp : Possible discardSize (stream (hello :: ms)) o)
    (hs : doHandshake (stream (hello :: ms)) o = some s) (hl : ReaderLoop s os heads out) :
    ((∀ r ∈ stream (hello :: ms) :: heads, AtBoundary (hello :: ms) r) ∧ out = replies ms) ↔
      hello.length ≤ 264 ∧ o.body.getD 0 = hello.body.length ∧ Orderly ms os := by
  have hn := hp.body
  rw [stream_cons] at hs hn
  rw [asked_message] at hn
  have hn' : o.body.getD 0 ≤ min hello.body.length discardSize := hn.trans (min_le_left _ _)
  have hs' := handshake_message hello _ hs
  subst hs'
  constructor
  · rintro ⟨hal, hout⟩
    have hbody := recv_body hn' (hal _ (List.mem_cons_of_mem _ hl.head_mem))
    have hfit : hello.body.length ≤ discardSize := by omega
    rw [recv_whole hbody hfit] at hl
    refine ⟨Nat.add_le_add_left hfit 8, hbody, (orderly_of_aligned hl fun r hr => ?_).2
      (by rw [hout])⟩
    exact (hal r (List.mem_cons_of_mem _ hr)).tail (hl.heads_le r hr)
  · rintro ⟨hfit, hbody, ho⟩
    rw [recv_whole hbody (Nat.le_of_add_le_add_left hfit)] at hl
    obtain ⟨hal, hout⟩ := aligned_of_orderly ho hl
    refine ⟨?_, hout⟩
    rintro r (_ | ⟨_, hr⟩)
    · exact atBoundary_self _
    · exact (hal r hr).cons

/-! ### A round trip and a long packet -/

lemma fits_nil : ofpHeaderSize + ([] : List UInt8).length < 2 ^ 16 := by decide

lemma fits_three : ofpHeaderSize + ([1, 2, 3] : List UInt8).length < 2 ^ 16 := by decide

lemma fits_zeros : ofpHeaderSize + (List.replicate 2049 (0 : UInt8)).length < 2 ^ 16 := by
  rw [List.length_replicate]
  decide

def plainHello : Message := ⟨ofpVersion13, ofptHello, 1, [], fits_nil⟩

def echoRequest : Message := ⟨ofpVersion13, ofptEchoRequest, 5, [1, 2, 3], fits_three⟩

/-- An `OFPT_PACKET_IN` of 2057 bytes. -/
def longPacketIn : Message := ⟨ofpVersion13, 10, 1, List.replicate 2049 0, fits_zeros⟩

/-- An ECHO_REQUEST with three bytes of data, received whole and answered. -/
theorem aligned_echo : (∀ r ∈ [stream [plainHello, echoRequest], stream [echoRequest], []],
      AtBoundary [plainHello, echoRequest] r) ∧ buildEchoReply 5 ++ [] = replies [echoRequest] := by
  have hp : Possible discardSize (stream [plainHello, echoRequest]) ⟨some 8, none, some 8⟩ := by
    constructor <;> decide
  have hr : Possible bodySize (stream [echoRequest]) ⟨some 8, some 3, some 8⟩ := by
    constructor <;> decide
  have hl : ReaderLoop (stream [echoRequest]) [⟨some 8, some 3, some 8⟩]
      [stream [echoRequest], []] (buildEchoReply 5 ++ []) :=
    .next hr (by decide) (.wait (.inl (by decide)))
  have ho : Orderly [echoRequest] [⟨some 8, some 3, some 8⟩] :=
    .served ⟨rfl, by decide⟩ ⟨by decide, rfl, fun _ => rfl⟩ .done
  exact (aligned_iff hp (by decide) hl).2 ⟨by decide, rfl, ho⟩

/-- Every call gives all it is asked for, and behind the 2048 bytes of the body that are read
the loop takes the last one for the start of a header. -/
theorem long_packet_misaligns :
    doHandshake (stream [plainHello, longPacketIn]) ⟨some 8, none, some 8⟩ =
        some (stream [longPacketIn]) ∧
      ReaderLoop (stream [longPacketIn]) [⟨some 8, some 2048, none⟩] [stream [longPacketIn], [0]]
        [] ∧
      Prompt (stream [longPacketIn]) [⟨some 8, some 2048, none⟩] ∧
      ¬ AtBoundary [plainHello, longPacketIn] [0] := by
  have hbody : longPacketIn.body = List.replicate 2049 0 := rfl
  have hlen : longPacketIn.body.length = 2049 := by rw [hbody, List.length_replicate]
  have hround : readerRound (stream [longPacketIn]) ⟨some 8, some 2048, none⟩ =
      some ([], [0]) := by
    have hp : Passes longPacketIn ⟨some 8, some 2048, none⟩ := ⟨rfl, fun _ => by decide⟩
    rw [stream_cons, round_passes _ _ hp, hlen, hbody]
    decide +kernel
  have hpos : Possible bodySize (stream [longPacketIn]) ⟨some 8, some 2048, none⟩ := by
    rw [stream_cons]
    refine ⟨?_, ?_, Nat.zero_le _⟩
    · rw [List.length_append, length_bytes, length_eq, hlen]
      decide
    · rw [asked_message, drop_message, List.length_append, hlen]
      decide
  have hasked : asked bodySize (stream [longPacketIn]) = 2048 := by
    rw [stream_cons, asked_message, hlen]
    rfl
  have hsent : headerType ((stream [longPacketIn]).take 8) = ofptEchoRequest →
      (none : Option ℕ) = some 8 := by
    rw [stream_cons, take_message]
    decide
  refine ⟨?_, .next hpos hround (.wait (.inl (by decide))),
    .next rfl hasked.symm hsent hround .wait, ?_⟩
  · have h : stream [plainHello, longPacketIn] = plainHello.bytes ++ stream [longPacketIn] :=
      stream_cons
    rw [h, doHandshake]
    decide +kernel
  · intro hb
    have hlong : (stream [longPacketIn]).length = 2057 := by rw [length_stream_cons, hlen]; rfl
    have hhello : ([0] : List UInt8).length < (stream [plainHello, longPacketIn]).length := by
      rw [length_stream_cons, hlong]
      decide
    have hin := (hb.tail (hb.outside hhello)).outside (by rw [hlong]; decide)
    exact absurd hin (by decide)

end DaimDistributed.PersistentReader
