import DaimDistributed.FlowMod

/-!
What `parse_flow_string` accepts, and what a deletion built from it takes away.

A token that is not recognised is passed over, so a string may hold more than documented
fields; what the documented fields in it say is kept.
-/

namespace DaimDistributed.FlowGrammar

open HostState CText FlowString FlowMod OfSwitch

variable {s tok v : List Char} {flds : List Field} {fld : Field} {f : ParsedFlow}

/-- The string is a list of documented fields, and of nothing else. -/
def Documented (s : List Char) : Prop := ∃ flds, List.Forall₂ Writes flds (s.splitOn ',')

/-- The flow has every match field that was written, the last one where a kind was written more
than once. -/
structure Satisfies (flow : List MatchField) (flds : List Field) : Prop where
  inPort : ∀ port, lastOf Field.inPort? flds = some port → .inPort port ∈ flow
  dlDst : ∀ mac, lastOf Field.dlDst? flds = some mac → .ethDst mac ∈ flow
  ip : .ip ∈ flds → .ethType ethTypeIpv4 ∈ flow

lemma not_writes (h : Unrecognised tok) : ¬ Writes fld tok := fun hw => by
  cases hw with
  | priority => exact h.priority (List.prefix_append _ _)
  | inPort => exact h.inPort (List.prefix_append _ _)
  | dlDst => exact h.dlDst (List.prefix_append _ _)
  | ip => exact h.ip rfl
  | output => exact h.output (List.prefix_append _ _)
  | normal => exact h.normal rfl

/-- An address that cannot be read fails, whatever was parsed before. -/
lemma parseToken_bad_mac (h : parseMac v = none) : parseToken f (dlDstKey ++ v) = none := by
  have hd : (dlDstKey ++ v).drop 7 = v := rfl
  have h1 : ¬ priorityKey.isPrefixOf (dlDstKey ++ v) = true := Bool.false_ne_true
  have h2 : ¬ inPortKey.isPrefixOf (dlDstKey ++ v) = true := Bool.false_ne_true
  have h3 : dlDstKey.isPrefixOf (dlDstKey ++ v) = true := rfl
  rw [parseToken, if_neg h1, if_neg h2, if_pos h3, hd, h]

lemma foldlM_bad {toks : List (List Char)} (hm : tok ∈ toks) (hbad : ∀ f, parseToken f tok = none)
    (f : ParsedFlow) : toks.foldlM parseToken f = none := by
  induction toks generalizing f with
  | nil => cases hm
  | cons t toks ih =>
    rw [List.foldlM_cons]
    rcases List.mem_cons.mp hm with rfl | hm
    · rw [hbad f]
      rfl
    · cases parseToken f t with
      | none => rfl
      | some g => exact ih hm g

lemma parse_bad_mac (hm : dlDstKey ++ v ∈ s.splitOn ',') (h : parseMac v = none) :
    parseFlowString s = none := by
  unfold parseFlowString
  split_ifs
  · rfl
  · have hne : dlDstKey ++ v ≠ [] := List.append_ne_nil_of_left_ne_nil (by decide) v
    have hm' : dlDstKey ++ v ∈ strtok ',' s := List.mem_filter.mpr ⟨hm, decide_eq_true hne⟩
    exact foldlM_bad hm' (fun _ => parseToken_bad_mac h) _

/-- **A flow that a deletion takes away has every field that the record has.** -/
theorem satisfies_of_selects (hf : Denotes flds f) {flow : List MatchField} (xid : UInt32)
    (command : UInt8) (h : (readBack xid command f).selects flow) : Satisfies flow flds := by
  have hmem : ∀ fld ∈ matchFields f, fld ∈ flow := h
  simp only [matchFields, List.mem_append] at hmem
  constructor
  · intro port hp
    rw [← hf.inPort, ParsedFlow.inPort?] at hp
    split_ifs at hp with h1
    cases hp
    exact hmem _ (.inl (.inl (by simp [h1])))
  · intro mac hm
    rw [← hf.dlDst, ParsedFlow.dlDst?] at hm
    split_ifs at hm with h1
    cases hm
    exact hmem _ (.inl (.inr (by simp [h1])))
  · intro hip
    have h1 := hf.ip.mpr hip
    exact hmem _ (.inr (by simp [h1]))

/-- **The parser keeps what the documented fields say.** A string that fits and whose tokens are
documented fields, or are not recognised, is accepted with the values denoted; and the flows
that a deletion built from it takes away satisfy the match fields written. A string that is too
long, or has a destination address that cannot be read, is refused. -/
theorem documented_fields_kept :
    (∀ s flds, ReadsAs (s.splitOn ',') flds →
      ((parseFlowString s).isSome ↔ s.length < 512) ∧
      ∀ f, parseFlowString s = some f → Denotes flds f ∧
        ∀ xid, ∃ m, readFlowMod (buildFlowMod xid ofpfcDelete f) = some m ∧
          m.command = ofpfcDelete.toNat ∧ ∀ flow, m.selects flow → Satisfies flow flds) ∧
    ∀ s, 512 ≤ s.length ∨ (∃ v, dlDstKey ++ v ∈ s.splitOn ',' ∧ parseMac v = none) →
      parseFlowString s = none := by
  have hlong : ∀ s : List Char, 512 ≤ s.length → parseFlowString s = none := fun s h => if_pos h
  refine ⟨fun s flds h => ⟨⟨fun hs => ?_, fun hlen => ?_⟩, fun f hf => ?_⟩, ?_⟩
  · by_contra hlen
    simp [hlong s (not_lt.mp hlen)] at hs
  · rw [parse_readsAs h hlen]
    rfl
  · have hlen : s.length < flowBufSize := by
      by_contra hlen
      simp [hlong s (not_lt.mp hlen)] at hf
    rw [parse_readsAs h hlen, Option.some_inj] at hf
    subst hf
    have hd := denotes_parsed flds
    exact ⟨hd, fun xid => ⟨_, readFlowMod_buildFlowMod _ _ _, rfl,
      fun flow hsel => satisfies_of_selects hd xid ofpfcDelete hsel⟩⟩
  · rintro s (h | ⟨v, hm, hv⟩)
    · exact hlong s h
    · exact parse_bad_mac hm hv

/-! ### A field that is not supported -/

def dlSrcString : List Char := "dl_src=00:11:22:33:44:55".toList

lemma dlSrc_unrecognised : Unrecognised dlSrcString := by
  constructor <;> decide

/-- A deletion by source address is accepted, and the switch reads the deletion of every flow. -/
theorem dlSrc_deletes_all : parseFlowString dlSrcString = some {} ∧ ¬ Documented dlSrcString ∧
    ∃ m, readFlowMod (buildFlowMod 100 ofpfcDelete {}) = some m ∧ ∀ flow, m.selects flow := by
  have hsplit : dlSrcString.splitOn ',' = [dlSrcString] := by decide
  refine ⟨?_, ?_, ?_⟩
  · have hr : ReadsAs (dlSrcString.splitOn ',') [] := hsplit ▸ .ignored dlSrc_unrecognised .nil
    exact parse_readsAs hr (by decide)
  · rintro ⟨flds, h⟩
    rw [hsplit] at h
    cases h with
    | cons hw _ => exact not_writes dlSrc_unrecognised hw
  · refine ⟨_, readFlowMod_buildFlowMod _ _ _, fun flow fld hf => ?_⟩
    cases hf

end DaimDistributed.FlowGrammar
