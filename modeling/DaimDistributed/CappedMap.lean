import Mathlib.Data.List.Induction
import Mathlib.Data.List.Perm.Subperm
import Mathlib.Order.Nat
import Mathlib.Tactic.Common

/-!
A map of bounded size, kept as a list of entries.

A key that is there is updated in its place; a new one is appended, unless there are `cap`
entries already. So the map holds the first `cap` distinct keys that were written, each with
the value that was written last.
-/

namespace DaimDistributed.CappedMap

variable {κ β : Type*} [DecidableEq κ]

def write (cap : ℕ) (t : List (κ × β)) (p : κ × β) : List (κ × β) :=
  if p.1 ∈ t.map Prod.fst then t.map fun e => if e.1 = p.1 then p else e
  else if cap ≤ t.length then t
  else t ++ [p]

def find (t : List (κ × β)) (k : κ) : Option β := (t.find? fun e => e.1 = k).map Prod.snd

/-- The map that a history of writes leaves. -/
def after (cap : ℕ) (h : List (κ × β)) : List (κ × β) := h.foldl (write cap) []

/-- The distinct keys of a history, in the order in which they came up. -/
def keys (h : List (κ × β)) : List κ := (h.map Prod.fst).eraseDups

/-- The value that was written last to a key. -/
def last (h : List (κ × β)) (k : κ) : Option β :=
  (h.filter fun p => p.1 = k).getLast?.map Prod.snd

variable {cap : ℕ} {h t : List (κ × β)} {p : κ × β} {k : κ}

lemma mem_keys : k ∈ keys h ↔ k ∈ h.map Prod.fst := by
  rw [keys, List.mem_eraseDups]

lemma keys_snoc : keys (h ++ [p]) = if p.1 ∈ keys h then keys h else keys h ++ [p.1] := by
  rw [keys, List.map_append, List.eraseDups_append]
  split_ifs with hp
  · have hm := mem_keys.mp hp
    simp [List.removeAll, List.elem_eq_contains, hm, keys]
  · have hm := mt mem_keys.mpr hp
    simp [List.removeAll, hm, keys, List.eraseDups_cons]

lemma last_snoc : last (h ++ [p]) k = if p.1 = k then some p.2 else last h k := by
  by_cases hp : p.1 = k <;> simp [last, List.filter_append, hp]

lemma last_isSome (hk : k ∈ keys h) : (last h k).isSome := by
  obtain ⟨p, hp, rfl⟩ := List.mem_map.mp (mem_keys.mp hk)
  rw [last, Option.isSome_map, List.getLast?_isSome]
  exact List.ne_nil_of_mem (List.mem_filter.mpr ⟨hp, by simp⟩)

lemma mem_of_last {v : β} (hl : last h k = some v) : (k, v) ∈ h := by
  obtain ⟨p, hp, rfl⟩ := Option.map_eq_some_iff.mp hl
  have hm := List.mem_of_mem_getLast? hp
  have hk : p.1 = k := by simpa using (List.mem_filter.mp hm).2
  exact hk ▸ (List.mem_filter.mp hm).1

lemma nodup_keys (h : List (κ × β)) : (keys h).Nodup := by
  induction h using List.reverseRecOn with
  | nil => exact List.nodup_nil
  | append_singleton h p ih =>
    rw [keys_snoc]
    split_ifs with hp
    · exact ih
    · exact List.nodup_append.mpr ⟨ih, by simp, by grind⟩

/-- What the map is after a history. -/
structure Holds (cap : ℕ) (h t : List (κ × β)) : Prop where
  keys : t.map Prod.fst = (keys h).take cap
  last : ∀ e ∈ t, last h e.1 = some e.2

lemma Holds.mem (ht : Holds cap h t) : k ∈ t.map Prod.fst ↔ k ∈ (CappedMap.keys h).take cap := by
  rw [ht.keys]

/-- A key that is there is updated, and no other one. -/
lemma Holds.update (ht : Holds cap h t) (hp : p.1 ∈ t.map Prod.fst) :
    Holds cap (h ++ [p]) (t.map fun e => if e.1 = p.1 then p else e) where
  keys := by
    have hk : p.1 ∈ CappedMap.keys h := List.mem_of_mem_take (ht.mem.mp hp)
    have hsame : ∀ e : κ × β, (if e.1 = p.1 then p else e).1 = e.1 := fun e => by
      split_ifs with he
      · exact he.symm
      · rfl
    rw [keys_snoc, if_pos hk, ← ht.keys, List.map_map]
    exact List.map_congr_left fun e _ => hsame e
  last e he := by
    obtain ⟨e', he', rfl⟩ := List.mem_map.mp he
    rw [last_snoc]
    by_cases hk : e'.1 = p.1
    · rw [if_pos hk, if_pos rfl]
    · rw [if_neg hk, if_neg (Ne.symm hk)]
      exact ht.last e' he'

/-- A new key that finds no room changes nothing. -/
lemma Holds.refuse (ht : Holds cap h t) (hp : p.1 ∉ t.map Prod.fst) (hc : cap ≤ t.length) :
    Holds cap (h ++ [p]) t where
  keys := by
    have hlen : cap ≤ (CappedMap.keys h).length := by
      have := congrArg List.length ht.keys
      simp only [List.length_map, List.length_take] at this
      omega
    rw [ht.keys, keys_snoc]
    split_ifs
    · rfl
    · rw [List.take_append_of_le_length hlen]
  last e he := by
    have hne : p.1 ≠ e.1 := fun h => hp (h ▸ List.mem_map_of_mem he)
    rw [last_snoc, if_neg hne]
    exact ht.last e he

/-- A new key that finds room is appended. -/
lemma Holds.append (ht : Holds cap h t) (hp : p.1 ∉ t.map Prod.fst) (hc : t.length < cap) :
    Holds cap (h ++ [p]) (t ++ [p]) := by
  have hlen : (CappedMap.keys h).length < cap := by
    have := congrArg List.length ht.keys
    simp only [List.length_map, List.length_take] at this
    omega
  have hkeys : t.map Prod.fst = CappedMap.keys h := by
    rw [ht.keys, List.take_of_length_le (Nat.le_of_lt hlen)]
  have hnew : p.1 ∉ CappedMap.keys h := hkeys ▸ hp
  constructor
  · rw [keys_snoc, if_neg hnew, List.map_append, hkeys, List.take_of_length_le (by simp; omega)]
    rfl
  · intro e he
    rw [last_snoc]
    rcases List.mem_append.mp he with he | he
    · have hne : p.1 ≠ e.1 := fun h => hp (h ▸ List.mem_map_of_mem he)
      rw [if_neg hne]
      exact ht.last e he
    · rw [List.mem_singleton.mp he, if_pos rfl]

lemma Holds.write (ht : Holds cap h t) (p : κ × β) : Holds cap (h ++ [p]) (write cap t p) := by
  unfold CappedMap.write
  split_ifs with hp hc
  · exact ht.update hp
  · exact ht.refuse hp hc
  · exact ht.append hp (Nat.lt_of_not_le hc)

/-- **After every history the map is what the history says.** -/
theorem holds_after (cap : ℕ) (h : List (κ × β)) : Holds cap h (after cap h) := by
  induction h using List.reverseRecOn with
  | nil => exact ⟨by simp [after, CappedMap.keys], by simp [after]⟩
  | append_singleton h p ih =>
    rw [after, List.foldl_append]
    exact ih.write p

/-- **A key reads as what was written last**, if it is one of the first `cap`. -/
theorem Holds.find (ht : Holds cap h t) (k : κ) :
    find t k = if k ∈ (CappedMap.keys h).take cap then CappedMap.last h k else none := by
  rw [← ht.keys]
  split_ifs with hk
  · have hf : (t.find? fun e => e.1 = k).isSome := by
      rw [List.find?_isSome]
      obtain ⟨e, he, rfl⟩ := List.mem_map.mp hk
      exact ⟨e, he, by simp⟩
    obtain ⟨e, he⟩ := Option.isSome_iff_exists.mp hf
    have hek : e.1 = k := by simpa using List.find?_some he
    rw [CappedMap.find, he, ← hek, ht.last e (List.mem_of_find?_eq_some he)]
    rfl
  · have hf : (t.find? fun e => e.1 = k) = none := by
      rw [List.find?_eq_none]
      intro e he hek
      exact hk (List.mem_map.mpr ⟨e, he, by simpa using hek⟩)
    rw [CappedMap.find, hf]
    rfl

lemma Holds.length (ht : Holds cap h t) : t.length = min cap (CappedMap.keys h).length := by
  rw [← List.length_map (f := Prod.fst), ht.keys, List.length_take]

/-! ### Leaving writes to other keys out -/

lemma last_filter {q : κ × β → Bool} (hq : ∀ p ∈ h, p.1 = k → q p = true) :
    last (h.filter q) k = last h k := by
  have hf : (h.filter q).filter (fun p => p.1 = k) = h.filter fun p => p.1 = k := by
    rw [List.filter_filter]
    refine List.filter_congr fun p hp => ?_
    by_cases hk : p.1 = k <;> simp [hk, hq p hp]
  rw [last, last, hf]

lemma length_keys_filter (q : κ × β → Bool) :
    (keys (h.filter q)).length ≤ (keys h).length := by
  refine ((nodup_keys _).subperm fun k hk => ?_).length_le
  obtain ⟨p, hp, rfl⟩ := List.mem_map.mp (mem_keys.mp hk)
  exact mem_keys.mpr (List.mem_map_of_mem (List.mem_of_mem_filter hp))

lemma last_eq_none (hk : k ∉ keys h) : last h k = none := by
  have hf : (h.filter fun p => p.1 = k) = [] := by
    rw [List.filter_eq_nil_iff]
    intro p hp hpk
    exact hk (mem_keys.mpr (List.mem_map.mpr ⟨p, hp, by simpa using hpk⟩))
  rw [last, hf]
  rfl

lemma find_after (hc : (keys h).length ≤ cap) : find (after cap h) k = last h k := by
  rw [(holds_after cap h).find, List.take_of_length_le hc]
  split_ifs with hk
  · rfl
  · rw [last_eq_none hk]

/-- **Where everything has found room, only the writes to a key matter to it.** -/
theorem find_filter {q : κ × β → Bool} (hc : (keys h).length ≤ cap)
    (hq : ∀ p ∈ h, p.1 = k → q p = true) :
    find (after cap (h.filter q)) k = find (after cap h) k := by
  rw [find_after hc, find_after (Nat.le_trans (length_keys_filter q) hc), last_filter hq]

/-! ### Other names for the keys -/

variable {κ' β' : Type*} [DecidableEq κ'] {f : κ → κ'} {g : β → β'}

/-- A history whose keys all come from keys of another has no more of them. -/
lemma length_keys_le {h' : List (κ' × β')} (f : κ → κ')
    (hk : ∀ p ∈ h', ∃ q ∈ h, f q.1 = p.1) : (keys h').length ≤ (keys h).length := by
  have hsub : keys h' ⊆ (keys h).map f := fun k hk' => by
    obtain ⟨p, hp, rfl⟩ := List.mem_map.mp (mem_keys.mp hk')
    obtain ⟨q, hq, he⟩ := hk p hp
    exact he ▸ List.mem_map_of_mem (mem_keys.mpr (List.mem_map_of_mem hq))
  have hle := ((nodup_keys _).subperm hsub).length_le
  rwa [List.length_map] at hle

lemma length_keys_append (h h' : List (κ × β)) : (keys h).length ≤ (keys (h ++ h')).length :=
  length_keys_le id fun p hp => ⟨p, List.mem_append_left _ hp, rfl⟩

lemma length_keys_map (f : κ → κ') (g : β → β') :
    (keys (h.map (Prod.map f g))).length ≤ (keys h).length :=
  length_keys_le f fun p hp => by
    obtain ⟨q, hq, rfl⟩ := List.mem_map.mp hp
    exact ⟨q, hq, rfl⟩

/-- Names that tell the keys apart do not change what is read. -/
lemma last_map (hf : ∀ p ∈ h, f p.1 = f k → p.1 = k) :
    last (h.map (Prod.map f g)) (f k) = (last h k).map g := by
  have hfilter : (h.map (Prod.map f g)).filter (fun p => p.1 = f k) =
      (h.filter fun p => p.1 = k).map (Prod.map f g) := by
    rw [List.filter_map]
    congr 1
    refine List.filter_congr fun p hp => ?_
    by_cases hk : p.1 = k
    · simp [hk]
    · simp [hk, mt (hf p hp) hk]
  rw [last, hfilter, List.getLast?_map, Option.map_map, last, Option.map_map]
  rfl

end DaimDistributed.CappedMap
