import BlockModels.Texture.Registry
import Mathlib.Data.List.Dedup

/-!
# Positions in registries

A registry answers with the position at which it has a thing with the key that was asked for
(`Registry.Points`). What is there stays where it is, so a position that was given once keeps its
meaning while more things are put in (`Registry.Extends`), and the positions of a whole list can be
read off the registry that is left in the end (`Registry.exists_insertAll`). Of things with one key
only the first is put in, so keys are never repeated (`Registry.IsIndexed`). What a list leaves in
an empty registry is said by `Registers`.
-/

namespace BlockModels

namespace Registry

variable {β : Type} {r : Registry β}

/-- The list of a registry has its things at their positions. -/
theorem getElem?_toList (r : Registry β) (i : Nat) : r.toList[i]? = r.get? i := by
  rw [toList, get?, Array.getElem?_toList]

variable [Keyed β]

/-- A thing whose key is known gets the position of its key. -/
theorem insert_of_some {b : β} {i : Nat} (h : r.positions.get? (Keyed.key b) = some i) :
    r.insert b = (i, r) := by
  simp only [insert, h]

/-- A thing whose key is new is put at the end. -/
theorem insert_of_none {b : β} (h : r.positions.get? (Keyed.key b) = none) :
    r.insert b = (r.size, ⟨r.items.push b, r.positions.insert (Keyed.key b) r.size⟩) := by
  simp only [insert, h]

/-- At the position of a key there is a thing with this key. -/
def Points (r : Registry β) : Prop :=
  ∀ key i, r.positions.get? key = some i → ∃ b, r.get? i = some b ∧ Keyed.key b = key

/-- The empty registry points nowhere. -/
theorem points_empty : (empty : Registry β).Points := by
  intro key i h
  cases h

/-- What is there stays there. -/
theorem get?_insert {i : Nat} {b : β} (b' : β) (h : r.get? i = some b) :
    (r.insert b').2.get? i = some b := by
  cases hkey : r.positions.get? (Keyed.key b') with
  | some _ => rwa [insert_of_some hkey]
  | none =>
    have hlt : i < r.items.size := (Array.getElem?_eq_some_iff.1 h).1
    rw [insert_of_none hkey, get?, Array.getElem?_push, if_neg (Nat.ne_of_lt hlt)]
    exact h

/-- The position that is answered is that of a thing with the key. -/
theorem exists_insert (h : r.Points) (b : β) :
    ∃ b', (r.insert b).2.get? (r.insert b).1 = some b' ∧ Keyed.key b' = Keyed.key b := by
  cases hkey : r.positions.get? (Keyed.key b) with
  | some i =>
    rw [insert_of_some hkey]
    exact h _ i hkey
  | none =>
    rw [insert_of_none hkey]
    exact ⟨b, Array.getElem?_push_size, rfl⟩

/-- An insertion keeps the positions of keys right. -/
theorem points_insert (h : r.Points) (b : β) : (r.insert b).2.Points := by
  cases hkey : r.positions.get? (Keyed.key b) with
  | some i => rwa [insert_of_some hkey]
  | none =>
    have hstays : ∀ {i b'}, r.get? i = some b' → (r.insert b).2.get? i = some b' := get?_insert b
    have hnew := exists_insert h b
    rw [insert_of_none hkey] at hstays hnew ⊢
    intro key i hi
    rw [Table.get?_insert] at hi
    split at hi
    · next heq =>
      cases hi
      exact heq ▸ hnew
    · obtain ⟨b', hb', hk⟩ := h key i hi
      exact ⟨b', hstays hb', hk⟩

/-! ## Lists -/

/-- A thing keeps its position, whatever is inserted later. -/
theorem get?_insertAll {i : Nat} {b : β} (l : List β) (h : r.get? i = some b) :
    (r.insertAll l).2.get? i = some b := by
  induction l generalizing r with
  | nil => exact h
  | cons b' rest ih => exact ih (get?_insert b' h)

/-- Insertions keep the positions of keys right, by induction on the list. -/
theorem points_insertAll (h : r.Points) (l : List β) : (r.insertAll l).2.Points := by
  induction l generalizing r with
  | nil => exact h
  | cons b rest ih => exact ih (points_insert h b)

/-- Each thing of a list gets a position. -/
theorem length_insertAll (l : List β) : (r.insertAll l).1.length = l.length := by
  induction l generalizing r with
  | nil => rfl
  | cons b rest ih => exact congrArg (· + 1) ih

/-- In the end there is a thing with its key at the position of each thing of a list. -/
theorem exists_insertAll (h : r.Points) {l : List β} {k : Nat} {b : β} (hb : l[k]? = some b) :
    ∃ i b', (r.insertAll l).1[k]? = some i ∧ (r.insertAll l).2.get? i = some b' ∧
      Keyed.key b' = Keyed.key b := by
  induction l generalizing r k with
  | nil => simp at hb
  | cons c rest ih =>
    cases k with
    | zero =>
      cases hb
      obtain ⟨b', hb', hkey⟩ := exists_insert h b
      exact ⟨_, b', rfl, get?_insertAll rest hb', hkey⟩
    | succ k => exact ih (points_insert h c) hb

/-- To insert two lists one after the other is to insert them together. -/
theorem insertAll_append (l m : List β) : r.insertAll (l ++ m) =
    ((r.insertAll l).1 ++ ((r.insertAll l).2.insertAll m).1,
      ((r.insertAll l).2.insertAll m).2) := by
  induction l generalizing r with
  | nil => rfl
  | cons b rest ih =>
    simp only [List.cons_append, insertAll, ih]

/-- Things keep their positions. -/
def Extends (r r' : Registry β) : Prop := ∀ i b, r.get? i = some b → r'.get? i = some b

/-- Insertions extend a registry. -/
theorem extends_insertAll (l : List β) : r.Extends (r.insertAll l).2 := fun _ _ h =>
  get?_insertAll l h

/-! ## Each key once -/

/-- Every thing is at the position of its key. -/
def IsIndexed (r : Registry β) : Prop :=
  ∀ i b, r.get? i = some b → r.positions.get? (Keyed.key b) = some i

/-- The empty registry has nothing that its index misses. -/
theorem isIndexed_empty : (empty : Registry β).IsIndexed := by
  intro i b h
  simp [get?, empty] at h

/-- Whatever is there after an insertion was there before, or was put in. -/
theorem get?_insert_cases {i : Nat} {b b' : β} (h : (r.insert b').2.get? i = some b) :
    r.get? i = some b ∨ b = b' ∧ i = (r.insert b').1 := by
  cases hkey : r.positions.get? (Keyed.key b') with
  | some _ =>
    rw [insert_of_some hkey] at h
    exact .inl h
  | none =>
    rw [insert_of_none hkey] at h ⊢
    rw [get?, Array.getElem?_push] at h
    split at h
    next heq =>
      cases h
      exact .inr ⟨rfl, heq⟩
    · exact .inl h

/-- An insertion keeps every thing at the position of its key. -/
theorem isIndexed_insert (h : r.IsIndexed) (b : β) : (r.insert b).2.IsIndexed := by
  intro i b' hb'
  cases hkey : r.positions.get? (Keyed.key b) with
  | some _ =>
    rw [insert_of_some hkey] at hb' ⊢
    exact h i b' hb'
  | none =>
    rcases get?_insert_cases hb' with hb' | ⟨rfl, rfl⟩
    · have hold := h i b' hb'
      have hne : Keyed.key b' ≠ Keyed.key b := by
        intro heq
        rw [heq, hkey] at hold
        cases hold
      rw [insert_of_none hkey, Table.get?_insert, if_neg hne]
      exact hold
    · rw [insert_of_none hkey, Table.get?_insert, if_pos rfl]

/-- Insertions keep every thing at the position of its key, by induction on the list. -/
theorem isIndexed_insertAll (h : r.IsIndexed) (l : List β) : (r.insertAll l).2.IsIndexed := by
  induction l generalizing r with
  | nil => exact h
  | cons b rest ih => exact ih (isIndexed_insert h b)

/-- Whatever is there in the end was there before, or is one of the things of the list. -/
theorem get?_insertAll_cases {i : Nat} {b : β} {l : List β}
    (h : (r.insertAll l).2.get? i = some b) :
    r.get? i = some b ∨ ∃ k : Nat, l[k]? = some b ∧ (r.insertAll l).1[k]? = some i := by
  induction l generalizing r with
  | nil => exact .inl h
  | cons b' rest ih =>
    rcases ih h with hfirst | ⟨k, hk, hi⟩
    · rcases get?_insert_cases hfirst with hold | ⟨rfl, rfl⟩
      · exact .inl hold
      · exact .inr ⟨0, rfl, rfl⟩
    · exact .inr ⟨k + 1, hk, hi⟩

end Registry

/-! ## What is left of a list -/

/-- Things are listed once, in the order in which they were first seen, each at its position. -/
structure Registers {β : Type} [Keyed β] (l : List β) (positions : List Nat) (items : List β) :
    Prop where
  length_eq : positions.length = l.length
  points : ∀ {k : Nat} {b : β}, l[k]? = some b → ∃ i b', positions[k]? = some i ∧
    items[i]? = some b' ∧ Keyed.key b' = Keyed.key b
  used : ∀ {i : Nat} {b : β}, items[i]? = some b →
    ∃ k : Nat, l[k]? = some b ∧ positions[k]? = some i
  nodup : (items.map Keyed.key).Nodup

namespace Registers

variable {β : Type} [Keyed β] {l items : List β} {positions : List Nat}

/-- Inserting a list into the empty registry registers it: that is what pointing and being indexed
come to. -/
theorem insertAll (l : List β) : Registers l (Registry.empty.insertAll l).1
    (Registry.empty.insertAll l).2.toList where
  length_eq := Registry.length_insertAll l
  points hk := by
    obtain ⟨i, b', hi, hb', hkey⟩ := Registry.exists_insertAll Registry.points_empty hk
    exact ⟨i, b', hi, by rw [Registry.getElem?_toList, hb'], hkey⟩
  used hi := by
    rw [Registry.getElem?_toList] at hi
    rcases Registry.get?_insertAll_cases hi with h | h
    · simp [Registry.get?, Registry.empty] at h
    · exact h
  nodup := by
    have hindexed := Registry.isIndexed_insertAll (Registry.isIndexed_empty (β := β)) l
    rw [List.Nodup, List.pairwise_map, List.pairwise_iff_getElem]
    intro i j hi hj hlt hkey
    have hposition : ∀ {k : Nat} (hk : k < (Registry.empty.insertAll l).2.toList.length),
        (Registry.empty.insertAll l).2.positions.get?
          (Keyed.key (Registry.empty.insertAll l).2.toList[k]) = some k := by
      intro k hk
      refine hindexed k _ ?_
      rw [← Registry.getElem?_toList, List.getElem?_eq_getElem hk]
    have hij := hposition hi
    rw [hkey, hposition hj, Option.some.injEq] at hij
    exact Nat.ne_of_gt hlt hij

variable (h : Registers l positions items)

include h

/-- Two things of the list have one position exactly if they have one key. -/
theorem position_eq_iff {k k' : Nat} {b b' : β} (hk : l[k]? = some b) (hk' : l[k']? = some b') :
    positions[k]? = positions[k']? ↔ Keyed.key b = Keyed.key b' := by
  obtain ⟨i, c, hi, hc, hkey⟩ := h.points hk
  obtain ⟨i', c', hi', hc', hkey'⟩ := h.points hk'
  rw [hi, hi', Option.some.injEq, ← hkey, ← hkey']
  constructor
  · rintro rfl
    rw [hc, Option.some.injEq] at hc'
    rw [hc']
  · intro heq
    have hmap : ∀ {i : Nat} {c : β}, items[i]? = some c →
        (items.map Keyed.key)[i]? = some (Keyed.key c) := fun hc => by
      rw [List.getElem?_map, hc, Option.map_some]
    refine (List.getElem?_inj ?_ h.nodup).1 ((hmap hc).trans (heq ▸ (hmap hc').symm))
    rw [List.length_map]
    exact (List.getElem?_eq_some_iff.1 hc).1

/-- No position is given twice exactly if no key is there twice. -/
theorem nodup_positions_iff : positions.Nodup ↔ (l.map Keyed.key).Nodup := by
  have hlength := h.length_eq
  simp only [List.nodup_iff_getElem?_ne_getElem?, List.length_map, hlength, List.getElem?_map]
  refine forall_congr' fun i => forall_congr' fun j => imp_congr_right fun hij =>
    imp_congr_right fun hj => ?_
  have hi := List.getElem?_eq_getElem (Nat.lt_trans hij hj)
  have hj := List.getElem?_eq_getElem hj
  rw [hi, hj, Option.map_some, Option.map_some, ne_eq, ne_eq, Option.some.injEq,
    h.position_eq_iff hi hj]

/-- The keys of what is listed are those of the list, without repetition. -/
theorem perm_dedup : (items.map Keyed.key).Perm (l.map Keyed.key).dedup := by
  refine (List.perm_ext_iff_of_nodup h.nodup (List.nodup_dedup _)).2 fun key => ?_
  rw [List.mem_dedup, List.mem_map, List.mem_map]
  constructor
  · rintro ⟨b, hb, rfl⟩
    obtain ⟨i, hi⟩ := List.mem_iff_getElem?.1 hb
    obtain ⟨k, hk, -⟩ := h.used hi
    exact ⟨b, List.mem_of_getElem? hk, rfl⟩
  · rintro ⟨b, hb, rfl⟩
    obtain ⟨k, hk⟩ := List.mem_iff_getElem?.1 hb
    obtain ⟨i, b', -, hb', hkey⟩ := h.points hk
    exact ⟨b', List.mem_of_getElem? hb', hkey⟩

/-- At most as many things are listed as were inserted. -/
theorem length_le : items.length ≤ l.length := by
  have hlength := h.perm_dedup.length_eq
  have hkeys : (l.map Keyed.key).length = l.length := List.length_map _
  rw [List.length_map] at hlength
  rw [hlength, ← hkeys]
  exact (List.dedup_sublist _).length_le

/-- There are fewer things than in the list exactly if two of the list have the same key. -/
theorem length_lt_iff : items.length < l.length ↔ ¬(l.map Keyed.key).Nodup := by
  have hlength := h.perm_dedup.length_eq
  have hkeys : (l.map Keyed.key).length = l.length := List.length_map _
  rw [List.length_map] at hlength
  rw [hlength, ← hkeys]
  constructor
  · intro hlt hnodup
    rw [hnodup.dedup] at hlt
    exact Nat.lt_irrefl _ hlt
  · intro hdup
    refine Nat.lt_of_le_of_ne (List.dedup_sublist _).length_le fun heq => hdup ?_
    rw [← (List.dedup_sublist _).eq_of_length heq]
    exact List.nodup_dedup _

/-- Nothing is listed that the list does not have. -/
theorem mem_of_mem {b : β} (hb : b ∈ items) : b ∈ l := by
  obtain ⟨i, hi⟩ := List.mem_iff_getElem?.1 hb
  obtain ⟨k, hk, -⟩ := h.used hi
  exact List.mem_of_getElem? hk

/-- Where things are told apart by their keys, what is listed is what the list has. -/
theorem mem_iff (hinj : ∀ b ∈ l, ∀ b' ∈ l, Keyed.key b = Keyed.key b' → b = b') {b : β} :
    b ∈ items ↔ b ∈ l := by
  refine ⟨h.mem_of_mem, fun hb => ?_⟩
  obtain ⟨k, hk⟩ := List.mem_iff_getElem?.1 hb
  obtain ⟨i, b', -, hb', hkey⟩ := h.points hk
  have hmem := List.mem_of_getElem? hb'
  rwa [hinj b hb b' (h.mem_of_mem hmem) hkey.symm]

/-- Then the order of the list makes no difference but for the order of what is listed. -/
theorem perm {l' items' : List β} {positions' : List Nat} (h' : Registers l' positions' items')
    (hperm : l.Perm l') (hinj : ∀ b ∈ l, ∀ b' ∈ l, Keyed.key b = Keyed.key b' → b = b') :
    items.Perm items' := by
  refine (List.perm_ext_iff_of_nodup (.of_map _ h.nodup) (.of_map _ h'.nodup)).2 fun b => ?_
  rw [h.mem_iff hinj, h'.mem_iff, hperm.mem_iff]
  intro b hb b' hb'
  exact hinj b (hperm.mem_iff.2 hb) b' (hperm.mem_iff.2 hb')

end Registers

end BlockModels
