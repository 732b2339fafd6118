import BlockModels.Proofs.Texture.Registration
import Mathlib.Data.List.Induction

/-!
# What a run of insertions leaves

A registry that was empty lists, after any run of insertions, the first things with their keys in
the order in which they came (`firsts`). The position that is answered for a thing is that of the
first one with its key, now and after whatever is inserted later, and the look-up table has one
entry for each thing that is listed (`lists_insertAll`).
-/

namespace BlockModels.Registry

variable {β : Type} [Keyed β] {r : Registry β}

/-! ## First occurrences -/

/-- The thing has the key. -/
def hasKey (key : String) (b : β) : Bool := Keyed.key b == key

/-- The things whose keys have not come before. -/
def firsts : List β → List β
  | [] => []
  | b :: rest => b :: (firsts rest).filter fun c => !hasKey (Keyed.key b) c

theorem hasKey_iff {key : String} {b : β} : hasKey key b = true ↔ Keyed.key b = key := beq_iff_eq

theorem hasKey_comm (b c : β) : hasKey (Keyed.key b) c = hasKey (Keyed.key c) b := by
  rw [Bool.eq_iff_iff, hasKey_iff, hasKey_iff, eq_comm]

/-- The first thing with a key is one of the first ones. -/
theorem find?_firsts (key : String) (l : List β) :
    (firsts l).find? (hasKey key) = l.find? (hasKey key) := by
  induction l with
  | nil => rfl
  | cons b rest ih =>
    rw [firsts, List.find?_cons, List.find?_cons]
    cases hb : hasKey key b with
    | true => rfl
    | false =>
      have hkeeps : ∀ c : β, hasKey key c = true → (!hasKey (Keyed.key b) c) = true := by
        intro c hc
        rw [Bool.not_eq_true', ← hb, ← hasKey_iff.1 hc, hasKey_comm]
      have hpred : (fun c : β => decide ((!hasKey (Keyed.key b) c) = true ∧ hasKey key c = true)) =
          hasKey key := by
        funext c
        exact (decide_eq_decide.2 (and_iff_right_of_imp (hkeeps c))).trans (Bool.decide_coe _)
      rw [List.find?_filter, hpred, ih]

theorem any_firsts (key : String) (l : List β) :
    (firsts l).any (hasKey key) = l.any (hasKey key) := by
  rw [← List.isSome_find?, ← List.isSome_find?, find?_firsts]

/-- One more thing is a first one if there is none with its key. -/
theorem firsts_concat (l : List β) (b : β) :
    firsts (l ++ [b]) = if l.any (hasKey (Keyed.key b)) then firsts l else firsts l ++ [b] := by
  induction l with
  | nil => rfl
  | cons c rest ih =>
    rw [List.cons_append, firsts, ih, List.any_cons, firsts]
    cases rest.any (hasKey (Keyed.key b)) with
    | true => rw [Bool.or_true]; rfl
    | false =>
      rw [Bool.or_false, if_neg Bool.false_ne_true, List.filter_append, List.filter_singleton,
        hasKey_comm c b]
      cases hasKey (Keyed.key b) c with
      | true => exact congrArg (c :: ·) (List.append_nil _)
      | false => rfl

/-! ## Runs of insertions -/

/-- The look-up table knows the keys of what is listed. -/
theorem any_hasKey_iff (hpoints : r.Points) (hindexed : r.IsIndexed) (key : String) :
    r.toList.any (hasKey key) = (r.positions.get? key).isSome := by
  rw [Bool.eq_iff_iff, List.any_eq_true, Option.isSome_iff_exists]
  constructor
  · rintro ⟨b, hb, hkey⟩
    obtain ⟨i, hi⟩ := List.mem_iff_getElem?.1 hb
    rw [getElem?_toList] at hi
    exact ⟨i, hasKey_iff.1 hkey ▸ hindexed i b hi⟩
  · rintro ⟨i, hi⟩
    obtain ⟨b, hb, hkey⟩ := hpoints key i hi
    rw [← getElem?_toList] at hb
    exact ⟨b, List.mem_of_getElem? hb, hasKey_iff.2 hkey⟩

/-- After a run of insertions the first things with their keys are there. -/
theorem toList_insertAll (l : List β) : (empty.insertAll l).2.toList = firsts l := by
  induction l using List.reverseRecOn with
  | nil => rfl
  | append_singleton l b ih =>
    have hpoints := points_insertAll points_empty l
    have hindexed := isIndexed_insertAll isIndexed_empty l
    have hany := any_hasKey_iff hpoints hindexed (Keyed.key b)
    rw [ih, any_firsts] at hany
    have hrun : (empty.insertAll (l ++ [b])).2 = ((empty.insertAll l).2.insert b).2 := by
      rw [insertAll_append]
      rfl
    rw [hrun, firsts_concat, hany]
    cases hkey : (empty.insertAll l).2.positions.get? (Keyed.key b) with
    | some i => rw [insert_of_some hkey, ih]; rfl
    | none =>
      rw [insert_of_none hkey, toList, Array.toList_push, ← ih]
      rfl

/-- Each thing is the first one with its key. -/
theorem findIdx_toList (hindexed : r.IsIndexed) {i : Nat} {b : β} (hb : r.get? i = some b) :
    r.toList.findIdx (hasKey (Keyed.key b)) = i := by
  rw [← getElem?_toList] at hb
  obtain ⟨hlt, hget⟩ := List.getElem?_eq_some_iff.1 hb
  refine (List.findIdx_eq hlt).2 ⟨hget ▸ hasKey_iff.2 rfl, fun j hj => ?_⟩
  rw [← Bool.not_eq_true, hasKey_iff]
  intro hkey
  have hindex : ∀ k (hk : k < r.toList.length),
      r.positions.get? (Keyed.key r.toList[k]) = some k := fun k hk =>
    hindexed k _ (getElem?_toList r k ▸ List.getElem?_eq_getElem hk)
  have hsame := hindex j (Nat.lt_trans hj hlt)
  rw [hkey, ← hget, hindex i hlt, Option.some.injEq] at hsame
  exact Nat.ne_of_gt hj hsame

/-- The position of a thing in a list of first things. -/
def positionIn (l : List β) (b : β) : Nat := (firsts l).findIdx (hasKey (Keyed.key b))

/-- The positions that are answered are those of first things. -/
theorem positions_insertAll (l : List β) :
    (empty.insertAll l).1 = l.map (positionIn l) := by
  refine List.ext_getElem? fun k => ?_
  rw [List.getElem?_map]
  cases hk : l[k]? with
  | none =>
    rw [Option.map_none, List.getElem?_eq_none_iff, length_insertAll]
    exact List.getElem?_eq_none_iff.1 hk
  | some b =>
    obtain ⟨i, c, hi, hc, hkey⟩ := exists_insertAll points_empty hk
    have hfirst := findIdx_toList (isIndexed_insertAll isIndexed_empty l) hc
    rw [toList_insertAll, hkey] at hfirst
    rw [hi, Option.map_some, positionIn, hfirst]

/-- The look-up table has the keys of what is listed, each once. -/
theorem size_positions (hpoints : r.Points) (hindexed : r.IsIndexed)
    (hnodup : (r.toList.map Keyed.key).Nodup) : r.positions.size = r.size := by
  have hperm : r.positions.keys.Perm (r.toList.map Keyed.key) := by
    refine (List.perm_ext_iff_of_nodup r.positions.nodup_keys hnodup).2 fun key => ?_
    rw [← Table.contains_iff, Table.contains, ← any_hasKey_iff hpoints hindexed, List.any_eq_true,
      List.mem_map]
    simp only [hasKey_iff]
  have hlength := hperm.length_eq
  rw [Table.keys, List.length_map, List.length_map] at hlength
  exact hlength

/-- What a registry is after things were inserted for which the positions were answered: they are
listed in the order in which they first came, each position is that of the first thing with the key,
and the look-up table has one entry for each thing that is listed. -/
structure Lists (r : Registry β) (l : List β) (positions : List Nat) : Prop where
  toList_eq : r.toList = firsts l
  positions_eq : positions = l.map (positionIn l)
  size_eq : r.size = (l.map Keyed.key).dedup.length
  get?_positions : ∀ key i,
    r.positions.get? key = some i ↔ ∃ b, r.get? i = some b ∧ Keyed.key b = key
  size_positions : r.positions.size = r.size

theorem lists_run (l : List β) : (empty.insertAll l).2.Lists l (empty.insertAll l).1 where
  toList_eq := toList_insertAll l
  positions_eq := positions_insertAll l
  size_eq := by
    have hlength := (Registers.insertAll l).perm_dedup.length_eq
    rwa [List.length_map] at hlength
  get?_positions key i := by
    refine ⟨points_insertAll points_empty l key i, ?_⟩
    rintro ⟨b, hb, rfl⟩
    exact isIndexed_insertAll isIndexed_empty l i b hb
  size_positions := size_positions (points_insertAll points_empty l)
    (isIndexed_insertAll isIndexed_empty l) (Registers.insertAll l).nodup

/-- After any run of insertions the registry lists the first things with their keys, and the thing
that is found at a position which was answered is, however the run goes on, the first one that had
the key. -/
theorem lists_insertAll (l m : List β) :
    (empty.insertAll l).2.Lists l (empty.insertAll l).1 ∧
      ∀ (k i : Nat) (b : β), l[k]? = some b → (empty.insertAll (l ++ m)).1[k]? = some i →
        i = positionIn l b ∧ ∃ c, l.find? (hasKey (Keyed.key b)) = some c ∧
          (empty.insertAll (l ++ m)).2.get? i = some c ∧ Keyed.key c = Keyed.key b := by
  refine ⟨lists_run l, fun k i b hk hi => ?_⟩
  have hlt : k < (empty.insertAll l).1.length := by
    rw [length_insertAll]
    exact (List.getElem?_eq_some_iff.1 hk).1
  rw [insertAll_append, List.getElem?_append_left hlt, positions_insertAll, List.getElem?_map, hk,
    Option.map_some, Option.some.injEq] at hi
  obtain ⟨c, hc⟩ := Option.isSome_iff_exists.1
    (List.find?_isSome.2 ⟨b, List.mem_of_getElem? hk, hasKey_iff.2 rfl⟩)
  have hget : (empty.insertAll l).2.get? i = some c := by
    rw [← getElem?_toList, toList_insertAll, ← hi, positionIn, ← List.find?_eq_getElem?_findIdx,
      find?_firsts, hc]
  rw [insertAll_append]
  exact ⟨hi.symm, c, hc, get?_insertAll m hget, hasKey_iff.1 (List.find?_some hc)⟩

/-- The second of two images keeps its position when the first one is asked for again. -/
theorem lists_insertAll_of_two :
    let image (path : String) : TextureReference Rat :=
      { rect := ⟨⟨0, 0⟩, ⟨1, 1⟩⟩, source := .path path }
    let l := [image "stone", image "dirt"]
    (empty.insertAll l).2.Lists l [0, 1] ∧
      (empty.insertAll (l ++ [image "stone"])).1 = [0, 1, 0] ∧
      ∃ c, l.find? (hasKey (Keyed.key (image "dirt"))) = some c ∧
        (empty.insertAll (l ++ [image "stone"])).2.get? 1 = some c := by
  intro image l
  have hpositions : (empty.insertAll (l ++ [image "stone"])).1 = [0, 1, 0] := by decide +kernel
  have hbefore : (empty.insertAll l).1 = [0, 1] := by decide +kernel
  obtain ⟨hlists, hstays⟩ := lists_insertAll l [image "stone"]
  obtain ⟨-, c, hfind, hget, -⟩ := hstays 1 1 (image "dirt") rfl (by rw [hpositions]; rfl)
  exact ⟨hbefore ▸ hlists, hpositions, c, hfind, hget⟩

end BlockModels.Registry
