import BlockModels.Json.Reader
import BlockModels.Proofs.Lists
import BlockModels.Table
import Mathlib.Data.List.Nodup

/-!
# Tables read name by name

A table can be made of entries by reading something out of the value of each (`Table.read?`). If no
name is repeated among the entries, the table holds under each name what is read out of the value
under it (`Table.read?_eq_some_iff`), so it does not depend on the order of the entries
(`Table.read?_congr`). A table in data is made so of the members of an object
(`Json.exists_mem_of_table?`).
-/

namespace BlockModels

namespace Table

variable {β : Type} {l : List (String × β)} {k : String}

theorem lookup_eq_none_iff : lookup k l = none ↔ k ∉ l.map (·.1) := by
  rw [← lookup_isSome_iff, Option.not_isSome_iff_eq_none]

/-- Where no name is repeated, an entry is what look-up of its name finds. -/
theorem lookup_eq_some_iff (h : (l.map (·.1)).Nodup) {v : β} :
    lookup k l = some v ↔ (k, v) ∈ l := by
  refine ⟨mem_of_lookup_eq_some, fun hmem => ?_⟩
  induction l with
  | nil => cases hmem
  | cons e rest ih =>
    obtain ⟨hfresh, hrest⟩ := List.nodup_cons.1 h
    rw [lookup]
    rcases List.mem_cons.1 hmem with rfl | hmem
    · exact if_pos rfl
    · have hne : k ≠ e.1 := by
        rintro rfl
        exact hfresh (List.mem_map_of_mem (f := (·.1)) hmem)
      rw [if_neg hne, ih hrest hmem]

/-- Where no name is repeated, it makes no difference which of the entries with a name counts. -/
theorem get?_ofList_of_nodup (h : (l.map (·.1)).Nodup) : (ofList l).get? k = lookup k l := by
  have hreverse : (l.reverse.map (·.1)).Nodup := by
    rw [List.map_reverse]
    exact List.nodup_reverse.2 h
  rw [get?_ofList]
  refine Option.ext fun v => ?_
  rw [lookup_eq_some_iff h, lookup_eq_some_iff hreverse, List.mem_reverse]

/-- A list with the values of a function, in which no value is missed, is looked up as the
function. -/
theorem lookup_eq_of_forall {f : String → Option β} {l : List (String × β)}
    (h : ∀ e ∈ l, f e.1 = some e.2) (hk : ∀ v, f k = some v → (k, v) ∈ l) :
    lookup k l = f k := by
  cases hlookup : lookup k l with
  | some v => exact (h _ (mem_of_lookup_eq_some hlookup)).symm
  | none =>
    cases hf : f k with
    | none => rfl
    | some v =>
      have hsome := lookup_isSome_iff.2 (List.mem_map_of_mem (hk v hf))
      rw [hlookup] at hsome
      cases hsome

/-! ## Reading -/

section

variable {γ : Type} {read : β → Option γ}

/-- The entries with what is read out of their values. -/
def readEntries? (read : β → Option γ) (l : List (String × β)) : Option (List (String × γ)) :=
  l.mapM fun m => (read m.2).map fun v => (m.1, v)

/-- The table of what is read out of the values of entries. -/
def read? (read : β → Option γ) (l : List (String × β)) : Option (Table γ) :=
  (readEntries? read l).map ofList

theorem readEntries?_cons (m : String × β) (rest : List (String × β)) :
    readEntries? read (m :: rest) =
      (read m.2).bind fun v => (readEntries? read rest).map ((m.1, v) :: ·) := by
  rw [readEntries?, List.mapM_cons, ← readEntries?]
  cases read m.2 <;> cases readEntries? read rest <;> rfl

theorem readEntries?_eq_some {entries : List (String × γ)}
    (h : readEntries? read l = some entries) : entries.map (·.1) = l.map (·.1) ∧
      ∀ k, (lookup k entries).map some = (lookup k l).map read := by
  induction l generalizing entries with
  | nil =>
    cases h
    exact ⟨rfl, fun _ => rfl⟩
  | cons m rest ih =>
    rw [readEntries?_cons] at h
    obtain ⟨v, hv, h⟩ := Option.bind_eq_some_iff.1 h
    obtain ⟨entries', hentries', rfl⟩ := Option.map_eq_some_iff.1 h
    obtain ⟨hnames, hvalues⟩ := ih hentries'
    refine ⟨congrArg (m.1 :: ·) hnames, fun k => ?_⟩
    rw [lookup, lookup]
    split
    · exact congrArg some hv.symm
    · exact hvalues k

theorem exists_readEntries?_eq_some (h : ∀ m ∈ l, (read m.2).isSome = true) :
    ∃ entries, readEntries? read l = some entries := by
  induction l with
  | nil => exact ⟨[], rfl⟩
  | cons m rest ih =>
    obtain ⟨v, hv⟩ := Option.isSome_iff_exists.1 (h m List.mem_cons_self)
    obtain ⟨entries, hentries⟩ := ih fun m' hm' => h m' (List.mem_cons_of_mem _ hm')
    rw [readEntries?_cons, hv, hentries]
    exact ⟨_, rfl⟩

/-- A table is read name by name. -/
theorem read?_eq_some_iff (hnodup : (l.map (·.1)).Nodup) {t : Table γ} :
    read? read l = some t ↔ ∀ k, (t.get? k).map some = (lookup k l).map read := by
  rw [read?, Option.map_eq_some_iff]
  constructor
  · rintro ⟨entries, hentries, rfl⟩ k
    obtain ⟨hnames, hvalues⟩ := readEntries?_eq_some hentries
    rw [get?_ofList_of_nodup (hnames ▸ hnodup)]
    exact hvalues k
  · intro h
    have hreads : ∀ m ∈ l, (read m.2).isSome = true := by
      intro m hm
      have hlookup := h m.1
      rw [(lookup_eq_some_iff hnodup).2 hm, Option.map_some] at hlookup
      obtain ⟨v, -, hv⟩ := Option.map_eq_some_iff.1 hlookup
      rw [← hv]
      rfl
    obtain ⟨entries, hentries⟩ := exists_readEntries?_eq_some hreads
    obtain ⟨hnames, hvalues⟩ := readEntries?_eq_some hentries
    refine ⟨entries, hentries, ext_get? fun k => ?_⟩
    rw [get?_ofList_of_nodup (hnames ▸ hnodup)]
    exact Option.map_injective (fun _ _ => Option.some.inj) ((hvalues k).trans (h k).symm)

/-- Tables are read the same if the values under each name are. -/
theorem read?_congr {β' : Type} {read' : β' → Option γ} {l' : List (String × β')}
    (hnodup : (l.map (·.1)).Nodup) (hnodup' : (l'.map (·.1)).Nodup)
    (h : ∀ k, (lookup k l).map read = (lookup k l').map read') : read? read l = read? read' l' := by
  refine Option.ext fun t => ?_
  rw [read?_eq_some_iff hnodup, read?_eq_some_iff hnodup']
  exact forall_congr' fun k => by rw [h k]

end

end Table

/-! ## Tables in data -/

/-- A value of a table was read from a member. -/
theorem Json.exists_mem_of_table? {β : Type} {read : Json → Option β} {j : Json} {t : Table β}
    (h : j.table? read = some t) {k : String} {b : β} (hb : t.get? k = some b) :
    ∃ members, j = .obj members ∧ ∃ m ∈ members, read m.2 = some b := by
  cases j with
  | obj members =>
    obtain ⟨entries, hentries, rfl⟩ := Option.map_eq_some_iff.1 h
    rw [Table.get?_ofList] at hb
    obtain ⟨m, hm, hread⟩ := exists_of_mem_mapM hentries
      (List.mem_reverse.1 (Table.mem_of_lookup_eq_some hb))
    obtain ⟨b', hb', heq⟩ := Option.map_eq_some_iff.1 hread
    cases heq
    exact ⟨members, rfl, m, hm, hb'⟩
  | _ => cases h

end BlockModels
