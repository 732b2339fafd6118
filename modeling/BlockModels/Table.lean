/-!
# Tables

A `Table β` maps names to values of type `β` and lists them in the order of the names, code point
by code point. The order is part of the type: a table is a list of entries whose keys strictly
increase, so two tables with the same entries are equal, and walking one gives the order in which
every answer of the library lists named things. `NameSet` is a table without values.

The statements kept here say what each operation does to look-up (`get?_insert`, `get?_ofList`,
`get?_orElse`, `get?_mapValues`), and that look-up determines a table (`ext_get?`).
-/

namespace BlockModels

/-- Entries in strictly increasing order of their keys. -/
structure Table (β : Type) where
  entries : List (String × β)
  sorted : entries.Pairwise fun a b => a.1 < b.1

namespace Table

variable {β γ : Type}

/-- The table without entries. -/
def empty : Table β := ⟨[], .nil⟩

instance : Inhabited (Table β) := ⟨empty⟩

instance : EmptyCollection (Table β) := ⟨empty⟩

/-- Look-up in a list of entries. -/
def lookup (k : String) : List (String × β) → Option β
  | [] => none
  | (k', v) :: rest => if k = k' then some v else lookup k rest

/-- The value under a name. -/
def get? (t : Table β) (k : String) : Option β := lookup k t.entries

/-- A name is present. -/
def contains (t : Table β) (k : String) : Bool := (t.get? k).isSome

/-- Puts an entry where the order wants it, in place of one with the same key. -/
def insertEntry (k : String) (v : β) : List (String × β) → List (String × β)
  | [] => [(k, v)]
  | (k', v') :: rest =>
    if k < k' then (k, v) :: (k', v') :: rest
    else if k = k' then (k, v) :: rest
    else (k', v') :: insertEntry k v rest

theorem key_of_mem_insertEntry {k : String} {v : β} {e : String × β}
    {l : List (String × β)} (h : e ∈ insertEntry k v l) : e.1 = k ∨ e ∈ l := by
  induction l with
  | nil => simp_all [insertEntry]
  | cons hd tl ih =>
    rw [insertEntry] at h
    split at h
    · rcases List.mem_cons.1 h with rfl | h
      · exact .inl rfl
      · exact .inr h
    · split at h
      · rcases List.mem_cons.1 h with rfl | h
        · exact .inl rfl
        · exact .inr (List.mem_cons_of_mem _ h)
      · rcases List.mem_cons.1 h with rfl | h
        · exact .inr List.mem_cons_self
        · exact (ih h).imp id (List.mem_cons_of_mem _)

/-- The key that is neither below nor equal to another is above it. -/
theorem lt_of_not_lt_of_ne {k k' : String} (h : ¬k < k') (hne : k ≠ k') : k' < k := by
  rcases String.le_total k k' with hle | hle
  · exact absurd (String.le_antisymm hle (String.not_lt.1 h)) hne
  · by_cases hlt : k' < k
    · exact hlt
    · exact absurd (String.le_antisymm (String.not_lt.1 hlt) hle) hne

theorem pairwise_insertEntry (k : String) (v : β) {l : List (String × β)}
    (h : l.Pairwise fun a b => a.1 < b.1) :
    (insertEntry k v l).Pairwise fun a b => a.1 < b.1 := by
  induction l with
  | nil => simp [insertEntry]
  | cons hd tl ih =>
    obtain ⟨htl, hrest⟩ := List.pairwise_cons.1 h
    rw [insertEntry]
    split
    next hlt =>
      refine List.pairwise_cons.2 ⟨fun e he => ?_, h⟩
      rcases List.mem_cons.1 he with rfl | he
      · exact hlt
      · exact String.lt_trans hlt (htl e he)
    next hlt =>
      split
      next heq =>
        subst heq
        exact List.pairwise_cons.2 ⟨htl, hrest⟩
      next hne =>
        refine List.pairwise_cons.2 ⟨fun e he => ?_, ih hrest⟩
        rcases key_of_mem_insertEntry he with hk | he
        · rw [hk]; exact lt_of_not_lt_of_ne hlt hne
        · exact htl e he

/-- The table with a value put under a name, in place of the value there was. -/
def insert (t : Table β) (k : String) (v : β) : Table β :=
  ⟨insertEntry k v t.entries, pairwise_insertEntry k v t.sorted⟩

/-- Inserts entries one after the other: the last value under a name stays. -/
def insertAll (t : Table β) (l : List (String × β)) : Table β :=
  l.foldl (fun t e => t.insert e.1 e.2) t

/-- The table of a list of entries; of entries with the same name the last one stays. -/
def ofList (l : List (String × β)) : Table β := empty.insertAll l

/-- The names in order. -/
def keys (t : Table β) : List String := t.entries.map (·.1)

/-- The values in the order of their names. -/
def values (t : Table β) : List β := t.entries.map (·.2)

/-- The table has no entries. -/
def isEmpty (t : Table β) : Bool := t.entries.isEmpty

/-- The number of entries. -/
def size (t : Table β) : Nat := t.entries.length

/-- The entry with the least name. -/
def first? (t : Table β) : Option (String × β) := t.entries.head?

/-- The same names with other values. -/
def mapValues (f : β → γ) (t : Table β) : Table γ :=
  ⟨t.entries.map fun e => (e.1, f e.2), List.pairwise_map.2 t.sorted⟩

/-- The entries of `t`, and under every other name the entry of `u`. -/
def orElse (t u : Table β) : Table β :=
  u.insertAll t.entries

instance [BEq β] : BEq (Table β) := ⟨fun t u => t.entries == u.entries⟩

instance [DecidableEq β] : DecidableEq (Table β) := fun t u =>
  decidable_of_iff (t.entries = u.entries)
    ⟨fun h => by cases t; cases u; cases h; rfl, fun h => h ▸ rfl⟩

/-! ## Look-up after each operation -/

@[simp] theorem get?_empty (k : String) : (empty : Table β).get? k = none := rfl

theorem lookup_insertEntry (k k' : String) (v : β) (l : List (String × β)) :
    lookup k (insertEntry k' v l) = if k = k' then some v else lookup k l := by
  induction l with
  | nil => simp [insertEntry, lookup]
  | cons hd tl ih =>
    obtain ⟨kd, vd⟩ := hd
    rw [insertEntry]
    split
    · simp [lookup]
    · split
      next heq => subst heq; by_cases hk : k = k' <;> simp [lookup, hk]
      next hne =>
        by_cases hk : k = k'
        · subst hk; simp [lookup, hne, ih]
        · simp [lookup, ih, hk]

/-- Inserting changes look-up of the inserted name only. -/
@[simp] theorem get?_insert (t : Table β) (k k' : String) (v : β) :
    (t.insert k' v).get? k = if k = k' then some v else t.get? k :=
  lookup_insertEntry k k' v t.entries

/-- A name is looked up in the second of two lists if it is not in the first. -/
theorem lookup_append (k : String) (l₁ l₂ : List (String × β)) :
    lookup k (l₁ ++ l₂) = (lookup k l₁).or (lookup k l₂) := by
  induction l₁ with
  | nil => simp [lookup]
  | cons e rest ih => by_cases h : k = e.1 <;> simp [lookup, h, ih]

/-- The last value listed under a name, or what the table held before. -/
theorem get?_insertAll (t : Table β) (l : List (String × β)) (k : String) :
    (t.insertAll l).get? k = (lookup k l.reverse).or (t.get? k) := by
  induction l generalizing t with
  | nil => simp [insertAll, lookup]
  | cons hd tl ih =>
    show ((t.insert hd.1 hd.2).insertAll tl).get? k = _
    rw [ih, List.reverse_cons, lookup_append, get?_insert]
    by_cases h : k = hd.1 <;> simp [lookup, h]

@[simp] theorem get?_ofList (l : List (String × β)) (k : String) :
    (ofList l).get? k = lookup k l.reverse := by
  simp [ofList, get?_insertAll]

@[simp] theorem get?_mapValues (f : β → γ) (t : Table β) (k : String) :
    (t.mapValues f).get? k = (t.get? k).map f := by
  show lookup k (t.entries.map fun e => (e.1, f e.2)) = (lookup k t.entries).map f
  induction t.entries with
  | nil => rfl
  | cons hd tl ih => by_cases h : k = hd.1 <;> simp [lookup, h, ih]

/-- A name that is below every key is not found. -/
theorem lookup_eq_none {k : String} {l : List (String × β)} (h : ∀ e ∈ l, k < e.1) :
    lookup k l = none := by
  induction l with
  | nil => rfl
  | cons hd tl ih =>
    have hne : k ≠ hd.1 := fun he =>
      String.lt_irrefl k (he ▸ h hd List.mem_cons_self : k < k)
    simp [lookup, hne, ih fun e he => h e (List.mem_cons_of_mem _ he)]

/-- What is found under a name is listed under it. -/
theorem mem_of_lookup_eq_some {k : String} {v : β} {l : List (String × β)}
    (h : lookup k l = some v) : (k, v) ∈ l := by
  induction l with
  | nil => cases h
  | cons e rest ih =>
    rw [lookup] at h
    split at h
    next heq =>
      cases h
      exact heq ▸ List.mem_cons_self
    · exact List.mem_cons_of_mem _ (ih h)

/-- Something is found under a name that is listed, and under no other. -/
theorem lookup_isSome_iff {k : String} {l : List (String × β)} :
    (lookup k l).isSome ↔ k ∈ l.map (·.1) := by
  induction l with
  | nil => simp [lookup]
  | cons hd tl ih => by_cases h : k = hd.1 <;> simp_all [lookup]

/-- A name is present when it is one of the keys. -/
theorem contains_iff {t : Table β} {k : String} : t.contains k = true ↔ k ∈ t.keys :=
  lookup_isSome_iff

theorem lookup_reverse {k : String} {l : List (String × β)}
    (h : l.Pairwise fun a b => a.1 < b.1) : lookup k l.reverse = lookup k l := by
  induction l with
  | nil => rfl
  | cons hd tl ih =>
    obtain ⟨h1, h2⟩ := List.pairwise_cons.1 h
    rw [List.reverse_cons, lookup_append, ih h2]
    by_cases hk : k = hd.1
    · rw [hk, lookup_eq_none h1]; simp [lookup]
    · simp [lookup, hk]

/-- The first table's value comes before the second's. -/
@[simp] theorem get?_orElse (t u : Table β) (k : String) :
    (t.orElse u).get? k = (t.get? k).or (u.get? k) := by
  rw [orElse, get?_insertAll, lookup_reverse t.sorted]; rfl

/-- An entry of a table is what look-up of its name finds. -/
theorem get?_eq_some_iff {t : Table β} {k : String} {v : β} :
    t.get? k = some v ↔ (k, v) ∈ t.entries := by
  obtain ⟨l, hl⟩ := t
  show lookup k l = some v ↔ (k, v) ∈ l
  induction l with
  | nil => simp [lookup]
  | cons hd tl ih =>
    obtain ⟨h1, h2⟩ := List.pairwise_cons.1 hl
    obtain ⟨k', v'⟩ := hd
    by_cases hk : k = k'
    · subst hk
      have : (k, v) ∉ tl := fun hm => String.lt_irrefl k (h1 _ hm)
      simp [lookup, this, eq_comm]
    · simp [lookup, hk, ih h2]

/-- No name is listed twice. -/
theorem nodup_keys (t : Table β) : t.keys.Nodup :=
  List.pairwise_map.2 <| t.sorted.imp fun {a b} (hlt : a.1 < b.1) (heq : a.1 = b.1) =>
    String.lt_irrefl b.1 (heq ▸ hlt)

/-- Sorted lists of entries with the same members are equal. -/
theorem eq_of_mem_iff {l₁ l₂ : List (String × β)} (h₁ : l₁.Pairwise fun a b => a.1 < b.1)
    (h₂ : l₂.Pairwise fun a b => a.1 < b.1) (h : ∀ e, e ∈ l₁ ↔ e ∈ l₂) : l₁ = l₂ := by
  induction l₁ generalizing l₂ with
  | nil =>
    cases l₂ with
    | nil => rfl
    | cons b _ => exact absurd ((h b).2 List.mem_cons_self) List.not_mem_nil
  | cons a r₁ ih =>
    cases l₂ with
    | nil => exact absurd ((h a).1 List.mem_cons_self) List.not_mem_nil
    | cons b r₂ =>
      obtain ⟨ha, hr₁⟩ := List.pairwise_cons.1 h₁
      obtain ⟨hb, hr₂⟩ := List.pairwise_cons.1 h₂
      have hab : a = b := by
        rcases List.mem_cons.1 ((h a).1 List.mem_cons_self) with hab | ham
        · exact hab
        · rcases List.mem_cons.1 ((h b).2 List.mem_cons_self) with hba | hbm
          · exact hba.symm
          · exact absurd (ha b hbm) (String.lt_asymm (hb a ham))
      subst hab
      rw [ih hr₁ hr₂ fun e => ?_]
      constructor
      · intro he
        rcases List.mem_cons.1 ((h e).1 (List.mem_cons_of_mem _ he)) with rfl | hm
        · exact absurd (ha e he) (String.lt_irrefl _)
        · exact hm
      · intro he
        rcases List.mem_cons.1 ((h e).2 (List.mem_cons_of_mem _ he)) with rfl | hm
        · exact absurd (hb e he) (String.lt_irrefl _)
        · exact hm

/-- Tables in which every name finds the same value are equal. -/
theorem ext_get? {t u : Table β} (h : ∀ k, t.get? k = u.get? k) : t = u := by
  have : t.entries = u.entries := eq_of_mem_iff t.sorted u.sorted fun e => by
    obtain ⟨k, v⟩ := e
    rw [← get?_eq_some_iff, ← get?_eq_some_iff, h k]
  cases t; cases u; cases this; rfl

end Table

/-- A set of names, listed in order. -/
abbrev NameSet := Table Unit

namespace NameSet

/-- The set of the names in a list. -/
def ofNames (l : List String) : NameSet := Table.ofList (l.map fun k => (k, ()))

/-- The names that are in exactly one of two sets. -/
def symmDiff (s t : NameSet) : NameSet :=
  ofNames (s.keys.filter (fun k => !t.contains k) ++ t.keys.filter (fun k => !s.contains k))

/-- A set of names contains the names that it is made of. -/
theorem contains_ofNames {l : List String} {k : String} :
    (ofNames l).contains k = true ↔ k ∈ l := by
  show ((ofNames l).get? k).isSome = true ↔ _
  rw [ofNames, Table.get?_ofList, Table.lookup_isSome_iff]
  simp

/-- A set of names lists the names that it is made of. -/
theorem mem_keys_ofNames {names : List String} {name : String} :
    name ∈ (ofNames names).keys ↔ name ∈ names := by
  rw [← Table.contains_iff, contains_ofNames]

/-- A set of names does not depend on their order or repetition. -/
theorem ofNames_congr {names names' : List String} (h : ∀ name, name ∈ names ↔ name ∈ names') :
    ofNames names = ofNames names' := by
  refine Table.ext_get? fun name => ?_
  have hcontains : (ofNames names).contains name = (ofNames names').contains name := by
    rw [Bool.eq_iff_iff, contains_ofNames, contains_ofNames, h]
  simp only [Table.contains] at hcontains
  cases hget : (ofNames names).get? name <;>
    cases hget' : (ofNames names').get? name <;> simp_all

/-- Membership in the symmetric difference is the exclusive or of the memberships. -/
theorem contains_symmDiff (s t : NameSet) (k : String) :
    (symmDiff s t).contains k = (s.contains k ^^ t.contains k) := by
  rw [Bool.eq_iff_iff, symmDiff, contains_ofNames]
  simp only [List.mem_append, List.mem_filter, ← Table.contains_iff]
  cases s.contains k <;> cases t.contains k <;> simp

end NameSet

end BlockModels
