import BlockModels.Json.Reader
import BlockModels.Proofs.Lists
import BlockModels.Proofs.Table.Reading

/-!
# Data with its members in another order

Two values are alike (`Json.Alike`) if they are the same up to the order of the members of objects,
in which no name is repeated. What is read out of them is the same (`Json.Respects`): a record is
read by the names of its fields, and the order in a table is that of the names. The canonical form
of a value without repeated names is alike (`Json.Distinct.alike`).
-/

namespace BlockModels

namespace Json

variable {β : Type} {read : Json → Option β}

/-- The members of an object are read like the entries of a table. -/
theorem table?_obj (members : List (String × Json)) :
    (Json.obj members).table? read = Table.read? read members := rfl

/-! ## Canonical forms -/

/-- The items of a list are brought into canonical form one by one. -/
theorem canonicalItems?_eq (items : List Json) :
    canonicalItems? items = (Json.arr items).list? canonical? := by
  change _ = items.mapM canonical?
  induction items with
  | nil => rfl
  | cons j rest ih =>
    rw [canonicalItems?, ih, List.mapM_cons]
    cases canonical? j <;> cases rest.mapM canonical? <;> rfl

/-- The members of an object are brought into canonical form one by one. -/
theorem canonicalMembers?_eq (members : List (String × Json)) :
    canonicalMembers? members = Table.readEntries? canonical? members := by
  induction members with
  | nil => rfl
  | cons m rest ih =>
    rw [canonicalMembers?, ih, Table.readEntries?_cons]
    cases canonical? m.2 <;> cases Table.readEntries? canonical? rest <;> rfl

/-- Putting an array in order is reading its items. -/
theorem canonical?_arr (items : List Json) :
    (Json.arr items).canonical? = ((Json.arr items).list? canonical?).map .arr := by
  rw [canonical?, canonicalItems?_eq]

/-- Putting an object in order is reading it as a table. -/
theorem canonical?_obj (members : List (String × Json)) : (Json.obj members).canonical? =
    ((Json.obj members).table? canonical?).map fun t => .obj t.entries := by
  rw [canonical?, canonicalMembers?_eq, table?_obj, Table.read?, Option.map_map]
  rfl

/-! ## Data that is alike -/

/-- No name is repeated among the members of an object. -/
inductive Distinct : Json → Prop
  | null : Distinct .null
  | bool (b : Bool) : Distinct (.bool b)
  | int (i : Int) : Distinct (.int i)
  | float (x : Float) : Distinct (.float x)
  | str (s : String) : Distinct (.str s)
  | arr {items : List Json} (h : ∀ j ∈ items, Distinct j) : Distinct (.arr items)
  | obj {members : List (String × Json)} (hnodup : (members.map (·.1)).Nodup)
    (h : ∀ m ∈ members, Distinct m.2) : Distinct (.obj members)
  | unreadable : Distinct .unreadable

/-- Two values are the same up to the order of members, and no name is repeated among them. -/
inductive Alike : Json → Json → Prop
  | null : Alike .null .null
  | bool (b : Bool) : Alike (.bool b) (.bool b)
  | int (i : Int) : Alike (.int i) (.int i)
  | float (x : Float) : Alike (.float x) (.float x)
  | str (s : String) : Alike (.str s) (.str s)
  | arr {items items' : List Json} (hlength : items.length = items'.length)
    (h : ∀ p ∈ items.zip items', Alike p.1 p.2) : Alike (.arr items) (.arr items')
  | obj {members members' : List (String × Json)} (hnodup : (members.map (·.1)).Nodup)
    (hnodup' : (members'.map (·.1)).Nodup)
    (hnames : ∀ k, k ∈ members.map (·.1) ↔ k ∈ members'.map (·.1))
    (h : ∀ k j j', (k, j) ∈ members → (k, j') ∈ members' → Alike j j') :
    Alike (.obj members) (.obj members')

/-- Two values under a name are related, or neither is there. -/
theorem rel_lookup {R : Json → Json → Prop} {members members' : List (String × Json)}
    (hnames : ∀ k, k ∈ members.map (·.1) ↔ k ∈ members'.map (·.1))
    (h : ∀ k j j', (k, j) ∈ members → (k, j') ∈ members' → R j j') (k : String) :
    Option.Rel R (Table.lookup k members) (Table.lookup k members') := by
  cases hj : Table.lookup k members with
  | none =>
    have hnone : Table.lookup k members' = none :=
      Table.lookup_eq_none_iff.2 fun hmem => Table.lookup_eq_none_iff.1 hj ((hnames k).2 hmem)
    rw [hnone]
    exact .none
  | some j =>
    have hmem := Table.mem_of_lookup_eq_some hj
    obtain ⟨j', hj'⟩ := Option.isSome_iff_exists.1
      (Table.lookup_isSome_iff.2 ((hnames k).1 (List.mem_map_of_mem hmem)))
    rw [hj']
    exact .some (h k j j' hmem (Table.mem_of_lookup_eq_some hj'))

/-- What is read does not depend on the order of members. -/
def Respects (read : Json → Option β) : Prop := ∀ j k, Alike j k → read j = read k

section

variable {items items' : List Json}

/-- Two objects are read as one table if the same is read under each name. -/
theorem table?_eq_of_rel {members members' : List (String × Json)}
    (hnodup : (members.map (·.1)).Nodup) (hnodup' : (members'.map (·.1)).Nodup)
    (h : ∀ k, Option.Rel (fun j j' => read j = read j') (Table.lookup k members)
      (Table.lookup k members')) :
    (Json.obj members).table? read = (Json.obj members').table? read :=
  Table.read?_congr hnodup hnodup' fun k => map_eq_of_rel (h k)

end

/-- Alike values have one canonical form. -/
theorem respects_canonical? : Respects canonical? := by
  intro j k h
  induction h with
  | arr hlength _ ih =>
    rw [canonical?_arr, canonical?_arr]
    exact congrArg (Option.map Json.arr) (mapM_eq_of_zip hlength ih)
  | obj hnodup hnodup' hnames _ ih =>
    rw [canonical?_obj, canonical?_obj, table?_eq_of_rel hnodup hnodup' (rel_lookup hnames ih)]
  | _ => rfl

/-- The canonical form is alike. -/
theorem Distinct.alike {j j' : Json} (hj : j.Distinct) (h : j.canonical? = some j') :
    Alike j j' := by
  induction hj generalizing j' with
  | unreadable => cases h
  | null => cases h; exact .null
  | bool b => cases h; exact .bool b
  | int i => cases h; exact .int i
  | float x => cases h; exact .float x
  | str s => cases h; exact .str s
  | @arr items _ ih =>
    rw [canonical?_arr] at h
    obtain ⟨items', hitems', rfl⟩ := Option.map_eq_some_iff.1 h
    obtain ⟨hlength, hzip⟩ := List.forall₂_iff_zip.1 (forall₂_of_mapM hitems')
    exact .arr hlength fun p hp => ih p.1 (List.of_mem_zip hp).1 (hzip hp)
  | @obj members hnodup _ ih =>
    rw [canonical?_obj] at h
    obtain ⟨t, ht, rfl⟩ := Option.map_eq_some_iff.1 h
    have hlookup := (Table.read?_eq_some_iff hnodup).1 ht
    refine .obj hnodup t.nodup_keys (fun k => ?_) fun k j j' hj hj' => ih (k, j) hj ?_
    · have hsome := congrArg Option.isSome (hlookup k)
      rw [Option.isSome_map, Option.isSome_map] at hsome
      rw [← Table.lookup_isSome_iff, ← hsome]
      exact Table.contains_iff
    · have hlookup := hlookup k
      rw [Table.get?_eq_some_iff.2 hj', (Table.lookup_eq_some_iff hnodup).2 hj] at hlookup
      exact (Option.some.inj hlookup).symm

/-! ## Readers -/

section

variable {γ : Type}

/-- What reads neither arrays nor objects. -/
theorem respects_of_leaf (harr : ∀ items, read (.arr items) = none)
    (hobj : ∀ members, read (.obj members) = none) : Respects read := by
  intro j k h
  cases h with
  | arr => rw [harr, harr]
  | obj => rw [hobj, hobj]
  | _ => rfl

/-- What is made of a value that does not depend on the order does not either. -/
theorem Respects.map (h : Respects read) (f : β → γ) : Respects fun j => (read j).map f :=
  fun j k hjk => congrArg (Option.map f) (h j k hjk)

/-- Reading on from such a value does not depend on the order. -/
theorem Respects.bind (h : Respects read) (f : β → Option γ) :
    Respects fun j => (read j).bind f :=
  fun j k hjk => congrArg (fun o => Option.bind o f) (h j k hjk)

/-- A text is read whatever the order of members is. -/
theorem respects_string? : Respects string? := respects_of_leaf (fun _ => rfl) fun _ => rfl

/-- So is a flag. -/
theorem respects_bool? : Respects bool? := respects_of_leaf (fun _ => rfl) fun _ => rfl

/-- So is a number. -/
theorem respects_float? : Respects float? := respects_of_leaf (fun _ => rfl) fun _ => rfl

/-- So is an integer between two bounds. -/
theorem respects_int? (low high : Int) : Respects (int? low high) :=
  respects_of_leaf (fun _ => rfl) fun _ => rfl

/-- So is an integer of 64 bits. -/
theorem respects_int64? : Respects int64? := (respects_int? _ _).map _

/-- So is a natural number up to a bound. -/
theorem respects_nat? (high : Nat) : Respects (nat? high) := (respects_int? _ _).map _

/-- A list is read in the same way if its items are. -/
theorem Respects.list? (h : Respects read) : Respects (Json.list? read) := by
  intro j k hjk
  cases hjk with
  | arr hlength hitems => exact mapM_eq_of_zip hlength fun p hp => h p.1 p.2 (hitems p hp)
  | _ => rfl

/-- A set of names is read whatever the order of members is. -/
theorem respects_nameSet? : Respects nameSet? := respects_string?.list?.map _

/-- A table is read in the same way if its values are. -/
theorem Respects.table? (h : Respects read) : Respects (Json.table? read) := by
  intro j k hjk
  cases hjk with
  | obj hnodup hnodup' hnames hmembers =>
    refine table?_eq_of_rel hnodup hnodup' (rel_lookup hnames fun k j j' hj hj' => ?_)
    exact h j j' (hmembers k j j' hj hj')
  | _ => rfl

/-- A pair is read in the same way if both of its parts are. -/
theorem Respects.pair? {first : Json → Option β} {second : Json → Option γ}
    (hfirst : Respects first) (hsecond : Respects second) :
    Respects (Json.pair? first second) := by
  intro j k hjk
  cases hjk with
  | @arr items items' hlength hitems =>
    match items, items', hlength with
    | [], [], _ | [_], [_], _ | _ :: _ :: _ :: _, _ :: _ :: _ :: _, _ => rfl
    | [a, b], [a', b'], _ =>
      rw [Json.pair?, Json.pair?, hfirst a a' (hitems (a, a') List.mem_cons_self),
        hsecond b b' (hitems (b, b') (List.mem_cons_of_mem _ List.mem_cons_self))]
  | _ => rfl

/-- What may be null is read in the same way if it is when it is not null. -/
theorem Respects.orNull? (h : Respects read) : Respects (Json.orNull? read) := by
  intro j k hjk
  have hread := h j k hjk
  cases hjk <;> first | rfl | exact congrArg (Option.map some) hread

/-- What is read of the whole value does not depend on the order either. -/
theorem Respects.whole? (h : Respects read) : Respects (Json.whole? read) := by
  intro j k hjk
  rw [Json.whole?, Json.whole?, h j k hjk, respects_canonical? j k hjk]

/-! ## Records -/

/-- The fields found are alike. -/
def Fields.Alike (f g : Fields) : Prop :=
  ∀ name, Option.Rel Json.Alike (Table.lookup name f.found) (Table.lookup name g.found)

namespace Fields.Alike

variable {f g : Fields} (hfg : f.Alike g)

include hfg

/-- A field that has a default is the same in records that are alike. -/
theorem withDefault? (h : Respects read) (name : String) (missing : β) :
    f.withDefault? name read missing = g.withDefault? name read missing := by
  have hrel := hfg name
  rw [Fields.withDefault?, Fields.withDefault?]
  generalize Table.lookup name f.found = o at hrel
  generalize Table.lookup name g.found = o' at hrel
  cases hrel with
  | none => rfl
  | some hjk => exact h _ _ hjk

/-- A field that may be missing is the same in records that are alike. -/
theorem optional? (h : Respects read) (name : String) :
    f.optional? name read = g.optional? name read :=
  hfg.withDefault? h.orNull? name none

end Fields.Alike

/-- Under a name that is kept the same is found. -/
theorem lookup_filter {names : List String} {members : List (String × Json)} (k : String) :
    Table.lookup k (members.filter fun m => names.contains m.1) =
      if names.contains k then Table.lookup k members else none := by
  induction members with
  | nil => exact (ite_self _).symm
  | cons m rest ih =>
    rw [List.filter_cons, Table.lookup]
    by_cases hk : k = m.1
    · subst hk
      rw [if_pos rfl]
      split
      · rw [Table.lookup, if_pos rfl]
      · next hm => rw [ih, if_neg hm]
    · rw [if_neg hk, ← ih]
      split
      · rw [Table.lookup, if_neg hk]
      · rfl

/-- Fields by position are alike under each name if the items are. -/
theorem rel_lookup_zip {items items' : List Json} (names : List String)
    (h : List.Forall₂ Alike items items') (k : String) :
    Option.Rel Alike (Table.lookup k (names.zip items)) (Table.lookup k (names.zip items')) := by
  induction h generalizing names with
  | nil =>
    rw [List.zip_nil_right]
    exact .none
  | cons hfirst _ ih =>
    cases names with
    | nil => exact .none
    | cons name names =>
      rw [List.zip_cons_cons, List.zip_cons_cons, Table.lookup, Table.lookup]
      split
      · exact .some hfirst
      · exact ih names

/-- A record is read by the names of its fields. -/
theorem respects_record {names : List String} {build : Fields → Option β}
    (h : ∀ f g : Fields, f.Alike g → build f = build g) :
    Respects fun j => (j.fields? names).bind build := by
  intro j k hjk
  have hfields : Option.Rel Fields.Alike (j.fields? names) (k.fields? names) := by
    cases hjk with
    | @arr items items' hlength hitems =>
      rw [fields?, fields?, hlength]
      split
      · exact .some (rel_lookup_zip names (List.forall₂_iff_zip.2 ⟨hlength, fun h => hitems _ h⟩))
      · exact .none
    | @obj members members' hnodup hnodup' hnames hmembers =>
      have hknown : ∀ {l : List (String × Json)}, (l.map (·.1)).Nodup →
          ((l.filter fun m => names.contains m.1).map (·.1)).Nodup := fun hl =>
        hl.sublist (List.filter_sublist.map _)
      rw [fields?, fields?, if_pos (hknown hnodup), if_pos (hknown hnodup')]
      refine .some fun name => ?_
      rw [lookup_filter, lookup_filter]
      split
      · exact rel_lookup hnames hmembers name
      · exact .none
    | _ => exact .none
  exact bind_eq_of_rel hfields h

end

end Json

end BlockModels
