import BlockModels.Json.Parser
import BlockModels.Json.Reader
import BlockModels.Proofs.Json.Alike
import BlockModels.Proofs.Scalar.Finite

/-!
# Numbers in data

Every number in data that was read from a text is finite (`Json.isFinite_of_parse?`): a literal that
is too large for a floating-point number has no value, and whole numbers have 64 bits. It stays so
when the members of objects are put in order, and whatever is read out of the data is read out of
such a part.
-/

namespace BlockModels.Json

/-- Every number in the value is finite, read as a floating-point number. -/
inductive IsFinite : Json → Prop
  | null : IsFinite .null
  | bool (b : Bool) : IsFinite (.bool b)
  | int {i : Int} (h : i.natAbs < 2 ^ 65) : IsFinite (.int i)
  | float {x : Float} (h : Scalar.isFinite x = true) : IsFinite (.float x)
  | str (s : String) : IsFinite (.str s)
  | arr {items : List Json} (h : ∀ j ∈ items, IsFinite j) : IsFinite (.arr items)
  | obj {members : List (String × Json)} (h : ∀ m ∈ members, IsFinite m.2) :
    IsFinite (.obj members)
  | unreadable : IsFinite .unreadable

/-! ## Parsing -/

/-- A literal beyond the range of floats is read as no number at all. -/
theorem isFinite_floatLiteral (negative : Bool) (x : Float) :
    (floatLiteral negative x).IsFinite := by
  unfold floatLiteral
  split
  next h =>
    refine .float ?_
    split
    · exact Binary64.isFinite_neg h
    · exact h
  · exact .unreadable

/-- A whole literal is read as a finite number, or as none. -/
theorem isFinite_integerLiteral (negative : Bool) (whole : List Char) :
    (integerLiteral negative whole).IsFinite := by
  have hlow : minSigned64 = -2 ^ 63 := rfl
  have hhigh : maxUnsigned64 = 2 ^ 64 - 1 := rfl
  unfold integerLiteral
  dsimp only
  split
  · split
    · exact isFinite_floatLiteral _ _
    · next h =>
      refine .int ?_
      rw [Int.ofNat_eq_natCast] at h ⊢
      omega
  · split
    · next h =>
      refine .int ?_
      rw [Int.ofNat_eq_natCast]
      omega
    · exact isFinite_floatLiteral _ _

/-- A number is a literal of either kind, whatever its parts are. -/
theorem isFinite_number? {cs rest : List Char} {j : Json} (h : number? cs = some (j, rest)) :
    j.IsFinite := by
  unfold number? at h
  dsimp only at h
  repeat' split at h
  all_goals cases h
  all_goals first
    | exact isFinite_floatLiteral _ _
    | exact isFinite_integerLiteral _ _

/-- The numbers of an object are those of its members. -/
theorem isFinite_objectOf {members : List (Characters × Json)} (h : ∀ m ∈ members, m.2.IsFinite) :
    (objectOf members).IsFinite := by
  unfold objectOf
  split
  · next found hfound =>
    refine .obj fun m hm => ?_
    obtain ⟨m', hm', hread⟩ := exists_of_mem_mapM hfound hm
    obtain ⟨_, -, rfl⟩ := Option.map_eq_some_iff.1 hread
    exact h m' hm'
  · exact .unreadable

/-- A string has no numbers. -/
theorem isFinite_stringOf (cs : Characters) : (stringOf cs).IsFinite := by
  unfold stringOf
  split
  · exact .str _
  · exact .unreadable

/-- What is nested too deep has no value. -/
theorem IsFinite.nested {j : Json} (h : j.IsFinite) (depth : Nat) :
    (if depth = 0 then .unreadable else j : Json).IsFinite := by
  split
  · exact .unreadable
  · exact h

/-- What is read in so many steps has finite numbers. -/
structure ReadsFinite (fuel : Nat) : Prop where
  value : ∀ {depth cs j rest}, value? fuel depth cs = some (j, rest) → j.IsFinite
  items : ∀ {depth cs js rest}, items? fuel depth cs = some (js, rest) → ∀ j ∈ js, j.IsFinite
  members : ∀ {depth cs ms rest}, members? fuel depth cs = some (ms, rest) →
    ∀ m ∈ ms, m.2.IsFinite

section

variable {fuel depth : Nat} {cs rest : List Char} (hfuel : ReadsFinite fuel)

include hfuel

/-- A value is finite, if what is read in fewer steps is. -/
theorem ReadsFinite.value_succ {j : Json} (h : value? (fuel + 1) depth cs = some (j, rest)) :
    j.IsFinite := by
  rw [value?] at h
  dsimp only at h
  split at h
  · cases h
    exact .null
  · cases h
    exact .bool _
  · cases h
    exact .bool _
  · obtain ⟨p, -, heq⟩ := Option.map_eq_some_iff.1 h
    cases heq
    exact isFinite_stringOf p.1
  · split at h
    · cases h
      exact .nested (.arr (List.forall_mem_nil _)) _
    · obtain ⟨p, hp, heq⟩ := Option.map_eq_some_iff.1 h
      cases heq
      exact .nested (.arr (hfuel.items hp)) _
  · split at h
    · cases h
      exact .nested (.obj (List.forall_mem_nil _)) _
    · obtain ⟨p, hp, heq⟩ := Option.map_eq_some_iff.1 h
      cases heq
      exact .nested (isFinite_objectOf (hfuel.members hp)) _
  · exact isFinite_number? h

/-- The items of an array are finite, if what is read in fewer steps is. -/
theorem ReadsFinite.items_succ {js : List Json}
    (h : items? (fuel + 1) depth cs = some (js, rest)) : ∀ j ∈ js, j.IsFinite := by
  rw [items?] at h
  split at h
  · cases h
  · next first rest' hfirst =>
    have hfinite := hfuel.value hfirst
    split at h
    · obtain ⟨p, hp, heq⟩ := Option.map_eq_some_iff.1 h
      cases heq
      exact List.forall_mem_cons.2 ⟨hfinite, hfuel.items hp⟩
    · cases h
      exact List.forall_mem_singleton.2 hfinite
    · cases h

/-- The members of an object are finite, if what is read in fewer steps is. -/
theorem ReadsFinite.members_succ {ms : List (Characters × Json)}
    (h : members? (fuel + 1) depth cs = some (ms, rest)) : ∀ m ∈ ms, m.2.IsFinite := by
  rw [members?] at h
  split at h
  · split at h
    · cases h
    · split at h
      · split at h
        · cases h
        · next j rest' hfirst =>
          have hfinite := hfuel.value hfirst
          split at h
          · obtain ⟨p, hp, heq⟩ := Option.map_eq_some_iff.1 h
            cases heq
            exact List.forall_mem_cons.2 ⟨hfinite, hfuel.members hp⟩
          · cases h
            exact List.forall_mem_singleton.2 hfinite
          · cases h
      · cases h
  · cases h

end

/-- Whatever is read in some number of steps is finite, by induction on the steps. -/
theorem readsFinite (fuel : Nat) : ReadsFinite fuel := by
  induction fuel with
  | zero => exact ⟨nofun, nofun, nofun⟩
  | succ fuel ih => exact ⟨ih.value_succ, ih.items_succ, ih.members_succ⟩

/-- Data that was read from a text. -/
theorem isFinite_of_parse? {text : String} {j : Json} (h : parse? text = some j) : j.IsFinite := by
  unfold parse? at h
  dsimp only at h
  split at h
  · next j' rest hvalue =>
    split at h
    · cases h
      exact (readsFinite _).value hvalue
    · cases h
  · cases h

/-! ## Members in order -/

/-- Putting members in order keeps the numbers. -/
theorem isFinite_canonical? (j : Json) {j' : Json} (hj : j.IsFinite)
    (h : j.canonical? = some j') : j'.IsFinite := by
  induction hj generalizing j' with
  | unreadable => cases h
  | null => cases h; exact .null
  | bool b => cases h; exact .bool b
  | int hi => cases h; exact .int hi
  | float hx => cases h; exact .float hx
  | str s => cases h; exact .str s
  | arr _ ih =>
    rw [canonical?_arr] at h
    obtain ⟨items', hitems', rfl⟩ := Option.map_eq_some_iff.1 h
    refine .arr fun k' hk' => ?_
    obtain ⟨k, hk, hcanonical⟩ := exists_of_mem_mapM hitems' hk'
    exact ih k hk hcanonical
  | obj _ ih =>
    rw [canonical?_obj] at h
    obtain ⟨t, ht, rfl⟩ := Option.map_eq_some_iff.1 h
    refine .obj fun m' hm' => ?_
    obtain ⟨_, heq, m, hm, hcanonical⟩ := exists_mem_of_table? ht (Table.get?_eq_some_iff.2 hm')
    cases heq
    exact ih m hm hcanonical

/-! ## Reading -/

variable {j : Json}

/-- A number that is read is finite. -/
theorem IsFinite.float? (hj : j.IsFinite) {x : Float} (h : j.float? = some x) :
    Scalar.isFinite x = true := by
  cases hj with
  | int hi =>
    cases h
    exact Binary64.isFinite_ofInt hi
  | float hx =>
    cases h
    exact hx
  | _ => cases h

/-- The fields of a record are parts of it. -/
theorem IsFinite.fields? (hj : j.IsFinite) {names : List String} {f : Fields}
    (h : j.fields? names = some f) : ∀ m ∈ f.found, m.2.IsFinite := by
  cases hj with
  | arr hitems =>
    rw [Json.fields?] at h
    split at h
    · cases h
      exact fun m hm => hitems m.2 (List.of_mem_zip hm).2
    · cases h
  | obj hmembers =>
    rw [Json.fields?] at h
    split at h
    · cases h
      exact fun m hm => hmembers m (List.mem_of_mem_filter hm)
    · cases h
  | _ => cases h

/-- So are the values of a table. -/
theorem IsFinite.table? (hj : j.IsFinite) {β : Type} {read : Json → Option β} {t : Table β}
    (h : j.table? read = some t) {k : String} {b : β} (hb : t.get? k = some b) :
    ∃ j' : Json, j'.IsFinite ∧ read j' = some b := by
  obtain ⟨members, rfl, m, hm, hread⟩ := exists_mem_of_table? h hb
  cases hj with
  | obj hmembers => exact ⟨m.2, hmembers m hm, hread⟩

end BlockModels.Json
