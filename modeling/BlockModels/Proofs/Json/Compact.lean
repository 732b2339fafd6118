import BlockModels.Proofs.Json.Numbers
import BlockModels.Proofs.Scalar.Decimals
import BlockModels.Proofs.Texture.Keys

/-!
# What the text of data tells

Data in which every part has a value and every number is finite (`Json.IsData`) is known by its text
without blanks, and it can be seen from any text that begins with it where it ends
(`Json.cancels`). The first character tells a string, an array or an object from a word, and a word
goes on up to the first character that ends it. Of two words that are numbers, one is whole if it
has neither a point nor an exponent.
-/

namespace BlockModels

/-! ## Texts of numbers -/

namespace Decimal

/-- A point or an exponent. -/
def HasMark (cs : List Char) : Prop := '.' ∈ cs ∨ 'e' ∈ cs

/-- A mark stays with a character before it. -/
theorem HasMark.cons {ch : Char} {cs : List Char} (h : HasMark cs) : HasMark (ch :: cs) :=
  h.imp (List.mem_cons_of_mem _) (List.mem_cons_of_mem _)

/-- Digits with a point have the mark of a float. -/
theorem hasMark_positional (ds : List Char) (e : Int) : HasMark (Layout.json.positional ds e) := by
  unfold Layout.positional
  dsimp only
  split
  · exact .inl (List.mem_append_right _ List.mem_cons_self)
  · split
    · exact .inl (List.mem_append_right _ List.mem_cons_self)
    · exact .inl (List.mem_append_left _ (List.mem_cons_of_mem _ List.mem_cons_self))

/-- Digits with an exponent have the mark of a float. -/
theorem hasMark_scientific {ds : List Char} (hne : ds ≠ []) (lead : Int) :
    HasMark (Layout.json.scientific ds lead) := by
  unfold Layout.scientific
  dsimp only
  split
  · exact absurd rfl hne
  · exact .inr (List.mem_cons_of_mem _ List.mem_cons_self)
  · exact .inr (List.mem_append_right _ List.mem_cons_self)

/-- The digits of a float have the mark of one in either form. -/
theorem hasMark_magnitude (d : Digits) : HasMark (Layout.json.magnitude d) := by
  unfold Layout.magnitude
  split
  · exact hasMark_positional _ _
  · dsimp only
    split
    · exact hasMark_positional _ _
    · exact hasMark_scientific Nat.toDigits_ne_nil _

/-- In data a finite number has a point or an exponent. -/
theorem hasMark_write {x : Float} {negative : Bool} {m : Nat} {q : Int}
    (h : Binary64.ofFloat x = .finite negative m q) : HasMark (Layout.json.write x).toList := by
  have hbody := hasMark_magnitude (writtenDigits m q)
  unfold Layout.write
  rw [h]
  dsimp only
  rw [String.toList_ofList]
  cases negative with
  | false => exact hbody
  | true => exact hbody.cons

/-- An integer is written with digits and a sign. -/
theorem isNumeric_toString_int (i : Int) : IsNumeric (toString i).toList := by
  intro ch hch
  rcases mem_toString_int hch with hdigit | rfl
  · rw [isNumeric, hdigit]
    rfl
  · rfl

/-- A whole number has neither. -/
theorem not_hasMark_toString_int (i : Int) : ¬HasMark (toString i).toList := by
  rintro (h | h)
  all_goals
    rcases mem_toString_int h with hdigit | hsign
    · cases hdigit
    · cases hsign

end Decimal

namespace Json

open Decimal

/-- Data: every part has a value, and every number is finite. -/
inductive IsData : Json → Prop
  | null : IsData .null
  | bool (b : Bool) : IsData (.bool b)
  | int (i : Int) : IsData (.int i)
  | float {x : Float} (h : Scalar.isFinite x = true) : IsData (.float x)
  | str (s : String) : IsData (.str s)
  | arr {items : List Json} (h : ∀ j ∈ items, IsData j) : IsData (.arr items)
  | obj {members : List (String × Json)} (h : ∀ m ∈ members, IsData m.2) : IsData (.obj members)

/-- What is read from a text and put in order is data. -/
theorem IsFinite.isData {j j' : Json} (hj : j.IsFinite) (h : j.canonical? = some j') :
    j'.IsData := by
  induction hj generalizing j' with
  | unreadable => cases h
  | null => cases h; exact .null
  | bool b => cases h; exact .bool b
  | @int i _ => cases h; exact .int i
  | float hx => cases h; exact .float hx
  | str s => cases h; exact .str s
  | arr _ ih =>
    rw [canonical?_arr] at h
    obtain ⟨items', hitems', rfl⟩ := Option.map_eq_some_iff.1 h
    refine .arr fun k' hk' => ?_
    obtain ⟨k, hk, hcanonical⟩ := exists_of_mem_mapM hitems' hk'
    exact ih k hk hcanonical
  | obj _ ih =>
    rw [canonical?_obj] at h
    obtain ⟨t, ht, rfl⟩ := Option.map_eq_some_iff.1 h
    refine .obj fun m' hm' => ?_
    obtain ⟨_, heq, m, hm, hcanonical⟩ := exists_mem_of_table? ht (Table.get?_eq_some_iff.2 hm')
    cases heq
    exact ih m hm hcanonical

/-! ## Words -/

/-- A value whose text is a word: neither a string nor made up of others. -/
inductive IsWordData : Json → Prop
  | null : IsWordData .null
  | bool (b : Bool) : IsWordData (.bool b)
  | int (i : Int) : IsWordData (.int i)
  | float {x : Float} (h : Scalar.isFinite x = true) : IsWordData (.float x)

/-- A word of letters. -/
def IsLetters (s : String) : Prop := s = "null" ∨ s = "true" ∨ s = "false"

/-- Letters are not the characters of a number. -/
theorem IsLetters.not_isNumeric {s : String} (h : IsLetters s) : ¬IsNumeric s.toList := by
  intro hnumeric
  rcases h with rfl | rfl | rfl
  · exact absurd (hnumeric 'n' (by decide)) (by decide)
  · exact absurd (hnumeric 't' (by decide)) (by decide)
  · exact absurd (hnumeric 'f' (by decide)) (by decide)

/-- A flag is written with letters. -/
theorem isLetters_bool (b : Bool) : IsLetters (Json.bool b).compact := by
  cases b
  · exact .inr (.inr rfl)
  · exact .inr (.inl rfl)

/-- A finite float is written as a number that has the mark of a float. -/
theorem isNumeric_float {x : Float} (h : Scalar.isFinite x = true) :
    IsNumeric (Json.float x).compact.toList ∧ HasMark (Json.float x).compact.toList := by
  obtain ⟨negative, m, q, hx⟩ := Binary64.isFinite_iff.1 h
  exact ⟨isNumeric_write .json hx, hasMark_write hx⟩

variable {j k : Json}

/-- A value that is neither quoted nor bracketed is written as a word. -/
theorem IsWordData.isWord (hj : j.IsWordData) : IsWord j.compact := by
  cases hj with
  | null => exact fun ch hch => by fin_cases hch <;> rfl
  | bool b => exact isWord_boolText b
  | int i => exact isWord_int i
  | @float x _ => exact isWord_json x

/-- A word is known by its text. -/
theorem IsWordData.eq_of_compact (hj : j.IsWordData) (hk : k.IsWordData)
    (h : j.compact = k.compact) : j = k := by
  have hletters : ∀ {s t : String}, s = t → IsLetters s → IsNumeric t.toList → False :=
    fun heq hs ht => hs.not_isNumeric (heq ▸ ht)
  have hmark : ∀ {s : String} {i : Int}, s = toString i → ¬HasMark s.toList :=
    fun heq => heq ▸ not_hasMark_toString_int _
  have hnull : IsLetters Json.null.compact := .inl rfl
  cases hj with
  | null =>
    cases hk with
    | null => rfl
    | bool b => cases b <;> exact absurd h (by decide)
    | int i => exact (hletters h hnull (isNumeric_toString_int i)).elim
    | float hx => exact (hletters h hnull (isNumeric_float hx).1).elim
  | bool b =>
    cases hk with
    | null => cases b <;> exact absurd h (by decide)
    | bool b' => rw [boolText_inj h]
    | int i => exact (hletters h (isLetters_bool b) (isNumeric_toString_int i)).elim
    | float hx => exact (hletters h (isLetters_bool b) (isNumeric_float hx).1).elim
  | int i =>
    cases hk with
    | null => exact (hletters h.symm hnull (isNumeric_toString_int i)).elim
    | bool b => exact (hletters h.symm (isLetters_bool b) (isNumeric_toString_int i)).elim
    | int i' => rw [toString_int_inj h]
    | float hx => exact absurd (isNumeric_float hx).2 (hmark h.symm)
  | float hx =>
    cases hk with
    | null => exact (hletters h.symm hnull (isNumeric_float hx).1).elim
    | bool b => exact (hletters h.symm (isLetters_bool b) (isNumeric_float hx).1).elim
    | int i => exact absurd (isNumeric_float hx).2 (hmark h)
    | float hy => rw [Binary64.eq_of_write hx h]

/-! ## Arrays and objects -/

/-- Items are written with commas between them. -/
theorem compactItems_eq (items : List Json) :
    compactItems items = String.intercalate "," (items.map compact) := by
  induction items with
  | nil => rfl
  | cons j rest ih =>
    cases rest with
    | nil => rfl
    | cons k rest =>
      rw [compactItems, ih]
      · simp only [List.map_cons, String.intercalate_cons_cons]
      · exact nofun

/-- A member of an object, as a field of a record. -/
def memberField (m : String × Json) : String × String := (m.1, m.2.compact)

/-- Members are written as fields with commas between them. -/
theorem compactMembers_eq (members : List (String × Json)) : compactMembers members =
    String.intercalate "," (members.map fun m => fieldText (memberField m)) := by
  induction members with
  | nil => rfl
  | cons m rest ih =>
    cases rest with
    | nil => rfl
    | cons m' rest =>
      rw [compactMembers, ih]
      · simp only [List.map_cons, String.intercalate_cons_cons]
        rfl
      · exact nofun

/-- A list is written as its items in brackets. -/
theorem toList_compact_arr (items : List Json) : (Json.arr items).compact.toList =
    '[' :: ((String.intercalate "," (items.map compact)).toList ++ [']']) := by
  rw [compact, compactItems_eq, String.toList_append, String.toList_append, List.append_assoc]
  rfl

/-- An object is written as the record of its members. -/
theorem compact_obj (members : List (String × Json)) :
    (Json.obj members).compact = recordText (members.map memberField) := by
  rw [compact, compactMembers_eq, recordText, List.map_map]
  rfl

/-- What the text of a value begins with. -/
inductive Opening where
  | quote
  | bracket
  | brace
  | letter

/-- What the text of the value begins with. -/
def opening : Json → Opening
  | .str _ => .quote
  | .arr _ => .bracket
  | .obj _ => .brace
  | _ => .letter

/-- It can be seen from the first character. -/
def Opening.ofChar : Char → Opening
  | '"' => .quote
  | '[' => .bracket
  | '\x7b' => .brace
  | _ => .letter

/-- The text begins as it should, and not with what ends a value. -/
def Opens (cs : List Char) (o : Opening) : Prop :=
  ∃ ch rest, cs = ch :: rest ∧ Opening.ofChar ch = o ∧ endsValue ch = false

/-- A number begins like a word. -/
theorem opens_of_isNumeric {cs : List Char} (hne : cs ≠ []) (h : IsNumeric cs) :
    Opens cs .letter := by
  obtain ⟨ch, rest, rfl⟩ := List.exists_cons_of_ne_nil hne
  have hch := h ch List.mem_cons_self
  refine ⟨ch, rest, rfl, ?_, Binary64.endsValue_of_isNumeric hch⟩
  unfold Opening.ofChar
  split
  iterate 3 exact absurd hch (by decide)
  rfl

/-- Letters begin like a word. -/
theorem opens_of_isLetters {s : String} (h : IsLetters s) : Opens s.toList .letter := by
  rcases h with rfl | rfl | rfl
  all_goals exact ⟨_, _, rfl, rfl, rfl⟩

/-- The first character of a text shows the form of the value. -/
theorem IsData.opens (hj : j.IsData) : Opens j.compact.toList j.opening := by
  cases hj with
  | null => exact opens_of_isLetters (.inl rfl)
  | bool b => exact opens_of_isLetters (isLetters_bool b)
  | int i =>
    refine opens_of_isNumeric (fun hnil => ?_) (isNumeric_toString_int i)
    rw [compact, toList_toString_int] at hnil
    split at hnil
    · exact Nat.toDigits_ne_nil hnil
    · cases hnil
  | float hx =>
    obtain ⟨hnumeric, hmark⟩ := isNumeric_float hx
    refine opens_of_isNumeric (fun hnil => ?_) hnumeric
    rw [hnil] at hmark
    exact hmark.elim List.not_mem_nil List.not_mem_nil
  | str s => exact ⟨_, _, toList_quoted s, rfl, rfl⟩
  | arr _ => exact ⟨_, _, toList_compact_arr _, rfl, rfl⟩
  | obj _ => exact ⟨_, _, by rw [compact_obj]; exact toList_recordText _, rfl, rfl⟩

/-- Two values at the beginning of one text have one form. -/
theorem IsData.opening_eq {x y : List Char} (hj : j.IsData) (hk : k.IsData)
    (h : j.compact.toList ++ x = k.compact.toList ++ y) : j.opening = k.opening := by
  obtain ⟨ch, rest, htext, hopening, -⟩ := hj.opens
  obtain ⟨ch', rest', htext', hopening', -⟩ := hk.opens
  rw [htext, htext'] at h
  rw [← hopening, (List.cons.inj h).1, hopening']

/-! ## Texts behind each other -/

/-- It can be seen which of two values stands at the beginning of a text, and where it ends. -/
def Cancels (j k : Json) : Prop :=
  ∀ x y, EndsValue x → EndsValue y →
    j.compact.toList ++ x = k.compact.toList ++ y → j = k ∧ x = y

/-- If two values can be told apart their texts can. -/
theorem Cancels.cuts (h : Cancels j k) : Cuts j.compact k.compact := by
  intro x y hx hy heq
  obtain ⟨rfl, hxy⟩ := h x y hx hy heq
  exact ⟨rfl, hxy⟩

/-- If two values can be told apart they are equal if their texts are. -/
theorem Cancels.eq_of_compact (h : Cancels j k) (heq : j.compact = k.compact) : j = k := by
  have hends : EndsValue [','] := ⟨',', [], rfl, rfl⟩
  exact (h _ _ hends hends (by rw [heq])).1

/-- Items in brackets can be told apart, none or more of them. -/
theorem bracketed_cancel {close : Char} (hclose : endsValue close = true) (hcomma : close ≠ ',')
    {items items' : List String} (h : ∀ s ∈ items, ∀ t ∈ items', Cuts s t)
    (hopens : ∀ s ∈ items ++ items', ∃ o, Opens s.toList o) {x y : List Char}
    (heq : (String.intercalate "," items).toList ++ close :: x =
      (String.intercalate "," items').toList ++ close :: y) : items = items' ∧ x = y := by
  have hne : ∀ s ∈ items ++ items', ∀ rest z, s.toList ++ rest ≠ close :: z := by
    intro s hs rest z hclosed
    obtain ⟨o, ch, rest', htext, -, hch⟩ := hopens s hs
    rw [htext] at hclosed
    rw [(List.cons.inj hclosed).1, hclose] at hch
    cases hch
  cases items with
  | nil =>
    cases items' with
    | nil => exact ⟨rfl, (List.cons.inj heq).2⟩
    | cons t items' =>
      rw [toList_intercalate_cons t, List.append_assoc] at heq
      exact absurd heq.symm (hne t (List.mem_append_right _ List.mem_cons_self) _ _)
  | cons s items =>
    cases items' with
    | nil =>
      rw [toList_intercalate_cons s, List.append_assoc] at heq
      exact absurd heq (hne s (List.mem_append_left _ List.mem_cons_self) _ _)
    | cons t items' => exact intercalate_cancel hclose hcomma h heq

section

variable {x y : List Char}

/-- Lists can be told apart if their items can. -/
theorem arr_cancel {items items' : List Json} (hitems : ∀ j ∈ items, j.IsData)
    (hitems' : ∀ k ∈ items', k.IsData) (h : ∀ j ∈ items, ∀ k ∈ items', Cancels j k)
    (heq : (Json.arr items).compact.toList ++ x = (Json.arr items').compact.toList ++ y) :
    items = items' ∧ x = y := by
  rw [toList_compact_arr, toList_compact_arr, List.cons_append, List.cons_append,
    List.append_assoc, List.append_assoc] at heq
  have hcuts : ∀ s ∈ items.map compact, ∀ t ∈ items'.map compact, Cuts s t := by
    intro s hs t ht
    obtain ⟨j, hj, rfl⟩ := List.mem_map.1 hs
    obtain ⟨k, hk, rfl⟩ := List.mem_map.1 ht
    exact (h j hj k hk).cuts
  have hopens : ∀ s ∈ items.map compact ++ items'.map compact, ∃ o, Opens s.toList o := by
    intro s hs
    rw [← List.map_append] at hs
    obtain ⟨j, hj, rfl⟩ := List.mem_map.1 hs
    exact ⟨_, ((List.mem_append.1 hj).elim (hitems j) (hitems' j)).opens⟩
  obtain ⟨hmap, hxy⟩ := bracketed_cancel rfl (by decide) hcuts hopens (List.cons.inj heq).2
  exact ⟨eq_of_map_eq (fun j hj k hk => (h j hj k hk).eq_of_compact) hmap, hxy⟩

/-- Members can be told apart if their values can. -/
theorem memberField_cancel {m m' : String × Json} (h : Cancels m.2 m'.2) (hx : EndsValue x)
    (hy : EndsValue y) (heq : (fieldText (memberField m)).toList ++ x =
      (fieldText (memberField m')).toList ++ y) : m = m' ∧ x = y := by
  obtain ⟨hfield, hxy⟩ := fieldText_cancel (fun _ => h.cuts) hx hy heq
  obtain ⟨hname, hvalue⟩ := Prod.mk.inj hfield
  exact ⟨Prod.ext hname (h.eq_of_compact hvalue), hxy⟩

/-- A field begins with the quote of its name. -/
theorem opens_fieldText (f : String × String) : Opens (fieldText f).toList .quote := by
  have htext : (fieldText f).toList = (quoted f.1).toList ++ ":".toList ++ f.2.toList := by
    rw [fieldText, String.toList_append, String.toList_append]
  rw [toList_quoted, List.cons_append, List.cons_append] at htext
  exact ⟨_, _, htext, rfl, rfl⟩

/-- Objects can be told apart if the values of their members can. -/
theorem obj_cancel_of {members members' : List (String × Json)}
    (h : ∀ m ∈ members, ∀ m' ∈ members', Cancels m.2 m'.2)
    (heq : (Json.obj members).compact.toList ++ x = (Json.obj members').compact.toList ++ y) :
    members = members' ∧ x = y := by
  rw [compact_obj, compact_obj, toList_recordText, toList_recordText, List.cons_append,
    List.cons_append, List.append_assoc, List.append_assoc, List.map_map, List.map_map] at heq
  have hcuts : ∀ s ∈ members.map (fieldText ∘ memberField),
      ∀ t ∈ members'.map (fieldText ∘ memberField), Cuts s t := by
    intro s hs t ht x y hx hy htext
    obtain ⟨m, hm, rfl⟩ := List.mem_map.1 hs
    obtain ⟨m', hm', rfl⟩ := List.mem_map.1 ht
    obtain ⟨rfl, hxy⟩ := memberField_cancel (h m hm m' hm') hx hy htext
    exact ⟨rfl, hxy⟩
  have hopens : ∀ s ∈ members.map (fieldText ∘ memberField) ++
      members'.map (fieldText ∘ memberField), ∃ o, Opens s.toList o := by
    intro s hs
    rw [← List.map_append] at hs
    obtain ⟨m, -, rfl⟩ := List.mem_map.1 hs
    exact ⟨_, opens_fieldText (memberField m)⟩
  obtain ⟨hmap, hxy⟩ := bracketed_cancel rfl (by decide) hcuts hopens (List.cons.inj heq).2
  refine ⟨eq_of_map_eq (fun m hm m' hm' hfield => ?_) hmap, hxy⟩
  have hends : EndsValue [','] := ⟨',', [], rfl, rfl⟩
  have htext := congrArg (fun s => s.toList ++ [',']) hfield
  exact (memberField_cancel (h m hm m' hm') hends hends htext).1

end

/-- A word begins like one. -/
theorem IsWordData.opening_eq (hj : j.IsWordData) : j.opening = .letter := by
  cases hj <;> rfl

/-- A value that begins like a word is one. -/
theorem IsData.isWordData (hj : j.IsData) (h : j.opening = .letter) : j.IsWordData := by
  cases hj with
  | null => exact .null
  | bool b => exact .bool b
  | int i => exact .int i
  | float hx => exact .float hx
  | _ => cases h

/-- Data is known by its text, and it can be seen where it ends. -/
theorem cancels (hj : j.IsData) : ∀ k, k.IsData → Cancels j k := by
  have hword : ∀ {j : Json}, j.IsWordData → j.IsData → ∀ k, k.IsData → Cancels j k := by
    intro j hj hdata k hk x y hx hy heq
    have hk' := hk.isWordData ((hdata.opening_eq hk heq).symm.trans hj.opening_eq)
    obtain ⟨htext, hxy⟩ := hj.isWord.cuts hk'.isWord x y hx hy heq
    exact ⟨hj.eq_of_compact hk' htext, hxy⟩
  induction hj with
  | null => exact hword .null .null
  | bool b => exact hword (.bool b) (.bool b)
  | int i => exact hword (.int i) (.int i)
  | float hx => exact hword (.float hx) (.float hx)
  | str s =>
    intro k hk x y _ _ heq
    have hopening := IsData.opening_eq (.str s) hk heq
    cases hk <;> cases hopening
    obtain ⟨rfl, hxy⟩ := quoted_cancel heq
    exact ⟨rfl, hxy⟩
  | arr hitems ih =>
    intro k hk x y _ _ heq
    have hopening := IsData.opening_eq (.arr hitems) hk heq
    cases hk <;> cases hopening
    next items' hitems' =>
      obtain ⟨rfl, hxy⟩ := arr_cancel hitems hitems' (fun j hj k hk => ih j hj k (hitems' k hk)) heq
      exact ⟨rfl, hxy⟩
  | obj hmembers ih =>
    intro k hk x y _ _ heq
    have hopening := IsData.opening_eq (.obj hmembers) hk heq
    cases hk <;> cases hopening
    next members' hmembers' =>
      obtain ⟨rfl, hxy⟩ := obj_cancel_of (fun m hm m' hm' => ih m hm m'.2 (hmembers' m' hm')) heq
      exact ⟨rfl, hxy⟩

/-- An object closes itself, whatever comes behind it. -/
theorem obj_cancel {members members' : List (String × Json)} (h : (Json.obj members).IsData)
    (h' : (Json.obj members').IsData) {x y : List Char}
    (heq : (Json.obj members).compact.toList ++ x = (Json.obj members').compact.toList ++ y) :
    members = members' ∧ x = y := by
  cases h with
  | obj hmembers =>
    cases h' with
    | obj hmembers' =>
      exact obj_cancel_of (fun m hm m' hm' => cancels (hmembers m hm) m'.2 (hmembers' m' hm')) heq

end Json

end BlockModels
