import BlockModels.Image.Fragment
import BlockModels.Proofs.Json.Quoting
import BlockModels.Proofs.Lists
import BlockModels.Proofs.Scalar.Written

/-!
# What the texts of records tell apart

References and fragments are told apart by texts (`Keyed.key`). It can be seen from such a text
where each field begins and ends, whatever names and paths are in it
(`FieldsCut.recordText_cancel`).
So two records with one text have equal names, flags and finite numbers
(`TextureReference.matches_of_key`, `TextureFragment.matches_of_key`), and are equal if one of them
has only finite numbers. Numbers that are not finite are all written alike.
-/

namespace BlockModels

/-! ## Texts of values -/

/-- What stands behind the text of a value. -/
def EndsValue (x : List Char) : Prop := ∃ ch rest, x = ch :: rest ∧ endsValue ch = true

/-- It can be seen which of two texts of values stands at the beginning of a text, and where it
ends. -/
def Cuts (s t : String) : Prop :=
  ∀ x y, EndsValue x → EndsValue y → s.toList ++ x = t.toList ++ y → s = t ∧ x = y

/-- A number or a word. -/
def IsWord (s : String) : Prop := ∀ ch ∈ s.toList, endsValue ch = false

/-- A word goes on up to the first character that ends it. -/
theorem IsWord.takeWhile_append {s : String} (h : IsWord s) {x : List Char} (hx : EndsValue x) :
    (s.toList ++ x).takeWhile (fun ch => !endsValue ch) = s.toList := by
  obtain ⟨ch, rest, rfl, hch⟩ := hx
  rw [List.takeWhile_append_of_pos fun ch hmem => by rw [h ch hmem]; rfl,
    List.takeWhile_cons_of_neg (by rw [hch]; exact Bool.false_ne_true), List.append_nil]

/-- A number or a word ends where a comma or a bracket begins. -/
theorem IsWord.cuts {s t : String} (hs : IsWord s) (ht : IsWord t) : Cuts s t := by
  intro x y hx hy h
  have heq : s.toList = t.toList := by rw [← hs.takeWhile_append hx, h, ht.takeWhile_append hy]
  obtain rfl := String.toList_inj.1 heq
  exact ⟨rfl, List.append_cancel_left h⟩

/-- A quoted text ends at its own quote, whatever is inside. -/
theorem cuts_quoted (s t : String) : Cuts (Json.quoted s) (Json.quoted t) := by
  intro x y _ _ h
  obtain ⟨rfl, hxy⟩ := Json.quoted_cancel h
  exact ⟨rfl, hxy⟩

/-! ## Items behind each other -/

/-- Texts with commas between them are the first one and then each with a comma before it. -/
theorem toList_intercalate_cons (s : String) (rest : List String) :
    (String.intercalate "," (s :: rest)).toList =
      s.toList ++ rest.flatMap fun t => ',' :: t.toList := by
  have hcomma : ",".toList = [','] := rfl
  rw [String.toList_intercalate, hcomma, List.map_cons, intercalate_cons, List.flatMap_map]

variable {close : Char}

/-- Behind an item stands a comma or the closing bracket. -/
theorem endsValue_flatMap (hclose : endsValue close = true) (rest : List String) (x : List Char) :
    EndsValue ((rest.flatMap fun t => ',' :: t.toList) ++ close :: x) := by
  cases rest with
  | nil => exact ⟨close, x, rfl, hclose⟩
  | cons t rest => exact ⟨',', _, rfl, rfl⟩

/-- The items behind the first one are told apart up to the closing bracket. -/
theorem flatMap_cancel (hclose : endsValue close = true) (hcomma : close ≠ ',')
    {items items' : List String} (h : ∀ s ∈ items, ∀ t ∈ items', Cuts s t) {x y : List Char}
    (heq : (items.flatMap fun t => ',' :: t.toList) ++ close :: x =
      (items'.flatMap fun t => ',' :: t.toList) ++ close :: y) : items = items' ∧ x = y := by
  induction items generalizing items' with
  | nil =>
    cases items' with
    | nil => exact ⟨rfl, (List.cons.inj heq).2⟩
    | cons t rest' => exact absurd (List.cons.inj heq).1 hcomma
  | cons s rest ih =>
    cases items' with
    | nil => exact absurd (List.cons.inj heq).1.symm hcomma
    | cons t rest' =>
      simp only [List.flatMap_cons, List.cons_append, List.append_assoc, List.cons.injEq,
        true_and] at heq
      obtain ⟨rfl, htail⟩ := h s List.mem_cons_self t List.mem_cons_self _ _
        (endsValue_flatMap hclose rest x) (endsValue_flatMap hclose rest' y) heq
      obtain ⟨rfl, hxy⟩ := ih (fun s hs t ht => h s (List.mem_cons_of_mem _ hs) t
        (List.mem_cons_of_mem _ ht)) htail
      exact ⟨rfl, hxy⟩

/-- Items can be told apart in a list up to its closing bracket. -/
theorem intercalate_cancel (hclose : endsValue close = true) (hcomma : close ≠ ',')
    {s t : String} {items items' : List String}
    (h : ∀ s' ∈ s :: items, ∀ t' ∈ t :: items', Cuts s' t') {x y : List Char}
    (heq : (String.intercalate "," (s :: items)).toList ++ close :: x =
      (String.intercalate "," (t :: items')).toList ++ close :: y) :
    s :: items = t :: items' ∧ x = y := by
  rw [toList_intercalate_cons, toList_intercalate_cons, List.append_assoc, List.append_assoc] at heq
  obtain ⟨rfl, htail⟩ := h s List.mem_cons_self t List.mem_cons_self _ _
    (endsValue_flatMap hclose items x) (endsValue_flatMap hclose items' y) heq
  obtain ⟨rfl, hxy⟩ := flatMap_cancel hclose hcomma (fun s hs t ht =>
    h s (List.mem_cons_of_mem _ hs) t (List.mem_cons_of_mem _ ht)) htail
  exact ⟨rfl, hxy⟩

/-! ## Records -/

/-- A field in the text of a record. -/
def fieldText (f : String × String) : String := Json.quoted f.1 ++ ":" ++ f.2

/-- Two fields are the same if their texts are, provided that of two fields with one name the values
can be told apart. -/
theorem fieldText_cancel {f g : String × String} (h : f.1 = g.1 → Cuts f.2 g.2) {x y : List Char}
    (hx : EndsValue x) (hy : EndsValue y)
    (heq : (fieldText f).toList ++ x = (fieldText g).toList ++ y) : f = g ∧ x = y := by
  simp only [fieldText, String.toList_append, List.append_assoc] at heq
  obtain ⟨hname, htext⟩ := Json.quoted_cancel heq
  obtain ⟨htext, hxy⟩ := h hname x y hx hy (List.append_cancel_left htext)
  exact ⟨Prod.ext hname htext, hxy⟩

/-- The text of a record is that of its fields with commas between them, in braces. -/
theorem toList_recordText (fs : List (String × String)) :
    (recordText fs).toList =
      '\x7b' :: ((String.intercalate "," (fs.map fieldText)).toList ++ ['\x7d']) := by
  have hopen : "\x7b".toList = ['\x7b'] := by decide
  have hclose : "\x7d".toList = ['\x7d'] := by decide
  rw [recordText, String.toList_append, String.toList_append, hopen, hclose, List.append_assoc]
  rfl

/-- The fields of two records can be told apart if those of the same name can. -/
def FieldsCut (fs gs : List (String × String)) : Prop :=
  ∀ f ∈ fs, ∀ g ∈ gs, f.1 = g.1 → Cuts f.2 g.2

/-- Fields that are written alike are the same. -/
theorem FieldsCut.eq_of_map_eq {fs gs : List (String × String)} (h : FieldsCut fs gs)
    (heq : fs.map fieldText = gs.map fieldText) : fs = gs := by
  induction fs generalizing gs with
  | nil => exact (List.map_eq_nil_iff.1 heq.symm).symm
  | cons f fs ih =>
    cases gs with
    | nil => cases heq
    | cons g gs =>
      obtain ⟨hhead, htail⟩ := List.cons.inj heq
      have hends : EndsValue [','] := ⟨',', [], rfl, rfl⟩
      have htext : (fieldText f).toList ++ [','] = (fieldText g).toList ++ [','] := by rw [hhead]
      obtain ⟨rfl, -⟩ := fieldText_cancel (h f List.mem_cons_self g List.mem_cons_self) hends hends
        htext
      rw [ih (fun f hf g hg => h f (List.mem_cons_of_mem _ hf) g (List.mem_cons_of_mem _ hg)) htail]

/-- A record is known by its text, and it can be seen where it ends. -/
theorem FieldsCut.recordText_cancel {f g : String × String} {fs gs : List (String × String)}
    (h : FieldsCut (f :: fs) (g :: gs)) {x y : List Char}
    (heq : (recordText (f :: fs)).toList ++ x = (recordText (g :: gs)).toList ++ y) :
    f :: fs = g :: gs ∧ x = y := by
  have hitems : ∀ s ∈ (f :: fs).map fieldText, ∀ t ∈ (g :: gs).map fieldText, Cuts s t := by
    intro s hs t ht x y hx hy heq
    obtain ⟨f', hf', rfl⟩ := List.mem_map.1 hs
    obtain ⟨g', hg', rfl⟩ := List.mem_map.1 ht
    obtain ⟨rfl, hxy⟩ := fieldText_cancel (h f' hf' g' hg') hx hy heq
    exact ⟨rfl, hxy⟩
  rw [toList_recordText, toList_recordText, List.cons_append, List.cons_append, List.append_assoc,
    List.append_assoc] at heq
  obtain ⟨hmap, hxy⟩ := intercalate_cancel rfl (by decide) hitems (List.cons.inj heq).2
  exact ⟨h.eq_of_map_eq hmap, hxy⟩

/-- A record ends at its own brace. -/
theorem FieldsCut.cuts {f g : String × String} {fs gs : List (String × String)}
    (h : FieldsCut (f :: fs) (g :: gs)) : Cuts (recordText (f :: fs)) (recordText (g :: gs)) := by
  intro x y _ _ heq
  obtain ⟨hfields, hxy⟩ := h.recordText_cancel heq
  exact ⟨congrArg recordText hfields, hxy⟩

/-- Records that are written alike have the same fields. -/
theorem FieldsCut.eq_of_recordText_eq {f g : String × String} {fs gs : List (String × String)}
    (h : FieldsCut (f :: fs) (g :: gs)) (heq : recordText (f :: fs) = recordText (g :: gs)) :
    f :: fs = g :: gs :=
  (h.recordText_cancel (x := []) (y := []) (by rw [heq])).1

/-! ## Words and lists of numbers -/

/-- A flag is written as a word. -/
theorem isWord_boolText (b : Bool) : IsWord (boolText b) := by
  have hall : ((boolText b).toList.all fun ch => !endsValue ch) = true := by
    cases b <;> decide
  exact fun ch hch => Bool.eq_false_of_not_eq_true' (List.all_eq_true.1 hall ch hch)

/-- A flag is known by its word. -/
theorem boolText_inj {a b : Bool} (h : boolText a = boolText b) : a = b := by
  revert h
  cases a <;> cases b <;> decide

/-- An integer is written as a number. -/
theorem isWord_int (i : Int) : IsWord (toString i) := by
  intro ch hch
  rcases mem_toString_int hch with h | rfl
  · exact endsValue_of_isDigit h
  · rfl

/-- An integer of 64 bits is known by its digits. -/
theorem int64_inj {i j : Int64} : toString i.toInt = toString j.toInt ↔ i = j :=
  ⟨fun h => Int64.toInt_inj.1 (toString_int_inj h), fun h => by rw [h]⟩

section

variable {α : Type} [Scalar α]

/-- The text of numbers is that of each with commas between them, in brackets. -/
theorem toList_numbersText (as : List α) : (numbersText as).toList =
    '[' :: ((String.intercalate "," (as.map Scalar.json)).toList ++ [']']) := by
  have hopen : "[".toList = ['['] := by decide
  have hclose : "]".toList = [']'] := by decide
  rw [numbersText, String.toList_append, String.toList_append, hopen, hclose, List.append_assoc]
  rfl

variable [WrittenScalar α]

/-- A scalar is written as a number or a word. -/
theorem isWord_json (a : α) : IsWord (Scalar.json a) := fun _ h =>
  WrittenScalar.endsValue_eq_false h

/-- The texts of numbers in brackets are told apart one by one. -/
theorem numbersText_cancel {a b : α} {as bs : List α} {x y : List Char}
    (h : (numbersText (a :: as)).toList ++ x = (numbersText (b :: bs)).toList ++ y) :
    (a :: as).map Scalar.json = (b :: bs).map Scalar.json ∧ x = y := by
  rw [toList_numbersText, toList_numbersText, List.cons_append, List.cons_append, List.append_assoc,
    List.append_assoc] at h
  refine intercalate_cancel rfl (by decide) ?_ (List.cons.inj h).2
  intro s hs t ht
  obtain ⟨a', -, rfl⟩ := List.mem_map.1 (List.map_cons ▸ hs)
  obtain ⟨b', -, rfl⟩ := List.mem_map.1 (List.map_cons ▸ ht)
  exact (isWord_json a').cuts (isWord_json b')

/-- Numbers in brackets end at their own bracket. -/
theorem cuts_numbersText {a b : α} {as bs : List α} :
    Cuts (numbersText (a :: as)) (numbersText (b :: bs)) := by
  intro x y _ _ h
  obtain ⟨hmap, hxy⟩ := numbersText_cancel h
  refine ⟨?_, hxy⟩
  rw [numbersText, hmap]
  rfl

/-- Numbers in brackets that are written alike are written alike one by one. -/
theorem map_json_of_numbersText {a b : α} {as bs : List α}
    (h : numbersText (a :: as) = numbersText (b :: bs)) :
    (a :: as).map Scalar.json = (b :: bs).map Scalar.json :=
  (numbersText_cancel (x := []) (y := []) (by rw [h])).1

end

/-! ## What records have in common that are written alike -/

/-- A text is known by its quoted form. -/
theorem quoted_inj {s t : String} : Json.quoted s = Json.quoted t ↔ s = t :=
  ⟨fun h => (Json.quoted_cancel (x := []) (y := []) (by rw [h])).1, fun h => by rw [h]⟩

namespace TextureSource

/-- The fields of a source, without its kind. -/
def fields : TextureSource → List (String × String)
  | .block blockName face variant =>
    [("block_name", Json.quoted blockName), ("face", Json.quoted face),
      ("variant", toString variant.toInt)]
  | .terrainKey blockName key variant =>
    [("block_name", Json.quoted blockName), ("key", Json.quoted key),
      ("variant", toString variant.toInt)]
  | .path image => [("path", Json.quoted image)]

/-- What kind of source it is. -/
def kind : TextureSource → String
  | .block .. => "block"
  | .terrainKey .. => "terrain_key"
  | .path _ => "path"

/-- The kind of a source is written before its fields. -/
theorem key_eq (s : TextureSource) :
    s.key = recordText (("kind", Json.quoted s.kind) :: s.fields) := by
  cases s <;> rfl

/-- The kind tells which fields follow, so the fields of two sources can be told apart. -/
theorem fieldsCut (s t : TextureSource) :
    FieldsCut (("kind", Json.quoted s.kind) :: s.fields)
      (("kind", Json.quoted t.kind) :: t.fields) := by
  have hvariant : ∀ i j : Int64, Cuts i.toInt.repr j.toInt.repr := fun i j =>
    (isWord_int _).cuts (isWord_int _)
  cases s <;> cases t <;> simp [FieldsCut, fields, cuts_quoted, hvariant]

/-- The text of a source ends where it should. -/
theorem cuts_key (s t : TextureSource) : Cuts s.key t.key := by
  rw [key_eq, key_eq]
  exact (fieldsCut s t).cuts

/-- A source is made up of its kind and its fields. -/
theorem eq_of_fields_eq {s t : TextureSource} (hkind : s.kind = t.kind)
    (hfields : s.fields = t.fields) : s = t := by
  cases s <;> cases t <;>
    simp only [kind, fields, List.cons.injEq, Prod.mk.injEq, quoted_inj, int64_inj, true_and,
      and_true] at hkind hfields
  case block.block =>
    obtain ⟨rfl, rfl, rfl⟩ := hfields
    rfl
  case terrainKey.terrainKey =>
    obtain ⟨rfl, rfl, rfl⟩ := hfields
    rfl
  case path.path => rw [hfields]
  all_goals exact absurd hkind (by decide)

/-- A source is known by its text. -/
theorem key_inj {s t : TextureSource} (h : s.key = t.key) : s = t := by
  rw [key_eq, key_eq] at h
  obtain ⟨hkind, hfields⟩ := List.cons.inj ((fieldsCut s t).eq_of_recordText_eq h)
  exact eq_of_fields_eq (quoted_inj.1 (Prod.mk.inj hkind).2) hfields

end TextureSource

section

variable {α : Type} [Scalar α]

/-- The numbers of two pairs are the same, as far as they are finite. -/
def Vec2.Matches (v w : Vec2 α) : Prop := Scalar.Matches v.x w.x ∧ Scalar.Matches v.y w.y

/-- The numbers of two triples are the same, as far as they are finite. -/
def Vec3.Matches (v w : Vec3 α) : Prop :=
  Scalar.Matches v.x w.x ∧ Scalar.Matches v.y w.y ∧ Scalar.Matches v.z w.z

/-- The numbers of two rectangles are the same, as far as they are finite. -/
def Rect.Matches (r s : Rect α) : Prop := r.uv.Matches s.uv ∧ r.size.Matches s.size

/-- Two references are the same, as far as their numbers are finite. -/
structure TextureReference.Matches (r s : TextureReference α) : Prop where
  rect : r.rect.Matches s.rect
  source : r.source = s.source
  tint : Option.Rel Vec3.Matches r.tint s.tint
  croppable : r.croppable = s.croppable

/-- Two tints are the same, as far as their numbers are finite. -/
structure Tint.Matches (t u : Tint α) : Prop where
  rgb : t.rgb.Matches u.rgb
  likePng : t.likePng = u.likePng

/-- Two fragments are the same, as far as their numbers are finite. -/
structure TextureFragment.Matches (f g : TextureFragment α) : Prop where
  path : f.path = g.path
  tint : Option.Rel Tint.Matches f.tint g.tint
  opacity : Scalar.Matches f.opacity g.opacity
  rect : f.rect.Matches g.rect
  croppable : f.croppable = g.croppable

/-! ## Finite records -/

/-- Every number of a triple is finite. -/
def Vec3.isFinite (v : Vec3 α) : Bool := v.toList.all Scalar.isFinite

/-- Every number of a reference is finite. -/
def TextureReference.isFinite (r : TextureReference α) : Bool :=
  r.rect.isFinite && r.tint.all Vec3.isFinite

/-- Every number of a fragment is finite. -/
def TextureFragment.isFinite (f : TextureFragment α) : Bool :=
  f.rect.isFinite && f.tint.all (·.rgb.isFinite) && Scalar.isFinite f.opacity

/-- Triples that match are equal if one of them is finite. -/
theorem Vec3.Matches.eq_of_isFinite {v w : Vec3 α} (h : v.Matches w) (hv : v.isFinite = true) :
    v = w := by
  obtain ⟨hx, hy, hz⟩ := h
  simp only [Vec3.isFinite, Vec3.toList, List.all_cons, List.all_nil, Bool.and_true,
    Bool.and_eq_true] at hv
  cases v
  cases w
  rw [Vec3.mk.injEq]
  exact ⟨hx.eq_of_isFinite hv.1, hy.eq_of_isFinite hv.2.1, hz.eq_of_isFinite hv.2.2⟩

/-- Rectangles that match are equal if one of them is finite. -/
theorem Rect.Matches.eq_of_isFinite {r s : Rect α} (h : r.Matches s) (hr : r.isFinite = true) :
    r = s := by
  obtain ⟨⟨hx, hy⟩, hw, hh⟩ := h
  simp only [Rect.isFinite, Vec2.toList, List.cons_append, List.nil_append, List.all_cons,
    List.all_nil, Bool.and_true, Bool.and_eq_true] at hr
  obtain ⟨⟨x, y⟩, ⟨w, h⟩⟩ := r
  obtain ⟨⟨x', y'⟩, ⟨w', h'⟩⟩ := s
  rw [Rect.mk.injEq, Vec2.mk.injEq, Vec2.mk.injEq]
  exact ⟨⟨hx.eq_of_isFinite hr.1, hy.eq_of_isFinite hr.2.1⟩, hw.eq_of_isFinite hr.2.2.1,
    hh.eq_of_isFinite hr.2.2.2⟩

/-- References that match are equal if the numbers of one of them are finite. -/
theorem TextureReference.Matches.eq_of_isFinite {r s : TextureReference α} (h : r.Matches s)
    (hr : r.isFinite = true) : r = s := by
  obtain ⟨hrect, hsource, htint, hcroppable⟩ := h
  obtain ⟨hfinite, htints⟩ := Bool.and_eq_true_iff.1 hr
  have heq : r.tint = s.tint := eq_of_rel htint fun rgb rgb' hrgb hmatches => by
    rw [hrgb, Option.all_some] at htints
    exact hmatches.eq_of_isFinite htints
  cases r
  cases s
  rw [TextureReference.mk.injEq]
  exact ⟨hrect.eq_of_isFinite hfinite, hsource, heq, hcroppable⟩

/-- Fragments that match are equal if the numbers of one of them are finite. -/
theorem TextureFragment.Matches.eq_of_isFinite {f g : TextureFragment α} (h : f.Matches g)
    (hf : f.isFinite = true) : f = g := by
  obtain ⟨hpath, htint, hopacity, hrect, hcroppable⟩ := h
  obtain ⟨hfinite, hopaque⟩ := Bool.and_eq_true_iff.1 hf
  obtain ⟨hfinite, htints⟩ := Bool.and_eq_true_iff.1 hfinite
  have heq : f.tint = g.tint := eq_of_rel htint fun t u ht hmatches => by
    rw [ht, Option.all_some] at htints
    cases t
    cases u
    rw [Tint.mk.injEq]
    exact ⟨hmatches.rgb.eq_of_isFinite htints, hmatches.likePng⟩
  cases f
  cases g
  rw [TextureFragment.mk.injEq]
  exact ⟨hpath, heq, hopacity.eq_of_isFinite hopaque, hrect.eq_of_isFinite hfinite, hcroppable⟩

/-! ## Records that are written alike -/

variable [WrittenScalar α]

/-- Pairs that are written alike match. -/
theorem Vec2.matches_of_numbersText {v w : Vec2 α}
    (h : numbersText v.toList = numbersText w.toList) : v.Matches w := by
  have hmap := map_json_of_numbersText h
  simp only [List.map_cons, List.map_nil, List.cons.injEq, and_true] at hmap
  exact ⟨Scalar.matches_of_json hmap.1, Scalar.matches_of_json hmap.2⟩

/-- Triples that are written alike match. -/
theorem Vec3.matches_of_numbersText {v w : Vec3 α}
    (h : numbersText v.toList = numbersText w.toList) : v.Matches w := by
  have hmap := map_json_of_numbersText h
  simp only [List.map_cons, List.map_nil, List.cons.injEq, and_true] at hmap
  exact ⟨Scalar.matches_of_json hmap.1, Scalar.matches_of_json hmap.2.1,
    Scalar.matches_of_json hmap.2.2⟩

/-- The text of a pair ends at its bracket. -/
theorem Vec2.cuts_numbersText (v w : Vec2 α) :
    Cuts (numbersText v.toList) (numbersText w.toList) := BlockModels.cuts_numbersText

/-- The text of a triple ends at its bracket. -/
theorem Vec3.cuts_numbersText (v w : Vec3 α) :
    Cuts (numbersText v.toList) (numbersText w.toList) := BlockModels.cuts_numbersText

/-- The word of a flag ends where a comma or a bracket begins. -/
theorem cuts_boolText (a b : Bool) : Cuts (boolText a) (boolText b) :=
  (isWord_boolText a).cuts (isWord_boolText b)

/-- An optional field between others. -/
theorem optionalField_cancel {β : Type} {R : β → β → Prop} {name m n : String} {text : β → String}
    {a b : Option β} {x y : String} {fs gs : List (String × String)}
    (hR : ∀ a b, text a = text b → R a b) (hm : m ≠ name) (hn : n ≠ name)
    (h : optionalField name text a ++ (m, x) :: fs = optionalField name text b ++ (n, y) :: gs) :
    Option.Rel R a b ∧ (m, x) :: fs = (n, y) :: gs := by
  cases a <;> cases b <;> simp only [optionalField, List.nil_append, List.singleton_append] at h
  · exact ⟨.none, h⟩
  · exact absurd (Prod.mk.inj (List.cons.inj h).1).1 hm
  · exact absurd (Prod.mk.inj (List.cons.inj h).1).1.symm hn
  · obtain ⟨htext, hrest⟩ := List.cons.inj h
    exact ⟨.some (hR _ _ (Prod.mk.inj htext).2), hrest⟩

namespace TextureReference

/-- The fields of a reference. -/
def fields (r : TextureReference α) : List (String × String) :=
  [("uv", numbersText r.rect.uv.toList), ("uv_size", numbersText r.rect.size.toList),
      ("source", r.source.key)]
    ++ optionalField "tint" (fun rgb => numbersText rgb.toList) r.tint
    ++ [("croppable", boolText r.croppable)]

/-- The fields of two references can be told apart, with a tint or without. -/
theorem fieldsCut (r s : TextureReference α) : FieldsCut r.fields s.fields := by
  cases htint : r.tint <;> cases htint' : s.tint <;>
    simp [FieldsCut, fields, optionalField, htint, htint', Vec2.cuts_numbersText,
      Vec3.cuts_numbersText, TextureSource.cuts_key, cuts_boolText]

/-- References that are written alike are the same, as far as their numbers are finite. -/
theorem matches_of_key {r s : TextureReference α} (h : r.key = s.key) : r.Matches s := by
  have hfields : r.fields = s.fields := (fieldsCut r s).eq_of_recordText_eq h
  simp only [fields, List.cons_append, List.nil_append, List.cons.injEq,
    Prod.mk.injEq, true_and] at hfields
  obtain ⟨huv, hsize, hsource, hrest⟩ := hfields
  obtain ⟨htint, hrest⟩ := optionalField_cancel (fun _ _ => Vec3.matches_of_numbersText)
    (by decide) (by decide) hrest
  exact {
    rect := ⟨Vec2.matches_of_numbersText huv, Vec2.matches_of_numbersText hsize⟩
    source := TextureSource.key_inj hsource
    tint := htint
    croppable := boolText_inj (Prod.mk.inj (List.cons.inj hrest).1).2 }

/-- A reference stands for another one: it is written alike, so it is the same as far as its numbers
are finite. -/
structure StandsFor (ref own : TextureReference α) : Prop where
  key_eq : ref.key = own.key
  alike : ref.Matches own

/-- What is listed under the key of a reference stands for it. -/
theorem standsFor_of_key {ref own : TextureReference α} (h : ref.key = own.key) :
    ref.StandsFor own := ⟨h, matches_of_key h⟩

/-- What stands for a finite reference is the reference. -/
theorem StandsFor.eq_of_isFinite {ref own : TextureReference α} (h : ref.StandsFor own)
    (hown : own.isFinite = true) : ref = own :=
  ((matches_of_key h.key_eq.symm).eq_of_isFinite hown).symm

end TextureReference

namespace Tint

/-- The fields of two tints can be told apart. -/
theorem fieldsCut (t u : Tint α) : FieldsCut
    [("rgb", numbersText t.rgb.toList), ("tint_like_png", boolText t.likePng)]
    [("rgb", numbersText u.rgb.toList), ("tint_like_png", boolText u.likePng)] := by
  simp [FieldsCut, Vec3.cuts_numbersText, cuts_boolText]

/-- Tints with one key match. -/
theorem matches_of_key {t u : Tint α} (h : t.key = u.key) : t.Matches u := by
  have hfields := (fieldsCut t u).eq_of_recordText_eq h
  simp only [List.cons.injEq, Prod.mk.injEq, true_and, and_true] at hfields
  exact ⟨Vec3.matches_of_numbersText hfields.1, boolText_inj hfields.2⟩

end Tint

namespace TextureFragment

/-- The fields of a fragment. -/
def fields (f : TextureFragment α) : List (String × String) :=
  [("path", Json.quoted f.path)]
    ++ optionalField "tint" Tint.key f.tint
    ++ [("opacity", Scalar.json f.opacity), ("uv", numbersText f.rect.uv.toList),
      ("uv_size", numbersText f.rect.size.toList), ("croppable", boolText f.croppable)]

/-- The fields of two fragments can be told apart, with a tint or without. -/
theorem fieldsCut (f g : TextureFragment α) : FieldsCut f.fields g.fields := by
  have htext : ∀ t u : Tint α, Cuts t.key u.key := fun t u => (Tint.fieldsCut t u).cuts
  have hopacity : ∀ a b : α, Cuts (Scalar.json a) (Scalar.json b) := fun a b =>
    (isWord_json a).cuts (isWord_json b)
  cases htint : f.tint <;> cases htint' : g.tint <;>
    simp [FieldsCut, fields, optionalField, htint, htint', cuts_quoted, htext, hopacity,
      Vec2.cuts_numbersText, cuts_boolText]

/-- Fragments that are written alike are the same, as far as their numbers are finite. -/
theorem matches_of_key {f g : TextureFragment α} (h : f.key = g.key) : f.Matches g := by
  have hfields : f.fields = g.fields := (fieldsCut f g).eq_of_recordText_eq h
  simp only [fields, List.cons_append, List.nil_append, List.cons.injEq,
    Prod.mk.injEq, true_and] at hfields
  obtain ⟨hpath, hrest⟩ := hfields
  obtain ⟨htint, hrest⟩ := optionalField_cancel (fun _ _ => Tint.matches_of_key)
    (by decide) (by decide) hrest
  simp only [List.cons.injEq, Prod.mk.injEq, true_and, and_true] at hrest
  obtain ⟨hopacity, huv, hsize, hcroppable⟩ := hrest
  exact {
    path := quoted_inj.1 hpath
    tint := htint
    opacity := Scalar.matches_of_json hopacity
    rect := ⟨Vec2.matches_of_numbersText huv, Vec2.matches_of_numbersText hsize⟩
    croppable := boolText_inj hcroppable }

/-- A fragment stands for another one: it is written alike, so it is the same as far as its numbers
are finite. -/
structure StandsFor (t own : TextureFragment α) : Prop where
  key_eq : t.key = own.key
  alike : t.Matches own

/-- What is listed under the key of a fragment stands for it. -/
theorem standsFor_of_key {t own : TextureFragment α} (h : t.key = own.key) : t.StandsFor own :=
  ⟨h, matches_of_key h⟩

/-- What stands for a finite fragment is the fragment. -/
theorem StandsFor.eq_of_isFinite {t own : TextureFragment α} (h : t.StandsFor own)
    (hown : own.isFinite = true) : t = own :=
  ((matches_of_key h.key_eq.symm).eq_of_isFinite hown).symm

end TextureFragment

end

end BlockModels
