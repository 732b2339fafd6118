import BlockModels.Block
import BlockModels.Proofs.Json.Compact

/-!
# What the key of a block tells

`Block.cacheKey` is made up of the short name, the states as they are written, the entity data and
the mark of a copy, with separators between them. Blocks that agree in these have one key, whatever
kinds their states are of. The separators are not marked where they are part of a name: any key is
also the key of a block that has nothing but a name. So the key tells the parts only where no
separator is part of a name or a state (`Block.IsPlain`), and the states only as far as no string is
written like a value of another kind (`Block.KeepsKinds`). Entity data may hold anything that can
be read (`Block.isData_of_ofJson?`), since the text of an object can be seen to end.
-/

namespace BlockModels

namespace StateValue

/-- The value is no string, or a string that no other kind of value is written like. -/
def KeepsKind (v : StateValue) : Prop :=
  ∀ s, v = .str s → (∀ b : Bool, s ≠ (StateValue.bool b).text) ∧
    ∀ i : Int64, s ≠ (StateValue.int i).text

/-- No Boolean is written as a number is. -/
theorem text_bool_ne_text_int (b : Bool) (i : Int64) :
    (StateValue.bool b).text ≠ (StateValue.int i).text := by
  intro h
  have hchars : ∀ ch ∈ (StateValue.bool b).text.toList, ch.isDigit = true ∨ ch = '-' :=
    fun ch hch => mem_toString_int (h ▸ hch)
  cases b
  · exact absurd (hchars 'f' (by decide)) (by decide)
  · exact absurd (hchars 't' (by decide)) (by decide)

/-- Values that keep their kind in writing are equal if they are written alike. -/
theorem eq_of_text_eq {v w : StateValue} (hv : v.KeepsKind) (hw : w.KeepsKind)
    (h : v.text = w.text) : v = w := by
  cases v with
  | bool b =>
    cases w with
    | bool b' => rw [boolText_inj h]
    | int i => exact absurd h (text_bool_ne_text_int b i)
    | str s => exact absurd h.symm ((hw s rfl).1 b)
  | int i =>
    cases w with
    | bool b => exact absurd h.symm (text_bool_ne_text_int b i)
    | int i' => rw [int64_inj.1 h]
    | str s => exact absurd h.symm ((hw s rfl).2 i)
  | str s =>
    cases w with
    | bool b => exact absurd h ((hv s rfl).1 b)
    | int i => exact absurd h ((hv s rfl).2 i)
    | str s' => exact congrArg StateValue.str h

end StateValue

namespace Block

/-! ## Blocks that are the same -/

/-- Two blocks are the same up to the namespaces of their names. -/
structure IsSame (a b : Block) : Prop where
  name : a.shortName = b.shortName
  states : a.states = b.states
  entity : a.entity = b.entity
  copied : a.copied = b.copied

/-- The values of the states as they are written. -/
def stateTexts (b : Block) : Table String := b.states.mapValues StateValue.text

/-- Two blocks are the same up to the kinds of their states. -/
structure IsWrittenAs (a b : Block) : Prop where
  name : a.shortName = b.shortName
  states : a.stateTexts = b.stateTexts
  entity : a.entity = b.entity
  copied : a.copied = b.copied

/-- No separator of a key is part of the name of the block or of its states, and none of those
between states is part of a value. The entity data is data. -/
structure IsPlain (b : Block) : Prop where
  name : '|' ∉ b.shortName.toList
  stateName {k : String} : k ∈ b.states.keys →
    '|' ∉ k.toList ∧ ',' ∉ k.toList ∧ '=' ∉ k.toList ∧ k.toList.head? ≠ some '\x7b'
  value {v : StateValue} : v ∈ b.states.values → '|' ∉ v.text.toList ∧ ',' ∉ v.text.toList
  entity {members : List (String × Json)} : b.entity = some members → (Json.obj members).IsData

/-- No state is written like a value of another kind. -/
def KeepsKinds (b : Block) : Prop := ∀ v ∈ b.states.values, v.KeepsKind

/-- Blocks that are the same are written alike. -/
theorem IsSame.isWrittenAs {a b : Block} (h : a.IsSame b) : a.IsWrittenAs b :=
  ⟨h.name, congrArg (Table.mapValues StateValue.text) h.states, h.entity, h.copied⟩

/-- Blocks that are written alike are the same, if all their states keep their kind. -/
theorem IsWrittenAs.isSame {a b : Block} (h : a.IsWrittenAs b) (ha : a.KeepsKinds)
    (hb : b.KeepsKinds) : a.IsSame b := by
  refine ⟨h.name, Table.ext_get? fun k => ?_, h.entity, h.copied⟩
  have htexts := congrArg (fun t => Table.get? t k) h.states
  simp only [stateTexts, Table.get?_mapValues] at htexts
  have hmem : ∀ {c : Block} {v : StateValue}, c.states.get? k = some v → v ∈ c.states.values :=
    fun hget => List.mem_map_of_mem (f := (·.2)) (Table.get?_eq_some_iff.1 hget)
  cases hget : a.states.get? k with
  | none =>
    rw [hget] at htexts
    exact (Option.map_eq_none_iff.1 htexts.symm).symm
  | some v =>
    rw [hget, Option.map_some] at htexts
    obtain ⟨w, hw, htext⟩ := Option.map_eq_some_iff.1 htexts.symm
    rw [hw, StateValue.eq_of_text_eq (ha v (hmem hget)) (hb w (hmem hw)) htext.symm]

/-! ## The parts of a key -/

/-- A state as it stands in a key. -/
def stateChars (e : String × String) : List Char := e.1.toList ++ '=' :: e.2.toList

/-- The states, after a separator. -/
def statesPart (b : Block) : List Char :=
  if b.states.isEmpty then [] else '|' :: b.statesText.toList

/-- The entity data, after a separator. -/
def entityPart (b : Block) : List Char :=
  match b.entity with
  | some members => '|' :: (Json.obj members).compact.toList
  | none => []

/-- The mark of a copy, after a separator. -/
def copiedPart (b : Block) : List Char := if b.copied then "|copied".toList else []

/-- A key is the name, followed by its three parts. -/
theorem toList_cacheKey (b : Block) : b.cacheKey.toList =
    b.shortName.toList ++ (b.statesPart ++ (b.entityPart ++ b.copiedPart)) := by
  have hbar : "|".toList = ['|'] := by decide
  rw [cacheKey, statesPart, entityPart, copiedPart]
  simp only [String.toList_append, List.append_assoc]
  congr 2
  · split
    · rfl
    · rw [String.toList_append, hbar]
      rfl
  · congr 1
    · cases b.entity with
      | none => rfl
      | some members =>
        rw [String.toList_append, hbar]
        rfl
    · split <;> rfl

/-- The states stand in a key with commas between them. -/
theorem toList_statesText (b : Block) :
    b.statesText.toList = [','].intercalate (b.stateTexts.entries.map stateChars) := by
  have hcomma : ",".toList = [','] := by decide
  rw [statesText, String.toList_intercalate, hcomma, stateTexts, Table.mapValues, List.map_map,
    List.map_map]
  congr 2
  funext e
  simp only [Function.comp_apply, stateChars, String.toList_append, List.append_assoc]
  rfl

/-! ## Seeing where a part ends -/

/-- Nothing, or something after a separator. -/
def BeginsBar (x : List Char) : Prop := x = [] ∨ ∃ rest, x = '|' :: rest

/-- Of two parts the first that is not empty begins with its separator. -/
theorem BeginsBar.append {x y : List Char} (hx : BeginsBar x) (hy : BeginsBar y) :
    BeginsBar (x ++ y) := by
  rcases hx with rfl | ⟨rest, rfl⟩
  · exact hy
  · exact .inr ⟨rest ++ y, rfl⟩

/-- The states begin with their separator. -/
theorem beginsBar_statesPart (b : Block) : BeginsBar b.statesPart := by
  unfold statesPart
  split
  · exact .inl rfl
  · exact .inr ⟨_, rfl⟩

/-- The entity data begins with its separator. -/
theorem beginsBar_entityPart (b : Block) : BeginsBar b.entityPart := by
  unfold entityPart
  split
  · exact .inr ⟨_, rfl⟩
  · exact .inl rfl

/-- The mark of a copy begins with its separator. -/
theorem beginsBar_copiedPart (b : Block) : BeginsBar b.copiedPart := by
  unfold copiedPart
  split
  · exact .inr ⟨_, rfl⟩
  · exact .inl rfl

/-- A text without separators ends where what comes after it begins. -/
theorem bar_cancel {s t x y : List Char} (hs : '|' ∉ s) (ht : '|' ∉ t) (hx : BeginsBar x)
    (hy : BeginsBar y) (h : s ++ x = t ++ y) : s = t ∧ x = y := by
  have hends : ∀ {u z : List Char}, '|' ∉ u → BeginsBar z →
      (u ++ z).takeWhile (fun ch => ch != '|') = u := by
    intro u z hu hz
    have hall : ∀ ch ∈ u, (ch != '|') = true := fun ch hch =>
      bne_iff_ne.2 (ne_of_mem_of_not_mem hch hu)
    rw [List.takeWhile_append_of_pos hall]
    rcases hz with rfl | ⟨rest, rfl⟩
    · exact List.append_nil u
    · rw [List.takeWhile_cons_of_neg (by decide), List.append_nil]
  have heq : s = t := by rw [← hends hs hx, h, hends ht hy]
  subst heq
  exact ⟨rfl, List.append_cancel_left h⟩

/-! ## States -/

section

variable {a b : Block}

/-- In a plain block no separator is in a state's name or value. -/
theorem IsPlain.stateText (hb : b.IsPlain) {e : String × String} (he : e ∈ b.stateTexts.entries) :
    ('|' ∉ e.1.toList ∧ ',' ∉ e.1.toList ∧ '=' ∉ e.1.toList ∧ e.1.toList.head? ≠ some '\x7b') ∧
      '|' ∉ e.2.toList ∧ ',' ∉ e.2.toList := by
  obtain ⟨e', he', rfl⟩ := List.mem_map.1 he
  exact ⟨hb.stateName (List.mem_map_of_mem (f := (·.1)) he'),
    hb.value (List.mem_map_of_mem (f := (·.2)) he')⟩

/-- A block with states has a first one. -/
theorem exists_stateTexts (h : b.states.isEmpty = false) :
    ∃ e rest, b.stateTexts.entries = e :: rest := by
  refine List.exists_cons_of_ne_nil fun hnil => ?_
  rw [Table.isEmpty, List.map_eq_nil_iff.1 hnil] at h
  cases h

/-- The text of the states of a plain block has no bar, but a sign of equality, and does not begin
like an object. -/
theorem IsPlain.statesText (hb : b.IsPlain) (h : b.states.isEmpty = false) :
    '|' ∉ b.statesText.toList ∧ '=' ∈ b.statesText.toList ∧
      b.statesText.toList.head? ≠ some '\x7b' := by
  obtain ⟨e, rest, hentries⟩ := exists_stateTexts h
  have he : e ∈ b.stateTexts.entries := hentries ▸ List.mem_cons_self
  refine ⟨fun hbar => ?_, ?_⟩
  · rw [toList_statesText] at hbar
    rcases mem_intercalate hbar with hcomma | ⟨l, hl, hbar⟩
    · cases hcomma
    · obtain ⟨e', he', rfl⟩ := List.mem_map.1 hl
      obtain ⟨⟨hname, -⟩, hvalue, -⟩ := hb.stateText he'
      rcases List.mem_append.1 hbar with hbar | hbar
      · exact hname hbar
      · exact hvalue ((List.mem_cons.1 hbar).resolve_left (by decide))
  · rw [toList_statesText, hentries, List.map_cons, intercalate_cons]
    refine ⟨List.mem_append_left _ (List.mem_append_right _ List.mem_cons_self), ?_⟩
    have hhead := (hb.stateText he).1.2.2.2
    unfold stateChars
    cases hchars : e.1.toList with
    | nil => exact fun heq => absurd (Option.some.inj heq) (by decide)
    | cons ch chs =>
      rw [hchars] at hhead
      exact hhead

/-- The states are known by their text. -/
theorem IsPlain.stateTexts_eq (ha : a.IsPlain) (hb : b.IsPlain) (hne : a.states.isEmpty = false)
    (hne' : b.states.isEmpty = false) (h : a.statesText = b.statesText) :
    a.stateTexts = b.stateTexts := by
  have hsplit : ∀ {c : Block}, c.IsPlain → c.states.isEmpty = false →
      c.statesText.toList.splitOn ',' = c.stateTexts.entries.map stateChars := by
    intro c hc hne
    obtain ⟨e, rest, hentries⟩ := exists_stateTexts hne
    rw [toList_statesText]
    refine List.splitOn_intercalate ',' (fun l hl hcomma => ?_) ?_
    · obtain ⟨e', he', rfl⟩ := List.mem_map.1 hl
      obtain ⟨⟨-, hname, -⟩, -, hvalue⟩ := hc.stateText he'
      rcases List.mem_append.1 hcomma with hcomma | hcomma
      · exact hname hcomma
      · exact hvalue ((List.mem_cons.1 hcomma).resolve_left (by decide))
    · rw [hentries]
      exact List.cons_ne_nil _ _
  have hmap := hsplit hb hne'
  rw [← h, hsplit ha hne] at hmap
  have hentries : a.stateTexts.entries = b.stateTexts.entries := by
    refine eq_of_map_eq (fun e he e' he' heq => ?_) hmap
    obtain ⟨hname, hvalue⟩ := append_cons_cancel (ha.stateText he).1.2.2.1
      (hb.stateText he').1.2.2.1 heq
    exact Prod.ext (String.toList_inj.1 hname) (String.toList_inj.1 hvalue)
  exact Table.ext_get? fun k => congrArg (Table.lookup k) hentries

/-! ## Parts -/

/-- The text of an object begins with a brace. -/
theorem exists_compact_obj (members : List (String × Json)) :
    ∃ rest, (Json.obj members).compact.toList = '\x7b' :: rest := by
  rw [Json.compact_obj]
  exact ⟨_, toList_recordText _⟩

/-- What comes after the states is not taken for states. -/
theorem IsPlain.statesPart_ne (ha : a.IsPlain) (hne : a.states.isEmpty = false) (x : List Char) :
    '|' :: (a.statesText.toList ++ x) ≠ b.entityPart ++ b.copiedPart := by
  obtain ⟨-, hequal, hhead⟩ := ha.statesText hne
  intro h
  unfold entityPart copiedPart at h
  cases hentity : b.entity with
  | some members =>
    rw [hentity] at h
    obtain ⟨rest, hrest⟩ := exists_compact_obj members
    dsimp only at h
    rw [hrest] at h
    cases hchars : a.statesText.toList with
    | nil =>
      rw [hchars] at hequal
      cases hequal
    | cons ch chs =>
      rw [hchars] at h hhead
      exact hhead (congrArg some (List.cons.inj (List.cons.inj h).2).1)
  | none =>
    rw [hentity] at h
    dsimp only at h
    split at h
    · have hcopied : "|copied".toList = '|' :: "copied".toList := by decide
      rw [List.nil_append, hcopied] at h
      have hmem : '=' ∈ "copied".toList :=
        (List.cons.inj h).2 ▸ List.mem_append_left _ hequal
      exact absurd hmem (by decide)
    · cases h

/-- In plain blocks the end of a key determines the entity data and the mark of a copy. -/
theorem entityPart_cancel (ha : a.IsPlain) (hb : b.IsPlain)
    (h : a.entityPart ++ a.copiedPart = b.entityPart ++ b.copiedPart) :
    a.entity = b.entity ∧ a.copied = b.copied := by
  have hcopied : "|copied".toList = '|' :: 'c' :: "opied".toList := by decide
  have hmark : ∀ {c d : Block}, c.copiedPart = d.copiedPart → c.copied = d.copied := by
    intro c d heq
    unfold copiedPart at heq
    cases hc : c.copied <;> cases hd : d.copied <;> rw [hc, hd] at heq <;> cases heq
  -- The mark of a copy is no object.
  have hobj : ∀ {members : List (String × Json)} {x : List Char} {c : Block},
      '|' :: ((Json.obj members).compact.toList ++ x) ≠ c.copiedPart := by
    intro members x c heq
    obtain ⟨rest, hrest⟩ := exists_compact_obj members
    rw [copiedPart, hrest] at heq
    split at heq
    · rw [hcopied] at heq
      exact absurd (List.cons.inj (List.cons.inj heq).2).1 (by decide)
    · cases heq
  cases hea : a.entity with
  | none =>
    cases heb : b.entity with
    | none =>
      rw [entityPart, entityPart, hea, heb] at h
      exact ⟨rfl, hmark h⟩
    | some members =>
      rw [entityPart, entityPart, hea, heb] at h
      exact absurd h.symm hobj
  | some members =>
    cases heb : b.entity with
    | none =>
      rw [entityPart, entityPart, hea, heb] at h
      exact absurd h hobj
    | some members' =>
      rw [entityPart, entityPart, hea, heb] at h
      obtain ⟨rfl, hxy⟩ := Json.obj_cancel (ha.entity hea) (hb.entity heb) (List.cons.inj h).2
      exact ⟨rfl, hmark hxy⟩

/-- In plain blocks what follows the name determines the states and the rest: the states begin
unlike entity data and unlike the mark of a copy. -/
theorem statesPart_cancel (ha : a.IsPlain) (hb : b.IsPlain)
    (h : a.statesPart ++ (a.entityPart ++ a.copiedPart) =
      b.statesPart ++ (b.entityPart ++ b.copiedPart)) :
    a.stateTexts = b.stateTexts ∧
      a.entityPart ++ a.copiedPart = b.entityPart ++ b.copiedPart := by
  have hbegins : ∀ c : Block, BeginsBar (c.entityPart ++ c.copiedPart) := fun c =>
    (beginsBar_entityPart c).append (beginsBar_copiedPart c)
  unfold statesPart at h
  cases hea : a.states.isEmpty <;> cases heb : b.states.isEmpty <;> rw [hea, heb] at h
  case false.false =>
    obtain ⟨htext, hrest⟩ := bar_cancel (ha.statesText hea).1 (hb.statesText heb).1 (hbegins a)
      (hbegins b) (List.cons.inj h).2
    exact ⟨ha.stateTexts_eq hb hea heb (String.toList_inj.1 htext), hrest⟩
  case false.true => exact absurd h (ha.statesPart_ne hea _)
  case true.false => exact absurd h.symm (hb.statesPart_ne heb _)
  case true.true =>
    have hempty : ∀ {c : Block}, c.states.isEmpty = true → c.stateTexts.entries = [] :=
      fun hc => List.map_eq_nil_iff.2 (List.isEmpty_iff.1 hc)
    refine ⟨Table.ext_get? fun k => congrArg (Table.lookup k) ?_, h⟩
    exact (hempty hea).trans (hempty heb).symm

end

/-! ## Keys -/

variable {a b : Block}

/-- Blocks that are written alike have the same key. -/
theorem cacheKey_eq_of_isWrittenAs (h : a.IsWrittenAs b) : a.cacheKey = b.cacheKey := by
  have htexts := congrArg Table.entries h.states
  have hstates : a.statesPart = b.statesPart := by
    have hempty : a.states.isEmpty = b.states.isEmpty := by
      have hnil := congrArg List.isEmpty htexts
      rwa [stateTexts, stateTexts, Table.mapValues, Table.mapValues, List.isEmpty_map,
        List.isEmpty_map] at hnil
    have htext : a.statesText = b.statesText := by
      rw [← String.toList_inj, toList_statesText, toList_statesText, htexts]
    rw [statesPart, statesPart, hempty, htext]
  rw [← String.toList_inj, toList_cacheKey, toList_cacheKey, h.name, hstates, entityPart,
    entityPart, copiedPart, copiedPart, h.entity, h.copied]

/-- Plain blocks with the same key are written alike. -/
theorem IsPlain.isWrittenAs (ha : a.IsPlain) (hb : b.IsPlain) (h : a.cacheKey = b.cacheKey) :
    a.IsWrittenAs b := by
  have hbegins : ∀ c : Block, BeginsBar (c.statesPart ++ (c.entityPart ++ c.copiedPart)) :=
    fun c => (beginsBar_statesPart c).append
      ((beginsBar_entityPart c).append (beginsBar_copiedPart c))
  rw [← String.toList_inj, toList_cacheKey, toList_cacheKey] at h
  obtain ⟨hname, hrest⟩ := bar_cancel ha.name hb.name (hbegins a) (hbegins b) h
  obtain ⟨hstates, hrest⟩ := statesPart_cancel ha hb hrest
  obtain ⟨hentity, hcopied⟩ := entityPart_cancel ha hb hrest
  exact ⟨String.toList_inj.1 hname, hstates, hentity, hcopied⟩

/-- A block that has nothing but a name is known by any text. -/
theorem cacheKey_named (name : String) : cacheKey { name := ":" ++ name } = name := by
  have hchars : (":" ++ name).toList = ':' :: name.toList := by
    have hcolon : ":".toList = [':'] := by decide
    rw [String.toList_append, hcolon]
    rfl
  have hshort : stripNamespace (":" ++ name) = name := by
    unfold stripNamespace
    rw [hchars, List.dropWhile_cons_of_neg (by decide)]
    exact String.ofList_toList
  rw [← String.toList_inj, toList_cacheKey]
  change (stripNamespace (":" ++ name)).toList ++ [] = _
  rw [hshort, List.append_nil]

/-- Entity data is kept in canonical form. -/
theorem canonical?_of_entity? {j : Json} {members : List (String × Json)}
    (h : entity? j = some members) : j.canonical? = some (.obj members) := by
  unfold entity? at h
  split at h
  · split at h
    · next hcanonical =>
      cases h
      exact hcanonical
    · cases h
  · cases h

/-- The entity data of a block that was read is data. -/
theorem isData_of_ofJson? {j : Json} (hj : j.IsFinite) (h : Block.ofJson? j = some b)
    {members : List (String × Json)} (hentity : b.entity = some members) :
    (Json.obj members).IsData := by
  obtain ⟨f, hf, h⟩ := Option.bind_eq_some_iff.1 h
  iterate 2 obtain ⟨_, -, h⟩ := Option.bind_eq_some_iff.1 h
  obtain ⟨entity, hread, h⟩ := Option.bind_eq_some_iff.1 h
  cases h
  obtain rfl : entity = some members := hentity
  rw [Json.Fields.optional?, Json.Fields.withDefault?] at hread
  split at hread
  · next j' hlookup =>
    have hfinite := hj.fields? hf _ (Table.mem_of_lookup_eq_some hlookup)
    unfold Json.orNull? at hread
    split at hread
    · cases hread
    · obtain ⟨_, hmembers, hsome⟩ := Option.map_eq_some_iff.1 hread
      cases hsome
      exact hfinite.isData (canonical?_of_entity? hmembers)
  · cases hread

/-- Blocks that agree in their short names, in the texts of their states, in entity data and in the
mark of a copy have one key. Plain blocks agree in these if they have one key, and are the same if
their states keep their kinds. In general they do not have to be: any key is also the key of a block
that has nothing but a name. -/
theorem cacheKey_eq_iff (a b : Block) :
    (a.IsWrittenAs b → a.cacheKey = b.cacheKey) ∧
    (a.IsPlain → b.IsPlain → (a.cacheKey = b.cacheKey ↔ a.IsWrittenAs b)) ∧
    (a.IsPlain → b.IsPlain → a.KeepsKinds → b.KeepsKinds →
      (a.cacheKey = b.cacheKey ↔ a.IsSame b)) ∧
    cacheKey { name := ":" ++ a.cacheKey } = a.cacheKey := by
  have hwritten : a.IsPlain → b.IsPlain → (a.cacheKey = b.cacheKey ↔ a.IsWrittenAs b) :=
    fun ha hb => ⟨ha.isWrittenAs hb, cacheKey_eq_of_isWrittenAs⟩
  refine ⟨cacheKey_eq_of_isWrittenAs, hwritten, fun ha hb hka hkb => ?_, cacheKey_named _⟩
  exact (hwritten ha hb).trans ⟨fun h => h.isSame hka hkb, IsSame.isWrittenAs⟩

/-- Two beds that differ in one state have different keys; a bed whose state is written the same as
a string has the key of the first. -/
theorem cacheKey_eq_iff_of_bed :
    let entity := some [("Items", Json.arr [.int 1, .str "a|b"])]
    let bed : StateValue → Block := fun head =>
      { name := "minecraft:bed", states := .ofList [("color", .str "red"), ("head", head)], entity }
    (bed (.bool true)).cacheKey ≠ (bed (.bool false)).cacheKey ∧
      (bed (.bool true)).cacheKey = (bed (.str "true")).cacheKey ∧
      ¬(bed (.bool true)).IsSame (bed (.str "true")) := by
  intro entity bed
  have hentity : (Json.obj [("Items", Json.arr [.int 1, .str "a|b"])]).IsData := by
    refine .obj fun m hm => ?_
    rw [List.mem_singleton.1 hm]
    refine .arr fun j hj => ?_
    fin_cases hj
    · exact .int 1
    · exact .str "a|b"
  have hvalues : ∀ b, (bed (.bool b)).states.values = [.str "red", .bool b] := by decide
  have hplain : ∀ b : Bool, (bed (.bool b)).IsPlain := fun b => {
    name := by cases b <;> decide
    stateName := fun {k} hk => by
      have hkeys : (bed (.bool b)).states.keys = ["color", "head"] := by cases b <;> decide
      rw [hkeys] at hk
      fin_cases hk <;> decide
    value := fun {v} hv => by
      rw [hvalues b] at hv
      fin_cases hv
      · decide
      · cases b <;> decide
    entity := fun h => by
      cases h
      exact hentity }
  have hkinds : ∀ b : Bool, (bed (.bool b)).KeepsKinds := by
    intro b v hv s hs
    rw [hvalues b] at hv
    subst hs
    obtain rfl : s = "red" := by
      rcases List.mem_cons.1 hv with h | h
      · exact StateValue.str.inj h
      · cases List.mem_singleton.1 h
    refine ⟨by decide, fun i h => ?_⟩
    have hr : 'r' ∈ (StateValue.int i).text.toList := h ▸ (by decide : 'r' ∈ "red".toList)
    exact absurd (mem_toString_int hr) (by decide)
  refine ⟨fun h => ?_, ?_, fun h => ?_⟩
  · have hsame := (cacheKey_eq_iff (bed (.bool true)) (bed (.bool false))).2.2.1 (hplain true)
      (hplain false) (hkinds true) (hkinds false) |>.1 h
    exact absurd (congrArg (fun t => Table.get? t "head") hsame.states) (by decide)
  · exact (cacheKey_eq_iff (bed (.bool true)) (bed (.str "true"))).1 ⟨rfl, rfl, rfl, rfl⟩
  · exact absurd (congrArg (fun t => Table.get? t "head") h.states) (by decide)

end Block

end BlockModels
