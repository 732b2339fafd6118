import BlockModels.Text.Cut
import Mathlib.Data.List.Chain
import Mathlib.Data.List.DropRight
import Mathlib.Data.List.Forall2

/-!
# Texts put together and cut again

Parts of texts stand with blanks around them and marks between them. Trimming takes the blanks away
(`trimChars_pad`), and cutting at a mark gives the parts back if the mark is in none of them. A mark
of two equal characters may have a single one in a part, as long as no second one follows, in the
part or behind it (`Unpaired`).
-/

namespace BlockModels.Text

/-! ## Blanks -/

/-- There is nothing but blanks. -/
def IsPad (cs : List Char) : Prop := ∀ c ∈ cs, isBlank c = true

instance (cs : List Char) : Decidable (IsPad cs) := List.decidableBAll _ cs

/-- There is no blank at either end. -/
structure IsTrimmed (cs : List Char) : Prop where
  head : ∀ c ∈ cs.head?, isBlank c = false
  last : ∀ c ∈ cs.getLast?, isBlank c = false

instance (cs : List Char) : Decidable (IsTrimmed cs) :=
  decidable_of_iff
    (cs.head?.all (!isBlank ·) = true ∧ cs.getLast?.all (!isBlank ·) = true) (by
      simp only [Option.all_eq_true, Bool.not_eq_true']
      exact ⟨fun h => ⟨h.1, h.2⟩, fun h => ⟨h.head, h.last⟩⟩)

/-- A text without blanks has none at its ends. -/
theorem isTrimmed_of_forall {cs : List Char} (h : ∀ c ∈ cs, isBlank c = false) : IsTrimmed cs where
  head c hc := h c (List.mem_of_head? hc)
  last c hc := h c (List.mem_of_getLast? hc)

/-- What begins with a trimmed text and ends with one is trimmed. -/
theorem IsTrimmed.append_append {a b : List Char} (ha : IsTrimmed a) (hne : a ≠ [])
    (hb : IsTrimmed b) (hne' : b ≠ []) (cs : List Char) : IsTrimmed (a ++ cs ++ b) where
  head c hc := by
    rw [List.append_assoc, List.head?_append_of_ne_nil _ hne] at hc
    exact ha.head c hc
  last c hc := by
    rw [List.getLast?_append_of_ne_nil _ hne'] at hc
    exact hb.last c hc

/-- Blanks in front of a text are dropped with those that it begins with. -/
theorem dropWhile_isBlank_pad {p : List Char} (hp : IsPad p) (cs : List Char) :
    (p ++ cs).dropWhile isBlank = cs.dropWhile isBlank :=
  List.dropWhile_append_of_pos hp

/-- Nothing is dropped from a text that begins with no blank. -/
theorem dropWhile_isBlank_of_head {cs : List Char} (h : ∀ c ∈ cs.head?, isBlank c = false) :
    cs.dropWhile isBlank = cs := by
  cases cs with
  | nil => rfl
  | cons c rest => exact List.dropWhile_cons_of_neg (by simp [h c rfl])

/-- A text that is trimmed stays as it is. -/
theorem trimChars_of_isTrimmed {cs : List Char} (h : IsTrimmed cs) : trimChars cs = cs := by
  have hlast : ∀ c ∈ cs.reverse.head?, isBlank c = false := by
    rw [List.head?_reverse]
    exact h.last
  rw [trimChars, dropWhile_isBlank_of_head h.head, dropWhile_isBlank_of_head hlast,
    List.reverse_reverse]

/-- Blanks in front are taken away, and those behind. -/
theorem trimChars_pad {p q : List Char} (hp : IsPad p) (hq : IsPad q) (cs : List Char) :
    trimChars (p ++ cs ++ q) = trimChars cs := by
  have hreverse : IsPad q.reverse := fun c hc => hq c (List.mem_reverse.1 hc)
  have hdrop : q.dropWhile isBlank = [] := List.dropWhile_eq_nil_iff.2 hq
  rw [trimChars, trimChars, List.append_assoc, dropWhile_isBlank_pad hp, List.dropWhile_append]
  split
  next h =>
    rw [List.isEmpty_iff] at h
    rw [h, hdrop]
  next h => rw [List.reverse_append, dropWhile_isBlank_pad hreverse]

/-- A trimmed text comes out of the blanks around it. -/
theorem trimChars_pad_of_isTrimmed {p cs q : List Char} (hp : IsPad p) (h : IsTrimmed cs)
    (hq : IsPad q) : trimChars (p ++ cs ++ q) = cs := by
  rw [trimChars_pad hp hq, trimChars_of_isTrimmed h]

/-- A trimmed text comes out of the blanks before it. -/
theorem trimChars_pad_left {p cs : List Char} (hp : IsPad p) (h : IsTrimmed cs) :
    trimChars (p ++ cs) = cs := by
  rw [← List.append_nil (p ++ cs)]
  exact trimChars_pad_of_isTrimmed hp h nofun

/-- A trimmed text comes out of the blanks behind it. -/
theorem trimChars_pad_right {cs q : List Char} (h : IsTrimmed cs) (hq : IsPad q) :
    trimChars (cs ++ q) = cs :=
  trimChars_pad_of_isTrimmed (p := []) nofun h hq

/-- Behind a trimmed text only blanks at the end are taken away. -/
theorem exists_trimChars_append {a : List Char} (ha : IsTrimmed a) (hne : a ≠ [])
    (cs : List Char) :
    ∃ rest, trimChars (a ++ cs) = a ++ rest ∧ trimChars rest = trimChars cs ∧ rest <+: cs := by
  have hcs : cs = (cs.reverse.dropWhile isBlank).reverse ++
      (cs.reverse.takeWhile isBlank).reverse := by
    rw [← List.reverse_append, List.takeWhile_append_dropWhile, List.reverse_reverse]
  have hpad : IsPad (cs.reverse.takeWhile isBlank).reverse := fun c hc =>
    List.mem_takeWhile_imp (List.mem_reverse.1 hc)
  refine ⟨(cs.reverse.dropWhile isBlank).reverse, ?_, ?_, ⟨_, hcs.symm⟩⟩
  · have hhead : ∀ c ∈ (a ++ cs).head?, isBlank c = false := by
      rw [List.head?_append_of_ne_nil _ hne]
      exact ha.head
    have hlast : ∀ c ∈ a.reverse.head?, isBlank c = false := by
      rw [List.head?_reverse]
      exact ha.last
    rw [trimChars, dropWhile_isBlank_of_head hhead, List.reverse_append, List.dropWhile_append,
      dropWhile_isBlank_of_head hlast]
    split
    next h =>
      rw [List.isEmpty_iff] at h
      rw [h, List.reverse_reverse, List.reverse_nil, List.append_nil]
    next h => rw [List.reverse_append, List.reverse_reverse]
  · have htrim := trimChars_pad (p := []) nofun hpad (cs.reverse.dropWhile isBlank).reverse
    rw [List.nil_append, ← hcs] at htrim
    exact htrim.symm

/-- What is left is a part of the text. -/
theorem trimChars_isInfix (cs : List Char) : trimChars cs <:+: cs := by
  have hsuffix : cs.dropWhile isBlank <:+ cs := List.dropWhile_suffix _
  have hprefix : trimChars cs <+: cs.dropWhile isBlank := by
    rw [trimChars, ← List.reverse_suffix, List.reverse_reverse]
    exact List.dropWhile_suffix _
  exact hprefix.isInfix.trans hsuffix.isInfix

/-- A text that is not blank has something left. -/
theorem trimChars_ne_nil {cs : List Char} {c : Char} (hc : c ∈ cs) (h : isBlank c = false) :
    trimChars cs ≠ [] := by
  intro hnil
  rw [trimChars, List.reverse_eq_nil_iff, List.dropWhile_eq_nil_iff] at hnil
  have hblank : (cs.dropWhile isBlank).dropWhile isBlank = [] :=
    List.dropWhile_eq_nil_iff.2 fun d hd => hnil d (List.mem_reverse.2 hd)
  rw [List.dropWhile_idempotent isBlank cs, List.dropWhile_eq_nil_iff] at hblank
  rw [hblank c hc] at h
  cases h

/-! ## Beginnings and ends -/

/-- What stands behind an opening is found behind it. -/
theorem behind?_append (opening rest : List Char) :
    behind? opening (opening ++ rest) = some rest := by
  induction opening with
  | nil => rfl
  | cons o opening ih => rw [List.cons_append, behind?, if_pos rfl, ih]

/-- A text does not begin so if it does not by itself, and what follows has none of the characters.
-/
theorem behind?_append_eq_none {opening a b : List Char} (ha : ¬opening <+: a)
    (hb : ∀ c ∈ b.head?, c ∉ opening) : behind? opening (a ++ b) = none := by
  induction opening generalizing a with
  | nil => exact absurd List.nil_prefix ha
  | cons o opening ih =>
    cases a with
    | nil =>
      cases b with
      | nil => rfl
      | cons c b =>
        have hne : o ≠ c := fun heq => hb c rfl (heq ▸ List.mem_cons_self)
        rw [List.nil_append, behind?, if_neg hne]
    | cons c a =>
      rw [List.cons_append, behind?]
      split
      next heq =>
        refine ih (fun hbegin => ha ?_) fun c hc hmem => hb c hc (List.mem_cons_of_mem _ hmem)
        rw [heq]
        exact (List.cons_prefix_cons.2 ⟨rfl, hbegin⟩)
      · rfl

/-- Nothing is found behind an opening with which the text does not begin. -/
theorem behind?_eq_none_iff {opening cs : List Char} :
    behind? opening cs = none ↔ ¬opening <+: cs := by
  constructor
  · rintro h ⟨rest, rfl⟩
    rw [behind?_append] at h
    cases h
  · intro h
    rw [← List.append_nil cs]
    exact behind?_append_eq_none h (by simp)

/-- What stands before a last character is found before it. -/
theorem beforeLast?_append (last : Char) (cs : List Char) :
    beforeLast? last (cs ++ [last]) = some cs := by
  simp [beforeLast?]

/-- What is found before a last character is the text without it. -/
theorem beforeLast?_eq_some {last : Char} {cs before : List Char}
    (h : beforeLast? last cs = some before) : cs = before ++ [last] := by
  unfold beforeLast? at h
  split at h
  next hlast =>
    cases h
    exact (List.dropLast_append_getLast? last hlast).symm
  · cases h

/-! ## Single marks -/

section

variable {mark : Char}

/-- A text is cut at the mark if there is none before it. -/
theorem cutAt_append {a : List Char} (h : mark ∉ a) (b : List Char) :
    cutAt mark (a ++ mark :: b) = some (a, b) := by
  induction a with
  | nil => exact if_pos rfl
  | cons c a ih =>
    rw [List.mem_cons, not_or] at h
    rw [List.cons_append, cutAt, if_neg (Ne.symm h.1), ih h.2]
    rfl

/-- A text without the mark is not cut. -/
theorem cutAt_eq_none {cs : List Char} (h : mark ∉ cs) : cutAt mark cs = none := by
  induction cs with
  | nil => rfl
  | cons c cs ih =>
    rw [List.mem_cons, not_or] at h
    rw [cutAt, if_neg (Ne.symm h.1), ih h.2]
    rfl

/-- A text that is not cut has no mark. -/
theorem notMem_of_cutAt_eq_none {cs : List Char} (h : cutAt mark cs = none) : mark ∉ cs := by
  intro hmem
  obtain ⟨a, b, rfl, ha⟩ := List.eq_append_cons_of_mem hmem
  rw [cutAt_append ha] at h
  cases h

/-- A text is cut at its first mark. -/
theorem cutAt_eq_some_iff {cs a b : List Char} :
    cutAt mark cs = some (a, b) ↔ cs = a ++ mark :: b ∧ mark ∉ a :=
  ⟨cutAt_eq_some, fun ⟨heq, ha⟩ => heq ▸ cutAt_append ha b⟩

/-- A text is not cut exactly if the mark is not in it. -/
theorem cutAt_eq_none_iff {cs : List Char} : cutAt mark cs = none ↔ mark ∉ cs :=
  ⟨notMem_of_cutAt_eq_none, cutAt_eq_none⟩

/-- A text without the mark is one part. -/
theorem splitAt_of_notMem {cs : List Char} (h : mark ∉ cs) : splitAt mark cs = [cs] := by
  induction cs with
  | nil => rfl
  | cons c rest ih =>
    obtain ⟨hne, hrest⟩ := not_or.1 (List.mem_cons.not.1 h)
    rw [splitAt, if_neg (Ne.symm hne), ih hrest]

/-- A mark ends the first part. -/
theorem splitAt_append_cons {a : List Char} (h : mark ∉ a) (b : List Char) :
    splitAt mark (a ++ mark :: b) = a :: splitAt mark b := by
  induction a with
  | nil => rw [List.nil_append, splitAt, if_pos rfl]
  | cons c rest ih =>
    obtain ⟨hne, hrest⟩ := not_or.1 (List.mem_cons.not.1 h)
    rw [List.cons_append, splitAt, if_neg (Ne.symm hne), ih hrest]

/-- Parts without the mark are found between its places. -/
theorem splitAt_intercalate {parts : List (List Char)} (hne : parts ≠ [])
    (h : ∀ part ∈ parts, mark ∉ part) : splitAt mark ([mark].intercalate parts) = parts := by
  induction parts with
  | nil => exact absurd rfl hne
  | cons a rest ih =>
    obtain ⟨ha, hrest⟩ := List.forall_mem_cons.1 h
    cases rest with
    | nil => rw [List.intercalate_singleton, splitAt_of_notMem ha]
    | cons b rest =>
      rw [List.intercalate_cons_cons, List.append_assoc, List.singleton_append,
        splitAt_append_cons ha, ih (List.cons_ne_nil _ _) hrest]

/-- What is taken ends before the mark if it does not go through it. -/
theorem takeWhile_append_mark {p : Char → Bool} (h : p mark = false) (cs behind : List Char) :
    (cs ++ mark :: behind).takeWhile p = cs.takeWhile p := by
  induction cs with
  | nil => exact List.takeWhile_cons_of_neg (by simp [h])
  | cons c rest ih => rw [List.cons_append, List.takeWhile_cons, List.takeWhile_cons, ih]

/-- What is dropped ends before the mark if it does not go through it. -/
theorem dropWhile_append_mark {p : Char → Bool} (h : p mark = false) (cs behind : List Char) :
    (cs ++ mark :: behind).dropWhile p = cs.dropWhile p ++ mark :: behind := by
  induction cs with
  | nil => exact List.dropWhile_cons_of_neg (by simp [h])
  | cons c rest ih =>
    rw [List.cons_append, List.dropWhile_cons, List.dropWhile_cons, ih]
    split <;> rfl

/-- What is cut at a mark may be trimmed before, if the parts are trimmed afterwards. -/
theorem exists_cutAt_trimChars {a : List Char} (ha : mark ∉ a) (hmark : isBlank mark = false)
    (b : List Char) : ∃ a' b', cutAt mark (trimChars (a ++ mark :: b)) = some (a', b') ∧
      trimChars a' = trimChars a ∧ trimChars b' = trimChars b := by
  have htrim : trimChars (a ++ mark :: b) =
      a.dropWhile isBlank ++ mark :: (b.reverse.dropWhile isBlank).reverse := by
    rw [trimChars, dropWhile_append_mark hmark, List.reverse_append, List.reverse_cons,
      List.append_assoc, List.singleton_append, dropWhile_append_mark hmark]
    simp
  have hfront := trimChars_pad (p := a.takeWhile isBlank) (q := [])
    (fun c hc => List.mem_takeWhile_imp hc) nofun (a.dropWhile isBlank)
  have hback := trimChars_pad (p := []) (q := (b.reverse.takeWhile isBlank).reverse) nofun
    (fun c hc => List.mem_takeWhile_imp (List.mem_reverse.1 hc))
    (b.reverse.dropWhile isBlank).reverse
  rw [List.append_nil, List.takeWhile_append_dropWhile] at hfront
  rw [List.nil_append, ← List.reverse_append, List.takeWhile_append_dropWhile,
    List.reverse_reverse] at hback
  refine ⟨_, _, ?_, hfront.symm, hback.symm⟩
  rw [htrim]
  exact cutAt_append (fun hmem => ha ((List.dropWhile_sublist _).mem hmem)) _

/-! ## Pairs of marks -/

/-- Nowhere does the mark stand twice, nor at the end, where a second one could follow. -/
def Unpaired (mark : Char) (cs : List Char) : Prop :=
  (cs ++ [mark]).IsChain fun c d => ¬(c = mark ∧ d = mark)

/-- Without marks there are no two together. -/
theorem unpaired_of_notMem {cs : List Char} (h : mark ∉ cs) : Unpaired mark cs := by
  induction cs with
  | nil => exact .singleton _
  | cons c cs ih =>
    rw [List.mem_cons, not_or] at h
    refine List.isChain_cons.2 ⟨fun d _ hpair => h.1 hpair.1.symm, ih h.2⟩

/-- There are no two marks together if there are none at the beginning and none further on. -/
theorem unpaired_cons_iff {c d : Char} {cs : List Char} :
    Unpaired mark (c :: d :: cs) ↔ ¬(c = mark ∧ d = mark) ∧ Unpaired mark (d :: cs) :=
  List.isChain_cons_cons

/-- A single mark between texts without it. -/
theorem unpaired_append_cons {a b : List Char} (ha : mark ∉ a) (hb : mark ∉ b) (hne : b ≠ []) :
    Unpaired mark (a ++ mark :: b) := by
  obtain ⟨d, rest, rfl⟩ := List.exists_cons_of_ne_nil hne
  have hd : d ≠ mark := fun heq => hb (heq ▸ List.mem_cons_self)
  induction a with
  | nil => exact unpaired_cons_iff.2 ⟨fun hpair => hd hpair.2, unpaired_of_notMem hb⟩
  | cons c a ih =>
    rw [List.mem_cons, not_or] at ha
    obtain ⟨e, rest', hrest⟩ : ∃ e rest', a ++ mark :: d :: rest = e :: rest' :=
      List.exists_cons_of_ne_nil (by simp)
    have hunpaired := ih ha.2
    rw [List.cons_append]
    rw [hrest] at hunpaired ⊢
    exact unpaired_cons_iff.2 ⟨fun hpair => ha.1 hpair.1.symm, hunpaired⟩

/-- A text is cut at the first two marks together. -/
theorem cutAtPair_of_unpaired {a : List Char} (h : Unpaired mark a) (b : List Char) :
    cutAtPair mark (a ++ mark :: mark :: b) = some (a, b) := by
  induction a with
  | nil => exact if_pos ⟨rfl, rfl⟩
  | cons c a ih =>
    cases a with
    | nil =>
      have hc : ¬(c = mark ∧ mark = mark) := (List.isChain_cons_cons.1 h).1
      rw [List.cons_append, List.nil_append, cutAtPair, if_neg hc, cutAtPair, if_pos ⟨rfl, rfl⟩]
      rfl
    | cons d rest =>
      obtain ⟨hpair, hrest⟩ := unpaired_cons_iff.1 h
      rw [List.cons_append, List.cons_append, cutAtPair, if_neg hpair, ← List.cons_append, ih hrest]
      rfl

/-- A text is cut at two marks if there is none before them. -/
theorem cutAtPair_append {a : List Char} (h : mark ∉ a) (b : List Char) :
    cutAtPair mark (a ++ mark :: mark :: b) = some (a, b) :=
  cutAtPair_of_unpaired (unpaired_of_notMem h) b

/-- A text is cut where the mark stands twice for the first time. -/
theorem cutAtPair_eq_some_iff {cs a b : List Char} :
    cutAtPair mark cs = some (a, b) ↔ cs = a ++ mark :: mark :: b ∧ Unpaired mark a := by
  refine ⟨fun h => ?_, fun ⟨heq, ha⟩ => heq ▸ cutAtPair_of_unpaired ha b⟩
  fun_induction cutAtPair mark cs generalizing a with
  | case1 => cases h
  | case2 => cases h
  | case3 c d rest hpair =>
    cases h
    exact ⟨by rw [hpair.1, hpair.2]; rfl, .singleton _⟩
  | case4 c d rest hpair ih =>
    obtain ⟨⟨a', b'⟩, hcut, heq⟩ := Option.map_eq_some_iff.1 h
    obtain ⟨rfl, rfl⟩ := Prod.mk.inj heq
    obtain ⟨hcs, ha⟩ := ih hcut
    refine ⟨by rw [hcs]; rfl, ?_⟩
    cases a' with
    | nil =>
      obtain ⟨rfl, -⟩ := List.cons.inj hcs
      exact List.isChain_cons_cons.2 ⟨hpair, ha⟩
    | cons e a' =>
      obtain ⟨rfl, -⟩ := List.cons.inj hcs
      exact unpaired_cons_iff.2 ⟨hpair, ha⟩

/-- A text is not cut exactly if no two marks stand together in it. -/
theorem cutAtPair_eq_none_iff {cs : List Char} :
    cutAtPair mark cs = none ↔ ¬[mark, mark] <:+: cs := by
  fun_induction cutAtPair mark cs with
  | case1 => simp
  | case2 c =>
    refine iff_of_true rfl fun h => ?_
    have hlength := h.length_le
    simp at hlength
  | case3 c d rest hpair =>
    refine iff_of_false nofun fun h => h ⟨[], rest, ?_⟩
    rw [hpair.1, hpair.2]
    rfl
  | case4 c d rest hpair ih =>
    have hstart : ¬[mark, mark] <+: c :: d :: rest := fun h => by
      obtain ⟨hc, htail⟩ := List.cons_prefix_cons.1 h
      exact hpair ⟨hc.symm, (List.cons_prefix_cons.1 htail).1.symm⟩
    rw [Option.map_eq_none_iff, ih, @List.infix_cons_iff _ _ c, or_iff_right hstart]

/-- A text without the mark is not cut at two of them. -/
theorem cutAtPair_eq_none {cs : List Char} (h : mark ∉ cs) : cutAtPair mark cs = none :=
  cutAtPair_eq_none_iff.2 fun hpair => h (hpair.subset List.mem_cons_self)

/-- What a text is split into are parts of it, and the first one is its beginning. -/
theorem isInfix_of_splitAtPairs (mark : Char) (cs : List Char) :
    (∀ part ∈ (splitAtPairs mark cs).head?, part <+: cs) ∧
      ∀ part ∈ splitAtPairs mark cs, part <:+: cs := by
  fun_induction splitAtPairs mark cs with
  | case1 => simp
  | case2 c => simp
  | case3 c d rest hpair ih =>
    refine ⟨by simp, List.forall_mem_cons.2 ⟨List.nil_infix, fun part hpart => ?_⟩⟩
    exact List.infix_cons (List.infix_cons (ih.2 part hpart))
  | case4 c d rest hpair part parts hsplit ih =>
    rw [hsplit] at ih
    have hfirst : c :: part <+: c :: d :: rest := List.cons_prefix_cons.2 ⟨rfl, ih.1 part rfl⟩
    refine ⟨by simpa using hfirst, List.forall_mem_cons.2 ⟨hfirst.isInfix, fun q hq => ?_⟩⟩
    exact List.infix_cons (ih.2 q (List.mem_cons_of_mem _ hq))
  | case5 c d rest hpair hsplit ih =>
    have hfirst : [c] <+: c :: d :: rest := List.cons_prefix_cons.2 ⟨rfl, List.nil_prefix⟩
    exact ⟨by simp, by simpa using hfirst.isInfix⟩

/-- Two marks at the beginning end an empty part. -/
theorem splitAtPairs_mark (b : List Char) :
    splitAtPairs mark (mark :: mark :: b) = [] :: splitAtPairs mark b :=
  if_pos ⟨rfl, rfl⟩

/-- A text in which no two marks stand together is one part. -/
theorem splitAtPairs_of_unpaired {cs : List Char} (h : Unpaired mark cs) :
    splitAtPairs mark cs = [cs] := by
  induction cs with
  | nil => rfl
  | cons c cs ih =>
    cases cs with
    | nil => rfl
    | cons d rest =>
      obtain ⟨hpair, hrest⟩ := unpaired_cons_iff.1 h
      rw [splitAtPairs, if_neg hpair, ih hrest]

/-- A text without two marks is cut off at the next two. -/
theorem splitAtPairs_append {a : List Char} (h : Unpaired mark a) (b : List Char) :
    splitAtPairs mark (a ++ mark :: mark :: b) = a :: splitAtPairs mark b := by
  induction a with
  | nil => exact splitAtPairs_mark b
  | cons c a ih =>
    cases a with
    | nil =>
      have hc : ¬(c = mark ∧ mark = mark) := (List.isChain_cons_cons.1 h).1
      rw [List.cons_append, List.nil_append, splitAtPairs, if_neg hc, splitAtPairs_mark]
    | cons d rest =>
      obtain ⟨hpair, hrest⟩ := unpaired_cons_iff.1 h
      rw [List.cons_append, List.cons_append, splitAtPairs, if_neg hpair, ← List.cons_append,
        ih hrest]

/-! ## Lists written with pairs of marks between -/

variable {β : Type} {R : β → List Char → Prop}

/-- The items of a list, which is not empty, are written one behind the other with the mark standing
twice between them. -/
inductive Joined (mark : Char) (R : β → List Char → Prop) : List β → List Char → Prop
  | single {x : β} {cs : List Char} : R x cs → Joined mark R [x] cs
  | cons {x : β} {xs : List β} {cs rest : List Char} : R x cs → Joined mark R xs rest →
      Joined mark R (x :: xs) (cs ++ mark :: mark :: rest)

/-- Where no item has the mark twice they are found again. -/
theorem Joined.splitAtPairs {xs : List β} {cs : List Char} (h : Joined mark R xs cs)
    (hR : ∀ x cs, R x cs → Unpaired mark cs) : List.Forall₂ R xs (splitAtPairs mark cs) := by
  induction h with
  | single hx =>
    rw [splitAtPairs_of_unpaired (hR _ _ hx)]
    exact .cons hx .nil
  | cons hx _ ih =>
    rw [splitAtPairs_append (hR _ _ hx)]
    exact .cons hx ih

/-- A character that is in no item and is not the mark is not there at all. -/
theorem Joined.notMem {c : Char} (hc : c ≠ mark) {xs : List β} {cs : List Char}
    (h : Joined mark R xs cs) (hR : ∀ x cs, R x cs → c ∉ cs) : c ∉ cs := by
  induction h with
  | single hx => exact hR _ _ hx
  | cons hx _ ih => simp [hc, hR _ _ hx, ih]

/-- The first item is there. -/
theorem Joined.exists_mem {P : Char → Prop} {xs : List β} {cs : List Char}
    (h : Joined mark R xs cs) (hR : ∀ x cs, R x cs → ∃ c ∈ cs, P c) : ∃ c ∈ cs, P c := by
  cases h with
  | single hx => exact hR _ _ hx
  | cons hx _ =>
    obtain ⟨c, hc, hP⟩ := hR _ _ hx
    exact ⟨c, List.mem_append_left _ hc, hP⟩

end

end BlockModels.Text
