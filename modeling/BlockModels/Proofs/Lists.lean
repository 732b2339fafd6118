import Mathlib.Data.List.Forall2
import Mathlib.Data.List.Perm.Basic

/-!
# Lists and results

What holds of every list, every choice and every computation that may fail, whatever it is about:
lists that are put together of others, lists that are related item by item (`List.Forall₂`), and
loops that may fail at each item.
-/

namespace BlockModels

variable {β γ δ ε : Type}

/-! ## Choices -/

/-- Choices between related values go on alike if related values do. -/
theorem bind_eq_of_rel {R : β → γ → Prop} {o : Option β} {o' : Option γ} (h : Option.Rel R o o')
    {f : β → Option δ} {g : γ → Option δ} (hfg : ∀ b c, R b c → f b = g c) :
    o.bind f = o'.bind g := by
  cases h with
  | none => rfl
  | some hbc => exact hfg _ _ hbc

/-- Choices between values from which the same is made come to the same. -/
theorem map_eq_of_rel {f : β → δ} {g : γ → δ} {o : Option β} {o' : Option γ}
    (h : Option.Rel (fun b c => f b = g c) o o') : o.map f = o'.map g := by
  cases h with
  | none => rfl
  | some heq => exact congrArg some heq

/-- Two choices are the same if the relation between them leaves nothing else for the first. -/
theorem eq_of_rel {R : β → β → Prop} {o o' : Option β} (h : Option.Rel R o o')
    (heq : ∀ a b, o = some a → R a b → a = b) : o = o' := by
  cases h with
  | none => rfl
  | some hab => exact congrArg some (heq _ _ rfl hab)

/-! ## Results -/

/-- Two computations one after the other have a result if each of them has. -/
theorem bind_eq_ok_iff {x : Except ε β} {f : β → Except ε γ} {c : γ} :
    x >>= f = .ok c ↔ ∃ b, x = .ok b ∧ f b = .ok c := by
  cases x with
  | error e => exact ⟨nofun, nofun⟩
  | ok b => simp [bind, Except.bind]

/-- The value of a computation is there if the computation succeeds with it. -/
theorem toOption_eq_some_iff {x : Except ε β} {b : β} : x.toOption = some b ↔ x = .ok b := by
  cases x with
  | error => exact iff_of_false nofun nofun
  | ok => exact ⟨fun h => congrArg _ (Option.some.inj h), fun h => congrArg Except.toOption h⟩

/-- Up to the cause of a failure, one computation after the other is one choice after the other. -/
theorem toOption_bind (x : Except ε β) (f : β → Except ε γ) :
    (x >>= f).toOption = x.toOption.bind fun b => (f b).toOption := by
  cases x <;> rfl

/-! ## Items of a list -/

section

variable {l : List β}

/-- A value that is listed under a name is found under it if no name comes twice. -/
theorem lookup_eq_some_of_mem [BEq β] [LawfulBEq β] {l : List (β × γ)} {e : β × γ} (he : e ∈ l)
    (hnodup : (l.map (·.1)).Nodup) : l.lookup e.1 = some e.2 := by
  induction l with
  | nil => cases he
  | cons e' rest ih =>
    rw [List.map_cons, List.nodup_cons] at hnodup
    rcases List.mem_cons.1 he with rfl | he
    · rw [List.lookup_cons_self]
    · have hne : e.1 ≠ e'.1 := fun h => hnodup.1 (h ▸ List.mem_map_of_mem he)
      rw [List.lookup_cons, beq_eq_false_iff_ne.2 hne]
      exact ih he hnodup.2

/-- If a list has no more than one item of a kind, two of them are the same. -/
theorem eq_of_countP_le_one {p : β → Bool} {a b : β} (h : l.countP p ≤ 1) (ha : a ∈ l)
    (hb : b ∈ l) (hpa : p a = true) (hpb : p b = true) : a = b := by
  rw [List.countP_eq_length_filter] at h
  have ha' : a ∈ l.filter p := List.mem_filter.2 ⟨ha, hpa⟩
  have hb' : b ∈ l.filter p := List.mem_filter.2 ⟨hb, hpb⟩
  cases hfilter : l.filter p with
  | nil => rw [hfilter] at ha'; cases ha'
  | cons c rest =>
    rw [hfilter] at ha' hb' h
    have hrest : rest = [] := List.eq_nil_of_length_eq_zero (by simpa using h)
    subst hrest
    exact (List.mem_singleton.1 ha').trans (List.mem_singleton.1 hb').symm

/-- Lists are told apart by what is made of their items if the items are. -/
theorem eq_of_map_eq {f : β → γ} {as bs : List β} (h : ∀ a ∈ as, ∀ b ∈ bs, f a = f b → a = b)
    (heq : as.map f = bs.map f) : as = bs := by
  induction as generalizing bs with
  | nil => exact (List.map_eq_nil_iff.1 heq.symm).symm
  | cons a as ih =>
    cases bs with
    | nil => cases heq
    | cons b bs =>
      obtain ⟨hhead, htail⟩ := List.cons.inj heq
      rw [h a List.mem_cons_self b List.mem_cons_self hhead, ih (fun a ha b hb =>
        h a (List.mem_cons_of_mem _ ha) b (List.mem_cons_of_mem _ hb)) htail]

/-- A list of which four things are made item by item has four items. -/
theorem exists_of_map_eq_four {f : β → γ} {l : List β} {a b c d : γ} (h : l.map f = [a, b, c, d]) :
    ∃ w x y z, l = [w, x, y, z] ∧ f w = a ∧ f x = b ∧ f y = c ∧ f z = d := by
  obtain ⟨w, _, rfl, ha, h⟩ := List.map_eq_cons_iff.1 h
  obtain ⟨x, _, rfl, hb, h⟩ := List.map_eq_cons_iff.1 h
  obtain ⟨y, _, rfl, hc, h⟩ := List.map_eq_cons_iff.1 h
  obtain ⟨z, rfl, hd⟩ := List.map_eq_singleton_iff.1 h
  exact ⟨w, x, y, z, rfl, ha, hb, hc, hd⟩

/-- Leaving out the lists of some items is the same as taking the others only. -/
theorem flatten_map_ite (p : β → Bool) (f : β → List γ) (l : List β) :
    (l.map fun b => if p b then [] else f b).flatten = (l.filter fun b => !p b).flatMap f := by
  induction l with
  | nil => rfl
  | cons b rest ih =>
    rw [List.map_cons, List.flatten_cons, ih, List.filter_cons]
    cases p b <;> simp

/-- What two lists make together can be taken along the one or along the other. -/
theorem flatMap_comm_perm (l : List β) (m : List γ) (f : β → γ → List δ) :
    (l.flatMap fun a => m.flatMap (f a)).Perm (m.flatMap fun b => l.flatMap fun a => f a b) := by
  induction l with
  | nil =>
    have hnil : (m.flatMap fun b => [].flatMap fun a => f a b) = [] :=
      List.flatMap_eq_nil_iff.2 fun _ _ => rfl
    rw [hnil, List.flatMap_nil]
  | cons a l ih =>
    simp only [List.flatMap_cons]
    exact (ih.append_left _).trans (List.flatMap_append_perm m (f a) _)

/-- Lists with a mark between them are the first one and then each with a mark before it. -/
theorem intercalate_cons (a : β) (l : List β) (ls : List (List β)) :
    [a].intercalate (l :: ls) = l ++ ls.flatMap fun m => a :: m := by
  induction ls generalizing l with
  | nil => rw [List.intercalate_singleton, List.flatMap_nil, List.append_nil]
  | cons m ls ih =>
    rw [List.intercalate_cons_cons, ih, List.flatMap_cons, List.append_assoc]
    rfl

/-- Between lists with a mark between them there is nothing but marks. -/
theorem mem_intercalate {a b : β} {ls : List (List β)} (h : b ∈ [a].intercalate ls) :
    b = a ∨ ∃ l ∈ ls, b ∈ l := by
  cases ls with
  | nil => cases h
  | cons l ls =>
    rw [intercalate_cons] at h
    rcases List.mem_append.1 h with h | h
    · exact .inr ⟨l, List.mem_cons_self, h⟩
    · obtain ⟨m, hm, h⟩ := List.mem_flatMap.1 h
      exact (List.mem_cons.1 h).imp_right fun h => ⟨m, List.mem_cons_of_mem _ hm, h⟩

/-- A list is known up to the first item that is not in it. -/
theorem append_cons_cancel {a : β} {s t x y : List β} (hs : a ∉ s) (ht : a ∉ t)
    (h : s ++ a :: x = t ++ a :: y) : s = t ∧ x = y := by
  induction s generalizing t with
  | nil =>
    cases t with
    | nil => exact ⟨rfl, (List.cons.inj h).2⟩
    | cons b t => exact absurd ((List.cons.inj h).1 ▸ List.mem_cons_self) ht
  | cons b s ih =>
    cases t with
    | nil => exact absurd ((List.cons.inj h).1 ▸ List.mem_cons_self) hs
    | cons b' t =>
      obtain ⟨rfl, hrest⟩ := List.cons.inj h
      obtain ⟨rfl, hxy⟩ := ih (List.not_mem_of_not_mem_cons hs) (List.not_mem_of_not_mem_cons ht)
        hrest
      exact ⟨rfl, hxy⟩

/-- A list that is not empty begins as it does with something behind it. -/
theorem exists_cons_of_append {a : β} {s t rest : List β} (hne : s ≠ []) (h : s ++ t = a :: rest) :
    ∃ rest', s = a :: rest' := by
  rcases List.append_eq_cons_iff.1 h with ⟨rfl, -⟩ | ⟨rest', rfl, -⟩
  · exact absurd rfl hne
  · exact ⟨rest', rfl⟩

end

/-! ## Lists that are related item by item -/

section

variable {R : β → γ → Prop} {l : List β} {m : List γ}

/-- Every item of the second list is related to one of the first. -/
theorem exists_of_mem_right (h : List.Forall₂ R l m) {y : γ} (hy : y ∈ m) : ∃ x ∈ l, R x y := by
  induction h with
  | nil => cases hy
  | cons hxy _ ih =>
    rcases List.mem_cons.1 hy with rfl | hy
    · exact ⟨_, List.mem_cons_self, hxy⟩
    · obtain ⟨x, hx, hxy⟩ := ih hy
      exact ⟨x, List.mem_cons_of_mem _ hx, hxy⟩

/-- What an item of the first list is related to has its position in the second. -/
theorem exists_getElem?_right (h : List.Forall₂ R l m) {i : Nat} {x : β} (hi : l[i]? = some x) :
    ∃ y, m[i]? = some y ∧ R x y := by
  induction h generalizing i with
  | nil => cases hi
  | cons hxy _ ih =>
    cases i with
    | zero =>
      cases hi
      exact ⟨_, rfl, hxy⟩
    | succ i => exact ih hi

/-- What is made of the items of two lists that are related item by item. -/
theorem map_eq_of_forall₂ {f : β → δ} {g : γ → δ} (h : List.Forall₂ R l m)
    (heq : ∀ x ∈ l, ∀ y, R x y → g y = f x) : m.map g = l.map f := by
  induction h with
  | nil => rfl
  | cons hxy _ ih =>
    rw [List.map_cons, List.map_cons, heq _ List.mem_cons_self _ hxy,
      ih fun x hx => heq x (List.mem_cons_of_mem _ hx)]

/-- What is taken of the items of two lists that are related item by item. -/
theorem filterMap_eq_of_forall₂ {f : β → Option δ} {g : γ → Option δ} (h : List.Forall₂ R l m)
    (hfg : ∀ b c, R b c → f b = g c) : l.filterMap f = m.filterMap g := by
  induction h with
  | nil => rfl
  | cons hbc _ ih => rw [List.filterMap_cons, List.filterMap_cons, hfg _ _ hbc, ih]

/-- What the items of a list are paired with at their places. -/
theorem forall₂_map_zip {R : β → ε → Prop} (f : β → γ) (g : γ × δ → ε) {positions : List δ}
    (hlength : positions.length = l.length)
    (h : ∀ (k : Nat) b i, l[k]? = some b → positions[k]? = some i → R b (g (f b, i))) :
    List.Forall₂ R l (((l.map f).zip positions).map g) := by
  induction l generalizing positions with
  | nil => exact .nil
  | cons b rest ih =>
    cases positions with
    | nil => cases hlength
    | cons i positions =>
      exact .cons (h 0 b i rfl rfl)
        (ih (Nat.succ.inj hlength) fun k b i hb hi => h (k + 1) b i hb hi)

end

/-! ## Loops -/

section

variable {m : Type → Type} [Monad m] [LawfulMonad m] {l : List β}

/-- A computation for each item that does nothing but give a value. -/
theorem mapM_eq_pure {f : β → m γ} {g : β → γ} (h : ∀ b ∈ l, f b = pure (g b)) :
    l.mapM f = pure (l.map g) := by
  induction l with
  | nil => rw [List.mapM_nil, List.map_nil]
  | cons b rest ih =>
    obtain ⟨hb, hrest⟩ := List.forall_mem_cons.1 h
    rw [List.mapM_cons, hb, ih hrest, pure_bind, pure_bind, List.map_cons]

/-- Two lists come to the same if their items do, one by one. -/
theorem mapM_eq_of_zip {f : β → m γ} {l' : List β} (hlength : l.length = l'.length)
    (h : ∀ p ∈ l.zip l', f p.1 = f p.2) : l.mapM f = l'.mapM f := by
  induction l generalizing l' with
  | nil =>
    cases l' with
    | nil => rfl
    | cons => cases hlength
  | cons b rest ih =>
    cases l' with
    | nil => cases hlength
    | cons b' rest' =>
      have hfirst : f b = f b' := h (b, b') List.mem_cons_self
      have hrest := ih (Nat.succ.inj hlength) fun p hp => h p (List.mem_cons_of_mem _ hp)
      rw [List.mapM_cons, List.mapM_cons, hrest, hfirst]

end

section

variable {f : β → Option γ} {l : List β} {r : List γ}

/-- The choices for the items of a list give one value for each. -/
theorem forall₂_of_mapM (h : l.mapM f = some r) : List.Forall₂ (fun b c => f b = some c) l r := by
  induction l generalizing r with
  | nil =>
    cases h
    exact .nil
  | cons b rest ih =>
    simp only [List.mapM_cons, Option.bind_eq_bind, Option.bind_eq_some_iff, Option.pure_def,
      Option.some.injEq] at h
    obtain ⟨c, hc, r', hr', rfl⟩ := h
    exact .cons hc (ih hr')

/-- Every item of a list that is read was read from an item. -/
theorem exists_of_mem_mapM (h : l.mapM f = some r) {y : γ} (hy : y ∈ r) : ∃ x ∈ l, f x = some y :=
  exists_of_mem_right (forall₂_of_mapM h) hy

end

section

variable {l : List γ}

/-- A fold that may fail at each item, for a cause that is not in the state, fails or is a fold. -/
theorem foldlM_eq_ite {f? : β → γ → Option β} {f : β → γ → β} (inv : β → Prop) (ok : γ → Prop)
    [DecidablePred ok]
    (hstep : ∀ b, inv b → ∀ c ∈ l, f? b c = if ok c then some (f b c) else none)
    (hinv : ∀ b c, inv b → inv (f b c)) {b : β} (hb : inv b) :
    l.foldlM f? b = if ∀ c ∈ l, ok c then some (l.foldl f b) else none := by
  induction l generalizing b with
  | nil => rfl
  | cons c rest ih =>
    have hrest := ih (fun b hb d hd => hstep b hb d (List.mem_cons_of_mem _ hd)) (hinv b c hb)
    rw [List.foldlM_cons, hstep b hb c List.mem_cons_self, List.foldl_cons]
    by_cases hc : ok c
    · rw [if_pos hc, Option.bind_eq_bind, Option.bind_some, hrest]
      simp [hc]
    · rw [if_neg hc, if_neg fun h => hc (h c List.mem_cons_self)]
      rfl

/-- A fold that fails at no item is a fold. -/
theorem foldlM_eq_some {f? : β → γ → Option β} {f : β → γ → β} (inv : β → Prop)
    (hstep : ∀ b, inv b → ∀ c ∈ l, f? b c = some (f b c))
    (hinv : ∀ b c, inv b → inv (f b c)) {b : β} (hb : inv b) :
    l.foldlM f? b = some (l.foldl f b) := by
  have h : l.foldlM f? b = if ∀ c ∈ l, True then some (l.foldl f b) else none :=
    foldlM_eq_ite inv (fun _ => True) (fun b hb c hc => by rw [if_pos trivial, hstep b hb c hc])
      hinv hb
  rwa [if_pos fun _ _ => trivial] at h

/-- What each step keeps is kept by all of them. -/
theorem invariant_of_foldlM {step : β → γ → Except ε β} {P : β → Prop}
    (hstep : ∀ {b c b'}, P b → step b c = .ok b' → P b') {b b' : β} (hb : P b)
    (h : l.foldlM step b = .ok b') : P b' := by
  induction l generalizing b with
  | nil =>
    cases h
    exact hb
  | cons c rest ih =>
    rw [List.foldlM_cons, bind_eq_ok_iff] at h
    obtain ⟨b₁, hfirst, hrest⟩ := h
    exact ih (hstep hb hfirst) hrest

/-- If only the parts of the items count for a step, the steps are those of the parts. -/
theorem toOption_foldlM {step : β → γ → Except ε β} {part? : γ → Option δ}
    {add? : β → δ → Option β}
    (h : ∀ c ∈ l, ∀ b, (step b c).toOption = (part? c).elim (some b) (add? b)) (b : β) :
    (l.foldlM step b).toOption = (l.filterMap part?).foldlM add? b := by
  induction l generalizing b with
  | nil => rfl
  | cons c rest ih =>
    obtain ⟨hc, hrest⟩ := List.forall_mem_cons.1 h
    rw [List.foldlM_cons, toOption_bind, hc b]
    cases hpart : part? c with
    | none =>
      rw [List.filterMap_cons_none hpart]
      exact ih hrest b
    | some d =>
      rw [List.filterMap_cons_some hpart, List.foldlM_cons]
      exact congrArg (Option.bind (add? b d)) (funext fun b' => ih hrest b')

end

end BlockModels
