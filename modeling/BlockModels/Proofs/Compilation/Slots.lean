import BlockModels.Proofs.Compilation.Joining

/-!
# A slot for every record

Records that are written alike share a position: references in the list of references, fragments in
that of fragments, where each has its slot on the atlas. A record of finite numbers is written like
no other one (`Keyed.IsFaithful`), whatever marks of the texts of records are in its names, keys and
paths, and whichever of its fields are there. So it shares its position with its equals only. Equal
numbers are those with the same digits and the same sign, of zero too.
-/

namespace BlockModels

/-- What is finite is told apart from everything else by its key, and shares its position in a
registry with its equals only. -/
structure Keyed.IsFaithful (β : Type) [Keyed β] (isFinite : β → Bool) : Prop where
  key_eq_iff : ∀ {a b : β}, isFinite a = true → (Keyed.key a = Keyed.key b ↔ a = b)
  position_eq_iff : ∀ {l : List β} {j k : Nat} {a b : β}, l[j]? = some a → l[k]? = some b →
    isFinite a = true →
      ((Registry.empty.insertAll l).1[j]? = (Registry.empty.insertAll l).1[k]? ↔ a = b)

/-- Keys that tell finite things apart keep them apart in registries. -/
theorem Keyed.isFaithful_of_key_inj {β : Type} [Keyed β] {isFinite : β → Bool}
    (h : ∀ {a b : β}, isFinite a = true → Keyed.key a = Keyed.key b → a = b) :
    Keyed.IsFaithful β isFinite where
  key_eq_iff ha := ⟨h ha, congrArg Keyed.key⟩
  position_eq_iff {l j k a b} hj hk ha := by
    rw [(Registers.insertAll l).position_eq_iff hj hk]
    exact ⟨h ha, congrArg Keyed.key⟩

section

variable {α : Type} [Scalar α] [WrittenScalar α]

theorem isFaithful_reference :
    Keyed.IsFaithful (TextureReference α) TextureReference.isFinite :=
  Keyed.isFaithful_of_key_inj fun hfinite hkey =>
    (TextureReference.matches_of_key hkey).eq_of_isFinite hfinite

theorem isFaithful_fragment : Keyed.IsFaithful (TextureFragment α) TextureFragment.isFinite :=
  Keyed.isFaithful_of_key_inj fun hfinite hkey =>
    (TextureFragment.matches_of_key hkey).eq_of_isFinite hfinite

/-- Two references of a run have one slot exactly if they are resolved to the same fragment, when
this is finite. -/
structure Compilation.KeepsApart (c : Catalog α) (r : Compilation α) : Prop where
  fragment_eq_iff : ∀ {j k : Nat} {ref ref' : TextureReference α}, r.references[j]? = some ref →
    r.references[k]? = some ref' → (c.resolveTexture ref).value.isFinite = true →
      (r.fragmentOf[j]? = r.fragmentOf[k]? ↔
        (c.resolveTexture ref).value = (c.resolveTexture ref').value)

/-- Texts keep finite references and finite fragments apart, in registries and on atlases. -/
theorem keys_keep_apart :
    Keyed.IsFaithful (TextureReference α) TextureReference.isFinite ∧
      Keyed.IsFaithful (TextureFragment α) TextureFragment.isFinite ∧
        ∀ {c : Catalog α} {settings : Settings α} {find : FileLookup} {palette : List Block}
          {r : Compilation α}, (compile c settings find palette).run.value = .ok r →
            r.KeepsApart c :=
  ⟨isFaithful_reference, isFaithful_fragment, fun h => ⟨fun hj hk hfinite =>
    ((compile_eq_ok_iff.1 h).fragment_eq_iff hj hk).trans
      (isFaithful_fragment.key_eq_iff hfinite)⟩⟩

end

/-- The names in the first two references would make one text if quotes stood for themselves, and
the third begins at another zero: each has a position of its own, and the fourth that of the first.
Two sheets beyond the end of a texture have two slots if they begin at different zeros. -/
theorem keys_keep_apart_of_quotes :
    let ref (u : Float) (blockName face : String) : TextureReference Float :=
      { rect := ⟨⟨u, 0⟩, ⟨1, 1⟩⟩, source := .block blockName face 0 }
    let first := ref 0 "a\",\"face\":\"b" "c"
    let second := ref 0 "a" "b\",\"face\":\"c"
    let third := ref (-0) "a\",\"face\":\"b" "c"
    let positions := (Registry.empty.insertAll [first, second, third, first]).1
    let sheet (u : Float) : Template Float := {
      size := some ⟨16, 16, 0⟩, texturePath := some "sheet.png"
      uv := some (Table.empty.insert "*" ⟨u, 16⟩) }
    let c : Catalog Float :=
      { geometry := Table.empty.insert defaultShape [sheet 0, sheet (-0)] }
    let find : FileLookup := fun _ => some (.picture .png (.fill 1 1 ⟨255, 0, 0, 255⟩))
    first.isFinite = true ∧ positions[0]? ≠ positions[1]? ∧ positions[0]? ≠ positions[2]? ∧
      positions[0]? = positions[3]? ∧
        ∃ r, (compile c .standard find [{ name := "sheet" }]).run.value = .ok r ∧
          r.KeepsApart c ∧ r.fragmentOf = [0, 1] := by
  intro ref first second third positions sheet c find
  have hfinite : first.isFinite = true := by decide +kernel
  have hquotes : first ≠ second := fun h => by
    have hnames := congrArg TextureReference.source h
    exact absurd (TextureSource.block.inj hnames).1 (by decide)
  have hzeros : first ≠ third := fun h => by
    have hnumbers := congrArg (·.rect.uv.x) h
    revert hnumbers
    decide +kernel
  have hrun : ((compile c .standard find [{ name := "sheet" }]).run.value.toOption.any fun r =>
      decide (r.fragmentOf = [0, 1])) = true := by
    decide +kernel
  obtain ⟨r, hr, hslots⟩ := (Option.any_eq_true _ _).1 hrun
  have hok := toOption_eq_some_iff.1 hr
  obtain ⟨hreference, -, hcompile⟩ := keys_keep_apart (α := Float)
  refine ⟨hfinite, ?_, ?_, ?_, r, hok, hcompile hok, of_decide_eq_true hslots⟩
  · exact fun h => hquotes ((hreference.position_eq_iff rfl rfl hfinite).1 h)
  · exact fun h => hzeros ((hreference.position_eq_iff rfl rfl hfinite).1 h)
  · exact (hreference.position_eq_iff rfl rfl hfinite).2 rfl

end BlockModels
