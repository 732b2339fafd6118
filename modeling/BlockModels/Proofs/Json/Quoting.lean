import BlockModels.Json.Printer
import Mathlib.Data.List.Infix

/-!
# Quoted texts

A quoted text can be read back: the characters that stand for one character are no beginning of
those that stand for another (`escapeChar_cancel`), and a quote stands for nothing but the end. So
it is known where a quoted text ends, whatever comes behind it (`quoted_cancel`).
-/

namespace BlockModels.Json

/-- The characters that do not stand for themselves. -/
def escapedChars : List Char := (List.range 32).map Char.ofNat ++ ['"', '\\']

/-- A character that needs no escape stands for itself. -/
theorem escapeChar_eq_self {c : Char} (h : c ∉ escapedChars) : escapeChar c = [c] := by
  have hlow : ¬c.toNat < 0x20 := fun hlt => h <| List.mem_append_left _ <|
    List.mem_map.2 ⟨c.toNat, List.mem_range.2 hlt, Char.ofNat_toNat c⟩
  unfold escapeChar
  split
  all_goals first
    | exact absurd (by decide) h
    | exact if_neg hlow

/-- What stands for another character begins with a mark, and is no beginning of anything else. -/
theorem escapeChar_of_mem : ∀ c ∈ escapedChars, (escapeChar c).head? = some '\\' ∧
    ∀ d ∈ escapedChars, escapeChar c <+: escapeChar d → c = d := by
  have hall : (escapedChars.all fun c => decide ((escapeChar c).head? = some '\\') &&
      escapedChars.all fun d => decide (escapeChar c <+: escapeChar d → c = d)) = true := by
    decide +kernel
  intro c hc
  obtain ⟨hmark, hpieces⟩ := Bool.and_eq_true_iff.1 (List.all_eq_true.1 hall c hc)
  exact ⟨of_decide_eq_true hmark, fun d hd => of_decide_eq_true (List.all_eq_true.1 hpieces d hd)⟩

/-- From the beginning of a text its first escaped character is known. -/
theorem escapeChar_cancel {c d : Char} {x y : List Char}
    (h : escapeChar c ++ x = escapeChar d ++ y) : c = d ∧ x = y := by
  have heq : c = d := by
    by_cases hc : c ∈ escapedChars <;> by_cases hd : d ∈ escapedChars
    · have hprefix : escapeChar c <+: escapeChar d ++ y := ⟨x, h⟩
      rcases List.prefix_or_prefix_of_prefix hprefix (List.prefix_append _ y) with hle | hle
      · exact (escapeChar_of_mem c hc).2 d hd hle
      · exact ((escapeChar_of_mem d hd).2 c hc hle).symm
    · -- The mark stands for itself nowhere.
      rw [escapeChar_eq_self hd] at h
      have hhead := congrArg List.head? h
      rw [List.head?_append, (escapeChar_of_mem c hc).1] at hhead
      cases hhead
      exact absurd (by decide) hd
    · rw [escapeChar_eq_self hc] at h
      have hhead := congrArg List.head? h
      rw [List.head?_append, List.head?_append, (escapeChar_of_mem d hd).1] at hhead
      cases hhead
      exact absurd (by decide) hc
    · rw [escapeChar_eq_self hc, escapeChar_eq_self hd] at h
      exact (List.cons.inj h).1
  subst heq
  exact ⟨rfl, List.append_cancel_left h⟩

/-- A quote stands for nothing but the end. -/
theorem exists_escapeChar_eq (c : Char) : ∃ a rest, escapeChar c = a :: rest ∧ a ≠ '"' := by
  by_cases hc : c ∈ escapedChars
  · obtain ⟨rest, hrest⟩ := List.head?_eq_some_iff.1 (escapeChar_of_mem c hc).1
    exact ⟨_, rest, hrest, by decide⟩
  · refine ⟨c, [], escapeChar_eq_self hc, ?_⟩
    rintro rfl
    exact hc (by decide)

/-- No escaped character begins like a closing quote. -/
theorem escapeChar_append_ne (c : Char) (x y : List Char) : escapeChar c ++ x ≠ '"' :: y := by
  obtain ⟨a, rest, ha, hne⟩ := exists_escapeChar_eq c
  rw [ha]
  exact fun h => hne (List.cons.inj h).1

/-- A quoted text is its escaped characters between quotes. -/
theorem toList_quoted (s : String) :
    (quoted s).toList = '"' :: (s.toList.flatMap escapeChar ++ ['"']) :=
  String.toList_ofList

/-- From the beginning of a text a quoted one is known, up to its closing quote. -/
theorem escaped_cancel {cs ds x y : List Char}
    (h : cs.flatMap escapeChar ++ '"' :: x = ds.flatMap escapeChar ++ '"' :: y) :
    cs = ds ∧ x = y := by
  induction cs generalizing ds with
  | nil =>
    cases ds with
    | nil => exact ⟨rfl, (List.cons.inj h).2⟩
    | cons d ds =>
      rw [List.flatMap_cons, List.append_assoc] at h
      exact absurd h.symm (escapeChar_append_ne d _ _)
  | cons c cs ih =>
    cases ds with
    | nil =>
      rw [List.flatMap_cons, List.append_assoc] at h
      exact absurd h (escapeChar_append_ne c _ _)
    | cons d ds =>
      rw [List.flatMap_cons, List.flatMap_cons, List.append_assoc, List.append_assoc] at h
      obtain ⟨rfl, hrest⟩ := escapeChar_cancel h
      obtain ⟨rfl, hxy⟩ := ih hrest
      exact ⟨rfl, hxy⟩

/-- Where a quoted text ends, and what it is, can be seen from any text that begins with it. -/
theorem quoted_cancel {s t : String} {x y : List Char}
    (h : (quoted s).toList ++ x = (quoted t).toList ++ y) : s = t ∧ x = y := by
  rw [toList_quoted, toList_quoted, List.cons_append, List.cons_append, List.append_assoc,
    List.append_assoc] at h
  obtain ⟨hs, hxy⟩ := escaped_cancel (List.cons.inj h).2
  exact ⟨String.toList_inj.1 hs, hxy⟩

end BlockModels.Json
