import Log2Bgp.Lib.Lists
import Log2Bgp.Model.Config

/-!
# Tables of aliases
-/

namespace Log2Bgp

open Lib

/-- What an alias replaces. -/
def TranslateAttribsBase.Fits (code : BgpPathAttrib) (value : UInt32) (a : TranslateAttribsBase) : Prop :=
  a.code = code ∧ a.value = value

instance (code : BgpPathAttrib) (value : UInt32) : DecidablePred (TranslateAttribsBase.Fits code value) :=
  fun a => inferInstanceAs (Decidable (a.code = code ∧ a.value = value))

section Erase

variable {code : BgpPathAttrib} {value : UInt32} {table t : List TranslateAttribsBase}

/-- A loop that has more to go through than there is runs out of the table. -/
theorem eraseTranslations_long {passes i : Nat} (hlong : table.length < i + passes) (hpasses : 0 < passes) :
    eraseTranslations code value passes i table ≠ .ok t := by
  induction passes generalizing i table with
  | zero => cases hpasses
  | succ passes ih =>
      rw [eraseTranslations]
      cases ha : table[i]? with
      | none => simp
      | some a =>
          obtain ⟨hi, -⟩ := List.getElem?_eq_some_iff.mp ha
          refine ih ?_ (by omega)
          split
          · have hlen := List.length_eraseIdx_le table i
            omega
          · omega

/-- The loop gets to its end just where it replaces nothing or the last entry, and drops what it replaces. -/
theorem eraseTranslations_iff {passes i : Nat} (hsum : i + passes = table.length)
    (hbefore : ∀ j a, j < i → table[j]? = some a → ¬ a.Fits code value) :
    eraseTranslations code value passes i table = .ok t ↔
      (∀ j a, table[j]? = some a → a.Fits code value → j + 1 = table.length) ∧
        t = table.filter fun a => ¬ a.Fits code value := by
  induction passes generalizing i with
  | zero =>
      have hnone : ∀ a ∈ table, ¬ a.Fits code value := by
        intro a ha
        obtain ⟨j, hj, rfl⟩ := List.mem_iff_getElem.mp ha
        exact hbefore j _ (by omega) (List.getElem?_eq_getElem hj)
      have hkept : table.filter (fun a => ¬ a.Fits code value) = table :=
        List.filter_eq_self.mpr fun a ha => decide_eq_true (hnone a ha)
      have hlast : ∀ j a, table[j]? = some a → a.Fits code value → j + 1 = table.length :=
        fun j a ha hfits => absurd hfits (hnone a (List.mem_of_getElem? ha))
      rw [eraseTranslations, hkept, Except.ok.injEq, and_iff_right hlast, eq_comm]
  | succ passes ih =>
      have hi : i < table.length := by omega
      have hget := List.getElem?_eq_getElem hi
      rw [eraseTranslations, hget]
      dsimp only
      split
      · rename_i hfits
        cases passes with
        | zero =>
            have hother : ∀ j a, j ≠ i → table[j]? = some a → ¬ a.Fits code value := by
              intro j a hj ha
              have hlt := (List.getElem?_eq_some_iff.mp ha).1
              exact hbefore j a (by omega) ha
            have hdropped : table.filter (fun a => ¬ a.Fits code value) = table.eraseIdx i :=
              filter_eq_eraseIdx hi (decide_eq_false (not_not.mpr hfits)) fun j a hj ha => decide_eq_true (hother j a hj ha)
            have hlast : ∀ j a, table[j]? = some a → a.Fits code value → j + 1 = table.length := by
              intro j a ha hfits'
              by_contra hne
              exact hother j a (by omega) ha hfits'
            rw [eraseTranslations, hdropped, Except.ok.injEq, and_iff_right hlast, eq_comm]
        | succ passes =>
            refine iff_of_false (eraseTranslations_long ?_ (Nat.succ_pos _)) ?_
            · rw [List.length_eraseIdx_of_lt hi]
              omega
            · rintro ⟨hlast, -⟩
              have hend := hlast i _ hget hfits
              omega
      · rename_i hfits
        refine ih (by omega) ?_
        intro j a hj ha
        obtain hj | rfl := Nat.lt_or_eq_of_le (Nat.le_of_lt_succ hj)
        · exact hbefore j a hj ha
        · cases hget.symm.trans ha
          exact hfits

end Erase

namespace CliPeer

variable {std : AliasSort} {p p' : CliPeer} {a : TranslateAttribsBase}

/-- An alias can be set just where it replaces nothing or the last one of the table. -/
theorem setTranslation_iff : p.setTranslation std a.code a.value a.printableAttrib = .ok p' ↔
    (∀ j a', p.translateAttribs[j]? = some a' → a'.Fits a.code a.value → j + 1 = p.translateAttribs.length) ∧
      p' = { p with
        translateAttribs := std.sort ((p.translateAttribs.filter fun a' => ¬ a'.Fits a.code a.value) ++ [a])
        isAliasing := true } := by
  have herase : ∀ t, eraseTranslations a.code a.value p.translateAttribs.length 0 p.translateAttribs = .ok t ↔ _ :=
    fun t => eraseTranslations_iff (Nat.zero_add _) fun j a hj => absurd hj (Nat.not_lt_zero j)
  simp only [setTranslation, Checked.bind_eq_ok, herase, Checked.pure_eq_ok, Except.ok.injEq]
  constructor
  · rintro ⟨t, ⟨hlast, rfl⟩, rfl⟩
    exact ⟨hlast, rfl⟩
  · rintro ⟨hlast, rfl⟩
    exact ⟨_, ⟨hlast, rfl⟩, rfl⟩

theorem setTranslation_ok (h : p.setTranslation std a.code a.value a.printableAttrib = .ok p') :
    ∃ t, t.Sublist p.translateAttribs ∧ (∀ a' ∈ t, ¬ a'.Fits a.code a.value) ∧
      p' = { p with translateAttribs := std.sort (t ++ [a]), isAliasing := true } := by
  obtain ⟨-, rfl⟩ := setTranslation_iff.mp h
  exact ⟨_, List.filter_sublist, fun a' ha' => of_decide_eq_true (List.mem_filter.mp ha').2, rfl⟩

theorem setTranslation_fresh (h : ∀ a' ∈ p.translateAttribs, ¬ a'.Fits a.code a.value) :
    p.setTranslation std a.code a.value a.printableAttrib =
      .ok { p with translateAttribs := std.sort (p.translateAttribs ++ [a]), isAliasing := true } := by
  have hkept : p.translateAttribs.filter (fun a' => ¬ a'.Fits a.code a.value) = p.translateAttribs :=
    List.filter_eq_self.mpr fun a' ha' => decide_eq_true (h a' ha')
  refine setTranslation_iff.mpr ⟨fun j a' ha' hfits => absurd hfits (h a' (List.mem_of_getElem? ha')), ?_⟩
  rw [hkept]

end CliPeer

end Log2Bgp
