import Log2Bgp.Lib.Run
import Log2Bgp.Restore.Lemmas.Aliases

/-!
# Sequences of aliases

What the table of a peer holds after any number of calls of `set_translation`.
-/

namespace Log2Bgp

open Lib

/-- A call of `set_translation`, given as the entry that it adds, where it stays within the table. -/
def CliPeer.setAlias (std : AliasSort) (p : CliPeer) (a : TranslateAttribsBase) : Option CliPeer :=
  (p.setTranslation std a.code a.value a.printableAttrib).toOption

/-- The entry that the call replaces, if there is one, is the last of the table. -/
def CliPeer.ReplacesLast (p : CliPeer) (a : TranslateAttribsBase) : Prop :=
  ∀ j a', p.translateAttribs[j]? = some a' → a'.Fits a.code a.value → j + 1 = p.translateAttribs.length

/-- A sorted table with one entry for each code and value that was ever set, as it was set last. -/
structure HoldsLast (calls table : List TranslateAttribsBase) : Prop where
  sorted : table.Pairwise fun a b => a.code.toByte ≤ b.code.toByte
  last : ∀ code value, table.filter (·.Fits code value) = (calls.reverse.find? (·.Fits code value)).toList

variable {std : AliasSort} {p p' : CliPeer} {a : TranslateAttribsBase} {calls table : List TranslateAttribsBase}

theorem fits_self (a : TranslateAttribsBase) : a.Fits a.code a.value := ⟨rfl, rfl⟩

/-- What is set under another code or value is still there, behind the new entry. -/
theorem HoldsLast.set (h : HoldsLast calls table) (std : AliasSort) (a : TranslateAttribsBase) :
    HoldsLast (calls ++ [a]) (std.sort ((table.filter fun a' => ¬ a'.Fits a.code a.value) ++ [a])) where
  sorted := std.sorted _
  last code value := by
    refine eq_of_perm_option (((std.perm _).filter _).trans (.of_eq ?_))
    rw [List.filter_append, List.filter_filter, List.reverse_append, List.reverse_singleton, List.singleton_append]
    by_cases hfits : a.Fits code value
    · obtain ⟨rfl, rfl⟩ := hfits
      rw [List.find?_cons_of_pos (by simp [fits_self]), List.filter_cons_of_pos (by simp [fits_self])]
      simp
    · have hsame : ∀ a' ∈ table, (decide (a'.Fits code value) && decide ¬ a'.Fits a.code a.value) =
          decide (a'.Fits code value) := by
        intro a' _
        by_cases ha' : a'.Fits code value
        · have hother : ¬ a'.Fits a.code a.value := fun hsame => hfits ⟨hsame.1.symm.trans ha'.1, hsame.2.symm.trans ha'.2⟩
          simp [ha', hother]
        · simp [ha']
      rw [List.filter_congr hsame, h.last, List.find?_cons_of_neg (by simp [hfits]),
        List.filter_cons_of_neg (by simp [hfits]), List.filter_nil, List.append_nil]

theorem setAlias_eq_some (h : p.setAlias std a = some p') :
    p'.translateAttribs = std.sort ((p.translateAttribs.filter fun a' => ¬ a'.Fits a.code a.value) ++ [a]) := by
  obtain ⟨-, rfl⟩ := CliPeer.setTranslation_iff.mp (Checked.toOption_eq_some.mp h)
  rfl

theorem setAlias_iff : (∃ p', p.setAlias std a = some p') ↔ p.ReplacesLast a := by
  constructor
  · rintro ⟨p', h⟩
    exact (CliPeer.setTranslation_iff.mp (Checked.toOption_eq_some.mp h)).1
  · intro h
    exact ⟨_, Checked.toOption_eq_some.mpr (CliPeer.setTranslation_iff.mpr ⟨h, rfl⟩)⟩

theorem HoldsLast.run (as : List TranslateAttribsBase) (h : HoldsLast calls p.translateAttribs)
    (hrun : runAll (CliPeer.setAlias std) as p = some p') : HoldsLast (calls ++ as) p'.translateAttribs := by
  induction as generalizing calls p with
  | nil =>
      cases hrun
      rw [List.append_nil]
      exact h
  | cons a as ih =>
      obtain ⟨p₁, hp₁, hrun⟩ := Option.bind_eq_some_iff.mp hrun
      have hset := h.set std a
      rw [← setAlias_eq_some hp₁] at hset
      rw [List.append_cons]
      exact ih hset hrun

/-! ## From an empty table -/

namespace Example

def unaliased : CliPeer := { AS := 1, pIp := [] }

/-- The second of two labels of AS numbers is set anew. -/
def relabelled : List TranslateAttribsBase :=
  [⟨.asPath, 1, "a".toList⟩, ⟨.asPath, 2, "b".toList⟩, ⟨.asPath, 2, "c".toList⟩]

/-- The first one is. -/
def displaced : List TranslateAttribsBase :=
  [⟨.asPath, 1, "a".toList⟩, ⟨.asPath, 2, "b".toList⟩, ⟨.asPath, 1, "c".toList⟩]

end Example

/-- The scan goes past the table when it has dropped the first of two entries. -/
theorem displaced_alias : ¬ ∃ p', runAll (CliPeer.setAlias .stable) Example.displaced Example.unaliased = some p' ∧
    HoldsLast Example.displaced p'.translateAttribs := by
  rintro ⟨p', hrun, -⟩
  have hnone : runAll (CliPeer.setAlias .stable) Example.displaced Example.unaliased = none := by
    decide
  cases hnone.symm.trans hrun

/-- All calls stay within the table, and the table holds what was set last, just where each call replaces
nothing or the last entry. -/
theorem aliases_iff (std : AliasSort) (calls : List TranslateAttribsBase) {p : CliPeer} (hp : p.translateAttribs = []) :
    (∃ p', runAll (CliPeer.setAlias std) calls p = some p' ∧ HoldsLast calls p'.translateAttribs) ↔
      AllAdmissible (CliPeer.setAlias std) CliPeer.ReplacesLast calls p := by
  have hempty : HoldsLast [] p.translateAttribs := by
    rw [hp]
    exact ⟨.nil, fun _ _ => rfl⟩
  rw [← runAll_iff fun _ _ => setAlias_iff]
  constructor
  · rintro ⟨p', hrun, -⟩
    exact ⟨p', hrun⟩
  · rintro ⟨p', hrun⟩
    exact ⟨p', hrun, hempty.run calls hrun⟩

theorem aliases_iff_relabelled :
    (∃ p', runAll (CliPeer.setAlias .stable) Example.relabelled Example.unaliased = some p' ∧
        HoldsLast Example.relabelled p'.translateAttribs) ↔
      AllAdmissible (CliPeer.setAlias .stable) CliPeer.ReplacesLast Example.relabelled Example.unaliased :=
  aliases_iff .stable Example.relabelled rfl

end Log2Bgp
