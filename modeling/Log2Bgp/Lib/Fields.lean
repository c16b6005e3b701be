import Mathlib.Tactic.Common

/-!
# Lines of fields

Lines of fields between bars, each with a name, a sign and a value. A reader drops what is empty.
-/

namespace Log2Bgp.Lib

section Fields

variable {α : Type} [DecidableEq α] {bar sign : α} {s t name value : List α}

/-- A name and a value. -/
abbrev LineField (α : Type) := List α × List α

/-- What stands in front of the first sign, and what stands behind it. -/
def readField (sign : α) (t : List α) : LineField α := (t.takeWhile (· != sign), (t.dropWhile (· != sign)).tail)

/-- The fields of a line. -/
def readFields (bar sign : α) (line : List α) : List (LineField α) :=
  ((line.splitOn bar).filter (· ≠ [])).map (readField sign)

/-- A field as it is written. -/
def writeField (sign : α) (f : LineField α) : List α := f.1 ++ sign :: f.2

/-- Fields as they are written, each behind a bar. -/
def barred (bar sign : α) (fs : List (LineField α)) : List α := fs.flatMap fun f => bar :: writeField sign f

/-- A field that reads back: no bar is in it, and no sign in its name. -/
structure Readable (bar sign : α) (f : LineField α) : Prop where
  sign : sign ∉ f.1
  name : bar ∉ f.1
  value : bar ∉ f.2

/-! ## Reading -/

theorem readField_write {f : LineField α} (h : sign ∉ f.1) : readField sign (writeField sign f) = f := by
  have hall : ∀ c ∈ f.1, (c != sign) = true := by
    intro c hc
    rw [bne_iff_ne]
    rintro rfl
    exact h hc
  rw [readField, writeField, List.takeWhile_append_of_pos hall, List.dropWhile_append_of_pos hall]
  simp

@[simp] theorem readFields_nil : readFields bar sign [] = [] := by simp [readFields]

theorem readFields_bar (s t : List α) :
    readFields bar sign (s ++ bar :: t) = readFields bar sign s ++ readFields bar sign t := by
  simp [readFields, List.splitOn_append_cons_of_beq]

theorem readFields_write {f : LineField α} (hne : bar ≠ sign) (h : Readable bar sign f) :
    readFields bar sign (writeField sign f) = [f] := by
  have hbar : bar ∉ writeField sign f := by simp [writeField, h.name, h.value, hne]
  have hne : writeField sign f ≠ [] := by simp [writeField]
  simp [readFields, List.splitOn_eq_singleton hbar, hne, readField_write h.sign]

/-- Fields behind a text are read behind what the text is read as. -/
theorem readFields_barred (hne : bar ≠ sign) {fs : List (LineField α)} (h : ∀ f ∈ fs, Readable bar sign f) (t : List α) :
    readFields bar sign (t ++ barred bar sign fs) = readFields bar sign t ++ fs := by
  induction fs generalizing t with
  | nil => simp [barred]
  | cons f fs ih =>
      rw [List.forall_mem_cons] at h
      have hsplit : t ++ barred bar sign (f :: fs) = (t ++ bar :: writeField sign f) ++ barred bar sign fs := by
        simp [barred]
      rw [hsplit, ih h.2, readFields_bar, readFields_write hne h.1, List.append_assoc, List.singleton_append]

omit [DecidableEq α] in
theorem barred_append (fs gs : List (LineField α)) :
    barred bar sign (fs ++ gs) = barred bar sign fs ++ barred bar sign gs := List.flatMap_append

end Fields

end Log2Bgp.Lib
