import Mathlib.Data.List.Basic
import Mathlib.Tactic.Common

/-!
# Length-prefixed data

A stream of data with the length in front of each, and a reader that takes what there is when the stream ends early.
-/

namespace Log2Bgp.Lib

/-- Lengths of a fixed width. One that does not fit is spelled as a shorter one. -/
structure Framing where
  width : Nat
  encode : Nat → List UInt8
  decode : List UInt8 → Nat
  width_pos : 0 < width
  length_encode : ∀ n, (encode n).length = width
  decode_le : ∀ n, decode (encode n) ≤ n

namespace Framing

variable (f : Framing)

/-- As much of the data as its length says. -/
def cut (d : List UInt8) : List UInt8 := d.take (f.decode (f.encode d.length))

def frame (d : List UInt8) : List UInt8 := f.encode d.length ++ f.cut d

def frames (ds : List (List UInt8)) : List UInt8 := ds.flatMap f.frame

/-- Lengths, and as many bytes behind each as there are. -/
def read (input : List UInt8) : List (List UInt8) :=
  if input.length < f.width then []
  else
    let len := f.decode (input.take f.width)
    (input.drop f.width).take len :: read ((input.drop f.width).drop len)
termination_by input.length
decreasing_by
  have hpos := f.width_pos
  simp only [List.length_drop]
  omega

/-- What is read where the stream ends behind `n` bytes. -/
def sent : List (List UInt8) → (n : Nat) → List (List UInt8)
  | [], _ => []
  | d :: ds, n => if n < f.width then [] else (f.cut d).take (n - f.width) :: sent ds (n - (f.frame d).length)

/-- The stream ends behind `n` bytes, and that is in the middle of the bytes behind a length. -/
def Torn : List (List UInt8) → (n : Nat) → Prop
  | [], _ => False
  | d :: ds, n =>
      (f.width < n ∧ n < (f.frame d).length) ∨ ((f.frame d).length ≤ n ∧ Torn ds (n - (f.frame d).length))

instance decidableTorn : (ds : List (List UInt8)) → (n : Nat) → Decidable (f.Torn ds n)
  | [], _ => isFalse id
  | d :: ds, n =>
      have _ := decidableTorn ds (n - (f.frame d).length)
      inferInstanceAs (Decidable (_ ∨ _))

variable {f} {d : List UInt8} {ds : List (List UInt8)} {n : Nat}

theorem length_cut (d : List UInt8) : (f.cut d).length = f.decode (f.encode d.length) :=
  List.length_take_of_le (f.decode_le d.length)

theorem length_frame (d : List UInt8) : (f.frame d).length = f.width + (f.cut d).length := by
  rw [frame, List.length_append, f.length_encode]

@[simp] theorem frames_nil : f.frames [] = [] := rfl

theorem frames_cons (d : List UInt8) (ds : List (List UInt8)) :
    f.frames (d :: ds) = f.encode d.length ++ (f.cut d ++ f.frames ds) := by
  rw [frames, List.flatMap_cons, frame, List.append_assoc]
  rfl

theorem read_of_short {input : List UInt8} (h : input.length < f.width) : f.read input = [] := by
  rw [read, if_pos h]

theorem read_encode (len : Nat) (input : List UInt8) : f.read (f.encode len ++ input) =
    input.take (f.decode (f.encode len)) :: f.read (input.drop (f.decode (f.encode len))) := by
  have hlen := f.length_encode len
  have hnot : ¬ (f.encode len ++ input).length < f.width := by
    rw [List.length_append]
    omega
  rw [read, if_neg hnot]
  simp only [List.take_left' hlen, List.drop_left' hlen]

/-- A reader of a stream that ends early takes the data that are there. -/
theorem read_take (ds : List (List UInt8)) (n : Nat) : f.read ((f.frames ds).take n) = f.sent ds n := by
  induction ds generalizing n with
  | nil => exact read_of_short (by simpa using f.width_pos)
  | cons d ds ih =>
      rw [sent]
      by_cases hn : n < f.width
      · rw [if_pos hn]
        apply read_of_short
        exact Nat.lt_of_le_of_lt (List.length_take_le _ _) hn
      · have hencode : (f.encode d.length).take n = f.encode d.length :=
          List.take_of_length_le (by rw [f.length_encode]; omega)
        have hrest : (f.cut d ++ f.frames ds).drop (f.cut d).length = f.frames ds := List.drop_left
        rw [if_neg hn, frames_cons, List.take_append, hencode, f.length_encode, read_encode, ← length_cut,
          List.drop_take, hrest, ih, length_frame, Nat.sub_add_eq, List.take_take, Nat.min_comm, ← List.take_take,
          List.take_left]

theorem sent_whole (h : (f.frames ds).length ≤ n) : f.sent ds n = ds.map f.cut := by
  induction ds generalizing n with
  | nil => rfl
  | cons d ds ih =>
      rw [frames_cons, List.length_append, List.length_append, f.length_encode] at h
      have hframe : (f.frame d).length = f.width + (f.cut d).length := length_frame d
      rw [sent, if_neg (by omega), List.take_of_length_le (by omega), ih (by omega), List.map_cons]

/-- A reader of the whole stream takes the data. -/
theorem read_frames (ds : List (List UInt8)) : f.read (f.frames ds) = ds.map f.cut := by
  have hread := read_take (f := f) ds (f.frames ds).length
  rwa [List.take_length, sent_whole (Nat.le_refl _)] at hread

/-- What is read, but for a length with nothing behind it, is some of the data from the first on, if the stream does not
end in the middle of one. -/
theorem sent_prefix_iff (hds : ∀ d ∈ ds, f.cut d ≠ []) :
    (f.sent ds n).filter (· ≠ []) <+: ds.map f.cut ↔ ¬ f.Torn ds n := by
  induction ds generalizing n with
  | nil => simp [sent, Torn]
  | cons d ds ih =>
      rw [List.forall_mem_cons] at hds
      have hframe : (f.frame d).length = f.width + (f.cut d).length := length_frame d
      have hpos := List.length_pos_iff.mpr hds.1
      rw [sent, Torn]
      by_cases hn : n < f.width
      · rw [if_pos hn]
        exact iff_of_true (List.nil_prefix) (by omega)
      · rw [if_neg hn]
        by_cases hwhole : (f.frame d).length ≤ n
        · have htake : (f.cut d).take (n - f.width) = f.cut d := List.take_of_length_le (by omega)
          rw [htake, List.filter_cons_of_pos (by simpa using hds.1), List.map_cons, List.prefix_cons_inj, ih hds.2]
          constructor
          · rintro hnot (h | ⟨_, h⟩)
            · omega
            · exact hnot h
          · intro hnot h
            exact hnot (Or.inr ⟨hwhole, h⟩)
        · have hnone : f.sent ds (n - (f.frame d).length) = [] := by
            cases ds with
            | nil => rfl
            | cons _ _ =>
                rw [sent, if_pos]
                have hwidth := f.width_pos
                omega
          rw [hnone]
          by_cases hedge : n = f.width
          · subst hedge
            rw [Nat.sub_self, List.take_zero]
            exact iff_of_true (by simp) (by omega)
          · have hpart : (f.cut d).take (n - f.width) ≠ [] := by
              rw [← List.length_pos_iff, List.length_take]
              omega
            apply iff_of_false
            · rw [List.filter_cons_of_pos (by simpa using hpart), List.filter_nil, List.map_cons]
              intro h
              have heq := congrArg List.length (List.cons_prefix_cons.mp h).1
              rw [List.length_take] at heq
              omega
            · exact not_not.mpr (Or.inl ⟨by omega, by omega⟩)

end Framing

end Log2Bgp.Lib
