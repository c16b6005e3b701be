import Log2Bgp.Lib.Bytes
import Log2Bgp.Lib.Checked

/-!
# File streams

A file stream that is open for reading and writing has one position for both. What a reader makes
of given bytes is a relation that composes like the readers do.
-/

namespace Log2Bgp.Lib

/-! ## Values with a fixed memory layout -/

/-- A type whose values are copied to memory and back as a fixed number of bytes. -/
class Pod (α : Type) where
  bytes : α → List UInt8
  ofBytes : List UInt8 → α
  ofBytes_bytes : ∀ a, ofBytes (bytes a) = a
  length_bytes : ∀ a b, (bytes a).length = (bytes b).length

instance : Pod UInt8 where
  bytes v := [v]
  ofBytes bs := bs.headD 0
  ofBytes_bytes _ := rfl
  length_bytes _ _ := rfl

instance : Pod UInt16 where
  bytes v := leBytes 2 v.toNat
  ofBytes bs := UInt16.ofNat (leNat bs)
  ofBytes_bytes v := by
    have hv : v.toNat < 256 ^ 2 := v.toNat_lt
    rw [leNat_leBytes, Nat.mod_eq_of_lt hv, UInt16.ofNat_toNat]
  length_bytes _ _ := by rw [length_leBytes, length_leBytes]

instance : Pod UInt32 where
  bytes := memBytes
  ofBytes := memWord
  ofBytes_bytes := memWord_memBytes
  length_bytes _ _ := by rw [length_memBytes, length_memBytes]

instance : Pod Int64 where
  bytes v := leBytes 8 v.toUInt64.toNat
  ofBytes bs := (UInt64.ofNat (leNat bs)).toInt64
  ofBytes_bytes v := by
    have hv : v.toUInt64.toNat < 256 ^ 8 := v.toUInt64.toNat_lt
    rw [leNat_leBytes, Nat.mod_eq_of_lt hv, UInt64.ofNat_toNat, Int64.toInt64_toUInt64]
  length_bytes _ _ := by rw [length_leBytes, length_leBytes]

/-! ## Streams -/

/-- A stream: the bytes of its file, its position and whether an operation on it has failed. -/
structure Fstream where
  bytes : List UInt8 := []
  pos : Nat := 0
  failed : Bool := false
deriving DecidableEq, Repr

namespace Fstream

def clear (s : Fstream) : Fstream := { s with failed := false }

def tellp (s : Fstream) : Int := if s.failed then -1 else s.pos

def seekg (s : Fstream) (n : Int) : Fstream :=
  if s.failed then s else if 0 ≤ n then { s with pos := n.toNat } else { s with failed := true }

/-- Writes over what is there. A gap behind the end of the file is filled with zeros. -/
def write (s : Fstream) (bs : List UInt8) : Fstream :=
  if s.failed then s
  else
    { s with
      bytes := s.bytes.take s.pos ++ List.replicate (s.pos - s.bytes.length) 0 ++ bs ++
        s.bytes.drop (s.pos + bs.length)
      pos := s.pos + bs.length }

/-- A read that meets the end of the file fails, and changes only the first bytes of its target. -/
def read (old : List UInt8) : StateM Fstream (List UInt8) := fun s =>
  if s.failed then (old, s)
  else
    let got := (s.bytes.drop s.pos).take old.length
    (got ++ old.drop got.length,
      { s with pos := s.pos + got.length, failed := decide (got.length < old.length) })

/-- Reads a value over an old one. -/
def readPod {α : Type} [Pod α] (old : α) : StateM Fstream α := do
  let bs ← read (Pod.bytes old)
  pure (Pod.ofBytes bs)

/-- Reads the elements of an array one after another. -/
def readList {α : Type} (elem : StateM Fstream α) : Nat → StateM Fstream (List α)
  | 0 => pure []
  | n + 1 => do
      let x ← elem
      let xs ← readList elem n
      pure (x :: xs)

theorem length_readList {α : Type} (elem : StateM Fstream α) (n : Nat) (s : Fstream) :
    (readList elem n s).1.length = n := by
  induction n generalizing s with
  | zero => rfl
  | succ n ih => exact congrArg Nat.succ (ih (elem s).2)

/-- Reads an array of a given length. -/
def readCounted {α : Type} (elem : StateM Fstream α) (n : UInt8) : StateM Fstream (Counted α) :=
  fun s => (⟨n, (readList elem n.toNat s).1, length_readList elem n.toNat s⟩,
    (readList elem n.toNat s).2)

/-- A stream at the end of its file: the place where a write appends. -/
structure AtEof (s : Fstream) : Prop where
  good : s.failed = false
  eof : s.pos = s.bytes.length

theorem write_of_atEof {s : Fstream} (h : s.AtEof) (bs : List UInt8) :
    s.write bs = { bytes := s.bytes ++ bs, pos := s.bytes.length + bs.length, failed := false } := by
  obtain ⟨hgood, heof⟩ := h
  simp [write, hgood, heof]

theorem atEof_write {s : Fstream} (h : s.AtEof) (bs : List UInt8) : (s.write bs).AtEof := by
  rw [write_of_atEof h]
  exact ⟨rfl, by simp⟩

/-- What is written ends at the new position, behind as many bytes as the old position says. -/
theorem take_write {s : Fstream} (h : s.failed = false) (bs : List UInt8) :
    ∃ front, front.length = s.pos ∧ (s.write bs).bytes.take (s.write bs).pos = front ++ bs ∧
      (s.write bs).pos = s.pos + bs.length := by
  have hlen : (s.bytes.take s.pos ++ List.replicate (s.pos - s.bytes.length) 0).length = s.pos := by
    rw [List.length_append, List.length_take, List.length_replicate]
    omega
  refine ⟨_, hlen, ?_, by simp [write, h]⟩
  have hpos : s.pos + bs.length = (s.bytes.take s.pos ++ List.replicate (s.pos - s.bytes.length) 0 ++ bs).length := by
    rw [List.length_append, hlen]
  simp only [write, h, Bool.false_eq_true, ↓reduceIte]
  rw [hpos, List.take_left]

theorem tellp_of_good {s : Fstream} (h : s.failed = false) : s.tellp = s.pos := by
  simp [tellp, h]

end Fstream

/-! ## What a reader makes of the bytes at the position -/

/-- On bytes `bs` the reader returns `a`, and moves the position behind them. -/
def Reads {α : Type} (r : StateM Fstream α) (bs : List UInt8) (a : α) : Prop :=
  ∀ (s : Fstream) (rest : List UInt8), s.failed = false → s.bytes.drop s.pos = bs ++ rest →
    r s = (a, { s with pos := s.pos + bs.length })

namespace Reads

variable {α β : Type}

theorem pure (a : α) : Reads (pure a) [] a := fun _ _ _ _ => rfl

theorem bind {r : StateM Fstream α} {f : α → StateM Fstream β} {bs cs : List UInt8} {a : α} {b : β}
    (hr : Reads r bs a) (hf : Reads (f a) cs b) : Reads (r >>= f) (bs ++ cs) b := by
  intro s rest hgood hdrop
  rw [List.append_assoc] at hdrop
  have hfirst : r s = (a, { s with pos := s.pos + bs.length }) := hr s _ hgood hdrop
  have hsecond := hf { s with pos := s.pos + bs.length } rest hgood (drop_add_of_drop hdrop)
  have hbind : (r >>= f) s = f (r s).1 (r s).2 := rfl
  rw [hbind, hfirst, hsecond, List.length_append, Nat.add_assoc]

theorem map {r : StateM Fstream α} {f : α → β} {bs : List UInt8} {a : α} (hr : Reads r bs a) :
    Reads (r >>= fun x => Pure.pure (f x)) bs (f a) := by
  have h : Reads (r >>= fun x => Pure.pure (f x)) (bs ++ []) (f a) := hr.bind (pure (f a))
  rwa [List.append_nil] at h

theorem read {old bs : List UInt8} (h : old.length = bs.length) : Reads (Fstream.read old) bs bs := by
  intro s rest hgood hdrop
  have hgot : (s.bytes.drop s.pos).take old.length = bs := by rw [hdrop, h, List.take_left]
  have hold : old.drop bs.length = [] := List.drop_of_length_le (Nat.le_of_eq h)
  have hfull : decide (bs.length < old.length) = s.failed := by
    rw [hgood, h]
    simp
  simp only [Fstream.read, hgood, Bool.false_eq_true, ↓reduceIte, hgot, hold, List.append_nil, hfull]

theorem pod [Pod α] (old a : α) : Reads (Fstream.readPod old) (Pod.bytes a) a := by
  have h : Reads (Fstream.readPod old) (Pod.bytes a) (Pod.ofBytes (Pod.bytes a)) :=
    (read (Pod.length_bytes old a)).map
  rwa [Pod.ofBytes_bytes] at h

theorem list {elem : StateM Fstream α} {enc : α → List UInt8} (helem : ∀ a, Reads elem (enc a) a)
    (xs : List α) : Reads (Fstream.readList elem xs.length) (xs.flatMap enc) xs := by
  induction xs with
  | nil => exact pure []
  | cons x xs ih =>
      rw [List.flatMap_cons]
      exact (helem x).bind ih.map

theorem counted {elem : StateM Fstream α} {enc : α → List UInt8} (helem : ∀ a, Reads elem (enc a) a)
    (xs : Counted α) : Reads (Fstream.readCounted elem xs.length) (xs.elems.flatMap enc) xs := by
  intro s rest hgood hdrop
  have h := list helem xs.elems s rest hgood hdrop
  rw [xs.sized] at h
  unfold Fstream.readCounted
  rw [Prod.mk.injEq]
  exact ⟨Counted.ext_elems (congrArg Prod.fst h), congrArg Prod.snd h⟩

end Reads

/-! ## How far a reader gets -/

/-- The reader takes as many bytes as their number says, which may depend on what is there, or fails where
there are not so many. It never changes the file, and a failed stream not at all. -/
structure Takes {α : Type} (r : StateM Fstream α) (size : List UInt8 → Nat) : Prop where
  stuck : ∀ s : Fstream, s.failed = true → (r s).2 = s
  bytes : ∀ s : Fstream, (r s).2.bytes = s.bytes
  full : ∀ s : Fstream, s.failed = false → size (s.bytes.drop s.pos) ≤ (s.bytes.drop s.pos).length →
    (r s).2 = { s with pos := s.pos + size (s.bytes.drop s.pos) }
  short : ∀ s : Fstream, s.failed = false → (s.bytes.drop s.pos).length < size (s.bytes.drop s.pos) →
    (r s).2.failed = true

namespace Takes

variable {α β : Type}

theorem pure (a : α) : Takes (pure a) fun _ => 0 where
  stuck _ _ := rfl
  bytes _ := rfl
  full _ _ _ := rfl
  short _ _ h := absurd h (Nat.not_lt_zero _)

theorem read (old : List UInt8) : Takes (Fstream.read old) fun _ => old.length where
  stuck s h := by simp [Fstream.read, h]
  bytes s := by
    unfold Fstream.read
    split
    · rfl
    · rfl
  full s h hlen := by
    have hgot : ((s.bytes.drop s.pos).take old.length).length = old.length := List.length_take_of_le hlen
    simp only [Fstream.read, h, Bool.false_eq_true, ↓reduceIte, hgot, Nat.lt_irrefl, decide_false]
  short s h hlen := by
    have hgot : ((s.bytes.drop s.pos).take old.length).length = (s.bytes.drop s.pos).length := by
      rw [List.take_of_length_le (Nat.le_of_lt hlen)]
    simp only [Fstream.read, h, Bool.false_eq_true, ↓reduceIte, hgot, hlen, decide_true]

/-- One reader behind another. How much the second one takes may depend on what the first one finds. -/
theorem bind {r : StateM Fstream α} {f : α → StateM Fstream β} {m : Nat} {n : α → List UInt8 → Nat}
    {k : List UInt8 → Nat} (hr : Takes r fun _ => m) (hf : ∀ a, Takes (f a) (n a))
    (hk : ∀ s : Fstream, s.failed = false → m ≤ (s.bytes.drop s.pos).length →
      n (r s).1 ((s.bytes.drop s.pos).drop m) = k (s.bytes.drop s.pos)) :
    Takes (r >>= f) fun bs => m + k bs where
  stuck s h := by
    have hfirst := hr.stuck s h
    have hsecond := (hf (r s).1).stuck (r s).2 (by rw [hfirst]; exact h)
    exact hsecond.trans hfirst
  bytes s := ((hf (r s).1).bytes (r s).2).trans (hr.bytes s)
  full s h hlen := by
    have hm : m ≤ (s.bytes.drop s.pos).length := by omega
    have hfirst := hr.full s h hm
    have hsecond := (hf (r s).1).full (r s).2 (by rw [hfirst]; exact h)
    have hbind : (r >>= f) s = f (r s).1 (r s).2 := rfl
    have hsize := hk s h hm
    rw [List.drop_drop] at hsize
    rw [hfirst] at hsecond
    dsimp only at hsecond
    rw [hsize, List.length_drop] at hsecond
    rw [List.length_drop] at hlen hm
    rw [hbind, hfirst, hsecond (by omega), Nat.add_assoc]
  short s h hlen := by
    have hbind : (r >>= f) s = f (r s).1 (r s).2 := rfl
    rw [hbind]
    by_cases hm : m ≤ (s.bytes.drop s.pos).length
    · have hfirst := hr.full s h hm
      have hsecond := (hf (r s).1).short (r s).2 (by rw [hfirst]; exact h)
      have hsize := hk s h hm
      rw [List.drop_drop] at hsize
      rw [hfirst] at hsecond
      dsimp only at hsecond
      rw [hsize, List.length_drop] at hsecond
      rw [List.length_drop] at hlen hm
      rw [hfirst]
      exact hsecond (by omega)
    · have hfailed := hr.short s h (by omega)
      rw [(hf (r s).1).stuck _ hfailed]
      exact hfailed

theorem map {r : StateM Fstream α} {size : List UInt8 → Nat} (hr : Takes r size) (f : α → β) :
    Takes (r >>= fun x => Pure.pure (f x)) size := ⟨hr.stuck, hr.bytes, hr.full, hr.short⟩

theorem pod [Pod α] (old : α) : Takes (Fstream.readPod old) fun _ => (Pod.bytes old).length :=
  (read (Pod.bytes old)).map _

theorem list {elem : StateM Fstream α} {m : Nat} (helem : Takes elem fun _ => m) (n : Nat) :
    Takes (Fstream.readList elem n) fun _ => m * n := by
  induction n with
  | zero => exact pure []
  | succ n ih =>
      have h := helem.bind (n := fun _ _ => m * n) (k := fun _ => m * n) (fun x => ih.map (x :: ·)) fun _ _ _ => rfl
      rw [Nat.mul_succ, Nat.add_comm (m * n)]
      exact h

theorem counted {elem : StateM Fstream α} {m : Nat} (helem : Takes elem fun _ => m) (n : UInt8) :
    Takes (Fstream.readCounted elem n) fun _ => m * n.toNat :=
  have h := list helem n.toNat
  ⟨h.stuck, h.bytes, h.full, h.short⟩

end Takes

end Log2Bgp.Lib
