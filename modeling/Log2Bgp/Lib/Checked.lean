import Mathlib.Tactic.Common

/-!
# Checked memory access

A computation over allocated memory that stops at its first access outside the bounds: a read,
a copy, a write or a shift that the language leaves undefined.
-/

namespace Log2Bgp.Lib

/-- The access a computation stopped at. -/
inductive Fault where
  | read (index : Nat)
  | copy (count : Int) (size : Nat)
  | write (index size : Nat)
  | lookup (index : Nat)
  | request (count : Int) (size : Nat)
  | shift (amount : Int)
  | null
  | loop
deriving DecidableEq, Repr

/-- A computation that may stop at a fault. -/
abbrev Checked (α : Type) := Except Fault α

/-- The computation ends without a fault. -/
def Safe {α : Type} (x : Checked α) : Prop := ∃ a, x = .ok a

namespace Checked

variable {ε α β : Type}

@[simp] theorem ok_bind (a : α) (f : α → Except ε β) : (Except.ok a >>= f) = f a := rfl

@[simp] theorem error_bind (e : ε) (f : α → Except ε β) : (Except.error e >>= f) = .error e := rfl

@[simp] theorem pure_eq_ok (a : α) : (pure a : Except ε α) = .ok a := rfl

theorem bind_eq_ok {x : Except ε α} {f : α → Except ε β} {b : β} :
    x >>= f = .ok b ↔ ∃ a, x = .ok a ∧ f a = .ok b := by
  cases x <;> simp

theorem toOption_eq_some {x : Checked α} {a : α} : x.toOption = some a ↔ x = .ok a := by
  cases x with
  | error e => simp [Except.toOption]
  | ok b => simp [Except.toOption]

end Checked

section Safe

variable {α β : Type}

@[simp] theorem safe_ok (a : α) : Safe (.ok a : Checked α) := ⟨a, rfl⟩

@[simp] theorem not_safe_error (e : Fault) : ¬ Safe (.error e : Checked α) := by
  rintro ⟨a, h⟩
  cases h

instance (x : Checked α) : Decidable (Safe x) :=
  match x with
  | .ok a => isTrue (safe_ok a)
  | .error e => isFalse (not_safe_error e)

/-- What holds of the result, if there is one. -/
instance (x : Checked α) (p : α → Prop) [DecidablePred p] : Decidable (∀ a, x = .ok a → p a) :=
  match x with
  | .ok a => decidable_of_iff (p a) ⟨fun h _ hb => by cases hb; exact h, fun h => h a rfl⟩
  | .error _ => isTrue fun _ h => by cases h

theorem safe_bind {x : Checked α} {f : α → Checked β} :
    Safe (x >>= f) ↔ ∃ a, x = .ok a ∧ Safe (f a) := by
  cases x <;> simp

/-- The case of a continuation whose safety does not depend on what it is given. -/
theorem safe_bind_iff {x : Checked α} {f : α → Checked β} {p : Prop}
    (h : ∀ a, Safe (f a) ↔ p) : Safe (x >>= f) ↔ Safe x ∧ p := by
  cases x with
  | error e => simp
  | ok a => simp [h a]

theorem safe_bind_pure {x : Checked α} (f : α → β) :
    Safe (x >>= fun a => (pure (f a) : Checked β)) ↔ Safe x := by
  cases x <;> simp

theorem safe_ite {c : Prop} [Decidable c] {e : Fault} {x : Checked α} :
    Safe (if c then x else .error e) ↔ c ∧ Safe x := by
  split <;> simp_all

theorem Safe.of_eq {x : Checked α} {a : α} (h : x = .ok a) : Safe x := ⟨a, h⟩

end Safe

/-! ## Reads and copies -/

/-- The byte at an index of the allocated bytes. -/
def readByte (bytes : List UInt8) (i : Nat) : Checked UInt8 :=
  match bytes[i]? with
  | some b => .ok b
  | none => .error (.read i)

theorem readByte_eq_ok {bytes : List UInt8} {i : Nat} {b : UInt8} :
    readByte bytes i = .ok b ↔ bytes[i]? = some b := by
  unfold readByte
  cases bytes[i]? <;> simp

theorem safe_readByte {bytes : List UInt8} {i : Nat} :
    Safe (readByte bytes i) ↔ i < bytes.length := by
  simp only [Safe, readByte_eq_ok, List.getElem?_eq_some_iff]
  exact ⟨fun ⟨_, h, _⟩ => h, fun h => ⟨_, h, rfl⟩⟩

theorem readByte_of_drop {bytes : List UInt8} {n k : Nat} {b : UInt8}
    (h : (bytes.drop n)[k]? = some b) : readByte bytes (n + k) = .ok b := by
  rw [readByte_eq_ok, ← List.getElem?_drop]
  exact h

theorem drop_add_of_drop {α : Type} {bytes xs rest : List α} {n : Nat}
    (h : bytes.drop n = xs ++ rest) : bytes.drop (n + xs.length) = rest := by
  rw [← List.drop_drop, h, List.drop_left]

/-- `memcpy` of `count` bytes from an index of the allocated bytes into a field of `size` bytes. -/
def copyBytes (bytes : List UInt8) (src : Nat) (count : Int) (size : Nat) : Checked (List UInt8) :=
  if 0 ≤ count ∧ count ≤ size then
    if src + count.toNat ≤ bytes.length then .ok ((bytes.drop src).take count.toNat)
    else .error (.read bytes.length)
  else .error (.copy count size)

theorem safe_copyBytes {bytes : List UInt8} {src size : Nat} {count : Int} :
    Safe (copyBytes bytes src count size) ↔
      (0 ≤ count ∧ count ≤ size) ∧ src + count.toNat ≤ bytes.length := by
  simp only [copyBytes, safe_ite, safe_ok, and_true]

theorem copyBytes_of_drop {bytes xs rest : List UInt8} {src size : Nat}
    (h : bytes.drop src = xs ++ rest) (hpos : 0 < xs.length) (hsize : xs.length ≤ size) :
    copyBytes bytes src xs.length size = .ok xs := by
  have hlen := congrArg List.length h
  simp only [List.length_drop, List.length_append] at hlen
  rw [copyBytes, if_pos ⟨by omega, by omega⟩, if_pos (by omega), h]
  simp

/-! ## Lists -/

section MapM

variable {ε α β : Type} {f : α → Except ε β}

theorem mapM_eq_ok {xs : List α} {ys : List β} :
    xs.mapM f = .ok ys ↔ List.Forall₂ (fun x y => f x = .ok y) xs ys := by
  induction xs generalizing ys with
  | nil =>
      rw [List.mapM_nil]
      constructor
      · intro h
        cases h
        exact .nil
      · intro h
        cases h
        rfl
  | cons x xs ih =>
      simp only [List.mapM_cons, Checked.bind_eq_ok]
      constructor
      · rintro ⟨y, hy, ys', hys, h⟩
        cases h
        exact .cons hy (ih.mp hys)
      · intro h
        cases h with
        | cons hy hys => exact ⟨_, hy, _, ih.mpr hys, rfl⟩

theorem mapM_eq_map {g : α → β} {xs : List α} (h : ∀ x ∈ xs, f x = .ok (g x)) : xs.mapM f = .ok (xs.map g) := by
  rw [mapM_eq_ok]
  induction xs with
  | nil => exact .nil
  | cons x xs ih =>
      obtain ⟨hx, hxs⟩ := List.forall_mem_cons.mp h
      exact .cons hx (ih hxs)

theorem safe_mapM {f : α → Checked β} {xs : List α} : Safe (xs.mapM f) ↔ ∀ x ∈ xs, Safe (f x) := by
  induction xs with
  | nil => simp
  | cons x xs ih =>
      rw [List.mapM_cons, List.forall_mem_cons, ← ih]
      exact safe_bind_iff fun y => by rw [safe_bind_iff (p := True) (by simp), and_true]

end MapM

/-! ## Arrays with a one-byte length -/

/-- An array that is stored together with its length in one byte. -/
structure Counted (α : Type) where
  length : UInt8
  elems : List α
  sized : elems.length = length.toNat
deriving DecidableEq, Repr

namespace Counted

variable {α : Type}

/-- The array of no elements. -/
def empty : Counted α := ⟨0, [], rfl⟩

def map {β : Type} (f : α → β) (a : Counted α) : Counted β :=
  ⟨a.length, a.elems.map f, by rw [List.length_map, a.sized]⟩

theorem ext_elems {a b : Counted α} (h : a.elems = b.elems) : a = b := by
  obtain ⟨n, xs, hx⟩ := a
  obtain ⟨m, ys, hy⟩ := b
  simp only at h
  subst h
  have hnm : n = m := UInt8.toNat_inj.mp (hx ▸ hy)
  subst hnm
  rfl

end Counted

/-! ## Filling an allocated array -/

section Fill

variable {α : Type} (width : Nat) (elem : Nat → Checked α)

/-- Assignment to an element of an allocated array. -/
def writeAt (xs : List α) (i : Nat) (v : α) : Checked (List α) :=
  if i < xs.length then .ok (xs.set i v) else .error (.write i xs.length)

/-- Assigns `n` elements from index `i` on. Each is read at the offset, which advances by `width`. -/
def fillLoop : (n i offset : Nat) → List α → Checked (List α)
  | 0, _, _, xs => .ok xs
  | n + 1, i, offset, xs => do
      let v ← elem offset
      let xs ← writeAt xs i v
      fillLoop n (i + 1) (offset + width) xs

/-- The `n` elements read from an offset on. -/
def readElems : (n offset : Nat) → Checked (List α)
  | 0, _ => .ok []
  | n + 1, offset => do
      let v ← elem offset
      let vs ← readElems n (offset + width)
      pure (v :: vs)

variable {width elem}

theorem readElems_length {n offset : Nat} {vs : List α} (h : readElems width elem n offset = .ok vs) :
    vs.length = n := by
  induction n generalizing offset vs with
  | zero => cases h; rfl
  | succ n ih =>
      simp only [readElems, Checked.bind_eq_ok, Checked.pure_eq_ok, Except.ok.injEq] at h
      obtain ⟨v, _, ws, hws, rfl⟩ := h
      simp [ih hws]

theorem readElems_of_drop {β : Type} {bytes rest : List UInt8} {enc : β → List UInt8} {f : β → α}
    (hwidth : ∀ x, (enc x).length = width)
    (helem : ∀ x o t, bytes.drop (o + 1) = enc x ++ t → elem o = .ok (f x))
    (xs : List β) (offset : Nat) (h : bytes.drop (offset + 1) = xs.flatMap enc ++ rest) :
    readElems width elem xs.length offset = .ok (xs.map f) := by
  induction xs generalizing offset with
  | nil => rfl
  | cons x xs ih =>
      rw [List.flatMap_cons, List.append_assoc] at h
      have hnext : bytes.drop (offset + width + 1) = xs.flatMap enc ++ rest := by
        rw [← hwidth x, Nat.add_right_comm]
        exact drop_add_of_drop h
      simp only [List.length_cons, readElems, helem x offset _ h, Checked.ok_bind, ih _ hnext,
        Checked.pure_eq_ok, List.map_cons]

/-- Elements of `width` bytes, read behind an offset, are in reach when the last of them is. -/
theorem safe_readElems {limit : Nat} (helem : ∀ o, Safe (elem o) ↔ o + width < limit)
    (n offset : Nat) :
    Safe (readElems width elem n offset) ↔ n = 0 ∨ offset + width * n < limit := by
  induction n generalizing offset with
  | zero => simp [readElems]
  | succ n ih =>
      have hstep : Safe (readElems width elem (n + 1) offset) ↔
          Safe (elem offset) ∧ Safe (readElems width elem n (offset + width)) := by
        refine safe_bind_iff fun v => ?_
        simpa using safe_bind_iff (x := readElems width elem n (offset + width))
          (f := fun vs => Except.ok (v :: vs)) (p := True) (by simp)
      rw [hstep, helem, ih, Nat.mul_succ]
      by_cases hn : n = 0
      · simp [hn]
      · simp only [hn, false_or, Nat.add_eq_zero_iff, Nat.one_ne_zero, and_false]
        have : 0 ≤ width * n := Nat.zero_le _
        constructor <;> intro h <;> omega

/-- Filling the tail of an array that is long enough never writes outside it. -/
theorem fillLoop_eq (n i offset : Nat) (xs : List α) (hlen : xs.length = i + n) :
    fillLoop width elem n i offset xs =
      (readElems width elem n offset).map (fun vs => xs.take i ++ vs) := by
  induction n generalizing i offset xs with
  | zero =>
      have htake : xs.take i = xs := List.take_of_length_le (Nat.le_of_eq hlen)
      simp [fillLoop, readElems, Except.map, htake]
  | succ n ih =>
      simp only [fillLoop, readElems]
      cases elem offset with
      | error e => rfl
      | ok v =>
          have hw : writeAt xs i v = .ok (xs.set i v) := if_pos (by omega)
          simp only [Checked.ok_bind, hw, ih (i + 1) (offset + width) (xs.set i v) (by simp; omega)]
          have htake : (xs.set i v).take (i + 1) = xs.take i ++ [v] := by
            rw [List.take_add_one, List.take_set_of_le (Nat.le_refl i)]
            simp [show i < xs.length by omega]
          cases readElems width elem n (offset + width) with
          | error e => rfl
          | ok vs => simp [Except.map, htake]

/-- Allocates an array and fills it from an offset on. -/
def fillArray [Inhabited α] (width : Nat) (elem : Nat → Checked α) (n : UInt8) (offset : Nat) :
    Checked (Counted α) :=
  match h : fillLoop width elem n.toNat 0 offset (List.replicate n.toNat default) with
  | .error e => .error e
  | .ok xs => .ok ⟨n, xs, by
      rw [fillLoop_eq _ _ _ _ (by simp)] at h
      cases hr : readElems width elem n.toNat offset with
      | error e => rw [hr] at h; cases h
      | ok vs =>
          rw [hr] at h
          cases h
          simpa using readElems_length hr⟩

theorem fillArray_of_readElems [Inhabited α] {n : UInt8} {offset : Nat} {xs : Counted α}
    (h : readElems width elem n.toNat offset = .ok xs.elems) :
    fillArray width elem n offset = .ok xs := by
  have hf : fillLoop width elem n.toNat 0 offset (List.replicate n.toNat default) =
      .ok xs.elems := by
    rw [fillLoop_eq _ _ _ _ (by simp), h]
    simp [Except.map]
  unfold fillArray
  split
  · rename_i e he
    rw [hf] at he
    cases he
  · rename_i ys hy
    rw [hf] at hy
    cases hy
    exact congrArg Except.ok (Counted.ext_elems rfl)

theorem fillArray_length [Inhabited α] {n : UInt8} {offset : Nat} {xs : Counted α}
    (h : fillArray width elem n offset = .ok xs) : xs.length = n := by
  unfold fillArray at h
  split at h
  · cases h
  · cases h
    rfl

theorem safe_fillArray [Inhabited α] {n : UInt8} {offset : Nat} :
    Safe (fillArray width elem n offset) ↔ Safe (readElems width elem n.toNat offset) := by
  constructor
  · intro h
    cases hr : readElems width elem n.toNat offset with
    | ok vs => exact safe_ok vs
    | error e =>
        obtain ⟨a, ha⟩ := h
        unfold fillArray at ha
        split at ha
        · cases ha
        · rename_i xs hx
          rw [fillLoop_eq _ _ _ _ (by simp), hr] at hx
          cases hx
  · rintro ⟨vs, hvs⟩
    let xs : Counted α := ⟨n, vs, readElems_length hvs⟩
    have hxs : readElems width elem n.toNat offset = .ok xs.elems := hvs
    exact .of_eq (fillArray_of_readElems hxs)

end Fill

end Log2Bgp.Lib
