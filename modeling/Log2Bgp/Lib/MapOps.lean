import Log2Bgp.Lib.TreeMap

/-!
# Sequences of changes to a map

What a map holds after a sequence of changes is decided, key by key, by the last change of the key.
-/

namespace Log2Bgp.Lib

open Std (ExtTreeMap TransCmp LawfulEqCmp)

/-- A change of a map at one key. -/
inductive MapOp (α β : Type) where
  | put (key : α) (value : β)
  | del (key : α)
deriving DecidableEq, Repr

namespace MapOp

variable {α β : Type}

def key : MapOp α β → α
  | put k _ => k
  | del k => k

/-- What the map holds at the key afterwards. -/
def result : MapOp α β → Option β
  | put _ v => some v
  | del _ => none

def isPut : MapOp α β → Bool
  | put _ _ => true
  | del _ => false

end MapOp

section Ops

variable {α β : Type} [DecidableEq α]

/-- The changes of one key, in order. -/
def opsOn (k : α) (ops : List (MapOp α β)) : List (MapOp α β) := ops.filter (·.key = k)

/-- The last change of a key. -/
def lastOn (k : α) (ops : List (MapOp α β)) : Option (MapOp α β) := (opsOn k ops).getLast?

theorem opsOn_append (k : α) (xs ys : List (MapOp α β)) :
    opsOn k (xs ++ ys) = opsOn k xs ++ opsOn k ys := List.filter_append ..

theorem lastOn_append (k : α) (xs ys : List (MapOp α β)) :
    lastOn k (xs ++ ys) = (lastOn k ys).or (lastOn k xs) := by
  rw [lastOn, opsOn_append, List.getLast?_append]
  rfl

theorem lastOn_eq_none {k : α} {ops : List (MapOp α β)} : lastOn k ops = none ↔ opsOn k ops = [] :=
  List.getLast?_eq_none_iff

section Apply

variable {cmp : α → α → Ordering} [TransCmp cmp] [LawfulEqCmp cmp]

def MapOp.apply (op : MapOp α β) (m : ExtTreeMap α β cmp) : ExtTreeMap α β cmp :=
  match op with
  | put k v => m.insert k v
  | del k => m.erase k

/-- Makes changes one by one. -/
def applyOps (ops : List (MapOp α β)) (m : ExtTreeMap α β cmp) : ExtTreeMap α β cmp :=
  ops.foldl (fun m op => op.apply m) m

theorem lookup_apply (op : MapOp α β) (m : ExtTreeMap α β cmp) (k : α) :
    (op.apply m)[k]? = if k = op.key then op.result else m[k]? := by
  cases op with
  | put k' v => exact lookup_insert m k' k v
  | del k' => exact lookup_erase m k' k

omit [DecidableEq α] [LawfulEqCmp cmp] in
theorem applyOps_append (xs ys : List (MapOp α β)) (m : ExtTreeMap α β cmp) :
    applyOps (xs ++ ys) m = applyOps ys (applyOps xs m) := List.foldl_append

/-- The last change of a key decides what the map holds there. -/
theorem lookup_applyOps (ops : List (MapOp α β)) (m : ExtTreeMap α β cmp) (k : α) :
    (applyOps ops m)[k]? = ((lastOn k ops).map MapOp.result).getD m[k]? := by
  induction ops generalizing m with
  | nil => rfl
  | cons op ops ih =>
      have hstep : applyOps (op :: ops) m = applyOps ops (op.apply m) := rfl
      have hlast : lastOn k (op :: ops) = (lastOn k ops).or (lastOn k [op]) := lastOn_append k [op] ops
      rw [hstep, ih, hlast, lookup_apply]
      cases lastOn k ops with
      | some op' => rfl
      | none =>
          by_cases hk : k = op.key
          · subst hk
            simp [lastOn, opsOn]
          · simp [lastOn, opsOn, hk, Ne.symm hk]

/-- Changes that end alike on every key lead to the same map. -/
theorem applyOps_congr {xs ys : List (MapOp α β)} (m : ExtTreeMap α β cmp)
    (h : ∀ k, (lastOn k xs).map MapOp.result = (lastOn k ys).map MapOp.result) :
    applyOps xs m = applyOps ys m := by
  apply ExtTreeMap.ext_getElem?
  intro k
  rw [lookup_applyOps, lookup_applyOps, h]

end Apply

/-! ## Changes in batches, each of which puts before it deletes -/

/-- The same changes with the puts in front of the deletions. -/
def putsFirst (ops : List (MapOp α β)) : List (MapOp α β) :=
  ops.filter MapOp.isPut ++ ops.filter (!·.isPut)

/-- A batch in which a key is deleted and then put again. -/
def Reversed (k : α) (ops : List (MapOp α β)) : Prop :=
  MapOp.del k ∈ ops ∧ ∃ v, lastOn k ops = some (.put k v)

theorem mem_opsOn {k : α} {op : MapOp α β} {ops : List (MapOp α β)} :
    op ∈ opsOn k ops ↔ op ∈ ops ∧ op.key = k := by
  simp [opsOn]

theorem key_of_lastOn {k : α} {op : MapOp α β} {ops : List (MapOp α β)} (h : lastOn k ops = some op) :
    op.key = k := (mem_opsOn.mp (List.mem_of_getLast? h)).2

theorem opsOn_filter (k : α) (f : MapOp α β → Bool) (ops : List (MapOp α β)) :
    opsOn k (ops.filter f) = (opsOn k ops).filter f := by
  simp only [opsOn, List.filter_filter, Bool.and_comm]

theorem opsOn_putsFirst (k : α) (ops : List (MapOp α β)) :
    opsOn k (putsFirst ops) = putsFirst (opsOn k ops) := by
  rw [putsFirst, opsOn_append, opsOn_filter, opsOn_filter]
  rfl

theorem opsOn_putsFirst_eq_nil {k : α} {ops : List (MapOp α β)} :
    opsOn k (putsFirst ops) = [] ↔ opsOn k ops = [] := by
  rw [opsOn_putsFirst, putsFirst, List.append_eq_nil_iff, List.filter_eq_nil_iff,
    List.filter_eq_nil_iff, List.eq_nil_iff_forall_not_mem]
  constructor
  · rintro ⟨hput, hdel⟩ op hop
    cases h : op.isPut with
    | true => exact hput op hop h
    | false => exact hdel op hop (by rw [h]; rfl)
  · intro h
    exact ⟨fun op hop => absurd hop (h op), fun op hop => absurd hop (h op)⟩

/-- A deletion in the batch wins. -/
theorem lastOn_putsFirst_of_del {k : α} {ops : List (MapOp α β)} (hdel : MapOp.del k ∈ ops) :
    lastOn k (putsFirst ops) = some (.del k) := by
  have hmem : MapOp.del k ∈ (opsOn k ops).filter (!·.isPut) :=
    List.mem_filter.mpr ⟨mem_opsOn.mpr ⟨hdel, rfl⟩, rfl⟩
  rw [lastOn, opsOn_putsFirst, putsFirst, List.getLast?_append]
  cases hlast : ((opsOn k ops).filter (!·.isPut)).getLast? with
  | none =>
      rw [List.getLast?_eq_none_iff.mp hlast] at hmem
      cases hmem
  | some op =>
      obtain ⟨hop, hnot⟩ := List.mem_filter.mp (List.mem_of_getLast? hlast)
      have hkey := (mem_opsOn.mp hop).2
      cases op with
      | put k' v => cases hnot
      | del k' =>
          cases hkey
          rfl

theorem lastOn_putsFirst_of_not_del {k : α} {ops : List (MapOp α β)} (hdel : MapOp.del k ∉ ops) :
    lastOn k (putsFirst ops) = lastOn k ops := by
  have hput : ∀ op ∈ opsOn k ops, op.isPut = true := by
    intro op hop
    obtain ⟨hmem, hkey⟩ := mem_opsOn.mp hop
    cases op with
    | put k' v => rfl
    | del k' =>
        cases hkey
        exact absurd hmem hdel
  have hall : (opsOn k ops).filter MapOp.isPut = opsOn k ops := List.filter_eq_self.mpr hput
  have hnone : (opsOn k ops).filter (!·.isPut) = [] := by
    rw [List.filter_eq_nil_iff]
    intro op hop
    rw [hput op hop]
    exact Bool.false_ne_true
  rw [lastOn, opsOn_putsFirst, putsFirst, hall, hnone, List.append_nil]
  rfl

/-- Putting first changes the outcome on a key exactly where a put is to follow a deletion. -/
theorem result_putsFirst_iff (k : α) (ops : List (MapOp α β)) :
    (lastOn k (putsFirst ops)).map MapOp.result = (lastOn k ops).map MapOp.result ↔
      ¬ Reversed k ops := by
  by_cases hdel : MapOp.del k ∈ ops
  · rw [lastOn_putsFirst_of_del hdel]
    cases hlast : lastOn k ops with
    | none =>
        have hmem : MapOp.del k ∈ opsOn k ops := mem_opsOn.mpr ⟨hdel, rfl⟩
        rw [lastOn_eq_none.mp hlast] at hmem
        cases hmem
    | some op =>
        have hkey := key_of_lastOn hlast
        cases op with
        | put k' v =>
            cases hkey
            simp only [Option.map_some, MapOp.result, Option.some.injEq, reduceCtorEq, false_iff,
              not_not]
            exact ⟨hdel, v, hlast⟩
        | del k' =>
            simp only [Option.map_some, MapOp.result, true_iff]
            rintro ⟨_, v, hv⟩
            rw [hlast] at hv
            cases hv
  · rw [lastOn_putsFirst_of_not_del hdel]
    exact iff_of_true rfl fun h => hdel h.1

/-- The last batch that changes a key deletes it and then puts it again. -/
def ReversedLast (k : α) : List (List (MapOp α β)) → Prop
  | [] => False
  | batch :: rest => ReversedLast k rest ∨ opsOn k rest.flatten = [] ∧ Reversed k batch

theorem opsOn_ne_nil_of_reversedLast {k : α} {batches : List (List (MapOp α β))}
    (h : ReversedLast k batches) : opsOn k batches.flatten ≠ [] := by
  induction batches with
  | nil => cases h
  | cons batch rest ih =>
      rw [List.flatten_cons, opsOn_append]
      intro hnil
      obtain ⟨hbatch, hrest⟩ := List.append_eq_nil_iff.mp hnil
      rcases h with h | ⟨_, hdel, _⟩
      · exact ih h hrest
      · have hmem : MapOp.del k ∈ opsOn k batch := mem_opsOn.mpr ⟨hdel, rfl⟩
        rw [hbatch] at hmem
        cases hmem

theorem opsOn_batches_eq_nil {k : α} {batches : List (List (MapOp α β))} :
    opsOn k (batches.flatMap putsFirst) = [] ↔ opsOn k batches.flatten = [] := by
  induction batches with
  | nil => exact Iff.rfl
  | cons batch rest ih =>
      rw [List.flatMap_cons, List.flatten_cons, opsOn_append, opsOn_append, List.append_eq_nil_iff,
        List.append_eq_nil_iff, opsOn_putsFirst_eq_nil, ih]

/-- Batches that put first have the same outcome on a key exactly when its last batch is not reversed. -/
theorem result_batches_iff (k : α) (batches : List (List (MapOp α β))) :
    (lastOn k (batches.flatMap putsFirst)).map MapOp.result =
        (lastOn k batches.flatten).map MapOp.result ↔ ¬ ReversedLast k batches := by
  induction batches with
  | nil => simp [ReversedLast, lastOn, opsOn]
  | cons batch rest ih =>
      rw [List.flatMap_cons, List.flatten_cons, lastOn_append, lastOn_append]
      by_cases hrest : opsOn k rest.flatten = []
      · have hnone := lastOn_eq_none.mpr hrest
        have hnone' := lastOn_eq_none.mpr (opsOn_batches_eq_nil.mpr hrest)
        have hnot : ¬ ReversedLast k rest := fun h => opsOn_ne_nil_of_reversedLast h hrest
        rw [hnone, hnone', Option.none_or, Option.none_or, result_putsFirst_iff]
        simp only [ReversedLast, hnot, hrest, true_and, false_or]
      · obtain ⟨op, hop⟩ := Option.ne_none_iff_exists'.mp (mt lastOn_eq_none.mp hrest)
        obtain ⟨op', hop'⟩ := Option.ne_none_iff_exists'.mp
          (mt lastOn_eq_none.mp (mt opsOn_batches_eq_nil.mp hrest))
        rw [hop, hop', Option.some_or, Option.some_or]
        rw [hop, hop'] at ih
        simp only [ReversedLast, hrest, false_and, or_false]
        exact ih

theorem applyOps_batches_iff {cmp : α → α → Ordering} [TransCmp cmp] [LawfulEqCmp cmp]
    (batches : List (List (MapOp α β))) (m : ExtTreeMap α β cmp) :
    applyOps (batches.flatMap putsFirst) m = applyOps batches.flatten m ↔
      ∀ k, ¬ ReversedLast k batches := by
  constructor
  · intro heq k
    rw [← result_batches_iff]
    have hk := congrArg (·[k]?) heq
    simp only [lookup_applyOps] at hk
    by_cases hnil : opsOn k batches.flatten = []
    · rw [lastOn_eq_none.mpr hnil, lastOn_eq_none.mpr (opsOn_batches_eq_nil.mpr hnil)]
    · obtain ⟨op, hop⟩ := Option.ne_none_iff_exists'.mp (mt lastOn_eq_none.mp hnil)
      obtain ⟨op', hop'⟩ := Option.ne_none_iff_exists'.mp
        (mt lastOn_eq_none.mp (mt opsOn_batches_eq_nil.mp hnil))
      rw [hop, hop'] at hk ⊢
      exact congrArg some hk
  · intro h
    exact applyOps_congr m fun k => (result_batches_iff k batches).mpr (h k)

end Ops

end Log2Bgp.Lib
