import Log2Bgp.Lib.MapOps

/-!
# Overwritten values

The values that changes of a map put at a key and later changes put another one over.
-/

namespace Log2Bgp.Lib

open Std (ExtTreeMap TransCmp LawfulEqCmp)

section Overwrites

variable {α β : Type}

/-- The values of puts that another put comes right behind, oldest first. -/
def overwrites : List (MapOp α β) → List β
  | .put _ v :: .put k w :: ops => v :: overwrites (.put k w :: ops)
  | .put _ _ :: .del k :: ops => overwrites (.del k :: ops)
  | .del _ :: ops => overwrites ops
  | [.put _ _] => []
  | [] => []

/-- What a change overwrites behind another one. -/
def overwritten : Option (MapOp α β) → MapOp α β → List β
  | some (.put _ v), .put _ _ => [v]
  | _, _ => []

theorem overwrites_snoc (ops : List (MapOp α β)) (op : MapOp α β) :
    overwrites (ops ++ [op]) = overwrites ops ++ overwritten ops.getLast? op := by
  induction ops using overwrites.induct with
  | case1 k v k' w ops ih =>
      simp only [List.cons_append, overwrites, List.getLast?_cons_cons] at ih ⊢
      rw [ih]
  | case2 k v k' ops ih =>
      simp only [List.cons_append, overwrites, List.getLast?_cons_cons] at ih ⊢
      rw [ih]
  | case3 k ops ih =>
      simp only [List.cons_append, overwrites]
      rw [ih]
      cases ops with
      | nil => cases op <;> rfl
      | cons _ _ => rw [List.getLast?_cons_cons]
  | case4 k v => cases op <;> rfl
  | case5 => cases op <;> rfl

variable [DecidableEq α]

/-- The values that were overwritten at a key, oldest first. -/
def overwritesOn (k : α) (ops : List (MapOp α β)) : List β := overwrites (opsOn k ops)

theorem overwritesOn_snoc (k : α) (ops : List (MapOp α β)) (op : MapOp α β) :
    overwritesOn k (ops ++ [op]) =
      overwritesOn k ops ++ if op.key = k then overwritten (lastOn k ops) op else [] := by
  rw [overwritesOn, opsOn_append]
  by_cases hk : op.key = k
  · have hone : opsOn k [op] = [op] := by simp [opsOn, hk]
    rw [hone, if_pos hk, overwrites_snoc]
    rfl
  · have hnone : opsOn k [op] = [] := by simp [opsOn, hk]
    rw [hnone, if_neg hk, List.append_nil, List.append_nil, overwritesOn]

/-- A put overwrites what the map holds at its key. -/
theorem overwritesOn_put (cmp : α → α → Ordering) [TransCmp cmp] [LawfulEqCmp cmp] (ops : List (MapOp α β)) (k k' : α) (v : β) :
    overwritesOn k (ops ++ [.put k' v]) =
      overwritesOn k ops ++ if k = k' then ((applyOps ops (∅ : ExtTreeMap α β cmp))[k]?).toList else [] := by
  rw [overwritesOn_snoc]
  by_cases hk : k = k'
  · subst hk
    rw [if_pos rfl, lookup_applyOps, ExtTreeMap.getElem?_empty]
    simp only [MapOp.key, ↓reduceIte]
    cases lastOn k ops with
    | none => rfl
    | some op => cases op <;> rfl
  · simp only [MapOp.key, Ne.symm hk, hk, ↓reduceIte]

theorem overwritesOn_del (ops : List (MapOp α β)) (k k' : α) :
    overwritesOn k (ops ++ [.del k']) = overwritesOn k ops := by
  rw [overwritesOn_snoc]
  cases lastOn k ops with
  | none => simp [overwritten]
  | some op => cases op <;> simp [overwritten]

end Overwrites

end Log2Bgp.Lib
