import Log2Bgp.Cli.Lemmas.Neighbors

/-!
# The table of peers

The two scans of `thread_q` with a counter of one byte.
-/

namespace Log2Bgp

open Lib

theorem toNat_ofNat_of_le {n : Nat} (h : n ≤ 255) : (UInt8.ofNat n).toNat = n := by
  rw [UInt8.toNat_ofNat']
  exact Nat.mod_eq_of_lt (by omega)

/-! ## `delete_peer` -/

/-- The loop of `delete_peer` ends, and leaves these peers. -/
def DeleteLeaves (shared : Bool) (peer : PeerT) (i : UInt8) (threadQ left : List PeerT) : Prop :=
  ∃ passes, deletePeerFrom shared peer passes i threadQ = .ok left

namespace DeleteLeaves

variable {shared : Bool} {peer q : PeerT} {i : UInt8} {threadQ left : List PeerT} {m : Nat}

theorem stop (h : threadQ[i.toNat]? = none) : DeleteLeaves shared peer i threadQ left ↔ left = threadQ := by
  constructor
  · rintro ⟨passes, hrun⟩
    cases passes with
    | zero => cases hrun
    | succ passes =>
        simp only [deletePeerFrom, h] at hrun
        cases hrun
        rfl
  · rintro rfl
    exact ⟨1, by simp only [deletePeerFrom, h]⟩

theorem keep (h : threadQ[i.toNat]? = some q) (hne : q.1.bgpId ≠ peer.1.bgpId) :
    DeleteLeaves shared peer i threadQ left ↔ DeleteLeaves shared peer (i + 1) threadQ left := by
  constructor
  · rintro ⟨passes, hrun⟩
    cases passes with
    | zero => cases hrun
    | succ passes =>
        simp only [deletePeerFrom, h, if_neg hne] at hrun
        exact ⟨passes, hrun⟩
  · rintro ⟨passes, hrun⟩
    exact ⟨passes + 1, by simp only [deletePeerFrom, h, if_neg hne, hrun]⟩

theorem erase (h : threadQ[i.toNat]? = some q) (heq : q.1.bgpId = peer.1.bgpId) :
    DeleteLeaves shared peer i threadQ left ↔
      (q.2 = peer.2 → shared = true) ∧ DeleteLeaves shared peer (i + 1) (threadQ.eraseIdx i.toNat) left := by
  constructor
  · rintro ⟨passes, hrun⟩
    cases passes with
    | zero => cases hrun
    | succ passes =>
        simp only [deletePeerFrom, h, if_pos heq] at hrun
        split at hrun
        · cases hrun
        · rename_i hsafe
          exact ⟨fun hself => by_contra fun hfreed => hsafe ⟨hself, hfreed⟩, passes, hrun⟩
  · rintro ⟨hsafe, passes, hrun⟩
    have hnot : ¬ (q.2 = peer.2 ∧ ¬ shared) := fun hfreed => hfreed.2 (hsafe hfreed.1)
    exact ⟨passes + 1, by simp only [deletePeerFrom, h, if_pos heq, if_neg hnot, hrun]⟩

/-- The loop ends when the counter is past the table, so at most 255 peers are left. -/
theorem length_le (h : DeleteLeaves shared peer i threadQ left) : left.length ≤ 255 := by
  obtain ⟨passes, hrun⟩ := h
  induction passes generalizing i threadQ with
  | zero => cases hrun
  | succ passes ih =>
      simp only [deletePeerFrom] at hrun
      split at hrun
      · rename_i hend
        cases hrun
        have hlen := List.getElem?_eq_none_iff.mp hend
        have hi := i.toNat_lt
        omega
      · split at hrun
        · split at hrun
          · cases hrun
          · exact ih hrun
        · exact ih hrun

theorem sublist (h : DeleteLeaves shared peer i threadQ left) : left.Sublist threadQ := by
  obtain ⟨passes, hrun⟩ := h
  induction passes generalizing i threadQ with
  | zero => cases hrun
  | succ passes ih =>
      simp only [deletePeerFrom] at hrun
      split at hrun
      · cases hrun
        exact List.Sublist.refl _
      · split at hrun
        · split at hrun
          · cases hrun
          · exact (ih hrun).trans (List.eraseIdx_sublist threadQ i.toNat)
        · exact ih hrun

theorem advance (n : Nat) (hlt : i.toNat + n ≤ 255) (hlen : i.toNat + n ≤ threadQ.length)
    (hother : ∀ j q, i.toNat ≤ j → j < i.toNat + n → threadQ[j]? = some q → q.1.bgpId ≠ peer.1.bgpId) :
    DeleteLeaves shared peer i threadQ left ↔
      DeleteLeaves shared peer (UInt8.ofNat (i.toNat + n)) threadQ left := by
  induction n generalizing i with
  | zero => rw [Nat.add_zero, UInt8.ofNat_toNat]
  | succ n ih =>
      have hnext : (i + 1).toNat = i.toNat + 1 := by
        rw [UInt8.toNat_add]
        exact Nat.mod_eq_of_lt (by simp only [UInt8.toNat_one]; omega)
      have hq := List.getElem?_eq_getElem (show i.toNat < threadQ.length by omega)
      have hsum : (i + 1).toNat + n = i.toNat + (n + 1) := by omega
      rw [keep hq (hother i.toNat _ (Nat.le_refl _) (by omega) hq), ← hsum]
      exact ih (by omega) (by omega) fun j q hj hjn => hother j q (by omega) (by omega)

theorem rest (hlen : threadQ.length ≤ 255)
    (hother : ∀ j q, i.toNat ≤ j → threadQ[j]? = some q → q.1.bgpId ≠ peer.1.bgpId) :
    DeleteLeaves shared peer i threadQ left ↔ left = threadQ := by
  rcases Nat.lt_or_ge i.toNat threadQ.length with hlt | hge
  · have hsum : i.toNat + (threadQ.length - i.toNat) = threadQ.length := by omega
    have hend : (UInt8.ofNat threadQ.length).toNat = threadQ.length := toNat_ofNat_of_le (by omega)
    rw [advance (threadQ.length - i.toNat) (by omega) (by omega) (fun j q hj _ => hother j q hj), hsum]
    exact stop (List.getElem?_eq_none (by omega))
  · exact stop (List.getElem?_eq_none hge)

theorem first (hi : i.toNat ≤ m) (hm : m ≤ 255) (hq : threadQ[m]? = some q) (heq : q.1.bgpId = peer.1.bgpId)
    (hother : ∀ j q, i.toNat ≤ j → j < m → threadQ[j]? = some q → q.1.bgpId ≠ peer.1.bgpId) :
    DeleteLeaves shared peer i threadQ left ↔
      (q.2 = peer.2 → shared = true) ∧
        DeleteLeaves shared peer (UInt8.ofNat m + 1) (threadQ.eraseIdx m) left := by
  have hlt := (List.getElem?_eq_some_iff.mp hq).1
  have hsum : i.toNat + (m - i.toNat) = m := by omega
  have hplace : (UInt8.ofNat m).toNat = m := toNat_ofNat_of_le (by omega)
  rw [advance (m - i.toNat) (by omega) (by omega) (fun j q hj hjm => hother j q hj (by omega)), hsum]
  have hget : threadQ[(UInt8.ofNat m).toNat]? = some q := by rw [hplace, hq]
  rw [erase hget heq, hplace]

end DeleteLeaves

theorem exists_first {P : Nat → Prop} (h : ∃ n, P n) : ∃ m, P m ∧ ∀ j < m, ¬ P j := by
  classical exact ⟨Nat.find h, Nat.find_spec h, fun _ => Nat.find_min h⟩

/-! ### Only one peer -/

section Only

variable {shared : Bool} {threadQ : List CliPeer} {p q : CliPeer} {k : Nat}

theorem getElem?_zipIdx_eq (threadQ : List CliPeer) (j : Nat) : threadQ.zipIdx[j]? = threadQ[j]?.map (·, j) := by
  rw [List.getElem?_zipIdx, Nat.zero_add]

theorem getElem?_of_zipIdx {j : Nat} {e : PeerT} (h : threadQ.zipIdx[j]? = some e) : threadQ[j]? = some e.1 := by
  rw [getElem?_zipIdx_eq, Option.map_eq_some_iff] at h
  obtain ⟨q, hq, rfl⟩ := h
  exact hq

theorem length_eraseIdx_zipIdx (hk : k < threadQ.length) :
    (threadQ.zipIdx.eraseIdx k).length = threadQ.length - 1 := by
  rw [List.length_eraseIdx, List.length_zipIdx, if_pos hk]

theorem eraseIdx_zipIdx_inj {m : Nat} (hmk : m < k) (hk : k < threadQ.length) :
    threadQ.zipIdx.eraseIdx k ≠ threadQ.zipIdx.eraseIdx m := by
  intro h
  have hat := congrArg (·[m]?) h
  simp only [List.getElem?_eraseIdx_of_lt hmk, List.getElem?_eraseIdx_of_ge (Nat.le_refl m), getElem?_zipIdx_eq,
    List.getElem?_eq_getElem (show m < threadQ.length by omega),
    List.getElem?_eq_getElem (show m + 1 < threadQ.length by omega), Option.map_some, Option.some.injEq] at hat
  have hplaces := congrArg Prod.snd hat
  simp only at hplaces
  omega

theorem first_of_leaves (hp : threadQ[k]? = some p)
    (h : DeleteLeaves shared (p, k) 0 threadQ.zipIdx (threadQ.zipIdx.eraseIdx k)) :
    ∀ j q, j < k → threadQ[j]? = some q → q.bgpId ≠ p.bgpId := by
  have hk := (List.getElem?_eq_some_iff.mp hp).1
  have hshort := h.length_le
  rw [length_eraseIdx_zipIdx hk] at hshort
  by_contra hsome
  have hex : ∃ j, j < k ∧ ∃ q, threadQ[j]? = some q ∧ q.bgpId = p.bgpId := by
    by_contra hnone
    exact hsome fun j q hj hq heq => hnone ⟨j, hj, q, hq, heq⟩
  obtain ⟨m, ⟨hmk, q, hq, heq⟩, hbefore⟩ := exists_first hex
  have hget : threadQ.zipIdx[m]? = some (q, m) := by rw [getElem?_zipIdx_eq, hq]; rfl
  have hother : ∀ j e, (0 : UInt8).toNat ≤ j → j < m → threadQ.zipIdx[j]? = some e → e.1.bgpId ≠ p.bgpId :=
    fun j e _ hj he heq => hbefore j hj ⟨by omega, e.1, getElem?_of_zipIdx he, heq⟩
  obtain ⟨-, hleft⟩ := (DeleteLeaves.first (Nat.zero_le m) (by omega) hget heq hother).mp h
  refine eraseIdx_zipIdx_inj hmk hk (hleft.sublist.eq_of_length ?_)
  rw [length_eraseIdx_zipIdx hk, length_eraseIdx_zipIdx (by omega)]

/-- The peer to delete is erased, where it is the first with its identifier. -/
theorem leaves_first (hp : threadQ[k]? = some p) (hk : k ≤ 255)
    (hbefore : ∀ j q, j < k → threadQ[j]? = some q → q.bgpId ≠ p.bgpId) {left : List PeerT} :
    DeleteLeaves shared (p, k) 0 threadQ.zipIdx left ↔
      shared = true ∧ DeleteLeaves shared (p, k) (UInt8.ofNat k + 1) (threadQ.zipIdx.eraseIdx k) left := by
  have hget : threadQ.zipIdx[k]? = some (p, k) := by rw [getElem?_zipIdx_eq, hp]; rfl
  have hother : ∀ j e, (0 : UInt8).toNat ≤ j → j < k → threadQ.zipIdx[j]? = some e → e.1.bgpId ≠ p.bgpId :=
    fun j e _ hj he => hbefore j e.1 hj (getElem?_of_zipIdx he)
  simpa using DeleteLeaves.first (Nat.zero_le k) hk hget rfl hother

/-- Behind the peer to delete, the next one is not looked at, and nothing else is erased. -/
theorem rest_of_leaves (hk : k < threadQ.length) (hshort : threadQ.length ≤ 256)
    (h : DeleteLeaves shared (p, k) (UInt8.ofNat k + 1) (threadQ.zipIdx.eraseIdx k) (threadQ.zipIdx.eraseIdx k)) :
    ∀ j q, k + 1 < j → threadQ[j]? = some q → q.bgpId ≠ p.bgpId := by
  by_contra hsome
  have hex : ∃ j, k + 1 ≤ j ∧ ∃ q, threadQ[j + 1]? = some q ∧ q.bgpId = p.bgpId := by
    by_contra hnone
    refine hsome fun j q hj hq heq => hnone ⟨j - 1, by omega, q, ?_, heq⟩
    rw [Nat.sub_add_cancel (by omega), hq]
  obtain ⟨m, ⟨hkm, q, hq, heq⟩, hbefore⟩ := exists_first hex
  have hm := (List.getElem?_eq_some_iff.mp hq).1
  have hnext : (UInt8.ofNat k + 1).toNat = k + 1 := by
    rw [UInt8.toNat_add, toNat_ofNat_of_le (by omega)]
    exact Nat.mod_eq_of_lt (by simp only [UInt8.toNat_one]; omega)
  have hget : (threadQ.zipIdx.eraseIdx k)[m]? = some (q, m + 1) := by
    rw [List.getElem?_eraseIdx_of_ge (by omega), getElem?_zipIdx_eq, hq]
    rfl
  have hother : ∀ j e, (UInt8.ofNat k + 1).toNat ≤ j → j < m → (threadQ.zipIdx.eraseIdx k)[j]? = some e →
      e.1.bgpId ≠ p.bgpId := by
    intro j e hj hjm he heq
    rw [List.getElem?_eraseIdx_of_ge (by omega)] at he
    exact hbefore j hjm ⟨by omega, e.1, getElem?_of_zipIdx he, heq⟩
  obtain ⟨-, hleft⟩ := (DeleteLeaves.first (by omega) (by omega) hget heq hother).mp h
  have hlen := hleft.sublist.length_le
  rw [List.length_eraseIdx_of_lt (List.getElem?_eq_some_iff.mp hget).1, length_eraseIdx_zipIdx hk] at hlen
  omega

theorem leaves_rest (hk : k < threadQ.length) (hshort : threadQ.length ≤ 256)
    (hbefore : ∀ j q, j < k → threadQ[j]? = some q → q.bgpId ≠ p.bgpId)
    (hbehind : ∀ j q, k + 1 < j → threadQ[j]? = some q → q.bgpId ≠ p.bgpId) :
    DeleteLeaves shared (p, k) (UInt8.ofNat k + 1) (threadQ.zipIdx.eraseIdx k) (threadQ.zipIdx.eraseIdx k) := by
  have hlen := length_eraseIdx_zipIdx hk
  refine (DeleteLeaves.rest (by omega) ?_).mpr rfl
  intro j e hj he
  rcases Nat.lt_or_ge j k with hlt | hge
  · rw [List.getElem?_eraseIdx_of_lt hlt] at he
    exact hbefore j e.1 hlt (getElem?_of_zipIdx he)
  · rw [List.getElem?_eraseIdx_of_ge hge] at he
    have hend := (List.getElem?_eq_some_iff.mp (getElem?_of_zipIdx he)).1
    have hnext : (UInt8.ofNat k + 1).toNat = k + 1 := by
      rw [UInt8.toNat_add, toNat_ofNat_of_le (by omega)]
      exact Nat.mod_eq_of_lt (by simp only [UInt8.toNat_one]; omega)
    exact hbehind (j + 1) e.1 (by omega) (getElem?_of_zipIdx he)

/-- A peer is all that is deleted, just where it is one of at most 256, no other peer has its identifier
but perhaps the next one, and something else has a share in it. -/
theorem deleteLeaves_iff (hp : threadQ[k]? = some p) :
    DeleteLeaves shared (p, k) 0 threadQ.zipIdx (threadQ.zipIdx.eraseIdx k) ↔
      shared = true ∧ threadQ.length ≤ 256 ∧
        ∀ j q, threadQ[j]? = some q → q.bgpId = p.bgpId → j = k ∨ j = k + 1 := by
  have hk := (List.getElem?_eq_some_iff.mp hp).1
  constructor
  · intro h
    have hshort := h.length_le
    rw [length_eraseIdx_zipIdx hk] at hshort
    have hbefore := first_of_leaves hp h
    obtain ⟨hshared, hrest⟩ := (leaves_first hp (by omega) hbefore).mp h
    have hbehind := rest_of_leaves hk (by omega) hrest
    refine ⟨hshared, by omega, ?_⟩
    intro j q hq heq
    by_contra hne
    rcases Nat.lt_or_ge j k with hlt | hge
    · exact hbefore j q hlt hq heq
    · exact hbehind j q (by omega) hq heq
  · rintro ⟨hshared, hshort, hothers⟩
    have hbefore : ∀ j q, j < k → threadQ[j]? = some q → q.bgpId ≠ p.bgpId := by
      intro j q hj hq heq
      have hplace := hothers j q hq heq
      omega
    have hbehind : ∀ j q, k + 1 < j → threadQ[j]? = some q → q.bgpId ≠ p.bgpId := by
      intro j q hj hq heq
      have hplace := hothers j q hq heq
      omega
    exact (leaves_first hp (by omega) hbefore).mpr ⟨hshared, leaves_rest hk hshort hbefore hbehind⟩

end Only

/-! ## `peer_exists` -/

section Exists

variable {threadQ : List CliPeer} {peer : CliPeer}

theorem peerExistsFrom_take (threadQ : List CliPeer) (peer : CliPeer) (passes : Nat) (i : UInt8) :
    peerExistsFrom (threadQ.take 256) peer passes i = peerExistsFrom threadQ peer passes i := by
  induction passes generalizing i with
  | zero => rfl
  | succ passes ih =>
      have hget : (threadQ.take 256)[i.toNat]? = threadQ[i.toNat]? := List.getElem?_take_of_lt i.toNat_lt
      simp only [peerExistsFrom, hget, ih]

theorem peerExistsFrom_of_fits {q : CliPeer} {j : Nat} (hq : threadQ[j]? = some q)
    (hfits : peer.addrFamily = afInet ∧ q.ipv4 = peer.ipv4) (passes : Nat) (i : UInt8) (hi : i.toNat ≤ j)
    (hj : j < i.toNat + passes) (hsum : i.toNat + passes ≤ 256) :
    peerExistsFrom threadQ peer passes i = .ok true := by
  induction passes generalizing i with
  | zero => omega
  | succ passes ih =>
      have hlt := (List.getElem?_eq_some_iff.mp hq).1
      have hget := List.getElem?_eq_getElem (show i.toNat < threadQ.length by omega)
      simp only [peerExistsFrom, hget]
      split
      · rfl
      · rename_i hother
        have hne : i.toNat ≠ j := by
          rintro rfl
          rw [hget] at hq
          cases hq
          exact hother hfits
        have hnext : (i + 1).toNat = i.toNat + 1 := by
          rw [UInt8.toNat_add]
          exact Nat.mod_eq_of_lt (by simp only [UInt8.toNat_one]; omega)
        exact ih (i + 1) (by omega) (by omega) (by omega)

/-- The search is for a peer among the first 256, and ends without one in a table of at most 255. -/
theorem peerExists_cases (threadQ : List CliPeer) (peer : CliPeer) :
    ((peer.addrFamily = afInet ∧ ∃ q ∈ threadQ.take 256, q.ipv4 = peer.ipv4) ∧
      peerExists threadQ peer = .ok true) ∨
    (¬ (peer.addrFamily = afInet ∧ ∃ q ∈ threadQ.take 256, q.ipv4 = peer.ipv4) ∧
      peerExists threadQ peer = if threadQ.length < 256 then .ok false else .error .loop) := by
  have htake : peerExists (threadQ.take 256) peer = peerExists threadQ peer := peerExistsFrom_take ..
  by_cases hfits : peer.addrFamily = afInet ∧ ∃ q ∈ threadQ.take 256, q.ipv4 = peer.ipv4
  · obtain ⟨hfamily, q, hq, hipv4⟩ := hfits
    obtain ⟨j, hj⟩ := List.mem_iff_getElem?.mp hq
    have hlt := (List.getElem?_eq_some_iff.mp hj).1
    rw [List.length_take] at hlt
    have hzero : (0 : UInt8).toNat = 0 := rfl
    have hfound := peerExistsFrom_of_fits hj ⟨hfamily, hipv4⟩ 256 0 (Nat.zero_le j) (by omega) (by omega)
    exact .inl ⟨⟨hfamily, q, hq, hipv4⟩, htake.symm.trans hfound⟩
  · have hnone : ∀ q ∈ threadQ.take 256, ¬ (peer.addrFamily = afInet ∧ q.ipv4 = peer.ipv4) :=
      fun q hq hq' => hfits ⟨hq'.1, q, hq, hq'.2⟩
    have hlen : (threadQ.take 256).length < 256 ↔ threadQ.length < 256 := by
      rw [List.length_take]
      omega
    refine .inr ⟨hfits, ?_⟩
    rw [← htake, peerExists_of_none hnone]
    simp only [hlen]

/-- The answer is right, just where a peer with the address is among the first 256 and is searched as an
IPv4 peer, or there is none and the table has at most 255 peers. -/
theorem peerExists_iff (threadQ : List CliPeer) (peer : CliPeer) :
    peerExists threadQ peer = .ok (decide (∃ q ∈ threadQ, q.ipv4 = peer.ipv4)) ↔
      (peer.addrFamily = afInet ∧ ∃ q ∈ threadQ.take 256, q.ipv4 = peer.ipv4) ∨
        (threadQ.length < 256 ∧ ∀ q ∈ threadQ, q.ipv4 ≠ peer.ipv4) := by
  rcases peerExists_cases threadQ peer with ⟨hfits, hfound⟩ | ⟨hnone, hleft⟩
  · refine iff_of_true ?_ (.inl hfits)
    obtain ⟨-, q, hq, hipv4⟩ := hfits
    have hin : ∃ q ∈ threadQ, q.ipv4 = peer.ipv4 := ⟨q, List.mem_of_mem_take hq, hipv4⟩
    rw [hfound, decide_eq_true hin]
  · rw [hleft]
    simp only [hnone, false_or]
    by_cases hshort : threadQ.length < 256
    · simp [hshort]
    · simp [hshort]

end Exists

/-! ## Both -/

/-- Three peers that still have the identifier 0. -/
def Example.strangers : List CliPeer := [{ AS := 1, pIp := [] }, { AS := 2, pIp := [] }, { AS := 3, pIp := [] }]

/-- The third one is deleted with the first. -/
theorem delete_strangers : ¬ DeleteLeaves true ({ AS := 1, pIp := [] }, 0) 0 Example.strangers.zipIdx
    (Example.strangers.zipIdx.eraseIdx 0) := by
  rw [deleteLeaves_iff rfl]
  rintro ⟨-, -, hothers⟩
  have hplace := hothers 2 _ rfl rfl
  omega

/-- When the two scans do what they are for: a peer is all that is deleted, and one is found by its address. -/
theorem peer_table_iff (shared : Bool) {threadQ : List CliPeer} {p : CliPeer} {k : Nat} (hp : threadQ[k]? = some p)
    (peer : CliPeer) :
    (DeleteLeaves shared (p, k) 0 threadQ.zipIdx (threadQ.zipIdx.eraseIdx k) ↔
      shared = true ∧ threadQ.length ≤ 256 ∧
        ∀ j q, threadQ[j]? = some q → q.bgpId = p.bgpId → j = k ∨ j = k + 1) ∧
    (peerExists threadQ peer = .ok (decide (∃ q ∈ threadQ, q.ipv4 = peer.ipv4)) ↔
      (peer.addrFamily = afInet ∧ ∃ q ∈ threadQ.take 256, q.ipv4 = peer.ipv4) ∨
        (threadQ.length < 256 ∧ ∀ q ∈ threadQ, q.ipv4 ≠ peer.ipv4)) :=
  ⟨deleteLeaves_iff hp, peerExists_iff threadQ peer⟩

/-- Two peers without identifiers. -/
def Example.unidentified : List CliPeer := [{ AS := 1, ipv4 := 5, pIp := [] }, { AS := 2, ipv4 := 6, pIp := [] }]

theorem peer_table_iff_unidentified :
    DeleteLeaves true ({ AS := 1, ipv4 := 5, pIp := [] }, 0) 0 Example.unidentified.zipIdx
        (Example.unidentified.zipIdx.eraseIdx 0) ∧
      peerExists Example.unidentified { ipv4 := 6, pIp := [], addrFamily := afInet } =
        .ok (decide (∃ q ∈ Example.unidentified, q.ipv4 = 6)) := by
  have hp : Example.unidentified[0]? = some { AS := 1, ipv4 := 5, pIp := [] } := rfl
  obtain ⟨hdelete, hexists⟩ := peer_table_iff true hp
    { ipv4 := 6, pIp := [], addrFamily := afInet }
  refine ⟨hdelete.mpr ⟨rfl, by decide, ?_⟩, hexists.mpr (.inl ⟨rfl, by decide⟩)⟩
  intro j q hq _
  have hlt : j < 2 := (List.getElem?_eq_some_iff.mp hq).1
  omega

end Log2Bgp
