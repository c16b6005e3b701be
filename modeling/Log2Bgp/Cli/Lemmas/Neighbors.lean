import Log2Bgp.Cli.Lemmas.Tree
import Log2Bgp.Lib.Run

/-!
# New neighbors

What a command for a new neighbor does to the table, in which every peer is a copy without its
address.
-/

namespace Log2Bgp

open Lib

/-- A command `neighbor A remote-as N` with a valid address. -/
structure NeighborCommand where
  env : CliEnv
  line : Text
  ip : Text
  asn : Text
  addr : UInt32
  tokens : words line = ["neighbor".toList, ip, "remote-as".toList, asn]
  valid : pton ip = some addr

namespace NeighborCommand

/-- Runs the command. -/
def run (c : NeighborCommand) (b : BgpCli) : Cli (BgpCli × Reply) := executeLine c.env b c.line

/-- The instance after the command, if the command returns. -/
def step (b : BgpCli) (c : NeighborCommand) : Option BgpCli := (c.run b).toOption.map Prod.fst

/-- The table has a peer with the address. -/
def InTable (c : NeighborCommand) (b : BgpCli) : Prop := ∃ p ∈ b.threadQ, p.pIp = ntoa c.addr

/-- The reply to a command for an address that is taken. -/
def existsReply (c : NeighborCommand) : Reply :=
  .text ("% Neighbor ".toList ++ ntoa c.addr ++ " already exists in table\n".toList)

/-- The peer that the command looks for. -/
def peer (c : NeighborCommand) : CliPeer := { pIp := ntoa c.addr, ipv4 := c.addr, addrFamily := afInet }

/-- The peer that the command starts. -/
def params (c : NeighborCommand) : CliPeer := { c.peer with AS := (atoi c.asn).toUInt32.toUInt16 }

end NeighborCommand

/-- The table has at most one peer for an address. -/
def BgpCli.OnePerAddress (b : BgpCli) : Prop := (b.threadQ.map CliPeer.pIp).Nodup

/-- No peer of the table has an address in `ipv4`. -/
def BgpCli.NoIpv4 (b : BgpCli) : Prop := ∀ p ∈ b.threadQ, p.ipv4 = 0

/-! ## `peer_exists` -/

section Exists

variable {threadQ : List CliPeer} {peer : CliPeer}

/-- Where no peer fits, the loop ends just in case its counter can get past the table. -/
theorem peerExistsFrom_of_none (hnone : ∀ q ∈ threadQ, ¬ (peer.addrFamily = afInet ∧ q.ipv4 = peer.ipv4))
    (passes : Nat) (i : UInt8) (hsum : i.toNat + (passes + 1) = 256) :
    peerExistsFrom threadQ peer (passes + 1) i =
      if threadQ.length < 256 then .ok false else .error .loop := by
  induction passes generalizing i with
  | zero =>
      cases hq : threadQ[i.toNat]? with
      | none =>
          have hlen := List.getElem?_eq_none_iff.mp hq
          have hlt : threadQ.length < 256 := by omega
          simp only [peerExistsFrom, hq, if_pos hlt]
      | some q =>
          obtain ⟨hi, -⟩ := List.getElem?_eq_some_iff.mp hq
          have hlt : ¬ threadQ.length < 256 := by omega
          simp only [peerExistsFrom, hq, if_neg (hnone q (List.mem_of_getElem? hq)), if_neg hlt]
  | succ passes ih =>
      cases hq : threadQ[i.toNat]? with
      | none =>
          have hlen := List.getElem?_eq_none_iff.mp hq
          have hlt : threadQ.length < 256 := by omega
          rw [peerExistsFrom]
          simp only [hq, if_pos hlt]
      | some q =>
          have hnext : (i + 1).toNat = i.toNat + 1 := by
            rw [UInt8.toNat_add]
            exact Nat.mod_eq_of_lt (by simp only [UInt8.toNat_one]; omega)
          rw [peerExistsFrom]
          simp only [hq, if_neg (hnone q (List.mem_of_getElem? hq))]
          exact ih (i + 1) (by omega)

theorem peerExists_of_none (hnone : ∀ q ∈ threadQ, ¬ (peer.addrFamily = afInet ∧ q.ipv4 = peer.ipv4)) :
    peerExists threadQ peer = if threadQ.length < 256 then .ok false else .error .loop :=
  peerExistsFrom_of_none hnone 255 0 rfl

theorem peerExists_of_first {q : CliPeer} {rest : List CliPeer} (hfam : peer.addrFamily = afInet)
    (hq : q.ipv4 = peer.ipv4) : peerExists (q :: rest) peer = .ok true := by
  have hget : (q :: rest)[(0 : UInt8).toNat]? = some q := rfl
  rw [peerExists, peerExistsFrom]
  simp only [hget, if_pos (And.intro hfam hq)]

end Exists

/-! ## One command -/

namespace NeighborCommand

variable (c : NeighborCommand) {b : BgpCli}

theorem run_eq (b : BgpCli) :
    c.run b = (do
      let found ← Cli.ofChecked (peerExists b.threadQ c.peer)
      if found then pure (b, c.existsReply) else pure (b.startPeer c.params, .text [])) := by
  have hpart : (["remote-as".toList].foldl Command.descend peerNode).allFuncs (· = .protoBgpNeighbor) = true := by
    decide
  obtain ⟨cmd, hfind, hfunc⟩ := findCommand_neighbor hpart c.ip [c.asn]
  have hpeer : neighborPeer c.env.uninit c.ip = c.peer := by
    rw [neighborPeer, c.valid]
    rfl
  rw [run, executeLine_eq c.env b c.tokens hfind, hfunc]
  simp only [runFunc, protoBgpNeighbor, tokenAt, List.getElem?_cons_succ, List.getElem?_cons_zero,
    Checked.ok_bind, hpeer]
  rfl

/-- What a command does to a table of copies: the address 0.0.0.0 fits every one of them, and no other
address fits any. -/
theorem run_cases (hb : b.NoIpv4) :
    (c.addr = 0 ∧ b.threadQ ≠ [] ∧ c.run b = .ok (b, c.existsReply)) ∨
    ((c.addr ≠ 0 ∨ b.threadQ = []) ∧
      c.run b = if b.threadQ.length < 256 then .ok (b.startPeer c.params, .text [])
        else .error (.memory .loop)) := by
  rw [run_eq]
  by_cases hzero : c.addr = 0 ∧ b.threadQ ≠ []
  · obtain ⟨haddr, hne⟩ := hzero
    obtain ⟨q, rest, hq⟩ := List.exists_cons_of_ne_nil hne
    have hfound : peerExists b.threadQ c.peer = .ok true := by
      rw [hq]
      refine peerExists_of_first rfl ?_
      rw [hb q (hq ▸ List.mem_cons_self)]
      exact haddr.symm
    rw [hfound]
    exact .inl ⟨haddr, hne, rfl⟩
  · have hcase : c.addr ≠ 0 ∨ b.threadQ = [] := by
      by_cases haddr : c.addr = 0
      · exact .inr (by_contra fun hne => hzero ⟨haddr, hne⟩)
      · exact .inl haddr
    have hnone : ∀ q ∈ b.threadQ, ¬ (c.peer.addrFamily = afInet ∧ q.ipv4 = c.peer.ipv4) := by
      rintro q hq ⟨-, hfit⟩
      rw [hb q hq] at hfit
      obtain haddr | hnil := hcase
      · exact haddr hfit.symm
      · rw [hnil] at hq
        cases hq
    refine .inr ⟨hcase, ?_⟩
    rw [peerExists_of_none hnone]
    split
    · rfl
    · rfl

theorem step_eq_some {b' : BgpCli} (h : step b c = some b') : ∃ r, c.run b = .ok (b', r) := by
  obtain ⟨⟨b₁, r⟩, hrun, rfl⟩ := Option.map_eq_some_iff.mp h
  cases hx : c.run b with
  | error e => rw [hx] at hrun; cases hrun
  | ok x =>
      rw [hx] at hrun
      cases hrun
      exact ⟨r, rfl⟩

/-- A command that returns leaves the table alone or adds a copy at its end. -/
theorem step_cases (hb : b.NoIpv4) {b' : BgpCli} (h : step b c = some b') :
    (c.addr = 0 ∧ b' = b) ∨ ((c.addr ≠ 0 ∨ b.threadQ = []) ∧ b' = b.startPeer c.params) := by
  obtain ⟨r, hrun⟩ := c.step_eq_some h
  obtain ⟨haddr, -, hexists⟩ | ⟨hcase, hnew⟩ := c.run_cases hb
  · cases hexists.symm.trans hrun
    exact .inl ⟨haddr, rfl⟩
  · refine .inr ⟨hcase, ?_⟩
    split at hnew
    · cases hnew.symm.trans hrun
      rfl
    · cases hnew.symm.trans hrun

theorem noIpv4_step (hb : b.NoIpv4) {b' : BgpCli} (h : step b c = some b') : b'.NoIpv4 := by
  obtain ⟨-, rfl⟩ | ⟨-, rfl⟩ := c.step_cases hb h
  · exact hb
  · intro p hp
    obtain hp | hp := List.mem_append.mp hp
    · exact hb p hp
    · rw [List.mem_singleton.mp hp]
      rfl

theorem onePerAddress_step (hb : b.NoIpv4) (hone : b.OnePerAddress) (hnew : c.addr = 0 ∨ ¬ c.InTable b)
    {b' : BgpCli} (h : step b c = some b') : b'.OnePerAddress := by
  obtain ⟨-, rfl⟩ | ⟨hcase, rfl⟩ := c.step_cases hb h
  · exact hone
  · have hout : ¬ c.InTable b := by
      obtain hzero | hnew := hnew
      · obtain hne | hnil := hcase
        · exact absurd hzero hne
        · rintro ⟨p, hp, -⟩
          rw [hnil] at hp
          cases hp
      · exact hnew
    unfold BgpCli.OnePerAddress BgpCli.startPeer at *
    rw [List.map_append, List.nodup_append]
    refine ⟨hone, List.nodup_singleton _, ?_⟩
    intro ip hip ip' hip' heq
    obtain ⟨p, hp, rfl⟩ := List.mem_map.mp hip
    exact hout ⟨p, hp, heq.trans (List.mem_singleton.mp hip')⟩

/-- A command for an address in the table is answered as it should be just in case the address is
0.0.0.0. -/
theorem refused_iff (hb : b.NoIpv4) (hin : c.InTable b) : c.run b = .ok (b, c.existsReply) ↔ c.addr = 0 := by
  obtain ⟨haddr, -, hexists⟩ | ⟨hcase, hnew⟩ := c.run_cases hb
  · exact iff_of_true hexists haddr
  · have haddr : c.addr ≠ 0 := by
      obtain haddr | hnil := hcase
      · exact haddr
      · obtain ⟨p, hp, -⟩ := hin
        rw [hnil] at hp
        cases hp
    refine iff_of_false ?_ haddr
    rw [hnew]
    split
    · intro h
      cases congrArg (Except.map Prod.snd) h
    · intro h
      cases h

end NeighborCommand

end Log2Bgp
