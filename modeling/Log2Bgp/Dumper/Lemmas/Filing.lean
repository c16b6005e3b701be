import Log2Bgp.Cli.Lemmas.Tokens
import Log2Bgp.Cli.Lemmas.Tree
import Log2Bgp.Dumper.Run

/-!
# What is filed for a peer

The destination that the dumper has under an identifier, and how commands, OPENs and dumped updates
change it.
-/

namespace Log2Bgp

open Lib

@[simp] theorem htons_htons (v : UInt16) : htons (htons v) = v := by
  apply UInt16.toBitVec_inj.mp
  unfold htons
  simp only [UInt16.toBitVec_or, UInt16.toBitVec_shiftLeft, UInt16.toBitVec_shiftRight]
  ext i hi
  simp
  grind

/-! ## One entry -/

namespace UdpDestinations

variable {m : UdpDestinations} {d : Option Destination}

/-- A command swaps the bytes of the port once more than the datagram needs. -/
theorem filed_addDestHost {host : Text} {addr : UInt32} (hhost : aton host = some addr)
    (bgpId k : UInt32) (port : UInt16) :
    (m.addDestHost bgpId host (htons port)).Filed k d ↔
      if k = bgpId then d = some (addr, htons port) else m.Filed k d := by
  unfold Filed addDestHost
  rw [lookup_insert]
  split
  · simp only [UdpSender.call, hhost, Option.map_some, Option.getD_some, ntohs, htons_htons]
    exact eq_comm
  · rfl

theorem filed_insert_write {s : UdpSender} {bgpId : UInt32} (hs : m[bgpId]? = some s) (data : Text)
    (k : UInt32) : Filed (m.insert bgpId (s.write data).1) k d ↔ m.Filed k d := by
  unfold Filed
  rw [lookup_insert]
  split
  · rename_i hk
    rw [hk, hs]
    rfl
  · rfl

theorem goesTo_iff {u : Uninit} {now : TimeT} {b b' : BgpCli} {update : BgpUpdate} {flag : NlriParse}
    {out : Dumped} (h : translateAndDumpUpdate u now b update flag = .ok (b', out)) :
    out.GoesTo d ↔ b.dumper.Filed update.nlri.bgpId d := by
  obtain ⟨text, -, h⟩ := Checked.bind_eq_ok.mp h
  unfold Filed
  cases hs : b.dumper[update.nlri.bgpId]? with
  | none =>
      rw [hs] at h
      cases h
      cases d with
      | none => simp [Dumped.GoesTo]
      | some d => simp [Dumped.GoesTo]
  | some s =>
      rw [hs] at h
      cases h
      cases d with
      | none => simp [Dumped.GoesTo]
      | some d => simp [Dumped.GoesTo, Prod.ext_iff]

end UdpDestinations

open UdpDestinations

theorem translateAndDumpUpdate_ok (b : BgpCli) (bgpId : UInt32) :
    ∃ update r, update.nlri.bgpId = bgpId ∧ translateAndDumpUpdate {} 0 b update .update = .ok r := by
  refine ⟨{ nlri := { bgpId := bgpId } }, ?_⟩
  obtain ⟨text, htext⟩ : ∃ text, dumpText {} 0 b { nlri := { bgpId := bgpId } } .update = .ok text :=
    ⟨_, rfl⟩
  unfold translateAndDumpUpdate
  rw [htext, Checked.ok_bind]
  split
  · exact ⟨_, rfl, rfl⟩
  · exact ⟨_, rfl, rfl⟩

/-- The dumper is right when it has, for every peer with an accepted OPEN, the destination of the last
command. -/
theorem Dumping.delivers_iff {s : Dumping} :
    s.Delivers ↔ ∀ i p, s.b.threadQ[i]? = some p → s.opened i = true →
      s.b.dumper.Filed p.bgpId (s.last i) := by
  constructor
  · intro h i p hp hopened
    obtain ⟨update, ⟨b', out⟩, hid, hdump⟩ := translateAndDumpUpdate_ok s.b p.bgpId
    have hgoes := h i p hp hopened {} 0 update .update b' out hid hdump
    rw [← hid]
    exact (goesTo_iff hdump).mp hgoes
  · intro h i p hp hopened u now update flag b' out hid hdump
    rw [goesTo_iff hdump, hid]
    exact h i p hp hopened

/-! ## Commands -/

namespace LoggingCommand

variable (c : LoggingCommand) (b : BgpCli)

/-- The instance after a command. -/
def after : BgpCli :=
  match b.named c.ip with
  | some (_, p) =>
      if c.addr = 0 then b
      else { b with dumper := b.dumper.addDestHost p.bgpId c.host (htons c.portNum) }
  | none => b

theorem stringToIp_host (u : Uninit) : stringToIp u c.host = c.addr := by
  have hhost : c.host ≠ [] := by
    intro hnil
    have hvalid := c.validHost
    rw [hnil] at hvalid
    cases hvalid
  rw [stringToIp, if_neg hhost, c.validHost, Option.getD_some]

theorem stringToUint16_port : stringToUint16 c.port = c.portNum := by
  rw [stringToUint16, c.validPort, Option.getD_some, UInt16.ofNat_toNat]

theorem executeLine_eq : ∃ r, executeLine c.env b c.line = .ok (c.after b, r) := by
  have hpart : (["logging".toList, "host".toList].foldl Command.descend peerNode).allFuncs
      (· = .setPeerLogging) = true := by
    decide
  obtain ⟨cmd, hfind, hfunc⟩ := findCommand_neighbor hpart c.ip [c.host, c.port]
  rw [Log2Bgp.executeLine_eq c.env b c.tokens hfind, hfunc]
  simp only [runFunc, setPeerLogging, tokenAt, List.getElem?_cons_succ, List.getElem?_cons_zero,
    Checked.ok_bind, stringToIp_host, stringToUint16_port, after, BgpCli.named]
  cases hpeer : b.getPeerByStrIp c.ip with
  | none => exact ⟨_, rfl⟩
  | some i =>
      have hi := getPeerByStrIp_lt hpeer
      simp only [Option.bind_some, List.getElem?_eq_getElem hi, Option.map_some]
      split
      · exact ⟨_, rfl⟩
      · exact ⟨_, rfl⟩

end LoggingCommand

namespace Dumping

variable {s s' : Dumping}

theorem step_logging (s : Dumping) (c : LoggingCommand) :
    s.step (.logging c) = some { s with b := c.after s.b, last := s.note c } := by
  obtain ⟨r, hr⟩ := c.executeLine_eq s.b
  rw [step, hr]
  rfl

theorem named_getElem {b : BgpCli} {ip : Text} {i : Nat} {p : CliPeer} (h : b.named ip = some (i, p)) :
    b.threadQ[i]? = some p := by
  obtain ⟨j, -, hj⟩ := Option.bind_eq_some_iff.mp h
  obtain ⟨q, hq, heq⟩ := Option.map_eq_some_iff.mp hj
  cases heq
  exact hq

theorem delivers_logging (c : LoggingCommand) (hs : s.Delivers) :
    Delivers { s with b := c.after s.b, last := s.note c } ↔ s.Keeps (.logging c) := by
  rw [delivers_iff] at hs
  simp only [delivers_iff, Keeps, note, LoggingCommand.after]
  cases hnamed : s.b.named c.ip with
  | none => exact iff_of_true hs fun _ _ h => by cases h
  | some peer =>
      obtain ⟨i, p⟩ := peer
      have hp := named_getElem hnamed
      simp only
      by_cases haddr : c.addr = 0
      · simp only [if_pos haddr]
        exact iff_of_true hs fun _ _ _ hne => absurd haddr hne
      · simp only [if_neg haddr, filed_addDestHost c.validHost]
        constructor
        · rintro h i' p' hi' -
          cases hi'
          refine ⟨?_, ?_⟩
          · intro hopened
            have hport := h i p hp hopened
            rw [if_pos rfl, Function.update_self] at hport
            exact (congrArg Prod.snd (Option.some.inj hport)).symm
          · intro j q hj hq hopened hid
            have hother := h j q hq hopened
            rwa [if_pos hid, Function.update_of_ne hj] at hother
        · intro h j q hq hopened
          obtain ⟨hsame, hothers⟩ := h i p rfl haddr
          by_cases hj : j = i
          · subst hj
            cases hp.symm.trans hq
            rw [if_pos rfl, Function.update_self, hsame hopened]
          · rw [Function.update_of_ne hj]
            split
            · rename_i hid
              exact hothers j q hj hq hopened hid
            · exact hs j q hq hopened

/-! ## OPENs and updates -/

theorem step_openMsg_cases {i : Nat} {now : TimeT} {packet : List UInt8}
    (h : s.step (.openMsg i now packet) = some s') :
    ∃ p q, s.b.threadQ[i]? = some p ∧ decodeOpen s.cfg p.toBgpPeer now packet = .ok q ∧
      s' = { s with
        b := s.b.modifyPeer i fun p => { p with toBgpPeer := q }
        opened :=
          if (acceptedId s.cfg p.toBgpPeer packet).isSome then Function.update s.opened i true
          else s.opened } := by
  obtain ⟨p, hp, h⟩ := Option.bind_eq_some_iff.mp h
  obtain ⟨q, hq, rfl⟩ := Option.map_eq_some_iff.mp h
  exact ⟨p, q, hp, Checked.toOption_eq_some.mp hq, rfl⟩

/-- An OPEN that is accepted moves its peer to another entry, which must already be the right one. -/
theorem delivers_openMsg {i : Nat} {now : TimeT} {packet : List UInt8} (hs : s.Delivers)
    (h : s.step (.openMsg i now packet) = some s') : s'.Delivers ↔ s.Keeps (.openMsg i now packet) := by
  rw [delivers_iff] at hs
  obtain ⟨p, q, hp, hq, rfl⟩ := step_openMsg_cases h
  have hpeer : (s.b.threadQ.modify i fun p => { p with toBgpPeer := q })[i]? =
      some { p with toBgpPeer := q } := by
    rw [List.getElem?_modify_eq, hp]
    rfl
  have hother : ∀ j, j ≠ i →
      (s.b.threadQ.modify i fun p => { p with toBgpPeer := q })[j]? = s.b.threadQ[j]? :=
    fun j hj => List.getElem?_modify_ne _ _ (Ne.symm hj)
  simp only [delivers_iff, Keeps, BgpCli.modifyPeer]
  cases hid : acceptedId s.cfg p.toBgpPeer packet with
  | none =>
      have hkept : q.bgpId = p.bgpId := by
        obtain ⟨-, -, ⟨hkept, -⟩ | haccepted⟩ := decodeOpen_cases hq
        · exact hkept
        · rw [hid] at haccepted
          cases haccepted
      refine iff_of_true ?_ ?_
      · intro j r hr hopened
        by_cases hj : j = i
        · subst hj
          cases hpeer.symm.trans hr
          rw [hkept]
          exact hs j p hp hopened
        · exact hs j r ((hother j hj).symm.trans hr) hopened
      · intro p' bgpId hp' hid'
        cases hp.symm.trans hp'
        rw [hid] at hid'
        cases hid'
  | some bgpId =>
      have htaken : q.bgpId = bgpId := decodeOpen_accepted hid hq
      simp only [Option.isSome_some, ↓reduceIte]
      constructor
      · intro hall p' bgpId' hp' hid'
        cases hp.symm.trans hp'
        cases hid.symm.trans hid'
        have hfiled := hall i _ hpeer (Function.update_self ..)
        rwa [htaken] at hfiled
      · intro hkeeps j r hr hopened
        by_cases hj : j = i
        · subst hj
          cases hpeer.symm.trans hr
          rw [htaken]
          exact hkeeps p bgpId hp hid
        · rw [Function.update_of_ne hj] at hopened
          exact hs j r ((hother j hj).symm.trans hr) hopened

theorem delivers_dump {u : Uninit} {now : TimeT} {update : BgpUpdate} {flag : NlriParse} (hs : s.Delivers)
    (h : s.step (.dump u now update flag) = some s') : s'.Delivers := by
  obtain ⟨⟨b', out⟩, hdump, rfl⟩ := Option.map_eq_some_iff.mp h
  obtain ⟨text, -, hdump⟩ := Checked.bind_eq_ok.mp (Checked.toOption_eq_some.mp hdump)
  rw [delivers_iff] at *
  cases hfind : s.b.dumper[update.nlri.bgpId]? with
  | none =>
      rw [hfind] at hdump
      cases hdump
      exact hs
  | some sender =>
      rw [hfind] at hdump
      cases hdump
      intro i p hp hopened
      exact (filed_insert_write hfind text p.bgpId).mpr (hs i p hp hopened)

theorem delivers_step {a : DumpAction} (hs : s.Delivers) (h : s.step a = some s') :
    s'.Delivers ↔ s.Keeps a := by
  cases a with
  | logging c =>
      rw [step_logging] at h
      cases h
      exact delivers_logging c hs
  | openMsg i now packet => exact delivers_openMsg hs h
  | dump u now update flag => exact iff_of_true (delivers_dump hs h) trivial

theorem keeps_of_stuck {a : DumpAction} (h : s.step a = none) : s.Keeps a := by
  cases a with
  | logging c =>
      rw [step_logging] at h
      cases h
  | openMsg i now packet =>
      intro p bgpId hp hid
      unfold acceptedId at hid
      split at hid
      · rename_i hdr hread
        rw [step, hp, Option.bind_some, decodeOpen, hread] at h
        cases h
      · cases hid
  | dump u now update flag => trivial

/-- From a state with the right destinations, they stay right just as long as the actions are those that
keep them so. -/
theorem always_delivers_iff (hs : s.Delivers) (as : List DumpAction) :
    Always step Delivers as s ↔ AllAdmissible step Keeps as s :=
  always_iff_of_stuck (fun _ => True) (fun _ _ _ _ _ _ => trivial) (fun _ _ _ _ hs h => delivers_step hs h)
    (fun _ _ _ _ h => keeps_of_stuck h) trivial hs as

theorem start_delivers (b : BgpCli) : (start b).Delivers := by
  intro i p _ hopened
  cases hopened

end Dumping

end Log2Bgp
