import Log2Bgp.Aliases.Tables
import Log2Bgp.Cli.Lemmas.Tree
import Log2Bgp.Restore.Lemmas.Changes
import Mathlib.Data.List.Find

/-!
# Labels in answers

The labels that were given to the values of a peer, in runs of alias commands between which sessions change the
peers, and what the `translate_*` functions make of them.
-/

namespace Log2Bgp

open Lib

/-! ## Alias commands -/

/-- The commands that give labels. -/
inductive AliasCommand where
  | bgpId | origin | asPath | nextHop | med | localPref | community
deriving DecidableEq, Repr

namespace AliasCommand

def func : AliasCommand → CmdBgpFunc
  | bgpId => .protoBgpAttributeBgpIdTranslateValue
  | origin => .protoBgpAttributeOriginTranslateValue
  | asPath => .protoBgpAttributeAspathTranslateValue
  | nextHop => .protoBgpAttributeV4nexthopTranslateValue
  | med => .protoBgpAttributeMedTranslateValue
  | localPref => .protoBgpAttributeLocalprefTranslateValue
  | community => .protoBgpAttributeCommunityTranslateValue

/-- What a command for a number says. -/
def numberEntry (code : BgpPathAttrib) (tokens : List Text) : Option TranslateAttribsBase := do
  let number ← tokens[5]?
  let value ← tokens[6]?
  some ⟨code, stringToUint32 number, value⟩

/-- What a command says: the attribute, its value and the label. -/
def entry (c : AliasCommand) (p : CliPeer) (tokens : List Text) : Option TranslateAttribsBase :=
  match c with
  | bgpId => tokens[5]?.map fun value => ⟨.bgpId, p.bgpId, value⟩
  | origin => some ⟨.origin, 0, []⟩
  | asPath => numberEntry .asPath tokens
  | nextHop => do
      let nextHop ← tokens[6]?
      let value ← tokens[7]?
      some ⟨.nextHop, (pton nextHop).getD 0, value⟩
  | med => numberEntry .multiExitDisc tokens
  | localPref => numberEntry .localPref tokens
  | community => numberEntry .community tokens

/-- The place of the peer that a command is for, and what it says of it. -/
def call (c : AliasCommand) (b : BgpCli) (tokens : List Text) : Option (Nat × TranslateAttribsBase) := do
  let ip ← tokens[1]?
  let i ← b.getPeerByStrIp ip
  let p ← b.threadQ[i]?
  let a ← c.entry p tokens
  some (i, a)

end AliasCommand

/-! ## Runs -/

/-- What happens to the peers: an alias command, a session that makes something else of the data of its peer, a
new neighbor, and the end of a peer. -/
inductive AliasEvent where
  | command (env : CliEnv) (c : AliasCommand) (tokens : List Text)
  | session (i : Nat) (data : BgpPeer)
  | neighbor (params : CliPeer)
  | removed (i : Nat)

/-- An instance, and for each peer the labels that commands gave to it, in order. -/
structure Labelled where
  cli : BgpCli
  calls : List (List TranslateAttribsBase)

namespace Labelled

def start (b : BgpCli) : Labelled := ⟨b, b.threadQ.map fun _ => []⟩

def record (calls : List (List TranslateAttribsBase)) : Option (Nat × TranslateAttribsBase) → List (List TranslateAttribsBase)
  | none => calls
  | some (i, a) => calls.modify i (· ++ [a])

def step (s : Labelled) : AliasEvent → Option Labelled
  | .command env c tokens =>
      (runFunc c.func env s.cli tokens).toOption.map fun r => ⟨r.1, record s.calls (c.call s.cli tokens)⟩
  | .session i data => some { s with cli := s.cli.modifyPeer i fun p => { p with toBgpPeer := data } }
  | .neighbor params => some ⟨s.cli.startPeer params, s.calls ++ [[]]⟩
  | .removed i => some ⟨{ s.cli with threadQ := s.cli.threadQ.eraseIdx i }, s.calls.eraseIdx i⟩

/-- The label that was given last to a value of a peer. -/
def configured (s : Labelled) (i : Nat) (code : BgpPathAttrib) (value : UInt32) : Option Text :=
  (s.calls[i]?.bind fun calls => calls.reverse.find? (·.Fits code value)).map TranslateAttribsBase.printableAttrib

end Labelled

/-! ## Questions -/

/-- The values that are translated. -/
inductive AliasQuery where
  | bgpId
  | origin (origin : UInt8)
  | asPath (asPath : UInt32)
  | ipv4NextHop (nextHop : UInt32)
  | med (med : UInt32)
  | localPref (localPref : UInt32)
  | aggregator (aggrSeg : UInt32)
  | communityValue (value : UInt16)
deriving DecidableEq, Repr

namespace AliasQuery

/-- The `translate_*` functions. -/
def translate (u : Uninit) (b : BgpCli) (bgpId : UInt32) : AliasQuery → Checked Text
  | .bgpId => .ok (b.translateBgpId bgpId)
  | origin n => b.translateOrigin bgpId n
  | asPath n => .ok (b.translateAsPath bgpId n)
  | ipv4NextHop n => .ok (b.translateIpv4NextHop bgpId n)
  | med n => .ok (b.translateMed bgpId n)
  | localPref n => .ok (b.translateLocalPref bgpId n)
  | aggregator n => .ok (b.translateAggregator bgpId n)
  | communityValue v => .ok (b.translateCommunityValue u bgpId v)

def code : AliasQuery → BgpPathAttrib
  | bgpId => .bgpId
  | origin _ => .origin
  | asPath _ => .asPath
  | ipv4NextHop _ => .nextHop
  | med _ => .multiExitDisc
  | localPref _ => .localPref
  | aggregator _ => .aggregator
  | communityValue _ => .community

def value (bgpId : UInt32) : AliasQuery → UInt32
  | .bgpId => bgpId
  | origin n => n.toUInt32
  | asPath n => n
  | ipv4NextHop n => n
  | med n => n
  | localPref n => n
  | aggregator n => n
  | communityValue v => v.toUInt32

/-- A label stands behind the number of an AS and the address of an aggregator, and in place of everything else. -/
def text (bgpId : UInt32) (label : Option Text) : AliasQuery → Text
  | .bgpId => label.getD (ntoa bgpId)
  | origin n => label.getD (BgpCli.bgpOriginCodeString.getD n.toNat "").toList
  | asPath n => decimal n.toNat ++ label.getD []
  | ipv4NextHop n => label.getD (ntoa n)
  | med n => label.getD (decimal n.toNat)
  | localPref n => label.getD (decimal n.toNat)
  | aggregator n => ntoa n ++ label.getD []
  | communityValue v => label.getD (decimal v.toNat)

/-- The value is one that there is. -/
def Known : AliasQuery → Prop
  | origin n => n < 3
  | _ => True

/-- The labels that a question gets wrong: one for an earlier identifier of the peer, which is taken for the present
one, one for its origin, which is not looked for, and any of a community, two bytes of which are compared with
memory. -/
def Meets (bgpId : UInt32) (a : TranslateAttribsBase) : AliasQuery → Prop
  | .bgpId => a.code = .bgpId ∧ a.value ≠ bgpId
  | origin n => a.Fits .origin n.toUInt32
  | communityValue _ => a.code = .community
  | _ => False

end AliasQuery

namespace Labelled

/-- The answer is the label that was given last to the value of the peer with the identifier, whichever peer with
it that is, and the plain value if there is none. -/
structure Translates (s : Labelled) (u : Uninit) (bgpId : UInt32) (q : AliasQuery) : Prop where
  peer : ∀ i p, s.cli.threadQ[i]? = some p → p.bgpId = bgpId →
    q.translate u s.cli bgpId = .ok (q.text bgpId (s.configured i q.code (q.value bgpId)))
  plain : (∀ p ∈ s.cli.threadQ, p.bgpId ≠ bgpId) → q.translate u s.cli bgpId = .ok (q.text bgpId none)

/-- The value is known, the first peer has a label if the one with the identifier has, all peers with the identifier
have the same labels, and there are none that the question gets wrong. -/
structure Undisturbed (s : Labelled) (bgpId : UInt32) (q : AliasQuery) : Prop where
  known : q.Known
  first : (∃ calls ∈ s.calls.head?, calls ≠ []) ∨
    ∀ i p, s.cli.threadQ[i]? = some p → p.bgpId = bgpId → s.configured i q.code (q.value bgpId) = none
  same : ∀ i p j p', s.cli.threadQ[i]? = some p → s.cli.threadQ[j]? = some p' → p.bgpId = bgpId → p'.bgpId = bgpId →
    s.configured i q.code (q.value bgpId) = s.configured j q.code (q.value bgpId)
  alone : ∀ (i : Nat) (p : CliPeer), s.cli.threadQ[i]? = some p → p.bgpId = bgpId →
    ∀ calls ∈ s.calls[i]?, ∀ a ∈ calls, ¬ q.Meets bgpId a

/-! ## Tables and calls -/

/-- The table of each peer holds what was set last, and the peer knows whether that is anything. -/
structure Tracked (s : Labelled) : Prop where
  length : s.calls.length = s.cli.threadQ.length
  holds : ∀ (i : Nat) (p : CliPeer) (calls : List TranslateAttribsBase), s.cli.threadQ[i]? = some p →
    s.calls[i]? = some calls → HoldsLast calls p.translateAttribs ∧ (p.isAliasing = true ↔ calls ≠ [])

end Labelled

/-- No peer has labels. -/
def BgpCli.Unlabelled (b : BgpCli) : Prop := ∀ p ∈ b.threadQ, p.translateAttribs = [] ∧ p.isAliasing = false

theorem HoldsLast.nil : HoldsLast [] [] := ⟨.nil, fun _ _ => rfl⟩

/-- The loop of the `translate_*` functions finds the label that was set last. -/
theorem HoldsLast.find? {calls table : List TranslateAttribsBase} (h : HoldsLast calls table) (code : BgpPathAttrib)
    (value : UInt32) : table.find? (fun a => a.code = code && a.value = value) = calls.reverse.find? (·.Fits code value) := by
  have hsame : (fun a : TranslateAttribsBase => decide (a.code = code) && decide (a.value = value)) =
      fun a => decide (a.Fits code value) := by
    funext a
    rw [← Bool.decide_and]
    rfl
  rw [hsame]
  exact find?_eq_of_filter (h.last code value)

theorem HoldsLast.mem {calls table : List TranslateAttribsBase} (h : HoldsLast calls table) {a : TranslateAttribsBase}
    (ha : a ∈ table) : a ∈ calls := by
  have hlast := h.last a.code a.value
  have hmem : a ∈ table.filter (·.Fits a.code a.value) := List.mem_filter.mpr ⟨ha, decide_eq_true (fits_self a)⟩
  rw [hlast, Option.mem_toList] at hmem
  exact List.mem_reverse.mp (List.mem_of_find?_eq_some hmem)

section Step

variable {env : CliEnv} {b b' : BgpCli} {r : Reply} {tokens : List Text} {c : AliasCommand} {i : Nat} {p : CliPeer}

/-- A command that says nothing changes nothing, and one that does sets the alias of its peer. -/
inductive AliasCommand.Effect (env : CliEnv) (b : BgpCli) : Option (Nat × TranslateAttribsBase) → BgpCli → Prop
  | none : Effect env b none b
  | some {i : Nat} {a : TranslateAttribsBase} {p p' : CliPeer} : b.threadQ[i]? = some p →
      p.setTranslation env.std a.code a.value a.printableAttrib = .ok p' →
      Effect env b (some (i, a)) { b with threadQ := b.threadQ.set i p' }

theorem effect_of_setPeerTranslation {code : BgpPathAttrib} {value : CliPeer → UInt32} {label : Text}
    (hp : b.threadQ[i]? = some p) (h : setPeerTranslation env b i code value label = .ok (b', r)) :
    AliasCommand.Effect env b (some (i, ⟨code, value p, label⟩)) b' := by
  obtain ⟨hnone, -⟩ | ⟨p₁, p', hp₁, hset, rfl⟩ := setPeerTranslation_cases h
  · cases hnone.symm.trans hp
  · cases hp.symm.trans hp₁
    exact .some hp hset

theorem effect_of_peer {body : Nat → Cli (BgpCli × Reply)}
    (hbody : ∀ i p, b.threadQ[i]? = some p → body i = .ok (b', r) →
      ∃ a, c.entry p tokens = some a ∧ AliasCommand.Effect env b (some (i, a)) b')
    (h : (do
      let ip ← tokenAt tokens 1
      match b.getPeerByStrIp ip with
      | none => pure (b, noPeer ip)
      | some i => body i) = Except.ok (b', r)) : AliasCommand.Effect env b (c.call b tokens) b' := by
  unfold AliasCommand.call
  obtain ⟨ip, hip, ⟨hnone, rfl⟩ | ⟨i, hi, h⟩⟩ := peer_cases h
  · rw [hip]
    simp only [Option.bind_eq_bind, Option.bind_some, hnone, Option.bind_none]
    exact .none
  · have hlt : i < b.threadQ.length := getPeerByStrIp_lt hi
    obtain ⟨a, ha, heffect⟩ := hbody i _ (List.getElem?_eq_getElem hlt) h
    rw [hip]
    simp only [Option.bind_eq_bind, Option.bind_some, hi, List.getElem?_eq_getElem hlt, ha]
    exact heffect

theorem effect_of_number {code : BgpPathAttrib} (hentry : ∀ p, c.entry p tokens = AliasCommand.numberEntry code tokens)
    (h : attributeTranslateValue code env b tokens = .ok (b', r)) : AliasCommand.Effect env b (c.call b tokens) b' := by
  refine effect_of_peer (fun i p hp h => ?_) h
  obtain ⟨number, hnumber, h⟩ := Checked.bind_eq_ok.mp h
  obtain ⟨value, hvalue, h⟩ := Checked.bind_eq_ok.mp h
  refine ⟨_, ?_, effect_of_setPeerTranslation hp h⟩
  rw [hentry, AliasCommand.numberEntry, tokenAt_eq_ok.mp hnumber, tokenAt_eq_ok.mp hvalue]
  rfl

theorem runFunc_effect (h : runFunc c.func env b tokens = .ok (b', r)) : AliasCommand.Effect env b (c.call b tokens) b' := by
  cases c with
  | bgpId =>
      refine effect_of_peer (fun i p hp h => ?_) h
      obtain ⟨value, hvalue, h⟩ := Checked.bind_eq_ok.mp h
      refine ⟨_, ?_, effect_of_setPeerTranslation hp h⟩
      rw [AliasCommand.entry, tokenAt_eq_ok.mp hvalue]
      rfl
  | origin => exact effect_of_peer (fun i p hp h => ⟨_, rfl, effect_of_setPeerTranslation hp h⟩) h
  | asPath => exact effect_of_number (fun _ => rfl) h
  | nextHop =>
      refine effect_of_peer (fun i p hp h => ?_) h
      obtain ⟨nextHop, hnextHop, h⟩ := Checked.bind_eq_ok.mp h
      obtain ⟨value, hvalue, h⟩ := Checked.bind_eq_ok.mp h
      refine ⟨_, ?_, effect_of_setPeerTranslation hp h⟩
      rw [AliasCommand.entry, tokenAt_eq_ok.mp hnextHop, tokenAt_eq_ok.mp hvalue]
      rfl
  | med => exact effect_of_number (fun _ => rfl) h
  | localPref => exact effect_of_number (fun _ => rfl) h
  | community => exact effect_of_number (fun _ => rfl) h

end Step

namespace Labelled

variable {s s' : Labelled} {u : Uninit} {id : UInt32} {q : AliasQuery}

theorem tracked_start {b : BgpCli} (hb : b.Unlabelled) : (start b).Tracked where
  length := List.length_map _
  holds i p calls hp hcalls := by
    have hfirst : b.threadQ[i]? = some p := hp
    obtain ⟨htable, haliasing⟩ := hb p (List.mem_of_getElem? hfirst)
    rw [start, List.getElem?_map, hfirst] at hcalls
    cases hcalls
    rw [htable, haliasing]
    exact ⟨.nil, by simp⟩

theorem Tracked.command (hs : s.Tracked) {env : CliEnv} {said : Option (Nat × TranslateAttribsBase)} {b : BgpCli}
    (h : AliasCommand.Effect env s.cli said b) : Tracked ⟨b, record s.calls said⟩ := by
  cases h with
  | none => exact hs
  | @some i a p p' hp hset =>
      obtain ⟨-, rfl⟩ := CliPeer.setTranslation_iff.mp hset
      refine ⟨by rw [record, List.length_modify, List.length_set, hs.length], ?_⟩
      intro j q calls hq hcalls
      have hmodified : (s.calls.modify i (· ++ [a]))[j]? = some calls := hcalls
      by_cases hj : i = j
      · subst hj
        have hlt : i < s.cli.threadQ.length := (List.getElem?_eq_some_iff.mp hp).1
        rw [List.getElem?_set_self hlt] at hq
        cases hq
        rw [List.getElem?_modify_eq] at hmodified
        obtain ⟨before, hbefore, rfl⟩ := Option.map_eq_some_iff.mp hmodified
        exact ⟨(hs.holds i p before hp hbefore).1.set env.std a, by simp⟩
      · rw [List.getElem?_set_ne hj] at hq
        rw [List.getElem?_modify_ne _ _ hj] at hmodified
        exact hs.holds j q calls hq hmodified

theorem Tracked.session (hs : s.Tracked) (i : Nat) (data : BgpPeer) :
    Tracked { s with cli := s.cli.modifyPeer i fun p => { p with toBgpPeer := data } } where
  length := by rw [BgpCli.modifyPeer, List.length_modify, hs.length]
  holds j p calls hp hcalls := by
    rw [BgpCli.modifyPeer, List.getElem?_modify] at hp
    obtain ⟨p₀, hp₀, rfl⟩ := Option.map_eq_some_iff.mp hp
    have hold := hs.holds j p₀ calls hp₀ hcalls
    split
    · exact hold
    · exact hold

theorem Tracked.neighbor (hs : s.Tracked) (params : CliPeer) : Tracked ⟨s.cli.startPeer params, s.calls ++ [[]]⟩ where
  length := by simp [BgpCli.startPeer, hs.length]
  holds j p calls hp hcalls := by
    rw [BgpCli.startPeer, List.getElem?_append] at hp
    rw [List.getElem?_append, hs.length] at hcalls
    split at hp
    · rename_i hlt
      rw [if_pos hlt] at hcalls
      exact hs.holds j p calls hp hcalls
    · rename_i hge
      rw [if_neg hge] at hcalls
      cases List.mem_singleton.mp (List.mem_of_getElem? hp)
      cases List.mem_singleton.mp (List.mem_of_getElem? hcalls)
      exact ⟨.nil, by simp [CliPeer.copy]⟩

theorem Tracked.removed (hs : s.Tracked) (i : Nat) :
    Tracked ⟨{ s.cli with threadQ := s.cli.threadQ.eraseIdx i }, s.calls.eraseIdx i⟩ where
  length := by simp only [List.length_eraseIdx, hs.length]
  holds j p calls hp hcalls := by
    rw [List.getElem?_eraseIdx] at hp hcalls
    split at hp
    · rename_i hlt
      rw [if_pos hlt] at hcalls
      exact hs.holds j p calls hp hcalls
    · rename_i hge
      rw [if_neg hge] at hcalls
      exact hs.holds (j + 1) p calls hp hcalls

theorem Tracked.step {e : AliasEvent} (hs : s.Tracked) (h : s.step e = some s') : s'.Tracked := by
  cases e with
  | command env c tokens =>
      obtain ⟨⟨b, r⟩, hrun, rfl⟩ := Option.map_eq_some_iff.mp h
      cases hfunc : runFunc c.func env s.cli tokens with
      | error e => rw [hfunc] at hrun; cases hrun
      | ok x =>
          rw [hfunc] at hrun
          cases hrun
          exact hs.command (runFunc_effect hfunc)
  | session i data => cases h; exact hs.session i data
  | neighbor params => cases h; exact hs.neighbor params
  | removed i => cases h; exact hs.removed i

/-! ## Answers -/

theorem Tracked.calls_eq (hs : s.Tracked) {i : Nat} {p : CliPeer} (hp : s.cli.threadQ[i]? = some p) :
    ∃ calls, s.calls[i]? = some calls := by
  have hlt : i < s.calls.length := by
    rw [hs.length]
    exact (List.getElem?_eq_some_iff.mp hp).1
  exact ⟨_, List.getElem?_eq_getElem hlt⟩

theorem Tracked.configured_eq (hs : s.Tracked) {i : Nat} {p : CliPeer} (hp : s.cli.threadQ[i]? = some p)
    (code : BgpPathAttrib) (value : UInt32) : s.configured i code value =
      (p.translateAttribs.find? fun a => a.code = code && a.value = value).map TranslateAttribsBase.printableAttrib := by
  obtain ⟨calls, hcalls⟩ := hs.calls_eq hp
  rw [configured, hcalls, Option.bind_some, (hs.holds i p calls hp hcalls).1.find? code value]

end Labelled

/-- The entry that a question takes. -/
def AliasQuery.fits (u : Uninit) (bgpId : UInt32) (a : TranslateAttribsBase) : AliasQuery → Bool
  | .bgpId => a.code = .bgpId
  | .origin _ => false
  | .communityValue v => a.code = .community && a.value = v.toUInt32 ||| (u.behind.toUInt32 <<< 16)
  | q => a.code = q.code && a.value = q.value bgpId

theorem AliasQuery.translate_eq {q : AliasQuery} (hq : q.Known) (u : Uninit) (b : BgpCli) (bgpId : UInt32) :
    q.translate u b bgpId = .ok (q.text bgpId (b.label bgpId fun a => q.fits u bgpId a)) := by
  cases q with
  | origin n =>
      have hnone : b.label bgpId (fun _ => false) = none := by
        unfold BgpCli.label
        split
        · simp
        · rfl
      have hlt : n.toNat < BgpCli.bgpOriginCodeString.length := UInt8.lt_iff_toNat_lt.mp hq
      simp only [translate, text, fits, hnone, Option.getD_none, BgpCli.translateOrigin, List.getD_eq_getElem?_getD,
        List.getElem?_eq_getElem hlt, Option.getD_some]
  | bgpId => rfl
  | asPath n => rfl
  | ipv4NextHop n => rfl
  | med n => rfl
  | localPref n => rfl
  | aggregator n => rfl
  | communityValue v => rfl

/-- Without labels that it gets wrong, a question takes the entry for its own value. -/
theorem AliasQuery.fits_eq {u : Uninit} {bgpId : UInt32} {a : TranslateAttribsBase} {q : AliasQuery}
    (h : ¬ q.Meets bgpId a) : q.fits u bgpId a = (a.code = q.code && a.value = q.value bgpId) := by
  cases q with
  | bgpId =>
      have hvalue : a.code = .bgpId → a.value = bgpId := fun hcode => by_contra fun hne => h ⟨hcode, hne⟩
      by_cases hcode : a.code = .bgpId
      · simp [fits, code, value, hcode, hvalue hcode]
      · simp [fits, code, hcode]
  | origin n =>
      have hother : ¬ (a.code = .origin ∧ a.value = n.toUInt32) := h
      rw [code, value, ← Bool.decide_and, decide_eq_false hother]
      rfl
  | communityValue v =>
      have hcode : a.code ≠ .community := h
      simp [fits, code, hcode]
  | asPath n => rfl
  | ipv4NextHop n => rfl
  | med n => rfl
  | localPref n => rfl
  | aggregator n => rfl

namespace Labelled

variable {s : Labelled} {id : UInt32} {q : AliasQuery}

/-- The first peer is asked whether there are labels. -/
theorem Tracked.peerDoingAlias_iff (hs : s.Tracked) (bgpId : UInt32) :
    s.cli.peerDoingAlias bgpId = true ↔ ∃ calls ∈ s.calls.head?, calls ≠ [] := by
  rw [BgpCli.peerDoingAlias, List.head?_eq_getElem?]
  cases hq : s.cli.threadQ with
  | nil =>
      have hnil : s.calls = [] := List.length_eq_zero_iff.mp (by rw [hs.length, hq]; rfl)
      simp [hnil]
  | cons p rest =>
      have hp : s.cli.threadQ[0]? = some p := by rw [hq]; rfl
      obtain ⟨calls, hcalls⟩ := hs.calls_eq hp
      rw [hcalls]
      simpa using (hs.holds 0 p calls hp hcalls).2

theorem Tracked.label_eq (hs : s.Tracked) {j : Nat} {p : CliPeer} (halias : s.cli.peerDoingAlias id = true)
    (hfind : s.cli.getPeerByUint32tBgpId id = some p) (hp : s.cli.threadQ[j]? = some p)
    (halone : ∀ calls ∈ s.calls[j]?, ∀ a ∈ calls, ¬ q.Meets id a) (u : Uninit) :
    s.cli.label id (fun a => q.fits u id a) = s.configured j q.code (q.value id) := by
  obtain ⟨calls, hcalls⟩ := hs.calls_eq hp
  have hlast := (hs.holds j p calls hp hcalls).1
  have hfits : p.translateAttribs.find? (fun a => q.fits u id a) =
      p.translateAttribs.find? fun a => a.code = q.code && a.value = q.value id :=
    List.find?_congr fun a ha => AliasQuery.fits_eq (halone calls hcalls a (hlast.mem ha))
  rw [BgpCli.label, if_pos halias, hfind, Option.bind_some, hfits, hs.configured_eq hp]

theorem Tracked.translates (hs : s.Tracked) (hq : s.Undisturbed id q) (u : Uninit) : s.Translates u id q where
  peer i p hp hid := by
    rw [AliasQuery.translate_eq hq.known]
    congr 2
    by_cases halias : s.cli.peerDoingAlias id = true
    · have hsome : (s.cli.threadQ.find? (·.bgpId = id)).isSome :=
        List.find?_isSome.mpr ⟨p, List.mem_of_getElem? hp, decide_eq_true hid⟩
      obtain ⟨p', hfind⟩ := Option.isSome_iff_exists.mp hsome
      obtain ⟨j, hj⟩ := List.mem_iff_getElem?.mp (List.mem_of_find?_eq_some hfind)
      have hid' : p'.bgpId = id := by simpa using List.find?_some hfind
      rw [hs.label_eq halias hfind hj (hq.alone j p' hj hid') u]
      exact hq.same j p' i p hj hp hid' hid
    · have hnone := hq.first.resolve_left (mt (hs.peerDoingAlias_iff id).mpr halias)
      rw [hnone i p hp hid, BgpCli.label, if_neg halias]
  plain hnone := by
    have hfind : s.cli.getPeerByUint32tBgpId id = none :=
      List.find?_eq_none.mpr fun p hp => by simpa using hnone p hp
    rw [AliasQuery.translate_eq hq.known, BgpCli.label, hfind, Option.bind_none, ite_self]

/-- Two instances answer alike if the peers with the identifier have the same label, whatever else is in their
tables. -/
theorem translate_eq_of_configured {s s' : Labelled} (hs : s.Tracked) (hs' : s'.Tracked) (hq : s.Undisturbed id q)
    (hq' : s'.Undisturbed id q) {i j : Nat} {p p' : CliPeer} (hp : s.cli.threadQ[i]? = some p) (hid : p.bgpId = id)
    (hp' : s'.cli.threadQ[j]? = some p') (hid' : p'.bgpId = id)
    (hsame : s.configured i q.code (q.value id) = s'.configured j q.code (q.value id)) (u : Uninit) :
    q.translate u s.cli id = q.translate u s'.cli id := by
  rw [(hs.translates hq u).peer i p hp hid, (hs'.translates hq' u).peer j p' hp' hid', hsame]

end Labelled

/-! ## Runs of alias commands -/

/-- In every state that alias commands and sessions lead to, a question that nothing disturbs is answered with the
label that was given last to its value. -/
theorem translates_of_run {b : BgpCli} (hb : b.Unlabelled) {events : List AliasEvent} {s : Labelled}
    (hrun : runAll Labelled.step events (.start b) = some s) {id : UInt32} {q : AliasQuery} (hq : s.Undisturbed id q)
    (u : Uninit) : s.Translates u id q :=
  (runAll_invariant (fun _ _ _ hs => hs.step) (Labelled.tracked_start hb) hrun).translates hq u

namespace Example

/-- Two peers with sessions. -/
def peered : BgpCli where
  threadQ := [{ AS := 1, bgpId := 1, pIp := "10.0.0.1".toList }, { AS := 2, bgpId := 2, pIp := "10.0.0.2".toList }]

def namedAs (ip label : String) : AliasEvent :=
  .command { std := .stable } .bgpId (["neighbor", ip, "attribute", "bgp-id", "alias", label].map String.toList)

def named (ip : String) : AliasEvent := namedAs ip "edge"

/-- What the instance is when the first of them has a name, and the second has got two, one after the other. -/
def edged : Labelled where
  cli := {
    threadQ := [
      { AS := 1, bgpId := 1, pIp := "10.0.0.1".toList, translateAttribs := [⟨.bgpId, 1, "edge".toList⟩],
        isAliasing := true },
      { AS := 2, bgpId := 2, pIp := "10.0.0.2".toList, translateAttribs := [⟨.bgpId, 2, "spine".toList⟩],
        isAliasing := true }] }
  calls := [[⟨.bgpId, 1, "edge".toList⟩], [⟨.bgpId, 2, "core".toList⟩, ⟨.bgpId, 2, "spine".toList⟩]]

end Example

theorem translates_of_run_edged :
    runAll Labelled.step
      [Example.named "10.0.0.1", Example.namedAs "10.0.0.2" "core", Example.namedAs "10.0.0.2" "spine"]
      (.start Example.peered) = some Example.edged ∧
    AliasQuery.bgpId.translate {} Example.edged.cli 2 = .ok (AliasQuery.bgpId.text 2 (some "spine".toList)) := by
  have hrun : runAll Labelled.step
      [Example.named "10.0.0.1", Example.namedAs "10.0.0.2" "core", Example.namedAs "10.0.0.2" "spine"]
      (.start Example.peered) = some Example.edged := rfl
  have hnone : Example.peered.Unlabelled := by
    rintro p (_ | ⟨_, _ | ⟨_, ⟨⟩⟩⟩)
    · exact ⟨rfl, rfl⟩
    · exact ⟨rfl, rfl⟩
  have honly : ∀ (i : Nat) (p : CliPeer), Example.edged.cli.threadQ[i]? = some p → p.bgpId = 2 → i = 1 := by
    rintro (_ | _ | i) p ⟨⟩ hid
    · cases hid
    · rfl
  have hundisturbed : Example.edged.Undisturbed 2 .bgpId := by
    refine ⟨trivial, .inl ⟨_, rfl, by simp⟩, ?_, ?_⟩
    · intro i p j p' hp hp' hid hid'
      rw [honly i p hp hid, honly j p' hp' hid']
    · intro i p hp hid calls hcalls a ha
      cases honly i p hp hid
      cases hcalls
      have hvalue : a.value = 2 := by
        rcases List.mem_pair.mp ha with rfl | rfl
        · rfl
        · rfl
      exact fun hmeets => hmeets.2 hvalue
  exact ⟨hrun, (translates_of_run hnone hrun hundisturbed {}).peer 1 _ rfl rfl⟩

/-- The second peer has a label, and the first one none. -/
theorem unasked_label : ∃ s, runAll Labelled.step [Example.named "10.0.0.2"] (.start Example.peered) = some s ∧
    ¬ s.Translates {} 2 .bgpId := by
  refine ⟨_, rfl, ?_⟩
  intro h
  have hpeer := h.peer 1 _ rfl rfl
  exact absurd hpeer (by decide)

end Log2Bgp
