import Log2Bgp.Daemon.Lemmas.Threads
import Log2Bgp.Rib.Lemmas.Changes

/-!
# What a step of the daemon can do
-/

namespace Log2Bgp

open Lib

/-- The routes in the RIB, in the order of their keys. -/
def Bgp.routes (b : Bgp) : List Route := b.adjRibIn.toList.map Prod.snd

theorem Bgp.mem_routes {b : Bgp} {r : Route} : r ∈ b.routes ↔ ∃ k : PrefixEntry, b.adjRibIn[k]? = some r := by
  simp [Bgp.routes, Std.ExtTreeMap.mem_toList_iff_getElem?_eq_some]

namespace Daemon

/-- The steps, with what holds where they are taken. -/
inductive Step (s : Daemon) : DaemonAction → Daemon → Prop where
  | thread {i : Nat} {a : ThreadAction} {p p' : BgpPeer} {t' : PeerThread} :
      s.bgp.threadQ[i]? = some p → threadStep s.bgp.cfg i (s.threads i) p a = some (p', t') →
      Step s (.thread i a)
        { bgp := { s.bgp with threadQ := s.bgp.threadQ.set i p' }, threads := s.setThread i t' }
  | flushed {i : Nat} {p : BgpPeer} {k : PrefixEntry} {old : Route} :
      s.bgp.threadQ[i]? = some p → s.bgp.adjRibIn[k]? = some old → old.bgpId = p.bgpId →
      Step s (.flush i) { s with
        bgp := { s.bgp.modifyPeer i BgpPeer.countFlushed with adjRibIn := s.bgp.adjRibIn.erase k } }
  | flushEnd {i : Nat} {p : BgpPeer} : s.bgp.threadQ[i]? = some p →
      (∀ (k : PrefixEntry) (old : Route), s.bgp.adjRibIn[k]? = some old → old.bgpId ≠ p.bgpId) →
      Step s (.flush i) { s with threads := s.setThread i { s.threads i with phase := .closing } }
  | noPeer {i : Nat} {now : TimeT} : s.bgp.threadQ[i]? = none → Step s (.procInQ i now) s
  | processed {i : Nat} {now : TimeT} {p p' : BgpPeer} {q' : RibQueues} :
      s.bgp.threadQ[i]? = some p → Log2Bgp.procInQ now p s.bgp.queues = .ok (p', q') →
      Step s (.procInQ i now) { s with
        bgp := { s.bgp with threadQ := s.bgp.threadQ.set i p', queues := q' } }
  | entered {r : Route} {rest : List Route} : s.bgp.queues.adjRibInQ = r :: rest →
      Step s .procAdjRibIn { s with bgp := s.bgp.procAdjRibInItem r rest }
  | withdrawn {r : Route} {rest : List Route} {b : Bgp} : s.bgp.queues.adjRibInWdrawQ = r :: rest →
      s.bgp.withdraw r = .ok b →
      Step s .procAdjRibWdraw { s with bgp := { b with
        queues := { b.queues with adjRibInWdrawQ := rest }, tableVersion := b.tableVersion + 1 } }

theorem step_cases {s s' : Daemon} {a : DaemonAction} (h : s.step a = some s') : s.Step a s' := by
  cases a with
  | thread i a =>
      simp only [step] at h
      cases hp : s.bgp.threadQ[i]? with
      | none => rw [hp] at h; cases h
      | some p =>
          rw [hp] at h
          obtain ⟨⟨p', t'⟩, hstep, rfl⟩ := Option.map_eq_some_iff.mp h
          exact .thread hp hstep
  | flush i =>
      simp only [step, Option.ite_none_right_eq_some] at h
      obtain ⟨⟨_, hlt⟩, h⟩ := h
      have hp := List.getElem?_eq_getElem hlt
      cases hflush : s.bgp.flushOne i with
      | some b =>
          rw [hflush] at h
          cases h
          obtain ⟨q, k, old, hq, hold, hid, rfl⟩ := Bgp.flushOne_cases hflush
          exact .flushed hq hold hid
      | none =>
          rw [hflush] at h
          cases h
          exact .flushEnd hp ((Bgp.flushOne_eq_none hp).mp hflush)
  | procInQ i now =>
      obtain ⟨b, hb, rfl⟩ := Option.map_eq_some_iff.mp h
      have hproc := Checked.toOption_eq_some.mp hb
      unfold Bgp.procInQ at hproc
      cases hp : s.bgp.threadQ[i]? with
      | none =>
          rw [hp] at hproc
          cases hproc
          exact .noPeer hp
      | some p =>
          simp only [hp, Checked.bind_eq_ok, Checked.pure_eq_ok, Except.ok.injEq] at hproc
          obtain ⟨⟨p', q'⟩, hq, rfl⟩ := hproc
          exact .processed hp hq
  | procAdjRibIn =>
      simp only [step] at h
      cases hqueue : s.bgp.queues.adjRibInQ with
      | nil => rw [hqueue] at h; cases h
      | cons r rest =>
          rw [hqueue] at h
          cases h
          exact .entered hqueue
  | procAdjRibWdraw =>
      simp only [step] at h
      cases hqueue : s.bgp.queues.adjRibInWdrawQ with
      | nil => rw [hqueue] at h; cases h
      | cons r rest =>
          rw [hqueue] at h
          obtain ⟨b, hb, rfl⟩ := Option.map_eq_some_iff.mp h
          have hproc := Checked.toOption_eq_some.mp hb
          simp only [Bgp.procAdjRibWdrawItem, Checked.bind_eq_ok, Checked.pure_eq_ok, Except.ok.injEq] at hproc
          obtain ⟨b₁, hb₁, rfl⟩ := hproc
          exact .withdrawn hqueue hb₁

theorem flushing_of_step {s s' : Daemon} {i : Nat} (h : s.step (.flush i) = some s') : (s.threads i).phase = .flushing := by
  simp only [step, Option.ite_none_right_eq_some] at h
  exact h.1.1

/-! ## Routes and messages carry their receipts -/

/-- A route that is in the RIB or in one of the two queues. -/
inductive Holds (s : Daemon) (r : Route) : Prop where
  | rib (k : PrefixEntry) : s.bgp.adjRibIn[k]? = some r → Holds s r
  | adjRibInQ : r ∈ s.bgp.queues.adjRibInQ → Holds s r
  | adjRibInWdrawQ : r ∈ s.bgp.queues.adjRibInWdrawQ → Holds s r

/-- Every message is in the queue of the peer that sent it. -/
def Receipts (s : Daemon) : Prop :=
  ∀ (i : Nat) (p : BgpPeer), s.bgp.threadQ[i]? = some p → ∀ d ∈ p.inQueue, d.receipt.peer = i

variable {s s' : Daemon} {a : DaemonAction}

theorem holds_iff {r : Route} :
    s.Holds r ↔ (∃ k : PrefixEntry, s.bgp.adjRibIn[k]? = some r) ∨
      r ∈ s.bgp.queues.adjRibInQ ∨ r ∈ s.bgp.queues.adjRibInWdrawQ := by
  constructor
  · intro h
    cases h with
    | rib k hk => exact Or.inl ⟨k, hk⟩
    | adjRibInQ hr => exact Or.inr (Or.inl hr)
    | adjRibInWdrawQ hr => exact Or.inr (Or.inr hr)
  · rintro (⟨k, hk⟩ | hr | hr)
    · exact .rib k hk
    · exact .adjRibInQ hr
    · exact .adjRibInWdrawQ hr

theorem Start.receipts (h : s.Start) : s.Receipts := by
  obtain ⟨_, _, _, hpeers⟩ := h
  intro i p hp d hd
  rw [(hpeers p (List.mem_of_getElem? hp)).2.2] at hd
  cases hd

/-! ## One thread, one peer -/

theorem setThread_self (s : Daemon) (i : Nat) (t : PeerThread) : s.setThread i t i = t := if_pos rfl

theorem setThread_ne (s : Daemon) {i j : Nat} (t : PeerThread) (h : j ≠ i) :
    s.setThread i t j = s.threads j := if_neg h

theorem getElem?_set_cases {ps : List BgpPeer} {i j : Nat} {p' q : BgpPeer} (h : (ps.set i p')[j]? = some q) :
    (j = i ∧ q = p') ∨ (j ≠ i ∧ ps[j]? = some q) := by
  rw [List.getElem?_set] at h
  by_cases hij : i = j
  · rw [if_pos hij] at h
    split at h
    · cases h
      exact Or.inl ⟨hij.symm, rfl⟩
    · cases h
  · rw [if_neg hij] at h
    exact Or.inr ⟨Ne.symm hij, h⟩

/-! ## Steps that move routes, or drop them -/

/-- Counters apart, the peers are the same. -/
def SamePeers (s : Daemon) (b : Bgp) : Prop :=
  ∀ (i : Nat) (p : BgpPeer), b.threadQ[i]? = some p →
    ∃ q, s.bgp.threadQ[i]? = some q ∧ p.uncounted = q.uncounted

/-- No route is new, and what is new in the RIB comes from its queue. -/
structure Moves (s : Daemon) (b : Bgp) : Prop where
  peers : s.SamePeers b
  adjRibInQ : ∀ r ∈ b.queues.adjRibInQ, r ∈ s.bgp.queues.adjRibInQ
  adjRibInWdrawQ : ∀ r ∈ b.queues.adjRibInWdrawQ, r ∈ s.bgp.queues.adjRibInWdrawQ
  rib : ∀ (k : PrefixEntry) (r : Route), b.adjRibIn[k]? = some r →
    s.bgp.adjRibIn[k]? = some r ∨ (k = r.entry ∧ r ∈ s.bgp.queues.adjRibInQ)

theorem holds_of_eq {b : Bgp} {threads : Nat → PeerThread} {r : Route}
    (h : Holds { bgp := b, threads := threads } r) (hrib : b.adjRibIn = s.bgp.adjRibIn)
    (hqueues : b.queues = s.bgp.queues) : s.Holds r := by
  cases h with
  | rib k hk => exact .rib k (hrib ▸ hk)
  | adjRibInQ hr => exact .adjRibInQ (hqueues ▸ hr)
  | adjRibInWdrawQ hr => exact .adjRibInWdrawQ (hqueues ▸ hr)

theorem Moves.holds {b : Bgp} (h : s.Moves b) {r : Route} {threads : Nat → PeerThread}
    (hr : Holds { bgp := b, threads := threads } r) : s.Holds r := by
  cases hr with
  | rib k hk =>
      rcases h.rib k r hk with hold | ⟨_, hqueued⟩
      · exact .rib k hold
      · exact .adjRibInQ hqueued
  | adjRibInQ hr => exact .adjRibInQ (h.adjRibInQ r hr)
  | adjRibInWdrawQ hr => exact .adjRibInWdrawQ (h.adjRibInWdrawQ r hr)

theorem Moves.refl (s : Daemon) : s.Moves s.bgp where
  peers _ p hp := ⟨p, hp, rfl⟩
  adjRibInQ _ hr := hr
  adjRibInWdrawQ _ hr := hr
  rib _ _ hr := Or.inl hr

theorem lookup_of_erase {rib : BgpAdjRib} {k k' : PrefixEntry} {r : Route}
    (h : (rib.erase k)[k']? = some r) : k' ≠ k ∧ rib[k']? = some r := by
  rw [lookup_erase] at h
  split at h
  · cases h
  · rename_i hne
    exact ⟨hne, h⟩

theorem moves_flushed (s : Daemon) (i : Nat) (k : PrefixEntry) :
    s.Moves { s.bgp.modifyPeer i BgpPeer.countFlushed with adjRibIn := s.bgp.adjRibIn.erase k } where
  peers := by
    have hsame : Bgp.SameSessions s.bgp
        { s.bgp.modifyPeer i BgpPeer.countFlushed with adjRibIn := s.bgp.adjRibIn.erase k } :=
      ⟨rfl, rfl, Bgp.map_modify (f := BgpPeer.countFlushed) (fun _ => rfl) _⟩
    exact fun _ _ hp => hsame.peer hp
  adjRibInQ _ hr := hr
  adjRibInWdrawQ _ hr := hr
  rib _ _ hr := Or.inl (lookup_of_erase hr).2

theorem moves_entered {s : Daemon} {r : Route} {rest : List Route}
    (hqueue : s.bgp.queues.adjRibInQ = r :: rest) : s.Moves (s.bgp.procAdjRibInItem r rest) where
  peers _ _ hp := (Bgp.peerEntry_same s.bgp r).peer hp
  adjRibInQ r' hr' := by
    rw [hqueue]
    exact List.mem_cons_of_mem r hr'
  adjRibInWdrawQ r' hr' := by
    have hkept := congrArg RibQueues.adjRibInWdrawQ (Bgp.peerEntry_same s.bgp r).queues
    exact hkept ▸ hr'
  rib k r' hr' := by
    rcases Bgp.peerEntry_lookup s.bgp r k with hsame | ⟨hk, hnew⟩
    · exact Or.inl (hsame.symm.trans hr')
    · have heq : some r = some r' := hnew.symm.trans hr'
      cases heq
      rw [hqueue]
      exact Or.inr ⟨hk, List.mem_cons_self⟩

theorem moves_withdrawn {s : Daemon} {r : Route} {rest : List Route} {b : Bgp}
    (hqueue : s.bgp.queues.adjRibInWdrawQ = r :: rest) (hb : s.bgp.withdraw r = .ok b) :
    s.Moves { b with
      queues := { b.queues with adjRibInWdrawQ := rest }, tableVersion := b.tableVersion + 1 } where
  peers _ _ hp := (Bgp.withdraw_same hb).peer hp
  adjRibInQ r' hr' := by
    have hkept := congrArg RibQueues.adjRibInQ (Bgp.withdraw_same hb).queues
    exact hkept ▸ hr'
  adjRibInWdrawQ r' hr' := by
    rw [hqueue]
    exact List.mem_cons_of_mem r hr'
  rib k r' hr' := by
    have hdel := Bgp.withdraw_del hb
    have hr : b.adjRibIn[k]? = some r' := hr'
    rw [hdel] at hr
    exact Or.inl (lookup_of_erase hr).2

/-! ## Messages stay with their peers -/

theorem Receipts.same (h : s.Receipts) {b : Bgp} (hsame : s.SamePeers b) (threads : Nat → PeerThread) :
    Receipts { bgp := b, threads := threads } := by
  intro i p hp d hd
  obtain ⟨q, hq, huncounted⟩ := hsame i p hp
  have hqueue : p.uncounted.inQueue = q.uncounted.inQueue := by
    rw [huncounted]
  exact h i q hq d (hqueue ▸ hd)

theorem Receipts.set (h : s.Receipts) {i : Nat} {p' : BgpPeer} {q : RibQueues} {threads : Nat → PeerThread}
    (hqueue : ∀ d ∈ p'.inQueue, d.receipt.peer = i) :
    Receipts { bgp := { s.bgp with threadQ := s.bgp.threadQ.set i p', queues := q }, threads := threads } := by
  intro j r hr d hd
  rcases getElem?_set_cases hr with ⟨rfl, rfl⟩ | ⟨_, hj⟩
  · exact hqueue d hd
  · exact h j r hj d hd

theorem Receipts.step (h : s.Receipts) (hs : s.Step a s') : s'.Receipts := by
  cases hs with
  | @thread i _ p p' t' hp hstep =>
      obtain ⟨_, _, hqueue⟩ := threadStep_cases hstep
      refine h.set (q := s.bgp.queues) ?_
      cases hqueue with
      | kept hkept _ _ _ =>
          rw [hkept]
          exact h i p hp
      | received d hreceipt happended _ _ =>
          intro d' hd'
          rw [happended] at hd'
          rcases List.mem_append.mp hd' with hd' | hd'
          · exact h i p hp d' hd'
          · cases List.mem_singleton.mp hd'
            exact hreceipt
      | emptied _ hempty _ =>
          rw [hempty]
          intro d hd
          cases hd
  | @flushed i _ k _ _ _ _ => exact h.same (moves_flushed s i k).peers s.threads
  | flushEnd _ _ => exact h
  | noPeer _ => exact h
  | @processed i now p p' q' hp hproc =>
      obtain ⟨_, ⟨_, hkept⟩ | ⟨_, hempty, _⟩⟩ := procInQ_cases hproc
      · exact h.set (by rw [hkept]; exact h i p hp)
      · refine h.set ?_
        rw [hempty]
        intro d hd
        cases hd
  | entered hqueue => exact h.same (moves_entered hqueue).peers s.threads
  | withdrawn hqueue hb => exact h.same (moves_withdrawn hqueue hb).peers s.threads

end Daemon

end Log2Bgp
