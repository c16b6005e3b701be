import Log2Bgp.MainLoop.Run

/-!
# Messages that arrive
-/

namespace Log2Bgp

open Lib

/-- What the messages and the passes of a run leave alone: each peer's identifier and state. -/
def Bgp.sessions (b : Bgp) : List (UInt32 × BgpPeerState) := b.threadQ.map fun p => (p.bgpId, p.state)

/-- Messages are queued, and nothing else that the main loop looks at is changed. -/
structure Arrived (arrivals : List Arrival) (b b' : Bgp) : Prop where
  rib : b'.adjRibIn = b.adjRibIn
  queues : b'.queues = b.queues
  sessions : b'.sessions = b.sessions
  peer : ∀ i p', b'.threadQ[i]? = some p' → ∃ p, b.threadQ[i]? = some p ∧
    p'.inQueue = p.inQueue ++ (receivedFrom i arrivals).map fun m => m.1.queued m.2

namespace Bgp

variable {b b' : Bgp} {i : Nat} {p p' : BgpPeer}

/-! ## Sessions -/

theorem sessions_get (h : b'.sessions = b.sessions) (hp : b'.threadQ[i]? = some p') :
    ∃ p, b.threadQ[i]? = some p ∧ p'.bgpId = p.bgpId ∧ p'.state = p.state := by
  have hget := congrArg (·[i]?) h
  simp only [sessions, List.getElem?_map, hp, Option.map_some] at hget
  cases hq : b.threadQ[i]? with
  | none => rw [hq] at hget; cases hget
  | some q =>
      rw [hq, Option.map_some, Option.some.injEq] at hget
      obtain ⟨hid, hstate⟩ := Prod.mk.inj hget
      exact ⟨q, rfl, hid, hstate⟩

theorem ids_of_sessions (h : b'.sessions = b.sessions) : b'.ids = b.ids := by
  have hids := congrArg (List.map Prod.fst) h
  simpa [sessions, ids, Function.comp_def] using hids

theorem length_of_sessions (h : b'.sessions = b.sessions) : b'.threadQ.length = b.threadQ.length := by
  have hlen := congrArg List.length h
  simpa [sessions] using hlen

theorem idOf_eq (hp : b.threadQ[i]? = some p) : b.idOf i = p.bgpId := by
  simp [idOf, ids, hp]

theorem idOf_of_sessions (h : b'.sessions = b.sessions) (i : Nat) : b'.idOf i = b.idOf i := by
  rw [idOf, idOf, ids_of_sessions h]

theorem sessions_set (hp : b.threadQ[i]? = some p) (hid : p'.bgpId = p.bgpId)
    (hstate : p'.state = p.state) (q : RibQueues) :
    ({ b with threadQ := b.threadQ.set i p', queues := q } : Bgp).sessions = b.sessions := by
  apply List.ext_getElem?
  intro j
  simp only [sessions, List.getElem?_map, List.getElem?_set']
  by_cases hij : i = j
  · subst hij
    simp [hp, hid, hstate]
  · simp [hij]

/-! ## One message -/

theorem dispatch_keepalive (cfg : BgpConfig) (now : TimeT) (receipt : Receipt) (buffer : List UInt8)
    (length : Nat) (hstate : p.state = .established) :
    ∃ p', dispatch cfg now receipt .keepalive buffer length p = .ok p' ∧ BgpPeer.SameRoutes p p' ∧
      p'.state = p.state := by
  have hup : p.state ≠ .openconfirm := by
    rw [hstate]
    exact BgpPeerState.noConfusion
  simp only [dispatch]
  rw [if_neg hup]
  have hcount : BgpPeer.SameRoutes p
      { p with keepaliv := { p.keepaliv with rx := p.keepaliv.rx + 1, lastRx := now } } :=
    ⟨rfl, rfl, rfl, rfl, rfl⟩
  exact ⟨_, rfl, hcount.trans (BgpPeer.sendPacket_same ..), BgpPeer.sendPacket_state ..⟩

theorem arrive_eq {a : Arrival} (hp : b.threadQ[a.peer]? = some p) (hstate : p.state = .established) :
    ∃ p', b.arrive a = .ok { b with threadQ := b.threadQ.set a.peer p', queues := b.queues } ∧
      p'.bgpId = p.bgpId ∧ p'.state = p.state ∧
      p'.inQueue = p.inQueue ++ a.received.map fun m => m.1.queued m.2 := by
  obtain ⟨i, conn, now, message⟩ := a
  cases message with
  | keepalive =>
      have hread : (p.readAt now).state = .established := hstate
      obtain ⟨p', hp', hsame, hstate'⟩ := dispatch_keepalive b.cfg now ⟨i, conn, p.state⟩ [] 0 hread
      refine ⟨p', ?_, hsame.bgpId, hstate', hsame.inQueue.trans (List.append_nil _).symm⟩
      simp only [arrive, receive, hp, List.append_nil, List.length_nil, hp', Checked.ok_bind,
        Checked.pure_eq_ok]
  | update body =>
      have htake : (body.encode ++ []).take body.encode.length = body.encode := by
        rw [List.append_nil, List.take_length]
      have hfits : body.encode.length ≤ 4096 := body.length_encode ▸ body.fits
      simp only [arrive, receive, hp, dispatch, htake, hfits, ↓reduceDIte, Checked.ok_bind,
        Checked.pure_eq_ok]
      refine ⟨_, rfl, rfl, rfl, ?_⟩
      rw [hstate]
      rfl

/-! ## All messages -/

theorem Arrived.nil (b : Bgp) : Arrived [] b b where
  rib := rfl
  queues := rfl
  sessions := rfl
  peer := by
    intro i p hp
    exact ⟨p, hp, (List.append_nil _).symm⟩

theorem receivedFrom_cons (i : Nat) (a : Arrival) (rest : List Arrival) :
    receivedFrom i (a :: rest) = (if a.peer = i then a.received else []) ++ receivedFrom i rest := by
  unfold receivedFrom
  by_cases h : a.peer = i
  · rw [List.filter_cons_of_pos (by rw [h]; exact decide_eq_true rfl), List.flatMap_cons, if_pos h]
  · rw [List.filter_cons_of_neg (by simpa using h), if_neg h, List.nil_append]

theorem arriveAll_eq (arrivals : List Arrival) (b : Bgp)
    (hup : ∀ a ∈ arrivals, ∃ p, b.threadQ[a.peer]? = some p ∧ p.state = .established) :
    ∃ b', arriveAll arrivals b = .ok b' ∧ Arrived arrivals b b' := by
  induction arrivals generalizing b with
  | nil => exact ⟨b, rfl, Arrived.nil b⟩
  | cons a rest ih =>
      obtain ⟨p, hp, hstate⟩ := hup a List.mem_cons_self
      obtain ⟨p', hb₁, hid, hstate', hqueue⟩ := arrive_eq hp hstate
      have hsessions := sessions_set hp hid hstate' b.queues
      have hrest : ∀ a' ∈ rest, ∃ q, (b.threadQ.set a.peer p')[a'.peer]? = some q ∧
          q.state = .established := by
        intro a' ha'
        obtain ⟨q, hq, hqstate⟩ := hup a' (List.mem_cons_of_mem a ha')
        obtain ⟨q', hq', _, hqstate'⟩ := sessions_get hsessions.symm hq
        exact ⟨q', hq', hqstate'.symm.trans hqstate⟩
      obtain ⟨b', hb', harrived⟩ := ih { b with threadQ := b.threadQ.set a.peer p', queues := b.queues } hrest
      refine ⟨b', ?_, harrived.rib, harrived.queues, harrived.sessions.trans hsessions, ?_⟩
      · simp only [arriveAll, hb₁, Checked.ok_bind]
        exact hb'
      · intro i q' hq'
        obtain ⟨q, hq, hin⟩ := harrived.peer i q' hq'
        rw [List.getElem?_set] at hq
        rw [receivedFrom_cons, List.map_append]
        by_cases hi : a.peer = i
        · subst hi
          simp only [↓reduceIte] at hq ⊢
          split at hq
          · cases hq
            exact ⟨p, hp, by rw [hin, hqueue, List.append_assoc]⟩
          · cases hq
        · rw [if_neg hi] at hq ⊢
          exact ⟨q, hq, hin⟩

end Bgp

end Log2Bgp
