import Log2Bgp.Dumper.Lines
import Log2Bgp.Lib.Fifo
import Log2Bgp.Restore.Lemmas.Changes

/-!
# The numbers of datagrams

The datagrams that the dumper sends are numbered for each identifier that has a destination. Commands of any kind,
sessions that change the data of a peer and updates that are dumped come in any order.
-/

namespace Log2Bgp

open Lib

/-- A line at the command line, a session that makes something else of the data of its peer, or an update that is
dumped. -/
inductive FeedAction where
  | line (c : CliInput)
  | session (i : Nat) (data : BgpPeer)
  | dump (u : Uninit) (now : TimeT) (update : BgpUpdate) (flag : NlriParse)

namespace Feed

def step (b : BgpCli) : FeedAction → Option BgpCli
  | .line c => CliInput.step b c
  | .session i data => some (b.modifyPeer i fun p => { p with toBgpPeer := data })
  | .dump u now update flag => (translateAndDumpUpdate u now b update flag).toOption.map Prod.fst

/-- A datagram: the identifier that it was sent for, the text of the update, and the packet. -/
structure Sent where
  bgpId : UInt32
  text : Text
  packet : Text
deriving DecidableEq, Repr

/-- The datagram of an action, if it sends one. -/
def sends (b : BgpCli) : FeedAction → List Sent
  | .dump u now update flag =>
      match dumpText u now b update flag, translateAndDumpUpdate u now b update flag with
      | .ok text, .ok (_, .datagram _ packet) => [⟨update.nlri.bgpId, text, packet⟩]
      | _, _ => []
  | _ => []

/-- The datagrams of a run that were sent for an identifier. -/
def log (bgpId : UInt32) (as : List FeedAction) (b : BgpCli) : List Sent :=
  (trace step sends as b).filter (·.bgpId = bgpId)

/-! ## One action -/

/-- The number of the last datagram for an identifier, or where the numbers begin. -/
def lastNumber (b : BgpCli) (bgpId : UInt32) : Int32 := ((b.dumper[bgpId]?).map UdpSender.sequence).getD 1000

/-- The text of a packet with a number. -/
def packetText (number : Int32) (text : Text) : Text :=
  "<189>".toList ++ decimalInt number.toInt ++ ":".toList ++ text

/-- A new destination keeps the count of the old one. -/
theorem lastNumber_addDestHost (b : BgpCli) (k : UInt32) (host : Text) (port : UInt16) (bgpId : UInt32) :
    lastNumber { b with dumper := b.dumper.addDestHost k host port } bgpId = lastNumber b bgpId := by
  simp only [lastNumber, UdpDestinations.addDestHost]
  rw [lookup_insert]
  split
  · rename_i hk
    rw [hk]
    cases b.dumper[k]? <;> simp [UdpSender.call]
  · rfl

theorem lastNumber_change {u : Uninit} {b b' : BgpCli} (h : b.Change u b') (bgpId : UInt32) :
    lastNumber b' bgpId = lastNumber b bgpId := by
  cases h with
  | none hb => rw [hb]; rfl
  | logging port _ _ => exact lastNumber_addDestHost b _ _ port bgpId
  | setId _ | dumper _ | neighbor _ _ _ | sizes _ _ | translation _ _ _ _ _ => rfl

/-- The instance once a datagram has been sent. -/
def counted (b : BgpCli) (bgpId : UInt32) (s : UdpSender) : BgpCli :=
  { b with dumper := b.dumper.insert bgpId { s with sequence := s.sequence + 1 } }

theorem lastNumber_counted {b : BgpCli} {k : UInt32} {s : UdpSender} (hs : b.dumper[k]? = some s) (bgpId : UInt32) :
    lastNumber (counted b k s) bgpId = if bgpId = k then lastNumber b k + 1 else lastNumber b bgpId := by
  simp only [lastNumber, counted]
  rw [lookup_insert]
  split
  · simp [hs]
  · rfl

/-- What is dumped for one identifier is sent with the next number, or it is not sent and nothing changes. -/
theorem dump_cases {u : Uninit} {now : TimeT} {b b' : BgpCli} {update : BgpUpdate} {flag : NlriParse}
    (h : step b (.dump u now update flag) = some b') :
    (sends b (.dump u now update flag) = [] ∧ b' = b) ∨
      ∃ text s, b.dumper[update.nlri.bgpId]? = some s ∧ b' = counted b update.nlri.bgpId s ∧
        sends b (.dump u now update flag) =
          [⟨update.nlri.bgpId, text, packetText (lastNumber b update.nlri.bgpId + 1) text⟩] := by
  obtain ⟨⟨b₁, out⟩, hdump, rfl⟩ := Option.map_eq_some_iff.mp h
  have hdump := Checked.toOption_eq_some.mp hdump
  have hwhole := hdump
  obtain ⟨text, htext, hdump⟩ := Checked.bind_eq_ok.mp hdump
  cases hs : b.dumper[update.nlri.bgpId]? with
  | none =>
      rw [hs] at hdump
      cases hdump
      left
      rw [sends, htext, hwhole]
      exact ⟨rfl, rfl⟩
  | some s =>
      rw [hs] at hdump
      cases hdump
      right
      have hnumber : lastNumber b update.nlri.bgpId = s.sequence := by simp [lastNumber, hs]
      refine ⟨text, s, rfl, rfl, ?_⟩
      simp only [sends, htext, hwhole, hnumber]
      rfl

/-! ## Runs -/

/-- Datagrams with the numbers that follow a number. -/
def Numbered : Int32 → List Sent → Prop
  | _, [] => True
  | n, x :: xs => x.packet = packetText (n + 1) x.text ∧ Numbered (n + 1) xs

theorem numbered_log (bgpId : UInt32) (as : List FeedAction) (b : BgpCli) :
    Numbered (lastNumber b bgpId) (log bgpId as b) := by
  induction as generalizing b with
  | nil => trivial
  | cons a as ih =>
      cases hstep : step b a with
      | none => simp [log, trace, hstep, Numbered]
      | some b' =>
          have hrest := ih b'
          rw [log, trace_cons hstep, List.filter_append, ← log]
          cases a with
          | line c =>
              rw [lastNumber_change (CliInput.step_change hstep)] at hrest
              simpa [sends] using hrest
          | session i data =>
              cases hstep
              have hkept : lastNumber (b.modifyPeer i fun p => { p with toBgpPeer := data }) bgpId =
                  lastNumber b bgpId := rfl
              rw [hkept] at hrest
              simpa [sends] using hrest
          | dump u now update flag =>
              rcases dump_cases hstep with ⟨hsends, rfl⟩ | ⟨text, s, hs, rfl, hsends⟩
              · simpa [hsends] using hrest
              · rw [lastNumber_counted hs] at hrest
                rw [hsends, List.filter_singleton]
                by_cases hid : update.nlri.bgpId = bgpId
                · subst hid
                  simpa [Numbered] using hrest
                · simpa [hid, Ne.symm hid] using hrest

theorem Numbered.get {n : Int32} {xs : List Sent} (h : Numbered n xs) {k : Nat} {x : Sent} (hx : xs[k]? = some x) :
    x.packet = packetText (n + Int32.ofNat (k + 1)) x.text := by
  induction xs generalizing n k with
  | nil => simp at hx
  | cons y ys ih =>
      obtain ⟨hfirst, hrest⟩ := h
      cases k with
      | zero =>
          cases hx
          exact hfirst
      | succ k =>
          have hnext := ih hrest hx
          have hsum : n + 1 + Int32.ofNat (k + 1) = n + Int32.ofNat (k + 1 + 1) := by
            rw [Int32.add_assoc, Int32.add_comm 1, Int32.ofNat_add (k + 1) 1]
            rfl
          rwa [hsum] at hnext

end Feed

/-- From an instance without destinations on, the datagrams for an identifier, counted from 0, carry the numbers from
1001 on in the order in which they are sent, whatever commands and sessions come between them, as long as the counter
does not overflow. -/
theorem datagrams_numbered {b : BgpCli} (hb : b.dumper = ∅) (as : List FeedAction) (bgpId : UInt32) {k : Nat}
    {x : Feed.Sent} (hx : (Feed.log bgpId as b)[k]? = some x) (hk : 1001 + k < 2147483648) :
    x.packet = "<189>".toList ++ decimal (1001 + k) ++ ":".toList ++ x.text := by
  have hnumbered := (Feed.numbered_log bgpId as b).get hx
  have hfirst : Feed.lastNumber b bgpId = 1000 := by simp [Feed.lastNumber, hb]
  have hint : (1000 + Int32.ofNat (k + 1)).toInt = ((1001 + k : Nat) : Int) := by
    have hsum : 1000 + Int32.ofNat (k + 1) = Int32.ofNat (1000 + (k + 1)) := (Int32.ofNat_add 1000 (k + 1)).symm
    rw [hsum, Int32.toInt_ofNat_of_lt (by omega)]
    omega
  have hdecimal : decimalInt ((1001 + k : Nat) : Int) = decimal (1001 + k) := by
    rw [decimalInt, if_neg (by omega), Int.natAbs_natCast]
  rw [hfirst] at hnumbered
  calc x.packet = Feed.packetText (1000 + Int32.ofNat (k + 1)) x.text := hnumbered
    _ = "<189>".toList ++ decimalInt ((1001 + k : Nat) : Int) ++ ":".toList ++ x.text := by rw [← hint]; rfl
    _ = "<189>".toList ++ decimal (1001 + k) ++ ":".toList ++ x.text := by rw [hdecimal]

namespace Example

def types (line : String) : FeedAction := .line ⟨{ std := .stable }, line.toList⟩

/-- A neighbor is given a destination, and then another, with an update dumped after each. -/
def feedRun : List FeedAction :=
  [types "neighbor 10.0.0.2 remote-as 2", types "neighbor 10.0.0.2 logging host 10.0.0.9 514",
    .dump {} 0 pathed .update, types "neighbor 10.0.0.2 logging host 10.0.0.8 514", .dump {} 0 pathed .withdraw]

end Example

theorem datagrams_numbered_second : ∃ x, (Feed.log 0 Example.feedRun (.initBgp 1))[1]? = some x ∧
    x.packet = "<189>".toList ++ decimal 1002 ++ ":".toList ++ x.text := by
  have hsome : ((Feed.log 0 Example.feedRun (.initBgp 1))[1]?).isSome = true := by
    decide +kernel
  obtain ⟨x, hx⟩ := Option.isSome_iff_exists.mp hsome
  exact ⟨x, hx, datagrams_numbered rfl Example.feedRun 0 hx (by decide)⟩

end Log2Bgp
