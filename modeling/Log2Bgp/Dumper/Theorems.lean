import Log2Bgp.Dumper.Lemmas.Filing

/-!
# The dumper

Where the updates of a peer are sent, over runs of commands, OPENs and dumped updates.
-/

namespace Log2Bgp

open Lib

/-- Whatever is dumped for a peer with an accepted OPEN goes, all along a run, to the destination of the
last command for this peer, just in case every command and every OPEN is one that keeps it so. -/
theorem deliveries_iff (b : BgpCli) (as : List DumpAction) :
    Always Dumping.step Dumping.Delivers as (.start b) ↔
      AllAdmissible Dumping.step Dumping.Keeps as (.start b) :=
  Dumping.always_delivers_iff (Dumping.start_delivers b) as

namespace Example

/-- An instance with one peer of AS 2. -/
def onePeer : BgpCli := { AS := 1, threadQ := [{ AS := 2, pIp := "10.0.0.1".toList }] }

/-- The command `neighbor 10.0.0.1 logging host 10.9.9.9 514`. -/
def loggingCommand : LoggingCommand where
  env := { std := .stable }
  line := "neighbor 10.0.0.1 logging host 10.9.9.9 514".toList
  ip := "10.0.0.1".toList
  host := "10.9.9.9".toList
  port := "514".toList
  addr := memWord [10, 9, 9, 9]
  portNum := 514
  tokens := by decide
  validHost := by decide +kernel
  validPort := by decide +kernel

/-- The command `neighbor 10.0.0.1 logging host 10.9.9.9 1514`. -/
def otherPort : LoggingCommand where
  env := { std := .stable }
  line := "neighbor 10.0.0.1 logging host 10.9.9.9 1514".toList
  ip := "10.0.0.1".toList
  host := "10.9.9.9".toList
  port := "1514".toList
  addr := memWord [10, 9, 9, 9]
  portNum := 1514
  tokens := by decide
  validHost := by decide +kernel
  validPort := by decide +kernel

/-- An OPEN with the identifier 10.0.0.1. -/
def acceptedOpen : DumpAction := .openMsg 0 1 [4, 0, 2, 0, 180, 10, 0, 0, 1, 0]

end Example

/-- A command that comes before the OPEN is filed under no identifier of the peer, and one that comes
after it has another port than the datagrams. -/
theorem deliveries_lost :
    ¬ Always Dumping.step Dumping.Delivers [.logging Example.loggingCommand, Example.acceptedOpen]
        (.start Example.onePeer) ∧
    ¬ Always Dumping.step Dumping.Delivers [Example.acceptedOpen, .logging Example.otherPort]
        (.start Example.onePeer) := by
  have hstart := Dumping.start_delivers Example.onePeer
  rw [Dumping.always_delivers_iff hstart, Dumping.always_delivers_iff hstart]
  constructor
  · rintro ⟨-, hrest⟩
    obtain ⟨hkeeps, -⟩ := hrest _ (Dumping.step_logging _ _)
    exact absurd (hkeeps _ (memWord [10, 0, 0, 1]) rfl (by decide)) (by decide)
  · rintro ⟨-, hrest⟩
    obtain ⟨hkeeps, -⟩ := hrest _ rfl
    exact absurd ((hkeeps 0 _ rfl (by decide)).1 rfl) (by decide)

end Log2Bgp
