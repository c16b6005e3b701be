import Log2Bgp.Cli.Lemmas.Neighbors
import Log2Bgp.Cli.Lemmas.Tokens
import Log2Bgp.Cli.Lemmas.Trails
import Log2Bgp.Cli.Lemmas.Tree

/-!
# The command line

What reaches the functions of the command tree: the tokens that a line must have and the places they
have in it. What the commands for new neighbors make of the table of peers.
-/

namespace Log2Bgp

open Lib

/-! ## Tokens -/

/-- A run of a line reads only tokens that the line has just in case there are as many as the function
that `FindCommand` selects needs. `is_api_call` needs one. -/
theorem tokens_in_bounds_iff (env : CliEnv) (b : BgpCli) (line : Text) :
    (Cli.InBounds (executeLine env b line) ↔
      ∀ cmd, findCommand commands (words line) = some cmd →
        tokensRead env b (words line) cmd.func ≤ (words line).length) ∧
    (Cli.InBounds (isApiCall line) ↔ words line ≠ []) :=
  ⟨executeLine_inBounds env b line, isApiCall_inBounds line⟩

/-- `bgp-id` without an address, and a blank line on the port of the API. -/
theorem missing_tokens :
    ¬ (Cli.InBounds (executeLine { std := .stable } (.initBgp 65000) "bgp-id".toList) ∧
      Cli.InBounds (isApiCall " ".toList)) := by
  rintro ⟨hline, -⟩
  exact hline 1 rfl

/-! ## The places of the tokens -/

/-- The first tokens fit the path to the command that `FindCommand` returns one by one, and the others
fit nothing below it, just in case no token that fits nowhere stands before one that moves on. -/
theorem foundAlong_iff (cs : List Command) (tokens : List Text) :
    FoundAlong cs tokens (findTrail cs tokens) ↔ TokensInOrder cs tokens := by
  constructor
  · rintro ⟨-, -, hmatched, -, -⟩ t ts rfl root hroot
    rw [findTrail_of_root hroot, List.length_cons, List.take_succ_cons, List.forall₂_cons] at hmatched
    exact (root.trail_fits_iff ts).mp hmatched.2
  · intro h
    have hlast := findCommand_eq_getLast? cs tokens
    have hpath := pathIn_findTrail cs tokens
    have hinvalid := findCommand_eq_none cs tokens
    cases tokens with
    | nil => exact ⟨hlast, hpath, .nil, (fun c hc => by cases hc), hinvalid⟩
    | cons t ts =>
        cases hroot : findRoot cs t with
        | none =>
            rw [findTrail_of_none hroot] at hlast hpath ⊢
            exact ⟨hlast, hpath, .nil, (fun c hc => by cases hc), hinvalid⟩
        | some root =>
            have horder : root.InOrder ts := h t ts rfl root hroot
            rw [findTrail_of_root hroot] at hlast hpath ⊢
            refine ⟨hlast, hpath, ?_, ?_, hinvalid⟩
            · exact .cons (.inl (findRoot_eq_some hroot).2) ((root.trail_fits_iff ts).mpr horder)
            · intro c hc
              rw [Command.getLast?_trail, Option.some.injEq] at hc
              subst hc
              exact Command.rest_of_inOrder horder

/-- A line with a stray token before `attribute`. -/
def Example.strayLine : List Text :=
  words "neighbor 10.0.0.1 my attribute as-path alias 65001 Home".toList

/-- The function for the names of AS numbers is found, and the number is not where it reads it. -/
theorem stray_token :
    (findCommand commands Example.strayLine).map Command.func =
        some .protoBgpAttributeAspathTranslateValue ∧
      ¬ FoundAlong commands Example.strayLine (findTrail commands Example.strayLine) := by
  refine ⟨by decide, ?_⟩
  intro h
  exact absurd h.matched (by decide)

/-! ## New neighbors -/

/-- A command for an address in the table is answered with a message, and leaves the instance as it is. -/
def NeighborCommand.Answered (b : BgpCli) (c : NeighborCommand) : Prop :=
  c.InTable b → c.run b = .ok (b, c.existsReply)

/-- The address of a command is 0.0.0.0 or not in the table. -/
def NeighborCommand.Fresh (b : BgpCli) (c : NeighborCommand) : Prop := c.addr = 0 ∨ ¬ c.InTable b

/-- From an empty table, every state that a sequence of commands reaches has one peer for an address and
every command for a taken address is answered, just in case no command repeats an address of the table
other than 0.0.0.0. -/
theorem neighbors_unique_iff (asn : UInt16) (cs : List NeighborCommand) :
    (Always NeighborCommand.step BgpCli.OnePerAddress cs (.initBgp asn) ∧
        AllAdmissible NeighborCommand.step NeighborCommand.Answered cs (.initBgp asn)) ↔
      AllAdmissible NeighborCommand.step NeighborCommand.Fresh cs (.initBgp asn) := by
  have hgeneral : ∀ (cs : List NeighborCommand) (b : BgpCli), b.NoIpv4 → b.OnePerAddress →
      ((Always NeighborCommand.step BgpCli.OnePerAddress cs b ∧
          AllAdmissible NeighborCommand.step NeighborCommand.Answered cs b) ↔
        AllAdmissible NeighborCommand.step NeighborCommand.Fresh cs b) := by
    intro cs
    induction cs with
    | nil => exact fun b _ hone => iff_of_true ⟨hone, trivial⟩ trivial
    | cons c cs ih =>
        intro b hb hone
        constructor
        · rintro ⟨⟨-, halways⟩, hanswered, hrest⟩
          refine ⟨?_, ?_⟩
          · by_cases hin : c.InTable b
            · exact .inl ((c.refused_iff hb hin).mp (hanswered hin))
            · exact .inr hin
          · intro b' hb'
            have hone' := (halways b' hb').first
            exact (ih b' (c.noIpv4_step hb hb') hone').mp ⟨halways b' hb', hrest b' hb'⟩
        · rintro ⟨hfresh, hrest⟩
          have hnext : ∀ b' ∈ NeighborCommand.step b c,
              Always NeighborCommand.step BgpCli.OnePerAddress cs b' ∧
                AllAdmissible NeighborCommand.step NeighborCommand.Answered cs b' := by
            intro b' hb'
            have hone' := c.onePerAddress_step hb hone hfresh hb'
            exact (ih b' (c.noIpv4_step hb hb') hone').mpr (hrest b' hb')
          refine ⟨⟨hone, fun b' hb' => (hnext b' hb').1⟩, ?_, fun b' hb' => (hnext b' hb').2⟩
          intro hin
          exact (c.refused_iff hb hin).mpr (hfresh.resolve_right fun h => h hin)
  refine hgeneral cs _ ?_ List.nodup_nil
  intro p hp
  cases hp

/-- The command `neighbor 10.0.0.1 remote-as 65001`. -/
def Example.neighborCommand : NeighborCommand where
  env := { std := .stable }
  line := "neighbor 10.0.0.1 remote-as 65001".toList
  ip := "10.0.0.1".toList
  asn := "65001".toList
  addr := memWord [10, 0, 0, 1]
  tokens := by decide
  valid := by decide

/-- The same command twice puts two peers in the table. -/
theorem neighbor_twice :
    ¬ (Always NeighborCommand.step BgpCli.OnePerAddress
          [Example.neighborCommand, Example.neighborCommand] (.initBgp 65000) ∧
        AllAdmissible NeighborCommand.step NeighborCommand.Answered
          [Example.neighborCommand, Example.neighborCommand] (.initBgp 65000)) := by
  rintro ⟨halways, -⟩
  let p := Example.neighborCommand.params
  have hrun : runAll NeighborCommand.step [Example.neighborCommand, Example.neighborCommand]
      (.initBgp 65000) = some (((BgpCli.initBgp 65000).startPeer p).startPeer p) := rfl
  have hone := halways.last hrun
  exact absurd hone (by simp [BgpCli.OnePerAddress, BgpCli.startPeer, BgpCli.initBgp])

end Log2Bgp
