import Log2Bgp.Model.Command

/-!
# Trails through the command tree

The commands that `FindCommand` moves to on its way down, and the tokens that it moves on. A token
that fits no command below the current one is skipped, so a token and the command at its depth part
as soon as one behind such a token moves on.
-/

namespace Log2Bgp

open Lib

/-- A token fits a command: its name begins with the token, or it stands for a value. -/
def Command.Fits (t : Text) (c : Command) : Prop := t <+: c.name ∨ c.name.head? = some '<'

instance (t : Text) (c : Command) : Decidable (c.Fits t) :=
  inferInstanceAs (Decidable (t <+: c.name ∨ c.name.head? = some '<'))

/-- The command below, if any, that a pass of the second loop moves to. -/
def Command.child? (c : Command) (t : Text) : Option Command :=
  c.subCommand.find? fun d => d.named t || d.name.head? = some '<'

/-- What `current_token` points to in the second loop, one move after another. -/
def Command.trail (c : Command) : List Text → List Command
  | [] => []
  | t :: ts =>
      match c.child? t with
      | some d => d :: d.trail ts
      | none => c.trail ts

/-- What `current_token` points to in a run of `FindCommand`: the path to the command it returns. -/
def findTrail (cs : List Command) : List Text → List Command
  | [] => []
  | t :: ts =>
      match findRoot cs t with
      | some root => root :: root.trail ts
      | none => []

/-- A path that starts in a list of commands, each command below the one before it. -/
def PathIn : List Command → List Command → Prop
  | _, [] => True
  | cs, c :: path => c ∈ cs ∧ PathIn c.subCommand path

/-- Each token moves on from the command of the one before it, up to a point behind which no token
does. -/
def Command.InOrder (c : Command) : List Text → Prop
  | [] => True
  | t :: ts =>
      match c.child? t with
      | some d => d.InOrder ts
      | none => ∀ t' ∈ ts, c.child? t' = none

/-! ## One token -/

theorem Command.named_iff {t : Text} {c : Command} : c.named t = true ↔ t <+: c.name :=
  List.isPrefixOf_iff_prefix

theorem Command.fits_iff {t : Text} {c : Command} :
    (c.named t || c.name.head? = some '<') = true ↔ c.Fits t := by
  simp [Command.Fits, Command.named_iff]

theorem Command.child?_eq_none {c : Command} {t : Text} :
    c.child? t = none ↔ ∀ d ∈ c.subCommand, ¬ d.Fits t := by
  simp only [Command.child?, List.find?_eq_none, Command.fits_iff]

theorem Command.child?_eq_some {c d : Command} {t : Text} (h : c.child? t = some d) :
    d ∈ c.subCommand ∧ d.Fits t := by
  have hfit : (d.named t || d.name.head? = some '<') = true := by
    simpa only [Bool.decide_eq_true] using List.find?_some h
  exact ⟨List.mem_of_find?_eq_some h, Command.fits_iff.mp hfit⟩

theorem Command.descend_of_child {c d : Command} {t : Text} (h : c.child? t = some d) :
    c.descend t = d := by
  have hmove : c.descend t = (c.child? t).getD c := rfl
  rw [hmove, h, Option.getD_some]

theorem Command.descend_of_skip {c : Command} {t : Text} (h : c.child? t = none) :
    c.descend t = c := by
  have hmove : c.descend t = (c.child? t).getD c := rfl
  rw [hmove, h, Option.getD_none]

/-! ## The root -/

/-- The first loop keeps the command it has, or finds one behind it that fits. -/
theorem foldl_root (cs : List Command) (t : Text) (current : Option Command) :
    (cs.foldl (fun current c => if c.named t then some c else current) current = current ∧
        ∀ c ∈ cs, ¬ t <+: c.name) ∨
      ∃ c ∈ cs, t <+: c.name ∧
        cs.foldl (fun current c => if c.named t then some c else current) current = some c := by
  induction cs generalizing current with
  | nil => exact .inl ⟨rfl, by simp⟩
  | cons c cs ih =>
      rw [List.foldl_cons]
      obtain ⟨hkeep, hnone⟩ | ⟨d, hd, hfit, hlast⟩ := ih (if c.named t then some c else current)
      · by_cases hc : t <+: c.name
        · refine .inr ⟨c, List.mem_cons_self, hc, ?_⟩
          rw [hkeep, if_pos (Command.named_iff.mpr hc)]
        · refine .inl ⟨?_, List.forall_mem_cons.mpr ⟨hc, hnone⟩⟩
          rw [hkeep, if_neg (mt Command.named_iff.mp hc)]
      · exact .inr ⟨d, List.mem_cons_of_mem c hd, hfit, hlast⟩

theorem findRoot_eq_none {cs : List Command} {t : Text} :
    findRoot cs t = none ↔ ∀ c ∈ cs, ¬ t <+: c.name := by
  obtain ⟨hnone, hfree⟩ | ⟨c, hc, hfit, hsome⟩ := foldl_root cs t none
  · exact iff_of_true hnone hfree
  · refine iff_of_false ?_ fun hfree => hfree c hc hfit
    intro hnone
    cases hsome.symm.trans hnone

theorem findRoot_eq_some {cs : List Command} {t : Text} {root : Command}
    (h : findRoot cs t = some root) : root ∈ cs ∧ t <+: root.name := by
  obtain ⟨hnone, -⟩ | ⟨c, hc, hfit, hsome⟩ := foldl_root cs t none
  · cases h.symm.trans hnone
  · cases h.symm.trans hsome
    exact ⟨hc, hfit⟩

/-! ## The way down -/

theorem Command.trail_of_child {c d : Command} {t : Text} (h : c.child? t = some d) (ts : List Text) :
    c.trail (t :: ts) = d :: d.trail ts := by
  simp only [Command.trail, h]

theorem Command.trail_of_skip {c : Command} {t : Text} (h : c.child? t = none) (ts : List Text) :
    c.trail (t :: ts) = c.trail ts := by
  simp only [Command.trail, h]

theorem Command.inOrder_of_child {c d : Command} {t : Text} (h : c.child? t = some d)
    (ts : List Text) : c.InOrder (t :: ts) ↔ d.InOrder ts := by
  simp only [Command.InOrder, h]

theorem Command.inOrder_of_skip {c : Command} {t : Text} (h : c.child? t = none) (ts : List Text) :
    c.InOrder (t :: ts) ↔ ∀ t' ∈ ts, c.child? t' = none := by
  simp only [Command.InOrder, h]

theorem Command.getLast?_trail (c : Command) (ts : List Text) :
    (c :: c.trail ts).getLast? = some (ts.foldl Command.descend c) := by
  induction ts generalizing c with
  | nil => rfl
  | cons t ts ih =>
      cases h : c.child? t with
      | none => rw [Command.trail_of_skip h, List.foldl_cons, Command.descend_of_skip h, ih c]
      | some d =>
          rw [Command.trail_of_child h, List.foldl_cons, Command.descend_of_child h,
            List.getLast?_cons_cons, ih d]

theorem Command.pathIn_trail (c : Command) (ts : List Text) : PathIn c.subCommand (c.trail ts) := by
  induction ts generalizing c with
  | nil => trivial
  | cons t ts ih =>
      cases h : c.child? t with
      | none =>
          rw [Command.trail_of_skip h]
          exact ih c
      | some d =>
          rw [Command.trail_of_child h]
          exact ⟨(Command.child?_eq_some h).1, ih d⟩

theorem Command.trail_eq_nil {c : Command} {ts : List Text} :
    c.trail ts = [] ↔ ∀ t ∈ ts, c.child? t = none := by
  induction ts with
  | nil => simp [Command.trail]
  | cons t ts ih =>
      cases h : c.child? t with
      | none => rw [Command.trail_of_skip h, ih, List.forall_mem_cons, and_iff_right h]
      | some d => simp [Command.trail_of_child h, h]

/-! ## Tokens and depths -/

/-- The first tokens fit the commands of the trail one by one just in case none of them is skipped
before the last move. A skipped token fits nothing below the current command, so it cannot be the one
for the next command of the trail. -/
theorem Command.trail_fits_iff (c : Command) (ts : List Text) :
    List.Forall₂ Command.Fits (ts.take (c.trail ts).length) (c.trail ts) ↔ c.InOrder ts := by
  induction ts generalizing c with
  | nil => exact iff_of_true .nil trivial
  | cons t ts ih =>
      cases h : c.child? t with
      | some d =>
          rw [Command.trail_of_child h, Command.inOrder_of_child h, List.length_cons,
            List.take_succ_cons, List.forall₂_cons, ih d]
          exact and_iff_right (Command.child?_eq_some h).2
      | none =>
          rw [Command.trail_of_skip h, Command.inOrder_of_skip h, ← Command.trail_eq_nil]
          cases htrail : c.trail ts with
          | nil => simp
          | cons d path =>
              have hpath : PathIn c.subCommand (d :: path) := htrail ▸ c.pathIn_trail ts
              simp only [List.length_cons, List.take_succ_cons, List.forall₂_cons, reduceCtorEq,
                iff_false, not_and]
              intro hfit
              exact absurd hfit (Command.child?_eq_none.mp h d hpath.1)

/-- Where the tokens are in order, those behind the trail fit nothing below its last command. -/
theorem Command.rest_of_inOrder {c : Command} {ts : List Text} (h : c.InOrder ts) :
    ∀ t ∈ ts.drop (c.trail ts).length, ∀ d ∈ (ts.foldl Command.descend c).subCommand, ¬ d.Fits t := by
  induction ts generalizing c with
  | nil => simp
  | cons t ts ih =>
      cases hchild : c.child? t with
      | some d =>
          rw [Command.trail_of_child hchild, List.length_cons, List.drop_succ_cons, List.foldl_cons,
            Command.descend_of_child hchild]
          exact ih ((Command.inOrder_of_child hchild ts).mp h)
      | none =>
          have hskip : ∀ t' ∈ t :: ts, c.child? t' = none :=
            List.forall_mem_cons.mpr ⟨hchild, (Command.inOrder_of_skip hchild ts).mp h⟩
          have htrail : c.trail (t :: ts) = [] := Command.trail_eq_nil.mpr hskip
          have hlast : (t :: ts).foldl Command.descend c = c := by
            have hend := c.getLast?_trail (t :: ts)
            rw [htrail] at hend
            exact (Option.some.inj hend).symm
          rw [htrail, hlast]
          intro t' ht'
          exact Command.child?_eq_none.mp (hskip t' (List.mem_of_mem_drop ht'))

/-! ## A whole line -/

/-- `FindCommand` returns the end of a path whose commands the first tokens fit one by one, so there
are at least as many, while the tokens behind those fit nothing below it. It returns none for the
lines whose first token begins no name of a root. -/
structure FoundAlong (cs : List Command) (tokens : List Text) (path : List Command) : Prop where
  found : findCommand cs tokens = path.getLast?
  inTree : PathIn cs path
  matched : List.Forall₂ Command.Fits (tokens.take path.length) path
  rest : ∀ c, path.getLast? = some c → ∀ t ∈ tokens.drop path.length, ∀ d ∈ c.subCommand, ¬ d.Fits t
  invalid : findCommand cs tokens = none ↔ ∀ t, tokens.head? = some t → ∀ c ∈ cs, ¬ t <+: c.name

/-- The tokens behind the first one are in order below the root that it finds. -/
def TokensInOrder (cs : List Command) (tokens : List Text) : Prop :=
  ∀ t ts, tokens = t :: ts → ∀ root, findRoot cs t = some root → root.InOrder ts

theorem findTrail_of_root {cs : List Command} {t : Text} {root : Command}
    (h : findRoot cs t = some root) (ts : List Text) :
    findTrail cs (t :: ts) = root :: root.trail ts := by
  simp only [findTrail, h]

theorem findTrail_of_none {cs : List Command} {t : Text} (h : findRoot cs t = none) (ts : List Text) :
    findTrail cs (t :: ts) = [] := by
  simp only [findTrail, h]

theorem findCommand_eq_getLast? (cs : List Command) (tokens : List Text) :
    findCommand cs tokens = (findTrail cs tokens).getLast? := by
  cases tokens with
  | nil => rfl
  | cons t ts =>
      cases h : findRoot cs t with
      | none => rw [findTrail_of_none h, findCommand, h, Option.map_none, List.getLast?_nil]
      | some root =>
          rw [findTrail_of_root h, Command.getLast?_trail, findCommand, h, Option.map_some]

theorem findCommand_eq_none (cs : List Command) (tokens : List Text) :
    findCommand cs tokens = none ↔ ∀ t, tokens.head? = some t → ∀ c ∈ cs, ¬ t <+: c.name := by
  cases tokens with
  | nil => simp [findCommand]
  | cons t ts => simp [findCommand, findRoot_eq_none]

theorem pathIn_findTrail (cs : List Command) (tokens : List Text) :
    PathIn cs (findTrail cs tokens) := by
  cases tokens with
  | nil => trivial
  | cons t ts =>
      cases h : findRoot cs t with
      | none =>
          rw [findTrail_of_none h]
          trivial
      | some root =>
          rw [findTrail_of_root h]
          exact ⟨(findRoot_eq_some h).1, root.pathIn_trail ts⟩

end Log2Bgp
