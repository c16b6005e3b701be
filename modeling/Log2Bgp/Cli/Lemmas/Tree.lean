import Log2Bgp.Model.Cli

/-!
# Walks down the command tree

`FindCommand` never leaves the part of the tree that it starts in, and what `is_api_call` lets pass
starts at `api-get`.
-/

namespace Log2Bgp

open Lib

/-! ## Parts of the tree -/

mutual

/-- All functions at a command and below it are of a kind. -/
def Command.allFuncs (p : CmdBgpFunc → Bool) : Command → Bool
  | ⟨_, func, subs⟩ => p func && allFuncsOf p subs

/-- The same for a list of commands. -/
def allFuncsOf (p : CmdBgpFunc → Bool) : List Command → Bool
  | [] => true
  | c :: cs => c.allFuncs p && allFuncsOf p cs

end

section Part

variable {p : CmdBgpFunc → Bool}

theorem Command.func_of_allFuncs {c : Command} (h : c.allFuncs p = true) : p c.func = true := by
  obtain ⟨name, func, subs⟩ := c
  simp only [Command.allFuncs, Bool.and_eq_true] at h
  exact h.1

theorem allFuncs_of_mem {cs : List Command} (h : allFuncsOf p cs = true) :
    ∀ c ∈ cs, c.allFuncs p = true := by
  induction cs with
  | nil => simp
  | cons c cs ih =>
      simp only [allFuncsOf, Bool.and_eq_true] at h
      intro d hd
      cases hd with
      | head => exact h.1
      | tail _ hd => exact ih h.2 d hd

theorem Command.allFuncs_descend {c : Command} (h : c.allFuncs p = true) (t : Text) :
    (c.descend t).allFuncs p = true := by
  unfold Command.descend
  cases hfind : c.subCommand.find? fun d => d.named t || d.name.head? = some '<' with
  | none => exact h
  | some d =>
      obtain ⟨name, func, subs⟩ := c
      simp only [Command.allFuncs, Bool.and_eq_true] at h
      exact allFuncs_of_mem h.2 d (List.mem_of_find?_eq_some hfind)

theorem Command.allFuncs_walk {c : Command} (h : c.allFuncs p = true) (tokens : List Text) :
    (tokens.foldl Command.descend c).allFuncs p = true := by
  induction tokens generalizing c with
  | nil => exact h
  | cons t tokens ih => exact ih (Command.allFuncs_descend h t)

end Part

/-! ## The commands for a neighbor -/

/-- The command below `neighbor`, which any token fits. -/
def peerNode : Command :=
  ⟨"<x.x.x.x>".toList, .protoBgpNeighbor, sortBack 7 neighborCommands⟩

theorem findRoot_neighbor :
    findRoot commands "neighbor".toList = some ⟨"neighbor".toList, .protoBgpNeighbor, [peerNode]⟩ :=
  rfl

theorem descend_neighbor (ip : Text) :
    Command.descend ⟨"neighbor".toList, .protoBgpNeighbor, [peerNode]⟩ ip = peerNode := by
  have hany : (peerNode.named ip || peerNode.name.head? = some '<') = true := by
    rw [Bool.or_eq_true]
    exact .inr (by decide)
  simp only [Command.descend, List.find?_cons, hany, Option.getD_some]

theorem findCommand_neighbor {f : CmdBgpFunc} {key : List Text}
    (h : (key.foldl Command.descend peerNode).allFuncs (· = f) = true) (ip : Text) (rest : List Text) :
    ∃ cmd, findCommand commands ("neighbor".toList :: ip :: (key ++ rest)) = some cmd ∧ cmd.func = f := by
  refine ⟨(key ++ rest).foldl Command.descend peerNode, ?_, ?_⟩
  · rw [findCommand, findRoot_neighbor, Option.map_some, List.foldl_cons, descend_neighbor]
  · rw [List.foldl_append]
    simpa using Command.func_of_allFuncs (Command.allFuncs_walk h rest)

theorem executeLine_eq {line : Text} {t : Text} {ts : List Text} {cmd : Command} (env : CliEnv) (b : BgpCli)
    (hwords : words line = t :: ts) (hfind : findCommand commands (t :: ts) = some cmd) :
    executeLine env b line = runFunc cmd.func env b (t :: ts) := by
  have hline : line ≠ [] := by
    rintro rfl
    cases hwords
  rw [executeLine, if_neg hline, hwords, hfind]

/-! ## What the API may run -/

/-- The four functions of the API. -/
def apiFuncs : List CmdBgpFunc :=
  [.apiGetPrefix, .apiGetAllOriginAs, .apiGetPublicOriginAs, .apiGetPrivateOriginAs]

theorem findRoot_apiGet :
    (findRoot commands "api-get".toList).map (Command.allFuncs (· ∈ apiFuncs)) = some true := by
  decide

theorem findCommand_apiGet (tokens : List Text) :
    ∃ cmd, findCommand commands ("api-get".toList :: tokens) = some cmd ∧ cmd.func ∈ apiFuncs := by
  obtain ⟨root, hroot, hall⟩ := Option.map_eq_some_iff.mp findRoot_apiGet
  refine ⟨tokens.foldl Command.descend root, by rw [findCommand, hroot]; rfl, ?_⟩
  simpa using Command.func_of_allFuncs (Command.allFuncs_walk hall tokens)

theorem isApiCall_eq_ok {buffer : Text} {legal : Bool} :
    isApiCall buffer = .ok legal ↔
      ∃ t ts, words buffer = t :: ts ∧ legal = decide (t = "api-get".toList) := by
  unfold isApiCall tokenAt
  cases words buffer with
  | nil => simp
  | cons t ts =>
      simp only [List.getElem?_cons_zero, Checked.ok_bind, Checked.pure_eq_ok, Except.ok.injEq,
        List.cons.injEq]
      constructor
      · rintro rfl
        exact ⟨t, ts, ⟨rfl, rfl⟩, rfl⟩
      · rintro ⟨_, _, ⟨rfl, rfl⟩, rfl⟩
        rfl

/-- Cutting a text at a null character keeps a first word that has none. -/
theorem words_cStr {s w : Text} {ws : List Text} (h : words s = w :: ws)
    (hw : Char.ofNat 0 ∉ w) : ∃ ws', words (cStr s) = w :: ws' := by
  obtain ⟨sp, t, rfl, hsp, ht, -⟩ := words_eq_cons h
  have hnull : isSpace (Char.ofNat 0) = false := rfl
  have hspace : ∀ c, isSpace c = true → c ≠ Char.ofNat 0 := by
    rintro c hc rfl
    cases hc.symm.trans hnull
  have hfirst : ∀ c ∈ w, c ≠ Char.ofNat 0 := List.forall_mem_ne'.mpr hw
  have hcut : cStr (sp ++ (w ++ t)) = sp ++ (w ++ cStr t) := by
    unfold cStr
    rw [List.takeWhile_append_of_pos (by simpa using fun c hc => hspace c (hsp c hc)),
      List.takeWhile_append_of_pos (by simpa using hfirst)]
  have hend : WordEnd (cStr t) := by
    obtain rfl | ⟨c, t, rfl, hc⟩ := ht
    · exact .inl rfl
    · exact .inr ⟨c, cStr t, by simp [cStr, hspace c hc], hc⟩
  have hword : IsWord w := isWord_of_mem_words (h ▸ List.mem_cons_self)
  exact ⟨words (cStr t), by rw [hcut, words_spaces hsp, words_append hword hend]⟩

/-! ## What the functions of the API change -/

/-- Two instances that differ at most in the position of the stream of the database. -/
def BgpCli.SameButDb (b b' : BgpCli) : Prop := b' = { b with db := b'.db }

theorem BgpCli.SameButDb.refl (b : BgpCli) : b.SameButDb b := rfl

theorem BgpCli.SameButDb.trans {b b' b'' : BgpCli} (h : b.SameButDb b') (h' : b'.SameButDb b'') :
    b.SameButDb b'' := by
  rw [BgpCli.SameButDb] at *
  rw [h', h]

theorem dbGetEntries_same {fuel : Nat} {b b' : BgpCli} {entry : BgpUpdate} {records : List BgpUpdate}
    (h : b.dbGetEntries fuel entry = .ok (b', records)) : b.SameButDb b' := by
  unfold BgpCli.dbGetEntries at h
  split at h
  · cases h
  · cases h
    exact rfl

theorem jsonEntry_same {u : Uninit} {fuel : Nat} {hist : Bool} {b b' : BgpCli} {entry : BgpUpdate}
    {text : Text} (h : jsonEntry u fuel hist b entry = .ok (b', text)) : b.SameButDb b' := by
  obtain ⟨t, -, h⟩ := Checked.bind_eq_ok.mp h
  split at h
  · obtain ⟨⟨b₁, records⟩, hdb, h⟩ := Checked.bind_eq_ok.mp h
    obtain ⟨history, -, h⟩ := Checked.bind_eq_ok.mp h
    cases h
    exact dbGetEntries_same hdb
  · cases h
    exact .refl b

theorem jsonEntries_same {u : Uninit} {fuel : Nat} {hist : Bool} {entries : List BgpUpdate}
    {b b' : BgpCli} {texts : List Text} (h : jsonEntries u fuel hist entries b = .ok (b', texts)) :
    b.SameButDb b' := by
  induction entries generalizing b b' texts with
  | nil =>
      cases h
      exact .refl b
  | cons entry rest ih =>
      obtain ⟨⟨b₁, text⟩, hone, h⟩ := Checked.bind_eq_ok.mp h
      obtain ⟨⟨b₂, texts'⟩, hrest, h⟩ := Checked.bind_eq_ok.mp h
      cases h
      exact (jsonEntry_same hone).trans (ih hrest)

theorem Cli.ofChecked_eq_ok {α : Type} {x : Checked α} {a : α} : Cli.ofChecked x = .ok a ↔ x = .ok a := by
  cases x with
  | error e => simp [Cli.ofChecked]
  | ok c => simp [Cli.ofChecked]

theorem apiGetPrefix_same {env : CliEnv} {b b' : BgpCli} {tokens : List Text} {r : Reply}
    (h : apiGetPrefix env b tokens = .ok (b', r)) : b.SameButDb b' := by
  unfold apiGetPrefix at h
  split at h
  · cases h
    exact .refl b
  · obtain ⟨ip, -, h⟩ := Checked.bind_eq_ok.mp h
    split at h
    · cases h
      exact .refl b
    · obtain ⟨hist, -, h⟩ := Checked.bind_eq_ok.mp h
      dsimp only at h
      split at h
      · cases h
        exact .refl b
      · obtain ⟨⟨b₁, texts⟩, hentries, h⟩ := Checked.bind_eq_ok.mp h
        cases h
        exact jsonEntries_same (Cli.ofChecked_eq_ok.mp hentries)

theorem apiGetOriginAs_same {query : OriginQuery} {env : CliEnv} {b b' : BgpCli} {tokens : List Text}
    {r : Reply} (h : apiGetOriginAs query env b tokens = .ok (b', r)) : b.SameButDb b' := by
  unfold apiGetOriginAs at h
  split at h
  · cases h
    exact .refl b
  · obtain ⟨asn, -, h⟩ := Checked.bind_eq_ok.mp h
    obtain ⟨length, -, h⟩ := Checked.bind_eq_ok.mp h
    obtain ⟨found, -, h⟩ := Checked.bind_eq_ok.mp h
    cases h
    exact .refl b

theorem runFunc_api_same {f : CmdBgpFunc} (hf : f ∈ apiFuncs) {env : CliEnv} {b b' : BgpCli}
    {tokens : List Text} {r : Reply} (h : runFunc f env b tokens = .ok (b', r)) : b.SameButDb b' := by
  simp only [apiFuncs, List.mem_cons, List.not_mem_nil, or_false] at hf
  obtain rfl | rfl | rfl | rfl := hf
  · exact apiGetPrefix_same h
  all_goals
    exact apiGetOriginAs_same (show apiGetOriginAs _ env b tokens = .ok (b', r) from h)

end Log2Bgp
