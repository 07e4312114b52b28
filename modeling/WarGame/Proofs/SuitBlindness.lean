import WarGame.Proofs.Lockstep

/-!
# Suits tell nothing before they decide

Two games that agree but for the suits of their cards go on agreeing round after round, with the
same reports, until a round comes to the suits. It does so in both games at once.
-/

namespace WarGame

namespace Game

variable {g h : Game}

/-- Hands and decks that agree rank for rank, with the same ids and standings and in the same
phase. -/
def SameRanks (g h : Game) : Prop := g.Like id (fun c => c.rank) h

theorem SameRanks.symm (same : g.SameRanks h) : h.SameRanks g := by
  refine ⟨(same.table.imp fun s t like => ?_).flip, same.deck.symm, same.phase.symm⟩
  exact ⟨like.id.symm, like.standing.symm, like.hand.symm⟩

/-! ### One round -/

theorem SameRanks.round_eq (same : g.SameRanks h) (sound : g.table.Sound) (fair : h.table.Sound)
    (untold : (roundLaw g.table.contenders).2.bySuit = false) :
    ∃ report after later, g.round = (.ok report, after) ∧ h.round = (.ok report, later) ∧
      report.decision.bySuit = false ∧ after.SameRanks later := by
  obtain ⟨n, report, settled, m, late, played, again, alike⟩ :=
    Like.round (fun _ _ ranks => ranks) same sound fair (.inr untold)
  have unnamed : report.rename id = report := by simp [RoundReport.rename]
  rw [unnamed] at again
  rw [← played.law] at untold
  exact ⟨report, _, _, played.round, again.round, untold, alike⟩

/-- A round comes to the suits in both games or in neither. -/
theorem SameRanks.round (same : g.SameRanks h) (sound : g.table.Sound) (fair : h.table.Sound) :
    ∃ report after other later, g.round = (.ok report, after) ∧ h.round = (.ok other, later) ∧
      other.decision.bySuit = report.decision.bySuit ∧
      (report.decision.bySuit = false → other = report ∧ after.SameRanks later) := by
  cases told : (roundLaw g.table.contenders).2.bySuit with
  | false =>
    obtain ⟨report, after, later, played, again, -, alike⟩ := same.round_eq sound fair told
    exact ⟨report, after, report, later, played, again, rfl, fun _ => ⟨rfl, alike⟩⟩
  | true =>
    -- Were the second game decided by rank, so would be the first, read the other way round.
    have also : (roundLaw h.table.contenders).2.bySuit = true := by
      by_contra untold
      obtain ⟨report, after, later, -, again, untold, -⟩ :=
        same.symm.round_eq fair sound (Bool.not_eq_true _ ▸ untold)
      obtain ⟨_, _, _, played⟩ := exists_played sound
      rw [played.round] at again
      cases again
      rw [← played.law, untold] at told
      cases told
    obtain ⟨_, report, settled, played⟩ := exists_played sound
    obtain ⟨_, other, late, again⟩ := exists_played fair
    rw [← played.law] at told
    rw [← again.law] at also
    refine ⟨report, _, other, _, played.round, again.round, also.trans told.symm, fun untold => ?_⟩
    rw [told] at untold
    cases untold

/-! ### Rounds one after the other -/

/-- The answers to so many calls for a round. -/
def answers (g : Game) : Nat → List (Except GameError RoundReport)
  | 0 => []
  | calls + 1 => g.advance.1 :: g.advance.2.answers calls

/-- Whether an answer came without a look at the suits. -/
def byRank : Except GameError RoundReport → Bool
  | .ok report => !report.decision.bySuit
  | .error _ => true

theorem SameRanks.answers (same : g.SameRanks h) (sound : g.Sound) (fair : h.Sound) (calls : Nat) :
    (g.answers calls).takeWhile byRank = (h.answers calls).takeWhile byRank := by
  induction calls generalizing g h with
  | zero => rfl
  | succ calls ih =>
    unfold Game.answers
    cases ended : g.hasEnded with
    | true =>
      have also : h.hasEnded = true := (Like.hasEnded same).trans ended
      rw [advance_of_ended ended, advance_of_ended also, List.takeWhile_cons, List.takeWhile_cons,
        ih same sound fair]
    | false =>
      have also : h.hasEnded = false := (Like.hasEnded same).trans ended
      obtain ⟨report, after, other, later, played, again, kind, alike⟩ :=
        same.round sound.table fair.table
      have next := sound.round
      have behind := fair.round
      rw [advance_of_going sound.table ended, advance_of_going fair.table also]
      rw [played] at next ⊢
      rw [again] at behind ⊢
      cases told : report.decision.bySuit with
      | false =>
        obtain ⟨rfl, agree⟩ := alike told
        rw [List.takeWhile_cons, List.takeWhile_cons, ih agree next behind]
      | true => simp [byRank, kind, told]

/-- Two games go the same way until a round comes to the suits. -/
structure SuitBlind (g h : Game) : Prop where
  round : ∃ report after other later, g.round = (.ok report, after) ∧ h.round = (.ok other, later) ∧
    other.decision.bySuit = report.decision.bySuit ∧
    (report.decision.bySuit = false → other = report ∧ after.SameRanks later)
  /-- The answers before the first round that comes to the suits. -/
  answers : ∀ calls, (g.answers calls).takeWhile byRank = (h.answers calls).takeWhile byRank

theorem suitBlind_of_reachable (reachable : Reachable g) (also : Reachable h)
    (same : g.SameRanks h) : g.SuitBlind h :=
  ⟨same.round reachable.sound.table also.sound.table,
    same.answers reachable.sound also.sound⟩

/-- The three players with the same ranks in clubs alone. -/
def dullThree : Game :=
  Game.joinAll { settings := { packs := 0, shuffled := false }, deck := [] } <|
    trio.map fun p => { p with hand := p.hand.map fun c => { c with suit := .clubs } }

theorem suitBlind_tiedThree : Reachable tiedThree ∧ Reachable dullThree ∧
    tiedThree.SameRanks dullThree ∧ tiedThree.SuitBlind dullThree := by
  have reached : Reachable dullThree :=
    ⟨{ packs := 0, shuffled := false }, 0, 0, _, rfl, .single (.joinAll _)⟩
  have same : tiedThree.SameRanks dullThree :=
    ⟨.cons ⟨rfl, rfl, rfl⟩ (.cons ⟨rfl, rfl, rfl⟩ (.cons ⟨rfl, rfl, rfl⟩ .nil)), rfl, rfl⟩
  exact ⟨tiedThree_reachable, reached, same,
    suitBlind_of_reachable tiedThree_reachable reached same⟩

end Game

end WarGame
