import WarGame.Proofs.Calls

/-!
# Rounds of games that are reached

On a game that is reached a round is decided as its law says, and never fails. So the only errors of
a game are the refusals to play on after the end, without enough players, and to deal to nobody.
-/

namespace WarGame

namespace Game

variable {g after : Game}

/-! ### Refusals -/

theorem verdict?_eq_none : g.verdict? = none ↔ g.hasEnded = false := by
  unfold verdict? hasEnded
  cases g.phase with
  | running => simp
  | failed => simp
  | finished => simp only; split <;> simp

theorem advance_error_iff (sound : g.Sound) {e : GameError} :
    g.advance = (.error e, after) ↔ g.hasEnded = true ∧ e = .ended ∧ after = g := by
  constructor
  · intro failed
    cases ended : g.hasEnded with
    | true =>
      rw [advance_of_ended ended] at failed
      cases failed
      exact ⟨rfl, rfl, rfl⟩
    | false =>
      obtain ⟨report, settled, played, -⟩ := round_settles sound.table
      rw [advance_of_going sound.table ended, played] at failed
      cases failed
  · rintro ⟨ended, rfl, rfl⟩
    exact advance_of_ended ended

/-- A game that goes on has a next round. -/
theorem exists_advance (sound : g.Sound) (going : g.verdict? = none) :
    ∃ report next, g.advance = (.ok report, next) ∧ next.Sound := by
  obtain ⟨report, settled, played, -⟩ := round_settles sound.table
  have next := sound.round
  have known := advance_of_going sound.table (verdict?_eq_none.mp going)
  rw [played] at next known
  exact ⟨report, settled.closed, known, next⟩

/-! ### Rounds one after the other -/

/-- The game after so many rounds, or at its end if that is sooner. -/
def afterRounds (g : Game) : Nat → Game
  | 0 => g
  | rounds + 1 => g.advance.2.afterRounds rounds

theorem hasEnded_of_verdict? {verdict : Verdict} (ended : g.verdict? = some verdict) :
    g.hasEnded = true := by
  rw [← Bool.not_eq_false, ← verdict?_eq_none, ended]
  simp

theorem afterRounds_of_ended {verdict : Verdict} (ended : g.verdict? = some verdict)
    (rounds : Nat) : g.afterRounds rounds = g := by
  induction rounds with
  | zero => rfl
  | succ rounds ih => rw [afterRounds, advance_of_ended (hasEnded_of_verdict? ended), ih]

theorem afterRounds_add (a b : Nat) : g.afterRounds (a + b) = (g.afterRounds a).afterRounds b := by
  induction a generalizing g with
  | zero => rw [Nat.zero_add, afterRounds]
  | succ a ih => rw [Nat.succ_add, afterRounds, afterRounds, ih]

theorem afterRounds_keeps {P : Game → Prop} (advance : ∀ g, P g → P g.advance.2) (rounds : Nat)
    (start : P g) : P (g.afterRounds rounds) := by
  induction rounds generalizing g with
  | zero => exact start
  | succ rounds ih => exact ih (advance g start)

/-- Without a limit play has an answer once the game has ended. -/
theorem playFrom_none (sound : g.Sound) (horizon : Nat) (rounds : UInt32) :
    g.playFrom none horizon rounds = (g.afterRounds horizon).verdict?.map fun verdict =>
      (.ok verdict, g.afterRounds horizon) := by
  induction horizon generalizing g rounds with
  | zero => cases ended : g.verdict? <;> simp [playFrom, afterRounds, ended]
  | succ horizon ih =>
    cases ended : g.verdict? with
    | some verdict =>
      rw [afterRounds_of_ended ended, ended]
      simp [playFrom, ended]
    | none =>
      obtain ⟨report, next, played, fair⟩ := exists_advance sound ended
      simp only [playFrom, ended, played, afterRounds, ih fair]
      rfl

/-- With a limit play stops at the end or when the count has come to the limit. The horizon is as
far as the limit, so the count is at the limit when it is used up. -/
theorem playFrom_some (sound : g.Sound) {limit rounds : UInt32} {horizon : Nat}
    (far : rounds.toNat + horizon = limit.toNat) :
    g.playFrom (some limit) horizon rounds =
      some (.ok ((g.afterRounds horizon).verdict?.getD (.stalled limit)),
        g.afterRounds horizon) := by
  induction horizon generalizing g rounds with
  | zero =>
    obtain rfl : rounds = limit := UInt32.toNat_inj.mp far
    cases ended : g.verdict? <;> simp [playFrom, afterRounds, ended]
  | succ horizon ih =>
    cases ended : g.verdict? with
    | some verdict =>
      rw [afterRounds_of_ended ended, ended]
      simp [playFrom, ended]
    | none =>
      obtain ⟨report, next, played, fair⟩ := exists_advance sound ended
      have below : ¬ limit ≤ rounds := by
        rw [UInt32.le_iff_toNat_le]
        omega
      have counted : (rounds + 1).toNat + horizon = limit.toNat := by
        have small := limit.toNat_lt
        rw [UInt32.toNat_add, UInt32.toNat_one, Nat.mod_eq_of_lt (by omega)]
        omega
      rw [playFrom, afterRounds]
      simp only [ended, played, Option.any_some, below, decide_false, Bool.false_eq_true, if_false]
      exact ih fair counted

theorem playOn_none (sound : g.Sound) (horizon : Nat) :
    g.playOn horizon none = (g.afterRounds horizon).verdict?.map fun verdict =>
      (.ok verdict, g.afterRounds horizon) := playFrom_none sound horizon 0

theorem playOn_eq (sound : g.Sound) (horizon : Nat) (limit : UInt32) :
    g.playOn horizon (some limit) =
      some (.ok ((g.afterRounds limit.toNat).verdict?.getD (.stalled limit)),
        g.afterRounds limit.toNat) := playFrom_some sound (Nat.zero_add _)

theorem playOn_ne_error (sound : g.Sound) {horizon : Nat} {limit : Option UInt32} {e : GameError} :
    g.playOn horizon limit ≠ some (.error e, after) := by
  cases limit with
  | none => simp [playOn_none sound]
  | some limit => simp [playOn_eq sound]

theorem playOn_limited (sound : g.Sound) (horizon : Nat) (limit : UInt32) :
    ∃ verdict after, g.playOn horizon (some limit) = some (.ok verdict, after) :=
  ⟨_, _, playOn_eq sound horizon limit⟩

theorem play_error_iff (sound : g.Sound) {horizon : Nat} {e : GameError} :
    g.play horizon = some (.error e, after) ↔
      g.table.length < 2 ∧ e = .tooFewPlayers g.table.length 2 ∧ after = g := by
  unfold play
  by_cases few : g.table.length < 2
  · simp [few, eq_comm]
  · simp only [few, if_false, false_and, iff_false]
    split
    · exact playOn_ne_error sound
    · split
      · next refused =>
        obtain ⟨empty, -⟩ := deal_error_iff.mp refused
        simp [empty] at few
      · next dealt => exact playOn_ne_error (sound.deal dealt)

/-! ### Games that are reached -/

/-- A round of a game that is reached is won as the keys of the hands say. -/
theorem round_of_reachable (reachable : Reachable g) :
    ∃ report after, g.round = (.ok report, after) ∧
      (report.winner, report.decision) = roundLaw g.table.contenders := by
  obtain ⟨report, settled, played, -, law⟩ := round_settles reachable.sound.table
  exact ⟨report, settled.closed, played, law⟩

/-- Three players who tie for the high card. The second of them alone holds a card to the end. -/
def trio : List Player :=
  [{ id := ⟨0⟩, name := "Ann", hand := [⟨.clubs, .king⟩, ⟨.clubs, .two⟩, ⟨.clubs, .nine⟩] },
    { id := ⟨1⟩, name := "Bo", hand :=
      [⟨.hearts, .king⟩, ⟨.clubs, .three⟩, ⟨.hearts, .nine⟩, ⟨.clubs, .four⟩] },
    { id := ⟨2⟩, name := "Cy", hand := [⟨.spades, .king⟩, ⟨.spades, .ace⟩] }]

def tiedThree : Game :=
  Game.joinAll { settings := { packs := 0, shuffled := false }, deck := [] } trio

theorem tiedThree_reachable : Reachable tiedThree :=
  ⟨{ packs := 0, shuffled := false }, 0, 0, _, rfl, .single (.joinAll _)⟩

theorem round_of_tiedThree :
    Reachable tiedThree ∧ roundLaw tiedThree.table.contenders = (some ⟨1⟩, .war 2) ∧
      ∃ report after, tiedThree.round = (.ok report, after) ∧
        (report.winner, report.decision) = roundLaw tiedThree.table.contenders :=
  ⟨tiedThree_reachable, by decide +kernel, round_of_reachable tiedThree_reachable⟩

/-- Rounds are decided, and each refusal has its one cause. -/
structure OnlyRefuses (g : Game) : Prop where
  round : ∃ report after, g.round = (.ok report, after)
  advance : ∀ e after, g.advance = (.error e, after) ↔
    g.hasEnded = true ∧ e = .ended ∧ after = g
  playOn : ∀ horizon limit e after, g.playOn horizon limit ≠ some (.error e, after)
  limited : ∀ horizon limit, ∃ verdict after,
    g.playOn horizon (some limit) = some (.ok verdict, after)
  play : ∀ horizon e after, g.play horizon = some (.error e, after) ↔
    g.table.length < 2 ∧ e = .tooFewPlayers g.table.length 2 ∧ after = g
  deal : ∀ e after, g.deal = (.error e, after) ↔
    g.table = [] ∧ e = .tooFewPlayers 0 1 ∧ after = g
  unfailed : g.phase ≠ .failed

theorem onlyRefuses_of_reachable (reachable : Reachable g) : g.OnlyRefuses := by
  have sound := reachable.sound
  obtain ⟨report, settled, played, -⟩ := round_settles sound.table
  exact {
    round := ⟨report, settled.closed, played⟩
    advance := fun _ _ => advance_error_iff sound
    playOn := fun _ _ _ _ => playOn_ne_error sound
    limited := playOn_limited sound
    play := fun _ _ _ => play_error_iff sound
    deal := fun _ _ => deal_error_iff
    unfailed := sound.unfailed }

theorem onlyRefuses_tiedThree : Reachable tiedThree ∧ tiedThree.OnlyRefuses :=
  ⟨tiedThree_reachable, onlyRefuses_of_reachable tiedThree_reachable⟩

end Game

end WarGame
