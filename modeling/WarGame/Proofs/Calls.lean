import WarGame.Game.Play
import WarGame.Proofs.RoundLaw

/-!
# Games that can be reached

A game is reached from a new one by calls in any order. Every call keeps the table sound and leaves
the game unfailed, so on a game that is reached every round comes to the decision of its law.
-/

namespace WarGame

namespace Game

variable {g after : Game}

/-! ### Calls -/

/-- A call that goes on with the players at the table, and the game after it. -/
inductive Plays (g : Game) : Game → Prop where
  | deal : Plays g g.deal.2
  | advance : Plays g g.advance.2
  | playOn {horizon : Nat} {limit : Option UInt32} {answer : Except GameError Verdict}
      {after : Game} (returned : g.playOn horizon limit = some (answer, after)) : Plays g after
  | play {horizon : Nat} {answer : Except GameError Verdict} {after : Game}
      (returned : g.play horizon = some (answer, after)) : Plays g after
  | checkEnd : Plays g g.checkEnd

/-- Any call on a game, and the game after it. -/
inductive Calls (g : Game) : Game → Prop where
  | plays {after : Game} (going : Plays g after) : Calls g after
  | join (p : Player) : Calls g (g.join p)
  | joinAll (players : List Player) : Calls g (g.joinAll players)
  | openRound : Calls g g.openRound.2.2
  | goToWar (tied : List PlayerId) (prize : Pile) : Calls g (g.goToWar tied prize).2.2
  | round : Calls g g.round.2

/-- A new game after any calls. -/
def Reachable (g : Game) : Prop :=
  ∃ settings tries entropy fresh, ofSettings settings tries entropy = .ok fresh ∧
    Relation.ReflTransGen Calls fresh g

/-! ### What calls keep -/

theorem joinAll_keeps {P : Game → Prop} (join : ∀ g p, P g → P (g.join p)) (players : List Player)
    (start : P g) : P (g.joinAll players) := by
  induction players generalizing g with
  | nil => exact start
  | cons p rest ih => exact ih (join g p start)

section

variable {P : Game → Prop} (advance : ∀ g, P g → P g.advance.2)

include advance

theorem playFrom_keeps {limit : Option UInt32} {horizon : Nat} {rounds : UInt32}
    {answer : Except GameError Verdict}
    (returned : g.playFrom limit horizon rounds = some (answer, after)) (start : P g) : P after := by
  fun_induction playFrom limit horizon rounds g with
  | case1 =>
    cases returned
    exact start
  | case2 =>
    cases returned
    exact start
  | case3 => cases returned
  | case4 _ g _ _ horizon e next failed =>
    cases returned
    have kept := advance g start
    rwa [failed] at kept
  | case5 _ g _ _ horizon report next played ih =>
    have kept := advance g start
    rw [played] at kept
    exact ih returned kept

theorem playOn_keeps {horizon : Nat} {limit : Option UInt32} {answer : Except GameError Verdict}
    (returned : g.playOn horizon limit = some (answer, after)) (start : P g) : P after :=
  playFrom_keeps advance returned start

/-- What survives a deal, a round and the check for an end survives every call that plays on. -/
theorem Plays.keeps (deal : ∀ g after, P g → g.deal = (.ok (), after) → P after)
    (checkEnd : ∀ g, P g → P g.checkEnd) (going : Plays g after) (start : P g) : P after := by
  cases going with
  | deal =>
    rcases dealt : g.deal with ⟨e | done, after⟩
    · obtain ⟨-, -, rfl⟩ := deal_error_iff.mp dealt
      exact start
    · exact deal g after start dealt
  | advance => exact advance g start
  | playOn returned => exact playOn_keeps advance returned start
  | checkEnd => exact checkEnd g start
  | play returned =>
    unfold Game.play at returned
    split at returned
    · cases returned
      exact start
    · split at returned
      · exact playOn_keeps advance returned start
      · split at returned
        · next refused =>
          cases returned
          obtain ⟨-, -, rfl⟩ := deal_error_iff.mp refused
          exact start
        · next dealt => exact playOn_keeps advance returned (deal g _ start dealt)

end

/-! ### The phase -/

theorem deal_phase (dealt : g.deal = (.ok (), after)) : after.phase = g.phase := by
  rw [deal_frame dealt]

theorem Settles.phase {placed : Stakes} {decision : Decision}
    (settled : Settles placed g decision after) : after.phase = g.phase := by
  cases settled with
  | uncontested nobody => rfl
  | highCard winner leads => rfl
  | war leaders report winner leads fought won => rfl
  | suit leaders players report winner leads fought drawn best => rfl
  | redeal leaders players report after leads fought drawn dealt =>
    have same := deal_phase dealt
    exact same

theorem Settles.running {decision : Decision} (going : g.hasEnded = false)
    (settled : Settles g.table.placed g.opened decision after) : after.phase = .running := by
  have same : after.phase = g.phase := settled.phase
  rw [same]
  simpa [hasEnded] using going

theorem checkEnd_unfailed (unfailed : g.phase ≠ .failed) : g.checkEnd.phase ≠ .failed := by
  rw [checkEnd_eq]
  dsimp only
  split
  · exact Phase.noConfusion
  · exact unfailed

/-! ### Sound games -/

/-- The table is sound, and no round has failed. -/
structure Sound (g : Game) : Prop where
  table : g.table.Sound
  unfailed : g.phase ≠ .failed

/-- A round on a sound table is settled in one of the ways there are, as its law says. -/
theorem round_settles (sound : g.table.Sound) :
    ∃ report settled, g.round = (.ok report, settled.closed) ∧
      Settles g.table.placed g.opened report.decision settled ∧
      (report.winner, report.decision) = roundLaw g.table.contenders := by
  obtain ⟨decision, settled, done, law⟩ := settle_law sound
  refine ⟨_, settled, round_of_settled done, settles done, ?_⟩
  rw [← law]
  simp only [closed, checkEnd_lastWinner]

theorem advance_of_ended (ended : g.hasEnded = true) : g.advance = (.error .ended, g) := by
  rw [advance, if_pos ended]

theorem advance_of_going (sound : g.table.Sound) (going : g.hasEnded = false) :
    g.advance = g.round := by
  obtain ⟨report, settled, played, -⟩ := round_settles sound
  rw [advance, if_neg (by simp [going]), played]

/-- A game that has ended is left alone, so what a round keeps is kept. -/
theorem advance_keeps {P : Game → Prop} (sound : g.table.Sound) (start : P g)
    (round : g.hasEnded = false → P g.round.2) : P g.advance.2 := by
  cases ended : g.hasEnded with
  | true =>
    rw [advance_of_ended ended]
    exact start
  | false =>
    rw [advance_of_going sound ended]
    exact round ended

/-- Nobody is seated at a new game. -/
theorem ofSettings_eq {settings : Settings} {tries : Nat} {entropy : UInt64}
    (made : ofSettings settings tries entropy = .ok g) : g = { settings, deck := g.deck } := by
  unfold ofSettings at made
  cases known : settings.deck tries entropy with
  | error e =>
    rw [known] at made
    cases made
  | ok deck =>
    rw [known] at made
    cases made
    rfl

namespace Sound

theorem ofSettings {settings : Settings} {tries : Nat} {entropy : UInt64}
    (made : ofSettings settings tries entropy = .ok g) : g.Sound := by
  rw [ofSettings_eq made]
  exact ⟨.nil, by simp⟩

theorem join (sound : g.Sound) (p : Player) : (g.join p).Sound :=
  ⟨sound.table.seat p, sound.unfailed⟩

theorem joinAll (sound : g.Sound) (players : List Player) : (g.joinAll players).Sound :=
  joinAll_keeps (fun _ p sound => sound.join p) players sound

theorem deal (sound : g.Sound) (dealt : g.deal = (.ok (), after)) : after.Sound :=
  ⟨deal_sound sound.table dealt, deal_phase dealt ▸ sound.unfailed⟩

theorem checkEnd (sound : g.Sound) : g.checkEnd.Sound :=
  ⟨(checkEnd_table g).symm ▸ sound.table, checkEnd_unfailed sound.unfailed⟩

theorem openRound (sound : g.Sound) : g.openRound.2.2.Sound :=
  ⟨sound.table.opened, sound.unfailed⟩

theorem goToWar (sound : g.Sound) (tied : List PlayerId) (prize : Pile) :
    (g.goToWar tied prize).2.2.Sound := by
  have fair : (Fray.war tied { table := g.table, prize }).fray.table.Sound :=
    Fray.war_sound sound.table
  exact ⟨fair, sound.unfailed⟩

theorem round (sound : g.Sound) : g.round.2.Sound := by
  obtain ⟨report, settled, played, way, -⟩ := round_settles sound.table
  have fair : settled.table.Sound := way.sound sound.table.opened
  have going : settled.phase ≠ .failed := way.phase ▸ sound.unfailed
  rw [played]
  exact checkEnd ⟨fair, going⟩

theorem advance (sound : g.Sound) : g.advance.2.Sound :=
  advance_keeps sound.table sound fun _ => sound.round

theorem plays (sound : g.Sound) (going : Plays g after) : after.Sound :=
  going.keeps (fun _ => advance) (fun _ _ sound dealt => sound.deal dealt) (fun _ => checkEnd)
    sound

theorem calls (sound : g.Sound) (call : Calls g after) : after.Sound := by
  cases call with
  | plays going => exact sound.plays going
  | join p => exact sound.join p
  | joinAll players => exact sound.joinAll players
  | openRound => exact sound.openRound
  | goToWar tied prize => exact sound.goToWar tied prize
  | round => exact sound.round

end Sound

/-- A game that is reached is sound. -/
theorem Reachable.sound (reachable : Reachable g) : g.Sound := by
  obtain ⟨settings, tries, entropy, fresh, made, calls⟩ := reachable
  induction calls with
  | refl => exact .ofSettings made
  | tail _ call ih => exact ih.calls call

end Game

end WarGame
