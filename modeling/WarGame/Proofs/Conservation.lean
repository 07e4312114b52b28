import WarGame.Proofs.Rounds

/-!
# Cards are conserved

Cards move between the deck, the hands and the prize of a war. Each move is a permutation of the
cards in play, so no call on a game that is reached loses a card or doubles one.
-/

namespace WarGame

/-! ### Wars -/

theorem WarEnd.won_of_toExcept {ending : WarEnd} {winner : PlayerId}
    (won : ending.toExcept = .ok winner) : ending = .won winner := by
  cases ending with
  | won other => cases won; rfl
  | drawn players => cases won
  | failed cause => cases won

namespace Fray

variable {stage : Stage} {tied : List PlayerId} {fray after : Fray} {s : Seat}

/-- The cards in the hands and those at stake. -/
def cards (fray : Fray) : Pile := fray.table.hands ++ fray.prize

theorem pay_cards (ascending : fray.table.Ascending) (seated : fray.table.seat? s.id = some s) :
    (fray.pay stage s).cards.Perm fray.cards := by
  have traded := Table.hands_modify (fun s => s.play stage) ascending seated
  have whole := s.stake_append_hand stage
  apply List.perm_iff_count.mpr
  intro c
  have moved := traded.count_eq c
  have split := congrArg (List.count c) whole
  simp only [cards, pay, List.count_append] at moved split ⊢
  omega

theorem award_cards (ascending : fray.table.Ascending) (seated : fray.table.seat? s.id = some s) :
    (fray.award stage s.id).cards.Perm fray.cards := by
  have given := Table.hands_give fray.prize ascending seated
  have same : (fray.award stage s.id).cards = (fray.table.give s.id fray.prize).hands := by
    unfold award cards
    dsimp only
    split
    · rw [Table.hands_reinstate, List.append_nil]
    · rw [List.append_nil]
  rw [same]
  exact given

/-- A war moves cards between the hands and the prize, however it ends. -/
theorem war_cards (ascending : fray.table.Ascending) :
    (fray.war tied).fray.cards.Perm fray.cards := by
  have both : (fray.war tied).fray.table.Ascending ∧ (fray.war tied).fray.cards.Perm fray.cards := by
    refine war_induction (P := fun now => now.table.Ascending ∧ now.cards.Perm fray.cards)
      ?_ ?_ ⟨ascending, .refl _⟩
    · rintro stage now s ⟨ordered, kept⟩ seated
      exact ⟨ordered.modify fun _ => rfl, (pay_cards ordered seated).trans kept⟩
    · rintro stage now s ⟨ordered, kept⟩ seated -
      refine ⟨?_, (award_cards ordered seated).trans kept⟩
      unfold award
      dsimp only
      split
      · exact ordered.give.modify fun _ => rfl
      · exact ordered.give
  exact both.2

theorem step_won {winner : PlayerId} (done : fray.step stage tied = (.over (.won winner), after)) :
    after.prize = [] := by
  rcases step_cases stage tied fray with ⟨-, lost⟩ | ⟨other, s, -, -, won⟩
  · exact (lost winner (by rw [done])).elim
  · rw [done] at won
    cases won
    rfl

/-- The winner of a war takes the whole prize. -/
theorem war_won {winner : PlayerId} (won : (fray.war tied).ending = .won winner) :
    (fray.war tied).fray.prize = [] := by
  refine war_recursion (M := fun _ _ report => report.ending = .won winner → report.fray.prize = [])
    ?_ ?_ ?_ tied fray won
  · intro tied fray cause _ won
    cases won
  · intro stage tied fray ending after _ done won
    obtain rfl : ending = .won winner := won
    exact step_won done
  · intro stage tied fray leaders after _ _ rest won
    exact rest won

end Fray

/-! ### Games -/

namespace Game

variable {g after : Game}

/-- The cards in the deck and in the hands. -/
def cards (g : Game) : Pile := g.deck ++ g.table.hands

theorem checkEnd_cards (g : Game) : g.checkEnd.cards = g.cards := by
  rw [cards, checkEnd_deck, checkEnd_table, cards]

theorem deal_cards (ascending : g.table.Ascending) (dealt : g.deal = (.ok (), after)) :
    after.cards.Perm g.cards := by
  obtain ⟨-, rfl⟩ | ⟨-, rfl⟩ := deal_cases dealt
  · exact .refl _
  · apply Table.hands_deal ascending
    intro id playing
    exact Table.seat?_of_active ascending playing

theorem award_cards {winner : PlayerId} {cards : Pile} (ascending : g.table.Ascending)
    (playing : winner ∈ g.table.active) :
    (g.award winner cards).cards.Perm (g.cards ++ cards) := by
  obtain ⟨s, seated⟩ := Table.seat?_of_active ascending playing
  have given := (Table.hands_give cards ascending seated).append_left g.deck
  rw [← List.append_assoc] at given
  exact given

/-- Whatever settles a round, the cards placed are among the cards in play again. -/
theorem Settles.cards {placed : Stakes} {decision : Decision} (sound : g.table.Sound)
    (settled : Settles placed g decision after) : after.cards.Perm (g.cards ++ placed.cards) := by
  have fair {leaders : List PlayerId} {report : WarReport}
      (fought : Fray.war leaders { table := g.table, prize := placed.cards } = report) :
      (report.fray.table.hands ++ report.fray.prize).Perm (g.table.hands ++ placed.cards) :=
    fought ▸ Fray.war_cards sound.ascending
  cases settled with
  | uncontested nobody => simp [nobody, Stakes.cards]
  | highCard winner leads =>
    obtain ⟨s, seated, active⟩ := Table.rankLeaders_playing leads List.mem_cons_self
    exact award_cards sound.ascending (Table.active_of_seat? seated active)
  | war leaders report winner leads fought won =>
    have taken : report.fray.prize = [] := by
      subst fought
      exact Fray.war_won won
    have kept := (fair fought).append_left g.deck
    rw [taken, List.append_nil, ← List.append_assoc] at kept
    exact kept
  | suit leaders players report winner leads fought drawn best =>
    have ordered : (report.fray.table.modify winner Seat.reinstate).Ascending :=
      (Fray.fought_sound sound fought).ascending.modify fun _ => rfl
    obtain ⟨s, seated⟩ := Table.suitLeaders_seated_of_last best List.mem_cons_self
    refine (award_cards ordered (Table.active_reinstate seated)).trans ?_
    have kept := (fair fought).append_left g.deck
    simp only [Game.cards, Table.hands_reinstate, ← List.append_assoc] at kept ⊢
    exact kept
  | redeal leaders players report after leads fought drawn dealt =>
    have ordered := (Fray.fought_sound sound fought).ascending
    refine (deal_cards ordered dealt).trans ?_
    apply List.perm_iff_count.mpr
    intro c
    have kept := (fair fought).count_eq c
    simp only [Game.cards, List.count_append] at kept ⊢
    omega

theorem round_cards (sound : g.table.Sound) : g.round.2.cards.Perm g.cards := by
  obtain ⟨report, settled, played, way, -⟩ := round_settles sound
  have closing : settled.closed.cards = settled.cards := checkEnd_cards _
  have opening := (Table.placed_append_opened g.table).append_left g.deck
  rw [played, closing]
  refine (way.cards sound.opened).trans (List.Perm.trans ?_ opening)
  rw [Game.cards, List.append_assoc]
  exact List.perm_append_comm.append_left g.deck

theorem advance_cards (sound : g.Sound) : g.advance.2.cards.Perm g.cards :=
  advance_keeps (P := fun after => after.cards.Perm g.cards) sound.table (.refl _) fun _ =>
    round_cards sound.table

/-- Playing on conserves the cards in play. -/
theorem Plays.cards (sound : g.Sound) (going : Plays g after) : after.cards.Perm g.cards := by
  have both : after.Sound ∧ after.cards.Perm g.cards := by
    refine going.keeps (P := fun now => now.Sound ∧ now.cards.Perm g.cards) ?_ ?_ ?_
      ⟨sound, .refl _⟩
    · rintro now ⟨sound, kept⟩
      exact ⟨sound.advance, (advance_cards sound).trans kept⟩
    · rintro now next ⟨sound, kept⟩ dealt
      exact ⟨sound.deal dealt, (deal_cards sound.table.ascending dealt).trans kept⟩
    · rintro now ⟨sound, kept⟩
      exact ⟨sound.checkEnd, checkEnd_cards now ▸ kept⟩
  exact both.2

/-- No call loses a card or doubles one. -/
structure KeepsCards (g : Game) : Prop where
  plays : ∀ after, Plays g after → after.cards.Perm g.cards
  round : g.round.2.cards.Perm g.cards
  /-- What is placed leaves the hands, in the order of the ids. -/
  openRound : ∀ placed cards after, g.openRound = (placed, cards, after) →
    cards = placed.cards ∧ (cards ++ after.table.hands).Perm g.table.hands ∧
      after.deck = g.deck ∧ placed.Pairwise fun first second => first.1 < second.1
  /-- Anybody may be sent to war, for any prize. Whoever wins takes all of it. -/
  goToWar : ∀ tied prize result left after, g.goToWar tied prize = (result, left, after) →
    (after.cards ++ left).Perm (g.cards ++ prize) ∧ ∀ winner, result = .ok winner → left = []

theorem keepsCards_of_reachable (reachable : Reachable g) : g.KeepsCards := by
  have sound := reachable.sound
  refine ⟨fun _ => Plays.cards sound, round_cards sound.table, ?_, ?_⟩
  · rintro placed cards after opening
    rw [openRound_eq] at opening
    cases opening
    exact ⟨rfl, Table.placed_append_opened g.table, rfl,
      Table.placed_ascending sound.table.ascending⟩
  · rintro tied prize result left after fought
    cases fought
    constructor
    · have kept : (Fray.war tied { table := g.table, prize }).fray.cards.Perm
          (g.table.hands ++ prize) := Fray.war_cards sound.table.ascending
      have whole := kept.append_left g.deck
      simp only [Fray.cards, ← List.append_assoc] at whole
      exact whole
    · exact fun winner won => Fray.war_won (WarEnd.won_of_toExcept won)

theorem keepsCards_tiedThree : Reachable tiedThree ∧ tiedThree.KeepsCards :=
  ⟨tiedThree_reachable, keepsCards_of_reachable tiedThree_reachable⟩

end Game

end WarGame
