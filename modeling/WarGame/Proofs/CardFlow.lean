import WarGame.Proofs.RoundCourse
import WarGame.Proofs.Rounds

/-!
# Where the cards of a round go

Each player puts in a first part of the hand, and the cards at stake are in the order in which they
were put in: seat by seat at the opening, and then step by step. They go under the winner's hand, or
under the deck that is dealt again. No other card moves.
-/

namespace WarGame

namespace Table

variable {table : Table} {s : Seat} {n : Nat}

/-- The number of cards that a player puts in at step `n` of the war. -/
def stepStake (table : Table) (n : Nat) (s : Seat) : Nat :=
  if s ∈ table.tiedAt n then min fullStake (s.left n).length else 0

/-- The number of cards that a player puts in before step `n`. -/
def spent (table : Table) (n : Nat) (s : Seat) : Nat :=
  (if s ∈ table.contenders then 1 else 0) + ((List.range n).map (table.stepStake · s)).sum

theorem spent_succ (table : Table) (n : Nat) (s : Seat) :
    table.spent (n + 1) s = table.spent n s + table.stepStake n s := by
  simp [spent, List.range_succ, Nat.add_assoc]

theorem spent_of_contender (contends : s ∈ table.contenders) :
    table.spent n s = 1 + ((List.range n).map (table.stepStake · s)).sum := by
  rw [spent, if_pos contends]

/-- A player who is not tied at first is asked for nothing in the war. -/
theorem spent_of_untied (untied : s ∉ table.tiedAt 0) :
    table.spent n s = if s ∈ table.contenders then 1 else 0 := by
  induction n with
  | zero => simp [spent]
  | succ n ih =>
    have still : s ∉ table.tiedAt n := fun tied =>
      untied ((tiedAt_sublist_of_le (Nat.zero_le n)).subset tied)
    rw [spent_succ, ih, stepStake, if_neg still, Nat.add_zero]

theorem spent_of_idle (idle : s ∉ table.contenders) : table.spent n s = 0 := by
  rw [spent_of_untied fun tied => idle ((tiedAt_sublist table 0).subset tied), if_neg idle]

theorem length_paid (member : s ∈ table) : (table.paid n s).length = table.spent n s := by
  induction n with
  | zero =>
    by_cases contends : s ∈ table.contenders
    · obtain ⟨-, active, c, rest, held⟩ := mem_contenders.mp contends
      simp [paid, spent, contends, active, held]
    · rw [spent_of_idle contends]
      cases active : s.isActive with
      | false => simp [paid, active]
      | true =>
        have none : s.hand = [] := by simpa [contenders, member, active] using contends
        simp [paid, active, none]
  | succ n ih =>
    rw [paid, spent_succ, List.length_append, ih, stepStake]
    split <;> simp

/-- The cards put in are the first ones of the hand. -/
theorem paid_eq_take (member : s ∈ table) : table.paid n s = s.hand.take (table.spent n s) := by
  have whole := table.paid_append_hand n s
  rw [← length_paid member, ← whole, List.take_left]

theorem spent_le (member : s ∈ table) : table.spent n s ≤ s.hand.length := by
  have whole := congrArg List.length (table.paid_append_hand n s)
  rw [List.length_append, length_paid member] at whole
  omega

theorem hand_seatAt (member : s ∈ table) :
    (table.seatAt n s).hand = s.hand.drop (table.spent n s) := by
  have whole := table.paid_append_hand n s
  rw [← length_paid member, ← whole, List.drop_left]

theorem lastCard_of_spent (member : s ∈ table) :
    (table.seatAt n s).lastCard =
      if table.spent n s = 0 then s.lastCard else s.hand[table.spent n s - 1]? := by
  have within := spent_le (n := n) member
  rw [lastCard_seatAt, paid_eq_take member, List.getLast?_take]
  split
  · rfl
  · rw [List.getElem?_eq_getElem (by omega)]
    rfl

end Table

namespace Game

variable {g after : Game} {n : Nat} {decision : Decision}

namespace Ends

theorem hands_end (sound : g.table.Sound) (ends : g.Ends n decision after) :
    after.table.map (fun t => (t.id, t.hand)) = g.table.map fun s =>
      (s.id, s.hand.drop (g.table.spent n s) ++ gainOf g n decision after s.id) := by
  rw [table_end sound ends, List.map_map]
  apply List.map_congr_left
  intro s member
  rw [← Table.hand_seatAt member]
  simp

theorem lastCards_end (sound : g.table.Sound) (ends : g.Ends n decision after) :
    after.table.map (fun t => (t.id, t.lastCard)) = g.table.map fun s =>
      (s.id, if g.table.spent n s = 0 then s.lastCard else s.hand[g.table.spent n s - 1]?) := by
  rw [table_end sound ends, List.map_map]
  apply List.map_congr_left
  intro s member
  rw [← Table.lastCard_of_spent member]
  simp

/-- A round that is won leaves the deck alone, and a player who put in a card wins it. -/
theorem of_winner {w : PlayerId} (ends : g.Ends n decision after)
    (won : after.lastWinner = some w) :
    decision ≠ .redeal ∧ after.deck = g.deck ∧ ∃ s ∈ g.table.contenders, s.id = w := by
  have place {m : Nat} {s : Seat} (tied : s ∈ g.table.tiedAt m) : s ∈ g.table.contenders :=
    (Table.tiedAt_sublist g.table m).subset tied
  cases ends with
  | uncontested nobody => cases won
  | highCard w leads =>
    cases won
    exact ⟨nofun, rfl, w, place (m := 0) (by simp [leads]), rfl⟩
  | war n w several leads =>
    cases won
    exact ⟨nofun, rfl, w, place (m := n + 1) (by simp [leads]), rfl⟩
  | suit n w several nobody best =>
    cases won
    have tied : w ∈ g.table.tiedAt n := (bestBy_sublist _ _).subset (by rw [best]; simp)
    exact ⟨nofun, rfl, w, place tied, rfl⟩
  | redeal n _ several nobody tied dealt =>
    rw [deal_frame dealt] at won
    cases won

theorem of_redeal (sound : g.table.Sound) (ends : g.Ends n .redeal after) :
    after.deck = if after.table.active = [] then g.deck ++ g.table.pot n else [] := by
  cases ends with
  | redeal n _ several nobody tied dealt =>
    rw [(deal_dealt dealt).1]
    exact (deal_shares (sound.atStep (n + 1)).ascending dealt).2

theorem of_nobody (ends : g.Ends n decision after) (lost : after.lastWinner = none)
    (contested : decision ≠ .redeal) : g.table.contenders = [] ∧ after.deck = g.deck := by
  cases ends with
  | uncontested nobody => exact ⟨nobody, rfl⟩
  | highCard w leads => cases lost
  | war n w several leads => cases lost
  | suit n w several nobody best => cases lost
  | redeal n _ several nobody tied dealt => exact (contested rfl).elim

end Ends

/-- Where the cards go in a round that is fought for so many steps of war. -/
structure CardFlow (g : Game) (steps : Nat) (report : RoundReport) (after : Game) : Prop where
  /-- The war goes on while two players are tied. -/
  fought : ∀ n, n < steps ↔ 2 ≤ (g.table.tiedAt n).length
  idle : ∀ s ∈ g.table, s.isActive = false ∨ s.hand = [] → g.table.spent steps s = 0
  beaten : ∀ s ∈ g.table.contenders, s ∉ g.table.tiedAt 0 → g.table.spent steps s = 1
  tied : ∀ s ∈ g.table.tiedAt 0,
    g.table.spent steps s = 1 + ((List.range steps).map (g.table.stepStake · s)).sum
  within : ∀ s ∈ g.table, g.table.spent steps s ≤ s.hand.length
  /-- What a player adds to the pot at the opening and step by step is the first part of the hand. -/
  parts : ∀ s ∈ g.table, g.table.paid steps s = s.hand.take (g.table.spent steps s)
  won : ∀ w, report.winner = some w →
    (∃ s ∈ g.table.contenders, s.id = w) ∧ after.deck = g.deck ∧
      after.table.map (fun t => (t.id, t.hand)) = g.table.map fun s =>
        (s.id, s.hand.drop (g.table.spent steps s) ++ if s.id = w then g.table.pot steps else [])
  redealt : report.decision = .redeal →
    after.deck = (if after.table.active = [] then g.deck ++ g.table.pot steps else []) ∧
      after.table.map (fun t => (t.id, t.hand)) = g.table.map fun s =>
        (s.id, s.hand.drop (g.table.spent steps s) ++
          share after.table.active (g.deck ++ g.table.pot steps) s.id)
  uncontested : report.winner = none → report.decision ≠ .redeal →
    g.table.contenders = [] ∧ after.deck = g.deck ∧
      after.table.map (fun t => (t.id, t.hand)) = g.table.map fun s => (s.id, s.hand)
  lastCards : after.table.map (fun t => (t.id, t.lastCard)) = g.table.map fun s =>
    (s.id, if g.table.spent steps s = 0 then s.lastCard
      else s.hand[g.table.spent steps s - 1]?)

/-- Every round of a game that is reached moves its cards so. -/
theorem cardFlow_of_reachable (reachable : Reachable g) :
    ∃ steps report after, g.round = (.ok report, after) ∧ g.CardFlow steps report after := by
  have sound := reachable.sound.table
  obtain ⟨n, report, settled, played, ends, winner⟩ := round_ends sound
  have hands := ends.hands_end sound
  have lastCards := ends.lastCards_end sound
  refine ⟨n, report, settled.closed, played, ?_⟩
  constructor
  case fought => exact ends.step_iff
  case idle =>
    rintro s member (out | none)
    · exact Table.spent_of_idle fun contends => by simp [Table.contenders, out] at contends
    · exact Table.spent_of_idle fun contends => by simp [Table.contenders, none] at contends
  case beaten =>
    intro s contends untied
    rw [Table.spent_of_untied untied, if_pos contends]
  case tied =>
    exact fun s tied => Table.spent_of_contender ((Table.tiedAt_sublist _ 0).subset tied)
  case within => exact fun s member => Table.spent_le member
  case parts => exact fun s member => Table.paid_eq_take member
  case won =>
    intro w won
    rw [winner] at won
    obtain ⟨contested, deck, place⟩ := ends.of_winner won
    simp only [Ends.gainOf, won, if_neg contested, Option.some.injEq, eq_comm (a := w)] at hands
    rw [closed_table, closed_deck]
    exact ⟨place, deck, hands⟩
  case redealt =>
    intro again
    rw [again] at ends hands
    rw [closed_table, closed_deck]
    exact ⟨ends.of_redeal sound, hands⟩
  case uncontested =>
    intro lost contested
    rw [winner] at lost
    obtain ⟨nobody, deck⟩ := ends.of_nobody lost contested
    have idle (s : Seat) : g.table.spent n s = 0 := Table.spent_of_idle (by simp [nobody])
    simp only [Ends.gainOf, lost, if_neg contested, idle] at hands
    rw [closed_table, closed_deck]
    exact ⟨nobody, deck, by simpa using hands⟩
  case lastCards =>
    rw [closed_table]
    exact lastCards

theorem cardFlow_tiedThree :
    Reachable tiedThree ∧ ∃ steps report after,
      tiedThree.round = (.ok report, after) ∧ tiedThree.CardFlow steps report after :=
  ⟨tiedThree_reachable, cardFlow_of_reachable tiedThree_reachable⟩

end Game

end WarGame
