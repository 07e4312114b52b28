import WarGame.Proofs.Dealing
import WarGame.Proofs.WarCourse

/-!
# The course of a round

`Game.Ends` lists how a round ends and the game it leaves, in the hands as they are before the
round: the seats after so many steps of war, and what becomes of the cards at stake. Every round
on a sound table ends in one of these ways.
-/

namespace WarGame

/-! ### The opening and the end of a war -/

namespace Table

variable {table : Table} {s : Seat} {n : Nat}

theorem pot_zero (table : Table) : table.pot 0 = table.placed.cards := (placed_cards table).symm

theorem rankLeaders_tiedIds (ascending : table.Ascending) :
    table.opened.rankLeaders table.placed = .ok (table.tiedIds 0) := by
  rw [rankLeaders_opened ascending, bestBy_opened, tiedIds, tiedAt]
  refine congrArg (fun best => Except.ok (List.map (fun s : Seat => s.id) best)) ?_
  apply bestBy_congr
  intro s first t second
  rw [Seat.stake, Seat.stake, if_pos (mem_contenders.mp first).2.1,
    if_pos (mem_contenders.mp second).2.1]

theorem contenders_of_nobody (nobody : table.tiedAt 0 = []) : table.contenders = [] := by
  by_contra some
  exact bestBy_ne_nil some nobody

theorem placed_ne_nil (some : table.tiedAt 0 ≠ []) : table.placed ≠ [] := by
  intro none
  have nobody : table.contenders = [] := by simpa [placed] using none
  simp [tiedAt, nobody, bestBy] at some

/-- A player left tied without a card has put in the whole hand, the bottom card last. -/
theorem lastCard_of_none (tied : s ∈ table.tiedAt n) (none : s.left n = []) :
    ∃ c, s.hand.getLast? = some c ∧ (table.seatAt (n + 1) s).lastCard = some c := by
  obtain ⟨-, -, d, rest, held⟩ := mem_contenders.mp ((tiedAt_sublist table n).subset tied)
  have bottom := List.getLast?_eq_some_getLast (held ▸ List.cons_ne_nil d rest)
  have all : table.paid (n + 1) s = s.hand := by
    have whole := table.paid_append_hand n s
    rw [(seatAt_tied tied).1, none, List.append_nil] at whole
    rw [paid, if_pos tied, none, List.take_nil, List.append_nil, whole]
  refine ⟨_, bottom, ?_⟩
  rw [lastCard_seatAt, all, bottom]
  rfl

/-- The suits of the bottom cards tell the players of a drawn war apart. -/
theorem suitLeaders_atStep (ascending : table.Ascending) (n : Nat)
    (nobody : payers n (table.tiedAt n) = []) :
    ((table.atStep (n + 1)).lastCards (table.tiedIds n) []).bind (table.atStep (n + 1)).suitLeaders =
      .ok ((bestBy (fun s => bottomSuit s.hand) (table.tiedAt n)).map (·.id)) := by
  refine suitLeaders_bottom (ascending.sublist (tiedAt_sublist_table table n)) fun s tied => ?_
  obtain ⟨c, bottom, last⟩ := lastCard_of_none tied (payers_eq_nil.mp nobody s tied)
  exact ⟨c, _, bottom, seat?_atStep ascending ((tiedAt_sublist_table table n).subset tied), last⟩

end Table

/-! ### The ways a round ends -/

namespace Game

variable {g after : Game} {n : Nat}

/-- A round fought for `n` steps of war, with the cards at stake not given to anybody yet. -/
def fought (g : Game) (n : Nat) : Game := { g with table := g.table.atStep n, lastWinner := none }

/-- How a round ends after so many steps of war, and the game it leaves. -/
inductive Ends (g : Game) : Nat → Decision → Game → Prop where
  | uncontested (nobody : g.table.contenders = []) : Ends g 0 .uncontested (g.fought 0)
  | highCard (w : Seat) (leads : g.table.tiedAt 0 = [w]) :
      Ends g 0 .highCard ((g.fought 0).award w.id (g.table.pot 0))
  | war (n : Nat) (w : Seat) (several : 2 ≤ (g.table.tiedAt n).length)
      (leads : g.table.tiedAt (n + 1) = [w]) :
      Ends g (n + 1) (.war (UInt32.ofNat (n + 1)))
        ((g.fought (n + 1)).award w.id (g.table.pot (n + 1)))
  | suit (n : Nat) (w : Seat) (several : 2 ≤ (g.table.tiedAt n).length)
      (nobody : Table.payers n (g.table.tiedAt n) = [])
      (best : bestBy (fun s => bottomSuit s.hand) (g.table.tiedAt n) = [w]) :
      Ends g (n + 1) .suit
        ({ g.fought (n + 1) with
          table := (g.table.atStep (n + 1)).modify w.id Seat.reinstate }.award w.id
            (g.table.pot (n + 1)))
  | redeal (n : Nat) (after : Game) (several : 2 ≤ (g.table.tiedAt n).length)
      (nobody : Table.payers n (g.table.tiedAt n) = [])
      (tied : 2 ≤ (bestBy (fun s => bottomSuit s.hand) (g.table.tiedAt n)).length)
      (dealt : Game.deal { g.fought (n + 1) with deck := g.deck ++ g.table.pot (n + 1) } =
        (.ok (), after)) :
      Ends g (n + 1) .redeal after

theorem settleBySuit_ends (ascending : g.table.Ascending)
    (several : 2 ≤ (g.table.tiedAt n).length)
    (nobody : Table.payers n (g.table.tiedAt n) = []) :
    ∃ decision settled, (g.fought (n + 1)).settleBySuit (g.table.tiedIds n) (g.table.pot (n + 1)) =
        (.ok decision, settled) ∧ g.Ends (n + 1) decision settled := by
  have leaders := Table.suitLeaders_atStep ascending n nobody
  have taken : g.table.atStep (n + 1) ≠ [] := by
    obtain ⟨s, tied⟩ := List.exists_mem_of_length_pos (Nat.lt_of_lt_of_le Nat.zero_lt_two several)
    exact List.ne_nil_of_mem
      (List.mem_map_of_mem ((Table.tiedAt_sublist_table g.table n).subset tied))
  rcases best : bestBy (fun s => bottomSuit s.hand) (g.table.tiedAt n) with _ | ⟨w, _ | ⟨v, others⟩⟩
  · exact (bestBy_ne_nil (List.ne_nil_of_length_pos (by omega)) best).elim
  · rw [best] at leaders
    exact ⟨.suit, _, settleBySuit_of_single _ leaders, .suit n w several nobody best⟩
  · rw [best] at leaders
    obtain ⟨after, dealt, settled⟩ :=
      settleBySuit_of_ties (g := g.fought (n + 1)) (g.table.pot (n + 1)) leaders (by simp) taken
    exact ⟨.redeal, after, settled, .redeal n after several nobody (by simp [best]) dealt⟩

theorem settle_ends (sound : g.table.Sound) :
    ∃ n decision settled, g.opened.settle g.table.placed g.table.placed.cards = (.ok decision, settled) ∧
      g.Ends n decision settled := by
  have leaders := Table.rankLeaders_tiedIds sound.ascending
  rcases leads : g.table.tiedAt 0 with _ | ⟨w, _ | ⟨v, others⟩⟩
  · have nobody := Table.contenders_of_nobody leads
    refine ⟨0, .uncontested, g.fought 0, ?_, .uncontested nobody⟩
    rw [Table.placed, nobody]
    rfl
  · have some : g.table.placed ≠ [] := Table.placed_ne_nil (by simp [leads])
    refine ⟨0, .highCard, _, ?_, .highCard w leads⟩
    rw [Table.tiedIds, leads] at leaders
    rw [settle_of_single some leaders, ← Table.pot_zero]
    rfl
  · have several : 2 ≤ (g.table.tiedAt 0).length := by simp [leads]
    have some : g.table.placed ≠ [] := Table.placed_ne_nil (by simp [leads])
    obtain ⟨report, war⟩ : ∃ report, Fray.war (g.table.tiedIds 0)
        { table := g.opened.table, prize := g.table.placed.cards } = report := ⟨_, rfl⟩
    have start : (g.table.frayAt 0).war (g.table.tiedIds 0) = report := by
      rw [← war, ← Table.pot_zero]
      rfl
    obtain ⟨n, still, steps, ending⟩ := Table.war_endsAt sound several
    rw [start] at steps ending
    rw [settle_of_ties some leaders (by simpa [Table.tiedIds] using several) war]
    rcases ending with ⟨w, alone, won, left⟩ | ⟨nobody, drawn, left⟩
    · rw [won, left]
      refine ⟨n + 1, _, _, ?_, .war n w still alone⟩
      rw [← steps]
      rfl
    · rw [drawn, left]
      obtain ⟨decision, settled, done, ends⟩ := settleBySuit_ends sound.ascending still nobody
      exact ⟨n + 1, decision, settled, done, ends⟩

theorem closed_table (g : Game) : g.closed.table = g.table := checkEnd_table _

theorem closed_deck (g : Game) : g.closed.deck = g.deck := checkEnd_deck _

theorem closed_lastWinner (g : Game) : g.closed.lastWinner = g.lastWinner := checkEnd_lastWinner _

/-- A round fought for `n` steps of war, what it reports, and the game before the check for an end. -/
structure Played (g : Game) (n : Nat) (report : RoundReport) (settled : Game) : Prop where
  round : g.round = (.ok report, settled.closed)
  ends : g.Ends n report.decision settled
  winner : report.winner = settled.lastWinner
  law : (report.winner, report.decision) = roundLaw g.table.contenders
  eliminated : report.eliminated = g.table.active.filter fun id =>
    (settled.table.seat? id).any fun s => s.isEliminated
  endsGame : report.endsGame = settled.closed.hasEnded

theorem exists_played (sound : g.table.Sound) : ∃ n report settled, g.Played n report settled := by
  obtain ⟨n, decision, settled, done, ends⟩ := settle_ends sound
  obtain ⟨_, _, again, law⟩ := settle_law sound
  rw [done] at again
  cases again
  refine ⟨n, _, settled, round_of_settled done, ends, closed_lastWinner settled, ?_, ?_, rfl⟩
  · rw [← law, closed_lastWinner]
  · rw [closed_table]

/-- A round on a sound table ends in one of the ways there are. -/
theorem round_ends (sound : g.table.Sound) :
    ∃ n report settled, g.round = (.ok report, settled.closed) ∧
      g.Ends n report.decision settled ∧ report.winner = settled.lastWinner := by
  obtain ⟨n, report, settled, played⟩ := exists_played sound
  exact ⟨n, report, settled, played.round, played.ends, played.winner⟩

/-! ### The seats after a round -/

namespace Ends

variable {decision : Decision} {s : Seat}

/-- The steps of the war are those that find two players tied. -/
theorem step_iff (ends : g.Ends n decision after) (m : Nat) :
    m < n ↔ 2 ≤ (g.table.tiedAt m).length := by
  have fewer {k l : Nat} (within : k ≤ l) :
      (g.table.tiedAt l).length ≤ (g.table.tiedAt k).length :=
    (Table.tiedAt_sublist_of_le within).length_le
  have last : (g.table.tiedAt n).length < 2 ∧ ∀ k, n = k + 1 → 2 ≤ (g.table.tiedAt k).length := by
    cases ends with
    | uncontested nobody => simp [Table.tiedAt, nobody, bestBy]
    | highCard w leads => simp [leads]
    | war k w several leads => simpa [leads] using several
    | suit k w several nobody best =>
      simpa [Table.tiedAt_succ_eq_nil.mpr nobody] using several
    | redeal k _ several nobody tied dealt =>
      simpa [Table.tiedAt_succ_eq_nil.mpr nobody] using several
  constructor
  · intro before
    have several := last.2 (n - 1) (by omega)
    have := fewer (show m ≤ n - 1 by omega)
    omega
  · intro several
    by_contra beyond
    have := fewer (show n ≤ m by omega)
    omega

/-- A round leaves the settings, the phase and the count of rounds to others. -/
theorem frame (ends : g.Ends n decision after) :
    after = { g with
      deck := after.deck
      table := after.table
      lastWinner := after.lastWinner
      wasDealt := after.wasDealt } := by
  cases ends with
  | redeal k _ several nobody tied dealt =>
    rw [deal_frame dealt]
    rfl
  | _ => rfl

theorem frame_of_decided (ends : g.Ends n decision after) (decided : decision ≠ .redeal) :
    after = { g with table := after.table, lastWinner := after.lastWinner } := by
  cases ends with
  | redeal k _ several nobody tied dealt => exact (decided rfl).elim
  | _ => rfl

theorem of_redealt (ends : g.Ends n .redeal after) :
    after.lastWinner = none ∧ after.table.active = (g.table.atStep n).active ∧
      after.wasDealt = (g.wasDealt || !after.table.active.isEmpty) := by
  cases ends with
  | redeal k _ several nobody tied dealt =>
    have same := (deal_dealt dealt).1
    rw [same, deal_frame dealt]
    exact ⟨rfl, rfl, rfl⟩

theorem wasDealt (ends : g.Ends n decision after) :
    after.wasDealt = (g.wasDealt || decision == .redeal && !after.table.active.isEmpty) := by
  by_cases redealt : decision = .redeal
  · subst redealt
    exact ends.of_redealt.2.2
  · rw [ends.frame_of_decided redealt]
    simp [redealt]

/-- A seat at the end of the round, before it is given any cards. Only the winner of a drawn war is
put in the game again. -/
def seatOf (g : Game) (n : Nat) (decision : Decision) (after : Game) (s : Seat) : Seat :=
  if decision = .suit ∧ after.lastWinner = some s.id then (g.table.seatAt n s).reinstate
  else g.table.seatAt n s

@[simp] theorem id_seatOf : (seatOf g n decision after s).id = s.id := by
  unfold seatOf
  split <;> simp [Seat.reinstate]

@[simp] theorem hand_seatOf : (seatOf g n decision after s).hand = (g.table.seatAt n s).hand := by
  unfold seatOf
  split <;> rfl

@[simp] theorem lastCard_seatOf :
    (seatOf g n decision after s).lastCard = (g.table.seatAt n s).lastCard := by
  unfold seatOf
  split <;> rfl

/-- What a player is given at the end of the round: the cards at stake as the winner, and otherwise
a share of a new deal. -/
def gainOf (g : Game) (n : Nat) (decision : Decision) (after : Game) (id : PlayerId) : Pile :=
  if decision = .redeal then share after.table.active (g.deck ++ g.table.pot n) id
  else if after.lastWinner = some id then g.table.pot n else []

/-- A round changes every seat where it is, and nobody joins the table or leaves it. -/
theorem table_end (sound : g.table.Sound) (ends : g.Ends n decision after) :
    after.table = g.table.map fun s =>
      (seatOf g n decision after s).receive (gainOf g n decision after s.id) := by
  -- The table of every ending is a map over the seats of one before, so the seats are compared.
  cases ends with
  | uncontested nobody => simp [seatOf, gainOf, fought, Table.atStep]
  | highCard w leads =>
    refine (List.map_map ..).trans (List.map_congr_left fun s _ => ?_)
    simp [seatOf, gainOf, award, Seat.receive_part]
  | war k w several leads =>
    refine (List.map_map ..).trans (List.map_congr_left fun s _ => ?_)
    simp [seatOf, gainOf, award, Seat.receive_part]
  | suit k w several nobody best =>
    refine (List.map_map ..).trans ((List.map_map ..).trans (List.map_congr_left fun s _ => ?_))
    by_cases won : s.id = w.id
    · simp [seatOf, gainOf, award, won, Seat.reinstate]
    · simp [seatOf, gainOf, award, won, Ne.symm won]
  | redeal k _ several nobody tied dealt =>
    obtain ⟨shares, -⟩ := deal_shares (sound.atStep (k + 1)).ascending dealt
    have same := (deal_dealt dealt).1
    rw [shares]
    refine (List.map_map ..).trans (List.map_congr_left fun s _ => ?_)
    simp [seatOf, gainOf, same, fought]

theorem ascending_end (sound : g.table.Sound) (ends : g.Ends n decision after) :
    after.table.Ascending := by
  rw [table_end sound ends]
  exact sound.ascending.map fun s => (Seat.id_receive _ _).trans id_seatOf

theorem seat?_end (sound : g.table.Sound) (ends : g.Ends n decision after)
    (member : s ∈ g.table) :
    after.table.seat? s.id =
      some ((seatOf g n decision after s).receive (gainOf g n decision after s.id)) := by
  rw [table_end sound ends, Table.seat?_map fun r => (Seat.id_receive _ _).trans id_seatOf,
    Table.seat?_of_mem sound.ascending member, Option.map_some]

end Ends

end Game

end WarGame
