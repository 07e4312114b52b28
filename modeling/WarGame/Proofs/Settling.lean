import WarGame.Proofs.WarStep

/-!
# How a round is settled

`Game.Settles` lists the ways in which a round that is open comes to a decision, each with what
the table said and the game it leaves. Whoever is given cards by one of them is in the game, so a
sound table stays sound.
-/

namespace WarGame

/-! ### An open round -/

namespace Table

variable {table : Table} {s : Seat}

/-- The players with a card to place. -/
def contenders (table : Table) : List Seat :=
  table.filter fun s => s.isActive && !s.hand.isEmpty

/-- What the contenders place. -/
def placed (table : Table) : Stakes := table.contenders.map fun s => (s.id, s.stake .opening)

/-- The table with a round open. -/
def opened (table : Table) : Table := table.map fun s => s.play .opening

theorem mem_contenders :
    s ∈ table.contenders ↔ s ∈ table ∧ s.isActive = true ∧ ∃ c rest, s.hand = c :: rest := by
  unfold contenders
  rw [List.mem_filter, Bool.and_eq_true]
  cases s.hand <;> simp

theorem isActive_opened (member : s ∈ table.contenders) :
    (s.play .opening).isActive = true := by
  obtain ⟨-, active, c, rest, held⟩ := mem_contenders.mp member
  simp [Seat.isActive_play, Seat.meets, active, held]

theorem seat?_opened (ascending : table.Ascending) (member : s ∈ table) :
    table.opened.seat? s.id = some (s.play .opening) := by
  unfold opened
  rw [seat?_map fun t => t.id_play .opening, seat?_of_mem ascending member]
  rfl

theorem Sound.opened (sound : table.Sound) : table.opened.Sound :=
  sound.map (fun _ => rfl) (fun _ member out => sound.hand_play member out)

theorem placed_cards (table : Table) :
    table.placed.cards = table.flatMap fun s => s.stake .opening := by
  induction table with
  | nil => rfl
  | cons s rest ih =>
    unfold placed contenders Stakes.cards at ih ⊢
    rw [List.filter_cons, List.flatMap_cons]
    split
    · rw [List.map_cons, List.flatMap_cons, ih]
    · next idle =>
      have none : s.stake .opening = [] := by
        by_cases active : s.isActive = true
        · simp_all [Seat.stake]
        · simp [Seat.stake, active]
      rw [ih, none, List.nil_append]

/-- The cards placed at the opening are those that leave the hands. -/
theorem placed_append_opened (table : Table) :
    (table.placed.cards ++ table.opened.hands).Perm table.hands := by
  rw [placed_cards]
  induction table with
  | nil => exact .refl _
  | cons s rest ih =>
    apply List.perm_iff_count.mpr
    intro c
    have front := congrArg (List.count c) (s.stake_append_hand .opening)
    have behind := ih.count_eq c
    simp only [opened, hands, List.map_cons, List.flatMap_cons, List.count_append] at front behind ⊢
    omega

theorem placed_ascending (ascending : table.Ascending) :
    table.placed.Pairwise fun first second => first.1 < second.1 :=
  List.pairwise_map.mpr (ascending.sublist List.filter_sublist)

/-- One player contends in a round if nobody else has a card. -/
theorem contenders_of_alone (ascending : table.Ascending) (member : s ∈ table)
    (contends : s ∈ table.contenders) (others : ∀ t ∈ table, t.id ≠ s.id → t.hand = []) :
    table.contenders = [s] := by
  have only : ∀ t ∈ table.contenders, t = s := by
    intro t place
    obtain ⟨seated, -, c, rest, held⟩ := mem_contenders.mp place
    by_contra unlike
    have none := others t seated fun same => unlike (ascending.eq_of_id seated member same)
    simp [held] at none
  have distinct : table.contenders.Nodup := ascending.nodup.sublist List.filter_sublist
  match known : table.contenders with
  | [] => simp [known] at contends
  | [t] => rw [only t (by simp [known])]
  | t :: u :: rest =>
    have first := only t (by simp [known])
    have second := only u (by simp [known])
    rw [known, first, second] at distinct
    simp at distinct

/-- Whoever contends in a round is in the game when it is open, and nobody else is. -/
theorem active_opened : table.opened.active = table.contenders.map (·.id) := by
  induction table with
  | nil => rfl
  | cons s rest ih =>
    simp only [active, opened, contenders, List.map_cons, List.filter_cons] at ih ⊢
    rw [Seat.isActive_play, Seat.meets]
    cases s.isActive <;> cases s.hand.isEmpty <;> simp [ih]

end Table

namespace Game

variable {g : Game} {placed : Stakes}

/-- The game with a round open. -/
def opened (g : Game) : Game := { g with table := g.table.opened, lastWinner := none }

/-- The game after a round is decided. -/
def closed (g : Game) : Game := { g with rounds := g.rounds + 1 }.checkEnd

/-- The cards of the stakes in one row are the prize of the round. -/
theorem openRound_eq (g : Game) : g.openRound =
    (g.table.placed, g.table.placed.cards, { g with table := g.table.opened }) := by
  rw [Table.placed_cards]
  rfl

theorem round_of_settled {decision : Decision} {settled : Game}
    (done : g.opened.settle g.table.placed g.table.placed.cards = (.ok decision, settled)) :
    g.round = (.ok
      { winner := settled.closed.lastWinner
        eliminated := g.table.active.filter fun id =>
          (settled.closed.table.seat? id).any fun s => s.isEliminated
        endsGame := settled.closed.hasEnded
        decision }, settled.closed) := by
  unfold opened at done
  simp only [round, openRound_eq, done]
  rfl

/-- The check for an end finishes a game that goes on with at most one active player. -/
theorem checkEnd_eq (g : Game) :
    g.checkEnd = { g with
      phase := if g.phase = .running ∧ g.table.active.length ≤ 1 then .finished else g.phase } := by
  unfold checkEnd
  by_cases running : g.phase = .running
  · rcases known : g.table.active with _ | ⟨w, _ | ⟨v, others⟩⟩
    · simp [running]
    · simp [running]
    · rw [if_pos running, if_neg (by simp)]
  · simp [running]

theorem checkEnd_table (g : Game) : g.checkEnd.table = g.table := by rw [checkEnd_eq]

theorem checkEnd_deck (g : Game) : g.checkEnd.deck = g.deck := by rw [checkEnd_eq]

theorem checkEnd_lastWinner (g : Game) : g.checkEnd.lastWinner = g.lastWinner := by rw [checkEnd_eq]

/-! ### A deal and a decision, step by step -/

theorem deal_eq (seated : g.table ≠ []) :
    g.deal = (.ok (), if g.table.active = [] then g else
      { g with
        deck := (g.table.deal g.table.active g.deck).1
        table := (g.table.deal g.table.active g.deck).2
        wasDealt := true }) := by
  have taken : g.table.isEmpty = false := by simpa using seated
  unfold deal
  rw [taken]
  by_cases nobody : g.table.active = []
  · simp [nobody]
  · simp [nobody]

theorem exists_deal (seated : g.table ≠ []) : ∃ after, g.deal = (.ok (), after) := ⟨_, deal_eq seated⟩

/-- A deal that is refused leaves the game as it was. -/
theorem deal_error_iff {e : GameError} {after : Game} :
    g.deal = (.error e, after) ↔ g.table = [] ∧ e = .tooFewPlayers 0 1 ∧ after = g := by
  by_cases empty : g.table = []
  · simp [deal, empty, eq_comm]
  · simp [deal_eq empty, empty]

/-- A deal that succeeds finds nobody active, or hands out the deck. -/
theorem deal_cases {after : Game} (dealt : g.deal = (.ok (), after)) :
    g.table.active = [] ∧ after = g ∨
      g.table.active ≠ [] ∧ after = { g with
        deck := (g.table.deal g.table.active g.deck).1
        table := (g.table.deal g.table.active g.deck).2
        wasDealt := true } := by
  by_cases empty : g.table = []
  · simp [deal, empty] at dealt
  · rw [deal_eq empty] at dealt
    cases dealt
    split
    · next nobody => exact .inl ⟨nobody, rfl⟩
    · next somebody => exact .inr ⟨somebody, rfl⟩

theorem deal_frame {after : Game} (dealt : g.deal = (.ok (), after)) :
    after = { g with
      deck := after.deck
      table := after.table
      wasDealt := g.wasDealt || !g.table.active.isEmpty } := by
  obtain ⟨nobody, rfl⟩ | ⟨somebody, rfl⟩ := deal_cases dealt
  · simp [nobody]
  · simp [somebody]

theorem deal_dealt (dealt : g.deal = (.ok (), after)) :
    after.table.active = g.table.active ∧ (after.deck = [] ∨ after.table.active = []) := by
  obtain ⟨nobody, rfl⟩ | ⟨somebody, rfl⟩ := deal_cases dealt
  · exact ⟨rfl, .inr nobody⟩
  · exact ⟨Table.active_deal _ _, .inl (Table.deck_deal somebody _)⟩

theorem settle_of_single {w : PlayerId} (some : placed ≠ [])
    (leads : g.table.rankLeaders placed = .ok [w]) :
    g.settle placed placed.cards = (.ok .highCard, g.award w placed.cards) := by
  have placing : placed.isEmpty = false := by simpa using some
  simp [settle, placing, leads]

theorem settle_of_ties {leaders : List PlayerId} {report : WarReport}
    (some : placed ≠ []) (leads : g.table.rankLeaders placed = .ok leaders)
    (several : 2 ≤ leaders.length)
    (fought : Fray.war leaders { table := g.table, prize := placed.cards } = report) :
    g.settle placed placed.cards =
      match report.ending with
      | .won winner =>
        (.ok (.war (UInt32.ofNat report.stages.length)),
          { g with table := report.fray.table, lastWinner := winner })
      | .drawn players =>
        { g with table := report.fray.table }.settleBySuit players report.fray.prize
      | .failed cause => (.error (.violation cause), { g with table := report.fray.table }) := by
  have placing : placed.isEmpty = false := by simpa using some
  match leaders, several with
  | w :: v :: others, _ =>
    simp only [settle, placing, leads, fought]
    rfl

theorem settleBySuit_of_single {players : List PlayerId} {w : PlayerId} (prize : Pile)
    (leads : (g.table.lastCards players []).bind g.table.suitLeaders = .ok [w]) :
    g.settleBySuit players prize =
      (.ok .suit, { g with table := g.table.modify w Seat.reinstate }.award w prize) := by
  unfold settleBySuit
  rw [leads]

theorem settleBySuit_of_ties {players leaders : List PlayerId} (prize : Pile)
    (leads : (g.table.lastCards players []).bind g.table.suitLeaders = .ok leaders)
    (several : 2 ≤ leaders.length) (seated : g.table ≠ []) :
    ∃ after, Game.deal { g with deck := g.deck ++ prize, lastWinner := none } = (.ok (), after) ∧
      g.settleBySuit players prize = (.ok .redeal, after) := by
  have dealt := deal_eq (g := { g with deck := g.deck ++ prize, lastWinner := none }) seated
  refine ⟨_, dealt, ?_⟩
  rcases leaders with _ | ⟨w, _ | ⟨v, others⟩⟩
  · simp at several
  · simp at several
  · unfold settleBySuit
    rw [leads]
    dsimp only
    rw [dealt]

/-! ### The ways to a decision -/

/-- How an open round is decided, and the game after it. -/
inductive Settles (placed : Stakes) (g : Game) : Decision → Game → Prop where
  | uncontested (nobody : placed = []) : Settles placed g .uncontested g
  | highCard (winner : PlayerId) (leads : g.table.rankLeaders placed = .ok [winner]) :
      Settles placed g .highCard (g.award winner placed.cards)
  | war (leaders : List PlayerId) (report : WarReport) (winner : PlayerId)
      (leads : g.table.rankLeaders placed = .ok leaders)
      (fought : Fray.war leaders { table := g.table, prize := placed.cards } = report)
      (won : report.ending = .won winner) :
      Settles placed g (.war (UInt32.ofNat report.stages.length))
        { g with table := report.fray.table, lastWinner := some winner }
  | suit (leaders players : List PlayerId) (report : WarReport) (winner : PlayerId)
      (leads : g.table.rankLeaders placed = .ok leaders)
      (fought : Fray.war leaders { table := g.table, prize := placed.cards } = report)
      (drawn : report.ending = .drawn players)
      (best : (report.fray.table.lastCards players []).bind report.fray.table.suitLeaders =
        .ok [winner]) :
      Settles placed g .suit
        ({ g with table := report.fray.table.modify winner Seat.reinstate }.award winner
          report.fray.prize)
  | redeal (leaders players : List PlayerId) (report : WarReport) (after : Game)
      (leads : g.table.rankLeaders placed = .ok leaders)
      (fought : Fray.war leaders { table := g.table, prize := placed.cards } = report)
      (drawn : report.ending = .drawn players)
      (dealt : Game.deal { g with
        table := report.fray.table
        deck := g.deck ++ report.fray.prize
        lastWinner := none } = (.ok (), after)) :
      Settles placed g .redeal after

theorem settles {decision : Decision} {after : Game}
    (done : g.settle placed placed.cards = (.ok decision, after)) : Settles placed g decision after := by
  unfold settle at done
  split at done
  · next nobody =>
    cases done
    exact .uncontested (List.isEmpty_iff.mp nobody)
  · split at done
    · cases done
    · cases done
    · next winner leads =>
      cases done
      exact .highCard winner leads
    · next leaders _ _ leads =>
      dsimp only at done
      split at done
      · next winner won =>
        cases done
        exact .war leaders _ winner leads rfl won
      · next players drawn =>
        unfold settleBySuit at done
        split at done
        · cases done
        · next winner best =>
          cases done
          exact .suit leaders players _ winner leads rfl drawn best
        · dsimp only at done
          split at done
          · cases done
          · next after dealt =>
            cases done
            exact .redeal leaders players _ after leads rfl drawn dealt
      · cases done

/-! ### Sound tables stay sound -/

theorem deal_sound {after : Game} (sound : g.table.Sound) (dealt : g.deal = (.ok (), after)) :
    after.table.Sound := by
  obtain ⟨-, rfl⟩ | ⟨-, rfl⟩ := deal_cases dealt
  · exact sound
  · exact sound.deal g.deck

theorem Settles.sound {decision : Decision} {after : Game} (sound : g.table.Sound)
    (settled : Settles placed g decision after) : after.table.Sound := by
  cases settled with
  | uncontested nobody => exact sound
  | highCard winner leads =>
    obtain ⟨s, seated, active⟩ := Table.rankLeaders_playing leads List.mem_cons_self
    exact sound.give _ (Table.active_of_seat? seated active)
  | war leaders report winner leads fought won => exact Fray.fought_sound sound fought
  | suit leaders players report winner leads fought drawn best =>
    have fair := Fray.fought_sound sound fought
    obtain ⟨s, seated⟩ := Table.suitLeaders_seated_of_last best List.mem_cons_self
    exact fair.reinstate.give _ (Table.active_reinstate seated)
  | redeal leaders players report after leads fought drawn dealt =>
    have fair := Fray.fought_sound sound fought
    exact deal_sound fair dealt

/-- A round that is won leaves its winner in the game. -/
theorem Settles.somebody {decision : Decision} {after : Game}
    (settled : Settles placed g decision after) (contested : decision ≠ .uncontested)
    (decided : decision ≠ .redeal) : after.table.active ≠ [] := by
  cases settled with
  | uncontested nobody => exact (contested rfl).elim
  | redeal leaders players report after leads fought drawn dealt => exact (decided rfl).elim
  | highCard winner leads =>
    obtain ⟨s, seated, active⟩ := Table.rankLeaders_playing leads List.mem_cons_self
    exact List.ne_nil_of_mem (Table.mem_active_give.mpr (Table.active_of_seat? seated active))
  | war leaders report winner leads fought won =>
    subst fought
    exact List.ne_nil_of_mem (Fray.war_won_active won)
  | suit leaders players report winner leads fought drawn best =>
    obtain ⟨s, seated⟩ := Table.suitLeaders_seated_of_last best List.mem_cons_self
    exact List.ne_nil_of_mem (Table.mem_active_give.mpr (Table.active_reinstate seated))

end Game

end WarGame
