import WarGame.Game.Setup
import WarGame.Proofs.Conservation
import WarGame.Proofs.Keystream

/-!
# The winner takes all

In a game that is dealt every card is in the hand of an active player, or nobody is active and every
card is in the deck. Playing on keeps it so: a deal empties the deck unless nobody is active, and a
round only restocks the deck when it deals the cards again at once.
-/

namespace WarGame

/-- The hands that players bring along. A later player takes the seat of an earlier one with the
same id. -/
def startingHands : List Player → Pile
  | [] => []
  | p :: rest => (if rest.any fun q => q.id = p.id then [] else p.hand) ++ startingHands rest

/-! ### Games with all cards dealt -/

namespace Game

variable {g after : Game} {all : Pile} {s : Seat}

theorem Settles.dealt {placed : Stakes} {decision : Decision}
    (settled : Settles placed g decision after) (bare : g.deck = []) :
    after.deck = [] ∨ after.table.active = [] := by
  cases settled with
  | uncontested nobody => exact .inl bare
  | highCard winner leads => exact .inl bare
  | war leaders report winner leads fought won => exact .inl bare
  | suit leaders players report winner leads fought drawn best => exact .inl bare
  | redeal leaders players report after leads fought drawn dealt => exact (deal_dealt dealt).2

theorem checkEnd_ended (ended : g.phase = .finished → g.table.active.length ≤ 1) :
    g.checkEnd.phase = .finished → g.checkEnd.table.active.length ≤ 1 := by
  rw [checkEnd_eq]
  dsimp only
  split
  · next few => exact fun _ => few.2
  · exact ended

theorem round_of_nobody (nobody : g.table.active = []) {report : RoundReport}
    (law : (report.winner, report.decision) = roundLaw g.table.contenders)
    (way : Settles g.table.placed g.opened report.decision after) : after.table.active = [] := by
  have idle : g.table.contenders = [] := by
    apply List.eq_nil_iff_forall_not_mem.mpr
    intro s member
    obtain ⟨place, active, -⟩ := Table.mem_contenders.mp member
    rw [Table.isActive_of_nobody nobody place] at active
    cases active
  have kind : report.decision = .uncontested := by
    rw [idle] at law
    exact congrArg Prod.snd law
  rw [kind] at way
  cases way
  exact Table.active_opened.trans (by rw [idle]; rfl)

/-- The cards are in the hands of active players, or nobody is active and they are in the deck. -/
structure Gathered (all : Pile) (g : Game) : Prop where
  sound : g.Sound
  dealt : g.deck = [] ∨ g.table.active = []
  whole : g.cards.Perm all
  ended : g.phase = .finished → g.table.active.length ≤ 1

namespace Gathered

theorem checkEnd (gathered : g.Gathered all) : g.checkEnd.Gathered all := by
  refine ⟨gathered.sound.checkEnd, ?_, checkEnd_cards g ▸ gathered.whole,
    checkEnd_ended gathered.ended⟩
  rw [checkEnd_deck, checkEnd_table]
  exact gathered.dealt

theorem deal (gathered : g.Gathered all) (dealt : g.deal = (.ok (), after)) : after.Gathered all := by
  obtain ⟨same, bare⟩ := deal_dealt dealt
  have kept := deal_cards gathered.sound.table.ascending dealt
  refine ⟨gathered.sound.deal dealt, bare, kept.trans gathered.whole, ?_⟩
  rw [deal_phase dealt, same]
  exact gathered.ended

theorem advance (gathered : g.Gathered all) : g.advance.2.Gathered all := by
  have sound := gathered.sound
  refine advance_keeps sound.table gathered fun going => ?_
  obtain ⟨report, settled, played, way, law⟩ := round_settles sound.table
  have next := sound.round
  have kept := round_cards sound.table
  have bare : settled.deck = [] ∨ settled.table.active = [] := by
    rcases gathered.dealt with bare | nobody
    · exact way.dealt bare
    · exact .inr (round_of_nobody nobody law way)
  have running := way.running going
  rw [played] at next kept ⊢
  refine ⟨next, ?_, kept.trans gathered.whole, ?_⟩
  · dsimp only [closed]
    rw [checkEnd_deck, checkEnd_table]
    exact bare
  · apply checkEnd_ended
    intro finished
    rw [running] at finished
    cases finished

theorem plays (gathered : g.Gathered all) (going : Plays g after) : after.Gathered all :=
  going.keeps (fun _ => advance) (fun _ _ gathered dealt => gathered.deal dealt)
    (fun _ => checkEnd) gathered

theorem run (gathered : g.Gathered all) (played : Relation.ReflTransGen Plays g after) :
    after.Gathered all := by
  induction played with
  | refl => exact gathered
  | tail _ going ih => exact ih.plays going

end Gathered

/-! ### The start of a game -/

theorem joinAll_ne_nil {players : List Player} (somebody : players ≠ [] ∨ g.table ≠ []) :
    (g.joinAll players).table ≠ [] := by
  induction players generalizing g with
  | nil => exact somebody.resolve_left fun some => some rfl
  | cons p rest ih => exact ih (g := g.join p) (.inr Table.seat_ne_nil)

theorem joinAll_active (playing : ∀ s ∈ g.table, s.isActive = true) (players : List Player) :
    ∀ s ∈ (g.joinAll players).table, s.isActive = true := by
  apply joinAll_keeps (P := fun g => ∀ s ∈ g.table, s.isActive = true) _ players playing
  intro g p playing s member
  rcases Table.mem_seat member with rfl | member
  · exact Seat.isActive_ofPlayer p
  · exact playing s member

theorem joinAll_somebody (playing : ∀ s ∈ g.table, s.isActive = true) {players : List Player}
    (somebody : players ≠ []) : (g.joinAll players).table.active ≠ [] := by
  obtain ⟨s, member⟩ := List.exists_mem_of_ne_nil _ (joinAll_ne_nil (g := g) (.inl somebody))
  have active := joinAll_active playing players s member
  exact List.ne_nil_of_mem (Table.mem_active.mpr ⟨s, member, active, rfl⟩)

theorem joinAll_deck (players : List Player) : (g.joinAll players).deck = g.deck :=
  joinAll_keeps (P := fun after => after.deck = g.deck) (fun _ _ same => same) players rfl

theorem joinAll_phase (players : List Player) : (g.joinAll players).phase = g.phase :=
  joinAll_keeps (P := fun after => after.phase = g.phase) (fun _ _ same => same) players rfl

/-- Players who join bring their hands and take the seats of those with their ids. -/
theorem hands_joinAll (ascending : g.table.Ascending) (players : List Player) :
    (g.joinAll players).table.hands.Perm
      (Table.hands (g.table.filter fun s => players.all fun p => p.id ≠ s.id) ++
        startingHands players) := by
  induction players generalizing g with
  | nil => simp [joinAll, startingHands]
  | cons p rest ih =>
    have joined : (g.join p).table.Ascending := ascending.seat
    have seated := (Table.seat_perm ascending (.ofPlayer p)).filter
      fun s => rest.all fun q => q.id ≠ s.id
    have others : (g.table.filter fun s => s.id ≠ (Seat.ofPlayer p).id).filter
        (fun s => rest.all fun q => q.id ≠ s.id) =
          g.table.filter fun s => (p :: rest).all fun q => q.id ≠ s.id := by
      rw [List.filter_filter]
      apply List.filter_congr
      intro s _
      rw [List.all_cons, Bool.and_comm]
      simp [Seat.ofPlayer, eq_comm]
    refine (ih joined).trans ?_
    refine ((Table.hands_perm seated).append_right _).trans ?_
    rw [startingHands]
    by_cases later : ∃ q ∈ rest, q.id = p.id
    · rw [if_pos (by simpa using later), List.nil_append, List.filter_cons_of_neg, others]
      obtain ⟨q, member, same⟩ := later
      exact fun kept => of_decide_eq_true (List.all_eq_true.mp kept q member) same
    · rw [if_neg (by simpa using later), List.filter_cons_of_pos, others]
      · rw [← List.append_assoc]
        exact List.perm_append_comm.append_right _
      · exact List.all_eq_true.mpr fun q member =>
          decide_eq_true fun same => later ⟨q, member, same⟩

theorem dealTo_of_ready {settings : Settings} {tries : Nat} {entropy : UInt64} {deck : Pile}
    (ready : settings.deck tries entropy = .ok deck) (players : List Player) :
    dealTo settings players tries entropy =
      .ok ((joinAll { settings, deck } players).deal.1.map fun _ =>
        (joinAll { settings, deck } players).deal.2) := by
  rw [dealTo, ofSettings, ready]
  rfl

theorem dealTo_eq_ok_iff {settings : Settings} {players : List Player} {tries : Nat}
    {entropy : UInt64} {start : Game} :
    dealTo settings players tries entropy = .ok (.ok start) ↔
      ∃ fresh, ofSettings settings tries entropy = .ok fresh ∧
        (fresh.joinAll players).deal = (.ok (), start) := by
  unfold dealTo
  cases made : ofSettings settings tries entropy with
  | error e => simp [Except.map]
  | ok fresh =>
    rcases done : (fresh.joinAll players).deal with ⟨e | answer, after⟩
    · simp [done, Except.map]
    · simp [done, Except.map]

theorem ofSettings_of_ready {settings : Settings} {tries : Nat} {entropy : UInt64} {deck : Pile}
    (ready : settings.deck tries entropy = .ok deck) :
    ofSettings settings tries entropy = .ok { settings, deck } := by
  rw [ofSettings, ready]
  rfl

theorem gathered_of_dealt {settings : Settings} {tries : Nat} {entropy : UInt64} {deck : Pile}
    (ready : settings.deck tries entropy = .ok deck) {players : List Player}
    (somebody : players ≠ []) :
    ∃ start, dealTo settings players tries entropy = .ok (.ok start) ∧
      start.Gathered (deck ++ startingHands players) := by
  have made := ofSettings_of_ready ready
  have sound := (Sound.ofSettings made).joinAll players
  have taken := joinAll_ne_nil (g := { settings, deck }) (.inl somebody)
  have active := joinAll_somebody (g := { settings, deck }) (by simp) somebody
  have dealt := deal_eq taken
  have kept := deal_cards sound.table.ascending dealt
  have brought := hands_joinAll (g := { settings, deck }) List.Pairwise.nil players
  refine ⟨_, ?_, sound.deal dealt, .inl ?_, kept.trans ?_, ?_⟩
  · exact dealTo_eq_ok_iff.mpr ⟨_, made, dealt⟩
  · rw [if_neg active]
    exact Table.deck_deal active _
  · rw [cards, joinAll_deck]
    exact brought.append_left _
  · rw [deal_phase dealt, joinAll_phase]
    simp

/-! ### The end of a game -/

theorem verdict?_winner {w : PlayerId} (won : g.verdict? = some (.winner w)) :
    g.table.active = [w] := by
  unfold verdict? at won
  split at won
  · cases won
  · cases won
  · split at won
    · next alone =>
      cases won
      exact alone
    · cases won

theorem verdict?_draw (unfailed : g.phase ≠ .failed) (drawn : g.verdict? = some .draw) :
    g.phase = .finished ∧ g.table.active.length ≠ 1 := by
  unfold verdict? at drawn
  split at drawn
  · cases drawn
  · next failed => exact (unfailed failed).elim
  · next finished =>
    refine ⟨finished, fun one => ?_⟩
    obtain ⟨w, alone⟩ := List.length_eq_one_iff.mp one
    rw [alone] at drawn
    cases drawn

/-- A player who faces nobody wins the round with the high card, and with it the game. -/
theorem advance_of_holder (sound : g.Sound) (going : g.hasEnded = false)
    (alone : g.table.contenders = [s]) :
    ∃ report after, g.advance = (.ok report, after) ∧ after.verdict? = some (.winner s.id) := by
  obtain ⟨report, settled, played, way, law⟩ := round_settles sound.table
  refine ⟨report, settled.closed, (advance_of_going sound.table going).trans played, ?_⟩
  have kind : report.decision = .highCard := by
    have top : bestBy (fun s => key s.hand) [s] = [s] := bestBy_of_all_tied (by simp)
    rw [alone, roundLaw, top] at law
    simp only [nearest, ne_eq, List.filter_cons, not_true_eq_false, decide_false] at law
    exact congrArg Prod.snd law
  have running := way.running going
  have left : settled.table.active = [s.id] := by
    rw [kind] at way
    cases way with
    | highCard winner leads =>
      refine Table.active_give.trans (Table.active_opened.trans ?_)
      rw [alone]
      rfl
  simp [closed, checkEnd, running, left, verdict?]

/-- Where the cards are while a game goes on and when it has ended. -/
structure WinnerTakesAll (all : Pile) (g : Game) : Prop where
  spread : (g.deck = [] ∧ (∀ s ∈ g.table, s.hand ≠ [] → s.isActive = true) ∧
      g.table.hands.Perm all) ∨
    (g.table.active = [] ∧ (∀ s ∈ g.table, s.hand = []) ∧ g.deck.Perm all)
  winner : ∀ w, g.verdict? = some (.winner w) →
    ∃ s, g.table.seat? w = some s ∧ s.hand.Perm all ∧ ∀ t ∈ g.table, t.id ≠ w → t.hand = []
  draw : g.verdict? = some .draw → g.deck.Perm all
  /-- A game that goes on ends with the next round once one player holds every card. -/
  holder : ∀ s ∈ g.table, g.hasEnded = false → s.isActive = true → all ≠ [] → s.hand.Perm all →
    ∃ report after, g.advance = (.ok report, after) ∧ after.verdict? = some (.winner s.id)

namespace Gathered

theorem spread (gathered : g.Gathered all) :
    (g.deck = [] ∧ (∀ s ∈ g.table, s.hand ≠ [] → s.isActive = true) ∧ g.table.hands.Perm all) ∨
      (g.table.active = [] ∧ (∀ s ∈ g.table, s.hand = []) ∧ g.deck.Perm all) := by
  obtain ⟨sound, dealt, whole, -⟩ := gathered
  rcases dealt with bare | nobody
  · left
    refine ⟨bare, fun s member holds => ?_, ?_⟩
    · by_contra out
      exact holds (sound.table.emptied s member (by simpa using out))
    · rw [cards, bare, List.nil_append] at whole
      exact whole
  · right
    have empty := sound.table.hand_of_nobody nobody
    have none : g.table.hands = [] := List.flatMap_eq_nil_iff.mpr empty
    rw [cards, none, List.append_nil] at whole
    exact ⟨nobody, empty, whole⟩

theorem winner (gathered : g.Gathered all) {w : PlayerId}
    (won : g.verdict? = some (.winner w)) :
    ∃ s, g.table.seat? w = some s ∧ s.hand.Perm all ∧ ∀ t ∈ g.table, t.id ≠ w → t.hand = [] := by
  have alone := verdict?_winner won
  have ascending := gathered.sound.table.ascending
  rcases gathered.spread with ⟨-, -, whole⟩ | ⟨nobody, -⟩
  · obtain ⟨s, member, active, rfl⟩ := Table.mem_active.mp (alone ▸ List.mem_cons_self)
    have others : ∀ t ∈ g.table, t.id ≠ s.id → t.hand = [] := by
      intro t place unlike
      refine gathered.sound.table.emptied t place (Bool.eq_false_iff.mpr fun playing => ?_)
      have among := Table.mem_active.mpr ⟨t, place, playing, rfl⟩
      rw [alone] at among
      exact unlike (List.mem_singleton.mp among)
    refine ⟨s, Table.seat?_of_mem ascending member, ?_, others⟩
    rw [← Table.hands_of_alone ascending member others]
    exact whole
  · rw [alone] at nobody
    cases nobody

theorem draw (gathered : g.Gathered all) (drawn : g.verdict? = some .draw) :
    g.deck.Perm all := by
  obtain ⟨finished, many⟩ := verdict?_draw gathered.sound.unfailed drawn
  have few := gathered.ended finished
  have nobody : g.table.active = [] := List.eq_nil_of_length_eq_zero (by omega)
  have none : g.table.hands = [] :=
    List.flatMap_eq_nil_iff.mpr (gathered.sound.table.hand_of_nobody nobody)
  have whole := gathered.whole
  rw [cards, none, List.append_nil] at whole
  exact whole

theorem holder (gathered : g.Gathered all) (member : s ∈ g.table) (going : g.hasEnded = false)
    (active : s.isActive = true) (stocked : all ≠ []) (holds : s.hand.Perm all) :
    ∃ report after, g.advance = (.ok report, after) ∧ after.verdict? = some (.winner s.id) := by
  have ascending := gathered.sound.table.ascending
  have whole : g.table.hands.Perm all := by
    rcases gathered.spread with ⟨-, -, whole⟩ | ⟨nobody, -⟩
    · exact whole
    · rw [Table.isActive_of_nobody nobody member] at active
      cases active
  have others := Table.hand_of_holder ascending member (holds.trans whole.symm)
  have holding : s.hand ≠ [] := by
    intro none
    rw [none] at holds
    exact stocked holds.nil_eq.symm
  obtain ⟨c, rest, held⟩ := List.exists_cons_of_ne_nil holding
  have contends := Table.mem_contenders.mpr ⟨member, active, c, rest, held⟩
  exact advance_of_holder gathered.sound going
    (Table.contenders_of_alone ascending member contends others)

end Gathered

/-- However a game is set up, and however it is played on, its cards stay together. -/
theorem winnerTakesAll_of_dealt {settings : Settings} {tries : Nat} {entropy : UInt64} {deck : Pile}
    (ready : settings.deck tries entropy = .ok deck) {players : List Player}
    (somebody : players ≠ []) :
    ∃ start, dealTo settings players tries entropy = .ok (.ok start) ∧
      Setup.deal { settings, players } tries entropy = .ok (.ok start) ∧
      ∀ g, Relation.ReflTransGen Plays start g →
        g.WinnerTakesAll (deck ++ startingHands players) := by
  obtain ⟨start, dealt, gathered⟩ := gathered_of_dealt ready somebody
  refine ⟨start, dealt, dealt, fun g played => ?_⟩
  have now := gathered.run played
  exact {
    spread := now.spread
    winner := fun w => now.winner
    draw := now.draw
    holder := fun s => now.holder }

/-- Three players with a pack in its order, and with a pack that the seed 7 has shuffled. -/
theorem winnerTakesAll_trio :
    (Settings.deck { shuffled := false } 0 0 = .ok (Pile.packs 1) ∧ trio ≠ [] ∧
      ∃ start, dealTo { shuffled := false } trio 0 0 = .ok (.ok start) ∧
        Setup.deal { settings := { shuffled := false }, players := trio } 0 0 =
          .ok (.ok start) ∧
        ∀ g, Relation.ReflTransGen Plays start g →
          g.WinnerTakesAll (Pile.packs 1 ++ startingHands trio)) ∧
    ∃ deck, Settings.deck { seed := some 7 } 8 0 = .ok deck ∧ deck ≠ Pile.packs 1 ∧
      ∃ start, dealTo { seed := some 7 } trio 8 0 = .ok (.ok start) ∧
        Setup.deal { settings := { seed := some 7 }, players := trio } 8 0 = .ok (.ok start) ∧
        ∀ g, Relation.ReflTransGen Plays start g →
          g.WinnerTakesAll (deck ++ startingHands trio) := by
  obtain ⟨deck, ready, shuffled⟩ := Settings.exists_shuffled
  exact ⟨⟨rfl, by decide, winnerTakesAll_of_dealt rfl (by decide)⟩, deck, ready, shuffled,
    winnerTakesAll_of_dealt ready (by decide)⟩

end Game

end WarGame
