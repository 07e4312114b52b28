import WarGame.Proofs.Settling
import WarGame.Proofs.WarLaw

/-!
# Who wins a round

A round is decided by the keys of the hands of the players with a card to place. The greatest key
wins, with the high card if no other key agrees with it at the first place and by a war of as many
steps as there are places shared if one does. A shared greatest key leaves the decision to the
suits of the bottom cards, and tied suits leave it open.
-/

namespace WarGame

/-- The most places that another player's key shares with that of `w`. -/
def nearest (w : Seat) (seats : List Seat) : Nat :=
  ((seats.filter fun s => s.id ≠ w.id).map fun s =>
    sharedPlaces (key s.hand) (key w.hand)).foldr max 0

/-- The place of the bottom card's suit in the order of suits. -/
def bottomSuit (hand : Pile) : Nat := (hand.getLast?.map fun c => c.suit.order).getD 0

/-- Who wins among players whose war is drawn: the highest suit, if one player alone has it. -/
def suitLaw (tied : List Seat) : Option PlayerId × Decision :=
  match bestBy (fun s => bottomSuit s.hand) tied with
  | [w] => (some w.id, .suit)
  | _ => (none, .redeal)

/-- Who wins a round among the players with a card to place, and how. -/
def roundLaw (contenders : List Seat) : Option PlayerId × Decision :=
  match bestBy (fun s => key s.hand) contenders with
  | [] => (none, .uncontested)
  | [w] =>
    match nearest w contenders with
    | 0 => (some w.id, .highCard)
    | steps + 1 => (some w.id, .war (UInt32.ofNat (steps + 1)))
  | tied => suitLaw tied

theorem roundLaw_of_ties {contenders : List Seat}
    (several : 2 ≤ (bestBy (fun s => key s.hand) contenders).length) :
    roundLaw contenders = suitLaw (bestBy (fun s => key s.hand) contenders) := by
  unfold roundLaw
  split
  · next top => simp [top] at several
  · next top => simp [top] at several
  · rfl

/-! ### The nearest key -/

theorem foldr_max_eq {p : Nat} {shares : List Nat} (bound : ∀ n ∈ shares, n ≤ p)
    (met : p ∈ shares ∨ p = 0) : shares.foldr max 0 = p := by
  apply Nat.le_antisymm
  · clear met
    induction shares with
    | nil => exact Nat.zero_le _
    | cons n rest ih =>
      exact Nat.max_le.mpr ⟨bound n List.mem_cons_self,
        ih fun m member => bound m (List.mem_cons_of_mem n member)⟩
  · rcases met with member | rfl
    · clear bound
      induction shares with
      | nil => simp at member
      | cons n rest ih =>
        rw [List.foldr_cons]
        rcases List.mem_cons.mp member with rfl | behind
        · exact Nat.le_max_left _ _
        · exact Nat.le_trans (ih behind) (Nat.le_max_right _ _)
    · exact Nat.zero_le _

theorem nearest_of_closest {w : Seat} {seats : List Seat} {p : Nat}
    (closest : Closest (fun s => key s.hand) w seats p) : nearest w seats = p := by
  obtain ⟨⟨s, member, unlike, shared⟩, most⟩ := closest
  apply foldr_max_eq
  · intro n place
    obtain ⟨t, kept, rfl⟩ := List.mem_map.mp place
    obtain ⟨there, away⟩ := List.mem_filter.mp kept
    exact most t there (by simpa using away)
  · left
    exact List.mem_map.mpr ⟨s, List.mem_filter.mpr ⟨member, by simpa using unlike⟩, shared⟩

theorem nearest_of_single {w : Seat} {seats : List Seat}
    (alone : bestBy (fun s => lead (key s.hand)) seats = [w]) : nearest w seats = 0 := by
  by_cases other : ∃ s ∈ seats, s.id ≠ w.id
  · exact nearest_of_closest (.of_single alone other)
  · have nobody : (seats.filter fun s => s.id ≠ w.id) = [] := by
      apply List.filter_eq_nil_iff.mpr
      intro s member
      simpa using fun away => other ⟨s, member, away⟩
    rw [nearest, nobody]
    rfl

/-! ### The opening -/

namespace Table

variable {table : Table} {s : Seat}

/-- The opening shows the head of a key and leaves its tail to the wars. -/
theorem key_opened (member : s ∈ table.contenders) :
    warKey (s.play .opening).hand = (key s.hand).tail ∧
      lead (key s.hand) = Rank.ace.value + faceValue (s.stake .opening) := by
  obtain ⟨-, active, c, rest, held⟩ := mem_contenders.mp member
  simp [Seat.play, Seat.stake, active, held, key_cons, lead, Face.order, faceValue]

theorem bestBy_opened :
    bestBy (fun s => lead (key s.hand)) table.contenders =
      bestBy (fun s => faceValue (s.stake .opening)) table.contenders := by
  apply bestBy_congr
  intro s member t other
  have first := (key_opened member).2
  have second := (key_opened other).2
  omega

theorem rankLeaders_opened (ascending : table.Ascending) :
    table.opened.rankLeaders table.placed =
      .ok ((bestBy (fun s => lead (key s.hand)) table.contenders).map (·.id)) := by
  rw [bestBy_opened]
  refine rankLeaders_entrants (ascending.sublist List.filter_sublist) (fun s member => ?_)
    (fun s member => ?_)
  · exact ⟨_, seat?_opened ascending (mem_contenders.mp member).1, isActive_opened member⟩
  · obtain ⟨-, active, c, rest, held⟩ := mem_contenders.mp member
    simp [Seat.stake, active, held]

/-- The war after an opening is decided by the keys of all who placed a card. -/
theorem war_opened {leaders : List Seat} {prize : Pile} {report : WarReport}
    (sound : table.Sound)
    (leading : bestBy (fun s => lead (key s.hand)) table.contenders = leaders)
    (several : 2 ≤ leaders.length)
    (fought : Fray.war (leaders.map (·.id)) { table := table.opened, prize } = report) :
    ∃ places, report.stages.length = places + 1 ∧
      Decided (fun s => key s.hand) table.contenders report.ending (places + 1)
        report.fray.table := by
  have within : leaders.Sublist table.contenders := leading ▸ bestBy_sublist _ _
  have among : (leaders.map fun s => s.play .opening).Sublist table.opened :=
    (within.trans List.filter_sublist).map _
  have active : ∀ t ∈ leaders.map fun s => s.play .opening, t.isActive = true := by
    intro t member
    obtain ⟨s, place, rfl⟩ := List.mem_map.mp member
    exact isActive_opened (within.subset place)
  have named : (leaders.map fun s => s.play .opening).map (·.id) = leaders.map (·.id) := by
    simp [List.map_map, Function.comp_def]
  have law := war_law prize sound.opened among active (by simpa using several)
  rw [named, fought] at law
  obtain ⟨places, steps, decided⟩ := law
  refine ⟨places, steps, ?_⟩
  refine .of_leaders (fun s => s.id_play .opening) (fun s => s.finalCard_play .opening) leading
    (fun s member => ?_) (fun s member => (key_opened (within.subset member)).1) decided
  have value := (key_opened (within.subset member)).2
  have ace := Face.value_pos .ace
  omega

/-- Players whose last card is their bottom card lead by its suit. -/
theorem suitLeaders_bottom {tied : List Seat} (ordered : tied.Pairwise fun s t => s.id < t.id)
    (last : ∀ s ∈ tied, ∃ c t, s.hand.getLast? = some c ∧ table.seat? s.id = some t ∧
      t.lastCard = some c) :
    (table.lastCards (tied.map (·.id)) []).bind table.suitLeaders =
      .ok ((bestBy (fun s => bottomSuit s.hand) tied).map (·.id)) := by
  rw [suitLeaders_entrants (fun s => s.hand.getLast?.getD default) ordered]
  · refine congrArg (fun best => Except.ok (List.map (fun s : Seat => s.id) best)) ?_
    apply bestBy_congr
    intro s member t other
    obtain ⟨c, _, bottom, -⟩ := last s member
    obtain ⟨d, _, also, -⟩ := last t other
    simp [bottomSuit, bottom, also]
  · intro s member
    obtain ⟨c, t, bottom, seated, card⟩ := last s member
    exact ⟨t, seated, by rw [bottom]; exact card⟩

end Table

/-! ### The decision -/

namespace Game

variable {g : Game}

/-- Players who end a war together are told apart by the suits of their last cards, or the cards
are dealt again. -/
theorem settleBySuit_law {tied : List Seat} (prize : Pile)
    (ordered : tied.Pairwise fun s t => s.id < t.id) (several : 2 ≤ tied.length)
    (last : ∀ s ∈ tied, ∃ c t, s.hand.getLast? = some c ∧ g.table.seat? s.id = some t ∧
      t.lastCard = some c) :
    ∃ decision after, g.settleBySuit (tied.map (·.id)) prize = (.ok decision, after) ∧
      (after.lastWinner, decision) = suitLaw tied := by
  have leaders := Table.suitLeaders_bottom ordered last
  have seated : g.table ≠ [] := by
    obtain ⟨s, member⟩ := List.exists_mem_of_length_pos (show 0 < tied.length by omega)
    obtain ⟨c, t, -, seated, -⟩ := last s member
    exact List.ne_nil_of_mem (Table.mem_of_seat? seated).1
  rw [suitLaw]
  rcases best : bestBy (fun s => bottomSuit s.hand) tied with _ | ⟨w, _ | ⟨v, others⟩⟩
  · exact (bestBy_ne_nil (List.ne_nil_of_length_pos (by omega)) best).elim
  · rw [best] at leaders ⊢
    exact ⟨.suit, _, settleBySuit_of_single prize leaders, rfl⟩
  · rw [best] at leaders ⊢
    obtain ⟨after, dealt, settled⟩ := settleBySuit_of_ties prize leaders (by simp) seated
    refine ⟨.redeal, after, settled, ?_⟩
    rw [deal_frame dealt]

/-- Players tied for the high card go to war with what is left of their hands. -/
theorem settle_tied {leaders : List Seat} (sound : g.table.Sound)
    (leading : bestBy (fun s => lead (key s.hand)) g.table.contenders = leaders)
    (tied : 2 ≤ leaders.length) :
    ∃ decision after, g.opened.settle g.table.placed g.table.placed.cards = (.ok decision, after) ∧
      (after.lastWinner, decision) = roundLaw g.table.contenders := by
  have leads := Table.rankLeaders_opened sound.ascending
  have some : g.table.contenders ≠ [] := by
    rintro nobody
    rw [nobody] at leading
    simp [← leading, bestBy] at tied
  obtain ⟨report, fought⟩ : ∃ report, Fray.war (leaders.map (·.id))
      { table := g.table.opened, prize := g.table.placed.cards } = report := ⟨_, rfl⟩
  obtain ⟨places, steps, whole⟩ := Table.war_opened sound leading tied fought
  rw [leading] at leads
  rw [settle_of_ties (by simpa [Table.placed] using some) leads (by simpa using tied) fought]
  rcases whole with ⟨winner, top, closest, won⟩ | ⟨several, drawn, last⟩
  · rw [won]
    refine ⟨.war _, _, rfl, ?_⟩
    rw [roundLaw, top]
    simp only [nearest_of_closest closest, steps]
  · rw [drawn]
    have held : ∀ s ∈ bestBy (fun s => key s.hand) g.table.contenders,
        ∃ c t, s.hand.getLast? = .some c ∧ report.fray.table.seat? s.id = .some t ∧
          t.lastCard = .some c := by
      intro s member
      obtain ⟨t, seated, card⟩ := last s member
      obtain ⟨-, -, c, rest, hand⟩ := Table.mem_contenders.mp (mem_bestBy.mp member).1
      have bottom := List.getLast?_eq_some_getLast (hand ▸ List.cons_ne_nil c rest)
      refine ⟨_, t, bottom, seated, card.trans ?_⟩
      rw [Seat.finalCard, bottom]
      rfl
    have ordered := sound.ascending.sublist
      ((bestBy_sublist (fun s => key s.hand) g.table.contenders).trans List.filter_sublist)
    rw [roundLaw_of_ties several]
    exact settleBySuit_law report.fray.prize ordered several held

/-- A round that opens on a sound table is decided as its law says. -/
theorem settle_law (sound : g.table.Sound) :
    ∃ decision after, g.opened.settle g.table.placed g.table.placed.cards = (.ok decision, after) ∧
      (after.lastWinner, decision) = roundLaw g.table.contenders := by
  rcases leading : bestBy (fun s => lead (key s.hand)) g.table.contenders with
    _ | ⟨w, _ | ⟨v, others⟩⟩
  · -- nobody has a card to place
    have nobody : g.table.contenders = [] := by
      by_contra some
      exact bestBy_ne_nil some leading
    rw [Table.placed, nobody]
    exact ⟨.uncontested, _, rfl, rfl⟩
  · -- the highest card is held by one player alone
    have leads := Table.rankLeaders_opened sound.ascending
    have some : g.table.contenders ≠ [] := by
      intro nobody
      simp [nobody, bestBy] at leading
    have top : bestBy (fun s => key s.hand) g.table.contenders = [w] := by
      rw [bestBy_bestBy fun s _ t _ => le_iff_lead_tail, leading]
      simp [bestBy]
    rw [leading] at leads
    rw [settle_of_single (by simpa [Table.placed] using some) leads]
    refine ⟨.highCard, _, rfl, ?_⟩
    rw [roundLaw, top]
    simp only [nearest_of_single leading]
    rfl
  · exact settle_tied sound leading (by simp)

end Game

end WarGame
