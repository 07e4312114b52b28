import WarGame.Proofs.Dealing
import WarGame.Proofs.Rounds

/-!
# Deals in turn

A deal goes over the players again and again, a card each, and ends in the middle of a row when the
deck runs out. So it ends if there is somebody to deal to, and no two players are dealt numbers of
cards that differ by more than one.
-/

namespace WarGame

/-! ### Numbers of cards -/

theorem length_everyNth {α : Type} {n skip : Nat} (within : skip < n) (xs : List α) :
    (everyNth n skip xs).length = (xs.length + (n - 1 - skip)) / n := by
  induction xs generalizing skip with
  | nil =>
    have few : (n - 1 - skip) / n = 0 := Nat.div_eq_of_lt (by omega)
    simp [everyNth, few]
  | cons x rest ih =>
    cases skip with
    | zero =>
      have turn : rest.length + 1 + (n - 1 - 0) = rest.length + n := by omega
      have behind : (everyNth n (n - 1) rest).length = rest.length / n := by
        rw [ih (by omega), Nat.sub_self, Nat.add_zero]
      rw [everyNth, List.length_cons, List.length_cons, behind, turn,
        Nat.add_div_right _ (by omega)]
    | succ skip =>
      have turn : rest.length + 1 + (n - 1 - (skip + 1)) = rest.length + (n - 1 - skip) := by omega
      rw [everyNth, List.length_cons, ih (by omega), turn]

section

variable {ids : List PlayerId} {deck : Pile} {i : Nat}

theorem share_getElem (distinct : ids.Nodup) (place : i < ids.length) :
    share ids deck ids[i] = everyNth ids.length i deck := by
  rw [share, if_pos (List.getElem_mem place), distinct.idxOf_getElem]

theorem length_share (distinct : ids.Nodup) (place : i < ids.length) :
    (share ids deck ids[i]).length = (deck.length + (ids.length - 1 - i)) / ids.length := by
  rw [share_getElem distinct place, length_everyNth place]

/-- Whoever is earlier in turn gets as many cards as another player, or one more. -/
theorem share_even (distinct : ids.Nodup) {j : Nat} (earlier : i ≤ j) (place : j < ids.length) :
    (share ids deck ids[j]).length ≤ (share ids deck ids[i]).length ∧
      (share ids deck ids[i]).length ≤ (share ids deck ids[j]).length + 1 := by
  rw [length_share distinct place, length_share distinct (by omega)]
  constructor
  · exact Nat.div_le_div_right (by omega)
  · rw [← Nat.add_div_right _ (by omega)]
    exact Nat.div_le_div_right (by omega)

end

/-! ### Row by row -/

namespace Table

variable {ids rest : List PlayerId} {deck : Pile} {table : Table}

/-- A row of a deal, a card to each player in turn, and whether the deck ran out on the way. -/
def dealRow : List PlayerId → Pile → Table → Bool × Pile × Table
  | [], deck, table => (false, deck, table)
  | _ :: _, [], table => (true, [], table)
  | id :: rest, c :: deck, table => dealRow rest deck (table.give id [c])

/-- Rows one after the other until the deck runs out, if it does so within that many. -/
def dealRows (ids : List PlayerId) : Nat → Pile → Table → Option (Pile × Table)
  | 0, _, _ => none
  | rows + 1, deck, table =>
    match dealRow ids deck table with
    | (true, left, after) => some (left, after)
    | (false, left, after) => dealRows ids rows left after

theorem dealRow_short (few : deck.length < rest.length) (served : List PlayerId) :
    dealRow rest deck table = (true, Table.deal (rest ++ served) deck table) := by
  induction rest generalizing deck table served with
  | nil => simp at few
  | cons id rest ih =>
    cases deck with
    | nil => simp [dealRow, deal]
    | cons c deck =>
      rw [dealRow, ih (by simpa using few) (served ++ [id]), List.cons_append, deal,
        List.append_assoc]

/-- Whoever is served goes behind the others, so after a whole row the players are in the same turn
again. -/
theorem dealRow_whole (table : Table) (enough : rest.length ≤ deck.length)
    (served : List PlayerId) :
    ∃ after, dealRow rest deck table = (false, deck.drop rest.length, after) ∧
      Table.deal (rest ++ served) deck table =
        Table.deal (served ++ rest) (deck.drop rest.length) after := by
  induction rest generalizing deck table served with
  | nil => exact ⟨table, rfl, by simp⟩
  | cons id rest ih =>
    cases deck with
    | nil => simp at enough
    | cons c deck =>
      obtain ⟨after, row, others⟩ := ih (table.give id [c]) (by simpa using enough)
        (served ++ [id])
      refine ⟨after, row, ?_⟩
      rw [List.cons_append, deal, List.append_assoc, others, List.append_assoc]
      rfl

/-- The deck runs out in the row after the last whole one. -/
theorem dealRows_eq (somebody : ids ≠ []) (rows : Nat) :
    dealRows ids rows deck table =
      if deck.length / ids.length < rows then some (Table.deal ids deck table) else none := by
  have positive : 0 < ids.length := List.length_pos_of_ne_nil somebody
  induction rows generalizing deck table with
  | zero => simp [dealRows]
  | succ rows ih =>
    by_cases enough : ids.length ≤ deck.length
    · obtain ⟨after, row, others⟩ := dealRow_whole table enough []
      rw [List.append_nil, List.nil_append] at others
      -- A whole row takes as many cards off the deck as there are players.
      have fewer : deck.length / ids.length = (deck.length - ids.length) / ids.length + 1 :=
        Nat.div_eq_sub_div positive enough
      rw [dealRows, row, others, fewer]
      dsimp only
      rw [ih, List.length_drop]
      simp only [Nat.add_lt_add_iff_right]
    · have last : deck.length / ids.length < rows + 1 := by
        rw [Nat.div_eq_of_lt (by omega)]
        omega
      rw [dealRows, dealRow_short (by omega) [], List.append_nil, if_pos last]

/-- With nobody to deal to, row follows row and the deck never runs out. -/
theorem dealRows_of_nobody (rows : Nat) : dealRows [] rows deck table = none := by
  induction rows with
  | zero => rfl
  | succ rows ih => exact ih

end Table

/-! ### A deal as a whole -/

namespace Game

variable {g after : Game}

/-- What a deal to the active players leaves, each of the `n` in turn given every `n`-th card of the
deck. -/
structure DealtInTurn (g after : Game) : Prop where
  order : g.table.active.Pairwise (· < ·)
  deck : after.deck = []
  /-- Nothing at the table changes but the hands, to which cards are added. -/
  table : after.table = g.table.map fun s => s.receive (share g.table.active g.deck s.id)
  stride : ∀ (i : Nat) (place : i < g.table.active.length) (k : Nat),
    (share g.table.active g.deck g.table.active[i])[k]? = g.deck[i + g.table.active.length * k]?
  others : ∀ id, id ∉ g.table.active →
    share g.table.active g.deck id = [] ∧ after.table.seat? id = g.table.seat? id
  even : ∀ a ∈ g.table.active, ∀ b ∈ g.table.active, a ≤ b →
    (share g.table.active g.deck b).length ≤ (share g.table.active g.deck a).length ∧
      (share g.table.active g.deck a).length ≤ (share g.table.active g.deck b).length + 1
  frame : after = { g with deck := after.deck, table := after.table, wasDealt := true }
  again : after.deal = (.ok (), after)
  /-- The deal ends in the row after the last whole one. -/
  rows : ∀ rows, Table.dealRows g.table.active rows g.deck g.table =
    if g.deck.length / g.table.active.length < rows then some (after.deck, after.table) else none

theorem dealtInTurn (ascending : g.table.Ascending) (somebody : g.table.active ≠ [])
    (dealt : g.deal = (.ok (), after)) : DealtInTurn g after := by
  have distinct := Table.active_nodup ascending
  have positive : 0 < g.table.active.length := List.length_pos_of_ne_nil somebody
  obtain ⟨table, deck⟩ := deal_shares ascending dealt
  rw [if_neg somebody] at deck
  have playing := (deal_dealt dealt).1
  have frame := deal_frame dealt
  have known : (g.wasDealt || !g.table.active.isEmpty) = true := by simp [somebody]
  rw [known] at frame
  have absent : ∀ id, id ∉ g.table.active → share g.table.active g.deck id = [] :=
    fun id idle => if_neg idle
  have order := Table.active_pairwise ascending
  constructor
  case order => exact order
  case deck => exact deck
  case table => exact table
  case stride =>
    intro i place k
    rw [share_getElem distinct place, getElem?_everyNth positive]
  case others =>
    intro id idle
    refine ⟨absent id idle, ?_⟩
    rw [table, Table.seat?_map fun s => s.id_receive _]
    cases found : g.table.seat? id with
    | none => rfl
    | some s => rw [Option.map_some, (Table.mem_of_seat? found).2, absent id idle, s.receive_nil]
  case even =>
    intro a here b there upTo
    obtain ⟨i, first, rfl⟩ := List.getElem_of_mem here
    obtain ⟨j, second, rfl⟩ := List.getElem_of_mem there
    refine share_even distinct (Nat.le_of_not_lt fun later => ?_) second
    have above : g.table.active[j] < g.table.active[i] :=
      List.pairwise_iff_getElem.mp order j i second first later
    exact Nat.lt_irrefl _ (Nat.lt_of_lt_of_le above upTo)
  case frame => exact frame
  case again =>
    have seated : after.table ≠ [] := by
      intro empty
      rw [empty] at playing
      exact somebody playing.symm
    have marked : after.wasDealt = true := by rw [frame]
    rw [deal_eq seated, if_neg (playing ▸ somebody), deck, Table.deal]
    rw [← deck, ← marked]
  case rows =>
    intro rows
    obtain ⟨nobody, -⟩ | ⟨-, rfl⟩ := deal_cases dealt
    · exact (somebody nobody).elim
    · exact Table.dealRows_eq somebody rows

/-- A deal goes to the active players in turn. It does nothing if there are none, and if nobody is
seated it fails and changes nothing. -/
theorem deal_of_ascending (ascending : g.table.Ascending) :
    (g.table.active ≠ [] → ∃ after, g.deal = (.ok (), after) ∧ DealtInTurn g after) ∧
      (g.table ≠ [] → g.table.active = [] →
        g.deal = (.ok (), g) ∧ ∀ rows, Table.dealRows g.table.active rows g.deck g.table = none) ∧
      (g.table = [] → g.deal = (.error (.tooFewPlayers 0 1), g)) := by
  refine ⟨fun somebody => ?_, fun seated nobody => ?_, fun empty => ?_⟩
  · have seated : g.table ≠ [] := by
      rintro empty
      rw [empty] at somebody
      exact somebody rfl
    obtain ⟨after, dealt⟩ := exists_deal seated
    exact ⟨after, dealt, dealtInTurn ascending somebody dealt⟩
  · refine ⟨?_, fun rows => ?_⟩
    · rw [deal_eq seated, if_pos nobody]
    · rw [nobody]
      exact Table.dealRows_of_nobody rows
  · exact deal_error_iff.mpr ⟨empty, rfl, rfl⟩

/-- Three seats, the one in the middle eliminated, and a deck that ends in the middle of a row. -/
def oneOut : Game :=
  { tiedThree with
    deck := Pile.pack.take 5
    table := tiedThree.table.modify trio[1].id Seat.eliminate }

theorem deal_oneOut : oneOut.table.Ascending ∧ oneOut.table.active = [trio[0].id, trio[2].id] ∧
    ∃ after, oneOut.deal = (.ok (), after) ∧ DealtInTurn oneOut after := by
  have ascending : oneOut.table.Ascending :=
    tiedThree_reachable.sound.table.ascending.modify fun s => s.id_withStanding .eliminated
  have active : oneOut.table.active = [trio[0].id, trio[2].id] := by decide +kernel
  exact ⟨ascending, active, (deal_of_ascending ascending).1 (by simp [active])⟩

end Game

end WarGame
