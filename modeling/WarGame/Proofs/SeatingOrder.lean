import WarGame.Proofs.Elimination
import WarGame.Proofs.WinnerTakesAll

/-!
# The order in which players sit down

A table is known from who sits at each id. Of the players who come with one id the last keeps the
seat, so a dealt game depends on those players alone and not on the order in which they came.
-/

namespace WarGame

/-- The last of the players with an id. -/
def lastOf (players : List Player) (id : PlayerId) : Option Player :=
  (players.filter fun p => p.id = id).getLast?

theorem lastOf_cons (p : Player) (rest : List Player) (id : PlayerId) :
    lastOf (p :: rest) id = (lastOf rest id).or (if p.id = id then some p else none) := by
  unfold lastOf
  by_cases here : p.id = id
  · rw [List.filter_cons_of_pos (by simpa using here), List.getLast?_cons, if_pos here]
    cases (rest.filter fun q => q.id = id).getLast? <;> rfl
  · rw [List.filter_cons_of_neg (by simpa using here), if_neg here, Option.or_none]

theorem lastOf_eq_none {players : List Player} {id : PlayerId} :
    lastOf players id = none ↔ id ∉ players.map fun p => p.id := by
  simp [lastOf]

theorem id_of_lastOf {players : List Player} {id : PlayerId} {p : Player}
    (last : lastOf players id = some p) : p.id = id := by
  have member := List.mem_of_getLast? last
  simpa using (List.mem_filter.mp member).2

theorem eq_nil_of_lastOf {players others : List Player}
    (same : ∀ id, lastOf players id = lastOf others id) (none : players = []) : others = [] := by
  cases others with
  | nil => rfl
  | cons q rest =>
    have absent := lastOf_eq_none.mp ((same q.id).symm.trans (none ▸ rfl))
    simp at absent

namespace Table

variable {table other : Table}

/-- A table is known from the seat at each id. -/
theorem eq_of_seat? (ascending : table.Ascending) (ordered : other.Ascending)
    (same : ∀ id, table.seat? id = other.seat? id) : table = other := by
  have members : ∀ s, s ∈ table ↔ s ∈ other := by
    intro s
    have here : table.seat? s.id = some s ↔ s ∈ table ∧ s.id = s.id := seat?_eq_some ascending
    have there : other.seat? s.id = some s ↔ s ∈ other ∧ s.id = s.id := seat?_eq_some ordered
    rw [same, there] at here
    simpa using here.symm
  have alike : table.Perm other :=
    (List.perm_ext_iff_of_nodup ascending.nodup ordered.nodup).mpr members
  refine alike.eq_of_pairwise (fun s t _ _ less more => ?_) ascending ordered
  exact (PlayerId.lt_irrefl s.id (PlayerId.lt_trans less more)).elim

theorem seat?_cons (first : Seat) (rest : Table) (id : PlayerId) :
    Table.seat? id (first :: rest) = if first.id = id then some first else rest.seat? id := by
  by_cases here : first.id = id <;> simp [seat?, here]

/-- A new seat takes the place of the one with its id, and leaves the others. -/
theorem seat?_seat (table : Table) (new : Seat) (id : PlayerId) :
    (table.seat new).seat? id = if new.id = id then some new else table.seat? id := by
  induction table with
  | nil => exact seat?_cons new [] id
  | cons first rest ih =>
    unfold seat
    split
    · exact seat?_cons new (first :: rest) id
    · split
      · next same =>
        rw [seat?_cons, seat?_cons, same]
        by_cases here : first.id = id
        · rw [if_pos here, if_pos here]
        · rw [if_neg here, if_neg here, if_neg here]
      · next unlike =>
        rw [seat?_cons, seat?_cons, ih]
        by_cases there : first.id = id
        · rw [if_pos there, if_pos there, if_neg (there ▸ unlike)]
        · rw [if_neg there, if_neg there]

theorem length_eq_of_seat? (ascending : table.Ascending) {players : List Player}
    (seats : ∀ id, table.seat? id = none ↔ lastOf players id = none) :
    table.length = (players.map fun p => p.id).dedup.length := by
  have members : ∀ id, id ∈ table.map (fun s => s.id) ↔ id ∈ (players.map fun p => p.id).dedup := by
    intro id
    rw [List.mem_dedup, ← not_iff_not, ← lastOf_eq_none, ← seats, seat?_eq_none]
    simp
  have alike := (List.perm_ext_iff_of_nodup ascending.nodup_ids (List.nodup_dedup _)).mpr members
  rw [← alike.length_eq, List.length_map]

end Table

namespace Game

variable {g : Game} {players others : List Player}

theorem seat?_joinAll (g : Game) (players : List Player) (id : PlayerId) :
    (g.joinAll players).table.seat? id =
      ((lastOf players id).map Seat.ofPlayer).or (g.table.seat? id) := by
  induction players generalizing g with
  | nil => rfl
  | cons p rest ih =>
    have joined : (g.join p).table.seat? id =
        if p.id = id then some (Seat.ofPlayer p) else g.table.seat? id :=
      Table.seat?_seat g.table (.ofPlayer p) id
    refine (ih (g.join p)).trans ?_
    rw [joined, lastOf_cons]
    cases lastOf rest id with
    | some q => rfl
    | none => by_cases here : p.id = id <;> simp [here]

theorem joinAll_eq (g : Game) (players : List Player) :
    g.joinAll players = { g with table := (g.joinAll players).table } :=
  joinAll_keeps (P := fun after => after = { g with table := after.table })
    (fun before p same => by rw [join, same]) players rfl

/-- Players who come in another order take the same seats. -/
theorem joinAll_congr (ascending : g.table.Ascending)
    (same : ∀ id, lastOf players id = lastOf others id) : g.joinAll players = g.joinAll others := by
  have ordered : ∀ all, (g.joinAll all).table.Ascending := fun all =>
    joinAll_keeps (P := fun after => after.table.Ascending) (fun _ _ sorted => sorted.seat) all
      ascending
  have seats : (g.joinAll players).table = (g.joinAll others).table := by
    refine Table.eq_of_seat? (ordered players) (ordered others) fun id => ?_
    rw [seat?_joinAll, seat?_joinAll, same]
  rw [joinAll_eq, seats, ← joinAll_eq]

/-- A game as it is dealt to players: each seat is that of the last player with its id, who holds a
share of the deck under the hand brought along. -/
structure DealtTo (settings : Settings) (deck : Pile) (players : List Player) (g : Game) :
    Prop where
  fresh : g = { settings, deck := [], table := g.table, wasDealt := true }
  ascending : g.table.Ascending
  count : g.table.length = (players.map fun p => p.id).dedup.length
  seat? : ∀ id, g.table.seat? id = (lastOf players id).map fun p =>
    (Seat.ofPlayer p).receive (share g.table.active deck id)

variable {settings : Settings} {tries : Nat} {entropy : UInt64} {deck : Pile}

theorem exists_dealtTo (ready : settings.deck tries entropy = .ok deck) (somebody : players ≠ []) :
    ∃ start, dealTo settings players tries entropy = .ok (.ok start) ∧
      start.DealtTo settings deck players := by
  have joined := joinAll_eq { settings, deck } players
  have taken := joinAll_ne_nil (g := { settings, deck }) (.inl somebody)
  have active := joinAll_somebody (g := { settings, deck }) (by simp) somebody
  have sorted : (joinAll { settings, deck } players).table.Ascending :=
    joinAll_keeps (P := fun after => after.table.Ascending) (fun _ _ sorted => sorted.seat) players
      List.Pairwise.nil
  obtain ⟨start, dealt⟩ := exists_deal taken
  have playing := (deal_dealt dealt).1
  obtain ⟨table, spent⟩ := deal_shares sorted dealt
  rw [if_neg active] at spent
  have seats : ∀ id, start.table.seat? id = (lastOf players id).map fun p =>
      (Seat.ofPlayer p).receive (share start.table.active deck id) := by
    intro id
    rw [playing, table, Table.seat?_map (fun s => s.id_receive _), seat?_joinAll,
      show Table.seat? id [] = none from rfl, Option.or_none, Option.map_map, joinAll_deck]
    refine Option.map_congr fun p last => ?_
    rw [Function.comp_apply, show (Seat.ofPlayer p).id = id from id_of_lastOf last]
  have ordered : start.table.Ascending := table ▸ sorted.map fun s => s.id_receive _
  refine ⟨start, dealTo_eq_ok_iff.mpr ⟨_, ofSettings_of_ready ready, dealt⟩, ?_, ordered, ?_, seats⟩
  · have frame := deal_frame dealt
    have somebody : (joinAll { settings, deck } players).table.active.isEmpty = false := by
      simpa using active
    rw [spent, somebody, joined] at frame
    exact frame
  · exact Table.length_eq_of_seat? ordered fun id => by rw [seats, Option.map_eq_none_iff]

/-- A seed leaves nothing to the entropy. -/
theorem deck_of_seed {seed : UInt64} (seeded : settings.seed = some seed) (tries : Nat)
    (entropy other : UInt64) : settings.deck tries other = settings.deck tries entropy := by
  unfold Settings.deck Settings.generator
  rw [seeded]
  rfl

theorem dealTo_congr {seed : UInt64} (seeded : settings.seed = some seed)
    (same : ∀ id, lastOf players id = lastOf others id) (tries : Nat) (entropy other : UInt64) :
    dealTo settings players tries entropy = dealTo settings others tries other := by
  have decks := deck_of_seed seeded tries entropy other
  cases ready : settings.deck tries entropy with
  | error e =>
    rw [dealTo, dealTo, ofSettings, ofSettings, decks, ready]
    rfl
  | ok deck =>
    rw [dealTo_of_ready ready, dealTo_of_ready (decks.trans ready),
      joinAll_congr (g := { settings, deck }) List.Pairwise.nil same]

/-- The same game for players and for others, from decks that are shuffled with a seed. -/
structure DealtAlike (settings : Settings) (players others : List Player) (tries : Nat)
    (entropy other : UInt64) : Prop where
  same : dealTo settings players tries entropy = dealTo settings others tries other
  nobody : players = [] ↔ others = []
  refused : ∀ deck, settings.deck tries entropy = .ok deck → players = [] →
    dealTo settings players tries entropy = .ok (.error (.tooFewPlayers 0 1))
  dealt : ∀ deck, settings.deck tries entropy = .ok deck → players ≠ [] → ∃ start,
    dealTo settings players tries entropy = .ok (.ok start) ∧
      start.DealtTo settings deck players ∧ start.DealtTo settings deck others

/-- With a seed it counts only who comes last with each id, and nothing that stands in for a
seed. -/
theorem dealtAlike_of_lastOf {seed : UInt64} (seeded : settings.seed = some seed)
    (same : ∀ id, lastOf players id = lastOf others id) (tries : Nat) (entropy other : UInt64) :
    DealtAlike settings players others tries entropy other := by
  constructor
  case same => exact dealTo_congr seeded same tries entropy other
  case nobody => exact ⟨eq_nil_of_lastOf same, eq_nil_of_lastOf fun id => (same id).symm⟩
  case refused =>
    rintro deck ready rfl
    rw [dealTo_of_ready ready]
    rfl
  case dealt =>
    intro deck ready somebody
    obtain ⟨start, dealt, made⟩ := exists_dealtTo ready somebody
    refine ⟨start, dealt, made, made.fresh, made.ascending, ?_, fun id => ?_⟩
    · refine Table.length_eq_of_seat? made.ascending fun id => ?_
      rw [made.seat?, same, Option.map_eq_none_iff]
    · rw [← same]
      exact made.seat? id

/-- The three players in reverse order, after two who give way to them. -/
def latecomers : List Player :=
  (trio.take 2).map (fun p => { p with name := "", hand := [] }) ++ trio.reverse

theorem dealtAlike_trio :
    ({ seed := some 7 } : Settings).seed = some 7 ∧
      (∀ id, lastOf latecomers id = lastOf trio id) ∧
      DealtAlike { seed := some 7 } latecomers trio 8 0 1 := by
  have same : ∀ id, lastOf latecomers id = lastOf trio id := by
    rintro ⟨number⟩
    revert number
    decide +kernel
  exact ⟨rfl, same, dealtAlike_of_lastOf rfl same 8 0 1⟩

end Game

end WarGame
