import WarGame.Player

/-!
# The table

A seat is a player with a standing, active or eliminated. A table is its seats. Seating a player
keeps them ascending by id, and everything else visits them in that order and changes them where
they are.
-/

namespace WarGame

/-- Whether a player is still in the game. -/
inductive Standing where
  | active | eliminated
  deriving DecidableEq, Repr, Inhabited

/-- A player at the table. -/
structure Seat extends Player where
  standing : Standing := .active
  deriving DecidableEq, Repr, Inhabited

namespace Seat

def ofPlayer (p : Player) : Seat := { toPlayer := p }

def isActive (s : Seat) : Bool := s.standing == .active

def isEliminated (s : Seat) : Bool := s.standing == .eliminated

/-- The seat with another standing. The hand stays. -/
def withStanding (s : Seat) (standing : Standing) : Seat := { s with standing }

def eliminate (s : Seat) : Seat := s.withStanding .eliminated

def reinstate (s : Seat) : Seat := s.withStanding .active

/-- The seat with cards added at the bottom of the hand. -/
def receive (s : Seat) (cards : Pile) : Seat := { s with toPlayer := s.toPlayer.receive cards }

/-- The same player with the same standing. -/
def same (s t : Seat) : Bool := s.toPlayer.same t.toPlayer && s.standing == t.standing

end Seat

/-- The seats, ascending by id. -/
abbrev Table := List Seat

namespace Table

/-- Puts a seat at its place. A seat with the same id gives way to it. -/
def seat (new : Seat) : Table → Table
  | [] => [new]
  | s :: rest =>
    if new.id < s.id then new :: s :: rest
    else if new.id = s.id then new :: rest
    else s :: seat new rest

/-- The seat of a player. -/
def seat? (id : PlayerId) (table : Table) : Option Seat := table.find? fun s => s.id == id

/-- Changes the seat of a player where it is. -/
def modify (id : PlayerId) (change : Seat → Seat) (table : Table) : Table :=
  table.map fun s => if s.id = id then change s else s

/-- Adds cards at the bottom of a player's hand. Cards are only ever given to a player who is
seated, see `seated_of_active` and `seated_give` for a deal. -/
def give (id : PlayerId) (cards : Pile) (table : Table) : Table :=
  table.modify id fun s => s.receive cards

/-- The ids of the active players. -/
def active (table : Table) : List PlayerId :=
  (table.filter fun s => s.isActive).map fun s => s.id

/-- The ids of the eliminated players. -/
def eliminated (table : Table) : List PlayerId :=
  (table.filter fun s => s.isEliminated).map fun s => s.id

/-- The cards in the hands, seat by seat. -/
def hands (table : Table) : Pile := table.flatMap fun s => s.hand

/-- Deals a deck one card at a time to the players in turn. Gives the cards left over, which are
none unless there is nobody to deal to. -/
def deal : List PlayerId → Pile → Table → Pile × Table
  | _, [], table => ([], table)
  | [], c :: deck, table => (c :: deck, table)
  | id :: rest, c :: deck, table => deal (rest ++ [id]) deck (table.give id [c])

theorem seated_of_active {table : Table} {id : PlayerId} (playing : id ∈ table.active) :
    ∃ s, table.seat? id = some s := by
  obtain ⟨s, member, same⟩ := List.mem_map.mp playing
  rw [← Option.isSome_iff_exists, seat?, List.find?_isSome]
  exact ⟨s, (List.mem_filter.mp member).1, beq_iff_eq.mpr same⟩

/-- Whoever is seated when a deal starts is seated as long as it lasts. -/
theorem seated_give {table : Table} {id other : PlayerId} (cards : Pile) :
    (∃ s, (table.give other cards).seat? id = some s) ↔ ∃ s, table.seat? id = some s := by
  have named (s : Seat) : (if s.id = other then s.receive cards else s).id = s.id := by
    split <;> rfl
  simp only [← Option.isSome_iff_exists, seat?, give, modify, List.find?_isSome, List.mem_map]
  constructor
  · rintro ⟨_, ⟨s, member, rfl⟩, same⟩
    exact ⟨s, member, by rwa [named] at same⟩
  · rintro ⟨s, member, same⟩
    exact ⟨_, ⟨s, member, rfl⟩, by rwa [named]⟩

end Table

end WarGame
