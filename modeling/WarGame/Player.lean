import WarGame.Pile

/-!
# Players

A player is an identity, a number with a name, and the cards the player holds. The number orders
the table. Two players are the same when both parts of the identity agree, whatever they hold.
-/

namespace WarGame

/-- The number of a player. -/
structure PlayerId where
  number : Fin 256
  deriving DecidableEq, Repr, Hashable, Inhabited

namespace PlayerId

instance : LT PlayerId := ⟨fun a b => a.number < b.number⟩
instance : LE PlayerId := ⟨fun a b => a.number ≤ b.number⟩
instance : Ord PlayerId := ⟨fun a b => compare a.number.val b.number.val⟩

instance (a b : PlayerId) : Decidable (a < b) := inferInstanceAs (Decidable (a.number < b.number))
instance (a b : PlayerId) : Decidable (a ≤ b) := inferInstanceAs (Decidable (a.number ≤ b.number))

theorem lt_iff {a b : PlayerId} : a < b ↔ a.number.val < b.number.val := Iff.rfl

theorem le_iff {a b : PlayerId} : a ≤ b ↔ a.number.val ≤ b.number.val := Iff.rfl

theorem number_inj {a b : PlayerId} : a.number.val = b.number.val ↔ a = b := by
  obtain ⟨a⟩ := a
  obtain ⟨b⟩ := b
  simp [Fin.ext_iff]

/-- What a player is called by id alone. -/
def label (id : PlayerId) : String := s!"Player {id.number.val}"

/-- The lowest `count` ids, or every id if there are fewer. -/
def lowest (count : Nat) : List PlayerId := ((List.finRange 256).take count).map PlayerId.mk

end PlayerId

/-- A player and the cards held, the next one to play on top. -/
structure Player where
  id : PlayerId
  name : String
  hand : Pile := []
  /-- The card most recently put into play. -/
  lastCard : Option Card := none
  deriving DecidableEq, Repr, Inhabited

namespace Player

/-- A player is hashed by number, which sameness respects. -/
instance : Hashable Player := ⟨fun p => hash p.id⟩

/-- Same number and same name. -/
def same (p q : Player) : Bool := p.id == q.id && p.name == q.name

/-- The same player with the same cards in the same order. -/
def sameHand (p q : Player) : Bool := p.same q && p.hand == q.hand

/-- Players are ordered by number, then by name. -/
instance : Ord Player := ⟨fun p q => (compare p.id q.id).then (compare p.name q.name)⟩

/-- The players in order, those that compare equal as they come. -/
def sort (players : List Player) : List Player :=
  players.mergeSort fun p q => (compare p q).isLE

/-- Adds cards at the bottom of the hand. -/
def receive (p : Player) (cards : Pile) : Player := { p with hand := p.hand ++ cards }

/-- Draws the top card of the hand. -/
def draw (p : Player) : Except DrawError Card × Player :=
  let (result, hand) := p.hand.draw
  (result, { p with hand })

/-- Draws the top `count` cards of the hand. -/
def drawRow (p : Player) (count : Int) : Except DrawError Pile × Player :=
  let (result, hand) := p.hand.drawRow count
  (result, { p with hand })

/-- Gives up the hand. -/
def giveUp (p : Player) : Pile × Player := (p.hand, { p with hand := [] })

theorem hash_eq_of_same {p q : Player} (agree : p.same q = true) : hash p = hash q := by
  simp only [Player.same, Bool.and_eq_true, beq_iff_eq] at agree
  exact congrArg (hash : PlayerId → UInt64) agree.1

end Player

end WarGame
