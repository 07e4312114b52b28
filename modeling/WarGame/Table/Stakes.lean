import WarGame.Table

/-!
# Stakes

At each stage of a round the players concerned put cards in from the top of their hands: one card
to open the round, two at a full step of a war, everything at a limited step. A player who cannot
put in what the stage asks for puts in what there is and is eliminated. Stakes are what the others
put in, ascending by id.
-/

namespace WarGame

/-- What players are asked for at one time. -/
inductive Stage where
  /-- The card that opens a round. -/
  | opening
  /-- A step of a war with one card face down and one face up. -/
  | full
  /-- A step of a war that nobody can afford in full. -/
  | limited
  deriving DecidableEq, Repr

/-- The cards that a full step asks of each tied player. -/
def fullStake : Nat := 2

/-- The cards each player put into play, in the order played. -/
abbrev Stakes := List (PlayerId × Pile)

namespace Stakes

/-- Records what a player put into play, in place of what is recorded for the player. Stakes that
ascend by id still do. -/
def put (id : PlayerId) (cards : Pile) : Stakes → Stakes
  | [] => [(id, cards)]
  | (other, held) :: rest =>
    if id < other then (id, cards) :: (other, held) :: rest
    else if id = other then (id, cards) :: rest
    else (other, held) :: put id cards rest

/-- Records entries in any order. Of two for one player the later one counts. -/
def ofList (entries : List (PlayerId × Pile)) : Stakes :=
  entries.foldl (fun played entry => played.put entry.1 entry.2) []

/-- The cards put into play, player by player. -/
def cards (played : Stakes) : Pile := played.flatMap fun entry => entry.2

end Stakes

namespace Seat

/-- The cards put in at a stage. -/
def stake (s : Seat) : Stage → Pile
  | .opening => if s.isActive then s.hand.take 1 else []
  | .full => s.hand.take fullStake
  | .limited => if s.isActive then s.hand else []

/-- Whether the stake is what the stage asks for. -/
def meets (s : Seat) : Stage → Bool
  | .opening | .limited => s.isActive && !s.hand.isEmpty
  | .full => fullStake ≤ s.hand.length

/-- The seat after putting cards in. -/
def play (s : Seat) (stage : Stage) : Seat :=
  let cards := s.stake stage
  { s with
    hand := s.hand.drop cards.length
    lastCard := cards.getLast?.or s.lastCard
    standing := if s.meets stage then s.standing else .eliminated }

theorem stake_append_hand (s : Seat) (stage : Stage) :
    s.stake stage ++ (s.play stage).hand = s.hand := by
  have takes (n : Nat) : s.hand.take n ++ s.hand.drop (min n s.hand.length) = s.hand := by
    obtain within | beyond := Nat.le_total n s.hand.length
    · rw [Nat.min_eq_left within, List.take_append_drop]
    · rw [Nat.min_eq_right beyond, List.drop_length, List.take_of_length_le beyond, List.append_nil]
  cases stage <;> simp only [play, stake]
  · split <;> simp [takes]
  · simp [takes]
  · split <;> simp

theorem stake_ne_nil {s : Seat} {stage : Stage} (able : s.meets stage = true) :
    s.stake stage ≠ [] := by
  cases stage <;> simp_all [meets, stake, fullStake, List.take_eq_nil_iff]
  intro none
  simp [none] at able

theorem length_play_le (s : Seat) (stage : Stage) :
    (s.play stage).hand.length ≤ s.hand.length := by
  simp [play]

theorem length_play_lt {s : Seat} {stage : Stage} (able : s.meets stage = true) :
    (s.play stage).hand.length < s.hand.length := by
  have whole := congrArg List.length (s.stake_append_hand stage)
  have some := List.length_pos_iff.mpr (stake_ne_nil able)
  rw [List.length_append] at whole
  omega

end Seat

namespace Table

/-- Every active player opens the round with the top card of the hand, and one who has none is
eliminated. Gives the stakes, their cards in one row and the table. -/
def openRound (table : Table) : Stakes × Pile × Table :=
  ((table.filter fun s => s.meets .opening).map fun s => (s.id, s.stake .opening),
    table.flatMap fun s => s.stake .opening,
    table.map fun s => s.play .opening)

theorem length_hands_modify_le {change : Seat → Seat} (id : PlayerId) (table : Table)
    (shrinks : ∀ s, (change s).hand.length ≤ s.hand.length) :
    (table.modify id change).hands.length ≤ table.hands.length := by
  induction table with
  | nil => simp [modify, hands]
  | cons s rest ih =>
    simp only [modify, hands, List.map_cons, List.flatMap_cons, List.length_append] at ih ⊢
    have := shrinks s
    split <;> omega

theorem length_hands_modify_lt {change : Seat → Seat} {id : PlayerId} {table : Table} {s : Seat}
    (seated : table.seat? id = some s) (shrinks : ∀ s, (change s).hand.length ≤ s.hand.length)
    (strict : (change s).hand.length < s.hand.length) :
    (table.modify id change).hands.length < table.hands.length := by
  induction table with
  | nil => simp [seat?] at seated
  | cons r rest ih =>
    have others := length_hands_modify_le id rest shrinks
    simp only [seat?, modify, hands, List.find?_cons, List.map_cons, List.flatMap_cons,
      List.length_append] at seated ih others ⊢
    split at seated
    · next here =>
      obtain rfl := Option.some.inj seated
      rw [if_pos (beq_iff_eq.mp here)]
      omega
    · have := shrinks r
      have := ih seated
      split <;> omega

end Table

end WarGame
