import WarGame.Table.Stakes
import WarGame.Error

/-!
# Who leads

The last card of a stake faces up, and the highest rank among the cards of the active players
leads. To settle a drawn war the first cards are compared instead, by suit. Stakes may come in any
order, and are looked at in the order of the ids.
-/

namespace WarGame

namespace Stakes

/-- Puts a stake before the first one of a player with as high an id. -/
def insert (stake : PlayerId × Pile) : Stakes → Stakes
  | [] => [stake]
  | other :: rest =>
    if stake.1 ≤ other.1 then stake :: other :: rest else other :: insert stake rest

/-- Stakes in ascending order of id. -/
def sorted (played : Stakes) : Stakes := played.foldr insert []

end Stakes

namespace Table

/-- The card that faces up for each active player. -/
def faceUp (table : Table) : Stakes → Except Violation (List (PlayerId × Card))
  | [] => .ok []
  | (id, cards) :: rest =>
    match table.seat? id with
    | none => .error (.notSeated id)
    | some s =>
      if s.isActive then
        match cards.getLast? with
        | none => .error (.nothingFaceUp id)
        | some c => (faceUp table rest).map ((id, c) :: ·)
      else faceUp table rest

/-- The active players whose face-up card has the highest rank. -/
def rankLeaders (table : Table) (played : Stakes) : Except Violation (List PlayerId) :=
  (table.faceUp played.sorted).map fun shown =>
    let best := Card.topRank (shown.map (·.2))
    (shown.filter fun entry => some entry.2.rank == best).map (·.1)

theorem faceUp_playing {table : Table} {played : Stakes} {shown : List (PlayerId × Card)}
    (done : table.faceUp played = .ok shown) {id : PlayerId} (member : id ∈ shown.map (·.1)) :
    ∃ s, table.seat? id = some s ∧ s.isActive = true := by
  induction played generalizing shown with
  | nil =>
    obtain rfl := Except.ok.inj done
    simp at member
  | cons entry rest ih =>
    obtain ⟨other, cards⟩ := entry
    simp only [faceUp] at done
    split at done
    · simp at done
    · next s seated =>
      split at done
      · next active =>
        split at done
        · simp at done
        · cases known : table.faceUp rest with
          | error cause => simp [known, Except.map] at done
          | ok others =>
            simp only [known, Except.map, Except.ok.injEq] at done
            subst done
            rcases List.mem_cons.mp member with rfl | member
            · exact ⟨s, seated, active⟩
            · exact ih known member
      · exact ih done member

/-- Whoever is chosen among the cards shown shows one. -/
theorem exists_shown {answer : Except Violation (List (PlayerId × Card))}
    {leads : List (PlayerId × Card) → PlayerId × Card → Bool} {leaders : List PlayerId}
    (done : (answer.map fun shown => (shown.filter (leads shown)).map (·.1)) = .ok leaders)
    {id : PlayerId} (member : id ∈ leaders) :
    ∃ shown, answer = .ok shown ∧ id ∈ shown.map (·.1) := by
  cases answer with
  | error cause => cases done
  | ok shown =>
    cases done
    obtain ⟨entry, place, rfl⟩ := List.mem_map.mp member
    exact ⟨shown, rfl, List.mem_map_of_mem (List.mem_filter.mp place).1⟩

/-- Who leads on rank is seated and in the game. -/
theorem rankLeaders_playing {table : Table} {played : Stakes} {leaders : List PlayerId}
    (done : table.rankLeaders played = .ok leaders) {id : PlayerId} (member : id ∈ leaders) :
    ∃ s, table.seat? id = some s ∧ s.isActive = true := by
  obtain ⟨shown, known, place⟩ := exists_shown done member
  exact faceUp_playing known place

/-- The card that speaks for each player when suits decide. -/
def suitCards (table : Table) : Stakes → Except Violation (List (PlayerId × Card))
  | [] => .ok []
  | (id, cards) :: rest =>
    match table.seat? id with
    | none => .error (.notSeated id)
    | some _ =>
      match cards.head? with
      | none => .error (.noSuitCard id)
      | some c => (suitCards table rest).map ((id, c) :: ·)

/-- The players whose suit no other player beats. -/
def suitLeaders (table : Table) (played : Stakes) : Except Violation (List PlayerId) :=
  (table.suitCards played.sorted).map fun shown =>
    (shown.filter fun entry => shown.all fun other => other.2.suit ≤ entry.2.suit).map (·.1)

theorem suitCards_seated {table : Table} {played : Stakes} {shown : List (PlayerId × Card)}
    (done : table.suitCards played = .ok shown) {id : PlayerId} (member : id ∈ shown.map (·.1)) :
    ∃ s, table.seat? id = some s := by
  induction played generalizing shown with
  | nil =>
    obtain rfl := Except.ok.inj done
    simp at member
  | cons entry rest ih =>
    obtain ⟨other, cards⟩ := entry
    simp only [suitCards] at done
    split at done
    · simp at done
    · next s seated =>
      split at done
      · simp at done
      · cases known : table.suitCards rest with
        | error cause => simp [known, Except.map] at done
        | ok others =>
          simp only [known, Except.map, Except.ok.injEq] at done
          subst done
          rcases List.mem_cons.mp member with rfl | member
          · exact ⟨s, seated⟩
          · exact ih known member

/-- Who leads on suit is seated. -/
theorem suitLeaders_seated {table : Table} {played : Stakes} {leaders : List PlayerId}
    (done : table.suitLeaders played = .ok leaders) {id : PlayerId} (member : id ∈ leaders) :
    ∃ s, table.seat? id = some s := by
  obtain ⟨shown, known, place⟩ := exists_shown done member
  exact suitCards_seated known place

end Table

end WarGame
