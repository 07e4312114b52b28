import WarGame.Proofs.MixedDraws

/-!
# Rows of cards, card by card

A row of cards comes to as many single draws, one after the other: the same cards in the same order,
the same cards left and the same place in the stream of words. If the pile runs out first, the
refusal holds the cards of the single draws that there were cards for. So a row can be drawn in
parts.
-/

namespace WarGame

namespace Pile

variable {tries : Nat} {pile : Pile}

/-- Where a draw takes its cards. -/
inductive Place where
  | top | random
  deriving DecidableEq, Repr

/-- The answer to a draw of so many cards that has found these. -/
def handOut (count : Nat) (cards : Pile) : Except DrawError Pile :=
  if cards.length < count then .error (.insufficient count cards) else .ok cards

theorem handOut_of_enough {count : Nat} {cards : Pile} (enough : count ≤ cards.length) :
    handOut count cards = .ok cards := if_neg (Nat.not_lt.mpr enough)

/-- Whether or not there were as many cards as asked, they are handed out. -/
theorem cards_handOut (count : Nat) (cards : Pile) :
    (Answer.row (handOut count cards)).cards = cards := by
  unfold handOut
  split <;> rfl

theorem flatMap_cards (cards : Pile) :
    (cards.map fun c => Answer.card (.ok c)).flatMap Answer.cards = cards := by
  rw [List.flatMap_map]
  exact List.flatMap_singleton' cards

theorem length_eraseIdx_cons (c : Card) (rest : Pile) (i : Fin (c :: rest).length) :
    ((c :: rest).eraseIdx i).length = rest.length := List.length_eraseIdx_of_lt i.isLt

theorem takeChosen_min {m : Type → Type} [Monad m] (choose : (len : Nat) → m (Fin len))
    (count : Nat) (pile : Pile) :
    takeChosen choose (min count pile.length) pile = takeChosen choose count pile := by
  induction count generalizing pile with
  | zero => rw [Nat.zero_min]
  | succ count ih =>
    cases pile with
    | nil => rfl
    | cons c rest =>
      rw [List.length_cons, Nat.add_min_add_right, takeChosen, takeChosen]
      refine bind_congr fun i => ?_
      rw [← length_eraseIdx_cons c rest i, ih]

theorem takeChosen_add {m : Type → Type} [Monad m] [LawfulMonad m]
    (choose : (len : Nat) → m (Fin len)) (a b : Nat) (pile : Pile) :
    takeChosen choose (a + b) pile = (do
      let (first, mid) ← takeChosen choose a pile
      let (second, last) ← takeChosen choose b mid
      pure (first ++ second, last)) := by
  induction a generalizing pile with
  | zero => simp [takeChosen]
  | succ a ih =>
    cases pile with
    | nil => cases b <;> simp [takeChosen]
    | cons c rest =>
      rw [Nat.succ_add, takeChosen, takeChosen]
      simp only [ih, bind_assoc, pure_bind, List.cons_append]

namespace Place

/-- The draw of one card. -/
def single : Place → Call
  | top => .draw
  | random => .pick

/-- The draw of a row of cards. -/
def row (count : Nat) : Place → Call
  | top => .drawRow count
  | random => .pickRow count

/-- The cards that are taken for a row, and the ones left. -/
def take (tries count : Nat) (pile : Pile) : Place → Random (Pile × Pile)
  | top => pure (pile.take count, pile.drop count)
  | random => takeChosen (Random.index tries) count pile

variable {place : Place} {count : Nat} {g after : Generator}

theorem run_row : (place.row count).run tries pile = (do
    let (cards, left) ← place.take tries count pile
    pure (.row (handOut count cards), left)) := by
  have counted : ¬ (count : Int) < 0 := by omega
  cases place with
  | top =>
    simp only [row, take, Call.run, pure_bind, drawRow, if_neg counted, Int.toNat_natCast]
    by_cases few : pile.length < count
    · simp [few, handOut, List.take_of_length_le, List.drop_of_length_le, Nat.le_of_lt few]
    · simp [few, handOut]
  | random =>
    simp only [row, take, Call.run, pickRow, if_neg counted, Int.toNat_natCast, bind_assoc]
    refine bind_congr fun drawn => ?_
    unfold handOut
    split <;> simp

theorem take_min :
    place.take tries (min count pile.length) pile = place.take tries count pile := by
  cases place with
  | top => simp only [take, ← List.take_eq_take_min, ← List.drop_eq_drop_min]
  | random => exact takeChosen_min _ count pile

theorem take_add (a b : Nat) : place.take tries (a + b) pile = (do
    let (first, mid) ← place.take tries a pile
    let (second, last) ← place.take tries b mid
    pure (first ++ second, last)) := by
  cases place with
  | top => simp [take, List.take_add, List.drop_drop]
  | random => exact takeChosen_add _ a b pile

theorem length_take {cards left : Pile} (enough : count ≤ pile.length)
    (taken : place.take tries count pile g = .ok ((cards, left), after)) :
    cards.length = count ∧ left.length = pile.length - count := by
  cases place with
  | top =>
    cases taken
    simp [enough]
  | random =>
    obtain ⟨same, -, size⟩ := takeChosen_spec taken
    have whole := same.length_eq
    rw [List.length_append] at whole
    omega

theorem runAll_singles (enough : count ≤ pile.length) :
    runAll tries (List.replicate count place.single) pile = (do
      let (cards, left) ← place.take tries count pile
      pure (cards.map fun c => .card (.ok c), left)) := by
  induction count generalizing pile with
  | zero => cases place <;> simp [runAll, take, takeChosen]
  | succ count ih =>
    cases pile with
    | nil => simp at enough
    | cons c rest =>
      rw [List.replicate_succ, runAll]
      cases place with
      | top =>
        have others := ih (by simpa using enough)
        simp only [single, Call.run, Pile.draw, pure_bind] at others ⊢
        rw [others]
        simp [take]
      | random =>
        simp only [single, take, Call.run, pick, takeChosen, bind_assoc, pure_bind] at ih ⊢
        refine bind_congr fun i => ?_
        have still : count ≤ ((c :: rest).eraseIdx i).length := by
          rw [length_eraseIdx_cons]
          exact Nat.le_of_succ_le_succ enough
        rw [ih still]
        simp

end Place

/-- Rows of cards beside single draws. -/
structure CardByCard (tries : Nat) (pile : Pile) (place : Place) : Prop where
  /-- A row hands out what single draws hand out, as many as there are cards for. -/
  row : ∀ count, (place.row count).run tries pile = do
    let (answers, left) ← runAll tries (List.replicate (min count pile.length) place.single) pile
    pure (.row (handOut count (answers.flatMap Answer.cards)), left)
  /-- While there are cards, every single draw answers one. -/
  singles : ∀ count g answers left after, count ≤ pile.length →
    runAll tries (List.replicate count place.single) pile g = .ok ((answers, left), after) →
      left.length = pile.length - count ∧
        ∃ cards : Pile, cards.length = count ∧ answers = cards.map fun c => .card (.ok c)
  /-- A row that there are cards for can be drawn in two parts. -/
  parts : ∀ a b, a + b ≤ pile.length → (place.row (a + b)).run tries pile = do
    let (first, mid) ← (place.row a).run tries pile
    let (second, last) ← (place.row b).run tries mid
    pure (.row (.ok (first.cards ++ second.cards)), last)

theorem rows_cardByCard (tries : Nat) (pile : Pile) (place : Place) :
    CardByCard tries pile place := by
  constructor
  case row =>
    intro count
    rw [Place.run_row, Place.runAll_singles (Nat.min_le_right _ _), Place.take_min]
    simp only [bind_assoc, pure_bind, flatMap_cards]
  case singles =>
    intro count g answers left after enough done
    rw [Place.runAll_singles enough] at done
    obtain ⟨⟨cards, last⟩, mid, taken, answered⟩ := Random.bind_ok done
    cases answered
    obtain ⟨size, fewer⟩ := Place.length_take enough taken
    exact ⟨fewer, cards, size, rfl⟩
  case parts =>
    intro a b enough
    funext g
    rw [Place.run_row, Place.take_add]
    simp only [Place.run_row, bind_assoc, pure_bind, cards_handOut]
    -- Both parts are whole only because the first has left enough, which only its answer tells.
    refine Random.bind_congr_of_ok fun ⟨first, left⟩ mid taken => ?_
    obtain ⟨size, fewer⟩ := Place.length_take (by omega) taken
    have still : b ≤ left.length := by omega
    refine Random.bind_congr_of_ok fun ⟨second, last⟩ late others => ?_
    obtain ⟨rest, -⟩ := Place.length_take still others
    have whole : a + b ≤ (first ++ second).length := by
      rw [List.length_append]
      omega
    rw [handOut_of_enough whole]

end Pile

end WarGame
