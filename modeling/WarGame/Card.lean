/-!
# Playing cards

Four suits, thirteen ranks, and a card as a suit with a rank. Play compares cards by rank alone,
Ace high; suits decide only the last tiebreak. Equality of cards is identity.
-/

namespace WarGame

/-- A suit, lowest first. -/
inductive Suit where
  | clubs | diamonds | hearts | spades
  deriving DecidableEq, Repr, Hashable, Inhabited

namespace Suit

/-- The place of a suit in the order, from zero. -/
def order : Suit → Nat
  | clubs => 0
  | diamonds => 1
  | hearts => 2
  | spades => 3

/-- Every suit, lowest first. -/
def all : List Suit := [clubs, diamonds, hearts, spades]

instance : LT Suit := ⟨fun s t => s.order < t.order⟩
instance : LE Suit := ⟨fun s t => s.order ≤ t.order⟩
instance : Ord Suit := ⟨fun s t => compare s.order t.order⟩

instance (s t : Suit) : Decidable (s < t) := inferInstanceAs (Decidable (s.order < t.order))
instance (s t : Suit) : Decidable (s ≤ t) := inferInstanceAs (Decidable (s.order ≤ t.order))

theorem le_iff {s t : Suit} : s ≤ t ↔ s.order ≤ t.order := Iff.rfl

theorem lt_iff {s t : Suit} : s < t ↔ s.order < t.order := Iff.rfl

theorem order_inj {s t : Suit} : s.order = t.order ↔ s = t := by
  cases s <;> cases t <;> decide

theorem mem_all (s : Suit) : s ∈ all := by cases s <;> decide

end Suit

/-- A rank, lowest first. -/
inductive Rank where
  | two | three | four | five | six | seven | eight | nine | ten | jack | queen | king | ace
  deriving DecidableEq, Repr, Hashable, Inhabited

namespace Rank

/-- The value of a rank: its pips, then Jack 11 to Ace 14. -/
def value : Rank → Nat
  | two => 2
  | three => 3
  | four => 4
  | five => 5
  | six => 6
  | seven => 7
  | eight => 8
  | nine => 9
  | ten => 10
  | jack => 11
  | queen => 12
  | king => 13
  | ace => 14

/-- Every rank, lowest first. -/
def all : List Rank :=
  [two, three, four, five, six, seven, eight, nine, ten, jack, queen, king, ace]

instance : LT Rank := ⟨fun r s => r.value < s.value⟩
instance : LE Rank := ⟨fun r s => r.value ≤ s.value⟩
instance : Ord Rank := ⟨fun r s => compare r.value s.value⟩

instance (r s : Rank) : Decidable (r < s) := inferInstanceAs (Decidable (r.value < s.value))
instance (r s : Rank) : Decidable (r ≤ s) := inferInstanceAs (Decidable (r.value ≤ s.value))

theorem le_iff {r s : Rank} : r ≤ s ↔ r.value ≤ s.value := Iff.rfl

theorem lt_iff {r s : Rank} : r < s ↔ r.value < s.value := Iff.rfl

theorem value_inj {r s : Rank} : r.value = s.value ↔ r = s := by
  cases r <;> cases s <;> decide

theorem mem_all (r : Rank) : r ∈ all := by cases r <;> decide

end Rank

/-- A playing card. -/
structure Card where
  suit : Suit
  rank : Rank
  deriving DecidableEq, Repr, Hashable, Inhabited

namespace Card

/-- Two cards of one rank, whatever their suits. -/
def ties (c d : Card) : Bool := c.rank == d.rank

/-- The highest rank among cards, Ace high. -/
def topRank : List Card → Option Rank
  | [] => none
  | c :: rest =>
    match topRank rest with
    | none => some c.rank
    | some r => some (if r ≤ c.rank then c.rank else r)

theorem topRank_eq_none {cards : List Card} : topRank cards = none ↔ cards = [] := by
  cases cards with
  | nil => simp [topRank]
  | cons c rest => simp only [topRank]; split <;> simp

/-- The highest rank is the rank of some card, and no card has a higher one. -/
theorem topRank_eq_some {cards : List Card} {r : Rank} :
    topRank cards = some r ↔ (∃ c ∈ cards, c.rank = r) ∧ ∀ c ∈ cards, c.rank ≤ r := by
  induction cards generalizing r with
  | nil => simp [topRank]
  | cons c rest ih =>
    simp only [topRank]
    split
    · next h =>
      obtain rfl := topRank_eq_none.mp h
      constructor
      · rintro ⟨⟩
        simp [Rank.le_iff]
      · rintro ⟨⟨d, member, rfl⟩, -⟩
        rw [List.mem_singleton.mp member]
    · next best h =>
      obtain ⟨⟨d, member, held⟩, bound⟩ := ih.mp h
      simp only [Rank.le_iff, Option.some.injEq, List.mem_cons, exists_eq_or_imp,
        forall_eq_or_imp] at bound ⊢
      split
      · next beaten =>
        constructor
        · rintro rfl
          exact ⟨.inl rfl, Nat.le_refl _, fun e he => Nat.le_trans (bound e he) beaten⟩
        · rintro ⟨top | ⟨e, he, rfl⟩, above, -⟩
          · exact top
          · exact Rank.value_inj.mp (Nat.le_antisymm above (Nat.le_trans (bound e he) beaten))
      · next unbeaten =>
        constructor
        · rintro rfl
          exact ⟨.inr ⟨d, member, held⟩, by omega, bound⟩
        · rintro ⟨top | ⟨e, he, rfl⟩, above, rest⟩
          · have := rest d member
            rw [held, ← top] at this
            omega
          · have := rest d member
            rw [held] at this
            exact Rank.value_inj.mp (Nat.le_antisymm this (bound e he))

end Card

end WarGame
