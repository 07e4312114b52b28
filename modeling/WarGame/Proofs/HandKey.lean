import WarGame.Proofs.Leaders

/-!
# The key of a hand

A hand meets a round and the wars after it with a fixed row of cards facing up: the cards at even
places, and the bottom card if it is at an odd one. The key is that row, each rank with the kind
of stake that shows it. Keys are compared in lexicographic order, which is how a round compares
the hands.
-/

namespace WarGame

/-- The rank of a card that faces up, with the kind of stake that shows it. -/
inductive Face where
  /-- The stake was all that a limited step found. -/
  | limited (rank : Rank)
  /-- The stake was the opening card or that of a full step. -/
  | full (rank : Rank)
  deriving Repr

namespace Face

/-- The place in the order: any full stake above any limited one, and stakes of one kind by rank. -/
def order : Face → Nat
  | limited rank => rank.value
  | full rank => Rank.ace.value + rank.value

theorem value_pos (rank : Rank) : 0 < rank.value := by cases rank <;> decide

theorem value_le_ace (rank : Rank) : rank.value ≤ Rank.ace.value := by cases rank <;> decide

theorem order_injective : Function.Injective order := by
  intro a b same
  cases a with
  | limited r =>
    cases b with
    | limited s => exact congrArg limited (Rank.value_inj.mp same)
    | full s =>
      have := value_le_ace r
      have := value_pos s
      simp only [order] at same
      omega
  | full r =>
    cases b with
    | limited s =>
      have := value_le_ace s
      have := value_pos r
      simp only [order] at same
      omega
    | full s => exact congrArg full (Rank.value_inj.mp (Nat.add_left_cancel same))

instance : LinearOrder Face := LinearOrder.lift' order order_injective

theorem lt_iff {a b : Face} : a < b ↔ a.order < b.order := Iff.rfl

theorem limited_lt_full (r s : Rank) : limited r < full s := by
  have := value_le_ace r
  have := value_pos s
  rw [lt_iff, order, order]
  omega

theorem full_lt_full {r s : Rank} : full r < full s ↔ r < s := by
  rw [lt_iff, Rank.lt_iff, order, order]
  omega

theorem limited_lt_limited {r s : Rank} : limited r < limited s ↔ r < s := Iff.rfl

end Face

/-! ### Keys -/

/-- The entries at even places, from zero. -/
def evenPlaces {α : Type} : List α → List α
  | [] => []
  | [x] => [x]
  | x :: _ :: rest => x :: evenPlaces rest

theorem getElem?_evenPlaces {α : Type} (xs : List α) (i : Nat) :
    (evenPlaces xs)[i]? = xs[2 * i]? := by
  induction xs using evenPlaces.induct generalizing i with
  | case1 => simp [evenPlaces]
  | case2 x => cases i <;> simp [evenPlaces]
  | case3 x y rest ih =>
    cases i with
    | zero => rfl
    | succ i =>
      rw [evenPlaces, List.getElem?_cons_succ, ih, show 2 * (i + 1) = 2 * i + 1 + 1 by omega]
      rfl

theorem evenPlaces_map {β γ : Type} (view : β → γ) (xs : List β) :
    evenPlaces (xs.map view) = (evenPlaces xs).map view := by
  induction xs using evenPlaces.induct with
  | case1 => rfl
  | case2 x => rfl
  | case3 x y rest ih => simp [evenPlaces, ih]

/-- The faces that a hand shows from the opening of a round on. -/
def key (hand : Pile) : List Face :=
  (evenPlaces hand).map (fun c => .full c.rank) ++
    if hand.length % 2 = 0 then hand.getLast?.toList.map fun c => .limited c.rank else []

/-- The faces that a hand shows in a war. -/
def warKey : Pile → List Face
  | [] => []
  | [c] => [.limited c.rank]
  | _ :: c :: rest => .full c.rank :: warKey rest

theorem key_cons (c : Card) (rest : Pile) : key (c :: rest) = .full c.rank :: warKey rest := by
  induction rest using warKey.induct generalizing c with
  | case1 => rfl
  | case2 d => simp [key, evenPlaces, warKey]
  | case3 d e rest ih =>
    have again := ih e
    have parity : (c :: d :: e :: rest).length % 2 = (e :: rest).length % 2 := by
      simp only [List.length_cons]
      omega
    have bottom : (c :: d :: e :: rest).getLast? = (e :: rest).getLast? := by simp
    unfold key at again ⊢
    rw [parity, bottom, evenPlaces, List.map_cons, List.cons_append, again, warKey]

/-- The place of the first face in the order, and zero if no card faces up. -/
def lead : List Face → Nat
  | [] => 0
  | face :: _ => face.order

theorem le_iff_lead_tail {first second : List Face} :
    first ≤ second ↔
      lead first < lead second ∨ lead first = lead second ∧ first.tail ≤ second.tail := by
  have positive (face : Face) : 0 < face.order := by
    cases face with
    | limited r => exact Face.value_pos r
    | full r => exact Nat.lt_of_lt_of_le (Face.value_pos r) (Nat.le_add_left _ _)
  cases first with
  | nil =>
    cases second with
    | nil => simp
    | cons b second => simp [lead, positive b, le_of_lt]
  | cons a first =>
    cases second with
    | nil => simp [lead, positive a, Nat.ne_of_gt]
    | cons b second =>
      have above : b :: second < a :: first ↔
          b.order < a.order ∨ b.order = a.order ∧ second < first := by
        rw [List.cons_lt_cons_iff, Face.lt_iff, Face.order_injective.eq_iff]
      simp only [lead, List.tail_cons]
      rw [← not_lt, above, ← not_lt]
      by_cases less : second < first
      · simp only [less, not_true_eq_false, and_true, and_false, or_false]
        omega
      · simp only [less, not_false_eq_true, and_true, and_false, or_false]
        omega

/-- The number of places from the first on at which two keys agree. -/
def sharedPlaces : List Face → List Face → Nat
  | a :: first, b :: second => if a = b then sharedPlaces first second + 1 else 0
  | _, _ => 0

theorem sharedPlaces_of_lead_ne {first second : List Face} (apart : lead first ≠ lead second) :
    sharedPlaces first second = 0 := by
  cases first with
  | nil => rfl
  | cons a first =>
    cases second with
    | nil => rfl
    | cons b second =>
      rw [sharedPlaces, if_neg]
      rintro rfl
      exact apart rfl

theorem sharedPlaces_of_lead_eq {first second : List Face} (same : lead first = lead second)
    (shows : lead first ≠ 0) :
    sharedPlaces first second = sharedPlaces first.tail second.tail + 1 := by
  cases first with
  | nil => exact (shows rfl).elim
  | cons a first =>
    cases second with
    | nil => exact (shows same).elim
    | cons b second =>
      have alike : a = b := Face.order_injective same
      rw [sharedPlaces, if_pos alike]
      rfl

end WarGame
