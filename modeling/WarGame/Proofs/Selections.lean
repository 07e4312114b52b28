import WarGame.Proofs.CardByCard

/-!
# Random draws as selections

Cards drawn at random are chosen by indices, each into the cards that are still there. A sequence of
such indices stands for an ordered selection of positions of the pile, every selection for one
sequence, and the cards at the other positions stay in their order. So where all sequences are
equally likely, all selections are.
-/

namespace WarGame

namespace Pile

/-! ### Index sequences -/

/-- Every index is below the number of cards still there when it is asked for. -/
def InRange (size : Nat) (indices : List Nat) : Prop :=
  ∀ (k : Nat) (place : k < indices.length), indices[k] < size - k

theorem inRange_nil (size : Nat) : InRange size [] := fun k place => absurd place (Nat.not_lt_zero k)

theorem inRange_cons {size i : Nat} {rest : List Nat} :
    InRange size (i :: rest) ↔ i < size ∧ InRange (size - 1) rest := by
  constructor
  · refine fun within => ⟨within 0 (Nat.succ_pos _), fun k place => ?_⟩
    have next := within (k + 1) (Nat.succ_lt_succ place)
    rw [List.getElem_cons_succ] at next
    omega
  · rintro ⟨first, within⟩ k place
    cases k with
    | zero => exact first
    | succ k =>
      have next := within k (Nat.lt_of_succ_lt_succ place)
      rw [List.getElem_cons_succ]
      omega

/-- The index sequences for a number of draws from a number of cards. -/
def Indices (size count : Nat) : Set (List Nat) :=
  {indices | indices.length = count ∧ InRange size indices}

/-- The ordered selections of so many distinct positions. -/
def Selections (size count : Nat) : Set (List (Fin size)) :=
  {positions | positions.length = count ∧ positions.Nodup}

/-! ### What indices take -/

section

variable {α β : Type}

/-- The entries taken at indices, each into what is left by the ones before, and the entries left
by all. -/
def takeAt : List Nat → List α → List α × List α
  | [], xs => ([], xs)
  | i :: rest, xs =>
    match xs[i]? with
    | none => ([], xs)
    | some x => (x :: (takeAt rest (xs.eraseIdx i)).1, (takeAt rest (xs.eraseIdx i)).2)

theorem takeAt_cons {i : Nat} {xs : List α} (place : i < xs.length) (rest : List Nat) :
    takeAt (i :: rest) xs =
      (xs[i] :: (takeAt rest (xs.eraseIdx i)).1, (takeAt rest (xs.eraseIdx i)).2) := by
  rw [takeAt, List.getElem?_eq_getElem place]

theorem takeAt_map (view : α → β) (indices : List Nat) (xs : List α) :
    takeAt indices (xs.map view) =
      ((takeAt indices xs).1.map view, (takeAt indices xs).2.map view) := by
  induction indices generalizing xs with
  | nil => rfl
  | cons i rest ih =>
    rw [takeAt, takeAt, List.getElem?_map]
    cases xs[i]? with
    | none => rfl
    | some x => simp only [Option.map_some, List.eraseIdx_map, ih, List.map_cons]

theorem takeAt_perm (indices : List Nat) (xs : List α) :
    ((takeAt indices xs).1 ++ (takeAt indices xs).2).Perm xs := by
  induction indices generalizing xs with
  | nil => exact .refl _
  | cons i rest ih =>
    by_cases place : i < xs.length
    · rw [takeAt_cons place]
      exact ((ih _).cons _).trans (List.getElem_cons_eraseIdx_perm place)
    · rw [takeAt, List.getElem?_eq_none (Nat.le_of_not_lt place)]
      exact .refl _

variable {xs : List α} {indices : List Nat}

theorem length_takeAt (within : InRange xs.length indices) :
    (takeAt indices xs).1.length = indices.length := by
  induction indices generalizing xs with
  | nil => rfl
  | cons i rest ih =>
    obtain ⟨place, later⟩ := inRange_cons.mp within
    rw [← List.length_eraseIdx_of_lt place] at later
    rw [takeAt_cons place, List.length_cons, List.length_cons, ih later]

theorem nodup_takeAt (distinct : xs.Nodup) (indices : List Nat) :
    (takeAt indices xs).1.Nodup :=
  (List.nodup_append.mp ((takeAt_perm indices xs).nodup_iff.mpr distinct)).1

/-- Among distinct entries, what is left are those that were not taken, in order. -/
theorem left_takeAt [DecidableEq α] (distinct : xs.Nodup) (indices : List Nat) :
    (takeAt indices xs).2 = xs.filter (· ∉ (takeAt indices xs).1) := by
  induction indices generalizing xs with
  | nil => simp [takeAt]
  | cons i rest ih =>
    by_cases place : i < xs.length
    · have later := ih (distinct.eraseIdx i)
      rw [takeAt_cons place]
      generalize takeAt rest (xs.eraseIdx i) = drawn at later ⊢
      rw [later, ← distinct.erase_getElem i place, distinct.erase_eq_filter, List.filter_filter]
      refine List.filter_congr fun x _ => ?_
      by_cases here : x = xs[i] <;> simp [here]
    · simp [takeAt, List.getElem?_eq_none (Nat.le_of_not_lt place)]

/-- Distinct entries that are taken tell the indices. -/
theorem takeAt_injective {others : List Nat} (distinct : xs.Nodup)
    (within : InRange xs.length indices) (also : InRange xs.length others)
    (same : (takeAt indices xs).1 = (takeAt others xs).1) : indices = others := by
  induction indices generalizing xs others with
  | nil =>
    have none := length_takeAt also
    rw [← same] at none
    exact (List.eq_nil_of_length_eq_zero none.symm).symm
  | cons i rest ih =>
    cases others with
    | nil =>
      have none := length_takeAt within
      rw [same] at none
      cases none
    | cons j more =>
      obtain ⟨first, later⟩ := inRange_cons.mp within
      obtain ⟨second, further⟩ := inRange_cons.mp also
      rw [takeAt_cons first, takeAt_cons second] at same
      obtain ⟨alike, behind⟩ := List.cons.inj same
      -- The entries are distinct, so the first one taken tells its index.
      obtain rfl := distinct.getElem_inj_iff.mp alike
      rw [← List.length_eraseIdx_of_lt first] at later further
      rw [ih (distinct.eraseIdx i) later further behind]

/-- Distinct entries can be taken in any order. -/
theorem exists_takeAt [DecidableEq α] {chosen : List α} (distinct : chosen.Nodup)
    (among : ∀ x ∈ chosen, x ∈ xs) :
    ∃ indices, InRange xs.length indices ∧ (takeAt indices xs).1 = chosen := by
  induction chosen generalizing xs with
  | nil => exact ⟨[], inRange_nil _, rfl⟩
  | cons x rest ih =>
    obtain ⟨fresh, apart⟩ := List.nodup_cons.mp distinct
    have place : xs.idxOf x < xs.length := List.idxOf_lt_length_of_mem (among x List.mem_cons_self)
    have here : xs[xs.idxOf x] = x := List.getElem_idxOf place
    have still : ∀ y ∈ rest, y ∈ xs.eraseIdx (xs.idxOf x) := by
      intro y member
      rw [List.eraseIdx_idxOf_eq_erase]
      refine (List.mem_erase_of_ne ?_).mpr (among y (List.mem_cons_of_mem x member))
      rintro rfl
      exact fresh member
    obtain ⟨indices, within, taken⟩ := ih apart still
    rw [List.length_eraseIdx_of_lt place] at within
    refine ⟨xs.idxOf x :: indices, inRange_cons.mpr ⟨place, within⟩, ?_⟩
    rw [takeAt_cons place, taken, here]

end

/-- The positions in a pile that indices choose. -/
def positions (size : Nat) (indices : List Nat) : List (Fin size) :=
  (takeAt indices (List.finRange size)).1

theorem positions_bijOn (size count : Nat) :
    Set.BijOn (positions size) (Indices size count) (Selections size count) := by
  have distinct := List.nodup_finRange size
  have all : (List.finRange size).length = size := List.length_finRange
  refine .mk ?_ ?_ ?_
  · rintro indices ⟨size, within⟩
    rw [← all] at within
    exact ⟨(length_takeAt within).trans size, nodup_takeAt distinct indices⟩
  · rintro indices ⟨-, within⟩ others ⟨-, also⟩ same
    rw [← all] at within also
    exact takeAt_injective distinct within also same
  · rintro chosen ⟨size, apart⟩
    obtain ⟨indices, within, taken⟩ := exists_takeAt apart fun p _ => List.mem_finRange p
    refine ⟨indices, ⟨?_, all ▸ within⟩, taken⟩
    rw [← length_takeAt within, taken, size]

/-! ### What a draw asks for -/

/-- Asks for an index for each of a number of draws from a number of cards. -/
def askAll {m : Type → Type} [Monad m] (choose : (len : Nat) → m (Fin len)) :
    Nat → Nat → m (List Nat)
  | 0, _ => pure []
  | _ + 1, 0 => pure []
  | count + 1, size + 1 => do
    let i ← choose (size + 1)
    let rest ← askAll choose count size
    pure (i.val :: rest)

/-- A draw asks for its indices, and what it takes depends on nothing but the answers. -/
theorem takeChosen_eq {m : Type → Type} [Monad m] [LawfulMonad m]
    (choose : (len : Nat) → m (Fin len)) (count : Nat) (pile : Pile) :
    takeChosen choose count pile =
      (fun indices => takeAt indices pile) <$> askAll choose count pile.length := by
  induction count generalizing pile with
  | zero => simp [takeChosen, askAll, takeAt]
  | succ count ih =>
    cases pile with
    | nil => simp [takeChosen, askAll, takeAt]
    | cons c rest =>
      have asked : askAll choose (count + 1) (c :: rest).length = (do
          let i ← choose (c :: rest).length
          let others ← askAll choose count rest.length
          pure (i.val :: others)) := rfl
      rw [takeChosen, asked, map_bind]
      refine bind_congr fun i => ?_
      rw [ih, length_eraseIdx_cons]
      simp [takeAt_cons i.isLt]

/-- Indices that are known in advance, the next of them for each question. -/
def foreseen (len : Nat) : StateT (List Nat) Option (Fin len) := fun indices =>
  match indices with
  | [] => none
  | i :: rest => if below : i < len then some (⟨i, below⟩, rest) else none

theorem askAll_foreseen {size count : Nat} {indices : List Nat}
    (counted : indices ∈ Indices size count) :
    askAll foreseen count size indices = some (indices, []) := by
  obtain ⟨rfl, within⟩ := counted
  induction indices generalizing size with
  | nil => rfl
  | cons i rest ih =>
    obtain ⟨place, later⟩ := inRange_cons.mp within
    cases size with
    | zero => exact absurd place (Nat.not_lt_zero i)
    | succ size =>
      have others : askAll foreseen rest.length size rest = some (rest, []) := ih later
      simp only [List.length_cons, askAll, bind, StateT.bind, foreseen, dif_pos place,
        Option.bind_some, others]
      rfl

theorem indices_of_askAll {size count : Nat} {choose : (len : Nat) → Random (Fin len)}
    {g after : Generator} {indices : List Nat} (enough : count ≤ size)
    (asked : askAll choose count size g = .ok (indices, after)) : indices ∈ Indices size count := by
  induction count generalizing size g indices after with
  | zero =>
    obtain rfl := Random.pure_ok asked
    exact ⟨rfl, inRange_nil size⟩
  | succ count ih =>
    obtain ⟨size, rfl⟩ := Nat.exists_eq_succ_of_ne_zero (by omega : size ≠ 0)
    obtain ⟨i, mid, -, others⟩ := Random.bind_ok asked
    obtain ⟨rest, late, behind, answered⟩ := Random.bind_ok others
    obtain rfl := Random.pure_ok answered
    obtain ⟨counted, within⟩ := ih (by omega) behind
    exact ⟨congrArg Nat.succ counted, inRange_cons.mpr ⟨i.isLt, within⟩⟩

/-! ### Selections of cards -/

/-- The cards at positions of a pile. -/
def cardsAt (pile : Pile) (chosen : List (Fin pile.length)) : Pile := chosen.map pile.get

/-- The positions that are not chosen, in order. -/
def unchosen {size : Nat} (chosen : List (Fin size)) : List (Fin size) :=
  (List.finRange size).filter (· ∉ chosen)

theorem takeAt_pile (indices : List Nat) (pile : Pile) :
    takeAt indices pile = (pile.cardsAt (positions pile.length indices),
      pile.cardsAt (unchosen (positions pile.length indices))) := by
  have left := left_takeAt (List.nodup_finRange pile.length) indices
  have numbered := takeAt_map pile.get indices (List.finRange pile.length)
  have whole : (List.finRange pile.length).map pile.get = pile := List.map_getElem_finRange pile
  rw [whole, left] at numbered
  exact numbered

/-- Cards drawn at random as an ordered selection of positions. -/
structure Selects (pile : Pile) (count : Nat) : Prop where
  /-- Every selection comes from one index sequence and from no other. -/
  bijective : Set.BijOn (positions pile.length) (Indices pile.length count)
    (Selections pile.length count)
  /-- The draw takes the cards that are selected and leaves the others in their order. -/
  taken : ∀ indices ∈ Indices pile.length count, takeChosen foreseen count pile indices =
    some ((pile.cardsAt (positions pile.length indices),
      pile.cardsAt (unchosen (positions pile.length indices))), [])
  /-- A generator answers with one of the sequences. -/
  asked : ∀ tries g indices after,
    askAll (Random.index tries) count pile.length g = .ok (indices, after) →
      indices ∈ Indices pile.length count
  drawn : ∀ tries, pile.pickRow tries count = do
    let indices ← askAll (Random.index tries) count pile.length
    pure (.ok (pile.cardsAt (positions pile.length indices)),
      pile.cardsAt (unchosen (positions pile.length indices)))

theorem selects_of_enough {pile : Pile} {count : Nat} (enough : count ≤ pile.length) :
    Selects pile count := by
  constructor
  case bijective => exact positions_bijOn pile.length count
  case taken =>
    intro indices counted
    rw [takeChosen_eq, ← takeAt_pile]
    simp [Functor.map, StateT.map, askAll_foreseen counted]
  case asked => exact fun tries g indices after asked => indices_of_askAll enough asked
  case drawn =>
    intro tries
    funext g
    have counted : ¬ (count : Int) < 0 := by omega
    rw [pickRow, if_neg counted, Int.toNat_natCast, takeChosen_eq, bind_map_left]
    refine Random.bind_congr_of_ok fun indices mid asked => ?_
    obtain ⟨counted, within⟩ := indices_of_askAll enough asked
    have whole : ¬ (takeAt indices pile).1.length < count := by
      rw [length_takeAt within, counted]
      exact Nat.lt_irrefl count
    rw [takeAt_pile] at whole ⊢
    dsimp only at whole ⊢
    rw [if_neg whole]

/-- The second index counts the cards that the first draw has left. -/
theorem selects_twoOfFour : 2 ≤ (pack.take 4).length ∧ Selects (pack.take 4) 2 ∧
    [2, 2] ∈ Indices 4 2 ∧ positions 4 [2, 2] = [2, 3] := by
  have enough : 2 ≤ (pack.take 4).length := by decide
  have within : InRange 4 [2, 2] :=
    inRange_cons.mpr ⟨by decide, inRange_cons.mpr ⟨by decide, inRange_nil _⟩⟩
  exact ⟨enough, selects_of_enough enough, ⟨rfl, within⟩, by decide⟩

end Pile

end WarGame
