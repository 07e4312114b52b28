import WarGame.Game

/-!
# Shuffles keep the cards

A shuffle only ever swaps two cards, so whatever the generator answers the cards are those there
were, in another order. The deck of a game is its packs in some order.
-/

namespace WarGame

namespace Random

variable {α β : Type} {g after : Generator}

theorem bind_ok {x : Random α} {f : α → Random β} {b : β}
    (done : (x >>= f) g = .ok (b, after)) :
    ∃ a mid, x g = .ok (a, mid) ∧ f a mid = .ok (b, after) := by
  simp only [bind, StateT.bind, Except.bind] at done
  split at done
  · cases done
  · next drawn known => exact ⟨drawn.1, drawn.2, known, done⟩

theorem bind_of_ok {x : Random α} {f : α → Random β} {a : α} (known : x g = .ok (a, after)) :
    (x >>= f) g = f a after := by
  simp only [bind, StateT.bind, Except.bind, known]

/-- What follows a computation only matters for the answers that it gives. -/
theorem bind_congr_of_ok {x : Random α} {f h : α → Random β}
    (same : ∀ a mid, x g = .ok (a, mid) → f a mid = h a mid) : (x >>= f) g = (x >>= h) g := by
  simp only [bind, StateT.bind, Except.bind]
  split
  · rfl
  · next drawn known => exact same drawn.1 drawn.2 known

theorem pure_ok {a b : α} (done : (pure a : Random α) g = .ok (b, after)) : b = a := by
  cases done
  rfl

theorem swapDown_perm {tries last : Nat} {xs ys : Array α}
    (done : swapDown tries last xs g = .ok (ys, after)) : ys.Perm xs := by
  induction last generalizing xs g with
  | zero =>
    obtain rfl := pure_ok done
    exact .refl _
  | succ last ih =>
    obtain ⟨i, mid, -, rest⟩ := bind_ok done
    refine (ih rest).trans ?_
    rw [Array.swapIfInBounds_def]
    split
    · split
      · exact Array.swap_perm _ _
      · exact .refl _
    · exact .refl _

theorem shuffle_perm {tries : Nat} {xs ys : List α}
    (done : shuffle tries xs g = .ok (ys, after)) : ys.Perm xs := by
  obtain ⟨zs, mid, swapped, rest⟩ := bind_ok done
  obtain rfl := pure_ok rest
  exact (swapDown_perm swapped).toList

end Random

namespace Pile

variable {g after : Generator} {pile cards : Pile}

theorem shuffleUntilChanged_perm {tries passes : Nat}
    (done : shuffleUntilChanged tries pile passes g = .ok (cards, after)) : cards.Perm pile := by
  induction passes generalizing g with
  | zero => cases done
  | succ passes ih =>
    obtain ⟨order, mid, shuffled, rest⟩ := Random.bind_ok done
    split at rest
    · exact ih rest
    · obtain rfl := Random.pure_ok rest
      exact Random.shuffle_perm shuffled

theorem shuffle_perm {tries : Nat} (done : shuffle tries pile g = .ok (cards, after)) :
    cards.Perm pile := by
  unfold shuffle at done
  split at done
  · obtain rfl := Random.pure_ok done
    exact .refl _
  · exact shuffleUntilChanged_perm done

end Pile

namespace Settings

variable {settings : Settings} {tries : Nat} {entropy : UInt64} {deck : Pile}

theorem deck_perm (ready : settings.deck tries entropy = .ok deck) :
    deck.Perm (Pile.packs settings.packs.toInt) := by
  unfold Settings.deck at ready
  split at ready
  · cases known : (Pile.shuffle tries (Pile.packs settings.packs.toInt)).run
      (settings.generator entropy) with
    | error e => simp [known, Except.map] at ready
    | ok drawn =>
      simp only [known, Except.map, Except.ok.injEq] at ready
      subst ready
      exact Pile.shuffle_perm known
  · cases ready
    exact .refl _

/-- One pack holds no card twice, in whatever order. -/
theorem deck_of_onePack (ready : settings.deck tries entropy = .ok deck)
    (one : settings.packs = 1) : deck.Nodup ∧ deck ≠ [] := by
  have alike := deck_perm ready
  rw [one] at alike
  have distinct : (Pile.packs 1).Nodup := by decide +kernel
  refine ⟨alike.nodup_iff.mpr distinct, ?_⟩
  rintro rfl
  exact absurd alike.nil_eq (by decide)

end Settings

end WarGame
