import Mathlib
import WarGame.Proofs.Shuffling

/-!
# Shuffles change what can be changed

A shuffle passes over the same cards until a pass puts them in another order. The words for an index
and the passes are limited, but an answer that is given within some limits is given within all
greater ones. So what a shuffle comes to can be said without them: it gives the order of the first
pass that changes anything, and a pile without another order stays as it is.
-/

namespace WarGame

namespace Random

variable {α β : Type} {g after : Generator} {tries more : Nat}

/-! ### More tries -/

/-- Whatever the first computation answers, the second answers too. -/
def Extends (x y : Random α) : Prop := ∀ g a after, x g = .ok (a, after) → y g = .ok (a, after)

theorem Extends.refl (x : Random α) : Extends x x := fun _ _ _ done => done

theorem Extends.bind {x y : Random α} {f h : α → Random β} (first : Extends x y)
    (second : ∀ a, Extends (f a) (h a)) : Extends (x >>= f) (y >>= h) := by
  intro g b after done
  obtain ⟨a, mid, drawn, rest⟩ := bind_ok done
  rw [bind_of_ok (first g a mid drawn)]
  exact second a mid b after rest

theorem sample_extends {w len : Nat} (next : Generator → BitVec w × Generator) (positive : 0 < len)
    (greater : tries ≤ more) :
    Extends (Generator.sample next len positive tries) (Generator.sample next len positive more) := by
  induction tries generalizing more with
  | zero =>
    intro g i after done
    cases done
  | succ tries ih =>
    obtain ⟨more, rfl⟩ := Nat.exists_eq_succ_of_ne_zero (by omega : more ≠ 0)
    intro g i after done
    rw [Generator.sample] at done ⊢
    cases accepted : accept len positive (next g).1 with
    | some j =>
      simp only [accepted] at done ⊢
      exact done
    | none =>
      simp only [accepted] at done ⊢
      exact ih (by omega) _ i after done

theorem indexFrom_extends {w : Nat} (next : Generator → BitVec w × Generator) (len : Nat)
    (greater : tries ≤ more) : Extends (indexFrom next tries len) (indexFrom next more len) := by
  intro g i after done
  unfold indexFrom at done ⊢
  split at done
  · next positive =>
    rw [dif_pos positive]
    exact sample_extends next positive greater g i after done
  · cases done

theorem swapDown_extends (greater : tries ≤ more) (last : Nat) (xs : Array α) :
    Extends (swapDown tries last xs) (swapDown more last xs) := by
  induction last generalizing xs with
  | zero => exact .refl _
  | succ last ih => exact (indexFrom_extends _ _ greater).bind fun i => ih _

theorem shuffle_extends (greater : tries ≤ more) (xs : List α) :
    Extends (shuffle tries xs) (shuffle more xs) :=
  (swapDown_extends greater _ _).bind fun _ => .refl _

/-- The answer of a computation that is given as many tries as it takes. -/
def Returns (draw : Nat → Random α) (g : Generator) (a : α) (after : Generator) : Prop :=
  ∃ enough, ∀ tries, enough ≤ tries → draw tries g = .ok (a, after)

theorem Returns.of_ok {draw : Nat → Random α} {a : α}
    (grows : ∀ tries more, tries ≤ more → Extends (draw tries) (draw more))
    (done : draw tries g = .ok (a, after)) : Returns draw g a after :=
  ⟨tries, fun more greater => grows tries more greater g a after done⟩

end Random

namespace Pile

variable {tries more : Nat} {g after : Generator} {pile cards : Pile}

theorem shuffleUntilChanged_extends {passes further : Nat} (greater : tries ≤ more)
    (longer : passes ≤ further) :
    Random.Extends (shuffleUntilChanged tries pile passes)
      (shuffleUntilChanged more pile further) := by
  induction passes generalizing further with
  | zero =>
    intro g cards after done
    cases done
  | succ passes ih =>
    obtain ⟨further, rfl⟩ := Nat.exists_eq_succ_of_ne_zero (by omega : further ≠ 0)
    refine (Random.shuffle_extends greater pile).bind fun order => ?_
    split
    · exact ih (by omega)
    · exact .refl _

/-! ### Passes -/

/-- A pass over a pile puts it in an order. -/
def Passes (pile : Pile) : Generator → Pile → Generator → Prop :=
  Random.Returns fun tries => Random.shuffle tries pile

/-- So many passes over a pile, all in vain, each with the generator that the one before left. -/
inductive InVain (pile : Pile) : Nat → Generator → Generator → Prop
  | none (g : Generator) : InVain pile 0 g g
  | pass {passes : Nat} {g mid after : Generator} (same : Passes pile g pile mid)
      (rest : InVain pile passes mid after) : InVain pile (passes + 1) g after

/-- The order that the first pass not in vain gives. -/
def FirstChange (pile : Pile) (g : Generator) (cards : Pile) (after : Generator) : Prop :=
  cards ≠ pile ∧ ∃ passes mid, InVain pile passes g mid ∧ Passes pile mid cards after

theorem firstChange_of_ok {passes : Nat}
    (done : shuffleUntilChanged tries pile passes g = .ok (cards, after)) :
    FirstChange pile g cards after := by
  induction passes generalizing g with
  | zero => cases done
  | succ passes ih =>
    obtain ⟨order, mid, shuffled, rest⟩ := Random.bind_ok done
    have pass : Passes pile g order mid :=
      .of_ok (fun _ _ greater => Random.shuffle_extends greater pile) shuffled
    split at rest
    · next same =>
      subst same
      obtain ⟨changed, more, late, vain, last⟩ := ih rest
      exact ⟨changed, more + 1, late, .pass pass vain, last⟩
    · next changed =>
      cases rest
      exact ⟨changed, 0, g, .none g, pass⟩

/-- Passes in vain cost tries and passes, and there are enough of both. -/
theorem exists_tries {passes : Nat} {mid : Generator} (vain : InVain pile passes g mid)
    (last : Passes pile mid cards after) (changed : cards ≠ pile) :
    ∃ tries, shuffleUntilChanged tries pile (passes + 1) g = .ok (cards, after) := by
  induction vain with
  | none g =>
    obtain ⟨enough, pass⟩ := last
    refine ⟨enough, ?_⟩
    rw [shuffleUntilChanged, Random.bind_of_ok (pass enough (Nat.le_refl _)), if_neg changed]
    rfl
  | pass same rest ih =>
    obtain ⟨tries, done⟩ := ih last
    obtain ⟨enough, pass⟩ := same
    refine ⟨max tries enough, ?_⟩
    rw [shuffleUntilChanged, Random.bind_of_ok (pass _ (Nat.le_max_right _ _)), if_pos rfl]
    exact shuffleUntilChanged_extends (Nat.le_max_left _ _) (Nat.le_refl _) _ _ _ done

/-! ### What a shuffle comes to -/

theorem isUniform_iff : isUniform pile = true ↔ ∀ c ∈ pile, ∀ d ∈ pile, c = d := by
  cases pile with
  | nil => simp [isUniform]
  | cons top rest =>
    simp only [isUniform, List.all_eq_true, beq_iff_eq]
    constructor
    · intro alike
      have all : ∀ c ∈ top :: rest, c = top := by simpa using alike
      exact fun c here d there => (all c here).trans (all d there).symm
    · exact fun alike c member => alike c (List.mem_cons_of_mem top member) top List.mem_cons_self

/-- A shuffle that returns. -/
structure Reorders (pile : Pile) (g : Generator) (cards : Pile) (after : Generator) : Prop where
  perm : cards.Perm pile
  changed : (∃ c ∈ pile, ∃ d ∈ pile, c ≠ d) → FirstChange pile g cards after
  kept : (∀ c ∈ pile, ∀ d ∈ pile, c = d) → cards = pile ∧ after = g

theorem reorders_of_ok (done : shuffle tries pile g = .ok (cards, after)) :
    Reorders pile g cards after := by
  refine ⟨shuffle_perm done, fun several => ?_, fun alike => ?_⟩
  · have mixed : ¬ isUniform pile = true := by
      rw [isUniform_iff]
      obtain ⟨c, here, d, there, unlike⟩ := several
      exact fun alike => unlike (alike c here d there)
    rw [shuffle, if_neg mixed] at done
    exact firstChange_of_ok done
  · rw [shuffle, if_pos (isUniform_iff.mpr alike)] at done
    cases done
    exact ⟨rfl, rfl⟩

theorem Reorders.returns (reorders : Reorders pile g cards after) :
    Random.Returns (fun tries => shuffle tries pile) g cards after := by
  by_cases uniform : isUniform pile = true
  · obtain ⟨rfl, rfl⟩ := reorders.kept (isUniform_iff.mp uniform)
    refine ⟨0, fun tries _ => ?_⟩
    show shuffle tries cards after = .ok (cards, after)
    rw [shuffle, if_pos uniform]
    rfl
  · have several : ∃ c ∈ pile, ∃ d ∈ pile, c ≠ d := by
      simpa [isUniform_iff] using uniform
    obtain ⟨changed, passes, mid, vain, last⟩ := reorders.changed several
    obtain ⟨tries, done⟩ := exists_tries vain last changed
    refine ⟨max tries (passes + 1), fun more greater => ?_⟩
    show shuffle more pile g = .ok (cards, after)
    rw [shuffle, if_neg uniform]
    exact shuffleUntilChanged_extends (by omega) (by omega) _ _ _ done

/-- What a shuffle answers within some limits it answers without them: the first change that its
passes make, or the pile itself if there is no other order. -/
theorem shuffle_reorders (pile : Pile) (g : Generator) (cards : Pile) (after : Generator) :
    (∀ tries, shuffle tries pile g = .ok (cards, after) → Reorders pile g cards after) ∧
      (Reorders pile g cards after ↔
        Random.Returns (fun tries => shuffle tries pile) g cards after) := by
  refine ⟨fun tries done => reorders_of_ok done, Reorders.returns, ?_⟩
  rintro ⟨enough, done⟩
  exact reorders_of_ok (done enough (Nat.le_refl _))

/-- A shuffle of two different cards that returns. With this seed its first pass is in vain. -/
theorem reorders_twoCards :
    (∃ c ∈ pack.take 2, ∃ d ∈ pack.take 2, c ≠ d) ∧
      (Random.shuffle 3 (pack.take 2)) { seed := 1 } =
        .ok (pack.take 2, { seed := 1, position := 1 }) ∧
      shuffle 3 (pack.take 2) { seed := 1 } =
        .ok ((pack.take 2).reverse, { seed := 1, position := 4 }) ∧
      Reorders (pack.take 2) { seed := 1 } (pack.take 2).reverse { seed := 1, position := 4 } := by
  have done : shuffle 3 (pack.take 2) { seed := 1 } =
      .ok ((pack.take 2).reverse, { seed := 1, position := 4 }) := by decide +kernel
  exact ⟨by decide, by decide +kernel, done, (shuffle_reorders _ _ _ _).1 3 done⟩

end Pile

end WarGame
