import WarGame.Game.Round
import WarGame.Proofs.Seats
import Mathlib

/-!
# Leaders in closed form

The leaders of a comparison are the entries that no entry beats, which `bestBy` says for any
score. Players who are seated, in the game and show a card are compared by the rank of the last
card they put in, and players with a last card by its suit.
-/

namespace WarGame

/-! ### The best of a list -/

section Best

variable {α β : Type} [LinearOrder β]

/-- The entries that no entry beats, as they come. -/
def bestBy (score : α → β) (entries : List α) : List α :=
  entries.filter fun x => entries.all fun y => score y ≤ score x

theorem mem_bestBy {score : α → β} {entries : List α} {x : α} :
    x ∈ bestBy score entries ↔ x ∈ entries ∧ ∀ y ∈ entries, score y ≤ score x := by
  simp [bestBy]

theorem bestBy_sublist (score : α → β) (entries : List α) :
    (bestBy score entries).Sublist entries := List.filter_sublist

theorem bestBy_ne_nil {score : α → β} {entries : List α} (some : entries ≠ []) :
    bestBy score entries ≠ [] := by
  obtain ⟨top, member, above⟩ : ∃ x ∈ entries, ∀ y ∈ entries, score y ≤ score x := by
    induction entries with
    | nil => exact (some rfl).elim
    | cons x rest ih =>
      by_cases last : rest = []
      · subst last
        exact ⟨x, List.mem_cons_self, by simp⟩
      · obtain ⟨top, member, above⟩ := ih last
        rcases le_total (score top) (score x) with beaten | unbeaten
        · refine ⟨x, List.mem_cons_self, fun y place => ?_⟩
          rcases List.mem_cons.mp place with rfl | behind
          · exact le_refl _
          · exact le_trans (above y behind) beaten
        · refine ⟨top, List.mem_cons_of_mem x member, fun y place => ?_⟩
          rcases List.mem_cons.mp place with rfl | behind
          · exact unbeaten
          · exact above y behind
  exact List.ne_nil_of_mem (mem_bestBy.mpr ⟨member, above⟩)

/-- Entries that nobody beats have the same score. -/
theorem bestBy_tied {score : α → β} {entries : List α} {x y : α}
    (first : x ∈ bestBy score entries) (second : y ∈ bestBy score entries) : score x = score y := by
  obtain ⟨member, above⟩ := mem_bestBy.mp first
  obtain ⟨other, atop⟩ := mem_bestBy.mp second
  exact le_antisymm (atop x member) (above y other)

theorem bestBy_map {γ : Type} (score : γ → β) (view : α → γ) (entries : List α) :
    bestBy score (entries.map view) = (bestBy (fun x => score (view x)) entries).map view := by
  simp [bestBy, List.filter_map, Function.comp_def]

theorem bestBy_congr {γ : Type} [LinearOrder γ] {score : α → β} {other : α → γ} {entries : List α}
    (alike : ∀ x ∈ entries, ∀ y ∈ entries, score x ≤ score y ↔ other x ≤ other y) :
    bestBy score entries = bestBy other entries := by
  apply List.filter_congr
  intro x member
  rw [Bool.eq_iff_iff, List.all_eq_true, List.all_eq_true]
  simp only [decide_eq_true_eq]
  exact forall₂_congr fun y place => alike y place x member

theorem bestBy_of_all_tied {score : α → β} {entries : List α}
    (tied : ∀ x ∈ entries, ∀ y ∈ entries, score x ≤ score y) : bestBy score entries = entries := by
  apply List.filter_eq_self.mpr
  intro x member
  simpa using fun y place => tied y place x member

/-- Where no two entries have the same score, one of them is the best. -/
theorem bestBy_of_apart (score : α → β) {entries : List α} (some : entries ≠ [])
    (distinct : entries.Nodup)
    (apart : ∀ x ∈ entries, ∀ y ∈ entries, score x = score y → x = y) :
    ∃ w, bestBy score entries = [w] := by
  have alone := distinct.sublist (bestBy_sublist score entries)
  rcases best : bestBy score entries with _ | ⟨w, _ | ⟨v, others⟩⟩
  · exact (bestBy_ne_nil some best).elim
  · exact ⟨w, rfl⟩
  · have first : w ∈ bestBy score entries := by simp [best]
    have second : v ∈ bestBy score entries := by simp [best]
    have same := apart w (mem_bestBy.mp first).1 v (mem_bestBy.mp second).1
      (bestBy_tied first second)
    rw [best, same] at alone
    simp at alone

/-- Entries below all of some kind may be left out. -/
theorem bestBy_filter {score : α → β} {p : α → Bool} {entries : List α}
    (some : entries.filter p ≠ [])
    (above : ∀ x ∈ entries, p x = true → ∀ y ∈ entries, p y = false → score y < score x) :
    bestBy score entries = bestBy score (entries.filter p) := by
  obtain ⟨top, member⟩ := List.exists_mem_of_ne_nil _ some
  obtain ⟨place, able⟩ := List.mem_filter.mp member
  unfold bestBy
  rw [List.filter_filter]
  apply List.filter_congr
  intro x here
  rw [Bool.eq_iff_iff, Bool.and_eq_true, List.all_eq_true, List.all_eq_true]
  simp only [decide_eq_true_eq, List.mem_filter, and_imp]
  constructor
  · intro atop
    refine ⟨fun y there _ => atop y there, ?_⟩
    cases known : p x with
    | true => rfl
    | false => exact absurd (atop top place) (not_le_of_gt (above top place able x here known))
  · rintro ⟨atop, kind⟩ y there
    cases known : p y with
    | true => exact atop y there known
    | false => exact le_of_lt (above x here kind y there known)

/-- The best by two scores, the second where the first ties, are the best by the second among the
best by the first. -/
theorem bestBy_bestBy {γ δ : Type} [LinearOrder γ] [LinearOrder δ] {score : α → β}
    {first : α → γ} {second : α → δ} {entries : List α}
    (lexical : ∀ x ∈ entries, ∀ y ∈ entries,
      score x ≤ score y ↔ first x < first y ∨ first x = first y ∧ second x ≤ second y) :
    bestBy score entries = bestBy second (bestBy first entries) := by
  have member {x : α} (place : x ∈ entries) :
      (∀ y ∈ entries, score y ≤ score x) ↔
        (∀ y ∈ entries, first y ≤ first x) ∧
          ∀ y ∈ bestBy first entries, second y ≤ second x := by
    constructor
    · intro above
      refine ⟨fun y other => ?_, fun y best => ?_⟩
      · rcases (lexical y other x place).mp (above y other) with less | ⟨same, -⟩
        · exact le_of_lt less
        · exact le_of_eq same
      · obtain ⟨other, atop⟩ := mem_bestBy.mp best
        rcases (lexical y other x place).mp (above y other) with less | ⟨-, below⟩
        · exact absurd (atop x place) (not_le_of_gt less)
        · exact below
    · rintro ⟨above, among⟩ y other
      refine (lexical y other x place).mpr ?_
      rcases lt_or_eq_of_le (above y other) with less | same
      · exact .inl less
      · refine .inr ⟨same, among y (mem_bestBy.mpr ⟨other, fun z there => ?_⟩)⟩
        rw [same]
        exact above z there
  calc bestBy score entries
      = entries.filter fun x => ((bestBy first entries).all fun y => second y ≤ second x) &&
          entries.all fun y => first y ≤ first x := by
        apply List.filter_congr
        intro x place
        rw [Bool.eq_iff_iff, Bool.and_eq_true, and_comm]
        simpa only [List.all_eq_true, decide_eq_true_eq] using member place
    _ = bestBy second (bestBy first entries) := List.filter_filter.symm

end Best

/-! ### Stakes in order -/

def Stakes.Ascending (played : Stakes) : Prop :=
  played.Pairwise fun first second => first.1 < second.1

theorem Stakes.sorted_eq (played : Stakes) :
    played.sorted = List.insertionSort (fun first second => first.1 ≤ second.1) played := by
  have inserted (stake : PlayerId × Pile) (held : Stakes) :
      insert stake held = List.orderedInsert (fun first second => first.1 ≤ second.1) stake held := by
    induction held with
    | nil => rfl
    | cons other rest ih => rw [insert, List.orderedInsert, ih]
  induction played with
  | nil => rfl
  | cons stake rest ih =>
    rw [List.insertionSort_cons, ← ih, ← inserted]
    rfl

theorem Stakes.sorted_perm (played : Stakes) : played.sorted.Perm played :=
  sorted_eq played ▸ List.perm_insertionSort _ _

theorem Stakes.sorted_of_ascending {played : Stakes} (ascending : played.Ascending) :
    played.sorted = played := by
  rw [sorted_eq]
  exact List.Pairwise.insertionSort_eq (ascending.imp Nat.le_of_lt)

theorem Stakes.put_last {played : Stakes} {id : PlayerId} (cards : Pile)
    (below : ∀ entry ∈ played, entry.1 < id) : played.put id cards = played ++ [(id, cards)] := by
  induction played with
  | nil => rfl
  | cons entry rest ih =>
    have less := below entry List.mem_cons_self
    have notAbove : ¬ id < entry.1 := fun above =>
      PlayerId.lt_irrefl _ (PlayerId.lt_trans less above)
    obtain ⟨other, held⟩ := entry
    rw [put, if_neg notAbove, if_neg (PlayerId.ne_of_lt less).symm,
      ih fun entry member => below entry (List.mem_cons_of_mem _ member), List.cons_append]

namespace Table

variable {table : Table} {entrants : List Seat}

/-! ### Comparing ranks -/

/-- The value of the card that faces up among cards put in. -/
def faceValue (cards : Pile) : Nat := (cards.getLast?.map fun c => c.rank.value).getD 0

theorem faceUp_entrants {stakes : Seat → Pile}
    (playing : ∀ s ∈ entrants, ∃ t, table.seat? s.id = some t ∧ t.isActive = true)
    (shows : ∀ s ∈ entrants, stakes s ≠ []) :
    table.faceUp (entrants.map fun s => (s.id, stakes s)) =
      .ok (entrants.map fun s => (s.id, (stakes s).getLast?.getD default)) := by
  induction entrants with
  | nil => rfl
  | cons s rest ih =>
    obtain ⟨t, seated, active⟩ := playing s List.mem_cons_self
    have face := List.getLast?_eq_some_getLast (shows s List.mem_cons_self)
    simp only [List.map_cons, faceUp, seated, active, if_true, face]
    rw [ih (fun s member => playing s (List.mem_cons_of_mem _ member))
      (fun s member => shows s (List.mem_cons_of_mem _ member))]
    rfl

/-- The cards of the highest rank are those that no other beats. -/
theorem filter_topRank (shown : List (PlayerId × Card)) :
    (shown.filter fun entry => some entry.2.rank == Card.topRank (shown.map (·.2))) =
      bestBy (fun entry => entry.2.rank.value) shown := by
  apply List.filter_congr
  intro entry member
  rw [Bool.eq_iff_iff, beq_iff_eq, eq_comm, Card.topRank_eq_some, List.all_eq_true]
  simp only [List.mem_map, decide_eq_true_eq, forall_exists_index, and_imp,
    forall_apply_eq_imp_iff₂, Rank.le_iff]
  exact ⟨fun top => top.2, fun above => ⟨⟨_, ⟨entry, member, rfl⟩, rfl⟩, above⟩⟩

/-- Players in the game who show a card lead by the value of the card that faces up. -/
theorem rankLeaders_entrants {stakes : Seat → Pile}
    (ordered : entrants.Pairwise fun s t => s.id < t.id)
    (playing : ∀ s ∈ entrants, ∃ t, table.seat? s.id = some t ∧ t.isActive = true)
    (shows : ∀ s ∈ entrants, stakes s ≠ []) :
    table.rankLeaders (entrants.map fun s => (s.id, stakes s)) =
      .ok ((bestBy (fun s => faceValue (stakes s)) entrants).map (·.id)) := by
  have face (s : Seat) (member : s ∈ entrants) :
      faceValue (stakes s) = ((stakes s).getLast?.getD default).rank.value := by
    rw [faceValue, List.getLast?_eq_some_getLast (shows s member)]
    rfl
  rw [rankLeaders, Stakes.sorted_of_ascending (List.pairwise_map.mpr ordered),
    faceUp_entrants playing shows]
  simp only [Except.map, filter_topRank, bestBy_map]
  rw [List.map_map]
  refine congrArg (fun best => Except.ok (List.map (fun s : Seat => s.id) best)) ?_
  apply bestBy_congr
  intro s member t other
  rw [face s member, face t other]

/-! ### Comparing suits -/

theorem suitCards_entrants (card : Seat → Card)
    (seated : ∀ s ∈ entrants, ∃ t, table.seat? s.id = some t) :
    table.suitCards (entrants.map fun s => (s.id, [card s])) =
      .ok (entrants.map fun s => (s.id, card s)) := by
  induction entrants with
  | nil => rfl
  | cons s rest ih =>
    obtain ⟨t, here⟩ := seated s List.mem_cons_self
    simp only [List.map_cons, suitCards, here, List.head?_cons]
    rw [ih fun s member => seated s (List.mem_cons_of_mem _ member)]
    rfl

theorem lastCards_entrants (card : Seat → Card) {shown : Stakes}
    (ordered : entrants.Pairwise fun s t => s.id < t.id)
    (below : ∀ entry ∈ shown, ∀ s ∈ entrants, entry.1 < s.id)
    (last : ∀ s ∈ entrants, ∃ t, table.seat? s.id = some t ∧ t.lastCard = some (card s)) :
    table.lastCards (entrants.map (·.id)) shown =
      .ok (shown ++ entrants.map fun s => (s.id, [card s])) := by
  induction entrants generalizing shown with
  | nil => simp [lastCards]
  | cons s rest ih =>
    obtain ⟨above, behind⟩ := List.pairwise_cons.mp ordered
    obtain ⟨t, here, played⟩ := last s List.mem_cons_self
    simp only [List.map_cons, lastCards, here, played]
    rw [Stakes.put_last [card s] fun entry member => below entry member s List.mem_cons_self,
      ih behind ?_ fun s member => last s (List.mem_cons_of_mem _ member), List.append_assoc]
    · rfl
    · intro entry member r place
      rcases List.mem_append.mp member with before | own
      · exact below entry before r (List.mem_cons_of_mem _ place)
      · rw [List.mem_singleton.mp own]
        exact above r place

/-- Players with a last card lead by its suit. -/
theorem suitLeaders_entrants (card : Seat → Card)
    (ordered : entrants.Pairwise fun s t => s.id < t.id)
    (last : ∀ s ∈ entrants, ∃ t, table.seat? s.id = some t ∧ t.lastCard = some (card s)) :
    (table.lastCards (entrants.map (·.id)) []).bind table.suitLeaders =
      .ok ((bestBy (fun s => (card s).suit.order) entrants).map (·.id)) := by
  rw [lastCards_entrants card ordered (by simp) last, List.nil_append]
  simp only [Except.bind, suitLeaders]
  rw [Stakes.sorted_of_ascending (List.pairwise_map.mpr ordered),
    suitCards_entrants card fun s member => (last s member).imp fun t known => known.1]
  simp only [Except.map, List.filter_map, List.map_map, List.all_map, Function.comp_def]
  rfl

end Table

end WarGame
