import WarGame.Proofs.Leaders

/-!
# Who holds the high card

Stakes may come in any order and are read in the order of the ids, so the first fault found is that of
the lowest id. Without a fault the leaders are the players with the greatest card, and a comparison
says whose cards count and which card of each.
-/

namespace WarGame

/-! ### Stakes recorded in any order -/

namespace Stakes

variable {played : Stakes} {entries others : List (PlayerId × Pile)} {id : PlayerId} {cards : Pile}

theorem mem_put (ascending : played.Ascending) {entry : PlayerId × Pile} :
    entry ∈ played.put id cards ↔ entry = (id, cards) ∨ entry.1 ≠ id ∧ entry ∈ played := by
  induction played with
  | nil => simp [put]
  | cons first rest ih =>
    obtain ⟨above, ordered⟩ := List.pairwise_cons.mp ascending
    simp only [put]
    split
    · next less =>
      have away : ∀ e ∈ first :: rest, e.1 ≠ id := by
        intro e member
        rcases List.mem_cons.mp member with here | behind
        · exact here ▸ (PlayerId.ne_of_lt less).symm
        · exact (PlayerId.ne_of_lt (PlayerId.lt_trans less (above e behind))).symm
      rw [List.mem_cons]
      exact or_congr_right (iff_and_self.mpr (away entry))
    · split
      · next same =>
        have away : ∀ e ∈ rest, e.1 ≠ id := fun e behind =>
          (PlayerId.ne_of_lt (same ▸ above e behind)).symm
        rw [List.mem_cons, List.mem_cons]
        refine or_congr_right ⟨fun behind => ⟨away entry behind, .inr behind⟩, fun kept => ?_⟩
        exact kept.2.resolve_left fun here => kept.1 (here ▸ same.symm)
      · next apart =>
        rw [List.mem_cons, ih ordered, List.mem_cons]
        constructor
        · intro place
          rcases place with here | new | behind
          · exact .inr ⟨here ▸ Ne.symm apart, .inl here⟩
          · exact .inl new
          · exact .inr ⟨behind.1, .inr behind.2⟩
        · intro place
          rcases place with new | ⟨away, here | behind⟩
          · exact .inr (.inl new)
          · exact .inl here
          · exact .inr (.inr ⟨away, behind⟩)

theorem ascending_put (ascending : played.Ascending) : (played.put id cards).Ascending := by
  induction played with
  | nil => exact List.pairwise_singleton _ _
  | cons first rest ih =>
    obtain ⟨above, ordered⟩ := List.pairwise_cons.mp ascending
    simp only [put]
    split
    · next less =>
      refine List.pairwise_cons.mpr ⟨fun e member => ?_, ascending⟩
      rcases List.mem_cons.mp member with here | behind
      · exact here ▸ less
      · exact PlayerId.lt_trans less (above e behind)
    · next notLess =>
      split
      · next same => exact List.pairwise_cons.mpr ⟨fun e member => same ▸ above e member, ordered⟩
      · next apart =>
        refine List.pairwise_cons.mpr ⟨fun e member => ?_, ih ordered⟩
        rcases (mem_put ordered).mp member with new | ⟨-, behind⟩
        · exact new ▸ PlayerId.lt_of_not_lt apart notLess
        · exact above e behind

/-- The cards that count for a player among entries: those of the last one with the id. -/
def recorded (entries : List (PlayerId × Pile)) (id : PlayerId) : Option Pile :=
  (entries.filter fun entry => entry.1 = id).getLast?.map fun entry => entry.2

theorem recorded_append (entries : List (PlayerId × Pile)) (last : PlayerId × Pile) :
    recorded (entries ++ [last]) id = if last.1 = id then some last.2 else recorded entries id := by
  unfold recorded
  by_cases here : last.1 = id
  · simp [here]
  · simp [here]

theorem ofList_append (entries : List (PlayerId × Pile)) (last : PlayerId × Pile) :
    ofList (entries ++ [last]) = (ofList entries).put last.1 last.2 := by
  unfold ofList
  rw [List.foldl_append]
  rfl

theorem ascending_ofList (entries : List (PlayerId × Pile)) : (ofList entries).Ascending := by
  induction entries using List.reverseRecOn with
  | nil => exact List.Pairwise.nil
  | append_singleton entries last ih => exact ofList_append entries last ▸ ascending_put ih

theorem mem_ofList : (id, cards) ∈ ofList entries ↔ recorded entries id = some cards := by
  induction entries using List.reverseRecOn with
  | nil => simp [ofList, recorded]
  | append_singleton entries last ih =>
    rw [ofList_append, mem_put (ascending_ofList entries), recorded_append, ih, Prod.mk.injEq]
    by_cases here : last.1 = id
    · simp [here, eq_comm]
    · simp [here, Ne.symm here]

theorem eq_of_perm {first second : Stakes} (ascending : first.Ascending)
    (sorted : second.Ascending) (mixed : first.Perm second) : first = second := by
  refine mixed.eq_of_pairwise (fun a b _ _ less more => ?_) ascending sorted
  exact (PlayerId.lt_irrefl a.1 (PlayerId.lt_trans less more)).elim

theorem ofList_congr (same : ∀ id, recorded entries id = recorded others id) :
    ofList entries = ofList others := by
  have distinct (list : List (PlayerId × Pile)) : (ofList list).Nodup :=
    (ascending_ofList list).imp fun less equal => PlayerId.ne_of_lt less (congrArg Prod.fst equal)
  have members : ∀ entry, entry ∈ ofList entries ↔ entry ∈ ofList others := by
    intro entry
    rw [show entry = (entry.1, entry.2) from rfl, mem_ofList, mem_ofList, same]
  have alike := (List.perm_ext_iff_of_nodup (distinct entries) (distinct others)).mpr members
  exact eq_of_perm (ascending_ofList entries) (ascending_ofList others) alike

theorem ascending_sorted (distinct : played.Pairwise fun first second => first.1 ≠ second.1) :
    played.sorted.Ascending := by
  have apart := ((sorted_perm played).pairwise_iff fun apart => apart.symm).mpr distinct
  have : Std.Total fun first second : PlayerId × Pile => first.1 ≤ second.1 :=
    ⟨fun first second => Nat.le_total first.1.number second.1.number⟩
  have : IsTrans (PlayerId × Pile) fun first second => first.1 ≤ second.1 :=
    ⟨fun _ _ _ => Nat.le_trans⟩
  have upTo : played.sorted.Pairwise fun first second => first.1 ≤ second.1 :=
    sorted_eq played ▸ List.pairwise_insertionSort _ played
  refine (upTo.and apart).imp fun both => ?_
  exact Nat.lt_of_le_of_ne both.1 fun same => both.2 (PlayerId.number_inj.mp same)

/-- Stakes in any order are sorted into those that ascend. -/
theorem sorted_of_perm {ordered : Stakes} (ascending : ordered.Ascending)
    (mixed : played.Perm ordered) : played.sorted = ordered := by
  have distinct := (mixed.pairwise_iff fun apart => apart.symm).mpr
    (ascending.imp PlayerId.ne_of_lt)
  exact eq_of_perm (ascending_sorted distinct) ascending ((sorted_perm played).trans mixed)

end Stakes

/-! ### Comparisons -/

/-- A way to compare what players put in. -/
structure Comparison where
  /-- Whether the cards of a player count. -/
  counts : Seat → Bool
  /-- The card that speaks for a player, if there is any card. -/
  card : Pile → Option Card
  score : Card → Nat
  /-- What is wrong with a player whose cards count and who put in none. -/
  missing : PlayerId → Violation
  card_eq_none : ∀ cards, card cards = none ↔ cards = []

namespace Comparison

variable {how : Comparison} {table : Table} {played : Stakes} {id : PlayerId} {cards : Pile}

/-- The last card of each active player, by rank. -/
def byRank : Comparison where
  counts := Seat.isActive
  card := List.getLast?
  score c := c.rank.value
  missing := .nothingFaceUp
  card_eq_none _ := List.getLast?_eq_none_iff

/-- The first card of every player, by suit. -/
def bySuit : Comparison where
  counts _ := true
  card := List.head?
  score c := c.suit.order
  missing := .noSuitCard
  card_eq_none _ := List.head?_eq_none_iff

/-- What is wrong with what a player put in. -/
def fault? (how : Comparison) (table : Table) (id : PlayerId) (cards : Pile) : Option Violation :=
  match table.seat? id with
  | none => some (.notSeated id)
  | some s => if how.counts s ∧ cards = [] then some (how.missing id) else none

/-- The card that a player is compared by. -/
def shows? (how : Comparison) (table : Table) (id : PlayerId) (cards : Pile) : Option Card :=
  if (table.seat? id).any how.counts then how.card cards else none

/-- The cards that are compared, each with its player. -/
def shown (how : Comparison) (table : Table) (played : Stakes) : List (PlayerId × Card) :=
  played.filterMap fun entry => (how.shows? table entry.1 entry.2).map (entry.1, ·)

/-- The cards that are compared, unless there is a fault. -/
def read (how : Comparison) (table : Table) (played : Stakes) :
    Except Violation (List (PlayerId × Card)) :=
  match played.findSome? fun entry => how.fault? table entry.1 entry.2 with
  | some cause => .error cause
  | none => .ok (how.shown table played)

/-- The players whose card no other beats. -/
def leaders (how : Comparison) (table : Table) (played : Stakes) :
    Except Violation (List PlayerId) :=
  (how.read table played).map fun shown =>
    (bestBy (fun entry => how.score entry.2) shown).map fun entry => entry.1

/-! ### Reading stakes entry by entry -/

theorem read_of_fault {cause : Violation} (rest : Stakes)
    (fault : how.fault? table id cards = some cause) :
    how.read table ((id, cards) :: rest) = .error cause := by
  simp [read, fault]

theorem read_of_shown {c : Card} (rest : Stakes) (clear : how.fault? table id cards = none)
    (shows : how.shows? table id cards = some c) :
    how.read table ((id, cards) :: rest) = (how.read table rest).map ((id, c) :: ·) := by
  simp only [read, shown, List.findSome?_cons, clear, List.filterMap_cons, shows, Option.map_some]
  cases rest.findSome? fun entry => how.fault? table entry.1 entry.2 <;> rfl

theorem read_of_idle (rest : Stakes) (clear : how.fault? table id cards = none)
    (idle : how.shows? table id cards = none) :
    how.read table ((id, cards) :: rest) = how.read table rest := by
  simp only [read, shown, List.findSome?_cons, clear, List.filterMap_cons, idle, Option.map_none]

theorem faceUp_eq (table : Table) (played : Stakes) :
    table.faceUp played = byRank.read table played := by
  induction played with
  | nil => rfl
  | cons entry rest ih =>
    obtain ⟨id, cards⟩ := entry
    rw [Table.faceUp]
    cases seated : table.seat? id with
    | none => exact (read_of_fault rest (by simp [fault?, seated])).symm
    | some s =>
      cases active : s.isActive with
      | false => rw [read_of_idle rest] <;> simp [fault?, shows?, seated, byRank, active, ih]
      | true =>
        cases known : cards.getLast? with
        | none =>
          have empty := List.getLast?_eq_none_iff.mp known
          have fault : byRank.fault? table id cards = some (.nothingFaceUp id) := by
            simp [fault?, seated, byRank, active, empty]
          rw [read_of_fault rest fault]
          simp [active]
        | some c =>
          have some : cards ≠ [] := fun empty => by simp [empty] at known
          rw [read_of_shown rest (c := c)] <;>
            simp [fault?, shows?, seated, byRank, active, some, known, ih]

theorem suitCards_eq (table : Table) (played : Stakes) :
    table.suitCards played = bySuit.read table played := by
  induction played with
  | nil => rfl
  | cons entry rest ih =>
    obtain ⟨id, cards⟩ := entry
    rw [Table.suitCards]
    cases seated : table.seat? id with
    | none => exact (read_of_fault rest (by simp [fault?, seated])).symm
    | some s =>
      cases cards with
      | nil =>
        have fault : bySuit.fault? table id [] = some (.noSuitCard id) := by
          simp [fault?, seated, bySuit]
        exact (read_of_fault rest fault).symm
      | cons c cards => rw [read_of_shown rest (c := c)] <;> simp [fault?, shows?, seated, bySuit, ih]

theorem rankLeaders_eq (table : Table) (played : Stakes) :
    table.rankLeaders played = byRank.leaders table played.sorted := by
  unfold Table.rankLeaders leaders
  rw [faceUp_eq]
  simp only [Table.filter_topRank]
  rfl

theorem suitLeaders_eq (table : Table) (played : Stakes) :
    table.suitLeaders played = bySuit.leaders table played.sorted := by
  unfold Table.suitLeaders leaders
  rw [suitCards_eq]
  rfl

/-! ### What a comparison comes to -/

/-- What is wrong with a player who put cards in, at the table or not. -/
inductive Fault (how : Comparison) (table : Table) (held : PlayerId → Option Pile) :
    PlayerId → Violation → Prop where
  | unseated {id : PlayerId} {cards : Pile} (put : held id = some cards)
      (absent : table.seat? id = none) : Fault how table held id (.notSeated id)
  | empty {id : PlayerId} {s : Seat} (put : held id = some []) (seated : table.seat? id = some s)
      (counts : how.counts s = true) : Fault how table held id (how.missing id)

/-- The player is compared by the card. -/
def Shows (how : Comparison) (table : Table) (held : PlayerId → Option Pile) (id : PlayerId)
    (c : Card) : Prop :=
  ∃ cards s, held id = some cards ∧ table.seat? id = some s ∧ how.counts s = true ∧
    how.card cards = some c

/-- What a comparison of the cards held against players answers. -/
structure Compares (how : Comparison) (table : Table) (held : PlayerId → Option Pile)
    (answer : Except Violation (List PlayerId)) : Prop where
  refused_iff : (∃ cause, answer = .error cause) ↔ ∃ id cause, how.Fault table held id cause
  lowest : ∀ cause, answer = .error cause → ∃ id, how.Fault table held id cause ∧
    ∀ other fault, how.Fault table held other fault → id ≤ other
  ascending : ∀ leaders, answer = .ok leaders → leaders.Pairwise (· < ·)
  mem_iff : ∀ leaders, answer = .ok leaders → ∀ id, id ∈ leaders ↔ ∃ c, how.Shows table held id c ∧
    ∀ other d, how.Shows table held other d → how.score d ≤ how.score c
  nobody_iff : ∀ leaders, answer = .ok leaders → (leaders = [] ↔
    ∀ id cards, held id = some cards → ∃ s, table.seat? id = some s ∧ how.counts s = false)

variable {held : PlayerId → Option Pile}

theorem fault_iff {cause : Violation} : how.Fault table held id cause ↔
    ∃ cards, held id = some cards ∧ how.fault? table id cards = some cause := by
  constructor
  · intro fault
    cases fault with
    | unseated put absent => exact ⟨_, put, by simp [fault?, absent]⟩
    | empty put seated counts => exact ⟨[], put, by simp [fault?, seated, counts]⟩
  · rintro ⟨cards, put, fault⟩
    unfold fault? at fault
    split at fault
    · next absent =>
      cases fault
      exact .unseated put absent
    · next s seated =>
      split at fault
      · next bare =>
        cases fault
        exact .empty (bare.2 ▸ put) seated bare.1
      · cases fault

theorem shows_iff {c : Card} : how.Shows table held id c ↔
    ∃ cards, held id = some cards ∧ how.shows? table id cards = some c := by
  unfold Shows shows?
  cases seated : table.seat? id with
  | none => simp
  | some s => cases counts : how.counts s <;> simp [counts]

/-- Without a fault everybody is seated, and shows a card if the player's cards count. -/
theorem shows?_eq_none (clear : how.fault? table id cards = none) :
    how.shows? table id cards = none ↔ ∃ s, table.seat? id = some s ∧ how.counts s = false := by
  unfold fault? at clear
  unfold shows?
  cases seated : table.seat? id with
  | none => simp [seated] at clear
  | some s =>
    cases counts : how.counts s with
    | false => simp [counts]
    | true =>
      have some : cards ≠ [] := by simpa [seated, counts] using clear
      simp [counts, how.card_eq_none, some]

theorem shown_ascending (ascending : played.Ascending) :
    (how.shown table played).Pairwise fun first second => first.1 < second.1 := by
  refine ascending.filterMap _ fun first second less a one b two => ?_
  obtain ⟨c, -, rfl⟩ := Option.map_eq_some_iff.mp one
  obtain ⟨d, -, rfl⟩ := Option.map_eq_some_iff.mp two
  exact less

theorem mem_shown (known : ∀ id cards, (id, cards) ∈ played ↔ held id = some cards) {c : Card} :
    (id, c) ∈ how.shown table played ↔ how.Shows table held id c := by
  rw [shows_iff, shown, List.mem_filterMap]
  simp only [← known]
  constructor
  · intro place
    obtain ⟨entry, put, shows⟩ := place
    obtain ⟨d, shows, same⟩ := Option.map_eq_some_iff.mp shows
    cases same
    exact ⟨entry.2, put, shows⟩
  · intro place
    obtain ⟨cards, put, shows⟩ := place
    exact ⟨(id, cards), put, by simp [shows]⟩

theorem shown_eq_nil_iff (known : ∀ id cards, (id, cards) ∈ played ↔ held id = some cards)
    (clear : ∀ entry ∈ played, how.fault? table entry.1 entry.2 = none) :
    how.shown table played = [] ↔
      ∀ id cards, held id = some cards → ∃ s, table.seat? id = some s ∧ how.counts s = false := by
  rw [shown, List.filterMap_eq_nil_iff]
  constructor
  · intro idle id cards put
    have place := (known id cards).mpr put
    exact (shows?_eq_none (clear _ place)).mp (by simpa using idle _ place)
  · intro idle entry place
    have put := (known entry.1 entry.2).mp place
    rw [(shows?_eq_none (clear entry place)).mpr (idle _ _ put), Option.map_none]

namespace Compares

variable (ascending : played.Ascending)
variable (known : ∀ id cards, (id, cards) ∈ played ↔ held id = some cards)

include ascending known

theorem of_fault {cause : Violation}
    (found : (played.findSome? fun entry => how.fault? table entry.1 entry.2) = some cause) :
    how.Compares table held (how.leaders table played) := by
  have answer : how.leaders table played = .error cause := by
    simp [leaders, read, found, Except.map]
  obtain ⟨before, entry, after, split, fault, clear⟩ := List.findSome?_eq_some_iff.mp found
  have first : how.Fault table held entry.1 cause :=
    fault_iff.mpr ⟨entry.2, (known _ _).mp (by simp [split]), fault⟩
  constructor
  case refused_iff => exact iff_of_true ⟨cause, answer⟩ ⟨entry.1, cause, first⟩
  case lowest =>
    intro other same
    rw [answer] at same
    cases same
    refine ⟨entry.1, first, fun id wrong also => ?_⟩
    obtain ⟨cards, put, wrong⟩ := fault_iff.mp also
    have member := (known id cards).mpr put
    rw [split] at member ascending
    have above := (List.pairwise_cons.mp (List.pairwise_append.mp ascending).2.1).1
    rcases List.mem_append.mp member with earlier | later
    · simp [clear _ earlier] at wrong
    · rcases List.mem_cons.mp later with here | behind
      · exact here ▸ Nat.le_refl _
      · exact Nat.le_of_lt (above _ behind)
  all_goals
    intro leaders done
    rw [answer] at done
    cases done

theorem of_clear
    (found : (played.findSome? fun entry => how.fault? table entry.1 entry.2) = none) :
    how.Compares table held (how.leaders table played) := by
  have answer : how.leaders table played =
      .ok ((bestBy (fun entry => how.score entry.2) (how.shown table played)).map
        fun entry => entry.1) := by
    simp [leaders, read, found, Except.map]
  have clear : ∀ entry ∈ played, how.fault? table entry.1 entry.2 = none :=
    List.findSome?_eq_none_iff.mp found
  constructor
  case refused_iff =>
    refine iff_of_false (fun refused => ?_) (fun fault => ?_)
    · obtain ⟨cause, refused⟩ := refused
      rw [answer] at refused
      cases refused
    · obtain ⟨id, cause, fault⟩ := fault
      obtain ⟨cards, put, fault⟩ := fault_iff.mp fault
      rw [clear _ ((known id cards).mpr put)] at fault
      cases fault
  case lowest =>
    intro cause refused
    rw [answer] at refused
    cases refused
  all_goals
    intro leaders done
    rw [answer] at done
    cases done
  case ascending =>
    exact List.pairwise_map.mpr ((shown_ascending ascending).sublist (bestBy_sublist _ _))
  case mem_iff =>
    intro id
    rw [List.mem_map]
    constructor
    · intro leads
      obtain ⟨entry, leads, rfl⟩ := leads
      obtain ⟨place, above⟩ := mem_bestBy.mp leads
      exact ⟨entry.2, (mem_shown known).mp place, fun other d shows =>
        above (other, d) ((mem_shown known).mpr shows)⟩
    · intro leads
      obtain ⟨c, shows, above⟩ := leads
      exact ⟨(id, c), mem_bestBy.mpr ⟨(mem_shown known).mpr shows, fun other place =>
        above other.1 other.2 ((mem_shown known).mp place)⟩, rfl⟩
  case nobody_iff =>
    have best : bestBy (fun entry => how.score entry.2) (how.shown table played) = [] ↔
        how.shown table played = [] :=
      ⟨fun none => by_contra fun some => bestBy_ne_nil some none, fun none => by simp [none, bestBy]⟩
    rw [List.map_eq_nil_iff, best, shown_eq_nil_iff known clear]

end Compares

/-- A comparison of stakes answers for the cards that they hold against players. -/
theorem compares_leaders (how : Comparison) (table : Table) (ascending : played.Ascending)
    (known : ∀ id cards, (id, cards) ∈ played ↔ held id = some cards) :
    how.Compares table held (how.leaders table played) := by
  cases found : played.findSome? fun entry => how.fault? table entry.1 entry.2 with
  | some cause => exact .of_fault ascending known found
  | none => exact .of_clear ascending known found

end Comparison

/-! ### High cards -/

/-- Who holds the high card among cards recorded by entries. The stakes of the entries are looked at
in the order of the ids, whatever order they come in. -/
structure HighCards (table : Table) (entries : List (PlayerId × Pile)) : Prop where
  rank : ∀ played, played.Perm (Stakes.ofList entries) →
    Comparison.byRank.Compares table (Stakes.recorded entries) (table.rankLeaders played)
  suit : ∀ played, played.Perm (Stakes.ofList entries) →
    Comparison.bySuit.Compares table (Stakes.recorded entries) (table.suitLeaders played)
  /-- Nothing but the cards recorded for each player counts. -/
  order : ∀ others, (∀ id, Stakes.recorded others id = Stakes.recorded entries id) →
    ∀ played mixed, played.Perm (Stakes.ofList entries) → mixed.Perm (Stakes.ofList others) →
      table.rankLeaders mixed = table.rankLeaders played ∧
        table.suitLeaders mixed = table.suitLeaders played

theorem highCards_of_entries (table : Table) (entries : List (PlayerId × Pile)) :
    HighCards table entries := by
  have ascending := Stakes.ascending_ofList entries
  constructor
  case rank =>
    intro played mixed
    rw [Comparison.rankLeaders_eq, Stakes.sorted_of_perm ascending mixed]
    exact Comparison.compares_leaders .byRank table ascending fun _ _ => Stakes.mem_ofList
  case suit =>
    intro played mixed
    rw [Comparison.suitLeaders_eq, Stakes.sorted_of_perm ascending mixed]
    exact Comparison.compares_leaders .bySuit table ascending fun _ _ => Stakes.mem_ofList
  case order =>
    intro others same played mixed first second
    rw [Stakes.ofList_congr same] at second
    simp only [Comparison.rankLeaders_eq, Comparison.suitLeaders_eq,
      Stakes.sorted_of_perm ascending first, Stakes.sorted_of_perm ascending second, and_self]

end WarGame
