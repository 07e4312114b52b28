import WarGame.Proofs.CardFlow
import WarGame.Proofs.Elimination

/-!
# Games that look alike

Two games look alike if their seats stand in the same order, each with its standing, under ids that
a map sends to one another, and if every card looks like the card at its place in the other game.
Where cards that look alike have one rank, a war takes the same course in both, so a round with the
same winner and decision leaves games that look alike again.
-/

namespace WarGame

/-! ### Cards -/

section

variable {α : Type} {look : Card → α} {p q : Pile}

/-- What tells less of a card than its look is the same in piles that look alike. -/
theorem map_eq_of_look {β : Type} {view : Card → β}
    (finer : ∀ c d, look c = look d → view c = view d) (same : q.map look = p.map look) :
    q.map view = p.map view := by
  induction p generalizing q with
  | nil => rw [List.map_eq_nil_iff.mp same]
  | cons c rest ih =>
    obtain ⟨d, others, rfl, first, behind⟩ := List.map_eq_cons_iff.mp same
    rw [List.map_cons, List.map_cons, finer d c first, ih behind]

theorem length_eq_of_look (same : q.map look = p.map look) : q.length = p.length := by
  have lengths := congrArg List.length same
  simpa using lengths

theorem isEmpty_eq_of_look (same : q.map look = p.map look) : q.isEmpty = p.isEmpty := by
  have empty := congrArg List.isEmpty same
  simpa using empty

theorem take_look (same : q.map look = p.map look) (n : Nat) :
    (q.take n).map look = (p.take n).map look := by
  rw [List.map_take, List.map_take, same]

theorem getLast?_eq_of_look {β : Type} {view : Card → β}
    (finer : ∀ c d, look c = look d → view c = view d) (same : q.map look = p.map look) :
    q.getLast?.map view = p.getLast?.map view := by
  rw [← List.getLast?_map, ← List.getLast?_map, map_eq_of_look finer same]

theorem faceValue_eq_of_look (ranked : ∀ c d, look c = look d → c.rank = d.rank)
    (same : q.map look = p.map look) : Table.faceValue q = Table.faceValue p := by
  have values := getLast?_eq_of_look (fun c d alike => congrArg Rank.value (ranked c d alike)) same
  rw [Table.faceValue, Table.faceValue, values]

theorem bottomSuit_eq_of_look (suited : ∀ c d, look c = look d → c.suit = d.suit)
    (same : q.map look = p.map look) : bottomSuit q = bottomSuit p := by
  have orders := getLast?_eq_of_look (fun c d alike => congrArg Suit.order (suited c d alike)) same
  rw [bottomSuit, bottomSuit, orders]

theorem key_eq_of_look (ranked : ∀ c d, look c = look d → c.rank = d.rank)
    (same : q.map look = p.map look) : key q = key p := by
  have byRanks (hand : Pile) : key hand = (evenPlaces (hand.map fun c => c.rank)).map .full ++
      if (hand.map fun c => c.rank).length % 2 = 0 then
        (hand.map fun c => c.rank).getLast?.toList.map .limited else [] := by
    simp [key, evenPlaces_map, List.getLast?_map, Function.comp_def, Option.toList_map]
  rw [byRanks, byRanks, map_eq_of_look ranked same]

theorem idxOf_map {rename : PlayerId → PlayerId} {id : PlayerId} {ids : List PlayerId}
    (apart : ∀ other ∈ ids, rename other = rename id → other = id) :
    (ids.map rename).idxOf (rename id) = ids.idxOf id := by
  induction ids with
  | nil => rfl
  | cons other rest ih =>
    have behind := ih fun next member => apart next (List.mem_cons_of_mem other member)
    by_cases here : other = id
    · simp [here]
    · have unlike : rename other ≠ rename id := fun same =>
        here (apart other List.mem_cons_self same)
      rw [List.map_cons, List.idxOf_cons_ne _ unlike, List.idxOf_cons_ne _ here, behind]

/-- A share falls to the same turn, and looks alike if the decks do. -/
theorem share_look {rename : PlayerId → PlayerId} {id : PlayerId} {ids : List PlayerId}
    (apart : ∀ other ∈ ids, rename other = rename id → other = id)
    (same : q.map look = p.map look) :
    (share (ids.map rename) q (rename id)).map look = (share ids p id).map look := by
  have named : rename id ∈ ids.map rename ↔ id ∈ ids := by
    constructor
    · intro member
      obtain ⟨other, place, alike⟩ := List.mem_map.mp member
      exact apart other place alike ▸ place
    · exact List.mem_map_of_mem
  unfold share
  by_cases playing : id ∈ ids
  · rw [if_pos playing, if_pos (named.mpr playing), List.length_map, idxOf_map apart,
      ← everyNth_map, ← everyNth_map, same]
  · rw [if_neg playing, if_neg fun member => playing (named.mp member)]

end

/-! ### Decisions -/

/-- Whether it came to the suits, and they decided or were tied. -/
def Decision.bySuit : Decision → Bool
  | .suit | .redeal => true
  | .highCard | .war _ | .uncontested => false

theorem suitLaw_bySuit (tied : List Seat) : (suitLaw tied).2.bySuit = true := by
  unfold suitLaw
  split <;> rfl

/-! ### Seats -/

/-- The seat of a player under another id, with cards that look the same. -/
structure Seat.Like {α : Type} (rename : PlayerId → PlayerId) (look : Card → α) (s t : Seat) :
    Prop where
  id : t.id = rename s.id
  standing : t.standing = s.standing
  hand : t.hand.map look = s.hand.map look

variable {α : Type} {rename : PlayerId → PlayerId} {look : Card → α}

namespace Seat.Like

variable {s t : Seat}

theorem isActive (like : Seat.Like rename look s t) : t.isActive = s.isActive := by
  rw [Seat.isActive, like.standing, Seat.isActive]

theorem isEliminated (like : Seat.Like rename look s t) : t.isEliminated = s.isEliminated := by
  rw [Seat.isEliminated, like.standing, Seat.isEliminated]

theorem left (like : Seat.Like rename look s t) (n : Nat) :
    (t.left n).map look = (s.left n).map look := by
  rw [Seat.left, Seat.left, List.map_drop, List.map_drop, like.hand]

theorem meets (like : Seat.Like rename look s t) (stage : Stage) : t.meets stage = s.meets stage := by
  cases stage with
  | opening => rw [Seat.meets, Seat.meets, like.isActive, isEmpty_eq_of_look like.hand]
  | full => rw [Seat.meets, Seat.meets, length_eq_of_look like.hand]
  | limited => rw [Seat.meets, Seat.meets, like.isActive, isEmpty_eq_of_look like.hand]

theorem stake (like : Seat.Like rename look s t) (stage : Stage) :
    (t.stake stage).map look = (s.stake stage).map look := by
  have same := like.hand
  cases stage with
  | opening =>
    rw [Seat.stake, Seat.stake, like.isActive]
    split <;> simp [same]
  | full => exact take_look same fullStake
  | limited =>
    rw [Seat.stake, Seat.stake, like.isActive]
    split <;> simp [same]

theorem play (like : Seat.Like rename look s t) (stage : Stage) :
    Seat.Like rename look (s.play stage) (t.play stage) := by
  have lengths := length_eq_of_look (like.stake stage)
  constructor
  · exact like.id
  · simp only [Seat.play, like.meets, like.standing]
  · simp only [Seat.play, List.map_drop, lengths, like.hand]

theorem receive (like : Seat.Like rename look s t) {cards others : Pile}
    (same : others.map look = cards.map look) :
    Seat.Like rename look (s.receive cards) (t.receive others) := by
  refine ⟨like.id, like.standing, ?_⟩
  rw [Seat.hand_receive, Seat.hand_receive, List.map_append, List.map_append, like.hand, same]

theorem reinstate (like : Seat.Like rename look s t) :
    Seat.Like rename look s.reinstate t.reinstate := ⟨like.id, rfl, like.hand⟩

end Seat.Like

/-! ### Tables -/

namespace Table

variable {table other : Table} {s : Seat} {n : Nat}

abbrev Like (rename : PlayerId → PlayerId) (look : Card → α) (table other : Table) : Prop :=
  List.Forall₂ (Seat.Like rename look) table other

theorem Like.active (like : Table.Like rename look table other) :
    other.active = table.active.map rename := by
  induction like with
  | nil => rfl
  | cons first _ ih =>
    simp only [Table.active, List.filter_cons, first.isActive] at ih ⊢
    split
    · simp only [List.map_cons, first.id, ih]
    · exact ih

theorem Like.any_isEliminated (like : Table.Like rename look table other) {id : PlayerId}
    (apart : ∀ s ∈ table, rename s.id = rename id → s.id = id) :
    (other.seat? (rename id)).any (fun s => s.isEliminated) =
      (table.seat? id).any fun s => s.isEliminated := by
  induction like with
  | nil => rfl
  | @cons s t rest others first _ ih =>
    have behind := ih fun r member => apart r (List.mem_cons_of_mem s member)
    have here : (t.id == rename id) = (s.id == id) := by
      rw [Bool.eq_iff_iff, beq_iff_eq, beq_iff_eq, first.id]
      exact ⟨apart s List.mem_cons_self, congrArg rename⟩
    simp only [Table.seat?, List.find?_cons, here] at behind ⊢
    split
    · exact first.isEliminated
    · exact behind

/-- A change of every seat to one that looks alike and keeps the players apart. -/
structure Mirrors (rename : PlayerId → PlayerId) (look : Card → α) (table : Table)
    (change : Seat → Seat) : Prop where
  like : ∀ s ∈ table, Seat.Like rename look s (change s)
  apart : ∀ s ∈ table, ∀ t ∈ table, rename s.id = rename t.id → s = t

theorem Like.exists_change (like : Table.Like rename look table other)
    (ascending : table.Ascending) :
    ∃ change, other = table.map change ∧ ∀ s ∈ table, Seat.Like rename look s (change s) := by
  -- No id stands at the table twice, so the change can be told seat by seat.
  induction like with
  | nil => exact ⟨id, rfl, by simp⟩
  | @cons s t rest others first _ ih =>
    obtain ⟨above, behind⟩ := List.pairwise_cons.mp ascending
    obtain ⟨change, rfl, alike⟩ := ih behind
    have fresh : ∀ r ∈ rest, r ≠ s := by
      rintro r member rfl
      exact PlayerId.lt_irrefl _ (above r member)
    refine ⟨fun r => if r = s then t else change r, ?_, ?_⟩
    · rw [List.map_cons, if_pos rfl]
      refine congrArg (t :: ·) (List.map_congr_left fun r member => ?_)
      rw [if_neg (fresh r member)]
    · intro r member
      rcases List.mem_cons.mp member with rfl | member
      · simpa using first
      · simpa [fresh r member] using alike r member

theorem Like.mirrors (like : Table.Like rename look table other) (ascending : table.Ascending)
    (ordered : other.Ascending) :
    ∃ change, other = table.map change ∧ Mirrors rename look table change := by
  obtain ⟨change, rfl, alike⟩ := like.exists_change ascending
  refine ⟨change, rfl, alike, ?_⟩
  have ids : (table.map change).map (·.id) = table.map fun s => rename s.id := by
    rw [List.map_map]
    exact List.map_congr_left fun s member => (alike s member).id
  have distinct := ordered.nodup_ids
  rw [ids] at distinct
  intro s member t place same
  exact List.inj_on_of_nodup_map distinct member place same

theorem Like.of_map {change first second : Seat → Seat}
    (alike : ∀ s ∈ table, Seat.Like rename look (first s) (second (change s))) :
    Table.Like rename look (table.map first) ((table.map change).map second) := by
  rw [List.map_map]
  exact List.forall₂_map_left_iff.mpr (List.forall₂_map_right_iff.mpr (List.forall₂_same.mpr alike))

/-! ### The course of a war -/

theorem any_map_eq {seats : List Seat} {change : Seat → Seat} {p : Seat → Bool}
    (same : ∀ s ∈ seats, p (change s) = p s) : (seats.map change).any p = seats.any p := by
  rw [List.any_map, Bool.eq_iff_iff, List.any_eq_true, List.any_eq_true]
  exact exists_congr fun s => and_congr_right fun member => by rw [Function.comp_apply, same s member]

theorem filter_map_eq {seats : List Seat} {change : Seat → Seat} {p q : Seat → Bool}
    (same : ∀ s ∈ seats, p (change s) = q s) :
    (seats.map change).filter p = (seats.filter q).map change := by
  rw [List.filter_map]
  exact congrArg (List.map change) (List.filter_congr same)

theorem bestBy_map_eq {β : Type} [LinearOrder β] {seats : List Seat} {change : Seat → Seat}
    {score : Seat → β} (same : ∀ s ∈ seats, score (change s) = score s) :
    bestBy score (seats.map change) = (bestBy score seats).map change := by
  rw [bestBy_map]
  refine congrArg (List.map change) (bestBy_congr fun s member t place => ?_)
  rw [same s member, same t place]

namespace Mirrors

variable {change : Seat → Seat}

theorem contenders (mirrors : Mirrors rename look table change) :
    contenders (table.map change) = table.contenders.map change := by
  apply filter_map_eq
  intro s member
  rw [(mirrors.like s member).isActive, isEmpty_eq_of_look (mirrors.like s member).hand]

theorem rich (mirrors : Mirrors rename look table change) {tied : List Seat}
    (among : tied ⊆ table) :
    ((tied.map change).any fun s => fullStake ≤ (s.left n).length) =
      tied.any fun s => fullStake ≤ (s.left n).length := by
  apply any_map_eq
  intro s member
  rw [length_eq_of_look ((mirrors.like s (among member)).left n)]

theorem payers (mirrors : Mirrors rename look table change) {tied : List Seat}
    (among : tied ⊆ table) : payers n (tied.map change) = (payers n tied).map change := by
  have left (s : Seat) (member : s ∈ tied) := (mirrors.like s (among member)).left n
  unfold Table.payers
  rw [mirrors.rich among]
  split
  · exact filter_map_eq fun s member => by rw [length_eq_of_look (left s member)]
  · exact filter_map_eq fun s member => by rw [isEmpty_eq_of_look (left s member)]

theorem suitLaw (mirrors : Mirrors rename look table change)
    (suited : ∀ c d, look c = look d → c.suit = d.suit) {tied : List Seat} (among : tied ⊆ table) :
    suitLaw (tied.map change) =
      ((WarGame.suitLaw tied).1.map rename, (WarGame.suitLaw tied).2) := by
  have best : bestBy (fun s => bottomSuit s.hand) (tied.map change) =
      (bestBy (fun s => bottomSuit s.hand) tied).map change := by
    apply bestBy_map_eq
    intro s member
    exact bottomSuit_eq_of_look suited (mirrors.like s (among member)).hand
  unfold WarGame.suitLaw
  rw [best]
  rcases known : bestBy (fun s => bottomSuit s.hand) tied with _ | ⟨w, _ | ⟨v, others⟩⟩
  · rw [known]
    rfl
  · have member : w ∈ tied := (bestBy_sublist _ _).subset (by rw [known]; simp)
    simp [known, (mirrors.like w (among member)).id]
  · rw [known]
    rfl

section

variable (ranked : ∀ c d, look c = look d → c.rank = d.rank)

include ranked

theorem tiedAt (mirrors : Mirrors rename look table change) (n : Nat) :
    tiedAt (table.map change) n = (table.tiedAt n).map change := by
  induction n with
  | zero =>
    unfold Table.tiedAt
    rw [mirrors.contenders]
    apply bestBy_map_eq
    intro s contends
    have like := mirrors.like s (mem_contenders.mp contends).1
    exact faceValue_eq_of_look ranked (take_look like.hand 1)
  | succ n ih =>
    have among := (tiedAt_sublist_table table n).subset
    rw [Table.tiedAt, Table.tiedAt, ih, mirrors.payers among]
    apply bestBy_map_eq
    intro s pays
    have like := mirrors.like s (among ((payers_sublist n _).subset pays))
    exact faceValue_eq_of_look ranked (take_look (like.left n) fullStake)

theorem mem_tiedAt (mirrors : Mirrors rename look table change) (member : s ∈ table) :
    change s ∈ Table.tiedAt (table.map change) n ↔ s ∈ table.tiedAt n := by
  rw [mirrors.tiedAt ranked]
  constructor
  · intro tied
    obtain ⟨t, also, same⟩ := List.mem_map.mp tied
    have place := (tiedAt_sublist_table table n).subset also
    have ids : rename t.id = rename s.id := by
      rw [← (mirrors.like t place).id, same, (mirrors.like s member).id]
    exact mirrors.apart t place s member ids ▸ also
  · exact List.mem_map_of_mem

theorem stageAt (mirrors : Mirrors rename look table change) (n : Nat) :
    Table.stageAt (table.map change) n = table.stageAt n := by
  rw [Table.stageAt, mirrors.tiedAt ranked, mirrors.rich (tiedAt_sublist_table table n).subset,
    Table.stageAt]

theorem seatAt (mirrors : Mirrors rename look table change) (member : s ∈ table) :
    Seat.Like rename look (table.seatAt n s) (Table.seatAt (table.map change) n (change s)) := by
  induction n with
  | zero => exact (mirrors.like s member).play .opening
  | succ n ih =>
    unfold Table.seatAt
    simp only [mirrors.mem_tiedAt ranked member, mirrors.stageAt ranked]
    split
    · exact ih.play _
    · exact ih

theorem pot (mirrors : Mirrors rename look table change) (n : Nat) :
    (Table.pot (table.map change) n).map look = (table.pot n).map look := by
  induction n with
  | zero =>
    simp only [Table.pot, List.flatMap_map, List.map_flatMap]
    apply List.flatMap_congr
    intro s member
    exact (mirrors.like s member).stake .opening
  | succ n ih =>
    simp only [Table.pot, List.map_append, ih, mirrors.tiedAt ranked, List.flatMap_map,
      List.map_flatMap]
    refine congrArg (_ ++ ·) (List.flatMap_congr fun s tied => ?_)
    have like := mirrors.like s ((tiedAt_sublist_table table n).subset tied)
    exact take_look (like.left n) fullStake

theorem atStep (mirrors : Mirrors rename look table change) (n : Nat) :
    Table.Like rename look (table.atStep n) (Table.atStep (table.map change) n) :=
  .of_map fun _ member => mirrors.seatAt ranked member

/-! ### Who wins -/

theorem nearest (mirrors : Mirrors rename look table change) {seats : List Seat} {w : Seat}
    (among : seats ⊆ table) (place : w ∈ table) :
    nearest (change w) (seats.map change) = WarGame.nearest w seats := by
  have kept : (seats.map change).filter (fun s => s.id ≠ (change w).id) =
      (seats.filter fun s => s.id ≠ w.id).map change := by
    apply filter_map_eq
    intro s member
    have named : (change s).id = (change w).id ↔ s.id = w.id := by
      rw [(mirrors.like s (among member)).id, (mirrors.like w place).id]
      exact ⟨fun same => congrArg (fun t : Seat => t.id) (mirrors.apart s (among member) w place same),
        congrArg rename⟩
    rw [decide_eq_decide, ne_eq, ne_eq, named]
  unfold WarGame.nearest
  rw [kept, List.map_map]
  refine congrArg (List.foldr max 0) (List.map_congr_left fun s member => ?_)
  have like := mirrors.like s (among (List.mem_of_mem_filter member))
  rw [Function.comp_apply, key_eq_of_look ranked like.hand,
    key_eq_of_look ranked (mirrors.like w place).hand]

/-- A round between players who look alike is decided alike, unless it comes to the suits and they
do not show. -/
theorem roundLaw (mirrors : Mirrors rename look table change)
    (told : (∀ c d, look c = look d → c.suit = d.suit) ∨
      (roundLaw table.contenders).2.bySuit = false) :
    roundLaw (Table.contenders (table.map change)) =
      ((WarGame.roundLaw table.contenders).1.map rename,
        (WarGame.roundLaw table.contenders).2) := by
  have among : table.contenders ⊆ table := List.filter_sublist.subset
  have best : bestBy (fun s => key s.hand) (table.contenders.map change) =
      (bestBy (fun s => key s.hand) table.contenders).map change := by
    apply bestBy_map_eq
    intro s member
    exact key_eq_of_look ranked (mirrors.like s (among member)).hand
  have leading : bestBy (fun s => key s.hand) table.contenders ⊆ table :=
    fun s leads => among ((bestBy_sublist _ _).subset leads)
  -- A key is made of ranks alone, so the same seats lead, and only suits could tell them apart.
  rw [mirrors.contenders]
  unfold WarGame.roundLaw at told ⊢
  rw [best]
  rcases known : bestBy (fun s => key s.hand) table.contenders with _ | ⟨w, _ | ⟨v, others⟩⟩
  · rw [known]
    rfl
  · have place : w ∈ table := leading (by simp [known])
    simp only [known, List.map_cons, List.map_nil, mirrors.nearest ranked among place]
    cases WarGame.nearest w table.contenders with
    | zero => simp [(mirrors.like w place).id]
    | succ steps => simp [(mirrors.like w place).id]
  · rw [known] at leading told ⊢
    rcases told with suited | untold
    · exact mirrors.suitLaw suited leading
    · have bySuit := suitLaw_bySuit (w :: v :: others)
      exact absurd untold (by simp [bySuit])

end

end Mirrors

end Table

end WarGame
