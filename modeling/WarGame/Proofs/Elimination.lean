import WarGame.Proofs.RoundCourse
import WarGame.Proofs.Rounds

/-!
# Who is eliminated

A player who is out of the game holds no card, whatever calls were made. A round puts out exactly
the players who come without a card, those who fall short in a war, and those left tied without a
card whom the suits do not single out. Nobody is put out by a lower rank, and nobody comes back.
-/

namespace WarGame

/-! ### Seats in order -/

theorem Seat.isEliminated_eq (s : Seat) : s.isEliminated = !s.isActive := by
  unfold isEliminated isActive
  cases s.standing <;> rfl

namespace Table

variable {table : Table} {id : PlayerId} {s : Seat}

theorem seat?_eq_some (ascending : table.Ascending) :
    table.seat? id = some s ↔ s ∈ table ∧ s.id = id := by
  constructor
  · exact mem_of_seat?
  · rintro ⟨member, rfl⟩
    exact seat?_of_mem ascending member

theorem mem_eliminated : id ∈ table.eliminated ↔ ∃ s ∈ table, s.isActive = false ∧ s.id = id := by
  simp [eliminated, Seat.isEliminated_eq, and_assoc]

theorem active_iff (ascending : table.Ascending) (seated : table.seat? id = some s) :
    id ∈ table.active ↔ s.isActive = true := by
  refine ⟨fun playing => ?_, active_of_seat? seated⟩
  obtain ⟨t, member, active, rfl⟩ := mem_active.mp playing
  rw [seat?_of_mem ascending member] at seated
  cases seated
  exact active

theorem eliminated_iff (ascending : table.Ascending) (seated : table.seat? id = some s) :
    id ∈ table.eliminated ↔ s.isActive = false := by
  obtain ⟨place, rfl⟩ := mem_of_seat? seated
  refine ⟨fun gone => ?_, fun out => mem_eliminated.mpr ⟨s, place, out, rfl⟩⟩
  obtain ⟨t, member, out, same⟩ := mem_eliminated.mp gone
  rw [ascending.eq_of_id place member same.symm]
  exact out

/-- One seat for an id, in ascending order, and no card with a player who is out. -/
structure InOrder (table : Table) : Prop where
  ascending : table.Pairwise fun s t => s.id < t.id
  found : ∀ id s, table.seat? id = some s ↔ s ∈ table ∧ s.id = id
  emptied : ∀ s ∈ table, s.isEliminated = true → s.hand = []

end Table

namespace Game

variable {g after : Game}

theorem inOrder_of_reachable (reachable : Reachable g) : g.table.InOrder := by
  obtain ⟨ascending, emptied⟩ := reachable.sound.table
  refine ⟨ascending, fun id s => Table.seat?_eq_some ascending, ?_⟩
  intro s member out
  rw [Seat.isEliminated_eq, Bool.not_eq_true'] at out
  exact emptied s member out

/-- An opening and two wars apart from any round. The first war names somebody who is not at the
table, and the second names everybody twice, so the last one with a card pays and is then out. -/
def scuffle : Game :=
  let ids := trio.map fun p => p.id
  ((tiedThree.openRound.2.2.goToWar (PlayerId.lowest 4) []).2.2.goToWar (ids ++ ids) []).2.2

theorem inOrder_scuffle : Reachable scuffle ∧
    scuffle.table.eliminated = trio.map (fun p => p.id) ∧ scuffle.table.InOrder := by
  have reached : Reachable scuffle := by
    obtain ⟨settings, tries, entropy, fresh, made, calls⟩ := tiedThree_reachable
    exact ⟨settings, tries, entropy, fresh, made,
      ((calls.tail .openRound).tail (.goToWar _ _)).tail (.goToWar _ _)⟩
  exact ⟨reached, by decide +kernel, inOrder_of_reachable reached⟩

end Game

/-! ### Who falls short, and who is left tied -/

namespace Table

variable {table : Table} {s : Seat} {m n : Nat}

/-- Tied before step `n`, the player cannot put in what the step asks for: two cards if one of those
tied has two, and otherwise a card if one of them has a card. -/
def FallsShort (table : Table) (n : Nat) (s : Seat) : Prop :=
  2 ≤ (table.tiedAt n).length ∧ s ∈ table.tiedAt n ∧
    ((∃ t ∈ table.tiedAt n, fullStake ≤ (t.left n).length) ∧ (s.left n).length < fullStake ∨
      (∀ t ∈ table.tiedAt n, (t.left n).length < fullStake) ∧
        (∃ t ∈ table.tiedAt n, t.left n ≠ []) ∧ s.left n = [])

/-- The suits of the bottom cards do not single the player out of those tied before step `n`, none
of whom has a card left. -/
def LeftTied (table : Table) (n : Nat) (s : Seat) : Prop :=
  2 ≤ (table.tiedAt n).length ∧ s ∈ table.tiedAt n ∧ (∀ t ∈ table.tiedAt n, t.left n = []) ∧
    bestBy (fun t => bottomSuit t.hand) (table.tiedAt n) ≠ [s]

/-- The suits of a war drawn at step `n` single the player out. -/
def Spared (table : Table) (n : Nat) (s : Seat) : Prop :=
  payers n (table.tiedAt n) = [] ∧
    bestBy (fun t => bottomSuit t.hand) (table.tiedAt n) = [s]

theorem Spared.tied (spared : table.Spared n s) : s ∈ table.tiedAt n :=
  (bestBy_sublist _ _).subset (by rw [spared.2]; simp)

/-- There are no steps after a drawn one. -/
theorem lt_of_drawn (drawn : payers m (table.tiedAt m) = []) (tied : s ∈ table.tiedAt n) :
    n ≤ m := by
  by_contra beyond
  have pays := mem_payers_of_tied (Nat.lt_of_not_le beyond) tied
  rw [drawn] at pays
  cases pays

/-- Whoever is tied and does not put in what the step asks for falls short, is left tied or is
spared. -/
theorem fallsShort_or_leftTied (several : 2 ≤ (table.tiedAt n).length) :
    table.FallsShort n s ∨ table.LeftTied n s ↔
      s ∈ table.tiedAt n ∧ s ∉ payers n (table.tiedAt n) ∧ ¬ table.Spared n s := by
  constructor
  · rintro (⟨-, tied, ⟨⟨t, member, enough⟩, short⟩ | ⟨unable, ⟨t, member, some⟩, none⟩⟩ |
      ⟨-, tied, drawn, apart⟩)
    · refine ⟨tied, fun pays => ?_, fun spared => ?_⟩
      · exact absurd ((mem_payers.mp pays).2.2 ⟨t, member, enough⟩) (Nat.not_le.mpr short)
      · simp [payers_eq_nil.mp spared.1 t member, fullStake] at enough
    · exact ⟨tied, fun pays => (mem_payers.mp pays).2.1 none,
        fun spared => some (payers_eq_nil.mp spared.1 t member)⟩
    · exact ⟨tied, fun pays => (mem_payers.mp pays).2.1 (drawn s tied),
        fun spared => apart spared.2⟩
  · rintro ⟨tied, unpaid, unspared⟩
    by_cases rich : ∃ t ∈ table.tiedAt n, fullStake ≤ (t.left n).length
    · refine .inl ⟨several, tied, .inl ⟨rich, Nat.lt_of_not_le fun enough => unpaid ?_⟩⟩
      refine mem_payers.mpr ⟨tied, ?_, fun _ => enough⟩
      rintro none
      simp [none, fullStake] at enough
    · have unable : ∀ t ∈ table.tiedAt n, (t.left n).length < fullStake := fun t member =>
        Nat.lt_of_not_le fun enough => rich ⟨t, member, enough⟩
      have none : s.left n = [] := by
        by_contra some
        exact unpaid (mem_payers.mpr ⟨tied, some, fun enough => (rich enough).elim⟩)
      by_cases drawn : ∀ t ∈ table.tiedAt n, t.left n = []
      · exact .inr ⟨several, tied, drawn, fun best => unspared ⟨payers_eq_nil.mpr drawn, best⟩⟩
      · exact .inl ⟨several, tied, .inr ⟨unable, by simpa using drawn, none⟩⟩

end Table

/-! ### The standings after a round -/

namespace Game

variable {g after : Game} {n : Nat} {decision : Decision} {s : Seat}

namespace Ends

/-- The player who is put in the game again is the one whom the suits of a drawn war single out. -/
theorem reinstates_iff (sound : g.table.Sound) (ends : g.Ends n decision after)
    (member : s ∈ g.table) :
    (decision = .suit ∧ after.lastWinner = some s.id) ↔ ∃ m < n, g.table.Spared m s := by
  -- A drawn step is the last one, so a step that spares somebody is the one the ending is about.
  cases ends with
  | uncontested nobody => simp
  | highCard w leads => simp
  | war k w several leads =>
    simp only [reduceCtorEq, false_and, false_iff]
    rintro ⟨m, before, drawn, -⟩
    have beyond := Table.lt_of_drawn drawn (show w ∈ g.table.tiedAt (k + 1) by simp [leads])
    omega
  | suit k w several nobody best =>
    have spared : g.table.Spared k w := ⟨nobody, best⟩
    have place := (Table.tiedAt_sublist_table g.table k).subset spared.tied
    simp only [true_and, award, Option.some.injEq]
    constructor
    · intro same
      rw [← sound.ascending.eq_of_id place member same]
      exact ⟨k, Nat.lt_succ_self k, spared⟩
    · rintro ⟨m, before, other⟩
      have latest := Table.lt_of_drawn other.1 spared.tied
      obtain rfl : m = k := by omega
      have same := best.symm.trans other.2
      cases same
      rfl
  | redeal k _ several nobody tied dealt =>
    simp only [reduceCtorEq, false_and, false_iff]
    rintro ⟨m, before, drawn, best⟩
    obtain ⟨t, member⟩ := List.exists_mem_of_length_pos (Nat.lt_of_lt_of_le Nat.zero_lt_two several)
    have latest := Table.lt_of_drawn drawn member
    obtain rfl : m = k := by omega
    simp [best] at tied

/-- A player stays in the game by putting in what every step asks for, or by the suits. -/
theorem isActive_end (sound : g.table.Sound) (ends : g.Ends n decision after)
    (member : s ∈ g.table) :
    (seatOf g n decision after s).isActive = true ↔ s ∈ g.table.contenders ∧
      ∀ m < n, s ∈ g.table.tiedAt m →
        s ∈ Table.payers m (g.table.tiedAt m) ∨ g.table.Spared m s := by
  have again := reinstates_iff sound ends member
  unfold seatOf
  split
  · next reinstated =>
    obtain ⟨m, before, spared⟩ := again.mp reinstated
    refine iff_of_true rfl ⟨(Table.tiedAt_sublist _ m).subset spared.tied, fun k _ tied => ?_⟩
    rcases Nat.lt_or_eq_of_le (Table.lt_of_drawn spared.1 tied) with earlier | rfl
    · exact .inl (Table.mem_payers_of_tied earlier spared.tied)
    · exact .inr spared
  · next unchanged =>
    rw [Table.isActive_seatAt member]
    refine and_congr_right fun _ => forall₂_congr fun m before => imp_congr_right fun _ => ?_
    rw [or_iff_left fun spared => unchanged (again.mpr ⟨m, before, spared⟩)]

/-- Who is put out comes without a card, falls short or is left tied. -/
theorem isActive_end_eq_false (sound : g.table.Sound) (ends : g.Ends n decision after)
    (member : s ∈ g.table) (active : s.isActive = true) :
    (seatOf g n decision after s).isActive = false ↔
      s.hand = [] ∨ (∃ m, g.table.FallsShort m s) ∨ ∃ m, g.table.LeftTied m s := by
  have contends : s ∉ g.table.contenders ↔ s.hand = [] := by
    simp [Table.contenders, member, active]
  have out (m : Nat) : g.table.FallsShort m s ∨ g.table.LeftTied m s ↔
      m < n ∧ s ∈ g.table.tiedAt m ∧ s ∉ Table.payers m (g.table.tiedAt m) ∧
        ¬ g.table.Spared m s := by
    rw [ends.step_iff]
    by_cases several : 2 ≤ (g.table.tiedAt m).length
    · simp only [several, true_and, Table.fallsShort_or_leftTied several]
    · simp [several, Table.FallsShort, Table.LeftTied]
  rw [← Bool.not_eq_true, isActive_end sound ends member, not_and_or, contends, ← exists_or]
  simp only [out, not_forall, not_or, exists_prop]

theorem mem_active_end (sound : g.table.Sound) (ends : g.Ends n decision after)
    (member : s ∈ g.table) :
    s.id ∈ after.table.active ↔ (seatOf g n decision after s).isActive = true := by
  rw [Table.active_iff (ends.ascending_end sound) (ends.seat?_end sound member),
    Seat.isActive_receive]

theorem mem_eliminated_end (sound : g.table.Sound) (ends : g.Ends n decision after)
    (member : s ∈ g.table) :
    s.id ∈ after.table.eliminated ↔ (seatOf g n decision after s).isActive = false := by
  rw [Table.eliminated_iff (ends.ascending_end sound) (ends.seat?_end sound member),
    Seat.isActive_receive]

/-- A lower rank at the opening puts nobody out. -/
theorem active_of_untied (sound : g.table.Sound) (ends : g.Ends n decision after)
    (contends : s ∈ g.table.contenders) (untied : s ∉ g.table.tiedAt 0) :
    s.id ∈ after.table.active := by
  have member := (Table.mem_contenders.mp contends).1
  rw [mem_active_end sound ends member, isActive_end sound ends member]
  refine ⟨contends, fun m _ tied => (untied ?_).elim⟩
  exact (Table.tiedAt_sublist_of_le (Nat.zero_le m)).subset tied

/-- Nor does a lower rank at a step of the war. -/
theorem active_of_outranked {k : Nat} (sound : g.table.Sound) (ends : g.Ends n decision after)
    (pays : s ∈ Table.payers k (g.table.tiedAt k)) (beaten : s ∉ g.table.tiedAt (k + 1)) :
    s.id ∈ after.table.active := by
  have tied := (Table.payers_sublist k _).subset pays
  have member := (Table.tiedAt_sublist_table g.table k).subset tied
  rw [mem_active_end sound ends member, isActive_end sound ends member]
  refine ⟨(Table.tiedAt_sublist g.table k).subset tied, fun m _ still => .inl ?_⟩
  rcases Nat.lt_trichotomy m k with earlier | rfl | later
  · exact Table.mem_payers_of_tied earlier tied
  · exact pays
  · exact (beaten ((Table.tiedAt_sublist_of_le later).subset still)).elim

/-- A player who is out before the round stays out. -/
theorem eliminated_of_idle (sound : g.table.Sound) (ends : g.Ends n decision after)
    (member : s ∈ g.table) (idle : s.isActive = false) : s.id ∈ after.table.eliminated := by
  rw [mem_eliminated_end sound ends member, ← Bool.not_eq_true, isActive_end sound ends member]
  rintro ⟨contends, -⟩
  rw [(Table.mem_contenders.mp contends).2.1] at idle
  cases idle

end Ends

/-- What a round does to the standings. -/
structure EliminationRule (g after : Game) : Prop where
  eliminated : ∀ s ∈ g.table, s.isActive = true → (s.id ∈ after.table.eliminated ↔
    s.hand = [] ∨ (∃ n, g.table.FallsShort n s) ∨ ∃ n, g.table.LeftTied n s)
  /-- A lower rank at the opening puts nobody out. -/
  outranked : ∀ s ∈ g.table.contenders, s ∉ g.table.tiedAt 0 → s.id ∈ after.table.active
  /-- Nor does a lower rank at a step of the war. -/
  outrankedAt : ∀ n, ∀ s ∈ Table.payers n (g.table.tiedAt n), s ∉ g.table.tiedAt (n + 1) →
    s.id ∈ after.table.active
  stays : ∀ s ∈ g.table, s.isEliminated = true → s.id ∈ after.table.eliminated

theorem eliminationRule_of_reachable (reachable : Reachable g) :
    ∃ report after, g.round = (.ok report, after) ∧ g.EliminationRule after := by
  have sound := reachable.sound.table
  obtain ⟨n, report, settled, played, ends, -⟩ := round_ends sound
  refine ⟨report, settled.closed, played, ?_⟩
  constructor
  all_goals rw [closed_table]
  case eliminated =>
    intro s member active
    rw [ends.mem_eliminated_end sound member, ends.isActive_end_eq_false sound member active]
  case outranked => exact fun s contends untied => ends.active_of_untied sound contends untied
  case outrankedAt => exact fun k s pays beaten => ends.active_of_outranked sound pays beaten
  case stays =>
    intro s member out
    rw [Seat.isEliminated_eq, Bool.not_eq_true'] at out
    exact ends.eliminated_of_idle sound member out

theorem eliminationRule_tiedThree :
    Reachable tiedThree ∧ ∃ report after,
      tiedThree.round = (.ok report, after) ∧ tiedThree.EliminationRule after :=
  ⟨tiedThree_reachable, eliminationRule_of_reachable tiedThree_reachable⟩

end Game

end WarGame
