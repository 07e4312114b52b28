import WarGame.Proofs.Seats

/-!
# Hands at a table

The cards in the hands are followed as a multiset through every change of a seat. On a sound table
nobody who is out of the game holds cards.
-/

namespace WarGame

namespace Seat

/-- A player whom a stage puts out of the game has no card left. -/
theorem hand_play_of_not_meets {s : Seat} {stage : Stage} (emptied : s.isActive = false → s.hand = [])
    (unable : s.meets stage = false) : (s.play stage).hand = [] := by
  have whole := s.stake_append_hand stage
  by_cases active : s.isActive = true
  · cases stage with
    | opening | limited =>
      have none : s.hand = [] := by simpa [meets, active] using unable
      simp [play, none]
    | full =>
      have short : s.hand.length < fullStake := by simpa [meets] using unable
      simp [play, stake, List.take_of_length_le (Nat.le_of_lt short)]
  · have none := emptied (Bool.eq_false_iff.mpr active)
    simp [play, none]

end Seat

namespace Table

variable {table : Table} {id : PlayerId} {s : Seat}

/-! ### The cards in the hands -/

theorem hands_append (left right : Table) :
    Table.hands (left ++ right) = left.hands ++ right.hands := List.flatMap_append

theorem hands_cons (rest : Table) : Table.hands (s :: rest) = s.hand ++ rest.hands :=
  List.flatMap_cons

/-- Changing a seat trades the cards of its old hand for those of its new one. -/
theorem hands_modify (change : Seat → Seat) (ascending : table.Ascending)
    (seated : table.seat? id = some s) :
    ((table.modify id change).hands ++ s.hand).Perm (table.hands ++ (change s).hand) := by
  obtain ⟨member, rfl⟩ := mem_of_seat? seated
  obtain ⟨before, after, rfl⟩ := List.append_of_mem member
  rw [modify_split ascending, hands_append, hands_append, hands_cons, hands_cons]
  apply List.perm_iff_count.mpr
  intro c
  simp only [List.count_append]
  omega

theorem hands_give (cards : Pile) (ascending : table.Ascending)
    (seated : table.seat? id = some s) :
    (table.give id cards).hands.Perm (table.hands ++ cards) := by
  have traded := hands_modify (fun s => s.receive cards) ascending seated
  refine (List.perm_append_right_iff s.hand).mp (traded.trans ?_)
  rw [Seat.hand_receive, List.append_assoc]
  exact List.perm_append_comm.append_left _

theorem hands_reinstate : (table.modify id Seat.reinstate).hands = table.hands := by
  unfold hands
  rw [List.flatMap_def, List.flatMap_def, map_modify fun s => s.hand_withStanding .active]

theorem hands_perm {other : Table} (alike : table.Perm other) : table.hands.Perm other.hands :=
  alike.flatMap_right _

theorem hands_of_alone (ascending : table.Ascending) (member : s ∈ table)
    (others : ∀ t ∈ table, t.id ≠ s.id → t.hand = []) : table.hands = s.hand := by
  obtain ⟨before, after, rfl⟩ := List.append_of_mem member
  obtain ⟨-, ordered, across⟩ := List.pairwise_append.mp ascending
  obtain ⟨above, -⟩ := List.pairwise_cons.mp ordered
  have left : Table.hands before = [] := List.flatMap_eq_nil_iff.mpr fun t place =>
    others t (by simp [place]) (PlayerId.ne_of_lt (across t place s List.mem_cons_self))
  have right : Table.hands after = [] := List.flatMap_eq_nil_iff.mpr fun t place =>
    others t (by simp [place]) (PlayerId.ne_of_lt (above t place)).symm
  rw [hands_append, hands_cons, left, right, List.nil_append, List.append_nil]

/-- Who holds every card leaves none to the others. -/
theorem hand_of_holder (ascending : table.Ascending) (member : s ∈ table)
    (holds : s.hand.Perm table.hands) : ∀ t ∈ table, t.id ≠ s.id → t.hand = [] := by
  obtain ⟨before, after, rfl⟩ := List.append_of_mem member
  have total := holds.length_eq
  rw [hands_append, hands_cons, List.length_append, List.length_append] at total
  have left : Table.hands before = [] := List.eq_nil_of_length_eq_zero (by omega)
  have right : Table.hands after = [] := List.eq_nil_of_length_eq_zero (by omega)
  intro t place unlike
  rcases List.mem_append.mp place with earlier | later
  · exact List.flatMap_eq_nil_iff.mp left t earlier
  · rcases List.mem_cons.mp later with rfl | later
    · exact (unlike rfl).elim
    · exact List.flatMap_eq_nil_iff.mp right t later

/-! ### Sound tables -/

/-- The seats are in order, and nobody who is out of the game holds cards. -/
structure Sound (table : Table) : Prop where
  ascending : table.Ascending
  emptied : ∀ s ∈ table, s.isActive = false → s.hand = []

namespace Sound

theorem nil : Sound [] := ⟨List.Pairwise.nil, by simp⟩

theorem map (sound : table.Sound) {change : Seat → Seat} (ids : ∀ s, (change s).id = s.id)
    (empties : ∀ s ∈ table, (change s).isActive = false → (change s).hand = []) :
    Sound (table.map change) := by
  refine ⟨sound.ascending.map ids, ?_⟩
  intro t member out
  obtain ⟨s, before, rfl⟩ := List.mem_map.mp member
  exact empties s before out

theorem modify (sound : table.Sound) {change : Seat → Seat} (ids : ∀ s, (change s).id = s.id)
    (empties : ∀ s ∈ table, s.id = id → (change s).isActive = false → (change s).hand = []) :
    Sound (table.modify id change) := by
  refine sound.map (fun s => ?_) (fun s member out => ?_)
  · split
    · exact ids s
    · rfl
  · split at out
    · next here => rw [if_pos here]; exact empties s member here out
    · next away => rw [if_neg away]; exact sound.emptied s member out

/-- Cards may be given to a player in the game. -/
theorem give (sound : table.Sound) (cards : Pile) (playing : id ∈ table.active) :
    (table.give id cards).Sound := by
  refine sound.modify (fun s => rfl) (fun s member here out => ?_)
  obtain ⟨t, seated, active, same⟩ := mem_active.mp playing
  rw [sound.ascending.eq_of_id member seated (here.trans same.symm), Seat.isActive_receive] at out
  rw [active] at out
  cases out

theorem reinstate (sound : table.Sound) : Sound (table.modify id Seat.reinstate) :=
  sound.modify (fun _ => rfl) (fun _ _ _ out => by cases out)

theorem hand_play (sound : table.Sound) {stage : Stage} (member : s ∈ table)
    (out : (s.play stage).isActive = false) : (s.play stage).hand = [] := by
  have idle := sound.emptied s member
  cases able : s.meets stage with
  | false => exact Seat.hand_play_of_not_meets idle able
  | true =>
    rw [Seat.isActive_play, able, Bool.true_and] at out
    simp [Seat.play, idle out]

theorem seat (sound : table.Sound) (p : Player) : (table.seat (.ofPlayer p)).Sound := by
  refine ⟨sound.ascending.seat, fun s member out => ?_⟩
  rcases mem_seat member with rfl | member
  · rw [Seat.isActive_ofPlayer] at out
    cases out
  · exact sound.emptied s member out

theorem hand_of_nobody (sound : table.Sound) (nobody : table.active = []) :
    ∀ s ∈ table, s.hand = [] := by
  intro s member
  exact sound.emptied s member (isActive_of_nobody nobody member)

end Sound

/-! ### Dealing -/

/-- What holds of a table and of every table after one more card is dealt holds after the deal. -/
theorem deal_induction {P : Table → Prop} {ids : List PlayerId} {deck : Pile}
    (give : ∀ id ∈ ids, ∀ c table, P table → P (table.give id [c])) (start : P table) :
    P (Table.deal ids deck table).2 := by
  induction deck generalizing ids table with
  | nil => simpa [deal] using start
  | cons c deck ih =>
    cases ids with
    | nil => simpa [deal] using start
    | cons id rest =>
      simp only [deal]
      refine ih ?_ (give id List.mem_cons_self c table start)
      intro other member
      refine give other ?_
      simpa [or_comm] using member

theorem deck_deal {ids : List PlayerId} (somebody : ids ≠ []) (deck : Pile) :
    (Table.deal ids deck table).1 = [] := by
  induction deck generalizing ids table with
  | nil => simp [deal]
  | cons c deck ih =>
    cases ids with
    | nil => exact (somebody rfl).elim
    | cons id rest => exact ih (by simp)

theorem active_deal (ids : List PlayerId) (deck : Pile) :
    (Table.deal ids deck table).2.active = table.active := by
  refine deal_induction (P := fun after => after.active = table.active) ?_ rfl
  intro id _ c after same
  rw [active_give, same]

theorem Sound.deal (sound : table.Sound) (deck : Pile) :
    (Table.deal table.active deck table).2.Sound := by
  have both : (Table.deal table.active deck table).2.Sound ∧
      (Table.deal table.active deck table).2.active = table.active := by
    refine deal_induction (P := fun after => after.Sound ∧ after.active = table.active) ?_
      ⟨sound, rfl⟩
    rintro id playing c after ⟨sound, same⟩
    exact ⟨sound.give [c] (same ▸ playing), active_give.trans same⟩
  exact both.1

/-- A deal moves cards from the deck to the hands and loses none. -/
theorem hands_deal {ids : List PlayerId} {deck : Pile} (ascending : table.Ascending)
    (seated : ∀ id ∈ ids, ∃ s, table.seat? id = some s) :
    ((Table.deal ids deck table).1 ++ (Table.deal ids deck table).2.hands).Perm
      (deck ++ table.hands) := by
  induction deck generalizing ids table with
  | nil => simp [deal]
  | cons c deck ih =>
    cases ids with
    | nil => simp [deal]
    | cons id rest =>
      obtain ⟨s, here⟩ := seated id List.mem_cons_self
      have given := hands_give [c] ascending here
      have still : ∀ other ∈ rest ++ [id], ∃ s, (table.give id [c]).seat? other = some s := by
        intro other member
        obtain ⟨t, found⟩ := seated other (by simpa [or_comm] using member)
        refine ⟨if t.id = id then t.receive [c] else t, ?_⟩
        rw [give, seat?_modify fun s => s.id_receive [c], found]
        rfl
      simp only [deal]
      refine (ih ascending.give still).trans ?_
      apply List.perm_iff_count.mpr
      intro d
      have counted := given.count_eq d
      simp only [List.count_append, List.count_cons, List.count_nil] at counted ⊢
      omega

end Table

end WarGame
