import WarGame.Table.Stakes

/-!
# Seats of a table

A table seats every id once, in ascending order. From that a seat is found by its id, and changing
one seat leaves the others alone.
-/

namespace WarGame

theorem PlayerId.lt_irrefl (a : PlayerId) : ¬ a < a := Nat.lt_irrefl _

theorem PlayerId.lt_trans {a b c : PlayerId} (first : a < b) (second : b < c) : a < c :=
  Nat.lt_trans first second

theorem PlayerId.ne_of_lt {a b : PlayerId} (less : a < b) : a ≠ b := by
  rintro rfl
  exact lt_irrefl a less

theorem PlayerId.lt_of_not_lt {a b : PlayerId} (unlike : a ≠ b) (above : ¬ a < b) : b < a := by
  have apart : a.number.val ≠ b.number.val := fun same => unlike (number_inj.mp same)
  rw [lt_iff] at above ⊢
  omega

namespace Seat

@[simp] theorem id_play (s : Seat) (stage : Stage) : (s.play stage).id = s.id := rfl

@[simp] theorem id_receive (s : Seat) (cards : Pile) : (s.receive cards).id = s.id := rfl

@[simp] theorem id_withStanding (s : Seat) (standing : Standing) :
    (s.withStanding standing).id = s.id := rfl

@[simp] theorem hand_receive (s : Seat) (cards : Pile) :
    (s.receive cards).hand = s.hand ++ cards := rfl

@[simp] theorem hand_withStanding (s : Seat) (standing : Standing) :
    (s.withStanding standing).hand = s.hand := rfl

@[simp] theorem isActive_receive (s : Seat) (cards : Pile) :
    (s.receive cards).isActive = s.isActive := rfl

@[simp] theorem lastCard_receive (s : Seat) (cards : Pile) :
    (s.receive cards).lastCard = s.lastCard := rfl

@[simp] theorem receive_nil (s : Seat) : s.receive [] = s := by
  simp [receive, Player.receive]

@[simp] theorem receive_receive (s : Seat) (first second : Pile) :
    (s.receive first).receive second = s.receive (first ++ second) := by
  simp [receive, Player.receive]

/-- Cards given to one player are that player's part of what each is given. -/
theorem receive_part (s : Seat) (w : PlayerId) (cards : Pile) :
    (if s.id = w then s.receive cards else s) = s.receive (if w = s.id then cards else []) := by
  by_cases here : s.id = w
  · rw [if_pos here, if_pos here.symm]
  · rw [if_neg here, if_neg (Ne.symm here), receive_nil]

@[simp] theorem isActive_reinstate (s : Seat) : s.reinstate.isActive = true := rfl

@[simp] theorem isActive_ofPlayer (p : Player) : (ofPlayer p).isActive = true := rfl

/-- A player who meets a stage keeps the standing, and one who does not is out. -/
theorem isActive_play (s : Seat) (stage : Stage) :
    (s.play stage).isActive = (s.meets stage && s.isActive) := by
  unfold play isActive
  by_cases able : s.meets stage = true
  · simp [able]
  · simp [able]

theorem reinstate_of_active {s : Seat} (playing : s.isActive = true) : s.reinstate = s := by
  have standing : s.standing = .active := by simpa [isActive] using playing
  rw [reinstate, withStanding, ← standing]

end Seat

namespace Table

variable {table : Table} {id : PlayerId} {s : Seat}

/-! ### Ids -/

/-- The seats are in the order of their ids, each id once. -/
def Ascending (table : Table) : Prop := table.Pairwise fun s t => s.id < t.id

namespace Ascending

theorem eq_of_id (ascending : table.Ascending) {t : Seat} (member : s ∈ table) (other : t ∈ table)
    (same : s.id = t.id) : s = t := by
  induction table with
  | nil => simp at member
  | cons first rest ih =>
    obtain ⟨below, ordered⟩ := List.pairwise_cons.mp ascending
    rcases List.mem_cons.mp member with here | there
    · rcases List.mem_cons.mp other with also | behind
      · rw [here, also]
      · rw [← here] at below
        exact (PlayerId.ne_of_lt (below t behind) same).elim
    · rcases List.mem_cons.mp other with before | behind
      · rw [← before] at below
        exact (PlayerId.ne_of_lt (below s there) same.symm).elim
      · exact ih ordered there behind

theorem nodup_ids (ascending : table.Ascending) : (table.map (·.id)).Nodup :=
  List.pairwise_map.mpr (ascending.imp PlayerId.ne_of_lt)

theorem nodup (ascending : table.Ascending) : table.Nodup :=
  ascending.imp fun less same => PlayerId.ne_of_lt less (congrArg (fun s : Seat => s.id) same)

theorem map (ascending : table.Ascending) {change : Seat → Seat}
    (keeps : ∀ s, (change s).id = s.id) : Ascending (table.map change) := by
  refine List.pairwise_map.mpr (ascending.imp ?_)
  intro s t less
  rw [keeps, keeps]
  exact less

theorem modify (ascending : table.Ascending) {change : Seat → Seat}
    (keeps : ∀ s, (change s).id = s.id) : Ascending (table.modify id change) := by
  apply ascending.map
  intro s
  split
  · exact keeps s
  · rfl

end Ascending

theorem Ascending.give {cards : Pile} (ascending : table.Ascending) :
    (table.give id cards).Ascending := ascending.modify fun _ => rfl

/-! ### Finding a seat -/

theorem seat?_eq_none : table.seat? id = none ↔ ∀ s ∈ table, s.id ≠ id := by
  simp [seat?]

theorem mem_of_seat? (seated : table.seat? id = some s) : s ∈ table ∧ s.id = id := by
  have found := List.find?_some seated
  exact ⟨List.mem_of_find?_eq_some seated, by simpa using found⟩

theorem seat?_of_mem (ascending : table.Ascending) (member : s ∈ table) :
    table.seat? s.id = some s := by
  cases found : table.seat? s.id with
  | none => exact (seat?_eq_none.mp found s member rfl).elim
  | some t =>
    obtain ⟨other, same⟩ := mem_of_seat? found
    rw [ascending.eq_of_id other member same]

theorem seat?_map {change : Seat → Seat} (keeps : ∀ s, (change s).id = s.id) :
    Table.seat? id (table.map change) = (table.seat? id).map change := by
  induction table with
  | nil => rfl
  | cons first rest ih =>
    simp only [seat?, List.map_cons, List.find?_cons, keeps] at ih ⊢
    split
    · rfl
    · exact ih

/-! ### Changing a seat -/

theorem mem_modify {change : Seat → Seat} {t : Seat} :
    t ∈ table.modify id change ↔
      ∃ s ∈ table, t = if s.id = id then change s else s := by
  unfold modify
  rw [List.mem_map]
  exact ⟨fun ⟨s, member, same⟩ => ⟨s, member, same.symm⟩,
    fun ⟨s, member, same⟩ => ⟨s, member, same.symm⟩⟩

theorem seat?_modify {change : Seat → Seat} {other : PlayerId}
    (keeps : ∀ s, (change s).id = s.id) :
    (table.modify id change).seat? other =
      (table.seat? other).map fun s => if s.id = id then change s else s := by
  apply seat?_map
  intro s
  split
  · exact keeps s
  · rfl

theorem seat?_modify_of_ne {change : Seat → Seat} {other : PlayerId}
    (keeps : ∀ s, (change s).id = s.id) (unlike : id ≠ other) :
    (table.modify other change).seat? id = table.seat? id := by
  rw [seat?_modify keeps]
  cases found : table.seat? id with
  | none => rfl
  | some s => simp [(mem_of_seat? found).2, unlike]

theorem modify_of_not_seated {change : Seat → Seat} (absent : ∀ s ∈ table, s.id ≠ id) :
    table.modify id change = table := by
  unfold modify
  refine (List.map_congr_left fun s member => ?_).trans (List.map_id _)
  rw [if_neg (absent s member)]
  rfl

theorem modify_split {before after : List Seat} {change : Seat → Seat}
    (ascending : Ascending (before ++ s :: after)) :
    Table.modify s.id change (before ++ s :: after) = before ++ change s :: after := by
  obtain ⟨-, ordered, across⟩ := List.pairwise_append.mp ascending
  obtain ⟨above, -⟩ := List.pairwise_cons.mp ordered
  have left : Table.modify s.id change before = before := modify_of_not_seated fun t member =>
    PlayerId.ne_of_lt (across t member s List.mem_cons_self)
  have right : Table.modify s.id change after = after := modify_of_not_seated fun t member =>
    (PlayerId.ne_of_lt (above t member)).symm
  unfold modify at left right ⊢
  rw [List.map_append, List.map_cons, if_pos rfl, left, right]

theorem map_modify {α : Type} {change : Seat → Seat} {view : Seat → α}
    (keeps : ∀ s, view (change s) = view s) : (table.modify id change).map view = table.map view := by
  unfold modify
  rw [List.map_map]
  apply List.map_congr_left
  intro s _
  simp only [Function.comp_apply]
  split
  · exact keeps s
  · rfl

/-! ### Active players -/

theorem mem_active : id ∈ table.active ↔ ∃ s ∈ table, s.isActive = true ∧ s.id = id := by
  simp [active, and_assoc]

theorem active_of_seat? (seated : table.seat? id = some s) (playing : s.isActive = true) :
    id ∈ table.active := by
  obtain ⟨member, rfl⟩ := mem_of_seat? seated
  exact mem_active.mpr ⟨s, member, playing, rfl⟩

theorem isActive_of_nobody (nobody : table.active = []) (member : s ∈ table) :
    s.isActive = false := by
  cases active : s.isActive with
  | false => rfl
  | true =>
    have playing : s.id ∈ table.active := mem_active.mpr ⟨s, member, active, rfl⟩
    rw [nobody] at playing
    cases playing

theorem seat?_of_active (ascending : table.Ascending) (playing : id ∈ table.active) :
    ∃ s, table.seat? id = some s := by
  obtain ⟨s, member, -, rfl⟩ := mem_active.mp playing
  exact ⟨s, seat?_of_mem ascending member⟩

theorem active_map {change : Seat → Seat} (ids : ∀ s, (change s).id = s.id)
    (standings : ∀ s, (change s).isActive = s.isActive) :
    Table.active (table.map change) = table.active := by
  induction table with
  | nil => rfl
  | cons first rest ih =>
    simp only [active, List.map_cons, List.filter_cons, standings] at ih ⊢
    split
    · rw [List.map_cons, List.map_cons, ids, ih]
    · exact ih

theorem active_give {cards : Pile} : (table.give id cards).active = table.active := by
  refine active_map (fun s => ?_) (fun s => ?_)
  all_goals split <;> rfl

theorem mem_active_give {other : PlayerId} {cards : Pile} :
    id ∈ (table.give other cards).active ↔ id ∈ table.active := by
  rw [active_give]

theorem active_reinstate (seated : table.seat? id = some s) :
    id ∈ (table.modify id Seat.reinstate).active := by
  obtain ⟨member, rfl⟩ := mem_of_seat? seated
  refine mem_active.mpr ⟨s.reinstate, ?_, rfl, rfl⟩
  exact mem_modify.mpr ⟨s, member, (if_pos rfl).symm⟩

theorem modify_reinstate (ascending : table.Ascending) (seated : table.seat? id = some s)
    (playing : s.isActive = true) : table.modify id Seat.reinstate = table := by
  obtain ⟨member, rfl⟩ := mem_of_seat? seated
  refine (List.map_congr_left fun t place => ?_).trans (List.map_id _)
  split
  · next same =>
    rw [ascending.eq_of_id place member same]
    exact Seat.reinstate_of_active playing
  · rfl

/-! ### Taking a seat -/

theorem mem_seat {new : Seat} (member : s ∈ table.seat new) : s = new ∨ s ∈ table := by
  induction table with
  | nil => exact .inl (List.mem_singleton.mp member)
  | cons first rest ih =>
    simp only [seat] at member
    split at member
    · exact List.mem_cons.mp member
    · split at member
      · exact (List.mem_cons.mp member).imp_right (List.mem_cons_of_mem first)
      · rcases List.mem_cons.mp member with rfl | member
        · exact .inr List.mem_cons_self
        · exact (ih member).imp_right (List.mem_cons_of_mem first)

theorem Ascending.seat {new : Seat} (ascending : table.Ascending) :
    (table.seat new).Ascending := by
  induction table with
  | nil => exact List.pairwise_singleton _ _
  | cons first rest ih =>
    obtain ⟨above, ordered⟩ := List.pairwise_cons.mp ascending
    simp only [Table.seat]
    split
    · next less =>
      refine List.pairwise_cons.mpr ⟨fun t member => ?_, ascending⟩
      rcases List.mem_cons.mp member with rfl | member
      · exact less
      · exact PlayerId.lt_trans less (above t member)
    · next notLess =>
      split
      · next same =>
        refine List.pairwise_cons.mpr ⟨fun t member => ?_, ordered⟩
        rw [same]
        exact above t member
      · next unlike =>
        refine List.pairwise_cons.mpr ⟨fun t member => ?_, ih ordered⟩
        rcases mem_seat member with rfl | member
        · exact PlayerId.lt_of_not_lt unlike notLess
        · exact above t member

theorem seat_ne_nil {new : Seat} : table.seat new ≠ [] := by
  cases table with
  | nil => simp [seat]
  | cons first rest =>
    simp only [seat]
    split
    · simp
    · split <;> simp

theorem filter_unlike (above : ∀ s ∈ table, id < s.id) :
    table.filter (fun s => s.id ≠ id) = table := by
  apply List.filter_eq_self.mpr
  intro s member
  simpa using (PlayerId.ne_of_lt (above s member)).symm

/-- A new seat joins the others, less one with the same id. -/
theorem seat_perm (ascending : table.Ascending) (new : Seat) :
    (table.seat new).Perm (new :: table.filter fun s => s.id ≠ new.id) := by
  induction table with
  | nil => exact .refl _
  | cons first rest ih =>
    obtain ⟨above, ordered⟩ := List.pairwise_cons.mp ascending
    simp only [seat]
    split
    · next less =>
      rw [filter_unlike]
      intro s member
      rcases List.mem_cons.mp member with rfl | member
      · exact less
      · exact PlayerId.lt_trans less (above s member)
    · split
      · next same =>
        rw [List.filter_cons_of_neg (by simp [same]), filter_unlike (same ▸ above)]
      · next unlike =>
        rw [List.filter_cons_of_pos (by simpa using Ne.symm unlike)]
        exact ((ih ordered).cons first).trans (.swap new first _)

end Table

end WarGame
