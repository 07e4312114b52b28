import WarGame.Proofs.HandKey
import WarGame.Proofs.WarStep

/-!
# Who wins a war

The tied players of a step are those whose keys agree with the best one so far, so a war is won by
the only player with the greatest key, after one step more than the places which the next best key
shares with it. If several players have the greatest key they end with no card, and the last card
each put in is the bottom card of the hand.
-/

namespace WarGame

/-! ### What a seat shows -/

namespace Seat

variable {s : Seat}

/-- The card last in play once every card held has been put in. -/
def finalCard (s : Seat) : Option Card := s.hand.getLast?.or s.lastCard

theorem finalCard_play (s : Seat) (stage : Stage) : (s.play stage).finalCard = s.finalCard := by
  have whole := s.stake_append_hand stage
  unfold finalCard
  rw [← whole, List.getLast?_append, Option.or_assoc]
  rfl

theorem hand_of_full (able : s.meets .full = true) : ∃ c d rest, s.hand = c :: d :: rest := by
  have long : fullStake ≤ s.hand.length := by simpa [meets] using able
  rcases known : s.hand with _ | ⟨c, _ | ⟨d, rest⟩⟩
  · simp [known, fullStake] at long
  · simp [known, fullStake] at long
  · exact ⟨c, d, rest, rfl⟩

theorem hand_of_limited (able : s.meets .limited = true) (short : s.meets .full = false) :
    ∃ c, s.hand = [c] := by
  have few : s.hand.length < fullStake := by simpa [meets] using short
  rcases known : s.hand with _ | ⟨c, _ | ⟨d, rest⟩⟩
  · simp [meets, known] at able
  · exact ⟨c, rfl⟩
  · simp only [known, List.length_cons, fullStake] at few
    omega

theorem faceValue_pos {stage : Stage} (able : s.meets stage = true) :
    0 < Table.faceValue (s.stake stage) := by
  rw [Table.faceValue, List.getLast?_eq_some_getLast (stake_ne_nil able)]
  exact Face.value_pos _

end Seat

/-- A step is of the kind that the hands call for: full, or limited with nobody able to afford a
full one. -/
def Suits (stage : Stage) (tied : List Seat) : Prop :=
  stage = .full ∨ stage = .limited ∧ ∀ s ∈ tied, s.meets .full = false

namespace Suits

variable {stage : Stage} {tied : List Seat} {s : Seat}

/-- What a step shows and leaves of a hand is the head and the tail of its key. -/
theorem warKey_play (suits : Suits stage tied) (member : s ∈ tied) (able : s.meets stage = true) :
    warKey (s.play stage).hand = (warKey s.hand).tail ∧
      lead (warKey s.hand) =
        (if stage = .full then Rank.ace.value else 0) + Table.faceValue (s.stake stage) := by
  rcases suits with rfl | ⟨rfl, short⟩
  · obtain ⟨c, d, rest, held⟩ := Seat.hand_of_full able
    simp [Seat.play, Seat.stake, held, fullStake, warKey, lead, Face.order, Table.faceValue]
  · obtain ⟨c, held⟩ := Seat.hand_of_limited able (short s member)
    have active : s.isActive = true := by simp_all [Seat.meets]
    simp [Seat.play, Seat.stake, held, active, warKey, lead, Face.order, Table.faceValue]

theorem lead_unable (suits : Suits stage tied) (active : s.isActive = true)
    (unable : s.meets stage = false) :
    lead (warKey s.hand) ≤ if stage = .full then Rank.ace.value else 0 := by
  rcases suits with rfl | ⟨rfl, -⟩
  · have short : s.hand.length < fullStake := by simpa [Seat.meets] using unable
    rcases known : s.hand with _ | ⟨c, _ | ⟨d, rest⟩⟩
    · simp [warKey, lead]
    · simpa [warKey, lead, Face.order] using Face.value_le_ace c.rank
    · simp only [known, List.length_cons, fullStake] at short
      omega
  · have none : s.hand = [] := by simpa [Seat.meets, active] using unable
    simp [none, warKey, lead]

/-- The players who lead a step are those whose keys lead. -/
theorem bestBy_lead (suits : Suits stage tied) (active : ∀ s ∈ tied, s.isActive = true)
    (some : tied.filter (fun s => s.meets stage) ≠ []) :
    bestBy (fun s => lead (warKey s.hand)) tied =
      bestBy (fun s => Table.faceValue (s.stake stage)) (tied.filter fun s => s.meets stage) := by
  have apart : ∀ s ∈ tied, s.meets stage = true → ∀ t ∈ tied, t.meets stage = false →
      lead (warKey t.hand) < lead (warKey s.hand) := by
    intro s member able t other unable
    have shown := (suits.warKey_play member able).2
    have least := suits.lead_unable (active t other) unable
    have positive := Seat.faceValue_pos able
    omega
  rw [bestBy_filter some apart]
  apply bestBy_congr
  intro s member t other
  obtain ⟨here, able⟩ := List.mem_filter.mp member
  obtain ⟨there, likewise⟩ := List.mem_filter.mp other
  have first := (suits.warKey_play here able).2
  have second := (suits.warKey_play there likewise).2
  omega

theorem leader_meets (suits : Suits stage tied) (active : ∀ s ∈ tied, s.isActive = true)
    (some : tied.filter (fun s => s.meets stage) ≠ [])
    (leads : s ∈ bestBy (fun s => lead (warKey s.hand)) tied) :
    s ∈ tied ∧ s.meets stage = true := by
  rw [suits.bestBy_lead active some] at leads
  exact List.mem_filter.mp (mem_bestBy.mp leads).1

end Suits

/-! ### How close another key comes -/

/-- Another player shares `p` places with `w`, and nobody else more. -/
def Closest (score : Seat → List Face) (w : Seat) (seats : List Seat) (p : Nat) : Prop :=
  (∃ s ∈ seats, s.id ≠ w.id ∧ sharedPlaces (score s) (score w) = p) ∧
    ∀ s ∈ seats, s.id ≠ w.id → sharedPlaces (score s) (score w) ≤ p

namespace Closest

variable {score : Seat → List Face} {w : Seat} {seats : List Seat}

/-- A player who leads alone shares no place with another. -/
theorem of_single (alone : bestBy (fun s => lead (score s)) seats = [w])
    (other : ∃ s ∈ seats, s.id ≠ w.id) : Closest score w seats 0 := by
  have apart : ∀ s ∈ seats, s.id ≠ w.id → sharedPlaces (score s) (score w) = 0 := by
    intro s member unlike
    apply sharedPlaces_of_lead_ne
    intro same
    have top : w ∈ bestBy (fun s => lead (score s)) seats := by simp [alone]
    have also : s ∈ bestBy (fun s => lead (score s)) seats :=
      mem_bestBy.mpr ⟨member, fun t place => same ▸ (mem_bestBy.mp top).2 t place⟩
    rw [alone, List.mem_singleton] at also
    exact unlike (congrArg (fun s => s.id) also)
  obtain ⟨s, member, unlike⟩ := other
  exact ⟨⟨s, member, unlike, apart s member unlike⟩,
    fun t place away => le_of_eq (apart t place away)⟩

/-- Players who lead together share the first place and what they share after it. -/
theorem of_leaders {p : Nat} (leads : w ∈ bestBy (fun s => lead (score s)) seats)
    (shows : lead (score w) ≠ 0)
    (closest : Closest (fun s => (score s).tail) w (bestBy (fun s => lead (score s)) seats) p) :
    Closest score w seats (p + 1) := by
  have level {s : Seat} (member : s ∈ bestBy (fun s => lead (score s)) seats) :
      sharedPlaces (score s) (score w) = sharedPlaces (score s).tail (score w).tail + 1 := by
    have same := bestBy_tied member leads
    exact sharedPlaces_of_lead_eq same (same ▸ shows)
  obtain ⟨⟨s, member, unlike, shared⟩, most⟩ := closest
  refine ⟨⟨s, (mem_bestBy.mp member).1, unlike, by rw [level member, shared]⟩, ?_⟩
  intro t place away
  by_cases leading : t ∈ bestBy (fun s => lead (score s)) seats
  · rw [level leading]
    exact Nat.succ_le_succ (most t leading away)
  · rw [sharedPlaces_of_lead_ne]
    · exact Nat.zero_le _
    · intro same
      exact leading (mem_bestBy.mpr ⟨place, fun r there => same ▸ (mem_bestBy.mp leads).2 r there⟩)

theorem of_map {change : Seat → Seat} {p : Nat} (ids : ∀ s, (change s).id = s.id)
    (closest : Closest score (change w) (seats.map change) p) :
    Closest (fun s => score (change s)) w seats p := by
  obtain ⟨⟨t, member, unlike, shared⟩, most⟩ := closest
  obtain ⟨s, place, rfl⟩ := List.mem_map.mp member
  refine ⟨⟨s, place, ?_, shared⟩, fun r there away => most _ (List.mem_map_of_mem there) ?_⟩
  · rwa [ids, ids] at unlike
  · rwa [ids, ids]

theorem congr {other : Seat → List Face} {p : Nat} (alike : ∀ s ∈ seats, score s = other s)
    (member : w ∈ seats) (closest : Closest score w seats p) : Closest other w seats p := by
  obtain ⟨⟨s, place, unlike, shared⟩, most⟩ := closest
  refine ⟨⟨s, place, unlike, ?_⟩, fun t there away => ?_⟩
  · rw [← alike s place, ← alike w member, shared]
  · rw [← alike t there, ← alike w member]
    exact most t there away

end Closest

/-! ### Tied seats of a table -/

namespace Table

variable {table : Table} {tied : List Seat} {stage : Stage}

theorem filter_named (ascending : table.Ascending) (among : tied.Sublist table) :
    table.filter (fun s => decide (s.id ∈ tied.map (·.id))) = tied := by
  induction among with
  | slnil => rfl
  | @cons tied rest first among ih =>
    obtain ⟨above, ordered⟩ := List.pairwise_cons.mp ascending
    have unnamed : first.id ∉ tied.map (·.id) := by
      intro named
      obtain ⟨s, member, same⟩ := List.mem_map.mp named
      exact PlayerId.ne_of_lt (above s (among.subset member)) same.symm
    rw [List.filter_cons, if_neg (by simpa using unnamed), ih ordered]
  | @cons_cons tied rest first among ih =>
    obtain ⟨above, ordered⟩ := List.pairwise_cons.mp ascending
    rw [List.filter_cons, if_pos (by simp)]
    refine congrArg (first :: ·) (Eq.trans (List.filter_congr fun s member => ?_) (ih ordered))
    have unlike : s.id ≠ first.id := (PlayerId.ne_of_lt (above s member)).symm
    simp [unlike]

theorem entrants_tied (ascending : table.Ascending) (among : tied.Sublist table) :
    table.entrants stage (tied.map (·.id)) = tied.filter fun s => s.meets stage := by
  rw [← filter_named ascending among, List.filter_filter]
  exact List.filter_congr fun s _ => by
    rw [filter_named ascending among, Bool.and_comm]

theorem sublist_paying {leaders : List Seat} {ids : List PlayerId}
    (among : leaders.Sublist table) (named : ∀ s ∈ leaders, s.id ∈ ids) :
    (leaders.map fun s => s.play stage).Sublist (table.paying stage ids) := by
  have same : (leaders.map fun s => s.play stage) =
      leaders.map fun s => if s.id ∈ ids then s.play stage else s := by
    apply List.map_congr_left
    intro s member
    rw [if_pos (named s member)]
  rw [same]
  exact among.map _

theorem seat?_tied (ascending : table.Ascending) (among : tied.Sublist table) :
    ∀ id ∈ tied.map (·.id), ∃ s, table.seat? id = some s := by
  intro id named
  obtain ⟨s, member, rfl⟩ := List.mem_map.mp named
  exact ⟨s, seat?_of_mem ascending (among.subset member)⟩

theorem nodup_tied (ascending : table.Ascending) (among : tied.Sublist table) :
    (tied.map (·.id)).Nodup := ascending.nodup_ids.sublist (among.map _)

theorem suits_nextStage (ascending : table.Ascending) (among : tied.Sublist table) :
    ∃ stage, table.nextStage (tied.map (·.id)) = .ok stage ∧ Suits stage tied ∧
      (tied.filter (fun s => s.meets stage) = [] → stage = .limited) := by
  obtain ⟨stage, known, kind⟩ := Fray.nextStage_cases (seat?_tied ascending among)
  refine ⟨stage, known, ?_⟩
  rcases kind with ⟨rfl, id, named, s, seated, rich⟩ | ⟨rfl, poor⟩
  · refine ⟨.inl rfl, fun nobody => ?_⟩
    obtain ⟨t, member, rfl⟩ := List.mem_map.mp named
    rw [seat?_of_mem ascending (among.subset member)] at seated
    obtain rfl := Option.some.inj seated
    exact absurd rich (List.filter_eq_nil_iff.mp nobody t member)
  · refine ⟨.inr ⟨rfl, fun s member => ?_⟩, fun _ => rfl⟩
    exact poor s.id (List.mem_map_of_mem member) s
      (seat?_of_mem ascending (among.subset member))

end Table

/-! ### The war as a whole -/

/-- How a contest ends by the keys of the players in it. The winner shares `places` places with
the nearest other player, and players who share the greatest key are left with no card but the
last one each put in. -/
def Decided (score : Seat → List Face) (seats : List Seat) (ending : WarEnd) (places : Nat)
    (table : Table) : Prop :=
  (∃ w, bestBy score seats = [w] ∧ Closest score w seats places ∧ ending = .won w.id) ∨
    (2 ≤ (bestBy score seats).length ∧ ending = .drawn ((bestBy score seats).map (·.id)) ∧
      ∀ s ∈ bestBy score seats, ∃ t, table.seat? s.id = some t ∧ t.lastCard = s.finalCard)

/-- A contest of the players who lead it, with the tails of their keys, decides the whole one. -/
theorem Decided.of_leaders {score later : Seat → List Face} {change : Seat → Seat}
    {seats leaders : List Seat} {ending : WarEnd} {places : Nat} {table : Table}
    (ids : ∀ s, (change s).id = s.id) (last : ∀ s, (change s).finalCard = s.finalCard)
    (leading : bestBy (fun s => lead (score s)) seats = leaders)
    (shows : ∀ s ∈ leaders, lead (score s) ≠ 0)
    (tails : ∀ s ∈ leaders, later (change s) = (score s).tail)
    (decided : Decided later (leaders.map change) ending places table) :
    Decided score seats ending (places + 1) table := by
  subst leading
  have split : bestBy score seats =
      bestBy (fun s => later (change s)) (bestBy (fun s => lead (score s)) seats) := by
    rw [bestBy_bestBy fun s _ t _ => le_iff_lead_tail]
    apply bestBy_congr
    intro s member t other
    rw [tails s member, tails t other]
  unfold Decided at decided
  rw [bestBy_map, ← split] at decided
  rcases decided with ⟨w', top, closest, won⟩ | ⟨several, drawn, known⟩
  · obtain ⟨w, best, rfl⟩ := List.map_eq_singleton_iff.mp top
    have leads : w ∈ bestBy (fun s => lead (score s)) seats := by
      have among : w ∈ bestBy score seats := by simp [best]
      rw [split] at among
      exact (mem_bestBy.mp among).1
    have after : Closest (fun s => (score s).tail) w (bestBy (fun s => lead (score s)) seats)
        places := (closest.of_map ids).congr tails leads
    exact .inl ⟨w, best, .of_leaders leads (shows w leads) after, ids w ▸ won⟩
  · rw [List.length_map] at several
    refine .inr ⟨several, ?_, fun s member => ?_⟩
    · simpa only [List.map_map, Function.comp_def, ids] using drawn
    · obtain ⟨t, seated, card⟩ := known _ (List.mem_map_of_mem member)
      exact ⟨t, ids s ▸ seated, card.trans (last s)⟩

/-- How a war between tied players ends: the winner needed one step more than the places shared. -/
def WarLaw (tied : List Seat) (report : WarReport) : Prop :=
  ∃ places, report.stages.length = places + 1 ∧
    Decided (fun s => warKey s.hand) tied report.ending places report.fray.table

namespace WarLaw

variable {table : Table} {tied : List Seat} {stage : Stage} {prize : Pile}

theorem of_nobody (sound : table.Sound) (among : tied.Sublist table)
    (active : ∀ s ∈ tied, s.isActive = true) (several : 2 ≤ tied.length)
    (kind : table.nextStage (tied.map (·.id)) = .ok .limited)
    (nobody : tied.filter (fun s => s.meets .limited) = []) :
    WarLaw tied (Fray.war (tied.map (·.id)) { table, prize }) := by
  have none : ∀ s ∈ tied, s.hand = [] := by
    intro s member
    have unable := List.filter_eq_nil_iff.mp nobody s member
    simpa [Seat.meets, active s member] using unable
  have all : bestBy (fun s => warKey s.hand) tied = tied := by
    apply bestBy_of_all_tied
    intro s member t other
    rw [none s member, none t other]
  have done : Fray.step .limited (tied.map (·.id)) { table, prize } = _ :=
    Fray.step_of_nobody sound.ascending (Table.nodup_tied sound.ascending among)
      (Table.seat?_tied sound.ascending among)
      ((Table.entrants_tied sound.ascending among).trans nobody)
  rw [Fray.war_of_over kind done]
  refine ⟨0, rfl, .inr ?_⟩
  rw [all]
  refine ⟨several, rfl, fun s member => ⟨s.play .limited, ?_, ?_⟩⟩
  · unfold Fray.staked
    rw [Table.seat?_paying, Table.seat?_of_mem sound.ascending (among.subset member),
      Option.map_some, if_pos (List.mem_map_of_mem member)]
  · have empty : (s.play .limited).hand = [] := by simp [Seat.play, none s member]
    rw [← s.finalCard_play .limited, Seat.finalCard, empty]
    rfl

theorem of_single {w : Seat} (sound : table.Sound) (among : tied.Sublist table)
    (active : ∀ s ∈ tied, s.isActive = true) (several : 2 ≤ tied.length)
    (kind : table.nextStage (tied.map (·.id)) = .ok stage) (suits : Suits stage tied)
    (some : tied.filter (fun s => s.meets stage) ≠ [])
    (alone : bestBy (fun s => lead (warKey s.hand)) tied = [w]) :
    WarLaw tied (Fray.war (tied.map (·.id)) { table, prize }) := by
  have distinct := Table.nodup_tied sound.ascending among
  have other : ∃ s ∈ tied, s.id ≠ w.id := by
    match tied, several, distinct with
    | s :: t :: rest, _, distinct =>
      have unlike : s.id ≠ t.id := by
        intro same
        simp [same] at distinct
      by_cases first : s.id = w.id
      · exact ⟨t, by simp, fun second => unlike (first.trans second.symm)⟩
      · exact ⟨s, by simp, first⟩
  have best : bestBy (fun s => Table.faceValue (s.stake stage))
      (table.entrants stage (tied.map (·.id))) = [w] := by
    rw [Table.entrants_tied sound.ascending among, ← suits.bestBy_lead active some, alone]
  have done : Fray.step stage (tied.map (·.id)) { table, prize } = _ :=
    Fray.step_of_best sound.ascending (Fray.entrants_playing sound) distinct
      (Table.seat?_tied sound.ascending among) best
  have top : bestBy (fun s => warKey s.hand) tied = [w] := by
    rw [bestBy_bestBy fun s _ t _ => le_iff_lead_tail, alone]
    simp [bestBy]
  rw [Fray.war_of_over kind done]
  exact ⟨0, rfl, .inl ⟨w, top, .of_single alone other, rfl⟩⟩

theorem of_ties {leaders : List Seat} {after : Fray} (active : ∀ s ∈ tied, s.isActive = true)
    (kind : table.nextStage (tied.map (·.id)) = .ok stage) (suits : Suits stage tied)
    (some : tied.filter (fun s => s.meets stage) ≠ [])
    (leading : bestBy (fun s => lead (warKey s.hand)) tied = leaders)
    (done : Fray.step stage (tied.map (·.id)) { table, prize } =
      (.tied (leaders.map (·.id)), after))
    (next : WarLaw (leaders.map fun s => s.play stage) (after.war (leaders.map (·.id)))) :
    WarLaw tied (Fray.war (tied.map (·.id)) { table, prize }) := by
  obtain ⟨places, steps, decided⟩ := next
  rw [Fray.war_of_tied kind done]
  refine ⟨places + 1, congrArg (· + 1) steps, ?_⟩
  refine .of_leaders (fun s => s.id_play stage) (fun s => s.finalCard_play stage) leading
    (fun s leads => ?_) (fun s leads => ?_) decided
  · obtain ⟨member, able⟩ := suits.leader_meets active some (leading ▸ leads)
    have value := (suits.warKey_play member able).2
    have positive := Seat.faceValue_pos able
    omega
  · obtain ⟨member, able⟩ := suits.leader_meets active some (leading ▸ leads)
    exact (suits.warKey_play member able).1

end WarLaw

/-- A war among players in the game is won by the greatest key, and drawn if it is shared. -/
theorem war_law {table : Table} {tied : List Seat} (prize : Pile) (sound : table.Sound)
    (among : tied.Sublist table) (active : ∀ s ∈ tied, s.isActive = true)
    (several : 2 ≤ tied.length) :
    WarLaw tied (Fray.war (tied.map (·.id)) { table, prize }) := by
  -- every step that leaves a tie costs the hands a card
  induction size : table.hands.length using Nat.strong_induction_on
    generalizing table tied prize with
  | h size ih =>
    obtain ⟨stage, kind, suits, dry⟩ := Table.suits_nextStage sound.ascending among
    by_cases nobody : tied.filter (fun s => s.meets stage) = []
    · obtain rfl := dry nobody
      exact .of_nobody sound among active several kind nobody
    · rcases leading : bestBy (fun s => lead (warKey s.hand)) tied with _ | ⟨w, _ | ⟨v, others⟩⟩
      · exact (bestBy_ne_nil (List.ne_nil_of_length_pos (by omega)) leading).elim
      · exact .of_single sound among active several kind suits nobody leading
      · have best : bestBy (fun s => Table.faceValue (s.stake stage))
            (table.entrants stage (tied.map (·.id))) = w :: v :: others := by
          rw [Table.entrants_tied sound.ascending among, ← suits.bestBy_lead active nobody, leading]
        have done : Fray.step stage (tied.map (·.id)) { table, prize } = _ :=
          Fray.step_of_ties sound.ascending (Fray.entrants_playing sound)
            (Table.nodup_tied sound.ascending among) (Table.seat?_tied sound.ascending among) best
        refine .of_ties active kind suits nobody leading done ?_
        have still : (w :: v :: others).map (·.id) =
            ((w :: v :: others).map fun s => s.play stage).map (·.id) := by
          simp [List.map_map, Function.comp_def]
        have able : ∀ t ∈ (w :: v :: others).map fun s => s.play stage, t.isActive = true := by
          intro t member
          obtain ⟨s, leads, rfl⟩ := List.mem_map.mp member
          obtain ⟨place, able⟩ := suits.leader_meets active nobody (leading ▸ leads)
          rw [Seat.isActive_play, able, active s place]
          rfl
        have within : (w :: v :: others).Sublist tied := leading ▸ bestBy_sublist _ _
        have named : ∀ s ∈ w :: v :: others, s.id ∈ tied.map (·.id) := fun s leads =>
          List.mem_map_of_mem (within.subset leads)
        rw [still]
        exact ih _ (size ▸ Fray.hands_lt_of_tied done) _ (sound.paying _)
          (Table.sublist_paying (within.trans among) named) able (by simp) rfl

end WarGame
