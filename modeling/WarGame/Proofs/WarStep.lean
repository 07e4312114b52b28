import WarGame.Proofs.Hands
import WarGame.Proofs.Leaders

/-!
# Steps of a war

What every war keeps is shown once, in `Fray.war_induction`: it has to survive a stake going into
the prize and the prize going to a winner in the game. What a step comes to is given in closed
form for tied players who are seated, each named once: the players that put in what the step asks
for are compared by the cards that face up.
-/

namespace WarGame

namespace Fray

variable {stage : Stage} {tied : List PlayerId} {fray : Fray}

/-- A player puts a stake in. -/
def pay (stage : Stage) (s : Seat) (fray : Fray) : Fray :=
  { table := fray.table.modify s.id fun s => s.play stage
    prize := fray.prize ++ s.stake stage }

/-! ### What a war keeps -/

theorem putIn_induction {P : Fray → Prop} {played : Stakes}
    (pays : ∀ fray s, P fray → fray.table.seat? s.id = some s → P (fray.pay stage s))
    (start : P fray) : P (fray.putIn stage tied played).2 := by
  induction tied generalizing played fray with
  | nil => exact start
  | cons id rest ih =>
    simp only [putIn]
    split
    · exact start
    · next s seated =>
      obtain ⟨-, rfl⟩ := Table.mem_of_seat? seated
      exact ih (pays fray s start seated)

/-- A step leaves the stakes in the prize, or it is won by a player in the game. -/
theorem step_cases (stage : Stage) (tied : List PlayerId) (fray : Fray) :
    (fray.step stage tied).2 = (fray.putIn stage tied []).2 ∧
        (∀ winner, (fray.step stage tied).1 ≠ .over (.won winner)) ∨
      ∃ winner s, (fray.putIn stage tied []).2.table.seat? winner = some s ∧ s.isActive = true ∧
        fray.step stage tied =
          (.over (.won winner), (fray.putIn stage tied []).2.award stage winner) := by
  unfold step
  split
  · next cause after putting => simp [putting]
  · next after putting => simp [putting]
  · next played after some putting =>
    rw [putting]
    split
    · simp
    · simp
    · next winner leads =>
      obtain ⟨s, seated, active⟩ := Table.rankLeaders_playing leads List.mem_cons_self
      exact .inr ⟨winner, s, seated, active, rfl⟩
    · simp

/-- What survives every stake and every award holds after a step. -/
theorem step_induction {P : Fray → Prop} {ending : StepEnd} {after : Fray}
    (pays : ∀ stage fray s, P fray → fray.table.seat? s.id = some s → P (fray.pay stage s))
    (awards : ∀ stage fray s, P fray → fray.table.seat? s.id = some s → s.isActive = true →
      P (fray.award stage s.id))
    (done : fray.step stage tied = (ending, after)) (start : P fray) : P after := by
  have paid : P (fray.putIn stage tied []).2 := putIn_induction (pays stage) start
  rcases step_cases stage tied fray with ⟨same, -⟩ | ⟨winner, s, seated, active, won⟩
  · rw [← same, done] at paid
    exact paid
  · obtain ⟨-, rfl⟩ := Table.mem_of_seat? seated
    rw [done] at won
    cases won
    exact awards stage _ s paid seated active

/-- An award leaves its winner in the game. -/
theorem award_active {winner : PlayerId} {s : Seat} (stage : Stage)
    (seated : fray.table.seat? winner = some s) (active : s.isActive = true) :
    winner ∈ (fray.award stage winner).table.active := by
  have playing : winner ∈ (fray.table.give winner fray.prize).active :=
    Table.mem_active_give.mpr (Table.active_of_seat? seated active)
  unfold award
  dsimp only
  split
  · obtain ⟨t, place, -, rfl⟩ := Table.mem_active.mp playing
    exact Table.mem_active.mpr ⟨t.reinstate, Table.mem_modify.mpr ⟨t, place, by simp⟩, rfl, rfl⟩
  · exact playing

theorem war_of_failure {cause : Violation} (missing : fray.table.nextStage tied = .error cause) :
    fray.war tied = { ending := .failed cause, stages := [], fray } := by
  rw [war]
  split
  · next found => rw [missing] at found; cases found; rfl
  · next found => rw [missing] at found; cases found

theorem war_of_over {ending : WarEnd} {after : Fray} (kind : fray.table.nextStage tied = .ok stage)
    (done : fray.step stage tied = (.over ending, after)) :
    fray.war tied = { ending, stages := [stage], fray := after } := by
  rw [war]
  split
  · next found => rw [kind] at found; cases found
  · next found =>
    rw [kind] at found
    cases found
    split
    · next known => rw [done] at known; cases known; rfl
    · next known => rw [done] at known; cases known

theorem war_of_tied {leaders : List PlayerId} {after : Fray}
    (kind : fray.table.nextStage tied = .ok stage)
    (done : fray.step stage tied = (.tied leaders, after)) :
    fray.war tied = { after.war leaders with stages := stage :: (after.war leaders).stages } := by
  rw [war]
  split
  · next found => rw [kind] at found; cases found
  · next found =>
    rw [kind] at found
    cases found
    split
    · next known => rw [done] at known; cases known
    · next known => rw [done] at known; cases known; rfl

/-- A war is a failure to find the next step, or a step that ends it, or a step and then a war of
those still tied. -/
theorem war_recursion {M : List PlayerId → Fray → WarReport → Prop}
    (failure : ∀ tied (fray : Fray) cause, fray.table.nextStage tied = .error cause →
      M tied fray { ending := .failed cause, stages := [], fray })
    (ended : ∀ stage tied (fray : Fray) ending after, fray.table.nextStage tied = .ok stage →
      fray.step stage tied = (.over ending, after) →
      M tied fray { ending, stages := [stage], fray := after })
    (goes : ∀ stage tied (fray : Fray) leaders after, fray.table.nextStage tied = .ok stage →
      fray.step stage tied = (.tied leaders, after) → M leaders after (after.war leaders) →
      M tied fray { after.war leaders with stages := stage :: (after.war leaders).stages })
    (tied : List PlayerId) (fray : Fray) : M tied fray (fray.war tied) := by
  induction size : fray.table.hands.length using Nat.strong_induction_on
    generalizing tied fray with
  | h size ih =>
    cases kind : fray.table.nextStage tied with
    | error cause =>
      rw [war_of_failure kind]
      exact failure tied fray cause kind
    | ok stage =>
      rcases done : fray.step stage tied with ⟨leaders | ending, after⟩
      · rw [war_of_tied kind done]
        exact goes stage tied fray leaders after kind done
          (ih _ (size ▸ hands_lt_of_tied done) leaders after rfl)
      · rw [war_of_over kind done]
        exact ended stage tied fray ending after kind done

/-- What survives every stake and every award holds after a war. -/
theorem war_induction {P : Fray → Prop}
    (pays : ∀ stage fray s, P fray → fray.table.seat? s.id = some s → P (fray.pay stage s))
    (awards : ∀ stage fray s, P fray → fray.table.seat? s.id = some s → s.isActive = true →
      P (fray.award stage s.id))
    (start : P fray) : P (fray.war tied).fray := by
  refine war_recursion (M := fun _ fray report => P fray → P report.fray) ?_ ?_ ?_ tied fray start
  · intro tied fray cause _ start
    exact start
  · intro stage tied fray ending after _ done start
    exact step_induction pays awards done start
  · intro stage tied fray leaders after _ done rest start
    exact rest (step_induction pays awards done start)

/-- Stakes and awards keep a table sound, as an award goes to a player in the game. -/
theorem war_sound (sound : fray.table.Sound) : (fray.war tied).fray.table.Sound := by
  refine war_induction (P := fun fray => fray.table.Sound) (fun stage fray s sound _ => ?_)
    (fun stage fray s sound seated active => ?_) sound
  · exact sound.modify (fun _ => rfl) (fun t member _ out => sound.hand_play member out)
  · have given := sound.give fray.prize (Table.active_of_seat? seated active)
    unfold award
    dsimp only
    split
    · exact given.reinstate
    · exact given

/-- Whoever wins a war is in the game after it. -/
theorem war_won_active {winner : PlayerId} (won : (fray.war tied).ending = .won winner) :
    winner ∈ (fray.war tied).fray.table.active := by
  refine war_recursion
    (M := fun _ _ report => report.ending = .won winner → winner ∈ report.fray.table.active)
    ?_ ?_ ?_ tied fray won
  · intro tied fray cause _ won
    cases won
  · intro stage tied fray ending after _ done won
    obtain rfl : ending = .won winner := won
    rcases step_cases stage tied fray with ⟨-, lost⟩ | ⟨other, s, seated, active, awarded⟩
    · exact (lost winner (by rw [done])).elim
    · rw [done] at awarded
      cases awarded
      exact award_active stage seated active
  · intro stage tied fray leaders after _ _ rest won
    exact rest won

theorem fought_sound {table : Table} {prize : Pile} {report : WarReport} (sound : table.Sound)
    (fought : war tied { table, prize } = report) : report.fray.table.Sound := by
  subst fought
  exact war_sound sound

end Fray

/-! ### Stakes of named players -/

namespace Table

variable {table : Table} {stage : Stage}

/-- The table after the named players have put in what a stage takes. -/
def paying (stage : Stage) (ids : List PlayerId) (table : Table) : Table :=
  table.map fun s => if s.id ∈ ids then s.play stage else s

/-- The named players who put in what a stage asks for. -/
def entrants (stage : Stage) (ids : List PlayerId) (table : Table) : List Seat :=
  table.filter fun s => decide (s.id ∈ ids) && s.meets stage

/-- The cards that the named players put in, in the order of the names. -/
def stakesOf (stage : Stage) (ids : List PlayerId) (table : Table) : Pile :=
  ids.flatMap fun id => ((table.seat? id).map fun s => s.stake stage).getD []

theorem mem_entrants {ids : List PlayerId} {s : Seat} :
    s ∈ table.entrants stage ids ↔ s ∈ table ∧ s.id ∈ ids ∧ s.meets stage = true := by
  simp [entrants]

/-- Where nobody puts in what a stage asks for, nobody can. -/
theorem meets_of_nobody {ids : List PlayerId} {s : Seat} (nobody : table.entrants stage ids = [])
    (member : s ∈ table) (named : s.id ∈ ids) : s.meets stage = false := by
  cases able : s.meets stage with
  | false => rfl
  | true =>
    have enters := mem_entrants.mpr ⟨member, named, able⟩
    rw [nobody] at enters
    cases enters

theorem entrants_congr {ids others : List PlayerId}
    (alike : ∀ s ∈ table, s.id ∈ ids ↔ s.id ∈ others) :
    table.entrants stage ids = table.entrants stage others := by
  apply List.filter_congr
  intro s member
  rw [decide_eq_decide.mpr (alike s member)]

theorem seat?_paying (ids : List PlayerId) (id : PlayerId) :
    (table.paying stage ids).seat? id =
      (table.seat? id).map fun s => if s.id ∈ ids then s.play stage else s := by
  apply seat?_map
  intro s
  split <;> rfl

theorem Ascending.paying (ascending : table.Ascending) (ids : List PlayerId) :
    (table.paying stage ids).Ascending := by
  apply ascending.map
  intro s
  split <;> rfl

theorem Sound.paying (sound : table.Sound) (ids : List PlayerId) :
    (table.paying stage ids).Sound := by
  refine sound.map (fun s => ?_) (fun s member out => ?_)
  · split <;> rfl
  · split at out
    · next named => rw [if_pos named]; exact sound.hand_play member out
    · next unnamed => rw [if_neg unnamed]; exact sound.emptied s member out

theorem modify_paying {ids : List PlayerId} {id : PlayerId} (fresh : id ∉ ids) :
    (table.paying stage ids).modify id (fun s => s.play stage) =
      table.paying stage (ids ++ [id]) := by
  unfold modify paying
  rw [List.map_map]
  apply List.map_congr_left
  intro s _
  simp only [Function.comp_apply, List.mem_append, List.mem_singleton]
  by_cases named : s.id ∈ ids
  · have unlike : s.id ≠ id := fun same => fresh (same ▸ named)
    simp [named, unlike]
  · simp [named]

/-- Recording one more entrant keeps the stakes in the order of the table. -/
theorem put_entrants {ids : List PlayerId} {s : Seat} (ascending : table.Ascending)
    (member : s ∈ table) (fresh : s.id ∉ ids) (able : s.meets stage = true) :
    Stakes.put s.id (s.stake stage) ((table.entrants stage ids).map fun s => (s.id, s.stake stage)) =
      (table.entrants stage (ids ++ [s.id])).map fun s => (s.id, s.stake stage) := by
  induction table with
  | nil => simp at member
  | cons first rest ih =>
    obtain ⟨above, ordered⟩ := List.pairwise_cons.mp ascending
    rcases List.mem_cons.mp member with rfl | behind
    · -- everybody recorded sits above the new entrant
      have others : Table.entrants stage (ids ++ [s.id]) rest = Table.entrants stage ids rest := by
        apply entrants_congr
        intro t place
        have unlike : t.id ≠ s.id := (PlayerId.ne_of_lt (above t place)).symm
        simp [unlike]
      have front : Table.entrants stage ids (s :: rest) = Table.entrants stage ids rest := by
        simp [entrants, fresh]
      have now : Table.entrants stage (ids ++ [s.id]) (s :: rest) =
          s :: Table.entrants stage ids rest := by
        rw [← others]
        simp [entrants, able]
      rw [front, now, List.map_cons]
      cases known : Table.entrants stage ids rest with
      | nil => rfl
      | cons t later =>
        have place : t ∈ Table.entrants stage ids rest := by simp [known]
        rw [List.map_cons, Stakes.put, if_pos (above t (mem_entrants.mp place).1)]
    · have less := above s behind
      have unlike : first.id ≠ s.id := PlayerId.ne_of_lt less
      have notAbove : ¬ s.id < first.id := fun less' =>
        PlayerId.lt_irrefl _ (PlayerId.lt_trans less less')
      have carried := ih ordered behind
      simp only [entrants, List.filter_cons, List.mem_append, List.mem_singleton, unlike,
        or_false] at carried ⊢
      split
      · rw [List.map_cons, Stakes.put, if_neg notAbove, if_neg unlike.symm, carried, List.map_cons]
      · exact carried

end Table

namespace Fray

variable {stage : Stage} {tied : List PlayerId} {table : Table} {prize : Pile}

theorem putIn_named {paid : List PlayerId} (ascending : table.Ascending)
    (distinct : (paid ++ tied).Nodup) (seated : ∀ id ∈ tied, ∃ s, table.seat? id = some s) :
    putIn stage tied ((table.entrants stage paid).map fun s => (s.id, s.stake stage))
        { table := table.paying stage paid, prize } =
      (.ok ((table.entrants stage (paid ++ tied)).map fun s => (s.id, s.stake stage)),
        { table := table.paying stage (paid ++ tied)
          prize := prize ++ table.stakesOf stage tied }) := by
  induction tied generalizing paid prize with
  | nil => simp [putIn, Table.stakesOf]
  | cons id rest ih =>
    obtain ⟨s, here⟩ := seated id List.mem_cons_self
    obtain ⟨member, rfl⟩ := Table.mem_of_seat? here
    have fresh : s.id ∉ paid := fun before =>
      (List.nodup_append.mp distinct).2.2 _ before _ List.mem_cons_self rfl
    have found : (table.paying stage paid).seat? s.id = some s := by
      rw [Table.seat?_paying, here, Option.map_some, if_neg fresh]
    have recorded :
        (if s.meets stage = true then
          Stakes.put s.id (s.stake stage)
            ((table.entrants stage paid).map fun s => (s.id, s.stake stage))
        else (table.entrants stage paid).map fun s => (s.id, s.stake stage)) =
          (table.entrants stage (paid ++ [s.id])).map fun s => (s.id, s.stake stage) := by
      by_cases able : s.meets stage = true
      · rw [if_pos able, Table.put_entrants ascending member fresh able]
      · rw [if_neg able]
        refine congrArg (List.map _) (List.filter_congr fun t place => ?_)
        by_cases same : t.id = s.id
        · rw [ascending.eq_of_id place member same]
          simp [able]
        · simp [same]
    have order : paid ++ s.id :: rest = paid ++ [s.id] ++ rest := by simp
    have own : table.stakesOf stage (s.id :: rest) =
        s.stake stage ++ table.stakesOf stage rest := by
      simp [Table.stakesOf, here]
    simp only [putIn, found]
    rw [recorded, Table.modify_paying fresh, order, own, ← List.append_assoc prize]
    exact ih (order ▸ distinct) fun id later => seated id (List.mem_cons_of_mem _ later)

/-- The fray after the tied players have put in what a stage takes. -/
def staked (stage : Stage) (tied : List PlayerId) (fray : Fray) : Fray :=
  { table := fray.table.paying stage tied
    prize := fray.prize ++ fray.table.stakesOf stage tied }

variable {fray : Fray}

theorem putIn_distinct (stage : Stage) (ascending : fray.table.Ascending) (distinct : tied.Nodup)
    (seated : ∀ id ∈ tied, ∃ s, fray.table.seat? id = some s) :
    fray.putIn stage tied [] =
      (.ok ((fray.table.entrants stage tied).map fun s => (s.id, s.stake stage)),
        fray.staked stage tied) := by
  have nobody : fray.table.entrants stage [] = [] := by simp [Table.entrants]
  have same : fray.table.paying stage [] = fray.table := by simp [Table.paying]
  have all := @putIn_named stage tied fray.table fray.prize [] ascending distinct seated
  rw [nobody, same] at all
  exact all

/-! ### A step in closed form -/

theorem meets_isActive (sound : table.Sound) {s : Seat} (member : s ∈ table)
    (able : s.meets stage = true) : s.isActive = true := by
  cases active : s.isActive with
  | true => rfl
  | false =>
    have none := sound.emptied s member active
    cases stage <;> simp [Seat.meets, none, fullStake] at able

/-- Players who put in what a step asks for are in the game, as nobody else has a card. -/
theorem entrants_playing (sound : table.Sound) :
    ∀ s ∈ table.entrants stage tied, s.isActive = true := fun _ member =>
  meets_isActive sound (Table.mem_entrants.mp member).1 (Table.mem_entrants.mp member).2.2

section

variable (ascending : fray.table.Ascending)
  (playing : ∀ s ∈ fray.table.entrants stage tied, s.isActive = true)

include ascending playing

theorem rankLeaders_staked :
    (fray.staked stage tied).table.rankLeaders
        ((fray.table.entrants stage tied).map fun s => (s.id, s.stake stage)) =
      .ok ((bestBy (fun s => Table.faceValue (s.stake stage)) (fray.table.entrants stage tied)).map
        (·.id)) := by
  refine Table.rankLeaders_entrants (ascending.sublist List.filter_sublist) (fun s member => ?_)
    (fun s member => ?_)
  · obtain ⟨place, named, able⟩ := Table.mem_entrants.mp member
    refine ⟨s.play stage, ?_, ?_⟩
    · simp only [staked]
      rw [Table.seat?_paying, Table.seat?_of_mem ascending place, Option.map_some, if_pos named]
    · rw [Seat.isActive_play, able, playing s member, Bool.true_and]
  · exact Seat.stake_ne_nil (Table.mem_entrants.mp member).2.2

variable (distinct : tied.Nodup) (seated : ∀ id ∈ tied, ∃ s, fray.table.seat? id = some s)

include distinct seated

omit playing in
theorem step_of_nobody (nobody : fray.table.entrants stage tied = []) :
    fray.step stage tied = (.over (.drawn tied), fray.staked stage tied) := by
  unfold step
  rw [putIn_distinct stage ascending distinct seated, nobody]
  rfl

theorem step_of_best {w : Seat}
    (best : bestBy (fun s => Table.faceValue (s.stake stage)) (fray.table.entrants stage tied) =
      [w]) :
    fray.step stage tied = (.over (.won w.id), (fray.staked stage tied).award stage w.id) := by
  have leads := rankLeaders_staked ascending playing
  unfold step
  rw [putIn_distinct stage ascending distinct seated]
  rw [best] at leads
  cases known : fray.table.entrants stage tied with
  | nil => simp [known, bestBy] at best
  | cons first rest =>
    rw [known] at leads
    simp only [List.map_cons] at leads ⊢
    rw [leads]
    rfl

theorem step_of_ties {w v : Seat} {others : List Seat}
    (best : bestBy (fun s => Table.faceValue (s.stake stage)) (fray.table.entrants stage tied) =
      w :: v :: others) :
    fray.step stage tied =
      (.tied ((w :: v :: others).map (·.id)), fray.staked stage tied) := by
  have leads := rankLeaders_staked ascending playing
  unfold step
  rw [putIn_distinct stage ascending distinct seated]
  rw [best] at leads
  cases known : fray.table.entrants stage tied with
  | nil => simp [known, bestBy] at best
  | cons first rest =>
    rw [known] at leads
    simp only [List.map_cons] at leads ⊢
    rw [leads]

/-- A step is drawn if nobody puts in what it asks for, it is won by a player who leads alone, and
otherwise those who lead are tied. -/
theorem step_shape :
    (fray.table.entrants stage tied = [] ∧
        fray.step stage tied = (.over (.drawn tied), fray.staked stage tied)) ∨
      (∃ w ∈ fray.table.entrants stage tied,
        fray.step stage tied = (.over (.won w.id), (fray.staked stage tied).award stage w.id)) ∨
      ∃ leaders : List Seat, 2 ≤ leaders.length ∧
        leaders.Sublist (fray.table.entrants stage tied) ∧
        fray.step stage tied = (.tied (leaders.map (·.id)), fray.staked stage tied) := by
  have within := bestBy_sublist (fun s => Table.faceValue (s.stake stage))
    (fray.table.entrants stage tied)
  rcases best : bestBy (fun s => Table.faceValue (s.stake stage)) (fray.table.entrants stage tied)
    with _ | ⟨w, _ | ⟨v, others⟩⟩
  · have nobody : fray.table.entrants stage tied = [] :=
      by_contra fun some => bestBy_ne_nil some best
    exact .inl ⟨nobody, step_of_nobody ascending distinct seated nobody⟩
  · rw [best] at within
    exact .inr (.inl ⟨w, within.subset (by simp), step_of_best ascending playing distinct seated best⟩)
  · rw [best] at within
    exact .inr (.inr ⟨_, by simp, within, step_of_ties ascending playing distinct seated best⟩)

end

section

variable {leaders : List Seat} {s : Seat} (ascending : fray.table.Ascending)
  (within : leaders.Sublist (fray.table.entrants stage tied))

include ascending within

theorem nodup_leaders : (leaders.map (·.id)).Nodup :=
  ascending.nodup_ids.sublist ((within.trans List.filter_sublist).map _)

theorem seat?_leader (leads : s ∈ leaders) :
    (fray.staked stage tied).table.seat? s.id = some (s.play stage) := by
  obtain ⟨member, named, -⟩ := Table.mem_entrants.mp (within.subset leads)
  unfold staked
  rw [Table.seat?_paying, Table.seat?_of_mem ascending member, Option.map_some, if_pos named]

end

/-- A war step is full as long as some tied player can afford it. -/
theorem nextStage_cases (seated : ∀ id ∈ tied, ∃ s, table.seat? id = some s) :
    ∃ stage, table.nextStage tied = .ok stage ∧
      (stage = .full ∧ (∃ id ∈ tied, ∃ s, table.seat? id = some s ∧ s.meets .full = true) ∨
        stage = .limited ∧ ∀ id ∈ tied, ∀ s, table.seat? id = some s → s.meets .full = false) := by
  induction tied with
  | nil => exact ⟨.limited, rfl, .inr ⟨rfl, by simp⟩⟩
  | cons id rest ih =>
    obtain ⟨s, here⟩ := seated id List.mem_cons_self
    simp only [Table.nextStage, here]
    cases rich : s.meets .full with
    | true => exact ⟨.full, rfl, .inl ⟨rfl, id, List.mem_cons_self, s, here, rich⟩⟩
    | false =>
      obtain ⟨stage, known, kind⟩ := ih fun other member =>
        seated other (List.mem_cons_of_mem id member)
      refine ⟨stage, known, kind.imp ?_ ?_⟩
      · rintro ⟨full, other, member, found⟩
        exact ⟨full, other, List.mem_cons_of_mem id member, found⟩
      · rintro ⟨limited, poor⟩
        refine ⟨limited, fun other member t found => ?_⟩
        rcases List.mem_cons.mp member with rfl | behind
        · rw [here] at found
          exact Option.some.inj found ▸ rich
        · exact poor other behind t found

end Fray

end WarGame
