import WarGame.Proofs.Elimination
import WarGame.Proofs.HighCards

/-!
# Wars between players named in any order

A war can be called between any players, tied or not. One who is not at the table makes it fail in
its first step, and nothing else does: otherwise one of the players named wins, or the war is drawn
and whoever is left tied is out. Everybody else only looks on.
-/

namespace WarGame

theorem Stakes.mem_of_put {played : Stakes} {id : PlayerId} {cards : Pile}
    {entry : PlayerId × Pile} (member : entry ∈ played.put id cards) :
    entry = (id, cards) ∨ entry ∈ played := by
  induction played with
  | nil => exact .inl (List.mem_singleton.mp member)
  | cons first rest ih =>
    simp only [put] at member
    split at member
    · exact List.mem_cons.mp member
    · split at member
      · exact (List.mem_cons.mp member).imp_right (List.mem_cons_of_mem first)
      · rcases List.mem_cons.mp member with here | behind
        · exact .inr (here ▸ List.mem_cons_self)
        · exact (ih behind).imp_right (List.mem_cons_of_mem first)

/-- Whoever leads on rank put cards in. -/
theorem Table.rankLeaders_among {table : Table} {played : Stakes} {leaders : List PlayerId}
    (done : table.rankLeaders played = .ok leaders) {id : PlayerId} (leads : id ∈ leaders) :
    id ∈ played.map (·.1) := by
  rw [Comparison.rankLeaders_eq, Comparison.leaders, Comparison.read] at done
  split at done
  · cases done
  · cases done
    obtain ⟨entry, best, rfl⟩ := List.mem_map.mp leads
    obtain ⟨source, member, shows⟩ := List.mem_filterMap.mp (mem_bestBy.mp best).1
    obtain ⟨c, -, rfl⟩ := Option.map_eq_some_iff.mp shows
    exact List.mem_map_of_mem ((Stakes.sorted_perm played).mem_iff.mp member)

namespace Fray

variable {stage : Stage} {tied leaders : List PlayerId} {fray after : Fray} {played next : Stakes}
variable {ending : StepEnd} {id : PlayerId}

/-! ### Those who look on -/

theorem putIn_bystander (stage : Stage) (played : Stakes) (fray : Fray) (away : id ∉ tied) :
    (fray.putIn stage tied played).2.table.seat? id = fray.table.seat? id := by
  induction tied generalizing played fray with
  | nil => rfl
  | cons first rest ih =>
    obtain ⟨unlike, behind⟩ : id ≠ first ∧ id ∉ rest := by simpa using away
    simp only [putIn]
    split
    · rfl
    · next s seated =>
      rw [ih _ _ behind, Table.seat?_modify_of_ne (fun t => t.id_play stage) unlike]

theorem putIn_prize : fray.prize <+: (fray.putIn stage tied played).2.prize :=
  putIn_induction (P := fun later => fray.prize <+: later.prize)
    (fun _ _ before _ => before.trans (List.prefix_append _ _)) (List.prefix_refl _)

theorem putIn_among (done : fray.putIn stage tied played = (.ok next, after)) :
    ∀ entry ∈ next, entry ∈ played ∨ entry.1 ∈ tied := by
  induction tied generalizing played fray with
  | nil =>
    cases done
    exact fun entry member => .inl member
  | cons first rest ih =>
    simp only [putIn] at done
    split at done
    · cases done
    · intro entry member
      rcases ih done entry member with earlier | later
      · split at earlier
        · rcases Stakes.mem_of_put earlier with own | before
          · exact .inr (own ▸ List.mem_cons_self)
          · exact .inl before
        · exact .inl earlier
      · exact .inr (List.mem_cons_of_mem first later)

/-- Whoever wins a step or stays tied was tied before it. -/
theorem step_among (done : fray.step stage tied = (ending, after)) :
    (∀ w, ending = .over (.won w) → w ∈ tied) ∧
      ∀ leaders, ending = .tied leaders → leaders ⊆ tied := by
  unfold step at done
  split at done
  · cases done
    simp
  · cases done
    simp
  · next played later some putting =>
    have among {leaders : List PlayerId} (leads : later.table.rankLeaders played = .ok leaders) :
        leaders ⊆ tied := by
      intro id member
      obtain ⟨entry, place, rfl⟩ := List.mem_map.mp (Table.rankLeaders_among leads member)
      simpa using putIn_among putting entry place
    split at done
    · cases done
      simp
    · cases done
      simp
    · next winner leads =>
      cases done
      simpa using among leads List.mem_cons_self
    · next leaders _ _ leads =>
      cases done
      simpa using among leads

theorem seat?_award (stage : Stage) {winner : PlayerId} (unlike : id ≠ winner) :
    (fray.award stage winner).table.seat? id = fray.table.seat? id := by
  have given : (fray.table.give winner fray.prize).seat? id = fray.table.seat? id :=
    Table.seat?_modify_of_ne (fun s => s.id_receive fray.prize) unlike
  unfold award
  dsimp only
  split
  · exact (Table.seat?_modify_of_ne (fun s => s.id_withStanding .active) unlike).trans given
  · exact given

theorem step_bystander (done : fray.step stage tied = (ending, after)) (away : id ∉ tied) :
    after.table.seat? id = fray.table.seat? id := by
  have paid := putIn_bystander stage [] fray away
  rcases step_cases stage tied fray with ⟨same, -⟩ | ⟨winner, s, -, -, won⟩
  · rw [done] at same
    rw [← paid, ← same]
  · rw [done] at won
    cases won
    have named : winner ∈ tied := (step_among done).1 winner rfl
    have unlike : id ≠ winner := fun same => away (same ▸ named)
    rw [seat?_award stage unlike, paid]

theorem step_prize (done : fray.step stage tied = (ending, after))
    (lost : ∀ w, ending ≠ .over (.won w)) : fray.prize <+: after.prize := by
  rcases step_cases stage tied fray with ⟨same, -⟩ | ⟨winner, s, -, -, won⟩
  · rw [done] at same
    obtain rfl : after = (fray.putIn stage tied []).2 := same
    exact putIn_prize
  · rw [done] at won
    cases won
    exact (lost winner rfl).elim

/-- A war changes nobody but the players named. -/
theorem war_bystander (away : id ∉ tied) :
    (fray.war tied).fray.table.seat? id = fray.table.seat? id := by
  refine war_recursion (M := fun tied fray report => id ∉ tied →
    report.fray.table.seat? id = fray.table.seat? id) ?_ ?_ ?_ tied fray away
  · intro tied fray cause _ away
    rfl
  · intro stage tied fray ending after _ done away
    exact step_bystander done away
  · intro stage tied fray leaders after _ done rest away
    have among := (step_among done).2 leaders rfl
    exact (rest fun still => away (among still)).trans (step_bystander done away)

/-- A war that nobody wins only adds to the prize. -/
theorem war_prize (fray : Fray) (lost : ∀ w, (fray.war tied).ending ≠ .won w) :
    fray.prize <+: (fray.war tied).fray.prize := by
  refine war_recursion (M := fun _ fray report => (∀ w, report.ending ≠ .won w) →
    fray.prize <+: report.fray.prize) ?_ ?_ ?_ tied fray lost
  · intro tied fray cause _ lost
    exact List.prefix_refl _
  · intro stage tied fray ending after _ done lost
    exact step_prize done fun w won => lost w (StepEnd.over.inj won)
  · intro stage tied fray leaders after _ done rest lost
    exact (step_prize done (by simp)).trans (rest lost)

end Fray

/-! ### Those who are missing -/

namespace Table

variable {table : Table} {tied : List PlayerId} {id : PlayerId}

/-- The first of the players named who is not at the table. -/
def firstMissing (table : Table) (tied : List PlayerId) : Option PlayerId :=
  tied.find? fun id => (table.seat? id).isNone

theorem firstMissing_eq_none :
    table.firstMissing tied = none ↔ ∀ id ∈ tied, ∃ s, table.seat? id = some s := by
  simp [firstMissing, Option.ne_none_iff_exists']

theorem firstMissing_modify {other : PlayerId} {stage : Stage} :
    (table.modify other fun s => s.play stage).firstMissing tied = table.firstMissing tied := by
  unfold firstMissing
  simp only [seat?_modify fun s : Seat => s.id_play stage, Option.isNone_map]

theorem nextStage_of_missing (missing : table.firstMissing tied = some id) :
    table.nextStage tied = .error (.notSeated id) ∨ table.nextStage tied = .ok .full := by
  induction tied with
  | nil => cases missing
  | cons first rest ih =>
    simp only [nextStage]
    cases seated : table.seat? first with
    | none =>
      have here : first = id := by simpa [firstMissing, seated] using missing
      exact .inl (by rw [here])
    | some s =>
      have behind : table.firstMissing rest = some id := by
        simpa [firstMissing, seated] using missing
      cases rich : s.meets .full with
      | true => simp [rich]
      | false => simpa [rich] using ih behind

end Table

namespace Fray

variable {stage : Stage} {tied : List PlayerId} {fray : Fray} {id : PlayerId}

theorem putIn_of_missing (stage : Stage) (played : Stakes)
    (missing : fray.table.firstMissing tied = some id) :
    (fray.putIn stage tied played).1 = .error (.notSeated id) := by
  induction tied generalizing played fray with
  | nil => cases missing
  | cons first rest ih =>
    simp only [putIn]
    cases seated : fray.table.seat? first with
    | none =>
      have here : first = id := by simpa [Table.firstMissing, seated] using missing
      rw [here]
    | some s =>
      apply ih
      rw [Table.firstMissing_modify]
      simpa [Table.firstMissing, seated] using missing

/-- The first player who is missing makes the war fail, if only after others have put cards in. -/
theorem war_of_missing (missing : fray.table.firstMissing tied = some id) :
    (fray.war tied).ending = .failed (.notSeated id) := by
  rcases Table.nextStage_of_missing missing with failed | kind
  · rw [war_of_failure failed]
  · have refused := putIn_of_missing .full [] missing
    rcases putting : fray.putIn .full tied [] with ⟨answer, after⟩
    have done : fray.step .full tied = (.over (.failed (.notSeated id)), after) := by
      rw [putting] at refused
      rw [step, putting, show answer = .error (.notSeated id) from refused]
    rw [war_of_over kind done]

/-! ### Those who are there -/

/-- A war among players at the table is won by one in the game, or whoever is left tied is out. -/
def Fair (tied : List PlayerId) (before : Table) (report : WarReport) : Prop :=
  (∃ w ∈ tied, w ∈ before.active ∧ report.ending = .won w) ∨
    ∃ players, players.Nodup ∧ players ⊆ tied ∧ report.ending = .drawn players ∧
      ∀ id ∈ players, ∃ s, report.fray.table.seat? id = some s ∧ s.isActive = false ∧ s.hand = []

theorem seat?_of_nobody (sound : fray.table.Sound)
    (seated : ∀ id ∈ tied, ∃ s, fray.table.seat? id = some s)
    (nobody : fray.table.entrants stage tied = []) (named : id ∈ tied) :
    ∃ s, (fray.staked stage tied).table.seat? id = some s ∧ s.isActive = false ∧ s.hand = [] := by
  obtain ⟨s, here⟩ := seated id named
  obtain ⟨member, rfl⟩ := Table.mem_of_seat? here
  have unable := Table.meets_of_nobody nobody member named
  refine ⟨s.play stage, ?_, ?_, Seat.hand_play_of_not_meets (sound.emptied s member) unable⟩
  · unfold staked
    rw [Table.seat?_paying, here, Option.map_some, if_pos named]
  · rw [Seat.isActive_play, unable, Bool.false_and]

theorem Fair.of_leaders {table : Table} {leaders : List Seat} {report : WarReport}
    (sound : table.Sound) (within : leaders.Sublist (table.entrants stage tied))
    (fair : Fair (leaders.map (·.id)) (table.paying stage tied) report) :
    Fair tied table report := by
  have among : ∀ id ∈ leaders.map (·.id), id ∈ tied ∧ id ∈ table.active := by
    intro id named
    obtain ⟨s, leads, rfl⟩ := List.mem_map.mp named
    obtain ⟨member, entered, able⟩ := Table.mem_entrants.mp (within.subset leads)
    exact ⟨entered, Table.mem_active.mpr ⟨s, member, meets_isActive sound member able, rfl⟩⟩
  rcases fair with ⟨w, named, -, won⟩ | ⟨players, distinct, left, drawn, out⟩
  · exact .inl ⟨w, (among w named).1, (among w named).2, won⟩
  · exact .inr ⟨players, distinct, fun id member => (among id (left member)).1, drawn, out⟩

theorem war_fair (fray : Fray) (sound : fray.table.Sound) (distinct : tied.Nodup)
    (seated : ∀ id ∈ tied, ∃ s, fray.table.seat? id = some s) :
    Fair tied fray.table (fray.war tied) := by
  refine war_recursion (M := fun tied fray report => fray.table.Sound → tied.Nodup →
    (∀ id ∈ tied, ∃ s, fray.table.seat? id = some s) → Fair tied fray.table report)
    ?_ ?_ ?_ tied fray sound distinct seated
  · intro tied fray cause failed sound distinct seated
    obtain ⟨stage, known, -⟩ := nextStage_cases seated
    rw [failed] at known
    cases known
  · intro stage tied fray ending after kind done sound distinct seated
    rcases step_shape sound.ascending (entrants_playing sound) distinct seated with
      ⟨nobody, drawn⟩ | ⟨w, enters, won⟩ | ⟨leaders, -, -, tie⟩
    · rw [done] at drawn
      cases drawn
      exact .inr ⟨tied, distinct, List.Subset.refl _, rfl, fun id named =>
        seat?_of_nobody sound seated nobody named⟩
    · rw [done] at won
      cases won
      obtain ⟨member, named, able⟩ := Table.mem_entrants.mp enters
      have active := meets_isActive sound member able
      exact .inl ⟨w.id, named, Table.mem_active.mpr ⟨w, member, active, rfl⟩, rfl⟩
    · rw [done] at tie
      cases tie
  · intro stage tied fray leaders after kind done rest sound distinct seated
    rcases step_shape sound.ascending (entrants_playing sound) distinct seated with
      ⟨-, drawn⟩ | ⟨w, -, won⟩ | ⟨seats, -, within, tie⟩
    · rw [done] at drawn
      cases drawn
    · rw [done] at won
      cases won
    · -- Soundness and the seats pass to the leaders of a tie, who were all in the game before.
      rw [done] at tie
      cases tie
      have next := nodup_leaders sound.ascending within
      refine .of_leaders sound within (rest (sound.paying tied) next fun id named => ?_)
      obtain ⟨s, leads, rfl⟩ := List.mem_map.mp named
      exact ⟨s.play stage, seat?_leader sound.ascending within leads⟩

theorem war_failed_iff (fray : Fray) {cause : Violation} (sound : fray.table.Sound)
    (distinct : tied.Nodup) :
    (fray.war tied).ending = .failed cause ↔
      ∃ id, fray.table.firstMissing tied = some id ∧ cause = .notSeated id := by
  cases missing : fray.table.firstMissing tied with
  | some id => simp [war_of_missing missing, eq_comm]
  | none =>
    rcases war_fair fray sound distinct (Table.firstMissing_eq_none.mp missing) with
      ⟨w, -, -, won⟩ | ⟨players, -, -, drawn, -⟩
    · simp [won]
    · simp [drawn]

end Fray

theorem WarEnd.toExcept_violation_iff {ending : WarEnd} {cause : Violation} :
    ending.toExcept = .error (.violation cause) ↔ ending = .failed cause := by
  cases ending <;> simp [toExcept]

/-! ### Wars of a game -/

namespace Game

variable {g after : Game} {tied : List PlayerId} {prize left : Pile}
variable {result : Except GameError PlayerId}

/-- What a war between players comes to, when each is named once. -/
structure WarCall (g : Game) (tied : List PlayerId) (prize : Pile)
    (result : Except GameError PlayerId) (left : Pile) (after : Game) : Prop where
  failed_iff : (∃ cause, result = .error (.violation cause)) ↔ ∃ id ∈ tied, g.table.seat? id = none
  /-- The failure names the first player who is missing. -/
  missing : ∀ cause, result = .error (.violation cause) → ∃ id,
    g.table.firstMissing tied = some id ∧ cause = .notSeated id
  ended : (∀ id ∈ tied, g.table.seat? id ≠ none) →
    (∃ w ∈ tied, w ∈ g.table.active ∧ result = .ok w) ∨
      ∃ players, players.Subperm tied ∧ result = .error (.drawnWar players) ∧
        ∀ id ∈ players, ∃ s, after.table.seat? id = some s ∧ s.isEliminated = true ∧ s.hand = []
  bystanders : ∀ id ∉ tied, after.table.seat? id = g.table.seat? id
  frame : after = { g with table := after.table }
  prize : (∀ w, result ≠ .ok w) → prize <+: left

theorem warCall_of_reachable (reachable : Reachable g) (distinct : tied.Nodup)
    (fought : g.goToWar tied prize = (result, left, after)) :
    WarCall g tied prize result left after := by
  have sound := reachable.sound.table
  cases fought
  have failed_iff (cause : Violation) :
      (Fray.war tied { table := g.table, prize }).ending.toExcept = .error (.violation cause) ↔
        ∃ id, g.table.firstMissing tied = some id ∧ cause = .notSeated id := by
    rw [WarEnd.toExcept_violation_iff]
    exact Fray.war_failed_iff { table := g.table, prize } sound distinct
  constructor
  case failed_iff =>
    simp only [failed_iff]
    constructor
    · intro failed
      obtain ⟨cause, id, missing, -⟩ := failed
      have absent := List.find?_some missing
      exact ⟨id, List.mem_of_find?_eq_some missing, by simpa using absent⟩
    · intro missing
      obtain ⟨id, named, absent⟩ := missing
      cases first : g.table.firstMissing tied with
      | some other => exact ⟨_, other, rfl, rfl⟩
      | none =>
        obtain ⟨s, seated⟩ := Table.firstMissing_eq_none.mp first id named
        rw [absent] at seated
        cases seated
  case missing => exact fun cause => (failed_iff cause).mp
  case ended =>
    intro all
    have seated := fun id named => Option.ne_none_iff_exists'.mp (all id named)
    rcases Fray.war_fair { table := g.table, prize } sound distinct seated with
      ⟨w, named, active, won⟩ | ⟨players, alone, within, drawn, out⟩
    · exact .inl ⟨w, named, active, by rw [won]; rfl⟩
    · refine .inr ⟨players, List.subperm_of_subset alone within, by rw [drawn]; rfl, ?_⟩
      intro id member
      obtain ⟨s, here, idle, none⟩ := out id member
      exact ⟨s, here, by rw [Seat.isEliminated_eq, idle]; rfl, none⟩
  case bystanders => exact fun id away => Fray.war_bystander away
  case frame => rfl
  case prize =>
    intro lost
    exact Fray.war_prize { table := g.table, prize } fun w won => lost w (by rw [won]; rfl)

/-- The three players are named in another order, for a prize of the cards in a pack. -/
theorem warCall_tiedThree : ∃ tied result left after, Reachable tiedThree ∧ tied.Nodup ∧
    tiedThree.goToWar tied Pile.pack = (result, left, after) ∧
      WarCall tiedThree tied Pile.pack result left after := by
  have distinct : (trio.reverse.map fun p => p.id).Nodup := by decide
  exact ⟨_, _, _, _, tiedThree_reachable, distinct, rfl,
    warCall_of_reachable tiedThree_reachable distinct rfl⟩

end Game

end WarGame
