import WarGame.Proofs.RoundLaw

/-!
# The course of a war

The war of a round is followed in the hands as they are before the round. A player still tied
before step `n` has put in the opening card and `n` full stakes, so what is left is the hand
without its first `1 + 2 * n` cards. Who puts in what the step asks for and who leads it can be
read off the hands, and the war does what they say until fewer than two players are tied.
-/

namespace WarGame

namespace Seat

/-- What a player who has put in the opening card and `n` full stakes has left. -/
def left (n : Nat) (s : Seat) : Pile := s.hand.drop (1 + fullStake * n)

theorem left_succ (n : Nat) (s : Seat) : s.left (n + 1) = (s.left n).drop fullStake := by
  rw [left, left, List.drop_drop]
  rfl

/-- A stake of two cards, or of what there is, leaves the rest of the hand. -/
theorem hand_play_of_stake {s : Seat} {stage : Stage}
    (stake : s.stake stage = s.hand.take fullStake) :
    (s.play stage).hand = s.hand.drop fullStake := by
  have whole := s.stake_append_hand stage
  rw [stake] at whole
  exact List.append_cancel_left (whole.trans (List.take_append_drop fullStake s.hand).symm)

end Seat

namespace Table

variable {table : Table} {s : Seat} {n : Nat}

/-- The tied players who put in what step `n` of a war asks for: two cards if one of them has two
left, and otherwise any card. -/
def payers (n : Nat) (tied : List Seat) : List Seat :=
  if tied.any fun s => fullStake ≤ (s.left n).length then
    tied.filter fun s => fullStake ≤ (s.left n).length
  else tied.filter fun s => !(s.left n).isEmpty

/-- The players still tied before step `n` of the war of a round. The war is over when there are
fewer than two. -/
def tiedAt (table : Table) : Nat → List Seat
  | 0 => bestBy (fun s => faceValue (s.hand.take 1)) table.contenders
  | n + 1 => bestBy (fun s => faceValue ((s.left n).take fullStake)) (payers n (table.tiedAt n))

/-- The cards that a player puts in before step `n`: the opening card, and two at each step that
finds the player tied, or what is left if that is less. -/
def paid (table : Table) : Nat → Seat → Pile
  | 0, s => if s.isActive then s.hand.take 1 else []
  | n + 1, s =>
    table.paid n s ++ if s ∈ table.tiedAt n then (s.left n).take fullStake else []

/-- The cards at stake before step `n`, player by player and step by step. -/
def pot (table : Table) : Nat → Pile
  | 0 => table.flatMap fun s => table.paid 0 s
  | n + 1 => table.pot n ++ (table.tiedAt n).flatMap fun s => (s.left n).take fullStake

/-! ### Who is tied -/

theorem mem_payers {tied : List Seat} :
    s ∈ payers n tied ↔ s ∈ tied ∧ s.left n ≠ [] ∧
      ((∃ t ∈ tied, fullStake ≤ (t.left n).length) → fullStake ≤ (s.left n).length) := by
  unfold payers
  split
  · next rich =>
    have some : ∃ t ∈ tied, fullStake ≤ (t.left n).length := by simpa using rich
    simp only [List.mem_filter, decide_eq_true_eq, some, forall_const]
    refine and_congr_right fun _ => ⟨fun enough => ⟨?_, enough⟩, fun known => known.2⟩
    rintro none
    simp [none, fullStake] at enough
  · next poor =>
    have none : ¬ ∃ t ∈ tied, fullStake ≤ (t.left n).length := by simpa using poor
    simp [none]

theorem payers_sublist (n : Nat) (tied : List Seat) : (payers n tied).Sublist tied := by
  unfold payers
  split <;> exact List.filter_sublist

theorem payers_eq_nil {tied : List Seat} : payers n tied = [] ↔ ∀ s ∈ tied, s.left n = [] := by
  constructor
  · intro nobody s member
    by_contra some
    unfold payers at nobody
    split at nobody
    · next rich =>
      obtain ⟨t, place, enough⟩ := List.any_eq_true.mp rich
      exact absurd enough (List.filter_eq_nil_iff.mp nobody t place)
    · have none := List.filter_eq_nil_iff.mp nobody s member
      simp [some] at none
  · intro none
    apply List.eq_nil_iff_forall_not_mem.mpr
    intro s member
    obtain ⟨place, some, -⟩ := mem_payers.mp member
    exact some (none s place)

theorem tiedAt_succ_sublist (table : Table) (n : Nat) :
    (table.tiedAt (n + 1)).Sublist (payers n (table.tiedAt n)) := bestBy_sublist _ _

theorem tiedAt_sublist (table : Table) (n : Nat) : (table.tiedAt n).Sublist table.contenders := by
  induction n with
  | zero => exact bestBy_sublist _ _
  | succ n ih => exact ((tiedAt_succ_sublist table n).trans (payers_sublist n _)).trans ih

theorem tiedAt_sublist_table (table : Table) (n : Nat) : (table.tiedAt n).Sublist table :=
  (tiedAt_sublist table n).trans List.filter_sublist

/-- Whoever is tied before a step was tied before the steps before it. -/
theorem tiedAt_sublist_of_le {m : Nat} (within : m ≤ n) :
    (table.tiedAt n).Sublist (table.tiedAt m) := by
  induction within with
  | refl => exact .refl _
  | step _ ih => exact ((tiedAt_succ_sublist table _).trans (payers_sublist _ _)).trans ih

/-- Whoever is tied before a step has put in what the steps before it asked for. -/
theorem mem_payers_of_tied {m : Nat} (before : m < n) (tied : s ∈ table.tiedAt n) :
    s ∈ payers m (table.tiedAt m) :=
  (tiedAt_succ_sublist table m).subset ((tiedAt_sublist_of_le before).subset tied)

theorem tiedAt_succ_eq_nil : table.tiedAt (n + 1) = [] ↔ payers n (table.tiedAt n) = [] := by
  constructor
  · intro nobody
    by_contra some
    exact bestBy_ne_nil some nobody
  · intro nobody
    rw [tiedAt, nobody]
    rfl

/-! ### A seat in the course of the war -/

/-- The kind of step `n`. -/
def stageAt (table : Table) (n : Nat) : Stage :=
  if (table.tiedAt n).any fun s => fullStake ≤ (s.left n).length then .full else .limited

/-- A seat before step `n`. -/
def seatAt (table : Table) : Nat → Seat → Seat
  | 0, s => s.play .opening
  | n + 1, s =>
    if s ∈ table.tiedAt n then (table.seatAt n s).play (table.stageAt n) else table.seatAt n s

@[simp] theorem id_seatAt (table : Table) (n : Nat) (s : Seat) : (table.seatAt n s).id = s.id := by
  induction n with
  | zero => rfl
  | succ n ih =>
    rw [seatAt]
    split
    · exact ih
    · exact ih

theorem stake_stageAt {r : Seat} (tied : s ∈ table.tiedAt n) (held : r.hand = s.left n)
    (active : r.isActive = true) :
    r.stake (table.stageAt n) = (s.left n).take fullStake ∧
      (r.meets (table.stageAt n) = true ↔ s ∈ payers n (table.tiedAt n)) := by
  unfold stageAt
  split
  · next rich =>
    have some : ∃ t ∈ table.tiedAt n, fullStake ≤ (t.left n).length := by simpa using rich
    refine ⟨by rw [Seat.stake, held], ?_⟩
    simp only [Seat.meets, held, decide_eq_true_eq, mem_payers, tied, some, true_and, forall_const]
    refine ⟨fun enough => ⟨?_, enough⟩, fun known => known.2⟩
    rintro none
    simp [none, fullStake] at enough
  · next poor =>
    have none : ¬ ∃ t ∈ table.tiedAt n, fullStake ≤ (t.left n).length := by simpa using poor
    have short : (s.left n).length ≤ fullStake :=
      Nat.le_of_lt (Nat.lt_of_not_le fun enough => none ⟨s, tied, enough⟩)
    refine ⟨?_, ?_⟩
    · rw [Seat.stake, if_pos active, held, List.take_of_length_le short]
    · simp [Seat.meets, active, held, mem_payers, tied, none]

/-- Whoever is tied before step `n` is in the game and has what is left of the hand. -/
theorem seatAt_tied (tied : s ∈ table.tiedAt n) :
    (table.seatAt n s).hand = s.left n ∧ (table.seatAt n s).isActive = true := by
  induction n with
  | zero =>
    have contends := (tiedAt_sublist table 0).subset tied
    obtain ⟨-, active, c, rest, held⟩ := mem_contenders.mp contends
    refine ⟨?_, isActive_opened contends⟩
    simp [seatAt, Seat.play, Seat.stake, active, held, Seat.left, fullStake]
  | succ n ih =>
    have pays := (tiedAt_succ_sublist table n).subset tied
    have before := (payers_sublist n _).subset pays
    obtain ⟨held, active⟩ := ih before
    obtain ⟨stake, meets⟩ := stake_stageAt before held active
    rw [seatAt, if_pos before]
    refine ⟨?_, ?_⟩
    · rw [Seat.hand_play_of_stake (stake.trans (by rw [held])), held, Seat.left_succ]
    · rw [Seat.isActive_play, meets.mpr pays, active, Bool.true_and]

/-- What a seat has put in and what it holds make up its hand. -/
theorem paid_append_hand (table : Table) (n : Nat) (s : Seat) :
    table.paid n s ++ (table.seatAt n s).hand = s.hand := by
  induction n with
  | zero => exact s.stake_append_hand .opening
  | succ n ih =>
    rw [paid, seatAt]
    split
    · next tied =>
      obtain ⟨held, active⟩ := seatAt_tied tied
      have stake := (stake_stageAt tied held active).1
      rw [List.append_assoc, ← stake, Seat.stake_append_hand, ih]
    · rw [List.append_nil, ih]

/-- The last card put in is the last one played. -/
theorem lastCard_seatAt (table : Table) (n : Nat) (s : Seat) :
    (table.seatAt n s).lastCard = (table.paid n s).getLast?.or s.lastCard := by
  induction n with
  | zero => rfl
  | succ n ih =>
    rw [paid, seatAt]
    split
    · next tied =>
      obtain ⟨held, active⟩ := seatAt_tied tied
      have stake := (stake_stageAt tied held active).1
      rw [List.getLast?_append, Option.or_assoc, ← ih, ← stake]
      rfl
    · rw [List.append_nil, ih]

/-- A seat is in the game as long as it put in what was asked of it. -/
theorem isActive_seatAt (member : s ∈ table) :
    (table.seatAt n s).isActive = true ↔
      s ∈ table.contenders ∧ ∀ m < n, s ∈ table.tiedAt m → s ∈ payers m (table.tiedAt m) := by
  induction n with
  | zero =>
    simp only [seatAt, Seat.isActive_play, Seat.meets, Nat.not_lt_zero, false_implies,
      implies_true, and_true, contenders, List.mem_filter, member, true_and]
    cases s.isActive <;> simp
  | succ n ih =>
    rw [seatAt]
    simp only [Nat.lt_succ_iff_lt_or_eq, or_imp, forall_and, forall_eq, ← and_assoc, ← ih]
    split
    · next tied =>
      obtain ⟨held, active⟩ := seatAt_tied tied
      rw [Seat.isActive_play, active, Bool.and_true, (stake_stageAt tied held active).2]
      simp [tied]
    · next free => simp [free]

/-! ### The table in the course of the war -/

/-- The table before step `n`. -/
def atStep (table : Table) (n : Nat) : Table := table.map (table.seatAt n)

/-- The war before step `n`. -/
def frayAt (table : Table) (n : Nat) : Fray := { table := table.atStep n, prize := table.pot n }

/-- The ids of the players still tied before step `n`. -/
def tiedIds (table : Table) (n : Nat) : List PlayerId := (table.tiedAt n).map (·.id)

theorem mem_tiedIds (ascending : table.Ascending) (member : s ∈ table) :
    s.id ∈ table.tiedIds n ↔ s ∈ table.tiedAt n := by
  constructor
  · intro named
    obtain ⟨t, tied, same⟩ := List.mem_map.mp named
    have place := (tiedAt_sublist_table table n).subset tied
    exact ascending.eq_of_id place member same ▸ tied
  · exact fun tied => List.mem_map_of_mem tied

theorem seat?_atStep (ascending : table.Ascending) (member : s ∈ table) :
    (table.atStep n).seat? s.id = some (table.seatAt n s) := by
  rw [atStep, seat?_map (id_seatAt table n), seat?_of_mem ascending member]
  rfl

theorem atStep_succ (ascending : table.Ascending) (n : Nat) :
    table.atStep (n + 1) = (table.atStep n).paying (table.stageAt n) (table.tiedIds n) := by
  rw [atStep, atStep, paying, List.map_map]
  apply List.map_congr_left
  intro s member
  simp only [seatAt, Function.comp_apply, id_seatAt, mem_tiedIds ascending member]

theorem Sound.atStep (sound : table.Sound) (n : Nat) : (table.atStep n).Sound := by
  induction n with
  | zero => exact sound.opened
  | succ n ih =>
    rw [atStep_succ sound.ascending]
    exact ih.paying _

theorem stakesOf_atStep (ascending : table.Ascending) (n : Nat) :
    (table.atStep n).stakesOf (table.stageAt n) (table.tiedIds n) =
      (table.tiedAt n).flatMap fun s => (s.left n).take fullStake := by
  rw [stakesOf, tiedIds, List.flatMap_map]
  apply List.flatMap_congr
  intro s tied
  obtain ⟨held, active⟩ := seatAt_tied tied
  rw [seat?_atStep ascending ((tiedAt_sublist_table table n).subset tied)]
  exact (stake_stageAt tied held active).1

theorem staked_frayAt (ascending : table.Ascending) (n : Nat) :
    (table.frayAt n).staked (table.stageAt n) (table.tiedIds n) = table.frayAt (n + 1) := by
  simp only [Fray.staked, frayAt, stakesOf_atStep ascending, ← atStep_succ ascending, pot]

/-! ### A step -/

theorem tied_atStep (table : Table) (n : Nat) :
    ((table.tiedAt n).map (table.seatAt n)).Sublist (table.atStep n) :=
  (tiedAt_sublist_table table n).map _

theorem tiedIds_eq (table : Table) (n : Nat) :
    table.tiedIds n = ((table.tiedAt n).map (table.seatAt n)).map (·.id) := by
  simp [tiedIds, Function.comp_def]

theorem nextStage_atStep (ascending : (table.atStep n).Ascending) :
    (table.atStep n).nextStage (table.tiedIds n) = .ok (table.stageAt n) := by
  have seated := seat?_tied ascending (tied_atStep table n)
  rw [← tiedIds_eq] at seated
  have rich : ∀ s ∈ table.tiedAt n, (table.seatAt n s).meets .full = true ↔
      fullStake ≤ (s.left n).length := by
    intro s tied
    rw [Seat.meets, (seatAt_tied tied).1, decide_eq_true_eq]
  obtain ⟨stage, known, ⟨rfl, id, named, r, here, able⟩ | ⟨rfl, poor⟩⟩ :=
    Fray.nextStage_cases seated
  · obtain ⟨s, tied, rfl⟩ := List.mem_map.mp named
    have place := (tied_atStep table n).subset (List.mem_map_of_mem tied)
    have found := seat?_of_mem ascending place
    rw [id_seatAt, here] at found
    obtain rfl := Option.some.inj found
    have some : (table.tiedAt n).any (fun s => fullStake ≤ (s.left n).length) = true :=
      List.any_eq_true.mpr ⟨s, tied, decide_eq_true ((rich s tied).mp able)⟩
    rw [known, stageAt, if_pos some]
  · have none : ¬ (table.tiedAt n).any (fun s => fullStake ≤ (s.left n).length) = true := by
      intro some
      obtain ⟨s, tied, enough⟩ := List.any_eq_true.mp some
      have place := (tied_atStep table n).subset (List.mem_map_of_mem tied)
      have found := seat?_of_mem ascending place
      rw [id_seatAt] at found
      have unable := poor s.id (List.mem_map_of_mem tied) _ found
      rw [(rich s tied).mpr (of_decide_eq_true enough)] at unable
      cases unable
    rw [known, stageAt, if_neg none]

theorem filter_meets (table : Table) (n : Nat) :
    ((table.tiedAt n).filter fun s => (table.seatAt n s).meets (table.stageAt n)) =
      payers n (table.tiedAt n) := by
  unfold stageAt payers
  split
  · apply List.filter_congr
    intro s tied
    rw [Seat.meets, (seatAt_tied tied).1]
  · apply List.filter_congr
    intro s tied
    rw [Seat.meets, (seatAt_tied tied).1, (seatAt_tied tied).2, Bool.true_and]

theorem entrants_atStep (ascending : (table.atStep n).Ascending) :
    (table.atStep n).entrants (table.stageAt n) (table.tiedIds n) =
      (payers n (table.tiedAt n)).map (table.seatAt n) := by
  rw [tiedIds_eq, entrants_tied ascending (tied_atStep table n), List.filter_map]
  exact congrArg (List.map _) (filter_meets table n)

/-- The players who put in what step `n` asks for are compared by the cards that face up. -/
theorem bestBy_atStep (table : Table) (n : Nat) :
    bestBy (fun r => faceValue (r.stake (table.stageAt n)))
        ((payers n (table.tiedAt n)).map (table.seatAt n)) =
      (table.tiedAt (n + 1)).map (table.seatAt n) := by
  have shown : ∀ s ∈ payers n (table.tiedAt n), (table.seatAt n s).stake (table.stageAt n) =
      (s.left n).take fullStake := by
    intro s pays
    have tied := (payers_sublist n _).subset pays
    exact (stake_stageAt tied (seatAt_tied tied).1 (seatAt_tied tied).2).1
  rw [bestBy_map, tiedAt]
  refine congrArg (List.map _) (bestBy_congr fun s first t second => ?_)
  rw [shown s first, shown t second]

/-- Whoever leads alone is in the game, so an award does not have to reinstate. -/
theorem award_frayAt {w : Seat} (ascending : table.Ascending) (stage : Stage)
    (leads : table.tiedAt n = [w]) :
    (table.frayAt n).award stage w.id =
      { table := (table.atStep n).give w.id (table.pot n), prize := [] } := by
  have tied : w ∈ table.tiedAt n := by simp [leads]
  have member := (tiedAt_sublist_table table n).subset tied
  have given : ((table.atStep n).give w.id (table.pot n)).seat? w.id =
      some ((table.seatAt n w).receive (table.pot n)) := by
    rw [give, seat?_modify fun s => s.id_receive _, seat?_atStep ascending member,
      Option.map_some, if_pos (id_seatAt table n w)]
  have ordered : ((table.atStep n).give w.id (table.pot n)).Ascending :=
    (ascending.map (id_seatAt table n)).give
  unfold Fray.award
  dsimp only
  split
  · rw [frayAt, modify_reinstate ordered given (seatAt_tied tied).2]
  · rfl

/-- A step does what the hands say: it is drawn if nobody puts in what it asks for, it is won by a
player who leads alone, and otherwise those who lead are tied. -/
theorem step_frayAt (sound : table.Sound) (n : Nat) :
    (payers n (table.tiedAt n) = [] ∧ (table.frayAt n).step (table.stageAt n) (table.tiedIds n) =
        (.over (.drawn (table.tiedIds n)), table.frayAt (n + 1))) ∨
      (∃ w, table.tiedAt (n + 1) = [w] ∧
        (table.frayAt n).step (table.stageAt n) (table.tiedIds n) =
          (.over (.won w.id),
            { table := (table.atStep (n + 1)).give w.id (table.pot (n + 1)), prize := [] })) ∨
      2 ≤ (table.tiedAt (n + 1)).length ∧
        (table.frayAt n).step (table.stageAt n) (table.tiedIds n) =
          (.tied (table.tiedIds (n + 1)), table.frayAt (n + 1)) := by
  have fair := sound.atStep n
  have ascending := sound.ascending
  have distinct : (table.tiedIds n).Nodup :=
    tiedIds_eq table n ▸ nodup_tied fair.ascending (tied_atStep table n)
  have seated := tiedIds_eq table n ▸ seat?_tied fair.ascending (tied_atStep table n)
  have best := bestBy_atStep table n
  rw [← entrants_atStep fair.ascending] at best
  rcases leads : table.tiedAt (n + 1) with _ | ⟨w, _ | ⟨v, others⟩⟩
  · have nobody := tiedAt_succ_eq_nil.mp leads
    refine .inl ⟨nobody, ?_⟩
    rw [Fray.step_of_nobody fair.ascending distinct seated, staked_frayAt ascending]
    exact (entrants_atStep fair.ascending).trans (by rw [nobody]; rfl)
  · refine .inr (.inl ⟨w, rfl, ?_⟩)
    rw [leads] at best
    rw [Fray.step_of_best fair.ascending (Fray.entrants_playing fair) distinct seated best,
      staked_frayAt ascending, id_seatAt, award_frayAt ascending _ leads]
  · refine .inr (.inr ⟨by simp, ?_⟩)
    rw [leads] at best
    rw [Fray.step_of_ties fair.ascending (Fray.entrants_playing fair) distinct seated best,
      staked_frayAt ascending, tiedIds, leads]
    simp [Function.comp_def]

/-! ### The whole war -/

/-- How the war of a round ends at step `n`, counted from step `first`. -/
def EndsAt (table : Table) (first n : Nat) (report : WarReport) : Prop :=
  2 ≤ (table.tiedAt n).length ∧ report.stages.length + first = n + 1 ∧
    ((∃ w, table.tiedAt (n + 1) = [w] ∧ report.ending = .won w.id ∧
        report.fray =
          { table := (table.atStep (n + 1)).give w.id (table.pot (n + 1)), prize := [] }) ∨
      (payers n (table.tiedAt n) = [] ∧ report.ending = .drawn (table.tiedIds n) ∧
        report.fray = table.frayAt (n + 1)))

/-- The war of a round does what the hands say, step by step until it ends. -/
theorem war_endsAt (sound : table.Sound) (several : 2 ≤ (table.tiedAt 0).length) :
    ∃ n, table.EndsAt 0 n ((table.frayAt 0).war (table.tiedIds 0)) := by
  refine Fray.war_recursion (M := fun tied fray report => ∀ first, tied = table.tiedIds first →
    fray = table.frayAt first → 2 ≤ (table.tiedAt first).length →
      ∃ n, table.EndsAt first n report) ?_ ?_ ?_ _ _ 0 rfl rfl several
  · rintro tied fray cause failed first rfl rfl several
    have kind := nextStage_atStep (n := first) (sound.atStep first).ascending
    rw [frayAt, kind] at failed
    cases failed
  · rintro stage tied fray ending after known done first rfl rfl several
    have kind := nextStage_atStep (n := first) (sound.atStep first).ascending
    rw [frayAt, kind] at known
    cases known
    refine ⟨first, several, Nat.add_comm _ _, ?_⟩
    rcases step_frayAt sound first with ⟨nobody, drawn⟩ | ⟨w, leads, won⟩ | ⟨-, tied⟩
    · rw [done] at drawn
      cases drawn
      exact .inr ⟨nobody, rfl, rfl⟩
    · rw [done] at won
      cases won
      exact .inl ⟨w, leads, rfl, rfl⟩
    · rw [done] at tied
      cases tied
  · rintro stage tied fray leaders after known done rest first rfl rfl several
    have kind := nextStage_atStep (n := first) (sound.atStep first).ascending
    rw [frayAt, kind] at known
    cases known
    rcases step_frayAt sound first with ⟨-, drawn⟩ | ⟨w, -, won⟩ | ⟨still, tied⟩
    · rw [done] at drawn
      cases drawn
    · rw [done] at won
      cases won
    · rw [done] at tied
      cases tied
      obtain ⟨n, fought, steps, ending⟩ := rest (first + 1) rfl rfl still
      refine ⟨n, fought, ?_, ending⟩
      rw [← steps, List.length_cons]
      omega

end Table

end WarGame
