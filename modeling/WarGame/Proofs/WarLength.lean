import WarGame.Proofs.Rounds
import WarGame.Proofs.WarCourse

/-!
# How long a war lasts

The cards that the tied players hold together bound the steps of their war. A full step that
leaves a tie costs them four cards, and a limited step that leaves one costs them all they have.
So the full steps come first and at most two steps follow: a limited one, and one in which nobody
puts in a card, which draws the war.
-/

namespace WarGame

/-! ### The cards of tied players -/

namespace Table

variable {table : Table} {tied : List PlayerId} {stage : Stage} {leaders : List Seat} {s : Seat}

/-- The number of cards that the named players hold together. -/
def holdings (table : Table) (ids : List PlayerId) : Nat :=
  (Table.hands (table.filter fun s => decide (s.id ∈ ids))).length

/-- Players between whom a war can be fought: each is in the game and named once. -/
structure Tie (table : Table) (tied : List PlayerId) : Prop where
  distinct : tied.Nodup
  playing : ∀ id ∈ tied, ∃ s, table.seat? id = some s ∧ s.isActive = true

theorem Tie.seated (tie : table.Tie tied) : ∀ id ∈ tied, ∃ s, table.seat? id = some s := by
  intro id named
  obtain ⟨s, here, -⟩ := tie.playing id named
  exact ⟨s, here⟩

theorem Tie.isActive (tie : table.Tie tied) (ascending : table.Ascending) (member : s ∈ table)
    (named : s.id ∈ tied) : s.isActive = true := by
  obtain ⟨t, here, active⟩ := tie.playing s.id named
  rw [seat?_of_mem ascending member] at here
  exact Option.some.inj here ▸ active

theorem Tie.entrants_playing (tie : table.Tie tied) (ascending : table.Ascending) :
    ∀ s ∈ table.entrants stage tied, s.isActive = true := by
  intro s enters
  obtain ⟨member, named, -⟩ := mem_entrants.mp enters
  exact tie.isActive ascending member named

section

variable (within : leaders.Sublist (table.entrants stage tied))

include within

theorem length_hands_le_holdings : (Table.hands leaders).length ≤ table.holdings tied := by
  have entering : (table.entrants stage tied).Sublist
      (table.filter fun s => decide (s.id ∈ tied)) := by
    have both : table.entrants stage tied =
        (table.filter fun s => decide (s.id ∈ tied)).filter fun s => s.meets stage := by
      rw [List.filter_filter]
      exact List.filter_congr fun s _ => Bool.and_comm _ _
    rw [both]
    exact List.filter_sublist
  exact ((within.trans entering).flatMap fun s => s.hand).length_le

theorem leaders_meet : ∀ s ∈ leaders, s ∈ table ∧ s.id ∈ tied ∧ s.meets stage = true :=
  fun _ leads => mem_entrants.mp (within.subset leads)

/-- Players who lead a step hold what it leaves in their hands. -/
theorem holdings_paying (ascending : table.Ascending) :
    (table.paying stage tied).holdings (leaders.map (·.id)) =
      (Table.hands (leaders.map fun s => s.play stage)).length := by
  have among : (leaders.map fun s => s.play stage).Sublist (table.paying stage tied) :=
    sublist_paying (within.trans List.filter_sublist) fun s leads =>
      (leaders_meet within s leads).2.1
  have named := filter_named (ascending.paying tied) among
  rw [List.map_map] at named
  rw [holdings, ← named]
  rfl

end

theorem length_hands_full (rich : ∀ s ∈ leaders, s.meets .full = true) :
    (Table.hands (leaders.map fun s => s.play .full)).length + fullStake * leaders.length =
      (Table.hands leaders).length := by
  induction leaders with
  | nil => rfl
  | cons s rest ih =>
    have behind := ih fun t member => rich t (List.mem_cons_of_mem s member)
    have enough : fullStake ≤ s.hand.length := by simpa [Seat.meets] using rich s List.mem_cons_self
    have front : (s.play .full).hand.length + fullStake = s.hand.length := by
      simp only [Seat.play, Seat.stake, List.length_drop, List.length_take]
      omega
    rw [List.map_cons, hands_cons, hands_cons, List.length_append, List.length_append,
      List.length_cons, Nat.mul_succ]
    omega

theorem hands_limited (playing : ∀ s ∈ leaders, s.isActive = true) :
    Table.hands (leaders.map fun s => s.play .limited) = [] := by
  apply List.flatMap_eq_nil_iff.mpr
  intro t member
  obtain ⟨s, leads, rfl⟩ := List.mem_map.mp member
  simp [Seat.play, Seat.stake, playing s leads]

end Table

/-! ### The course of a war -/

namespace Fray

variable {stage : Stage} {tied : List PlayerId} {fray after : Fray} {cards : Pile}

/-- The steps of a war, each with the cards it adds to the prize, and the end they come to. -/
inductive Course : List PlayerId → Fray → List (Stage × Pile) → WarEnd → Prop where
  | last {tied : List PlayerId} {fray after : Fray} {stage : Stage} {cards : Pile}
      {ending : WarEnd} (kind : fray.table.nextStage tied = .ok stage)
      (added : (fray.putIn stage tied []).2.prize = fray.prize ++ cards)
      (done : fray.step stage tied = (.over ending, after)) :
      Course tied fray [(stage, cards)] ending
  | next {tied leaders : List PlayerId} {fray after : Fray} {stage : Stage} {cards : Pile}
      {steps : List (Stage × Pile)} {ending : WarEnd}
      (kind : fray.table.nextStage tied = .ok stage)
      (added : (fray.putIn stage tied []).2.prize = fray.prize ++ cards)
      (done : fray.step stage tied = (.tied leaders, after))
      (rest : Course leaders after steps ending) :
      Course tied fray ((stage, cards) :: steps) ending

/-- Full steps, then at most one limited step that adds cards, and then at most one that adds none
and draws the war. -/
def Shape (steps : List (Stage × Pile)) (ending : WarEnd) : Prop :=
  ∃ full limited dry : List Pile,
    steps = full.map (.full, ·) ++ limited.map (.limited, ·) ++ dry.map (.limited, ·) ∧
      (∀ cards ∈ full ++ limited, cards ≠ []) ∧ limited.length ≤ 1 ∧
        (dry = [] ∧ (∃ w, ending = .won w) ∨ dry = [[]] ∧ ∃ players, ending = .drawn players)

namespace Shape

variable {steps : List (Stage × Pile)} {ending : WarEnd}

theorem dry (players : List PlayerId) : Shape [(.limited, [])] (.drawn players) :=
  ⟨[], [], [[]], rfl, by simp, by simp, .inr ⟨rfl, players, rfl⟩⟩

theorem won (some : cards ≠ []) (kind : stage = .full ∨ stage = .limited) (w : PlayerId) :
    Shape [(stage, cards)] (.won w) := by
  rcases kind with rfl | rfl
  · exact ⟨[cards], [], [], rfl, by simpa using some, by simp, .inl ⟨rfl, w, rfl⟩⟩
  · exact ⟨[], [cards], [], rfl, by simpa using some, by simp, .inl ⟨rfl, w, rfl⟩⟩

theorem full (shape : Shape steps ending) (some : cards ≠ []) :
    Shape ((.full, cards) :: steps) ending := by
  obtain ⟨full, limited, dry, rfl, adds, once, ends⟩ := shape
  exact ⟨cards :: full, limited, dry, rfl, by simpa [some] using adds, once, ends⟩

theorem spent (some : cards ≠ []) (drawn : ∃ players, ending = .drawn players) :
    Shape [(.limited, cards), (.limited, [])] ending :=
  ⟨[], [cards], [[]], rfl, by simpa using some, by simp, .inr ⟨rfl, drawn⟩⟩

end Shape

theorem stakesOf_ne_nil {table : Table} {s : Seat} (ascending : table.Ascending)
    (enters : s ∈ table.entrants stage tied) : table.stakesOf stage tied ≠ [] := by
  obtain ⟨member, named, able⟩ := Table.mem_entrants.mp enters
  intro none
  have own := List.flatMap_eq_nil_iff.mp none s.id named
  rw [Table.seat?_of_mem ascending member] at own
  exact Seat.stake_ne_nil able own

theorem holdings_pos {table : Table} {s : Seat} (enters : s ∈ table.entrants stage tied) :
    0 < table.holdings tied := by
  have within : [s].Sublist (table.entrants stage tied) := List.singleton_sublist.mpr enters
  have held := Table.length_hands_le_holdings within
  have some := Seat.length_play_lt (Table.mem_entrants.mp enters).2.2
  rw [Table.hands_cons, List.length_append] at held
  omega

theorem stage_of_tie {table : Table} (tie : table.Tie tied)
    (kind : table.nextStage tied = .ok stage) : stage = .full ∨ stage = .limited := by
  obtain ⟨known, found, ⟨rfl, -⟩ | ⟨rfl, -⟩⟩ := nextStage_cases tie.seated
  · exact .inl (Except.ok.inj (kind.symm.trans found))
  · exact .inr (Except.ok.inj (kind.symm.trans found))

theorem limited_of_nobody (kind : fray.table.nextStage tied = .ok stage) (tie : fray.table.Tie tied)
    (nobody : fray.table.entrants stage tied = []) :
    stage = .limited ∧ fray.table.stakesOf stage tied = [] := by
  obtain ⟨known, found, ⟨rfl, id, named, s, here, able⟩ | ⟨rfl, -⟩⟩ := nextStage_cases tie.seated
  · -- a full step is taken because somebody can afford it
    obtain ⟨member, rfl⟩ := Table.mem_of_seat? here
    rw [kind] at found
    cases found
    rw [Table.meets_of_nobody nobody member named] at able
    cases able
  · rw [kind] at found
    cases found
    refine ⟨rfl, List.flatMap_eq_nil_iff.mpr fun id named => ?_⟩
    obtain ⟨s, here, active⟩ := tie.playing id named
    obtain ⟨member, rfl⟩ := Table.mem_of_seat? here
    have unable := Table.meets_of_nobody nobody member named
    have none : s.hand = [] := by simpa [Seat.meets, active] using unable
    rw [here, Option.map_some, Option.getD_some, Seat.stake, none, ite_self]

section

variable {leaders : List Seat} (ascending : fray.table.Ascending) (tie : fray.table.Tie tied)
  (within : leaders.Sublist (fray.table.entrants stage tied))

include ascending tie within

/-- Players who lead a step can be tied in the next one. -/
theorem tie_of_leaders : (fray.staked stage tied).table.Tie (leaders.map (·.id)) := by
  constructor
  · exact nodup_leaders ascending within
  · intro id named
    obtain ⟨s, leads, rfl⟩ := List.mem_map.mp named
    obtain ⟨member, entered, able⟩ := Table.leaders_meet within s leads
    refine ⟨s.play stage, seat?_leader ascending within leads, ?_⟩
    rw [Seat.isActive_play, able, tie.isActive ascending member entered, Bool.true_and]

/-- A step that leaves a tie takes four cards from the tied players, or all that they have. -/
theorem holdings_of_leaders (kind : fray.table.nextStage tied = .ok stage)
    (several : 2 ≤ leaders.length) :
    stage = .full ∧ (fray.staked stage tied).table.holdings (leaders.map (·.id)) + 4 ≤
        fray.table.holdings tied ∨
      stage = .limited ∧ (fray.staked stage tied).table.holdings (leaders.map (·.id)) = 0 := by
  have held := Table.length_hands_le_holdings within
  have meet := Table.leaders_meet within
  have left : (fray.staked stage tied).table.holdings (leaders.map (·.id)) = _ :=
    Table.holdings_paying within ascending
  rcases stage_of_tie tie kind with rfl | rfl
  · have spent := Table.length_hands_full fun s leads => (meet s leads).2.2
    have enough : fullStake * 2 ≤ fullStake * leaders.length := Nat.mul_le_mul_left _ several
    have four : fullStake * 2 = 4 := rfl
    exact .inl ⟨rfl, by omega⟩
  · have none := Table.hands_limited fun s leads =>
      tie.isActive ascending (meet s leads).1 (meet s leads).2.1
    rw [none] at left
    exact .inr ⟨rfl, left⟩

end

/-- What a step between tied players comes to: it is drawn without a card, or it adds cards and is
won or leaves a tie with fewer. -/
theorem step_of_tie (ascending : fray.table.Ascending) (tie : fray.table.Tie tied)
    (kind : fray.table.nextStage tied = .ok stage) :
    ∃ cards, (fray.putIn stage tied []).2.prize = fray.prize ++ cards ∧
      (stage = .limited ∧ cards = [] ∧ (fray.step stage tied).1 = .over (.drawn tied) ∨
        cards ≠ [] ∧ 0 < fray.table.holdings tied ∧
          ((∃ w, (fray.step stage tied).1 = .over (.won w)) ∨
            ∃ leaders after, fray.step stage tied = (.tied leaders, after) ∧
              after.table.Ascending ∧ after.table.Tie leaders ∧
              (stage = .full ∧ after.table.holdings leaders + 4 ≤ fray.table.holdings tied ∨
                stage = .limited ∧ after.table.holdings leaders = 0))) := by
  refine ⟨fray.table.stakesOf stage tied, ?_, ?_⟩
  · rw [putIn_distinct stage ascending tie.distinct tie.seated]
    rfl
  · rcases step_shape ascending (tie.entrants_playing ascending) tie.distinct tie.seated with
      ⟨nobody, drawn⟩ | ⟨w, enters, won⟩ | ⟨leaders, several, within, left⟩
    · obtain ⟨limited, none⟩ := limited_of_nobody kind tie nobody
      exact .inl ⟨limited, none, by rw [drawn]⟩
    · exact .inr ⟨stakesOf_ne_nil ascending enters, holdings_pos enters, .inl ⟨w.id, by rw [won]⟩⟩
    · obtain ⟨first, leads⟩ := List.exists_mem_of_length_pos (show 0 < leaders.length by omega)
      have enters := within.subset leads
      exact .inr ⟨stakesOf_ne_nil ascending enters, holdings_pos enters, .inr
        ⟨_, _, left, ascending.paying tied, tie_of_leaders ascending tie within,
          holdings_of_leaders ascending tie within kind several⟩⟩

/-- A war has a course of the shape there is, and the cards that the tied players hold at its start
bound its steps. -/
structure Lasts (tied : List PlayerId) (fray : Fray) (steps : List (Stage × Pile))
    (report : WarReport) : Prop where
  course : Course tied fray steps report.ending
  stages : steps.map (·.1) = report.stages
  shape : Shape steps report.ending
  bound : steps.length ≤ fray.table.holdings tied / 4 + 2
  dry : fray.table.holdings tied = 0 → steps = [(.limited, [])] ∧
    ∃ players, report.ending = .drawn players

theorem war_lasts (fray : Fray) (ascending : fray.table.Ascending) (tie : fray.table.Tie tied) :
    ∃ steps, Lasts tied fray steps (fray.war tied) := by
  refine war_recursion (M := fun tied fray report => fray.table.Ascending → fray.table.Tie tied →
    ∃ steps, Lasts tied fray steps report) ?_ ?_ ?_ tied fray ascending tie
  · intro tied fray cause failed ascending tie
    obtain ⟨stage, known, -⟩ := nextStage_cases tie.seated
    rw [failed] at known
    cases known
  · intro stage tied fray ending after kind done ascending tie
    obtain ⟨cards, added, outcome⟩ := step_of_tie ascending tie kind
    have course := Course.last kind added done
    rw [done] at outcome
    rcases outcome with ⟨rfl, rfl, drawn⟩ | ⟨some, held, ⟨w, won⟩ | ⟨leaders, later, tie, -⟩⟩
    · cases drawn
      exact ⟨_, course, rfl, .dry tied, by simp, fun _ => ⟨rfl, tied, rfl⟩⟩
    · cases won
      exact ⟨_, course, rfl, .won some (stage_of_tie tie kind) w, by simp, fun none => by omega⟩
    · cases tie
  · intro stage tied fray leaders after kind done rest ascending tie
    obtain ⟨cards, added, outcome⟩ := step_of_tie ascending tie kind
    rw [done] at outcome
    rcases outcome with ⟨rfl, rfl, drawn⟩ | ⟨some, held, ⟨w, won⟩ | ⟨_, _, left, order, next, cost⟩⟩
    · cases drawn
    · cases won
    · -- The leaders fight on for what the step left them. A full step left them four cards less,
      -- which pays for it, and a limited one left them nothing, so one dry step follows.
      cases left
      obtain ⟨steps, lasts⟩ := rest order next
      have course := Course.next kind added done lasts.course
      have stages : ((stage, cards) :: steps).map (·.1) = stage :: (after.war leaders).stages :=
        congrArg (stage :: ·) lasts.stages
      have bound := lasts.bound
      refine ⟨_, course, stages, ?_, ?_, fun none => by omega⟩
      · rcases cost with ⟨rfl, less⟩ | ⟨rfl, none⟩
        · exact lasts.shape.full some
        · obtain ⟨rfl, players, drawn⟩ := lasts.dry none
          exact .spent some ⟨players, drawn⟩
      · rw [List.length_cons]
        rcases cost with ⟨-, less⟩ | ⟨-, none⟩
        · omega
        · rw [(lasts.dry none).1, List.length_singleton]
          omega

/-! ### A war between equal hands -/

/-- Two players in the game, each with `k` cards that are all alike. -/
structure Equals (c : Card) (k : Nat) (s t : Seat) : Prop where
  less : s.id < t.id
  playing : s.isActive = true ∧ t.isActive = true
  held : s.hand = List.replicate k c ∧ t.hand = List.replicate k c

namespace Equals

variable {c : Card} {k n : Nat} {s t : Seat} {prize : Pile}

theorem ascending (equals : Equals c k s t) : Table.Ascending [s, t] := by
  simpa [Table.Ascending] using equals.less

theorem tie (equals : Equals c k s t) : Table.Tie [s, t] [s.id, t.id] := by
  refine ⟨equals.ascending.nodup_ids, fun id named => ?_⟩
  obtain ⟨r, member, rfl⟩ : ∃ r ∈ [s, t], r.id = id := List.mem_map.mp named
  have active : ∀ r ∈ [s, t], r.isActive = true := by simpa using equals.playing
  exact ⟨r, Table.seat?_of_mem equals.ascending member, active r member⟩

theorem holdings (equals : Equals c k s t) :
    Table.holdings [s, t] [s.id, t.id] = 2 * k := by
  simp [Table.holdings, Table.hands, equals.held]
  omega

theorem alike (equals : Equals c k s t) (stage : Stage) :
    t.stake stage = s.stake stage ∧ t.meets stage = s.meets stage := by
  unfold Seat.stake Seat.meets
  rw [equals.held.1, equals.held.2, equals.playing.1, equals.playing.2]
  exact ⟨rfl, rfl⟩

theorem nextStage (equals : Equals c k s t) :
    Table.nextStage [s, t] [s.id, t.id] = .ok (if fullStake ≤ k then .full else .limited) := by
  have first : Table.seat? s.id [s, t] = some s :=
    Table.seat?_of_mem equals.ascending List.mem_cons_self
  have second : Table.seat? t.id [s, t] = some t :=
    Table.seat?_of_mem equals.ascending (List.mem_cons_of_mem s List.mem_cons_self)
  simp only [Table.nextStage, first, second, Seat.meets, equals.held, List.length_replicate]
  by_cases rich : fullStake ≤ k <;> simp [rich]

/-- Players with equal hands who put in what a step asks for stay tied. -/
theorem step (equals : Equals c k s t) (prize : Pile) (able : s.meets stage = true) :
    ∃ cards, Fray.step stage [s.id, t.id] { table := [s, t], prize } =
      (.tied [(s.play stage).id, (t.play stage).id],
        { table := [s.play stage, t.play stage], prize := prize ++ cards }) := by
  obtain ⟨alike, also⟩ := equals.alike stage
  have entrants : Table.entrants stage [s.id, t.id] [s, t] = [s, t] := by
    simp [Table.entrants, able, also]
  have best : bestBy (fun s => Table.faceValue (s.stake stage))
      (Table.entrants stage [s.id, t.id] [s, t]) = [s, t] := by
    rw [entrants]
    apply bestBy_of_all_tied
    simp [alike]
  have tied : Fray.step stage [s.id, t.id] { table := [s, t], prize } = _ :=
    step_of_ties equals.ascending (equals.tie.entrants_playing equals.ascending)
      equals.tie.distinct equals.tie.seated best
  have paid : Table.paying stage [s.id, t.id] [s, t] = [s.play stage, t.play stage] := by
    simp [Table.paying]
  rw [tied, staked, paid]
  exact ⟨_, rfl⟩

theorem play (equals : Equals c k s t) (able : s.meets stage = true)
    (left : (s.play stage).hand = List.replicate n c) :
    Equals c n (s.play stage) (t.play stage) := by
  obtain ⟨alike, also⟩ := equals.alike stage
  refine ⟨equals.less, ?_, left, ?_⟩
  · rw [Seat.isActive_play, Seat.isActive_play, also, able, equals.playing.1, equals.playing.2]
    exact ⟨rfl, rfl⟩
  · rw [← left]
    unfold Seat.play
    rw [alike, equals.held.1, equals.held.2]

/-- A war between odd hands that are equal goes on as long as any. -/
theorem war (equals : Equals c (2 * n + 1) s t) :
    (Fray.war [s.id, t.id] { table := [s, t], prize }).stages.length = n + 2 := by
  induction n generalizing s t prize with
  | zero =>
    have kind : Table.nextStage [s, t] [s.id, t.id] = .ok .limited := equals.nextStage
    have able : s.meets .limited = true := by simp [Seat.meets, equals.playing, equals.held]
    have left : Equals c 0 (s.play .limited) (t.play .limited) := by
      apply equals.play able
      simp [Seat.play, Seat.stake, equals.playing]
    obtain ⟨cards, done⟩ := equals.step prize able
    obtain ⟨steps, lasts⟩ :=
      war_lasts { table := _, prize := prize ++ cards } left.ascending left.tie
    rw [war_of_tied kind done, List.length_cons, ← lasts.stages, (lasts.dry left.holdings).1]
    rfl
  | succ n ih =>
    have rich : fullStake ≤ 2 * (n + 1) + 1 := by
      show 2 ≤ 2 * (n + 1) + 1
      omega
    have kind : Table.nextStage [s, t] [s.id, t.id] = .ok .full := by
      rw [equals.nextStage, if_pos rich]
    have able : s.meets .full = true := by simpa [Seat.meets, equals.held] using rich
    have left : Equals c (2 * n + 1) (s.play .full) (t.play .full) := by
      apply equals.play able
      rw [Seat.hand_play_of_stake rfl, equals.held.1, List.drop_replicate]
      rfl
    obtain ⟨cards, done⟩ := equals.step prize able
    rw [war_of_tied kind done, List.length_cons, ih left]

end Equals

end Fray

/-! ### The wars of a game -/

namespace Game

variable {g after : Game} {report : RoundReport} {steps : UInt32}

theorem tie_opened {table : Table} {leaders : List PlayerId} (ascending : table.Ascending)
    (leads : table.opened.rankLeaders table.placed = .ok leaders) : table.opened.Tie leaders := by
  refine ⟨?_, fun id member => Table.rankLeaders_playing leads member⟩
  rw [Table.rankLeaders_opened ascending] at leads
  cases leads
  exact ascending.nodup_ids.sublist (((bestBy_sublist _ _).trans List.filter_sublist).map _)

/-- A round that comes to a decision is settled in one of the ways there are. -/
theorem settles_of_round (done : g.round = (.ok report, after)) :
    ∃ settled, Settles g.table.placed g.opened report.decision settled := by
  rcases deciding : g.opened.settle g.table.placed g.table.placed.cards with
    ⟨decision | e, settled⟩
  · unfold opened at deciding
    simp only [round, openRound_eq, deciding] at done
    cases done
  · rw [round_of_settled deciding] at done
    cases done
    exact ⟨settled, settles deciding⟩

/-- How long wars last: those between players in the game, named in any order, and those that the
rounds of the game report. -/
structure WarLength (g : Game) : Prop where
  wars : ∀ tied prize, g.table.Tie tied → ∃ steps,
    Fray.Lasts tied { table := g.table, prize } steps (Fray.war tied { table := g.table, prize })
  rounds : ∀ report after steps, g.round = (.ok report, after) → report.decision = .war steps →
    ∃ leaders war, g.table.opened.rankLeaders g.table.placed = .ok leaders ∧
      g.table.opened.Tie leaders ∧
      war = Fray.war leaders { table := g.table.opened, prize := g.table.placed.cards } ∧
      steps = UInt32.ofNat war.stages.length ∧
      steps.toNat ≤ g.table.opened.holdings leaders / 4 + 2 ∧
      (g.table.opened.holdings leaders < 2 ^ 32 → steps.toNat = war.stages.length)

/-- Every value of the bound is met. -/
theorem exists_longest (n : Nat) : ∃ table tied, table.Ascending ∧ table.Tie tied ∧
    table.holdings tied / 4 = n ∧
      ∀ prize, (Fray.war tied { table, prize }).stages.length = n + 2 := by
  obtain ⟨a, b, less⟩ : ∃ a b : PlayerId, a < b := ⟨trio[0].id, trio[1].id, by decide⟩
  have equals : Fray.Equals default (2 * n + 1)
      { id := a, name := "", hand := List.replicate (2 * n + 1) default }
      { id := b, name := "", hand := List.replicate (2 * n + 1) default } :=
    ⟨less, ⟨rfl, rfl⟩, ⟨rfl, rfl⟩⟩
  refine ⟨_, _, equals.ascending, equals.tie, ?_, fun prize => equals.war⟩
  rw [equals.holdings]
  omega

theorem warLength_of_ascending (ascending : g.table.Ascending) :
    g.WarLength ∧ ∀ n, ∃ table tied, table.Ascending ∧ table.Tie tied ∧
      table.holdings tied / 4 = n ∧
        ∀ prize, (Fray.war tied { table, prize }).stages.length = n + 2 := by
  refine ⟨⟨fun tied prize tie => Fray.war_lasts _ ascending tie, ?_⟩, exists_longest⟩
  intro report after steps done decided
  obtain ⟨settled, way⟩ := settles_of_round done
  rw [decided] at way
  cases way with
  | war leaders war winner leads fought won =>
    have tie := tie_opened ascending leads
    have order : g.table.opened.Ascending := ascending.map fun s => s.id_play .opening
    obtain ⟨course, lasts⟩ := Fray.war_lasts
      { table := g.table.opened, prize := g.table.placed.cards } order tie
    have fought : Fray.war leaders { table := g.table.opened, prize := g.table.placed.cards } =
      war := fought
    have counted : course.length = war.stages.length := by
      rw [← fought, ← lasts.stages, List.length_map]
    have bound : course.length ≤ g.table.opened.holdings leaders / 4 + 2 := lasts.bound
    refine ⟨leaders, war, leads, tie, fought.symm, rfl, ?_, fun small => ?_⟩
    · rw [UInt32.toNat_ofNat']
      have := Nat.mod_le war.stages.length (2 ^ 32)
      omega
    · rw [UInt32.toNat_ofNat']
      exact Nat.mod_eq_of_lt (by omega)

theorem warLength_tiedThree : tiedThree.table.Ascending ∧ tiedThree.WarLength ∧
    ∃ report after, tiedThree.round = (.ok report, after) ∧ report.decision = .war 2 := by
  have sound := tiedThree_reachable.sound.table
  obtain ⟨report, settled, played, -, law⟩ := round_settles sound
  have two : (roundLaw tiedThree.table.contenders).2 = .war 2 := by decide +kernel
  have decided : report.decision = .war 2 := (congrArg Prod.snd law).trans two
  exact ⟨sound.ascending, (warLength_of_ascending sound.ascending).1, report, _, played, decided⟩

end Game

end WarGame
