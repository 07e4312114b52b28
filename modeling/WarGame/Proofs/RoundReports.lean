import WarGame.Proofs.CardFlow
import WarGame.Proofs.Elimination
import WarGame.Proofs.WinnerTakesAll

/-!
# What rounds report

A report agrees with the games before and after its round. Nobody who is out of the game comes back,
so in a game that is dealt the reports name everybody who is out exactly once.
-/

namespace WarGame

/-! ### Tables -/

namespace Table

variable {table : Table} {id : PlayerId} {s : Seat} {n : Nat}

theorem eliminated_nodup (ascending : table.Ascending) : table.eliminated.Nodup :=
  ascending.nodup_ids.sublist (List.filter_sublist.map _)

theorem not_active_of_eliminated (ascending : table.Ascending) (gone : id ∈ table.eliminated) :
    id ∉ table.active := by
  obtain ⟨s, member, out, rfl⟩ := mem_eliminated.mp gone
  rw [active_iff ascending (seat?_of_mem ascending member), out]
  exact Bool.false_ne_true

theorem pot_ne_nil (contends : s ∈ table.contenders) : table.pot n ≠ [] := by
  induction n with
  | zero =>
    obtain ⟨member, active, c, rest, held⟩ := mem_contenders.mp contends
    intro none
    have nothing := List.flatMap_eq_nil_iff.mp none s member
    simp [paid, active, held] at nothing
  | succ n ih => exact List.append_ne_nil_of_left_ne_nil ih _

theorem length_hand_le (member : s ∈ table) : s.hand.length ≤ table.hands.length := by
  have among : s.hand ∈ table.map fun t => t.hand := List.mem_map_of_mem member
  exact (List.sublist_flatten_of_mem among).length_le

/-- Whoever is tied after `n` steps has put in two cards at each of them but perhaps the last. -/
theorem length_of_tied (tied : s ∈ table.tiedAt (n + 1)) : 2 * (n + 1) ≤ s.hand.length := by
  have pays := mem_payers_of_tied (Nat.lt_succ_self n) tied
  have some := List.length_pos_iff.mpr (mem_payers.mp pays).2.1
  rw [Seat.left, List.length_drop] at some
  unfold fullStake at some
  omega

end Table

namespace Game

variable {g after settled : Game} {n : Nat} {decision : Decision} {report : RoundReport}

/-! ### The winner -/

namespace Ends

theorem won_iff (ends : g.Ends n decision after) : after.lastWinner.isSome = true ↔
    decision = .highCard ∨ (∃ steps, decision = .war steps) ∨ decision = .suit := by
  have redealt : decision = .redeal → after.lastWinner = none := by
    rintro rfl
    exact ends.of_redealt.1
  cases ends with
  | redeal k _ several nobody tied dealt => simp [redealt rfl]
  | uncontested nobody => simp [fought]
  | highCard w leads => simp [award]
  | war k w several leads => simp [award]
  | suit k w several nobody best => simp [award]

theorem winner_end (sound : g.table.Sound) (ends : g.Ends n decision after) {w : PlayerId}
    (won : after.lastWinner = some w) : w ∈ g.table.active ∧ w ∈ after.table.active ∧
      ∃ s, after.table.seat? w = some s ∧ s.hand ≠ [] := by
  obtain ⟨contested, -, s, contends, rfl⟩ := ends.of_winner won
  obtain ⟨member, active, -⟩ := Table.mem_contenders.mp contends
  refine ⟨Table.mem_active.mpr ⟨s, member, active, rfl⟩, ?_, _, ends.seat?_end sound member, ?_⟩
  · rw [mem_active_end sound ends member]
    by_cases reinstated : decision = .suit
    · rw [seatOf, if_pos ⟨reinstated, won⟩]
      exact Seat.isActive_reinstate _
    · rw [isActive_end sound ends member]
      refine ⟨contends, fun m before _ => .inl ?_⟩
      cases ends with
      | uncontested nobody => cases won
      | highCard w leads => exact absurd before (Nat.not_lt_zero m)
      | suit k w several nobody best => exact (reinstated rfl).elim
      | redeal k _ several nobody tied dealt => exact (contested rfl).elim
      | war k w several leads =>
        have tied : w ∈ g.table.tiedAt (k + 1) := by simp [leads]
        have place := (Table.tiedAt_sublist_table g.table _).subset tied
        rw [← sound.ascending.eq_of_id place member (Option.some.inj won)]
        exact Table.mem_payers_of_tied before tied
  · rw [Seat.hand_receive, gainOf, if_neg contested, if_pos won]
    exact List.append_ne_nil_of_right_ne_nil _ (Table.pot_ne_nil contends)

theorem steps_end {steps : UInt32} (ends : g.Ends n (.war steps) after) :
    ∃ count, 1 ≤ count ∧ steps = UInt32.ofNat count ∧ 2 * count ≤ g.cardCount := by
  cases ends with
  | war k w several leads =>
    have tied : w ∈ g.table.tiedAt (k + 1) := by simp [leads]
    have paid := Table.length_of_tied tied
    have held := Table.length_hand_le ((Table.tiedAt_sublist_table g.table _).subset tied)
    refine ⟨k + 1, Nat.succ_pos k, rfl, ?_⟩
    unfold cardCount
    omega

end Ends

/-! ### One report -/

/-- A report agrees with the games before and after the round. -/
structure Agrees (before : Game) (report : RoundReport) (after : Game) : Prop where
  won_iff : report.winner.isSome = true ↔
    report.decision = .highCard ∨ (∃ steps, report.decision = .war steps) ∨ report.decision = .suit
  /-- A count of steps is exact unless there are cards for more than it can hold. -/
  steps : ∀ steps, report.decision = .war steps → ∃ count, 1 ≤ count ∧
    steps = UInt32.ofNat count ∧ (before.cardCount < 2 ^ 33 → steps.toNat = count)
  lastWinner : after.lastWinner = report.winner
  winner : ∀ w, report.winner = some w → w ∈ before.table.active ∧ w ∈ after.table.active ∧
    w ∉ report.eliminated ∧ ∃ s, after.table.seat? w = some s ∧ s.hand ≠ []
  ascending : report.eliminated.Pairwise (· < ·)
  eliminated : ∀ id,
    id ∈ report.eliminated ↔ id ∈ before.table.active ∧ id ∈ after.table.eliminated
  endsGame : report.endsGame = after.hasEnded
  ended_iff : after.hasEnded = true ↔ after.table.active.length ≤ 1
  rounds : after.rounds = before.rounds + 1

theorem Played.mem_eliminated (sound : g.table.Sound) (played : g.Played n report settled)
    (id : PlayerId) :
    id ∈ report.eliminated ↔ id ∈ g.table.active ∧ id ∈ settled.table.eliminated := by
  rw [played.eliminated, List.mem_filter]
  refine and_congr_right fun active => ?_
  obtain ⟨s, member, -, rfl⟩ := Table.mem_active.mp active
  have seated := played.ends.seat?_end sound member
  rw [Table.eliminated_iff (played.ends.ascending_end sound) seated, seated, Option.any_some,
    Seat.isEliminated_eq, Bool.not_eq_true']

/-- Who is out after a round was out before, or is reported. -/
theorem Played.mem_eliminated_end (sound : g.table.Sound) (played : g.Played n report settled)
    (id : PlayerId) :
    id ∈ settled.table.eliminated ↔ id ∈ g.table.eliminated ∨ id ∈ report.eliminated := by
  rw [played.mem_eliminated sound]
  constructor
  · intro gone
    obtain ⟨t, place, -, rfl⟩ := Table.mem_eliminated.mp gone
    rw [played.ends.table_end sound] at place
    obtain ⟨s, member, rfl⟩ := List.mem_map.mp place
    rw [Seat.id_receive, Ends.id_seatOf] at gone ⊢
    cases active : s.isActive with
    | true => exact .inr ⟨Table.mem_active.mpr ⟨s, member, active, rfl⟩, gone⟩
    | false => exact .inl (Table.mem_eliminated.mpr ⟨s, member, active, rfl⟩)
  · rintro (before | ⟨-, gone⟩)
    · obtain ⟨s, member, out, rfl⟩ := Table.mem_eliminated.mp before
      exact played.ends.eliminated_of_idle sound member out
    · exact gone

theorem closed_ended (going : g.phase = .running) :
    g.closed.hasEnded = true ↔ g.table.active.length ≤ 1 := by
  rw [closed, checkEnd_eq]
  by_cases few : g.table.active.length ≤ 1
  · simp [hasEnded, going, few]
  · simp [hasEnded, going, few]

theorem Played.agrees (sound : g.table.Sound) (going : g.hasEnded = false)
    (played : g.Played n report settled) : Agrees g report settled.closed := by
  have ends := played.ends
  have ordered := ends.ascending_end sound
  have running : settled.phase = .running := by
    rw [ends.frame]
    simpa [hasEnded] using going
  constructor
  case won_iff => rw [played.winner, ends.won_iff]
  case steps =>
    intro steps fought
    obtain ⟨count, some, rfl, enough⟩ := Ends.steps_end (fought ▸ ends)
    refine ⟨count, some, rfl, fun few => ?_⟩
    rw [UInt32.toNat_ofNat_of_lt']
    rw [UInt32.size]
    omega
  case lastWinner => rw [closed_lastWinner, played.winner]
  case winner =>
    intro w won
    rw [played.winner] at won
    obtain ⟨before, active, holds⟩ := ends.winner_end sound won
    rw [closed_table]
    refine ⟨before, active, fun gone => ?_, holds⟩
    exact Table.not_active_of_eliminated ordered ((played.mem_eliminated sound w).mp gone).2 active
  case ascending =>
    rw [played.eliminated]
    exact (Table.active_pairwise sound.ascending).sublist List.filter_sublist
  case eliminated =>
    rw [closed_table]
    exact played.mem_eliminated sound
  case endsGame => exact played.endsGame
  case ended_iff => rw [closed_table, closed_ended running]
  case rounds =>
    rw [closed, checkEnd_eq, ends.frame]

theorem played_of_advance (sound : g.Sound) (done : g.advance = (.ok report, after)) :
    g.hasEnded = false ∧ ∃ n settled, g.Played n report settled ∧ after = settled.closed := by
  cases ended : g.hasEnded with
  | true =>
    rw [advance_of_ended ended] at done
    cases done
  | false =>
    obtain ⟨n, told, settled, played⟩ := exists_played sound.table
    rw [advance_of_going sound.table ended, played.round] at done
    cases done
    exact ⟨rfl, n, settled, played, rfl⟩

theorem agrees_of_advance (sound : g.Sound) (done : g.advance = (.ok report, after)) :
    Agrees g report after := by
  obtain ⟨going, n, settled, played, rfl⟩ := played_of_advance sound done
  exact played.agrees sound.table going

theorem mem_eliminated_of_advance (sound : g.Sound) (done : g.advance = (.ok report, after))
    (id : PlayerId) :
    id ∈ after.table.eliminated ↔ id ∈ g.table.eliminated ∨ id ∈ report.eliminated := by
  obtain ⟨-, n, settled, played, rfl⟩ := played_of_advance sound done
  rw [closed_table]
  exact played.mem_eliminated_end sound.table id

/-! ### The reports of a game -/

/-- Rounds that follow one another, with what they report. -/
inductive PlaysOut (start : Game) : List RoundReport → Game → Prop where
  | nil : PlaysOut start [] start
  | snoc {reports : List RoundReport} {before after : Game} {report : RoundReport}
      (earlier : PlaysOut start reports before) (played : before.advance = (.ok report, after)) :
      PlaysOut start (reports ++ [report]) after

variable {start : Game} {reports : List RoundReport}

theorem PlaysOut.sound (sound : start.Sound) (played : PlaysOut start reports g) : g.Sound := by
  induction played with
  | nil => exact sound
  | snoc earlier done ih =>
    have next := ih.advance
    rw [done] at next
    exact next

theorem PlaysOut.stays (sound : start.Sound) (played : PlaysOut start reports g) {id : PlayerId}
    (gone : id ∈ start.table.eliminated) : id ∈ g.table.eliminated := by
  induction played with
  | nil => exact gone
  | snoc earlier done ih =>
    exact (mem_eliminated_of_advance (earlier.sound sound) done id).mpr (.inl ih)

/-- The reports of a game in which nobody is out at first name everybody who is out once. -/
theorem PlaysOut.once (sound : start.Sound) (all : start.table.eliminated = [])
    (played : PlaysOut start reports g) :
    (reports.flatMap fun report => report.eliminated).Perm g.table.eliminated := by
  induction played with
  | nil => rw [all, List.flatMap_nil]
  | @snoc reports before after report earlier done ih =>
    have fair := earlier.sound sound
    have next := fair.advance
    rw [done] at next
    have agrees := agrees_of_advance fair done
    -- Who is reported was active until this round, so nobody is named again.
    have fresh : (before.table.eliminated ++ report.eliminated).Nodup := by
      refine List.nodup_append'.mpr ⟨Table.eliminated_nodup fair.table.ascending,
        agrees.ascending.imp PlayerId.ne_of_lt, fun id gone told => ?_⟩
      exact Table.not_active_of_eliminated fair.table.ascending gone
        ((agrees.eliminated id).mp told).1
    have named : (before.table.eliminated ++ report.eliminated).Perm after.table.eliminated :=
      (List.perm_ext_iff_of_nodup fresh (Table.eliminated_nodup next.table.ascending)).mpr
        fun id => by rw [List.mem_append, mem_eliminated_of_advance fair done]
    rw [List.flatMap_append, List.flatMap_singleton]
    exact (ih.append_right report.eliminated).trans named

theorem PlaysOut.rounds (sound : start.Sound) (played : PlaysOut start reports g) :
    g.rounds = start.rounds + UInt32.ofNat reports.length := by
  induction played with
  | nil => simp
  | snoc earlier done ih =>
    rw [(agrees_of_advance (earlier.sound sound) done).rounds, ih, List.length_append]
    simp [UInt32.ofNat_add, UInt32.add_assoc]

/-! ### Games that are dealt -/

theorem start_of_dealTo {settings : Settings} {players : List Player} {tries : Nat}
    {entropy : UInt64} (dealt : dealTo settings players tries entropy = .ok (.ok start)) :
    start.Sound ∧ start.rounds = 0 ∧ start.table.eliminated = [] := by
  obtain ⟨fresh, made, done⟩ := dealTo_eq_ok_iff.mp dealt
  have sound := (Sound.ofSettings made).joinAll players
  have bare : fresh.table = [] ∧ fresh.rounds = 0 := by
    rw [ofSettings_eq made]
    exact ⟨rfl, rfl⟩
  have playing := joinAll_active (g := fresh) (by simp [bare.1]) players
  refine ⟨sound.deal done, ?_, ?_⟩
  · rw [deal_frame done]
    exact joinAll_keeps (P := fun g => g.rounds = 0) (fun _ _ same => same) players bare.2
  · rw [(deal_shares sound.table.ascending done).1]
    apply List.eq_nil_iff_forall_not_mem.mpr
    intro id gone
    obtain ⟨t, place, out, -⟩ := Table.mem_eliminated.mp gone
    obtain ⟨s, member, rfl⟩ := List.mem_map.mp place
    rw [Seat.isActive_receive, playing s member] at out
    cases out

/-- What the reports of a game come to, with the report of a next round. -/
structure Accounts (reports : List RoundReport) (g : Game) : Prop where
  next : ∀ report after, g.advance = (.ok report, after) → Agrees g report after
  rounds : g.rounds.toNat = reports.length
  disjoint : reports.Pairwise fun first second => first.eliminated.Disjoint second.eliminated
  eliminated : ∀ id, id ∈ g.table.eliminated ↔ ∃ report ∈ reports, id ∈ report.eliminated
  stays : ∀ more after, PlaysOut g more after → ∀ id ∈ g.table.eliminated,
    id ∈ after.table.eliminated ∧ id ∉ after.table.active

/-- In a game that is dealt every report agrees with its round, and everybody who is out is reported
once. -/
theorem accounts_of_dealt {settings : Settings} {players : List Player} {tries : Nat}
    {entropy : UInt64} (dealt : dealTo settings players tries entropy = .ok (.ok start))
    (played : PlaysOut start reports g) (short : reports.length < 2 ^ 32) :
    Accounts reports g := by
  obtain ⟨sound, zero, all⟩ := start_of_dealTo dealt
  have fair := played.sound sound
  have once := played.once sound all
  constructor
  case next => exact fun report after done => agrees_of_advance fair done
  case rounds =>
    rw [played.rounds sound, zero, UInt32.zero_add]
    exact UInt32.toNat_ofNat_of_lt' short
  case disjoint =>
    have distinct := once.nodup_iff.mpr (Table.eliminated_nodup fair.table.ascending)
    exact (List.nodup_flatMap.mp distinct).2
  case eliminated =>
    intro id
    rw [← once.mem_iff, List.mem_flatMap]
  case stays =>
    intro more after later id gone
    have still := later.stays fair gone
    exact ⟨still, Table.not_active_of_eliminated (later.sound fair).table.ascending still⟩

/-- The first round of three players, with cards of their own and with a pack that the seed 7 has
shuffled. -/
theorem accounts_trio :
    (∃ start report g, dealTo { packs := 0, shuffled := false } trio 0 0 = .ok (.ok start) ∧
      PlaysOut start [report] g ∧ [report].length < 2 ^ 32 ∧ Accounts [report] g) ∧
    ∃ deck start report g, Settings.deck { seed := some 7 } 8 0 = .ok deck ∧
      deck ≠ Pile.packs 1 ∧ dealTo { seed := some 7 } trio 8 0 = .ok (.ok start) ∧
      PlaysOut start [report] g ∧ [report].length < 2 ^ 32 ∧ Accounts [report] g := by
  have short (report : RoundReport) : [report].length < 2 ^ 32 := by simp
  constructor
  · have dealt : dealTo { packs := 0, shuffled := false } trio 0 0 =
        .ok (.ok { tiedThree with wasDealt := true }) := rfl
    obtain ⟨sound, -⟩ := start_of_dealTo dealt
    obtain ⟨n, report, settled, played⟩ := exists_played sound.table
    have done := (advance_of_going sound.table rfl).trans played.round
    exact ⟨_, report, _, dealt, .snoc .nil done, short report,
      accounts_of_dealt dealt (.snoc .nil done) (short report)⟩
  · obtain ⟨deck, ready, shuffled⟩ := Settings.exists_shuffled
    obtain ⟨start, dealt, gathered⟩ := gathered_of_dealt ready (show trio ≠ [] by decide)
    obtain ⟨sound, -⟩ := start_of_dealTo dealt
    have going : start.hasEnded = false := by
      obtain ⟨fresh, made, done⟩ := dealTo_eq_ok_iff.mp dealt
      rw [hasEnded, deal_phase done, joinAll_phase, ofSettings_eq made]
      rfl
    obtain ⟨n, report, settled, played⟩ := exists_played sound.table
    have done := (advance_of_going sound.table going).trans played.round
    exact ⟨deck, start, report, _, ready, shuffled, dealt, .snoc .nil done, short report,
      accounts_of_dealt dealt (.snoc .nil done) (short report)⟩

end Game

end WarGame
