import WarGame.Proofs.RoundReports

/-!
# How final the end of a game is

At the end of a game only the phase is fixed. The verdict is read off the players who are active, so
what the players at the table do leaves it as it is, and a player who joins changes it.
-/

namespace WarGame

namespace Table

variable {table other : Table} {id : PlayerId}

theorem active_eq_of_mem_iff (ascending : table.Ascending) (ordered : other.Ascending)
    (same : ∀ id, id ∈ other.active ↔ id ∈ table.active) : other.active = table.active := by
  have alike : other.active.Perm table.active :=
    (List.perm_ext_iff_of_nodup (active_nodup ordered) (active_nodup ascending)).mpr same
  refine alike.eq_of_pairwise (fun a b _ _ less more => ?_) (active_pairwise ordered)
    (active_pairwise ascending)
  exact (PlayerId.lt_irrefl a (PlayerId.lt_trans less more)).elim

theorem mem_active_seat (ascending : table.Ascending) (p : Player) :
    id ∈ (table.seat (.ofPlayer p)).active ↔ id ∈ table.active ∨ id = p.id := by
  have seated := fun s => (seat_perm ascending (.ofPlayer p)).mem_iff (a := s)
  rw [mem_active, mem_active]
  constructor
  · rintro ⟨s, member, active, rfl⟩
    rcases List.mem_cons.mp ((seated s).mp member) with rfl | kept
    · exact .inr rfl
    · exact .inl ⟨s, List.mem_of_mem_filter kept, active, rfl⟩
  · intro known
    by_cases named : id = p.id
    · subst named
      exact ⟨.ofPlayer p, (seated _).mpr List.mem_cons_self, rfl, rfl⟩
    · obtain ⟨s, member, active, rfl⟩ := known.resolve_right named
      refine ⟨s, (seated s).mpr (List.mem_cons_of_mem _ ?_), active, rfl⟩
      exact List.mem_filter.mpr ⟨member, decide_eq_true named⟩

theorem active_sublist_of_map {change : Seat → Seat} (ids : ∀ s, (change s).id = s.id)
    (leaves : ∀ s ∈ table, (change s).isActive = true → s.isActive = true) :
    (Table.active (table.map change)).Sublist table.active := by
  induction table with
  | nil => exact .refl _
  | cons s rest ih =>
    have behind := ih fun t member => leaves t (List.mem_cons_of_mem s member)
    unfold active at behind ⊢
    rw [List.map_cons, List.filter_cons, List.filter_cons]
    by_cases playing : (change s).isActive = true
    · rw [if_pos playing, if_pos (leaves s List.mem_cons_self playing), List.map_cons,
        List.map_cons, ids]
      exact behind.cons_cons s.id
    · rw [if_neg playing]
      split
      · exact behind.cons s.id
      · exact behind

end Table

/-- A war puts nobody in the game who was out. -/
theorem Fray.war_active_le {fray : Fray} {tied : List PlayerId}
    (ascending : fray.table.Ascending) :
    (fray.war tied).fray.table.active.length ≤ fray.table.active.length := by
  suffices kept : (fray.war tied).fray.table.Ascending ∧
      (fray.war tied).fray.table.active.length ≤ fray.table.active.length from kept.2
  refine war_induction (P := fun later => later.table.Ascending ∧
    later.table.active.length ≤ fray.table.active.length) (fun stage later s kept _ => ?_)
    (fun stage later s kept seated active => ?_) ⟨ascending, Nat.le_refl _⟩
  · refine ⟨kept.1.modify fun _ => rfl, Nat.le_trans ?_ kept.2⟩
    refine (Table.active_sublist_of_map (fun t => ?_) fun t _ playing => ?_).length_le
    · split <;> rfl
    · split at playing
      · rw [Seat.isActive_play, Bool.and_eq_true] at playing
        exact playing.2
      · exact playing
  · have given : (later.table.give s.id later.prize).seat? s.id = some (s.receive later.prize) := by
      rw [Table.give, Table.seat?_modify fun t => t.id_receive _, seated, Option.map_some,
        if_pos rfl]
    have same := Table.modify_reinstate kept.1.give given active
    unfold award
    dsimp only
    rw [same, ite_self, Table.active_give]
    exact ⟨kept.1.give, kept.2⟩

namespace Game

variable {g after : Game} {verdict : Verdict}

/-! ### The verdict -/

theorem verdict?_congr {h : Game} (phase : h.phase = g.phase)
    (active : h.table.active = g.table.active) : h.verdict? = g.verdict? := by
  unfold verdict?
  rw [phase, active]

theorem verdict?_winner_iff (finished : g.phase = .finished) {w : PlayerId} :
    g.verdict? = some (.winner w) ↔ g.table.active = [w] := by
  refine ⟨verdict?_winner, fun alone => ?_⟩
  simp [verdict?, finished, alone]

theorem verdict?_draw_iff (finished : g.phase = .finished) :
    g.verdict? = some .draw ↔ g.table.active.length ≠ 1 := by
  refine ⟨fun drawn => (verdict?_draw (by simp [finished]) drawn).2, fun many => ?_⟩
  unfold verdict?
  rw [finished]
  rcases known : g.table.active with _ | ⟨w, _ | ⟨v, others⟩⟩
  · rfl
  · simp [known] at many
  · rfl

theorem finished_of_verdict (sound : g.Sound) (ended : g.verdict? = some verdict) :
    g.phase = .finished := by
  have unfailed := sound.unfailed
  unfold verdict? at ended
  cases known : g.phase with
  | running => simp [known] at ended
  | failed => exact (unfailed known).elim
  | finished => rfl

/-! ### After the end -/

/-- Calls of players who go on with a game, and the ids of those who join on the way. -/
inductive Later (g : Game) : List PlayerId → Game → Prop where
  | refl : Later g [] g
  | plays {joined : List PlayerId} {before after : Game} (earlier : Later g joined before)
      (going : Plays before after) : Later g joined after
  | join {joined : List PlayerId} {before : Game} (earlier : Later g joined before) (p : Player) :
      Later g (joined ++ [p.id]) (before.join p)
  | joinAll {joined : List PlayerId} {before : Game} (earlier : Later g joined before)
      (players : List Player) :
      Later g (joined ++ players.map fun p => p.id) (before.joinAll players)

theorem plays_of_ended (ended : g.hasEnded = true) (going : Plays g after) :
    after.phase = g.phase ∧ after.table.active = g.table.active := by
  refine going.keeps
    (P := fun after => after.phase = g.phase ∧ after.table.active = g.table.active)
    (fun before same => ?_) (fun before after same dealt => ?_) (fun before same => ?_) ⟨rfl, rfl⟩
  · have still : before.hasEnded = true := by rw [hasEnded, same.1]; exact ended
    rw [advance_of_ended still]
    exact same
  · rw [deal_phase dealt, (deal_dealt dealt).1]
    exact same
  · have going : before.phase ≠ .running := by simpa [same.1, hasEnded] using ended
    rw [checkEnd_eq]
    simpa [going] using same

theorem mem_active_joinAll (sound : g.Sound) (players : List Player) (id : PlayerId) :
    id ∈ (g.joinAll players).table.active ↔
      id ∈ g.table.active ∨ id ∈ players.map fun p => p.id := by
  induction players generalizing g with
  | nil => simp [joinAll]
  | cons p rest ih =>
    have first : id ∈ (g.join p).table.active ↔ id ∈ g.table.active ∨ id = p.id :=
      Table.mem_active_seat sound.table.ascending p
    have behind := ih (sound.join p)
    rw [first] at behind
    rw [List.map_cons, List.mem_cons, ← or_assoc]
    exact behind

/-- After the end a game stays at its end, and the active players are those of the end and those who
joined. -/
theorem Later.of_ended {joined : List PlayerId} (later : Later g joined after) (sound : g.Sound)
    (ended : g.hasEnded = true) : after.Sound ∧ after.phase = g.phase ∧
      ∀ id, id ∈ after.table.active ↔ id ∈ g.table.active ∨ id ∈ joined := by
  induction later with
  | refl => exact ⟨sound, rfl, by simp⟩
  | plays earlier going ih =>
    obtain ⟨fair, phase, active⟩ := ih
    obtain ⟨same, kept⟩ := plays_of_ended (by rw [hasEnded, phase]; exact ended) going
    exact ⟨fair.plays going, same.trans phase, fun id => by rw [kept, active]⟩
  | join earlier p ih =>
    obtain ⟨fair, phase, active⟩ := ih
    refine ⟨fair.join p, phase, fun id => ?_⟩
    rw [List.mem_append, List.mem_singleton, ← or_assoc, ← active]
    exact Table.mem_active_seat fair.table.ascending p
  | joinAll earlier players ih =>
    obtain ⟨fair, phase, active⟩ := ih
    refine ⟨fair.joinAll players, (joinAll_phase players).trans phase, fun id => ?_⟩
    rw [List.mem_append, ← or_assoc, ← active]
    exact mem_active_joinAll fair players id

/-! ### Draws of games that nobody joins at the end -/

/-- A call on a game that nobody joins once it has ended. -/
inductive Timely (g : Game) : Game → Prop where
  | plays {after : Game} (going : Plays g after) : Timely g after
  | openRound : Timely g g.openRound.2.2
  | goToWar (tied : List PlayerId) (prize : Pile) : Timely g (g.goToWar tied prize).2.2
  | round : Timely g g.round.2
  | join (going : g.phase = .running) (p : Player) : Timely g (g.join p)
  | joinAll (going : g.phase = .running) (players : List Player) : Timely g (g.joinAll players)

/-- A new game after calls none of which lets anybody join at the end. -/
def TimelyReached (g : Game) : Prop :=
  ∃ settings tries entropy fresh, ofSettings settings tries entropy = .ok fresh ∧
    Relation.ReflTransGen Timely fresh g

/-- At most one player is active at the end. -/
structure Closes (g : Game) : Prop where
  sound : g.Sound
  few : g.phase = .finished → g.table.active.length ≤ 1

theorem Ends.active_le {n : Nat} {decision : Decision} (sound : g.table.Sound)
    (ends : g.Ends n decision after) : after.table.active.length ≤ g.table.active.length := by
  rw [ends.table_end sound]
  refine (Table.active_sublist_of_map (fun s => ?_) fun s member active => ?_).length_le
  · rw [Seat.id_receive, Ends.id_seatOf]
  · rw [Seat.isActive_receive, Ends.isActive_end sound ends member] at active
    exact (Table.mem_contenders.mp active.1).2.1

namespace Closes

theorem checkEnd (closes : g.Closes) : g.checkEnd.Closes :=
  ⟨closes.sound.checkEnd, checkEnd_ended closes.few⟩

theorem deal (closes : g.Closes) (dealt : g.deal = (.ok (), after)) : after.Closes := by
  refine ⟨closes.sound.deal dealt, ?_⟩
  rw [deal_phase dealt, (deal_dealt dealt).1]
  exact closes.few

theorem round (closes : g.Closes) : g.round.2.Closes := by
  obtain ⟨n, report, settled, played⟩ := exists_played closes.sound.table
  have next := closes.sound.round
  have fewer := played.ends.active_le closes.sound.table
  rw [played.round] at next ⊢
  refine ⟨next, checkEnd_ended fun finished => ?_⟩
  have before : g.phase = .finished := by
    rw [← finished, played.ends.frame]
  exact Nat.le_trans fewer (closes.few before)

theorem advance (closes : g.Closes) : g.advance.2.Closes :=
  advance_keeps closes.sound.table closes fun _ => closes.round

theorem timely (closes : g.Closes) (call : Timely g after) : after.Closes := by
  cases call with
  | plays going =>
    exact going.keeps (fun _ => advance) (fun _ _ closes dealt => closes.deal dealt)
      (fun _ => checkEnd) closes
  | openRound =>
    refine ⟨closes.sound.openRound, fun finished => Nat.le_trans ?_ (closes.few finished)⟩
    refine (Table.active_sublist_of_map (fun s => s.id_play .opening) fun s _ active => ?_).length_le
    rw [Seat.isActive_play, Bool.and_eq_true] at active
    exact active.2
  | goToWar tied prize =>
    refine ⟨closes.sound.goToWar tied prize, fun finished => Nat.le_trans ?_ (closes.few finished)⟩
    exact Fray.war_active_le closes.sound.table.ascending
  | round => exact closes.round
  | join going p =>
    refine ⟨closes.sound.join p, fun finished => ?_⟩
    rw [show (g.join p).phase = g.phase from rfl, going] at finished
    cases finished
  | joinAll going players =>
    refine ⟨closes.sound.joinAll players, fun finished => ?_⟩
    rw [joinAll_phase, going] at finished
    cases finished

end Closes

theorem TimelyReached.closes (reached : g.TimelyReached) : g.Closes := by
  obtain ⟨settings, tries, entropy, fresh, made, called⟩ := reached
  induction called with
  | refl =>
    refine ⟨.ofSettings made, fun _ => ?_⟩
    rw [ofSettings_eq made]
    exact Nat.zero_le 1
  | tail _ call ih => exact ih.timely call

theorem Closes.nobody_of_draw (closes : g.Closes) (drawn : g.verdict? = some .draw) :
    g.table.active = [] := by
  obtain ⟨finished, many⟩ := verdict?_draw closes.sound.unfailed drawn
  have few := closes.few finished
  exact List.eq_nil_of_length_eq_zero (by omega)

/-! ### What is settled -/

/-- What the end of a game settles, and what it leaves open. -/
structure SettledFor (g : Game) (verdict : Verdict) : Prop where
  winner : ∀ w, verdict = .winner w ↔ g.table.active = [w]
  draw : verdict = .draw ↔ g.table.active.length ≠ 1
  /-- Nobody is active in a draw, unless somebody joined after the end. -/
  nobody : verdict = .draw → g.TimelyReached → g.table.active = []
  /-- The players at the table cannot change the verdict. -/
  plays : ∀ after, Relation.ReflTransGen Plays g after → after.verdict? = some verdict
  /-- The end stays, and whoever joins is active. -/
  later : ∀ joined after, Later g joined after → after.phase = .finished ∧
    ∀ id, id ∈ after.table.active ↔ id ∈ g.table.active ∨ id ∈ joined
  /-- The verdict stays if nobody joins who was not active. -/
  known : ∀ joined after, Later g joined after → (∀ id ∈ joined, id ∈ g.table.active) →
    after.verdict? = some verdict
  /-- One player who joins turns a win into a draw, and a draw without players into a win. -/
  newcomer : ∀ p : Player, p.id ∉ g.table.active →
    (g.join p).verdict? = some (if g.table.active = [] then .winner p.id else .draw)

theorem Later.of_plays (played : Relation.ReflTransGen Plays g after) : Later g [] after := by
  induction played with
  | refl => exact .refl
  | tail _ going ih => exact .plays ih going

theorem Later.verdict_eq {joined : List PlayerId} (later : Later g joined after) (sound : g.Sound)
    (ended : g.verdict? = some verdict) (seated : ∀ id ∈ joined, id ∈ g.table.active) :
    after.verdict? = some verdict := by
  have past : g.hasEnded = true := by simp [hasEnded, finished_of_verdict sound ended]
  obtain ⟨fair, phase, active⟩ := later.of_ended sound past
  have same : after.table.active = g.table.active := by
    refine Table.active_eq_of_mem_iff sound.table.ascending fair.table.ascending fun id => ?_
    rw [active]
    exact or_iff_left_of_imp (seated id)
  rw [verdict?_congr phase same, ended]

theorem verdict?_join (sound : g.Sound) (finished : g.phase = .finished) {p : Player}
    (fresh : p.id ∉ g.table.active) :
    (g.join p).verdict? = some (if g.table.active = [] then .winner p.id else .draw) := by
  have active : ∀ id, id ∈ (g.join p).table.active ↔ id ∈ g.table.active ∨ id = p.id :=
    fun id => Table.mem_active_seat sound.table.ascending p
  have distinct := Table.active_nodup (sound.join p).table.ascending
  have still : (g.join p).phase = .finished := finished
  have here : p.id ∈ (g.join p).table.active := (active p.id).mpr (.inr rfl)
  split
  · next nobody =>
    refine (verdict?_winner_iff still).mpr ?_
    have only : ∀ id ∈ (g.join p).table.active, id = p.id := by
      intro id playing
      simpa [nobody] using (active id).mp playing
    rcases known : (g.join p).table.active with _ | ⟨w, _ | ⟨v, others⟩⟩
    · simp [known] at here
    · rw [only w (by simp [known])]
    · have same := (only w (by simp [known])).trans (only v (by simp [known])).symm
      simp [known, same] at distinct
  · next somebody =>
    refine (verdict?_draw_iff still).mpr fun one => ?_
    obtain ⟨w, playing⟩ := List.exists_mem_of_ne_nil _ somebody
    obtain ⟨v, alone⟩ := List.length_eq_one_iff.mp one
    have also := (active w).mpr (.inl playing)
    rw [alone, List.mem_singleton] at here also
    exact fresh (here ▸ also ▸ playing)

/-- At the end the verdict is settled for the players at the table, and open to those who join. -/
theorem settledFor_of_reachable (reachable : Reachable g) (ended : g.verdict? = some verdict) :
    g.SettledFor verdict := by
  have sound := reachable.sound
  have finished := finished_of_verdict sound ended
  have past : g.hasEnded = true := by simp [hasEnded, finished]
  constructor
  case winner =>
    intro w
    rw [← verdict?_winner_iff finished, ended, Option.some.injEq]
  case draw => rw [← verdict?_draw_iff finished, ended, Option.some.injEq]
  case nobody =>
    rintro rfl reached
    exact reached.closes.nobody_of_draw ended
  case plays => exact fun after played => (Later.of_plays played).verdict_eq sound ended (by simp)
  case later =>
    intro joined after later
    obtain ⟨-, phase, active⟩ := later.of_ended sound past
    exact ⟨phase.trans finished, active⟩
  case known => exact fun joined after later seated => later.verdict_eq sound ended seated
  case newcomer => exact fun p fresh => verdict?_join sound finished fresh

/-- A game of two players at its end, as one of them had no card to place. -/
def oneLeft : Game :=
  (Game.joinAll { settings := { packs := 0, shuffled := false }, deck := [] } <|
    (trio.take 2).map fun p => { p with hand := p.hand.drop 3 }).advance.2

theorem oneLeft_reachable : Reachable oneLeft :=
  ⟨{ packs := 0, shuffled := false }, 0, 0, _, rfl,
    (Relation.ReflTransGen.single (.joinAll _)).tail (.plays .advance)⟩

theorem settledFor_oneLeft : ∃ w, Reachable oneLeft ∧ oneLeft.verdict? = some (.winner w) ∧
    oneLeft.SettledFor (.winner w) := by
  have ended : ∃ w, oneLeft.verdict? = some (.winner w) := ⟨_, rfl⟩
  obtain ⟨w, won⟩ := ended
  exact ⟨w, oneLeft_reachable, won, settledFor_of_reachable oneLeft_reachable won⟩

/-- The third player who joins that game turns the win into a draw, with two players active. -/
theorem overturned : ∃ w p, Reachable oneLeft ∧ oneLeft.verdict? = some (.winner w) ∧
    Reachable (oneLeft.join p) ∧ (oneLeft.join p).verdict? = some .draw ∧
    (oneLeft.join p).table.active.length = 2 := by
  obtain ⟨settings, tries, entropy, fresh, made, calls⟩ := oneLeft_reachable
  refine ⟨_, trio.getLastD default, oneLeft_reachable, rfl,
    ⟨settings, tries, entropy, fresh, made, calls.tail (.join _)⟩, ?_, ?_⟩
  · decide +kernel
  · decide +kernel

end Game

end WarGame
