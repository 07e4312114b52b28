import WarGame.Proofs.Finality
import WarGame.Proofs.SeatingOrder

/-!
# Playing in instalments

Play that stopped at a limit can be taken up again: limits that follow one another come to the
same rounds as their sum. A game that is played as a whole again and again is dealt once at most,
so its limits add up too.
-/

namespace WarGame

/-- A verdict in the words of a play with another limit. -/
def Verdict.withLimit (limit : UInt32) : Verdict → Verdict
  | .stalled _ => .stalled limit
  | .winner id => .winner id
  | .draw => .draw

namespace Game

variable {g after start : Game} {reports : List RoundReport} {settings : Settings} {seats : Nat}

/-! ### Limits that follow one another -/

theorem PlaysOut.cons {report : RoundReport} {next : Game} (first : g.advance = (.ok report, next))
    (rest : PlaysOut next reports after) : PlaysOut g (report :: reports) after := by
  induction rest with
  | nil => exact .snoc .nil first
  | snoc earlier played ih => exact .snoc ih played

/-- Fewer rounds are played than there may be only if the game ends before. -/
theorem playsOut_afterRounds (sound : g.Sound) (limit : Nat) :
    ∃ reports, PlaysOut g reports (g.afterRounds limit) ∧ reports.length ≤ limit ∧
      ((g.afterRounds limit).verdict? = none → reports.length = limit) := by
  induction limit generalizing g with
  | zero => exact ⟨[], .nil, Nat.le_refl _, fun _ => rfl⟩
  | succ limit ih =>
    cases ended : g.verdict? with
    | some verdict =>
      rw [afterRounds_of_ended ended, ended]
      exact ⟨[], .nil, Nat.zero_le _, by simp⟩
    | none =>
      obtain ⟨report, next, played, fair⟩ := exists_advance sound ended
      obtain ⟨reports, rest, within, whole⟩ := ih fair
      rw [afterRounds, played]
      refine ⟨report :: reports, rest.cons played, Nat.succ_le_succ within, fun going => ?_⟩
      rw [List.length_cons, whole going]

theorem afterRounds_sound (sound : g.Sound) (rounds : Nat) : (g.afterRounds rounds).Sound :=
  afterRounds_keeps (fun _ fair => Sound.advance fair) rounds sound

theorem verdict?_ne_stalled (g : Game) (n : UInt32) : g.verdict? ≠ some (.stalled n) := by
  unfold verdict?
  split
  · simp
  · simp
  · split <;> simp

/-- A verdict that is read with one limit becomes the one that is read with another. -/
theorem withLimit_getD (g : Game) (first second : UInt32) :
    (g.verdict?.getD (.stalled first)).withLimit second = g.verdict?.getD (.stalled second) := by
  have settled := verdict?_ne_stalled g
  rcases known : g.verdict? with _ | ⟨w | _ | n⟩
  · rfl
  · rfl
  · rfl
  · exact (settled n known).elim

theorem getD_eq_stalled {limit n : UInt32} :
    g.verdict?.getD (.stalled limit) = .stalled n ↔ g.verdict? = none ∧ limit = n := by
  have settled := verdict?_ne_stalled g n
  cases known : g.verdict? with
  | none => simp
  | some verdict =>
    rw [known] at settled
    simpa using settled

/-! ### A game played as a whole again and again -/

/-- The last of `k + 1` calls that play the game as a whole, each on what the one before left. -/
def playAgain (g : Game) (horizon : Nat) : Nat → Option (Except GameError Verdict × Game)
  | 0 => g.play horizon
  | k + 1 => (g.playAgain horizon k).bind fun earlier => earlier.2.play horizon

/-- A game with so many seats whose deck has been dealt, or that has nobody to deal it to. -/
structure Started (settings : Settings) (seats : Nat) (g : Game) : Prop where
  sound : g.Sound
  settings : g.settings = settings
  seats : g.table.length = seats
  dealt : g.wasDealt = true ∨ g.table.active = []

namespace Started

theorem of_deal (sound : g.Sound) (dealt : g.deal = (.ok (), start)) :
    start.Started g.settings g.table.length := by
  have playing := (deal_dealt dealt).1
  have shares := (deal_shares sound.table.ascending dealt).1
  refine ⟨sound.deal dealt, ?_, ?_, ?_⟩
  · rw [deal_frame dealt]
  · rw [shares, List.length_map]
  · rw [playing, deal_frame dealt]
    cases g.table.active <;> simp

theorem advance (started : g.Started settings seats) : g.advance.2.Started settings seats := by
  have fair := started.sound.table
  refine advance_keeps fair started fun _ => ?_
  have next := started.sound.round
  obtain ⟨n, report, settled, played, ends, -⟩ := round_ends fair
  rw [played] at next ⊢
  refine ⟨next, ?_, ?_, ?_⟩
  · rw [closed, checkEnd_eq, ends.frame]
    exact started.settings
  · rw [closed_table, ends.table_end fair, List.length_map]
    exact started.seats
  · -- A redeal may deal the deck of a game that was not dealt before, but not while nobody plays.
    rw [closed_table, closed, checkEnd_eq]
    dsimp only
    rcases started.dealt with dealt | nobody
    · exact .inl (by rw [ends.wasDealt, dealt, Bool.true_or])
    · have fewer := ends.active_le fair
      rw [nobody] at fewer
      exact .inr (List.eq_nil_of_length_eq_zero (Nat.le_zero.mp fewer))

theorem afterRounds (started : g.Started settings seats) (rounds : Nat) :
    (g.afterRounds rounds).Started settings seats :=
  afterRounds_keeps (fun _ started => advance started) rounds started

/-- A game that is dealt is played on at once. -/
theorem play (started : g.Started settings seats) (several : 2 ≤ seats) (horizon : Nat) :
    g.play horizon = g.playOn horizon settings.roundLimit := by
  have many : ¬ g.table.length < 2 := by
    rw [started.seats]
    omega
  unfold Game.play
  rw [if_neg many, started.settings]
  rcases started.dealt with dealt | nobody
  · rw [if_pos dealt]
  · -- the deck is dealt once more, to nobody
    have seated : g.table ≠ [] := List.ne_nil_of_length_pos (by omega)
    rw [deal_eq seated, if_pos nobody]
    dsimp only
    rw [started.settings, ite_self]

theorem playAgain (started : g.Started settings seats) (several : 2 ≤ seats) {m : UInt32}
    (limited : settings.roundLimit = some m) (horizon k : Nat) :
    g.playAgain horizon k =
      some (.ok ((g.afterRounds ((k + 1) * m.toNat)).verdict?.getD (.stalled m)),
        g.afterRounds ((k + 1) * m.toNat)) := by
  induction k with
  | zero =>
    rw [Game.playAgain, started.play several, limited, playOn_eq started.sound, Nat.zero_add,
      Nat.one_mul]
  | succ k ih =>
    have next := started.afterRounds ((k + 1) * m.toNat)
    rw [Game.playAgain, ih, Option.bind_some, next.play several, limited, playOn_eq next.sound,
      ← afterRounds_add, ← Nat.succ_mul]

end Started

/-- The game with its deck dealt, unless it has been before. -/
def dealOnce (g : Game) : Except GameError Unit × Game :=
  if g.wasDealt then (.ok (), g) else g.deal

theorem exists_dealOnce (sound : g.Sound) (several : 2 ≤ g.table.length) :
    ∃ start, g.dealOnce = (.ok (), start) ∧ start.Started g.settings g.table.length ∧
      ∀ horizon, g.play horizon = start.play horizon := by
  unfold dealOnce
  cases known : g.wasDealt with
  | true => exact ⟨g, rfl, ⟨sound, rfl, rfl, .inl known⟩, fun _ => rfl⟩
  | false =>
    have seated : g.table ≠ [] := List.ne_nil_of_length_pos (by omega)
    obtain ⟨start, dealt⟩ := exists_deal seated
    have started := Started.of_deal sound dealt
    have many : ¬ g.table.length < 2 := by omega
    refine ⟨start, dealt, started, fun horizon => ?_⟩
    rw [started.play several, Game.play, if_neg many, known, dealt, ← started.settings]
    rfl

theorem playAgain_congr {horizon : Nat} (same : g.play horizon = start.play horizon) (k : Nat) :
    g.playAgain horizon k = start.playAgain horizon k := by
  induction k with
  | zero => exact same
  | succ k ih => rw [playAgain, playAgain, ih]

/-! ### A game that is set up by hand -/

/-- A game that players join and that is then played, beside one that is dealt to the players when
it is made. The one is dealt when it is first played, which takes two players. -/
structure PlaysAlike (settings : Settings) (players : List Player) (tries : Nat)
    (entropy other : UInt64) : Prop where
  failed : ∀ e, ofSettings settings tries entropy = .error e →
    dealTo settings players tries other = .error e
  alike : ∀ fresh, ofSettings settings tries entropy = .ok fresh →
    2 ≤ (fresh.joinAll players).table.length → ∃ start,
      dealTo settings players tries other = .ok (.ok start) ∧
        ∀ horizon, (fresh.joinAll players).play horizon = start.play horizon
  refused : ∀ fresh, ofSettings settings tries entropy = .ok fresh →
    (fresh.joinAll players).table.length = 1 → ∃ start,
      dealTo settings players tries other = .ok (.ok start) ∧ ∀ horizon,
        (fresh.joinAll players).play horizon =
            some (.error (.tooFewPlayers 1 2), fresh.joinAll players) ∧
          start.play horizon = some (.error (.tooFewPlayers 1 2), start)

theorem playsAlike_of_seed {seed : UInt64} (seeded : settings.seed = some seed)
    (players : List Player) (tries : Nat) (entropy other : UInt64) :
    PlaysAlike settings players tries entropy other := by
  have made : dealTo settings players tries other = dealTo settings players tries entropy :=
    dealTo_congr seeded (fun _ => rfl) tries other entropy
  constructor
  case failed =>
    intro e failed
    rw [made, dealTo, failed]
    rfl
  case alike =>
    intro fresh ready several
    have sound := (Sound.ofSettings ready).joinAll players
    obtain ⟨start, dealt, -, same⟩ := exists_dealOnce sound several
    have undealt : (fresh.joinAll players).wasDealt = false := by
      rw [joinAll_eq, ofSettings_eq ready]
    rw [dealOnce, undealt] at dealt
    rw [made]
    exact ⟨start, dealTo_eq_ok_iff.mpr ⟨fresh, ready, dealt⟩, same⟩
  case refused =>
    intro fresh ready alone
    have sound := (Sound.ofSettings ready).joinAll players
    have seated : (fresh.joinAll players).table ≠ [] := List.ne_nil_of_length_pos (by omega)
    obtain ⟨start, dealt⟩ := exists_deal seated
    have also : start.table.length = 1 := (Started.of_deal sound dealt).seats.trans alone
    rw [made]
    refine ⟨start, dealTo_eq_ok_iff.mpr ⟨fresh, ready, dealt⟩, fun horizon => ⟨?_, ?_⟩⟩
    · rw [play, alone]
      rfl
    · rw [play, also]
      rfl

/-! ### Instalments -/

/-- What instalments of a game come to, in rounds and in calls that play it as a whole. -/
structure Instalments (g : Game) : Prop where
  resumed : ∀ a b horizon, g.rounds.toNat + a.toNat + b.toNat < 2 ^ 32 →
    ∃ first middle second after, g.playOn horizon (some a) = some (.ok first, middle) ∧
      middle.playOn horizon (some b) = some (.ok second, after) ∧
      g.playOn horizon (some (a + b)) = some (.ok (second.withLimit (a + b)), after) ∧
      (∀ n, first = .stalled n → n = a) ∧
      ((∀ n, first ≠ .stalled n) → second = first ∧ second.withLimit (a + b) = first)
  stalled : ∀ horizon limit n after, g.playOn horizon limit = some (.ok (.stalled n), after) →
    limit = some n ∧ after.verdict? = none
  counted : ∀ horizon limit verdict after, g.playOn horizon limit = some (.ok verdict, after) →
    ∃ reports, PlaysOut g reports after ∧
      (∀ n, limit = some n → reports.length ≤ n.toNat) ∧
      (∀ n, verdict = .stalled n → reports.length = n.toNat) ∧
      ((∀ n, verdict ≠ .stalled n) → after.verdict? = some verdict) ∧
      (g.rounds.toNat + reports.length < 2 ^ 32 →
        after.rounds.toNat = g.rounds.toNat + reports.length)
  replayed : ∀ m k horizon, 2 ≤ g.table.length → g.settings.roundLimit = some m →
    g.rounds.toNat + (k + 1) * m.toNat < 2 ^ 32 → ∃ start verdict after, g.dealOnce = (.ok (), start) ∧
      g.playAgain horizon k = some (.ok verdict, after) ∧
      start.playOn horizon (some (UInt32.ofNat ((k + 1) * m.toNat))) =
        some (.ok (verdict.withLimit (UInt32.ofNat ((k + 1) * m.toNat))), after)

/-- Play that returns has come to the end of the game or to its limit. -/
theorem playOn_cases (sound : g.Sound) {horizon : Nat} {limit : Option UInt32} {verdict : Verdict}
    (returned : g.playOn horizon limit = some (.ok verdict, after)) :
    ∃ rounds, after = g.afterRounds rounds ∧ (∀ n, limit = some n → rounds = n.toNat) ∧
      (after.verdict? = some verdict ∨
        after.verdict? = none ∧ ∃ n, limit = some n ∧ verdict = .stalled n) := by
  cases limit with
  | none =>
    refine ⟨horizon, ?_⟩
    rw [playOn_none sound] at returned
    cases known : (g.afterRounds horizon).verdict? with
    | none => simp [known] at returned
    | some verdict =>
      simp only [known] at returned
      cases returned
      exact ⟨rfl, by simp, .inl known⟩
  | some limit =>
    rw [playOn_eq sound] at returned
    cases returned
    refine ⟨limit.toNat, rfl, by simp, ?_⟩
    cases (g.afterRounds limit.toNat).verdict? with
    | none => exact .inr ⟨rfl, limit, rfl, rfl⟩
    | some verdict => exact .inl rfl

theorem resumed (sound : g.Sound) (a b : UInt32) (horizon : Nat)
    (small : a.toNat + b.toNat < 2 ^ 32) : ∃ first middle second after,
      g.playOn horizon (some a) = some (.ok first, middle) ∧
      middle.playOn horizon (some b) = some (.ok second, after) ∧
      g.playOn horizon (some (a + b)) = some (.ok (second.withLimit (a + b)), after) ∧
      (∀ n, first = .stalled n → n = a) ∧
      ((∀ n, first ≠ .stalled n) → second = first ∧ second.withLimit (a + b) = first) := by
  have middle := afterRounds_sound sound a.toNat
  have total : (a + b).toNat = a.toNat + b.toNat := by
    rw [UInt32.toNat_add]
    exact Nat.mod_eq_of_lt small
  refine ⟨_, _, _, _, playOn_eq sound horizon a, playOn_eq middle horizon b, ?_, ?_, ?_⟩
  · rw [playOn_eq sound, total, afterRounds_add, withLimit_getD]
  · exact fun n stopped => (getD_eq_stalled.mp stopped).2.symm
  · intro settled
    cases known : (g.afterRounds a.toNat).verdict? with
    | none => exact (settled a (getD_eq_stalled.mpr ⟨known, rfl⟩)).elim
    | some verdict =>
      rw [withLimit_getD, afterRounds_of_ended known, known]
      exact ⟨rfl, rfl⟩

theorem counted (sound : g.Sound) {horizon : Nat} {limit : Option UInt32} {verdict : Verdict}
    (returned : g.playOn horizon limit = some (.ok verdict, after)) :
    ∃ reports, PlaysOut g reports after ∧
      (∀ n, limit = some n → reports.length ≤ n.toNat) ∧
      (∀ n, verdict = .stalled n → reports.length = n.toNat) ∧
      ((∀ n, verdict ≠ .stalled n) → after.verdict? = some verdict) ∧
      (g.rounds.toNat + reports.length < 2 ^ 32 →
        after.rounds.toNat = g.rounds.toNat + reports.length) := by
  obtain ⟨rounds, rfl, limited, stopped⟩ := playOn_cases sound returned
  obtain ⟨reports, played, within, whole⟩ := playsOut_afterRounds sound rounds
  refine ⟨reports, played, ?_, ?_, ?_, ?_⟩
  · intro n known
    rw [← limited n known]
    exact within
  · rintro n rfl
    rcases stopped with ended | ⟨going, m, known, same⟩
    · exact (verdict?_ne_stalled _ n ended).elim
    · cases same
      rw [whole going, limited n known]
  · intro settled
    rcases stopped with ended | ⟨-, m, -, same⟩
    · exact ended
    · exact (settled m same).elim
  · intro small
    have few : reports.length < 2 ^ 32 := by omega
    rw [played.rounds sound, UInt32.toNat_add, UInt32.toNat_ofNat_of_lt' few]
    exact Nat.mod_eq_of_lt small

theorem replayed (sound : g.Sound) {m : UInt32} (k horizon : Nat) (several : 2 ≤ g.table.length)
    (limited : g.settings.roundLimit = some m) (small : (k + 1) * m.toNat < 2 ^ 32) :
    ∃ start verdict after, g.dealOnce = (.ok (), start) ∧
      g.playAgain horizon k = some (.ok verdict, after) ∧
      start.playOn horizon (some (UInt32.ofNat ((k + 1) * m.toNat))) =
        some (.ok (verdict.withLimit (UInt32.ofNat ((k + 1) * m.toNat))), after) := by
  obtain ⟨start, dealt, started, same⟩ := exists_dealOnce sound several
  have total : (UInt32.ofNat ((k + 1) * m.toNat)).toNat = (k + 1) * m.toNat :=
    UInt32.toNat_ofNat_of_lt' small
  have again := started.playAgain several limited horizon k
  rw [← playAgain_congr (same horizon)] at again
  refine ⟨start, _, _, dealt, again, ?_⟩
  rw [playOn_eq started.sound, total, withLimit_getD]

theorem instalments_of_reachable (reachable : Reachable g) : g.Instalments ∧
    ∀ settings players tries entropy other, settings.seed ≠ none →
      PlaysAlike settings players tries entropy other := by
  have sound := reachable.sound
  refine ⟨?_, fun settings players tries entropy other seeded => ?_⟩
  · constructor
    case resumed => exact fun a b horizon small => resumed sound a b horizon (by omega)
    case stalled =>
      intro horizon limit n after returned
      obtain ⟨rounds, rfl, -, ended | ⟨going, m, known, same⟩⟩ := playOn_cases sound returned
      · exact (verdict?_ne_stalled _ n ended).elim
      · cases same
        exact ⟨known, going⟩
    case counted => exact fun horizon limit verdict after returned => counted sound returned
    case replayed =>
      exact fun m k horizon several limited small =>
        replayed sound k horizon several limited (by omega)
  · obtain ⟨seed, seeded⟩ := Option.ne_none_iff_exists'.mp seeded
    exact playsAlike_of_seed seeded players tries entropy other

theorem instalments_tiedThree : Reachable tiedThree ∧ tiedThree.Instalments ∧
    ({ seed := some 7 } : Settings).seed ≠ none ∧ PlaysAlike { seed := some 7 } trio 8 0 1 := by
  have seeded : ({ seed := some 7 } : Settings).seed ≠ none := by simp
  obtain ⟨instalments, alike⟩ := instalments_of_reachable tiedThree_reachable
  exact ⟨tiedThree_reachable, instalments, seeded, alike _ trio 8 0 1 seeded⟩

end Game

end WarGame
