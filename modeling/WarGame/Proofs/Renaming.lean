import WarGame.Proofs.Lockstep

/-!
# Other names for the players

A game depends on the ids of its players by their order alone, and neither on the names nor on the
last cards of earlier rounds. Two games that differ in these alone answer every row of moves alike,
each under its own ids.
-/

namespace WarGame

def Verdict.rename (rename : PlayerId → PlayerId) : Verdict → Verdict
  | winner id => winner (rename id)
  | draw => draw
  | stalled rounds => stalled rounds

namespace Game

/-- A call that plays on with the players at the table. -/
inductive Move where
  | deal
  | advance
  | playOn (horizon : Nat) (limit : Option UInt32)
  | play (horizon : Nat)

/-- What a move answers. -/
inductive Answer where
  | dealt
  | report (report : RoundReport)
  | verdict (verdict : Verdict)
  | refused (cause : GameError)

/-- The answer under other ids. What a move of a sound game is refused for names nobody. -/
def Answer.rename (rename : PlayerId → PlayerId) : Answer → Answer
  | report outcome => report (outcome.rename rename)
  | verdict outcome => verdict (outcome.rename rename)
  | dealt => dealt
  | refused cause => refused cause

def Answer.of {α : Type} (make : α → Answer) : Except GameError α → Answer
  | .ok outcome => make outcome
  | .error cause => refused cause

/-- A move, unless the horizon of unlimited play is too near for an answer. -/
def move (g : Game) : Move → Option (Answer × Game)
  | .deal => some (.of (fun _ => .dealt) g.deal.1, g.deal.2)
  | .advance => some (.of .report g.advance.1, g.advance.2)
  | .playOn horizon limit =>
    (g.playOn horizon limit).map fun played => (.of .verdict played.1, played.2)
  | .play horizon => (g.play horizon).map fun played => (.of .verdict played.1, played.2)

def moves (g : Game) : List Move → Option (List Answer × Game)
  | [] => some ([], g)
  | next :: rest =>
    match g.move next with
    | none => none
    | some (answer, after) => (after.moves rest).map fun played => (answer :: played.1, played.2)

variable {rename : PlayerId → PlayerId} {g h after later : Game} {n : Nat}

/-- A game with other ids for its players. The names and the last cards may be any. -/
structure Renamed (rename : PlayerId → PlayerId) (g h : Game) : Prop
    extends Like rename (id : Card → Card) g h where
  settings : h.settings = g.settings
  lastWinner : h.lastWinner = g.lastWinner.map rename
  rounds : h.rounds = g.rounds
  wasDealt : h.wasDealt = g.wasDealt

def withLastCards (g : Game) (last : Seat → Option Card) : Game :=
  { g with table := g.table.map fun s => { s with lastCard := last s } }

theorem Renamed.sound (renamed : g.Renamed rename h) (sound : g.Sound)
    (increasing : ∀ s ∈ g.table, ∀ t ∈ g.table, s.id < t.id → rename s.id < rename t.id) :
    h.Sound := by
  obtain ⟨change, known, alike⟩ := renamed.table.exists_change sound.table.ascending
  refine ⟨⟨?_, ?_⟩, renamed.phase ▸ sound.unfailed⟩
  · rw [known]
    refine List.pairwise_map.mpr (sound.table.ascending.imp_of_mem fun {s t} member place less => ?_)
    rw [(alike s member).id, (alike t place).id]
    exact increasing s member t place less
  · intro t member out
    rw [known] at member
    obtain ⟨s, place, rfl⟩ := List.mem_map.mp member
    have like := alike s place
    rw [like.isActive] at out
    have same := like.hand
    rw [sound.table.emptied s place out] at same
    exact List.map_eq_nil_iff.mp same

/-! ### Single calls -/

namespace Renamed

variable (renamed : g.Renamed rename h) (sound : g.Sound) (fair : h.Sound)

include renamed

theorem verdict?_eq : h.verdict? = g.verdict?.map (Verdict.rename rename) := by
  unfold verdict?
  rw [renamed.phase, renamed.table.active]
  cases g.phase with
  | running => rfl
  | failed => rfl
  | finished => rcases g.table.active with _ | ⟨w, _ | ⟨v, others⟩⟩ <;> rfl

include sound fair

theorem deal_ok (dealt : g.deal = (.ok (), after)) :
    ∃ later, h.deal = (.ok (), later) ∧ after.Renamed rename later := by
  obtain ⟨later, again, alike⟩ := renamed.toLike.deal sound.table fair.table dealt
  refine ⟨later, again, alike, ?_, ?_, ?_, ?_⟩
  all_goals rw [deal_frame dealt, deal_frame again]
  · exact renamed.settings
  · exact renamed.lastWinner
  · exact renamed.rounds
  · simp only [renamed.wasDealt, renamed.table.active, List.isEmpty_map]

theorem round : ∃ report after later, g.round = (.ok report, after) ∧
    h.round = (.ok (report.rename rename), later) ∧ after.Renamed rename later := by
  obtain ⟨n, report, settled, m, late, played, again, alike⟩ :=
    renamed.toLike.round (fun _ _ same => congrArg Card.rank same) sound.table fair.table
      (.inl fun _ _ same => congrArg Card.suit same)
  have active := alike.table.active
  rw [closed_table, closed_table] at active
  refine ⟨report, _, _, played.round, again.round, alike, ?_, ?_, ?_, ?_⟩
  all_goals rw [closed, closed, checkEnd_eq, checkEnd_eq]
  · rw [played.ends.frame, again.ends.frame]
    exact renamed.settings
  · have won := again.winner
    rw [RoundReport.rename, played.winner] at won
    exact won.symm
  · rw [played.ends.frame, again.ends.frame]
    exact congrArg (· + 1) renamed.rounds
  · have kept := played.ends.wasDealt
    have also := again.ends.wasDealt
    rw [active, List.isEmpty_map, renamed.wasDealt] at also
    exact also.trans kept.symm

theorem advance : h.advance.1 = g.advance.1.map (RoundReport.rename rename) ∧
    g.advance.2.Renamed rename h.advance.2 := by
  have alike := renamed.toLike.hasEnded
  cases ended : g.hasEnded with
  | true =>
    rw [advance_of_ended ended, advance_of_ended (alike.trans ended)]
    exact ⟨rfl, renamed⟩
  | false =>
    obtain ⟨report, after, later, played, again, next⟩ := renamed.round sound fair
    rw [advance_of_going sound.table ended, advance_of_going fair.table (alike.trans ended), played,
      again]
    exact ⟨rfl, next⟩

theorem deal : h.deal.1 = g.deal.1 ∧ g.deal.2.Renamed rename h.deal.2 := by
  rcases dealt : g.deal with ⟨cause | done, after⟩
  · obtain ⟨empty, rfl, rfl⟩ := deal_error_iff.mp dealt
    have none := renamed.table
    rw [empty] at none
    rw [deal_error_iff.mpr ⟨List.forall₂_nil_left_iff.mp none, rfl, rfl⟩]
    exact ⟨rfl, renamed⟩
  · obtain ⟨later, again, next⟩ := renamed.deal_ok sound fair dealt
    rw [again]
    exact ⟨rfl, next⟩

/-- Two loops that count alike stop alike. -/
theorem playFrom (limit : Option UInt32) (horizon : Nat) (rounds : UInt32) :
    Option.Rel (fun first second => second.1 = first.1.map (Verdict.rename rename) ∧
        first.2.Renamed rename second.2)
      (g.playFrom limit horizon rounds) (h.playFrom limit horizon rounds) := by
  induction horizon generalizing g h rounds with
  | zero =>
    rw [Game.playFrom, Game.playFrom, renamed.verdict?_eq]
    cases g.verdict? with
    | some verdict => exact .some ⟨rfl, renamed⟩
    | none =>
      dsimp only [Option.map_none]
      split
      · exact .some ⟨rfl, renamed⟩
      · exact .none
  | succ horizon ih =>
    rw [Game.playFrom, Game.playFrom, renamed.verdict?_eq]
    cases known : g.verdict? with
    | some verdict => exact .some ⟨rfl, renamed⟩
    | none =>
      obtain ⟨report, after, played, sounder⟩ := exists_advance sound known
      obtain ⟨same, next⟩ := renamed.advance sound fair
      rcases again : h.advance with ⟨answer, later⟩
      have fairer := fair.advance
      rw [played, again] at same next
      rw [again] at fairer
      subst same
      dsimp only [Option.map_none]
      split
      · exact .some ⟨rfl, renamed⟩
      · rw [played]
        exact ih next sounder fairer (rounds + 1)

end Renamed

/-! ### Moves -/

theorem move_sound {next : Move} {answer : Answer} (sound : g.Sound)
    (moved : g.move next = some (answer, after)) : after.Sound := by
  cases next with
  | deal =>
    cases moved
    exact sound.plays .deal
  | advance =>
    cases moved
    exact sound.advance
  | playOn horizon limit =>
    obtain ⟨played, returned, same⟩ := Option.map_eq_some_iff.mp moved
    cases same
    exact sound.plays (.playOn returned)
  | play horizon =>
    obtain ⟨played, returned, same⟩ := Option.map_eq_some_iff.mp moved
    cases same
    exact sound.plays (.play returned)

/-- Answers and games alike under the other ids. -/
def Alike (rename : PlayerId → PlayerId) (first second : Answer × Game) : Prop :=
  second.1 = first.1.rename rename ∧ first.2.Renamed rename second.2

namespace Renamed

theorem playOn (renamed : g.Renamed rename h) (sound : g.Sound) (fair : h.Sound) (horizon : Nat)
    (limit : Option UInt32) :
    Option.Rel (Alike rename) (g.move (.playOn horizon limit)) (h.move (.playOn horizon limit)) := by
  have played := renamed.playFrom sound fair limit (limit.elim horizon UInt32.toNat) 0
  simp only [Game.move, Game.playOn]
  generalize Game.playFrom limit _ 0 g = first at played ⊢
  generalize Game.playFrom limit _ 0 h = second at played ⊢
  cases played with
  | none => exact .none
  | @some first second both =>
    obtain ⟨answer, after⟩ := first
    obtain ⟨other, later⟩ := second
    obtain ⟨rfl, next⟩ := both
    exact .some ⟨by cases answer <;> rfl, next⟩

theorem play (renamed : g.Renamed rename h) (sound : g.Sound) (fair : h.Sound) (horizon : Nat) :
    Option.Rel (Alike rename) (g.move (.play horizon)) (h.move (.play horizon)) := by
  have length : h.table.length = g.table.length := renamed.table.length_eq.symm
  simp only [move, Game.play, length, renamed.wasDealt, renamed.settings]
  split
  · exact .some ⟨rfl, renamed⟩
  · split
    · exact renamed.playOn sound fair horizon g.settings.roundLimit
    · obtain ⟨same, next⟩ := renamed.deal sound fair
      have sounder := sound.plays .deal
      have fairer := fair.plays .deal
      generalize g.deal = first at same next sounder ⊢
      generalize h.deal = second at same next fairer ⊢
      obtain ⟨cause | done, after⟩ := first
      · obtain ⟨answer, later⟩ := second
        cases same
        exact .some ⟨rfl, next⟩
      · obtain ⟨answer, later⟩ := second
        cases same
        have settings : later.settings = after.settings := next.settings
        have played := next.playOn sounder fairer horizon after.settings.roundLimit
        simpa only [move, settings] using played

theorem move (renamed : g.Renamed rename h) (sound : g.Sound) (fair : h.Sound) (next : Move) :
    Option.Rel (Alike rename) (g.move next) (h.move next) := by
  cases next with
  | deal =>
    obtain ⟨same, next⟩ := renamed.deal sound fair
    refine .some ⟨?_, next⟩
    rw [same]
    cases g.deal.1 <;> rfl
  | advance =>
    obtain ⟨same, next⟩ := renamed.advance sound fair
    refine .some ⟨?_, next⟩
    rw [same]
    cases g.advance.1 <;> rfl
  | playOn horizon limit => exact renamed.playOn sound fair horizon limit
  | play horizon => exact renamed.play sound fair horizon

theorem moves (renamed : g.Renamed rename h) (sound : g.Sound) (fair : h.Sound)
    (all : List Move) :
    Option.Rel (fun first second => second.1 = first.1.map (Answer.rename rename) ∧
      first.2.Renamed rename second.2) (g.moves all) (h.moves all) := by
  induction all generalizing g h with
  | nil => exact .some ⟨rfl, renamed⟩
  | cons next rest ih =>
    have step := renamed.move sound fair next
    unfold Game.moves
    generalize first : g.move next = moved at step ⊢
    generalize second : h.move next = again at step ⊢
    cases step with
    | none => exact .none
    | some both =>
      obtain ⟨answer, alike⟩ := both
      have behind := ih alike (move_sound sound first) (move_sound fair second)
      dsimp only
      generalize Game.moves _ rest = played at behind ⊢
      generalize Game.moves _ rest = others at behind ⊢
      cases behind with
      | none => exact .none
      | some last => exact .some ⟨congrArg₂ List.cons answer last.1, last.2⟩

theorem withLastCards (g : Game) (last : Seat → Option Card) :
    g.Renamed id (g.withLastCards last) := by
  refine ⟨⟨?_, rfl, rfl⟩, rfl, Option.map_id_apply.symm, rfl, rfl⟩
  exact List.forall₂_map_right_iff.mpr (List.forall₂_same.mpr fun s _ => ⟨rfl, rfl, rfl⟩)

end Renamed

/-- What a game has in common with one under other ids, and with one that remembers other cards. -/
structure OrderDecides (rename : PlayerId → PlayerId) (g h : Game) : Prop where
  round : ∃ report after later, g.round = (.ok report, after) ∧
    h.round = (.ok (report.rename rename), later) ∧ after.Renamed rename later
  moves : ∀ all, Option.Rel (fun first second => second.1 = first.1.map (Answer.rename rename) ∧
    first.2.Renamed rename second.2) (g.moves all) (h.moves all)
  /-- The cards played in earlier rounds do not count, not even when suits decide. -/
  lastCards : ∀ last, (g.withLastCards last).round.1 = g.round.1

theorem orderDecides_of_reachable (reachable : Reachable g)
    (increasing : ∀ s ∈ g.table, ∀ t ∈ g.table, s.id < t.id → rename s.id < rename t.id)
    (renamed : g.Renamed rename h) : g.OrderDecides rename h := by
  have sound := reachable.sound
  have fair := renamed.sound sound increasing
  refine ⟨renamed.round sound fair, renamed.moves sound fair, fun last => ?_⟩
  have forgotten := Renamed.withLastCards g last
  obtain ⟨report, after, later, played, again, -⟩ :=
    forgotten.round sound (forgotten.sound sound fun _ _ _ _ less => less)
  rw [played, again]
  simp [RoundReport.rename]

/-- Leaves every other id free. -/
def spread (id : PlayerId) : PlayerId := ⟨id.number + id.number⟩

/-- The three players as strangers who sit further apart and have played a card before. -/
def spreadThree : Game :=
  Game.joinAll { settings := { packs := 0, shuffled := false }, deck := [] } <|
    trio.map fun p => { p with id := spread p.id, name := "", lastCard := p.hand.getLast? }

theorem orderDecides_tiedThree : Reachable tiedThree ∧
    (∀ s ∈ tiedThree.table, ∀ t ∈ tiedThree.table, s.id < t.id → spread s.id < spread t.id) ∧
    tiedThree.Renamed spread spreadThree ∧ tiedThree.OrderDecides spread spreadThree := by
  have increasing : ∀ s ∈ tiedThree.table, ∀ t ∈ tiedThree.table,
      s.id < t.id → spread s.id < spread t.id := by decide +kernel
  have renamed : tiedThree.Renamed spread spreadThree :=
    ⟨⟨.cons ⟨rfl, rfl, rfl⟩ (.cons ⟨rfl, rfl, rfl⟩ (.cons ⟨rfl, rfl, rfl⟩ .nil)), rfl, rfl⟩,
      rfl, rfl, rfl, rfl⟩
  exact ⟨tiedThree_reachable, increasing, renamed,
    orderDecides_of_reachable tiedThree_reachable increasing renamed⟩

end Game

end WarGame
