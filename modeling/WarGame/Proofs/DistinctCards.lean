import WarGame.Proofs.Shuffling
import WarGame.Proofs.WinnerTakesAll

/-!
# Games without a card twice

Players whose war is drawn have the same key, so their bottom cards have one rank. When no card is
there twice the suits of those cards differ and settle the war. A dealt game with distinct cards
therefore never deals again: every round of it is won, and somebody is always in the game.
-/

namespace WarGame

/-! ### Bottom cards -/

def Face.rank : Face → Rank
  | limited rank | full rank => rank

/-- The last face of a key is that of the bottom card. -/
theorem key_bottom (hand : Pile) :
    (key hand).getLast?.map Face.rank = hand.getLast?.map fun c => c.rank := by
  cases hand with
  | nil => rfl
  | cons c rest =>
    rw [key_cons]
    induction rest using warKey.induct generalizing c with
    | case1 => rfl
    | case2 d => rfl
    | case3 d e rest ih =>
      rw [warKey, List.getLast?_cons_cons, ih e, List.getLast?_cons_cons, List.getLast?_cons_cons]

namespace Table

variable {table : Table} {s t : Seat} {c : Card}

theorem holder_unique (distinct : table.hands.Nodup) (first : s ∈ table) (second : t ∈ table)
    (held : c ∈ s.hand) (also : c ∈ t.hand) : s = t := by
  obtain ⟨-, apart⟩ := List.nodup_flatMap.mp distinct
  have symmetric : Std.Symm (Function.onFun List.Disjoint fun s : Seat => s.hand) :=
    ⟨fun _ _ away => away.symm⟩
  by_contra unlike
  exact apart.forall first second unlike held also

theorem bottom_of_contender (contends : s ∈ table.contenders) :
    s ∈ table ∧ ∃ c ∈ s.hand, s.hand.getLast? = some c := by
  obtain ⟨place, -, c, rest, held⟩ := mem_contenders.mp contends
  have bottom := List.getLast?_eq_some_getLast (held ▸ List.cons_ne_nil c rest)
  exact ⟨place, _, List.getLast_mem _, bottom⟩

/-- Of two players with the same key the bottom cards differ in suit. -/
theorem eq_of_bottomSuit (distinct : table.hands.Nodup) (first : s ∈ table.contenders)
    (second : t ∈ table.contenders) (tied : key s.hand = key t.hand)
    (same : bottomSuit s.hand = bottomSuit t.hand) : s = t := by
  obtain ⟨place, c, held, bottom⟩ := bottom_of_contender first
  obtain ⟨other, d, also, below⟩ := bottom_of_contender second
  have rank : c.rank = d.rank := by
    have faces := congrArg (fun faces => faces.getLast?.map Face.rank) tied
    simpa only [key_bottom, bottom, below, Option.map_some, Option.some.injEq] using faces
  have suit : c.suit = d.suit := by
    simpa only [bottomSuit, bottom, below, Option.map_some, Option.getD_some, Suit.order_inj]
      using same
  have card : c = d := by
    cases c
    cases d
    exact Card.mk.injEq .. ▸ ⟨suit, rank⟩
  exact holder_unique distinct place other held (card ▸ also)

/-- A round between players with distinct cards is won. -/
theorem roundLaw_of_distinct (ascending : table.Ascending) (distinct : table.hands.Nodup)
    (some : table.contenders ≠ []) :
    ∃ w decision, roundLaw table.contenders = (.some w, decision) ∧ decision ≠ .redeal ∧
      decision ≠ .uncontested := by
  rcases best : bestBy (fun s => key s.hand) table.contenders with _ | ⟨w, _ | ⟨v, others⟩⟩
  · exact (bestBy_ne_nil some best).elim
  · rw [roundLaw, best]
    cases known : nearest w table.contenders with
    | zero => exact ⟨w.id, .highCard, by simp [known], by simp, by simp⟩
    | succ steps => exact ⟨w.id, .war (UInt32.ofNat (steps + 1)), by simp [known], by simp, by simp⟩
  · rw [roundLaw_of_ties (by simp [best]), suitLaw]
    have among := bestBy_sublist (fun s => key s.hand) table.contenders
    have seats : table.contenders.Nodup := ascending.nodup.sublist List.filter_sublist
    have apart : ∀ s ∈ bestBy (fun s => key s.hand) table.contenders,
        ∀ t ∈ bestBy (fun s => key s.hand) table.contenders,
          bottomSuit s.hand = bottomSuit t.hand → s = t := by
      intro s member t other same
      have level := bestBy_tied member other
      exact eq_of_bottomSuit distinct (among.subset member) (among.subset other) level same
    obtain ⟨top, alone⟩ := bestBy_of_apart (fun s => bottomSuit s.hand)
      (List.ne_nil_of_length_pos (by simp [best])) (seats.sublist among) apart
    rw [alone]
    exact ⟨top.id, .suit, rfl, by simp, by simp⟩

end Table

/-! ### Games with distinct cards -/

namespace Game

variable {g after : Game} {all : Pile}

/-- A game in which the cards stay together and somebody is in the game. -/
structure Contested (all : Pile) (g : Game) : Prop where
  gathered : g.Gathered all
  somebody : g.table.active ≠ []

namespace Contested

theorem contenders_ne_nil (contested : g.Contested all) (stocked : all ≠ []) :
    g.table.contenders ≠ [] := by
  rcases contested.gathered.spread with ⟨-, playing, whole⟩ | ⟨nobody, -⟩
  · have held : g.table.hands ≠ [] := fun none => stocked (none ▸ whole).nil_eq.symm
    obtain ⟨c, member⟩ := List.exists_mem_of_ne_nil _ held
    obtain ⟨s, place, holds⟩ := List.mem_flatMap.mp member
    have active := playing s place (List.ne_nil_of_mem holds)
    obtain ⟨d, rest, hand⟩ := List.exists_cons_of_ne_nil (List.ne_nil_of_mem holds)
    exact List.ne_nil_of_mem (Table.mem_contenders.mpr ⟨place, active, d, rest, hand⟩)
  · exact (contested.somebody nobody).elim

/-- With distinct cards every round is won. -/
theorem round_won (contested : g.Contested all) (distinct : all.Nodup) (stocked : all ≠ []) :
    ∃ report settled, g.round = (.ok report, settled.closed) ∧
      Settles g.table.placed g.opened report.decision settled ∧
      report.winner.isSome = true ∧ report.decision ≠ .redeal ∧
      report.decision ≠ .uncontested := by
  have sound := contested.gathered.sound.table
  have once : g.table.hands.Nodup :=
    (List.nodup_append.mp (contested.gathered.whole.nodup_iff.mpr distinct)).2.1
  obtain ⟨report, settled, played, way, law⟩ := round_settles sound
  obtain ⟨w, decision, won, decided, met⟩ :=
    Table.roundLaw_of_distinct sound.ascending once (contested.contenders_ne_nil stocked)
  rw [won, Prod.mk.injEq] at law
  obtain ⟨winner, rfl⟩ := law
  exact ⟨report, settled, played, way, by simp [winner], decided, met⟩

theorem deal (contested : g.Contested all) (dealt : g.deal = (.ok (), after)) : after.Contested all :=
  ⟨contested.gathered.deal dealt, (deal_dealt dealt).1 ▸ contested.somebody⟩

theorem checkEnd (contested : g.Contested all) : g.checkEnd.Contested all :=
  ⟨contested.gathered.checkEnd, (checkEnd_table g).symm ▸ contested.somebody⟩

theorem advance (contested : g.Contested all) (distinct : all.Nodup) (stocked : all ≠ []) :
    g.advance.2.Contested all := by
  refine ⟨contested.gathered.advance, ?_⟩
  apply advance_keeps (P := fun after => after.table.active ≠ []) contested.gathered.sound.table
    contested.somebody
  intro _
  obtain ⟨report, settled, played, way, -, decided, met⟩ := contested.round_won distinct stocked
  rw [played]
  exact (checkEnd_table _).symm ▸ way.somebody met decided

theorem plays (contested : g.Contested all) (distinct : all.Nodup) (stocked : all ≠ [])
    (going : Plays g after) : after.Contested all :=
  going.keeps (fun _ contested => contested.advance distinct stocked)
    (fun _ _ contested dealt => contested.deal dealt) (fun _ => checkEnd) contested

theorem run (contested : g.Contested all) (distinct : all.Nodup) (stocked : all ≠ [])
    (played : Relation.ReflTransGen Plays g after) : after.Contested all := by
  induction played with
  | refl => exact contested
  | tail _ going ih => exact ih.plays distinct stocked going

/-- A game with somebody in it does not end in a draw. -/
theorem verdict?_ne_draw (contested : g.Contested all) : g.verdict? ≠ some .draw := by
  intro drawn
  obtain ⟨finished, many⟩ := verdict?_draw contested.gathered.sound.unfailed drawn
  have few := contested.gathered.ended finished
  exact contested.somebody (List.eq_nil_of_length_eq_zero (by omega))

end Contested

/-! ### What playing on answers -/

theorem playFrom_verdict {limit : Option UInt32} {horizon : Nat} {rounds : UInt32}
    {verdict : Verdict} (returned : g.playFrom limit horizon rounds = some (.ok verdict, after)) :
    (∃ count, verdict = .stalled count) ∨ after.verdict? = some verdict := by
  fun_induction playFrom limit horizon rounds g with
  | case1 _ _ g answer ended =>
    cases returned
    exact .inr ended
  | case2 _ rounds =>
    cases returned
    exact .inl ⟨rounds, rfl⟩
  | case3 => cases returned
  | case4 => cases returned
  | case5 _ _ _ _ _ _ _ _ ih => exact ih returned

/-- Play that answers has reached the limit, or the verdict of the game. -/
theorem playOn_verdict {horizon : Nat} {limit : Option UInt32} {verdict : Verdict}
    (returned : g.playOn horizon limit = some (.ok verdict, after)) :
    (∃ rounds, verdict = .stalled rounds) ∨ after.verdict? = some verdict :=
  playFrom_verdict returned

theorem play_verdict {horizon : Nat} {verdict : Verdict}
    (returned : g.play horizon = some (.ok verdict, after)) :
    (∃ rounds, verdict = .stalled rounds) ∨ after.verdict? = some verdict := by
  unfold Game.play at returned
  split at returned
  · cases returned
  · split at returned
    · exact playOn_verdict returned
    · split at returned
      · cases returned
      · exact playOn_verdict returned

/-- Rounds are won, and play as a whole is won or reaches its limit. -/
structure AlwaysWon (g : Game) : Prop where
  advance : ∀ report after, g.advance = (.ok report, after) →
    report.winner.isSome = true ∧ report.decision ≠ .redeal ∧ report.decision ≠ .uncontested
  verdict : g.verdict? ≠ some .draw
  play : 2 ≤ g.table.length → ∀ horizon answer after, g.play horizon = some (answer, after) →
    (∃ w, answer = .ok (.winner w)) ∨ ∃ rounds, answer = .ok (.stalled rounds)

theorem Contested.alwaysWon (contested : g.Contested all) (distinct : all.Nodup)
    (stocked : all ≠ []) : g.AlwaysWon := by
  refine ⟨fun report after played => ?_, contested.verdict?_ne_draw, ?_⟩
  · cases ended : g.hasEnded with
    | true => rw [advance_of_ended ended] at played; cases played
    | false =>
      obtain ⟨won, settled, same, -, winner, decided, met⟩ :=
        contested.round_won distinct stocked
      rw [advance_of_going contested.gathered.sound.table ended, same] at played
      cases played
      exact ⟨winner, decided, met⟩
  · intro enough horizon answer after returned
    have later := contested.plays distinct stocked (.play returned)
    cases answer with
    | error e =>
      have few := ((play_error_iff contested.gathered.sound).mp returned).1
      omega
    | ok verdict =>
      cases verdict with
      | winner w => exact .inl ⟨w, rfl⟩
      | stalled rounds => exact .inr ⟨rounds, rfl⟩
      | draw =>
        rcases play_verdict returned with ⟨rounds, impossible⟩ | drawn
        · cases impossible
        · exact (later.verdict?_ne_draw drawn).elim

theorem startingHands_of_bare {players : List Player} (bare : ∀ p ∈ players, p.hand = []) :
    startingHands players = [] := by
  induction players with
  | nil => rfl
  | cons p rest ih =>
    rw [startingHands, ih fun q member => bare q (List.mem_cons_of_mem p member),
      bare p List.mem_cons_self]
    simp

theorem somebody_of_dealt {settings : Settings} {tries : Nat} {entropy : UInt64}
    {players : List Player} (somebody : players ≠ []) {start : Game}
    (dealt : dealTo settings players tries entropy = .ok (.ok start)) :
    start.table.active ≠ [] := by
  obtain ⟨fresh, made, done⟩ := dealTo_eq_ok_iff.mp dealt
  rw [(deal_dealt done).1, ofSettings_eq made]
  exact joinAll_somebody (by simp) somebody

/-- A game is always won if it is dealt from distinct cards, such as one pack in any order between
players who bring none. -/
theorem alwaysWon_of_dealt {settings : Settings} {tries : Nat} {entropy : UInt64} {deck : Pile}
    (ready : settings.deck tries entropy = .ok deck) {players : List Player}
    (somebody : players ≠ []) :
    (settings.packs = 1 → (∀ p ∈ players, p.hand = []) →
        (deck ++ startingHands players).Nodup ∧ deck ++ startingHands players ≠ []) ∧
      ((deck ++ startingHands players).Nodup → deck ++ startingHands players ≠ [] →
        ∃ start, dealTo settings players tries entropy = .ok (.ok start) ∧
          ∀ g, Relation.ReflTransGen Plays start g → g.AlwaysWon) := by
  constructor
  · intro one bare
    rw [startingHands_of_bare bare, List.append_nil]
    exact Settings.deck_of_onePack ready one
  · intro distinct stocked
    obtain ⟨start, dealt, gathered⟩ := gathered_of_dealt ready somebody
    refine ⟨start, dealt, fun g played => ?_⟩
    have contested : start.Contested (deck ++ startingHands players) :=
      ⟨gathered, somebody_of_dealt somebody dealt⟩
    exact (contested.run distinct stocked played).alwaysWon distinct stocked

/-- Three players with cards of their own, and the three without them and with a pack that the seed 7
has shuffled. -/
theorem alwaysWon_trio :
    (Settings.deck { packs := 0, shuffled := false } 0 0 = .ok [] ∧ trio ≠ [] ∧
      ([] ++ startingHands trio).Nodup ∧ [] ++ startingHands trio ≠ [] ∧
      ∃ start, dealTo { packs := 0, shuffled := false } trio 0 0 = .ok (.ok start) ∧
        ∀ g, Relation.ReflTransGen Plays start g → g.AlwaysWon) ∧
    ∃ deck players, Settings.deck { seed := some 7 } 8 0 = .ok deck ∧ deck ≠ Pile.packs 1 ∧
      players = trio.map (fun p => { p with hand := [] }) ∧
      ∃ start, dealTo { seed := some 7 } players 8 0 = .ok (.ok start) ∧
        ∀ g, Relation.ReflTransGen Plays start g → g.AlwaysWon := by
  obtain ⟨deck, ready, shuffled⟩ := Settings.exists_shuffled
  have bare : ∀ p ∈ trio.map fun p => { p with hand := [] }, p.hand = [] := by decide
  obtain ⟨dealt, won⟩ := alwaysWon_of_dealt ready
    (show (trio.map fun p => { p with hand := [] }) ≠ [] by decide)
  obtain ⟨distinct, stocked⟩ := dealt rfl bare
  exact ⟨⟨rfl, by decide, by decide, by decide,
    (alwaysWon_of_dealt rfl (by decide)).2 (by decide) (by decide)⟩,
    deck, _, ready, shuffled, rfl, won distinct stocked⟩

end Game

end WarGame
