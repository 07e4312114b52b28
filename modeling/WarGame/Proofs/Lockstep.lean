import WarGame.Proofs.Likeness

/-!
# Games in lockstep

Deals and the check for an end leave games that look alike looking alike. So does a round that both
games decide alike, and then the two reports are the same but for the names of the players.
-/

namespace WarGame

/-- The report with other names for the players. -/
def RoundReport.rename (rename : PlayerId → PlayerId) (report : RoundReport) : RoundReport :=
  { report with
    winner := report.winner.map rename
    eliminated := report.eliminated.map rename }

namespace Game

variable {α : Type} {rename : PlayerId → PlayerId} {look : Card → α}
variable {g h after later : Game} {m n : Nat} {decision : Decision} {s : Seat}

/-- Games with seats and decks that look alike, in the same phase. -/
structure Like {α : Type} (rename : PlayerId → PlayerId) (look : Card → α) (g h : Game) :
    Prop where
  table : Table.Like rename look g.table h.table
  deck : h.deck.map look = g.deck.map look
  phase : h.phase = g.phase

/-! ### The end of a round -/

theorem Ends.steps_eq {other : Decision} (ends : g.Ends n decision after)
    (again : h.Ends m other later)
    (alike : ∀ k, (h.table.tiedAt k).length = (g.table.tiedAt k).length) : m = n := by
  have same (k : Nat) : k < m ↔ k < n := by rw [again.step_iff, ends.step_iff, alike]
  have := same m
  have := same n
  omega

section

variable {change : Seat → Seat} (mirrors : g.table.Mirrors rename look change)
variable (ends : g.Ends n decision after)
variable (won : later.lastWinner = after.lastWinner.map rename)

include mirrors ends won

theorem Ends.winner_iff (member : s ∈ g.table) :
    later.lastWinner = some (change s).id ↔ after.lastWinner = some s.id := by
  rw [won, (mirrors.like s member).id]
  constructor
  · intro named
    obtain ⟨w, winner, same⟩ := Option.map_eq_some_iff.mp named
    obtain ⟨-, -, t, contends, rfl⟩ := ends.of_winner winner
    have place := (Table.mem_contenders.mp contends).1
    rw [winner, mirrors.apart t place s member same]
  · intro winner
    rw [winner, Option.map_some]

theorem Ends.seatOf_like (ranked : ∀ c d, look c = look d → c.rank = d.rank)
    (known : h.table = g.table.map change) (member : s ∈ g.table) :
    Seat.Like rename look (seatOf g n decision after s) (seatOf h n decision later (change s)) := by
  have like := mirrors.seatAt ranked (n := n) member
  simp only [seatOf, ends.winner_iff mirrors won member, known]
  split
  · exact like.reinstate
  · exact like

theorem Ends.gainOf_look (ranked : ∀ c d, look c = look d → c.rank = d.rank)
    (known : h.table = g.table.map change) (deck : h.deck.map look = g.deck.map look)
    (active : decision = .redeal → later.table.active = after.table.active.map rename)
    (member : s ∈ g.table) :
    (gainOf h n decision later (change s).id).map look =
      (gainOf g n decision after s.id).map look := by
  have pot := mirrors.pot ranked n
  simp only [gainOf, ends.winner_iff mirrors won member, known]
  split
  · next again =>
    subst again
    rw [active rfl, (mirrors.like s member).id]
    apply share_look
    · intro id playing same
      rw [ends.of_redealt.2.1] at playing
      obtain ⟨r, place, -, rfl⟩ := Table.mem_active.mp playing
      obtain ⟨t, there, rfl⟩ := List.mem_map.mp place
      rw [Table.id_seatAt] at same ⊢
      rw [mirrors.apart t there s member same]
    · rw [List.map_append, List.map_append, deck, pot]
  · split
    · exact pot
    · rfl

end

/-- A round decided alike leaves games that look alike. -/
theorem Ends.like (ranked : ∀ c d, look c = look d → c.rank = d.rank) (like : g.Like rename look h)
    (sound : g.table.Sound) (fair : h.table.Sound) (ends : g.Ends n decision after)
    (again : h.Ends m decision later) (won : later.lastWinner = after.lastWinner.map rename) :
    after.Like rename look later := by
  obtain ⟨change, known, mirrors⟩ := like.table.mirrors sound.ascending fair.ascending
  -- The same seats are tied at every step, so the wars stop at the same one.
  obtain rfl : m = n := ends.steps_eq again fun k => by
    rw [known, mirrors.tiedAt ranked, List.length_map]
  have active (redealt : decision = .redeal) :
      later.table.active = after.table.active.map rename := by
    subst redealt
    rw [again.of_redealt.2.1, ends.of_redealt.2.1, known]
    exact (mirrors.atStep ranked m).active
  constructor
  case table =>
    rw [ends.table_end sound, again.table_end fair, known]
    exact Table.Like.of_map fun s member => (ends.seatOf_like mirrors won ranked known member).receive
      (ends.gainOf_look mirrors won ranked known like.deck active member)
  case deck =>
    by_cases redealt : decision = .redeal
    · have same := active redealt
      subst redealt
      simp only [ends.of_redeal sound, again.of_redeal fair, same, List.map_eq_nil_iff, known]
      split
      · rw [List.map_append, List.map_append, like.deck, mirrors.pot ranked]
      · rfl
    · rw [ends.frame_of_decided redealt, again.frame_of_decided redealt]
      exact like.deck
  case phase =>
    rw [ends.frame, again.frame]
    exact like.phase

/-! ### Calls -/

namespace Like

theorem checkEnd (like : g.Like rename look h) : g.checkEnd.Like rename look h.checkEnd := by
  rw [checkEnd_eq, checkEnd_eq]
  refine ⟨like.table, like.deck, ?_⟩
  simp only [like.table.active, like.phase, List.length_map]

theorem hasEnded (like : g.Like rename look h) : h.hasEnded = g.hasEnded := by
  rw [Game.hasEnded, like.phase, Game.hasEnded]

theorem closed (like : g.Like rename look h) : g.closed.Like rename look h.closed :=
  checkEnd ⟨like.table, like.deck, like.phase⟩

theorem deal (like : g.Like rename look h) (sound : g.table.Sound) (fair : h.table.Sound)
    (dealt : g.deal = (.ok (), after)) : ∃ later, h.deal = (.ok (), later) ∧ after.Like rename look later := by
  obtain ⟨change, known, mirrors⟩ := like.table.mirrors sound.ascending fair.ascending
  have seated : h.table ≠ [] := by
    intro none
    rw [known, List.map_eq_nil_iff] at none
    simp [Game.deal, none] at dealt
  have again := deal_eq seated
  refine ⟨_, again, ?_⟩
  obtain ⟨shares, rest⟩ := deal_shares sound.ascending dealt
  obtain ⟨others, left⟩ := deal_shares fair.ascending again
  constructor
  case table =>
    rw [shares, others, known]
    apply Table.Like.of_map
    intro s member
    rw [← known, like.table.active, (mirrors.like s member).id]
    refine (mirrors.like s member).receive (share_look ?_ like.deck)
    intro id playing same
    obtain ⟨r, place, -, rfl⟩ := Table.mem_active.mp playing
    rw [mirrors.apart r place s member same]
  case deck =>
    rw [rest, left]
    simp only [like.table.active, List.map_eq_nil_iff]
    split
    · exact like.deck
    · rfl
  case phase => rw [deal_phase again, deal_phase dealt, like.phase]

end Like

/-! ### A round -/

theorem Played.eliminated_eq {report other : RoundReport} {settled late : Game}
    (like : g.Like rename look h) (sound : g.table.Sound) (fair : h.table.Sound)
    (played : g.Played n report settled) (again : h.Played m other late)
    (alike : settled.Like rename look late) :
    other.eliminated = report.eliminated.map rename := by
  have ordered := played.ends.ascending_end sound
  obtain ⟨_, -, mirrors⟩ := alike.table.mirrors ordered (again.ends.ascending_end fair)
  rw [played.eliminated, again.eliminated, like.table.active, List.filter_map]
  refine congrArg (List.map rename) (List.filter_congr fun id playing => ?_)
  obtain ⟨s, member, -, rfl⟩ := Table.mem_active.mp playing
  obtain ⟨place, named⟩ := Table.mem_of_seat? (played.ends.seat?_end sound member)
  apply alike.table.any_isEliminated
  intro r there same
  rw [← named] at same ⊢
  rw [mirrors.apart r there _ place same]

/-- Where the decision does not depend on what the looks leave out, a round reports the same under
the other names and leaves games that look alike. -/
theorem Like.round (ranked : ∀ c d, look c = look d → c.rank = d.rank)
    (like : g.Like rename look h) (sound : g.table.Sound) (fair : h.table.Sound)
    (told : (∀ c d, look c = look d → c.suit = d.suit) ∨
      (roundLaw g.table.contenders).2.bySuit = false) :
    ∃ n report settled m late, g.Played n report settled ∧
      h.Played m (report.rename rename) late ∧ settled.closed.Like rename look late.closed := by
  obtain ⟨n, report, settled, played⟩ := exists_played sound
  obtain ⟨m, other, late, again⟩ := exists_played fair
  obtain ⟨change, known, mirrors⟩ := like.table.mirrors sound.ascending fair.ascending
  have law := again.law
  rw [known, mirrors.roundLaw ranked told, ← played.law, Prod.mk.injEq] at law
  obtain ⟨winner, decision⟩ := law
  have won : late.lastWinner = settled.lastWinner.map rename := by
    rw [← again.winner, winner, played.winner]
  have alike := played.ends.like ranked like sound fair (decision ▸ again.ends) won
  have closed := alike.closed
  have same : other = report.rename rename := by
    have eliminated := played.eliminated_eq like sound fair again alike
    have endsGame : other.endsGame = report.endsGame := by
      rw [again.endsGame, closed.hasEnded, played.endsGame]
    cases other
    cases report
    simp only at winner decision eliminated endsGame
    subst winner decision eliminated endsGame
    rfl
  exact ⟨n, report, settled, m, late, played, same ▸ again, closed⟩

end Game

end WarGame
