import WarGame.Table.Leaders

/-!
# Wars

Players tied for the high card go to war. At each step they put cards in, and the high card among
what they put in ends the war or narrows the tie. A step is full while some tied player can afford
it, and limited after that. Every card put in joins the prize. A war in which nobody can put in
another card is drawn.
-/

namespace WarGame

/-- The table during a war, with the cards at stake. -/
structure Fray where
  table : Table
  prize : Pile
  deriving DecidableEq, Repr, Inhabited

/-- How a war ends. -/
inductive WarEnd where
  | won (winner : PlayerId)
  /-- Nobody put in another card. The players are those still tied. -/
  | drawn (players : List PlayerId)
  | failed (cause : Violation)
  deriving DecidableEq, Repr

/-- How a step of a war leaves the tie. -/
inductive StepEnd where
  | tied (leaders : List PlayerId)
  | over (ending : WarEnd)
  deriving DecidableEq, Repr

/-- A war that is over: its end, its steps and what it leaves. -/
structure WarReport where
  ending : WarEnd
  stages : List Stage
  fray : Fray
  deriving DecidableEq, Repr

/-- The kind of the next step: full if some tied player can afford it. -/
def Table.nextStage (table : Table) : List PlayerId → Except Violation Stage
  | [] => .ok .limited
  | id :: rest =>
    match table.seat? id with
    | none => .error (.notSeated id)
    | some s => if s.meets .full then .ok .full else nextStage table rest

namespace Fray

/-- The tied players put their stakes in, one after the other. Gives the stakes that meet the stage
together with those that `played` holds. -/
def putIn (stage : Stage) :
    List PlayerId → Stakes → Fray → Except Violation Stakes × Fray
  | [], played, fray => (.ok played, fray)
  | id :: rest, played, fray =>
    match fray.table.seat? id with
    | none => (.error (.notSeated id), fray)
    | some s =>
      putIn stage rest (if s.meets stage then played.put id (s.stake stage) else played)
        { table := fray.table.modify id fun s => s.play stage
          prize := fray.prize ++ s.stake stage }

/-- The winner takes the prize, and is in the game again if the step was limited. Whoever wins a
step leads it, so the winner is seated by `Table.rankLeaders_playing`. -/
def award (stage : Stage) (winner : PlayerId) (fray : Fray) : Fray :=
  let taken := fray.table.give winner fray.prize
  { table := if stage = .limited then taken.modify winner Seat.reinstate else taken
    prize := [] }

/-- One step of a war. -/
def step (stage : Stage) (tied : List PlayerId) (fray : Fray) : StepEnd × Fray :=
  match fray.putIn stage tied [] with
  | (.error cause, fray) => (.over (.failed cause), fray)
  | (.ok [], fray) => (.over (.drawn tied), fray)
  | (.ok played, fray) =>
    match fray.table.rankLeaders played with
    | .error cause => (.over (.failed cause), fray)
    | .ok [] => (.over (.failed .nobodyLeads), fray)
    | .ok [winner] => (.over (.won winner), fray.award stage winner)
    | .ok leaders => (.tied leaders, fray)

/-- Stakes put in come out of the hands. -/
theorem putIn_hands {stage : Stage} {tied : List PlayerId} {played next : Stakes}
    {fray after : Fray} (done : fray.putIn stage tied played = (.ok next, after)) :
    (next = played ∧ after.table.hands.length ≤ fray.table.hands.length) ∨
      after.table.hands.length < fray.table.hands.length := by
  induction tied generalizing played fray with
  | nil =>
    simp only [putIn, Prod.mk.injEq, Except.ok.injEq] at done
    obtain ⟨rfl, rfl⟩ := done
    exact .inl ⟨rfl, Nat.le_refl _⟩
  | cons id rest ih =>
    simp only [putIn] at done
    split at done
    · simp at done
    · next s seated =>
      have fewer := Table.length_hands_modify_le id fray.table fun s => s.length_play_le stage
      obtain ⟨same, bound⟩ | strict := ih done
      · simp only at bound
        by_cases able : s.meets stage = true
        · have := Table.length_hands_modify_lt seated (fun s => s.length_play_le stage)
            (Seat.length_play_lt able)
          omega
        · rw [if_neg able] at same
          exact .inl ⟨same, Nat.le_trans bound fewer⟩
      · simp only at strict
        omega

/-- A step that leaves a tie has cost the hands a card. -/
theorem hands_lt_of_tied {stage : Stage} {tied leaders : List PlayerId} {fray after : Fray}
    (done : fray.step stage tied = (.tied leaders, after)) :
    after.table.hands.length < fray.table.hands.length := by
  simp only [step] at done
  split at done
  · simp at done
  · simp at done
  · next played paid nonempty putting =>
    split at done <;> simp only [Prod.mk.injEq, reduceCtorEq, false_and] at done
    obtain ⟨-, rfl⟩ := done
    obtain ⟨same, -⟩ | strict := putIn_hands putting
    · exact (nonempty same).elim
    · exact strict

/-- A war from its first step to its end. -/
def war (tied : List PlayerId) (fray : Fray) : WarReport :=
  match fray.table.nextStage tied with
  | .error cause => { ending := .failed cause, stages := [], fray }
  | .ok stage =>
    match _ : fray.step stage tied with
    | (.over ending, fray) => { ending, stages := [stage], fray }
    | (.tied leaders, fray) =>
      let rest := war leaders fray
      { rest with stages := stage :: rest.stages }
termination_by fray.table.hands.length
decreasing_by exact hands_lt_of_tied (by assumption)

end Fray

end WarGame
