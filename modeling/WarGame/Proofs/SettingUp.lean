import WarGame.Game.Setup
import WarGame.Proofs.SeatingOrder

/-!
# Setting up in steps

Calls on a setup come to the settings that the same calls make of new settings, and to the players
in the order they were added. A player who is only named never takes the id of another one.
-/

namespace WarGame

namespace Setup

variable {setup later : Setup} {name : String}

/-! ### The next number -/

/-- The number after the highest id, and zero if there is none. -/
def NextAfter (ids : List PlayerId) (number : Nat) : Prop :=
  ids = [] ∧ number = 0 ∨ ∃ top ∈ ids, number = top.number.val + 1 ∧ ∀ id ∈ ids, id ≤ top

theorem NextAfter.unique {ids : List PlayerId} {number other : Nat}
    (first : NextAfter ids number) (second : NextAfter ids other) : number = other := by
  rcases first with ⟨none, rfl⟩ | ⟨top, member, rfl, highest⟩
  · rcases second with ⟨-, rfl⟩ | ⟨top, member, -⟩
    · rfl
    · simp [none] at member
  · rcases second with ⟨none, -⟩ | ⟨peak, also, rfl, above⟩
    · simp [none] at member
    · rw [Nat.le_antisymm (above top member) (highest peak also)]

theorem nextNumber_le_iff {bound : Nat} :
    setup.nextNumber ≤ bound ↔ ∀ p ∈ setup.players, p.id.number.val < bound := by
  suffices folded : ∀ (players : List Player) (start : Nat),
      players.foldl (fun next p => max next (p.id.number.val + 1)) start ≤ bound ↔
        start ≤ bound ∧ ∀ p ∈ players, p.id.number.val < bound by
    simpa [nextNumber] using folded setup.players 0
  intro players
  induction players with
  | nil => simp
  | cons p rest ih =>
    intro start
    rw [List.foldl_cons, ih, List.forall_mem_cons, Nat.max_le, and_assoc, Nat.succ_le_iff]

theorem lt_nextNumber {p : Player} (member : p ∈ setup.players) :
    p.id.number.val < setup.nextNumber :=
  nextNumber_le_iff.mp (Nat.le_refl _) p member

theorem nextAfter_nextNumber (setup : Setup) :
    NextAfter (setup.players.map fun p => p.id) setup.nextNumber := by
  by_cases zero : setup.nextNumber = 0
  · refine .inl ⟨?_, zero⟩
    have none := nextNumber_le_iff.mp (Nat.le_of_eq zero)
    cases known : setup.players with
    | nil => rfl
    | cons p rest => exact absurd (none p (by simp [known])) (Nat.not_lt_zero _)
  · have high : ¬ setup.nextNumber ≤ setup.nextNumber - 1 := by omega
    rw [nextNumber_le_iff] at high
    push Not at high
    obtain ⟨p, member, top⟩ := high
    have below := lt_nextNumber member
    refine .inr ⟨p.id, List.mem_map_of_mem member, by omega, fun id named => ?_⟩
    obtain ⟨q, also, rfl⟩ := List.mem_map.mp named
    have under := lt_nextNumber also
    rw [PlayerId.le_iff]
    omega

/-! ### Players who are only named -/

theorem addNamed_error_iff : setup.addNamed name = .error .noIdLeft ↔
    ∃ p ∈ setup.players, p.id.number.val = 255 := by
  have full : setup.nextNumber < 256 ↔ ∀ p ∈ setup.players, p.id.number.val < 255 :=
    Nat.lt_succ_iff.trans nextNumber_le_iff
  unfold addNamed
  split
  · next free =>
    refine iff_of_false (by simp) ?_
    rintro ⟨p, member, last⟩
    have below := full.mp free p member
    omega
  · next taken =>
    rw [full] at taken
    push Not at taken
    obtain ⟨p, member, high⟩ := taken
    have bound := p.id.number.isLt
    exact iff_of_true rfl ⟨p, member, by omega⟩

/-- A player who is only named comes after everybody so far. -/
theorem addNamed_eq_ok_iff : setup.addNamed name = .ok later ↔
    ∃ id, NextAfter (setup.players.map fun p => p.id) id.number.val ∧
      later = setup.add { id, name } := by
  have next := nextAfter_nextNumber setup
  unfold addNamed
  split
  · next free =>
    constructor
    · intro added
      cases added
      exact ⟨_, next, rfl⟩
    · rintro ⟨⟨number⟩, above, rfl⟩
      have same : (⟨setup.nextNumber, free⟩ : Fin 256) = number := Fin.ext (next.unique above)
      rw [same]
  · next taken =>
    refine iff_of_false (by simp) ?_
    rintro ⟨id, above, -⟩
    exact taken (next.unique above ▸ id.number.isLt)

theorem lt_of_nextAfter {id : PlayerId}
    (next : NextAfter (setup.players.map fun p => p.id) id.number.val) {p : Player}
    (member : p ∈ setup.players) : p.id < id := by
  rw [PlayerId.lt_iff, ← (nextAfter_nextNumber setup).unique next]
  exact lt_nextNumber member

/-! ### Calls on a setup -/

/-- A call on a setup. -/
inductive Call where
  | useSettings (settings : Settings)
  | setPacks (count : Int32)
  | setSeed (seed : UInt64)
  | keepOrder
  | setRoundLimit (rounds : UInt32)
  | addNamed (name : String)
  | add (p : Player)
  deriving DecidableEq, Repr

namespace Call

/-- Whether a call adds a player. -/
def adds : Call → Bool
  | addNamed _ | add _ => true
  | _ => false

def run (setup : Setup) : Call → Except SetupError Setup
  | useSettings settings => .ok (setup.useSettings settings)
  | setPacks count => .ok (setup.setPacks count)
  | setSeed seed => .ok (setup.setSeed seed)
  | keepOrder => .ok setup.keepOrder
  | setRoundLimit rounds => .ok (setup.setRoundLimit rounds)
  | addNamed name => setup.addNamed name
  | add p => .ok (setup.add p)

/-- What a call makes of settings alone. -/
def configure (settings : Settings) : Call → Settings
  | useSettings other => other
  | setPacks count => settings.setPacks count
  | setSeed seed => settings.setSeed seed
  | keepOrder => settings.keepOrder
  | setRoundLimit rounds => settings.setRoundLimit rounds
  | addNamed _ | add _ => settings

/-- A call that adds nobody does to the settings of a setup what it does to settings alone. -/
theorem run_of_settings {call : Call} (alone : call.adds = false) (setup : Setup) :
    call.run setup = .ok { setup with settings := call.configure setup.settings } := by
  cases call <;> cases alone <;> rfl

theorem run_error {call : Call} {cause : SetupError} (failed : call.run setup = .error cause) :
    ∃ name, call = .addNamed name ∧ ∃ p ∈ setup.players, p.id.number.val = 255 := by
  cases call with
  | addNamed name => exact ⟨name, rfl, addNamed_error_iff.mp failed⟩
  | _ => cases failed

end Call

/-- The setup that calls come to. -/
def runAll (calls : List Call) : Except SetupError Setup := calls.foldlM Call.run {}

/-- The settings that calls come to. -/
def configured (calls : List Call) : Settings := calls.foldl Call.configure {}

/-- The players that calls add, in the order of the calls. Who is only named comes after everybody
so far. -/
inductive Adds : List Call → List Player → Prop where
  | nil : Adds [] []
  | settings {calls : List Call} {players : List Player} {call : Call}
      (before : Adds calls players) (alone : call.adds = false) : Adds (calls ++ [call]) players
  | add {calls : List Call} {players : List Player} (before : Adds calls players) (p : Player) :
      Adds (calls ++ [.add p]) (players ++ [p])
  | named {calls : List Call} {players : List Player} {id : PlayerId}
      (before : Adds calls players)
      (next : NextAfter (players.map fun p => p.id) id.number.val) (name : String) :
      Adds (calls ++ [.addNamed name]) (players ++ [{ id := id, name := name }])

variable {calls : List Call} {call : Call}

theorem runAll_append (calls more : List Call) :
    runAll (calls ++ more) = (runAll calls).bind fun setup => more.foldlM Call.run setup :=
  List.foldlM_append ..

theorem runAll_snoc (done : runAll calls = .ok setup) : runAll (calls ++ [call]) = call.run setup := by
  rw [runAll_append, done, Except.bind, List.foldlM_cons]
  cases call.run setup <;> rfl

theorem configured_snoc (calls : List Call) (call : Call) :
    configured (calls ++ [call]) = call.configure (configured calls) :=
  List.foldl_concat ..

theorem runAll_of_adds {players : List Player} (added : Adds calls players) :
    runAll calls = .ok { settings := configured calls, players } := by
  induction added with
  | nil => rfl
  | settings before alone ih => rw [runAll_snoc ih, Call.run_of_settings alone, configured_snoc]
  | add before p ih => rw [runAll_snoc ih, configured_snoc]; rfl
  | named before next name ih =>
    rw [runAll_snoc ih, configured_snoc]
    exact addNamed_eq_ok_iff.mpr ⟨_, next, rfl⟩

theorem adds_of_runAll (done : runAll calls = .ok setup) :
    Adds calls setup.players ∧ setup.settings = configured calls := by
  induction calls using List.reverseRecOn generalizing setup with
  | nil =>
    cases done
    exact ⟨.nil, rfl⟩
  | append_singleton calls call ih =>
    cases known : runAll calls with
    | error cause =>
      rw [runAll_append, known] at done
      cases done
    | ok earlier =>
      obtain ⟨added, same⟩ := ih known
      rw [runAll_snoc known] at done
      rw [configured_snoc, ← same]
      cases call with
      | add p =>
        cases done
        exact ⟨added.add p, rfl⟩
      | addNamed name =>
        obtain ⟨id, next, rfl⟩ := addNamed_eq_ok_iff.mp done
        exact ⟨added.named next name, rfl⟩
      | _ =>
        cases done
        exact ⟨added.settings rfl, rfl⟩

theorem runAll_eq_ok_iff : runAll calls = .ok setup ↔
    Adds calls setup.players ∧ setup.settings = configured calls := by
  refine ⟨adds_of_runAll, ?_⟩
  rintro ⟨added, same⟩
  rw [runAll_of_adds added, ← same]

/-- Calls fail at the first name for which there is no id left. -/
theorem runAll_error_iff : runAll calls = .error .noIdLeft ↔
    ∃ before name after setup, calls = before ++ .addNamed name :: after ∧
      runAll before = .ok setup ∧ ∃ p ∈ setup.players, p.id.number.val = 255 := by
  constructor
  · induction calls using List.reverseRecOn with
    | nil => intro failed; cases failed
    | append_singleton calls call ih =>
      intro failed
      cases known : runAll calls with
      | error cause =>
        cases cause
        obtain ⟨before, name, after, setup, rfl, done, last⟩ := ih known
        exact ⟨before, name, after ++ [call], setup, by simp, done, last⟩
      | ok setup =>
        rw [runAll_snoc known] at failed
        obtain ⟨name, rfl, last⟩ := Call.run_error failed
        exact ⟨calls, name, [], setup, rfl, known, last⟩
  · rintro ⟨before, name, after, setup, rfl, done, last⟩
    have failed : Call.run setup (.addNamed name) = .error .noIdLeft := addNamed_error_iff.mpr last
    rw [runAll_append, done, Except.bind, List.foldlM_cons, failed]
    rfl

/-- What a setup that calls come to holds, and what it can go on to. -/
structure Collects (calls : List Call) (setup : Setup) : Prop where
  players : Adds calls setup.players
  settings : setup.settings = configured calls
  /-- A name finds no id once the highest one is taken. -/
  full : ∀ name, setup.addNamed name = .error .noIdLeft ↔
    ∃ p ∈ setup.players, p.id.number.val = 255
  /-- Otherwise the player comes after everybody so far, in place of nobody. -/
  named : ∀ name later, setup.addNamed name = .ok later → ∃ id,
    NextAfter (setup.players.map fun p => p.id) id.number.val ∧ (∀ p ∈ setup.players, p.id < id) ∧
      later = setup.add { id := id, name := name }
  deal : ∀ tries entropy, setup.deal tries entropy =
    Game.dealTo (configured calls) setup.players tries entropy
  refused : ∀ tries entropy deck, (configured calls).deck tries entropy = .ok deck →
    ((∃ cause, setup.deal tries entropy = .ok (.error cause)) ↔ setup.players = [])
  /-- There is a seat for each id, and the last player with the id has it. -/
  dealt : ∀ tries entropy deck, (configured calls).deck tries entropy = .ok deck →
    setup.players ≠ [] → ∃ start, setup.deal tries entropy = .ok (.ok start) ∧
      start.DealtTo (configured calls) deck setup.players

theorem collects_of_runAll (done : runAll calls = .ok setup) : Collects calls setup := by
  obtain ⟨players, settings⟩ := runAll_eq_ok_iff.mp done
  have deal : ∀ tries entropy, setup.deal tries entropy =
      Game.dealTo (configured calls) setup.players tries entropy := by
    intro tries entropy
    rw [Setup.deal, settings]
  constructor
  case players => exact players
  case settings => exact settings
  case full => exact fun name => addNamed_error_iff
  case named =>
    intro name later added
    obtain ⟨id, next, rfl⟩ := addNamed_eq_ok_iff.mp added
    exact ⟨id, next, fun p => lt_of_nextAfter next, rfl⟩
  case deal => exact deal
  case refused =>
    intro tries entropy deck ready
    rw [deal]
    constructor
    · rintro ⟨cause, refused⟩
      by_contra somebody
      obtain ⟨start, dealt, -⟩ := Game.exists_dealtTo ready somebody
      rw [dealt] at refused
      cases refused
    · intro none
      rw [Game.dealTo_of_ready ready, none]
      exact ⟨.tooFewPlayers 0 1, rfl⟩
  case dealt =>
    intro tries entropy deck ready somebody
    rw [deal]
    exact Game.exists_dealtTo ready somebody

/-- Calls come to a setup, or fail at a name for which there is no id left. -/
theorem setup_of_calls (calls : List Call) :
    (runAll calls = .error .noIdLeft ↔
      ∃ before name after setup, calls = before ++ .addNamed name :: after ∧
        runAll before = .ok setup ∧ ∃ p ∈ setup.players, p.id.number.val = 255) ∧
      ∀ setup, runAll calls = .ok setup → Collects calls setup :=
  ⟨runAll_error_iff, fun _ => collects_of_runAll⟩

/-- The last of the three players is added, and two are named after that. -/
def namedAfter : List Call :=
  [.setPacks 2, .add (Game.trio.getLastD default), .addNamed "next", .keepOrder, .addNamed "after",
    .setSeed 7]

/-- Calls that leave the one pack to be shuffled. -/
def shuffledAfter : List Call := [.addNamed "first", .addNamed "next", .setSeed 7]

theorem setup_of_namedAfter :
    (∃ setup, runAll namedAfter = .ok setup ∧
      setup.players.map (fun p => p.id.number.val) = [2, 3, 4] ∧ Collects namedAfter setup) ∧
    ∃ setup deck start, runAll shuffledAfter = .ok setup ∧ Collects shuffledAfter setup ∧
      (configured shuffledAfter).deck 8 0 = .ok deck ∧ deck ≠ Pile.packs 1 ∧
      setup.deal 8 0 = .ok (.ok start) ∧
      start.DealtTo (configured shuffledAfter) deck setup.players := by
  constructor
  · have returned : ∃ setup, runAll namedAfter = .ok setup ∧
        setup.players.map (fun p => p.id.number.val) = [2, 3, 4] := ⟨_, rfl, rfl⟩
    obtain ⟨setup, done, ids⟩ := returned
    exact ⟨setup, done, ids, (setup_of_calls namedAfter).2 setup done⟩
  · have returned : ∃ setup, runAll shuffledAfter = .ok setup ∧ setup.players ≠ [] :=
      ⟨_, rfl, by decide⟩
    obtain ⟨setup, done, somebody⟩ := returned
    have collects := (setup_of_calls shuffledAfter).2 setup done
    obtain ⟨deck, ready, shuffled⟩ := Settings.exists_shuffled
    obtain ⟨start, dealt, made⟩ := collects.dealt 8 0 deck ready somebody
    exact ⟨setup, deck, start, done, collects, ready, shuffled, dealt, made⟩

end Setup

end WarGame
