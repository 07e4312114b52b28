import Mathlib
import WarGame.Proofs.Shuffling

/-!
# Draws in any order

Whatever is done to a pile, every card that was in it or was put in is handed out or still there.
Draws leave the other cards in their order, and a draw that is refused says what it handed out.
-/

namespace WarGame

namespace Pile

variable {tries : Nat} {g after : Generator} {pile left : Pile}

/-! ### Cards at random positions -/

theorem cons_eraseIdx_perm (pile : Pile) (i : Fin pile.length) :
    (pile[i] :: pile.eraseIdx i).Perm pile :=
  List.getElem_cons_eraseIdx_perm i.isLt

theorem takeChosen_spec {count : Nat} {taken : Pile}
    (done : takeChosen (Random.index tries) count pile g = .ok ((taken, left), after)) :
    (taken ++ left).Perm pile ∧ left.Sublist pile ∧ taken.length = min count pile.length := by
  induction count generalizing pile g taken left after with
  | zero =>
    obtain ⟨rfl, rfl⟩ := Prod.mk.inj (Random.pure_ok done)
    simp
  | succ count ih =>
    cases pile with
    | nil =>
      obtain ⟨rfl, rfl⟩ := Prod.mk.inj (Random.pure_ok done)
      simp
    | cons c rest =>
      obtain ⟨i, mid, -, drawn⟩ := Random.bind_ok done
      obtain ⟨⟨others, last⟩, late, chosen, answered⟩ := Random.bind_ok drawn
      obtain ⟨rfl, rfl⟩ := Prod.mk.inj (Random.pure_ok answered)
      obtain ⟨same, kept, size⟩ := ih chosen
      refine ⟨?_, kept.trans (List.eraseIdx_sublist _ _), ?_⟩
      · rw [List.cons_append]
        exact (same.cons _).trans (cons_eraseIdx_perm (c :: rest) i)
      · rw [List.length_cons, size, List.length_eraseIdx_of_lt i.isLt, List.length_cons]
        omega

/-! ### Calls on a pile -/

/-- A call on a pile. -/
inductive Call where
  | draw
  | drawRow (count : Int)
  | pick
  | pickRow (count : Int)
  | shuffle
  /-- Puts cards under the pile. -/
  | add (cards : Pile)
  | takeAll
  deriving DecidableEq, Repr

/-- What a call answers. -/
inductive Answer where
  | card (result : Except DrawError Card)
  | row (result : Except DrawError Pile)
  | done
  deriving DecidableEq, Repr

/-- The cards handed out, by a draw that is refused too. -/
def Answer.cards : Answer → Pile
  | card (.ok c) => [c]
  | row (.ok cards) => cards
  | card (.error e) | row (.error e) => e.drawn
  | done => []

namespace Call

/-- The cards put in. -/
def added : Call → Pile
  | add cards => cards
  | _ => []

/-- Whether a call neither shuffles nor adds. -/
def onlyTakes : Call → Bool
  | shuffle | add _ => false
  | _ => true

def isRandom : Call → Bool
  | pick | pickRow _ | shuffle => true
  | _ => false

def isSingle : Call → Bool
  | draw | pick => true
  | _ => false

/-- The number of cards asked for as a row. -/
def asked : Call → Option Int
  | drawRow count | pickRow count => some count
  | _ => none

/-- What a call answers, and the pile it leaves. -/
def run (tries : Nat) (pile : Pile) : Call → Random (Answer × Pile)
  | draw => pure (.card pile.draw.1, pile.draw.2)
  | drawRow count => pure (.row (pile.drawRow count).1, (pile.drawRow count).2)
  | pick => do
    let (result, left) ← pile.pick tries
    pure (.card result, left)
  | pickRow count => do
    let (result, left) ← pile.pickRow tries count
    pure (.row result, left)
  | shuffle => do
    let cards ← pile.shuffle tries
    pure (.done, cards)
  | add cards => pure (.done, pile ++ cards)
  | takeAll => pure (.row (.ok pile), [])

end Call

/-! ### What a call can do -/

/-- The ways in which a call can answer, with the pile it leaves. -/
inductive Takes (pile : Pile) : Call → Answer → Pile → Prop where
  | empty {call : Call} (single : call.isSingle = true) (none : pile = []) :
      Takes pile call (.card (.error .empty)) []
  | card {call : Call} {c : Card} {left : Pile} (single : call.isSingle = true)
      (all : (c :: left).Perm pile) (order : left.Sublist pile) :
      Takes pile call (.card (.ok c)) left
  | negative {call : Call} {count : Int} (asked : call.asked = some count) (below : count < 0) :
      Takes pile call (.row (.error (.negative count))) pile
  | short {call : Call} {count : Int} {cards : Pile} (asked : call.asked = some count)
      (few : pile.length < count) (all : cards.Perm pile) :
      Takes pile call (.row (.error (.insufficient count.toNat cards))) []
  | row {call : Call} {count : Int} {cards left : Pile} (asked : call.asked = some count)
      (some : 0 ≤ count) (enough : count ≤ pile.length) (size : cards.length = count.toNat)
      (all : (cards ++ left).Perm pile) (order : left.Sublist pile) :
      Takes pile call (.row (.ok cards)) left
  | shuffle {left : Pile} (all : left.Perm pile) : Takes pile .shuffle .done left
  | add (cards : Pile) : Takes pile (.add cards) .done (pile ++ cards)
  | takeAll : Takes pile .takeAll (.row (.ok pile)) []

namespace Call

variable {call : Call} {count : Int} {answer : Answer}

theorem draw_takes : Takes pile .draw (.card pile.draw.1) pile.draw.2 := by
  cases pile with
  | nil => exact .empty rfl rfl
  | cons c rest => exact .card rfl (.refl _) (List.sublist_cons_self c rest)

theorem drawRow_takes :
    Takes pile (.drawRow count) (.row (pile.drawRow count).1) (pile.drawRow count).2 := by
  unfold Pile.drawRow
  split
  · next below => exact .negative rfl below
  · split
    · next some few => exact .short rfl (by omega) (.refl _)
    · next some enough =>
      refine .row rfl (by omega) (by omega) ?_ ?_ (List.drop_sublist _ _)
      · rw [List.length_take]
        omega
      · rw [List.take_append_drop]

theorem pick_takes {result : Except DrawError Card}
    (done : pile.pick tries g = .ok ((result, left), after)) :
    Takes pile .pick (.card result) left := by
  cases pile with
  | nil =>
    obtain ⟨rfl, rfl⟩ := Prod.mk.inj (Random.pure_ok done)
    exact .empty rfl rfl
  | cons c rest =>
    obtain ⟨i, mid, -, drawn⟩ := Random.bind_ok done
    obtain ⟨rfl, rfl⟩ := Prod.mk.inj (Random.pure_ok drawn)
    exact .card rfl (cons_eraseIdx_perm (c :: rest) i) (List.eraseIdx_sublist _ _)

theorem pickRow_takes {result : Except DrawError Pile}
    (done : pile.pickRow tries count g = .ok ((result, left), after)) :
    Takes pile (.pickRow count) (.row result) left := by
  unfold Pile.pickRow at done
  split at done
  · next below =>
    obtain ⟨rfl, rfl⟩ := Prod.mk.inj (Random.pure_ok done)
    exact .negative rfl below
  · obtain ⟨⟨taken, last⟩, mid, chosen, drawn⟩ := Random.bind_ok done
    obtain ⟨same, kept, size⟩ := takeChosen_spec chosen
    have whole := same.length_eq
    rw [List.length_append] at whole
    dsimp only at drawn
    split at drawn
    · next few =>
      obtain ⟨rfl, rfl⟩ := Prod.mk.inj (Random.pure_ok drawn)
      obtain rfl : left = [] := List.eq_nil_of_length_eq_zero (by omega)
      rw [List.append_nil] at same
      exact .short rfl (by omega) same
    · next enough =>
      obtain ⟨rfl, rfl⟩ := Prod.mk.inj (Random.pure_ok drawn)
      exact .row rfl (by omega) (by omega) (by omega) same kept

theorem run_takes (done : call.run tries pile g = .ok ((answer, left), after)) :
    Takes pile call answer left := by
  cases call with
  | draw =>
    obtain ⟨rfl, rfl⟩ := Prod.mk.inj (Random.pure_ok done)
    exact draw_takes
  | drawRow count =>
    obtain ⟨rfl, rfl⟩ := Prod.mk.inj (Random.pure_ok done)
    exact drawRow_takes
  | pick =>
    obtain ⟨⟨result, last⟩, mid, picked, answered⟩ := Random.bind_ok done
    obtain ⟨rfl, rfl⟩ := Prod.mk.inj (Random.pure_ok answered)
    exact pick_takes picked
  | pickRow count =>
    obtain ⟨⟨result, last⟩, mid, picked, answered⟩ := Random.bind_ok done
    obtain ⟨rfl, rfl⟩ := Prod.mk.inj (Random.pure_ok answered)
    exact pickRow_takes picked
  | shuffle =>
    obtain ⟨cards, mid, shuffled, answered⟩ := Random.bind_ok done
    obtain ⟨rfl, rfl⟩ := Prod.mk.inj (Random.pure_ok answered)
    exact .shuffle (Pile.shuffle_perm shuffled)
  | add cards =>
    obtain ⟨rfl, rfl⟩ := Prod.mk.inj (Random.pure_ok done)
    exact .add cards
  | takeAll =>
    obtain ⟨rfl, rfl⟩ := Prod.mk.inj (Random.pure_ok done)
    exact .takeAll

theorem added_of_single (single : call.isSingle = true) : call.added = [] := by
  cases call <;> cases single <;> rfl

theorem added_of_asked (asked : call.asked = some count) : call.added = [] := by
  cases call <;> cases asked <;> rfl

/-! ### Calls that leave the generator -/

theorem run_of_negative (tries : Nat) (pile : Pile) (g : Generator)
    (asked : call.asked = some count) (below : count < 0) :
    call.run tries pile g = .ok ((.row (.error (.negative count)), pile), g) := by
  cases call <;> cases asked
  · simp only [run, Pile.drawRow, if_pos below]
    rfl
  · simp only [run, Pile.pickRow, if_pos below]
    rfl

theorem run_of_empty (tries : Nat) (g : Generator) (single : call.isSingle = true) :
    call.run tries [] g = .ok ((.card (.error .empty), []), g) := by
  cases call <;> cases single <;> rfl

theorem run_of_sure (tries : Nat) (pile : Pile) (g : Generator) (sure : call.isRandom = false) :
    ∃ answer left, call.run tries pile g = .ok ((answer, left), g) := by
  cases call <;> cases sure <;> exact ⟨_, _, rfl⟩

end Call

/-! ### Calls in a row -/

namespace Takes

variable {call : Call} {count : Int} {answer : Answer}

theorem cards (takes : Takes pile call answer left) :
    (answer.cards ++ left).Perm (pile ++ call.added) := by
  cases takes with
  | empty single none =>
    rw [Call.added_of_single single, none]
    exact .refl []
  | card single all order =>
    rw [Call.added_of_single single, List.append_nil]
    exact all
  | negative asked below =>
    rw [Call.added_of_asked asked, List.append_nil]
    exact .refl pile
  | short asked few all =>
    rw [Call.added_of_asked asked, List.append_nil, List.append_nil]
    exact all
  | row asked some enough size all order =>
    rw [Call.added_of_asked asked, List.append_nil]
    exact all
  | shuffle all =>
    have none : Call.shuffle.added = [] := rfl
    rw [none, List.append_nil]
    exact all
  | add cards => exact .refl _
  | takeAll => exact .refl _

theorem order (takes : Takes pile call answer left) (taking : call.onlyTakes = true) :
    left.Sublist pile := by
  cases takes with
  | empty | short | takeAll => exact List.nil_sublist pile
  | negative => exact .refl pile
  | card single all order => exact order
  | row asked some enough size all order => exact order
  | shuffle all => cases taking
  | add cards => cases taking

/-- A single draw is refused by an empty pile and by no other. -/
theorem single_iff (takes : Takes pile call answer left) (single : call.isSingle = true) :
    (∃ result, answer = .card result) ∧
      ∀ e, answer = .card (.error e) ↔ pile = [] ∧ e = .empty := by
  cases takes with
  | empty _ none => exact ⟨⟨_, rfl⟩, fun e => by simp [none, eq_comm]⟩
  | card _ all order =>
    have some : pile ≠ [] := by
      rintro rfl
      cases all.eq_nil
    exact ⟨⟨_, rfl⟩, fun e => by simp [some]⟩
  | negative asked | short asked | row asked => cases call <;> cases single <;> cases asked
  | shuffle | add | takeAll => cases single

/-- A row that is asked for is handed out, unless the number is negative or exceeds the pile. -/
theorem row_cases (takes : Takes pile call answer left) (asked : call.asked = some count) :
    count < 0 ∧ answer = .row (.error (.negative count)) ∧ left = pile ∨
      pile.length < count ∧ (∃ cards : Pile, cards.Perm pile ∧
        answer = .row (.error (.insufficient count.toNat cards))) ∧ left = [] ∨
      0 ≤ count ∧ count ≤ pile.length ∧
        ∃ cards : Pile, cards.length = count.toNat ∧ answer = .row (.ok cards) := by
  cases takes with
  | empty single | card single => cases call <;> cases single <;> cases asked
  | negative named below =>
    obtain rfl := Option.some.inj (named.symm.trans asked)
    exact .inl ⟨below, rfl, rfl⟩
  | short named few all =>
    obtain rfl := Option.some.inj (named.symm.trans asked)
    exact .inr (.inl ⟨few, ⟨_, all, rfl⟩, rfl⟩)
  | row named some enough size all order =>
    obtain rfl := Option.some.inj (named.symm.trans asked)
    exact .inr (.inr ⟨some, enough, _, size, rfl⟩)
  | shuffle | add | takeAll => cases asked

end Takes

/-- What calls answer one after the other, and the pile they leave. -/
def runAll (tries : Nat) : List Call → Pile → Random (List Answer × Pile)
  | [], pile => pure ([], pile)
  | call :: rest, pile => do
    let (answer, left) ← call.run tries pile
    let (answers, last) ← runAll tries rest left
    pure (answer :: answers, last)

variable {start : Pile} {source : Generator} {calls : List Call} {answers : List Answer}

theorem runAll_cards (done : runAll tries calls start source = .ok ((answers, pile), g)) :
    (answers.flatMap Answer.cards ++ pile).Perm (start ++ calls.flatMap Call.added) := by
  induction calls generalizing start source answers with
  | nil =>
    obtain ⟨rfl, rfl⟩ := Prod.mk.inj (Random.pure_ok done)
    exact List.perm_append_comm
  | cons call rest ih =>
    obtain ⟨⟨answer, left⟩, mid, first, others⟩ := Random.bind_ok done
    obtain ⟨⟨more, last⟩, late, second, answered⟩ := Random.bind_ok others
    cases answered
    have step := (Call.run_takes first).cards
    have behind := ih second
    apply List.perm_iff_count.mpr
    intro c
    have now := step.count_eq c
    have later := behind.count_eq c
    simp only [List.flatMap_cons, List.count_append] at now later ⊢
    omega

theorem runAll_order (done : runAll tries calls start source = .ok ((answers, pile), g))
    (taking : ∀ call ∈ calls, call.onlyTakes = true) : pile.Sublist start := by
  induction calls generalizing start source answers with
  | nil =>
    obtain ⟨rfl, rfl⟩ := Prod.mk.inj (Random.pure_ok done)
    exact .refl _
  | cons call rest ih =>
    obtain ⟨⟨answer, left⟩, mid, first, others⟩ := Random.bind_ok done
    obtain ⟨⟨more, last⟩, late, second, answered⟩ := Random.bind_ok others
    cases answered
    have step := (Call.run_takes first).order (taking call List.mem_cons_self)
    exact (ih second fun other member => taking other (List.mem_cons_of_mem call member)).trans step

/-- What calls have come to, and what the next one may answer. -/
structure Custody (tries : Nat) (start : Pile) (calls : List Call) (answers : List Answer)
    (pile : Pile) : Prop where
  cards : (answers.flatMap Answer.cards ++ pile).Perm (start ++ calls.flatMap Call.added)
  order : (∀ call ∈ calls, call.onlyTakes = true) → pile.Sublist start
  /-- A negative number is refused, and nothing changes. -/
  negative : ∀ (call : Call) count g, call.asked = some count → count < 0 →
    call.run tries pile g = .ok ((.row (.error (.negative count)), pile), g)
  /-- More cards than there are: all of them are handed out with the refusal. -/
  insufficient : ∀ (call : Call) count g answer left after, call.asked = some count →
    call.run tries pile g = .ok ((answer, left), after) →
      ((∃ n cards, answer = .row (.error (.insufficient n cards))) ↔ pile.length < count) ∧
      ∀ n cards, answer = .row (.error (.insufficient n cards)) →
        (n : Int) = count ∧ cards.Perm pile ∧ left = []
  enough : ∀ (call : Call) count g answer left after, call.asked = some count →
    call.run tries pile g = .ok ((answer, left), after) →
      ((∃ cards, answer = .row (.ok cards)) ↔ 0 ≤ count ∧ count ≤ pile.length) ∧
      ∀ cards, answer = .row (.ok cards) → (cards.length : Int) = count
  /-- One card of an empty pile is refused, and nothing changes. -/
  empty : ∀ (call : Call) g, call.isSingle = true → pile = [] →
    call.run tries pile g = .ok ((.card (.error .empty), pile), g)
  single : ∀ (call : Call) g answer left after, call.isSingle = true →
    call.run tries pile g = .ok ((answer, left), after) →
      (∃ result, answer = .card result) ∧
        ∀ e, answer = .card (.error e) ↔ pile = [] ∧ e = .empty
  /-- A call that is not random answers whatever the generator, and leaves it. -/
  sure : ∀ (call : Call) g, call.isRandom = false →
    ∃ answer left, call.run tries pile g = .ok ((answer, left), g)

theorem custody_of_calls (done : runAll tries calls start source = .ok ((answers, pile), g)) :
    Custody tries start calls answers pile := by
  constructor
  case cards => exact runAll_cards done
  case order => exact runAll_order done
  case negative => exact fun call count g => Call.run_of_negative tries pile g
  case insufficient =>
    intro call count g answer left after asked done
    rcases (Call.run_takes done).row_cases asked with
      ⟨below, rfl, -⟩ | ⟨few, ⟨cards, all, rfl⟩, rfl⟩ | ⟨some, enough, cards, -, rfl⟩
    · exact ⟨iff_of_false (by simp) (by omega), by simp⟩
    · refine ⟨iff_of_true ⟨_, _, rfl⟩ few, fun n others same => ?_⟩
      cases same
      exact ⟨Int.toNat_of_nonneg (by omega), all, rfl⟩
    · exact ⟨iff_of_false (by simp) (by omega), by simp⟩
  case enough =>
    intro call count g answer left after asked done
    rcases (Call.run_takes done).row_cases asked with
      ⟨below, rfl, -⟩ | ⟨few, ⟨cards, all, rfl⟩, rfl⟩ | ⟨some, enough, cards, size, rfl⟩
    · exact ⟨iff_of_false (by simp) (by omega), by simp⟩
    · exact ⟨iff_of_false (by simp) (by omega), by simp⟩
    · refine ⟨iff_of_true ⟨_, rfl⟩ ⟨some, enough⟩, fun others same => ?_⟩
      cases same
      omega
  case empty =>
    rintro call g single rfl
    exact Call.run_of_empty tries g single
  case single =>
    exact fun call g answer left after single done => (Call.run_takes done).single_iff single
  case sure => exact fun call g => Call.run_of_sure tries pile g

/-- A card is drawn at random, one is added, and then more are asked for than are left. -/
def threeCards : List Call := [.pick, .drawRow (-1), .add (pack.take 1), .drawRow 5, .draw]

theorem custody_threeCards : ∃ answers left after,
    runAll 1 threeCards (pack.take 3) { seed := 0 } = .ok ((answers, left), after) ∧
      Custody 1 (pack.take 3) threeCards answers left := by
  have returns : (runAll 1 threeCards (pack.take 3) { seed := 0 }).isOk = true := by
    decide +kernel
  cases known : runAll 1 threeCards (pack.take 3) { seed := 0 } with
  | error e =>
    rw [known] at returns
    cases returns
  | ok drawn => exact ⟨_, _, _, rfl, custody_of_calls known⟩

end Pile

end WarGame
