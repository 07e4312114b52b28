import WarGame.Proofs.Settling

/-!
# Deals in closed form

Cards are dealt one at a time to the players in turn, so each of `n` players gets every `n`-th
card, the first player from the top card on and each other from the card after.
-/

namespace WarGame

/-- Every `n`-th entry, after the first `skip` entries. -/
def everyNth {α : Type} (n : Nat) : Nat → List α → List α
  | _, [] => []
  | 0, x :: rest => x :: everyNth n (n - 1) rest
  | skip + 1, _ :: rest => everyNth n skip rest

theorem getElem?_everyNth {α : Type} {n : Nat} (positive : 0 < n) (skip j : Nat) (xs : List α) :
    (everyNth n skip xs)[j]? = xs[skip + n * j]? := by
  induction xs generalizing skip j with
  | nil => simp [everyNth]
  | cons x rest ih =>
    cases skip with
    | zero =>
      cases j with
      | zero => simp [everyNth]
      | succ j =>
        have place : 0 + n * (j + 1) = n - 1 + n * j + 1 := by
          rw [Nat.mul_succ]
          omega
        rw [everyNth, List.getElem?_cons_succ, ih, place, List.getElem?_cons_succ]
    | succ skip =>
      have place : skip + 1 + n * j = skip + n * j + 1 := by omega
      rw [everyNth, ih, place, List.getElem?_cons_succ]

theorem everyNth_map {β γ : Type} (view : β → γ) (n skip : Nat) (xs : List β) :
    everyNth n skip (xs.map view) = (everyNth n skip xs).map view := by
  induction xs generalizing skip with
  | nil => simp [everyNth]
  | cons x rest ih => cases skip <;> simp [everyNth, ih]

/-- What a player gets when a deck is dealt one card at a time to the players named, in turn. -/
def share (ids : List PlayerId) (deck : Pile) (id : PlayerId) : Pile :=
  if id ∈ ids then everyNth ids.length (ids.idxOf id) deck else []

/-- The first player named gets the top card and is then last in turn. -/
theorem share_cons {id other : PlayerId} {rest : List PlayerId} (c : Card) (deck : Pile)
    (distinct : (id :: rest).Nodup) :
    share (id :: rest) (c :: deck) other =
      (if other = id then [c] else []) ++ share (rest ++ [id]) deck other := by
  have fresh := (List.nodup_cons.mp distinct).1
  unfold share
  by_cases here : other = id
  · subst here
    simp [List.idxOf_append_of_notMem fresh, everyNth]
  · by_cases named : other ∈ rest
    · simp [here, named, List.idxOf_cons_ne _ (Ne.symm here), List.idxOf_append_of_mem named, everyNth]
    · simp [here, named]

namespace Table

theorem deal_table {ids : List PlayerId} (distinct : ids.Nodup) (deck : Pile) (table : Table) :
    (Table.deal ids deck table).2 = table.map fun s => s.receive (share ids deck s.id) := by
  induction deck generalizing ids table with
  | nil => cases ids <;> simp [deal, share, everyNth]
  | cons c deck ih =>
    cases ids with
    | nil => simp [deal, share]
    | cons id rest =>
      have turned : (rest ++ [id]).Nodup := (List.perm_append_singleton id rest).nodup_iff.mpr distinct
      rw [deal, ih turned, give, Table.modify, List.map_map]
      apply List.map_congr_left
      intro s _
      rw [Function.comp_apply, share_cons c deck distinct]
      split
      · next here => simp [here]
      · simp

theorem active_pairwise {table : Table} (ascending : table.Ascending) :
    table.active.Pairwise (· < ·) :=
  List.pairwise_map.mpr (ascending.sublist List.filter_sublist)

theorem active_nodup {table : Table} (ascending : table.Ascending) : table.active.Nodup :=
  (active_pairwise ascending).imp PlayerId.ne_of_lt

end Table

/-- A deal gives the active players their shares of the deck. If there are none it stays. -/
theorem Game.deal_shares {g after : Game} (ascending : g.table.Ascending)
    (dealt : g.deal = (.ok (), after)) :
    after.table = g.table.map (fun s => s.receive (share g.table.active g.deck s.id)) ∧
      after.deck = if g.table.active = [] then g.deck else [] := by
  obtain ⟨nobody, rfl⟩ | ⟨somebody, rfl⟩ := deal_cases dealt
  · simp [nobody, share]
  · rw [if_neg somebody]
    exact ⟨Table.deal_table (Table.active_nodup ascending) _ _, Table.deck_deal somebody _⟩

end WarGame
