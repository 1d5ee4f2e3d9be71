import DiceNotation.Proofs.Evaluation.Dice
import DiceNotation.Proofs.Evaluation.Faces
import DiceNotation.Proofs.Pool.Keeping

/-!
# Faces in another order

What a pool makes of its first faces when they fall in another order. Another one of equal dice may
be kept, and bonus dice may follow other dice, but as a whole the same dice come out.
-/

namespace DiceNotation

theorem Die.total_eq_of_perm {first second : List Die} (h : first.Perm second) :
    total first = total second := by
  rw [← sum_map_contribution, ← sum_map_contribution, (h.map contribution).sum_eq]

/-! ### Selections -/

namespace Selection

theorem ascending_eq_iff {values values' : List Int} :
    ascending values = ascending values' ↔ values.Perm values' := by
  have hperm : ∀ values, (ascending values).Perm values := fun values =>
    List.mergeSort_perm values _
  constructor
  · intro h
    exact (hperm values).symm.trans (h ▸ hperm values')
  · intro h
    exact ascending_eq_of_perm ((hperm values').trans h.symm) (pairwise_mergeSort_le values')

/-- Dice of which some are kept and all others discarded are told by the values of both. -/
theorem perm_showing {dice : List Die}
    (hstatus : ∀ die ∈ dice, die.status = .kept ∨ die.status = .discarded)
    (hplain : ∀ die ∈ dice, die.negative = false) :
    ((valuesOf .kept dice).map (Die.showing .kept) ++
      (valuesOf .discarded dice).map (Die.showing .discarded)).Perm dice := by
  have hshowing : ∀ status : Status, (valuesOf status dice).map (Die.showing status) =
      dice.filter (·.status = status) := by
    intro status
    rw [valuesOf, List.map_map]
    refine (List.map_congr_left fun die hdie => ?_).trans (List.map_id _)
    obtain ⟨hmem, hdie⟩ := List.mem_filter.mp hdie
    have hnegative := hplain die hmem
    obtain ⟨value, _, _⟩ := die
    obtain rfl := of_decide_eq_true hdie
    obtain rfl := hnegative
    rfl
  have hrest : dice.filter (·.status = .discarded) =
      dice.filter (fun die => !decide (die.status = .kept)) := by
    refine List.filter_congr fun die hdie => ?_
    rcases hstatus die hdie with h | h <;> simp [h]
  rw [hshowing, hshowing, hrest]
  exact List.filter_append_perm _ _

section Ranks

variable {low kept high : Nat} {dice dice' selected selected' : List Die} {faces faces' : List Int}

/-- Two selections that keep the same block of the same values have the same dice. -/
theorem Keeps.perm (h : Keeps low kept high dice selected)
    (h' : Keeps low kept high dice' selected') (hperm : dice.Perm dice')
    (hplain : ∀ die ∈ dice, die.negative = false) : selected.Perm selected' := by
  have hvalues : ascending (dice.map (·.value)) = ascending (dice'.map (·.value)) :=
    ascending_eq_iff.mpr (hperm.map _)
  have hkept : (valuesOf .kept selected).Perm (valuesOf .kept selected') :=
    ascending_eq_iff.mp (by rw [h.values, h'.values, hvalues])
  have hdiscarded : (valuesOf .discarded selected).Perm (valuesOf .discarded selected') :=
    ascending_eq_iff.mp (by rw [h.discarded, h'.discarded, hvalues])
  have hplain' : ∀ die ∈ dice', die.negative = false := fun die hdie =>
    hplain die (hperm.mem_iff.mpr hdie)
  exact (perm_showing h.status (plain_of_same h.same hplain)).symm.trans
    (((hkept.map _).append (hdiscarded.map _)).trans
      (perm_showing h'.status (plain_of_same h'.same hplain')))

theorem IsByRank.perm {select : List Die → List Die} (h : IsByRank select)
    (hperm : faces.Perm faces') :
    (select (faces.map (Die.showing .kept))).Perm (select (faces'.map (Die.showing .kept))) := by
  obtain ⟨low, kept, high, hkeeps⟩ := h faces.length
  have hfirst := hkeeps (faces.map (Die.showing .kept)) (List.length_map _) (by simp [Die.showing])
  have hsecond := hkeeps (faces'.map (Die.showing .kept))
    ((List.length_map _).trans hperm.length_eq.symm) (by simp [Die.showing])
  exact hfirst.perm hsecond (hperm.map _) (by simp [Die.showing])

theorem perm_bestGroup (h : dice.Perm dice') : (bestGroup dice).Perm (bestGroup dice') := by
  have hsame : bestFace? (dice.map (·.value)) = bestFace? (dice'.map (·.value)) := by
    have hoccurrences : occurrences (dice.map (·.value)) = occurrences (dice'.map (·.value)) :=
      congrArg (List.foldr addLeast []) (ascending_eq_iff.mpr (h.map _))
    rw [bestFace?, bestFace?, hoccurrences]
  unfold bestGroup
  rw [hsame]
  split
  · exact h
  · exact h.map _

theorem perm_betterSet (high : Bool) {first first' second : List Die} (h : first.Perm first') :
    (betterSet high first second).Perm (betterSet high first' second) := by
  have hsame : Die.total first = Die.total first' := Die.total_eq_of_perm h
  simp only [betterSet, hsame]
  by_cases hwins : if high then Die.total second ≤ Die.total first'
    else Die.total first' ≤ Die.total second
  · rw [if_pos hwins, if_pos hwins]
    exact h.append_right _
  · rw [if_neg hwins, if_neg hwins]
    exact (h.map _).append_right _

/-- Each selection has the same dice, whatever the order in which the faces fell. -/
theorem perm_select {modifier : Option Modifier} {select : List Die → List Die}
    (hselect : Modifier.selection? modifier = some select) (h : faces.Perm faces') :
    (select (faces.map (Die.showing .kept))).Perm (select (faces'.map (Die.showing .kept))) := by
  have hdice := h.map (Die.showing .kept)
  cases modifier with
  | none =>
    cases hselect
    exact hdice
  | some modifier =>
    cases modifier with
    | explode | explodeEach | advantage | disadvantage => cases hselect
    | addEach | subtractEach =>
      cases hselect
      exact hdice.map _
    | bestGroup =>
      cases hselect
      exact perm_bestGroup hdice
    | takeLow count =>
      cases hselect
      exact (isByRank_lowest count).perm h
    | takeHigh count =>
      cases hselect
      exact (isByRank_highest count).perm h
    | takeMiddle count =>
      cases hselect
      exact (isByRank_middle count).perm h

end Ranks

end Selection

/-! ### Explosions -/

namespace Explosion

section Chains

variable {threshold face face' : Int} {again : Bool} {later later' : List Int}
  {first first' : List Int} {chains sets : List (List Int)}

theorem IsChain.congr (h : IsChain threshold again face later)
    (hsame : threshold ≤ face ↔ threshold ≤ face') : IsChain threshold again face' later := by
  cases h with
  | stop hlt => exact .stop (by omega)
  | once next hle honce => exact .once next (hsame.mp hle) honce
  | goOn hle hagain hlater => exact .goOn (hsame.mp hle) hagain hlater

/-- Two dice next to each other hand on the faces behind them. If one of them has no chain, the
other one takes its own along. -/
theorem IsChain.exchange (h : IsChain threshold again face later)
    (h' : IsChain threshold again face' later') :
    ∃ chain chain', IsChain threshold again face' chain ∧ IsChain threshold again face chain' ∧
      chain ++ chain' = later ++ later' := by
  by_cases hsame : threshold ≤ face ↔ threshold ≤ face'
  · exact ⟨later, later', h.congr hsame, h'.congr hsame.symm, rfl⟩
  · obtain hlt | hlt : face < threshold ∨ face' < threshold := by omega
    · obtain rfl := h.isWholeChain.nil_iff.mpr hlt
      exact ⟨later', [], h', h, List.append_nil later'⟩
    · obtain rfl := h'.isWholeChain.nil_iff.mpr hlt
      exact ⟨[], later, h', h, (List.append_nil later).symm⟩

/-- The faces of all chains can be dealt out anew when the dice in front of them fall in another
order. -/
theorem exists_chains_of_perm (hperm : first.Perm first')
    (h : List.Forall₂ (IsChain threshold again) first chains) :
    ∃ chains', List.Forall₂ (IsChain threshold again) first' chains' ∧
      chains'.flatten = chains.flatten := by
  induction hperm generalizing chains with
  | nil => exact ⟨chains, h, rfl⟩
  | cons face _ ih =>
    rcases h with _ | ⟨hchain, hchains⟩
    obtain ⟨chains', hchains', hflatten⟩ := ih hchains
    exact ⟨_, .cons hchain hchains', by rw [List.flatten_cons, hflatten, List.flatten_cons]⟩
  | swap face face' first =>
    rcases h with _ | ⟨hchain, _ | ⟨hchain', hchains⟩⟩
    obtain ⟨chain, chain', hfirst, hsecond, happend⟩ := hchain.exchange hchain'
    refine ⟨_, .cons hfirst (.cons hsecond hchains), ?_⟩
    simp only [List.flatten_cons, ← List.append_assoc, happend]
  | trans _ _ ih ih' =>
    obtain ⟨middle, hmiddle, hflatten⟩ := ih h
    obtain ⟨chains', hchains', hflatten'⟩ := ih' hmiddle
    exact ⟨chains', hchains', hflatten'.trans hflatten⟩

/-- A series starts from which faces its first set has, not from their order. -/
theorem IsSeries.of_perm (h : IsSeries threshold again first sets) (hperm : first.Perm first') :
    IsSeries threshold again first' sets := by
  have hne : first' ≠ [] ↔ first ≠ [] := by
    rw [not_iff_not, ← List.length_eq_zero_iff, ← hperm.length_eq, List.length_eq_zero_iff]
  have hmem : ∀ face ∈ first', face ∈ first := fun face => hperm.mem_iff.mpr
  cases h with
  | stop hstop =>
    refine .stop fun hfirst => ?_
    obtain ⟨face, hface, hlt⟩ := hstop (hne.mp hfirst)
    exact ⟨face, hperm.mem_iff.mp hface, hlt⟩
  | once hfirst hall honce hlength =>
    exact .once (hne.mpr hfirst) (fun face hface => hall face (hmem face hface)) honce
      (hlength.trans hperm.length_eq)
  | goOn hfirst hall hagain hlength hlater =>
    exact .goOn (hne.mpr hfirst) (fun face hface => hall face (hmem face hface)) hagain
      (hlength.trans hperm.length_eq) hlater

end Chains

end Explosion

/-! ### Pools -/

namespace Pool

variable {pool : Pool} {faces first : List Int} {dice : List Die}

theorem Shows.count_le (h : pool.Shows faces dice) : pool.count.toNat ≤ faces.length := by
  cases h with
  | once _ hlength => exact hlength.ge
  | twice _ _ hlength | explode _ hlength | explodeEach _ hlength =>
    rw [List.length_append, hlength]
    exact Nat.le_add_right _ _

/-- Rolled in another order, the first dice and what follows them are the same dice again. -/
theorem Shows.exists_of_perm (h : pool.Shows faces dice)
    (hfirst : first.Perm (faces.take pool.count.toNat)) :
    ∃ reordered, pool.Shows (first ++ faces.drop pool.count.toNat) reordered ∧
      reordered.Perm dice := by
  cases h with
  | once hselect hlength =>
    rw [List.take_of_length_le hlength.le] at hfirst
    rw [List.drop_eq_nil_of_le hlength.le, List.append_nil]
    exact ⟨_, .once hselect (hfirst.length_eq.trans hlength),
      Selection.perm_select hselect hfirst⟩
  | twice high hmodifier hlength hsecond =>
    rw [List.take_left' hlength] at hfirst
    rw [List.drop_left' hlength]
    exact ⟨_, .twice high hmodifier (hfirst.length_eq.trans hlength) hsecond,
      Selection.perm_betterSet high (hfirst.map _)⟩
  | explode hmodifier hlength hseries =>
    rw [List.take_left' hlength] at hfirst
    rw [List.drop_left' hlength]
    exact ⟨_, .explode hmodifier (hfirst.length_eq.trans hlength) (hseries.of_perm hfirst.symm),
      (hfirst.map _).append_right _⟩
  | explodeEach hmodifier hlength hchains =>
    rw [List.take_left' hlength] at hfirst
    rw [List.drop_left' hlength]
    obtain ⟨chains, hdealt, hflatten⟩ := Explosion.exists_chains_of_perm hfirst.symm hchains
    rw [← hflatten]
    refine ⟨_, .explodeEach hmodifier (hfirst.length_eq.trans hlength) hdealt, ?_⟩
    refine (perm_chains hdealt).trans (.trans ?_ (perm_chains hchains).symm)
    rw [hflatten]
    exact (hfirst.map _).append_right _

/-- When the first dice of a pool fall in another order, the evaluation draws the same faces, so it
leaves the same ones, and comes to the same total of the same dice, each with its status. -/
theorem evaluate_reordered {limits : Limits} {supplied : Nat} {after : Replay} {value : Value}
    (h : (Expression.pool pool).evaluate limits (⟨supplied, faces⟩ : Replay) = .ok value after)
    (hfirst : first.Perm (faces.take pool.count.toNat)) :
    ∃ reordered,
      (Expression.pool pool).evaluate limits
        (⟨supplied, first ++ faces.drop pool.count.toNat⟩ : Replay) = .ok reordered after ∧
      reordered.roll.total = value.roll.total ∧
      reordered.roll.dice.Perm value.roll.dice := by
  obtain ⟨hadmissible, drawn, dice, hgives, hshows, rfl⟩ := evaluate_eq_ok_iff_shows.mp h
  obtain ⟨-, rfl, hfaces⟩ := Replay.gives_iff.mp hgives
  have hdrawn : faces = drawn ++ after.rest := by
    rw [hfaces, List.map_map]
    exact congrArg (· ++ after.rest) (List.map_id drawn)
  have hcount := hshows.count_le
  rw [hdrawn, List.take_append_of_le_length hcount] at hfirst
  rw [hdrawn, List.drop_append_of_le_length hcount, ← List.append_assoc]
  obtain ⟨reordered, hreordered, hperm⟩ := hshows.exists_of_perm hfirst
  have hsame : (first ++ drawn.drop pool.count.toNat).Perm drawn :=
    (hfirst.append_right _).trans (.of_eq (List.take_append_drop _ drawn))
  have hvalid : ∀ face ∈ first ++ drawn.drop pool.count.toNat, 1 ≤ face ∧ face ≤ pool.sides :=
    fun face hface => hgives.forall_face face (hsame.mem_iff.mp hface)
  refine ⟨_, evaluate_eq_ok_iff_shows.mpr ⟨hadmissible, _, reordered,
    Replay.gives_faces hvalid after.supplied after.rest, hreordered, rfl⟩, ?_, hperm⟩
  exact Die.total_eq_of_perm hperm

theorem evaluate_reordered_chains :
    ∃ value after reordered,
      Expression.evaluate {} (.pool ⟨3, 6, some (.explodeEach none true), none⟩)
        (⟨0, [6, 2, 6, 6, 1, 3, 5]⟩ : Replay) = .ok value after ∧
      Expression.evaluate {} (.pool ⟨3, 6, some (.explodeEach none true), none⟩)
        (⟨0, [2, 6, 6, 6, 1, 3, 5]⟩ : Replay) = .ok reordered after ∧
      reordered.roll.total = 24 ∧ reordered.roll.dice.Perm value.roll.dice := by
  have hvalue : Expression.evaluate {} (.pool ⟨3, 6, some (.explodeEach none true), none⟩)
      (⟨0, [6, 2, 6, 6, 1, 3, 5]⟩ : Replay) = .ok (.plain {
        dice := [⟨6, .kept, false⟩, ⟨6, .bonus, false⟩, ⟨1, .bonus, false⟩, ⟨2, .kept, false⟩,
          ⟨6, .kept, false⟩, ⟨3, .bonus, false⟩]
        total := 24 }) ⟨0, [5]⟩ := by
    cbv
  have hfirst : ([2, 6, 6] : List Int).Perm ([6, 2, 6, 6, 1, 3, 5].take 3) := by decide
  obtain ⟨reordered, hreordered, htotal, hperm⟩ := evaluate_reordered hvalue hfirst
  exact ⟨_, _, reordered, hvalue, hreordered, htotal, hperm⟩

end Pool

end DiceNotation
