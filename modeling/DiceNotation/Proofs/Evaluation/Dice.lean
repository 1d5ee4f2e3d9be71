import DiceNotation.Proofs.Evaluation.Balance
import DiceNotation.Proofs.Evaluation.Pools

/-!
# The dice of a value

Every face that an evaluation draws is a die of its value, and every die comes from such a face.
Only targets and what is added to each die change what a die shows, and only chains of dice change
the order.
-/

namespace DiceNotation

/-- The values come from the faces, one from each. If nothing changes them they are the faces in
some order, and if nothing mixes them either, in the order of the faces. -/
structure Matches (keeps ordered : Prop) (values faces : List Int) : Prop where
  length : values.length = faces.length
  perm : keeps → values.Perm faces
  same : keeps → ordered → values = faces

theorem matches_of_same {keeps ordered : Prop} {values faces : List Int} (h : values = faces) :
    Matches keeps ordered values faces :=
  ⟨congrArg List.length h, fun _ => .of_eq h, fun _ _ => h⟩

theorem matches_of_not {keeps ordered : Prop} {values faces : List Int}
    (hlength : values.length = faces.length) (h : ¬keeps) : Matches keeps ordered values faces :=
  ⟨hlength, fun hkeeps => absurd hkeeps h, fun hkeeps => absurd hkeeps h⟩

theorem Matches.append {keeps ordered keeps' ordered' : Prop}
    {values faces values' faces' : List Int} (h : Matches keeps ordered values faces)
    (h' : Matches keeps' ordered' values' faces') :
    Matches (keeps ∧ keeps') (ordered ∧ ordered') (values ++ values') (faces ++ faces') := by
  refine ⟨?_, ?_, ?_⟩
  · rw [List.length_append, List.length_append, h.length, h'.length]
  · rintro ⟨hkeeps, hkeeps'⟩
    exact (h.perm hkeeps).append (h'.perm hkeeps')
  · rintro ⟨hkeeps, hkeeps'⟩ ⟨hordered, hordered'⟩
    rw [h.same hkeeps hordered, h'.same hkeeps' hordered']

namespace Pool

/-- Nothing is added to each die or subtracted from it. -/
def KeepsValues (pool : Pool) : Prop :=
  ∀ amount, pool.modifier ≠ some (.addEach amount) ∧ pool.modifier ≠ some (.subtractEach amount)

/-- No die has its own chain of dice behind it. -/
def KeepsOrder (pool : Pool) : Prop :=
  ∀ threshold again, pool.modifier ≠ some (.explodeEach threshold again)

theorem matches_select {pool : Pool} {select : List Die → List Die}
    (h : Modifier.selection? pool.modifier = some select) (dice : List Die) :
    Matches pool.KeepsValues pool.KeepsOrder ((select dice).map (·.value))
      (dice.map (·.value)) := by
  cases hmodifier : pool.modifier with
  | none =>
    rw [hmodifier] at h
    cases h
    exact matches_of_same rfl
  | some modifier =>
    rw [hmodifier] at h
    cases modifier with
    | explode | explodeEach | advantage | disadvantage => cases h
    | addEach amount =>
      cases h
      exact matches_of_not (by simp) fun hkeeps => (hkeeps amount).1 hmodifier
    | subtractEach amount =>
      cases h
      exact matches_of_not (by simp) fun hkeeps => (hkeeps amount).2 hmodifier
    | takeLow count =>
      cases h
      exact matches_of_same (Selection.map_value_keepAt _ dice)
    | takeHigh count =>
      cases h
      exact matches_of_same (Selection.map_value_keepAt _ dice)
    | takeMiddle count =>
      cases h
      exact matches_of_same (Selection.map_value_middle count dice)
    | bestGroup =>
      cases h
      exact matches_of_same (Selection.map_value_bestGroup dice)

/-- Chains of dice have the dice of all chains behind those that they follow, but in another
order. -/
theorem perm_chains {threshold : Int} {again : Bool} {first : List Int} {chains : List (List Int)}
    (h : List.Forall₂ (Explosion.IsChain threshold again) first chains) :
    (List.zipWith (fun face chain => Die.showing .kept face :: chain.map (Die.showing .bonus))
      first chains).flatten.Perm
      (first.map (Die.showing .kept) ++ chains.flatten.map (Die.showing .bonus)) := by
  induction h with
  | nil => exact .nil
  | cons _ _ ih =>
    rw [List.zipWith_cons_cons, List.flatten_cons, List.map_cons, List.flatten_cons,
      List.map_append, List.cons_append, List.cons_append]
    exact .cons _ ((ih.append_left _).trans (List.perm_append_comm_assoc _ _ _))

theorem Shows.matches {pool : Pool} {faces : List Int} {dice : List Die}
    (h : pool.Shows faces dice) :
    Matches pool.KeepsValues pool.KeepsOrder (dice.map (·.value)) faces := by
  cases h with
  | once hselect _ =>
    simpa only [map_value_showing] using matches_select hselect (faces.map (Die.showing .kept))
  | @twice first second high _ _ _ =>
    have hsame := Selection.map_value_betterSet high (first.map (Die.showing .kept))
      (second.map (Die.showing .kept))
    rw [map_value_showing, map_value_showing] at hsame
    exact matches_of_same hsame
  | @explode _ _ first later _ _ _ =>
    rw [List.map_append, map_value_showing, map_value_showing]
    exact matches_of_same rfl
  | explodeEach hmodifier _ hchains =>
    have hperm := (perm_chains hchains).map (·.value)
    rw [List.map_append, map_value_showing, map_value_showing] at hperm
    exact ⟨hperm.length_eq, fun _ => hperm, fun _ hordered => absurd hmodifier (hordered _ _)⟩

/-- The pool draws these faces and no others, and they are faces of its dice. -/
structure Takes (limits : Limits) (pool : Pool) (faces : List Int) : Prop where
  isFace : ∀ face ∈ faces, 1 ≤ face ∧ face ≤ pool.sides
  rolls : ∃ roll, ∀ supplied rest, pool.roll limits (⟨supplied, faces ++ rest⟩ : Replay) =
    .ok roll ⟨supplied, rest⟩

theorem exists_takes_of_roll {limits : Limits} {pool : Pool} {source after : Replay} {roll : Roll}
    (h : pool.roll limits source = .ok roll after) :
    ∃ faces, pool.Takes limits faces ∧ source = ⟨after.supplied, faces ++ after.rest⟩ ∧
      pool.Shows faces roll.dice := by
  have hcourse : Rolling.Course _ (fun _ => False) _ source := course_roll (fault?_of_roll h)
  obtain ⟨_, hgives, hleads, faces, rfl, hshows⟩ := hcourse.of_ok h
  have hfaces := hgives.forall_face
  refine ⟨faces, ⟨hfaces, roll, fun supplied rest => ?_⟩, ?_, hshows⟩
  · exact hleads (Replay.gives_faces hfaces supplied rest)
  · obtain ⟨supplied, rest⟩ := source
    obtain ⟨-, rfl, hrest⟩ := Replay.gives_iff.mp hgives
    rw [hrest, Throw.map_face]

end Pool

namespace Expression

/-- No target counts the dice, and nothing is added to each die or subtracted from it. -/
def KeepsValues : Expression → Prop
  | .number _ => True
  | .pool dice => dice.KeepsValues
  | .sum left right | .difference left right | .comparison left _ right =>
    left.KeepsValues ∧ right.KeepsValues
  | .target _ _ _ => False
  | .success inner _ _ => inner.KeepsValues

/-- No die has its own chain of dice behind it. -/
def KeepsOrder : Expression → Prop
  | .number _ => True
  | .pool dice => dice.KeepsOrder
  | .sum left right | .difference left right | .comparison left _ right =>
    left.KeepsOrder ∧ right.KeepsOrder
  | .target inner _ _ | .success inner _ _ => inner.KeepsOrder

/-- A comparison stands at the root, if anywhere. -/
def IsFlat : Expression → Prop
  | .comparison left _ right => left.IsComparisonFree ∧ right.IsComparisonFree
  | tree => tree.IsComparisonFree

end Expression

/-- The dice of the value, or of both its sides. -/
def Value.allDice : Value → List Die
  | .plain roll => roll.dice
  | .versus _ left right => left.roll.dice ++ right.roll.dice

/-- The pools have in turn drawn what the sources differ by, and the values come from that. -/
def Accounted (limits : Limits) (pools : List Pool) (keeps ordered : Prop) (source : Replay)
    (values : List Int) (after : Replay) : Prop :=
  ∃ blocks : List (List Int), List.Forall₂ (Pool.Takes limits) pools blocks ∧
    source = ⟨after.supplied, blocks.flatten ++ after.rest⟩ ∧
    Matches keeps ordered values blocks.flatten

theorem Accounted.append {limits : Limits} {pools pools' : List Pool}
    {keeps ordered keeps' ordered' : Prop} {source middle after : Replay}
    {values values' : List Int} (h : Accounted limits pools keeps ordered source values middle)
    (h' : Accounted limits pools' keeps' ordered' middle values' after) :
    Accounted limits (pools ++ pools') (keeps ∧ keeps') (ordered ∧ ordered') source
      (values ++ values') after := by
  obtain ⟨blocks, htakes, rfl, hmatches⟩ := h
  obtain ⟨blocks', htakes', rfl, hmatches'⟩ := h'
  refine ⟨blocks ++ blocks', List.rel_append htakes htakes', ?_, ?_⟩
  · rw [List.flatten_append, List.append_assoc]
  · rw [List.flatten_append]
    exact hmatches.append hmatches'

namespace Evaluates

variable {limits : Limits} {tree : Expression} {source after : Replay} {value : Value}

theorem accounted (h : Evaluates limits tree source value after) (hfree : tree.IsComparisonFree) :
    Accounted limits tree.pools tree.KeepsValues tree.KeepsOrder source
      (value.roll.dice.map (·.value)) after := by
  induction h with
  | number n source => exact ⟨[], .nil, rfl, matches_of_same rfl⟩
  | pool hroll =>
    obtain ⟨faces, htakes, rfl, hshows⟩ := Pool.exists_takes_of_roll hroll
    refine ⟨[faces], .cons htakes .nil, ?_, ?_⟩
    · simp
    · rw [List.flatten_cons, List.flatten_nil, List.append_nil]
      exact hshows.matches
  | sum _ _ ihleft ihright =>
    have hboth := (ihleft hfree.1).append (ihright hfree.2)
    rwa [← List.map_append] at hboth
  | @difference _ _ _ _ _ first second _ _ ihleft ihright =>
    have hflip : (second.roll.dice.map Die.flip).map (·.value) =
        second.roll.dice.map (·.value) := by
      rw [List.map_map]
      rfl
    have hboth := (ihleft hfree.1).append (ihright hfree.2)
    rwa [← hflip, ← List.map_append] at hboth
  | @target _ _ _ inner side threshold _ ih =>
    obtain ⟨blocks, htakes, hsource, hmatches⟩ := ih hfree
    refine ⟨blocks, htakes, hsource, matches_of_not ?_ id⟩
    rw [← hmatches.length]
    simp [Value.target, Value.roll]
  | success _ _ ih =>
    rw [Value.roll_withLevel]
    exact ih hfree
  | comparison => exact hfree.elim

theorem allDice_eq (h : Evaluates limits tree source value after)
    (hfree : tree.IsComparisonFree) : value.allDice = value.roll.dice := by
  have hoperands := (h.agrees hfree).operands
  cases value with
  | plain roll => rfl
  | versus roll left right => cases hoperands

theorem accounted_allDice (h : Evaluates limits tree source value after) (hflat : tree.IsFlat) :
    Accounted limits tree.pools tree.KeepsValues tree.KeepsOrder source
      (value.allDice.map (·.value)) after := by
  by_cases hfree : tree.IsComparisonFree
  · rw [h.allDice_eq hfree]
    exact h.accounted hfree
  · cases h with
    | comparison relation hleft hright =>
      have hboth := (hleft.accounted hflat.1).append (hright.accounted hflat.2)
      rwa [← List.map_append] at hboth
    | _ => exact absurd hflat hfree

end Evaluates

/-- The dice of a value are what the pools have drawn: as many as there are faces, with the same
faces unless something changes them, and in the same order unless dice have chains of their own. -/
theorem evaluate_allDice {limits : Limits} {tree : Expression} {source after : Replay}
    {value : Value} (hflat : tree.IsFlat) (h : tree.evaluate limits source = .ok value after) :
    ∃ blocks : List (List Int), List.Forall₂ (Pool.Takes limits) tree.pools blocks ∧
      source.rest = blocks.flatten ++ after.rest ∧
      value.allDice.length = blocks.flatten.length ∧
      (tree.KeepsValues → (value.allDice.map (·.value)).Perm blocks.flatten) ∧
      (tree.KeepsValues → tree.KeepsOrder → value.allDice.map (·.value) = blocks.flatten) := by
  obtain ⟨blocks, htakes, rfl, hmatches⟩ := (evaluate_eq_ok_iff.mp h).accounted_allDice hflat
  have hlength := hmatches.length
  rw [List.length_map] at hlength
  exact ⟨blocks, htakes, rfl, hlength, hmatches.perm, hmatches.same⟩

theorem evaluate_allDice_comparison :
    ∃ value after, Expression.evaluate {} (.comparison
        (.difference (.pool ⟨1, 6, some (.explode none true), none⟩)
          (.pool ⟨2, 4, some (.takeHigh 1), none⟩)) .greater
        (.pool ⟨1, 8, some .advantage, none⟩)) (Replay.ofList [6, 3, 2, 4, 7, 5, 1]) =
          .ok value after ∧
      value.allDice.map (·.value) ++ after.rest = [6, 3, 2, 4, 7, 5, 1] := by
  have hvalue : Expression.evaluate {} (.comparison
      (.difference (.pool ⟨1, 6, some (.explode none true), none⟩)
        (.pool ⟨2, 4, some (.takeHigh 1), none⟩)) .greater
      (.pool ⟨1, 8, some .advantage, none⟩)) (Replay.ofList [6, 3, 2, 4, 7, 5, 1]) =
        .ok (.versus {} (.plain ⟨[⟨6, .kept, false⟩, ⟨3, .bonus, false⟩, ⟨2, .discarded, true⟩,
            ⟨4, .kept, true⟩], 5, 0, none⟩)
          (.plain ⟨[⟨7, .kept, false⟩, ⟨5, .discarded, false⟩], 7, 0, none⟩)) ⟨7, [1]⟩ := by
    cbv
  obtain ⟨blocks, _, hrest, _, _, hsame⟩ :=
    evaluate_allDice (by exact ⟨⟨trivial, trivial⟩, trivial⟩) hvalue
  have hvalues := hsame (by simp [Expression.KeepsValues, Pool.KeepsValues])
    (by simp [Expression.KeepsOrder, Pool.KeepsOrder])
  refine ⟨_, _, hvalue, ?_⟩
  rw [hvalues, ← hrest]
  rfl

end DiceNotation
