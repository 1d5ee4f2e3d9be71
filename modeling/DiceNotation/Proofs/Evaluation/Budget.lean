import DiceNotation.Proofs.Evaluation.Dice
import DiceNotation.Proofs.Evaluation.Faces

/-!
# A budget of faces

As long as no explosion goes on, a pool draws no more than twice its dice: each of them asks for at
most one more face, or all of them together for one more set. So twice the number of all dice is
enough for a tree, whatever the faces are, and the faces of the first dice tell how many are drawn.
-/

namespace DiceNotation

/-! ### Explosions that do not go on -/

namespace Explosion

section Once

variable {threshold face : Int} {first later faces : List Int} {chains sets : List (List Int)}

theorem IsChain.length_once (h : IsChain threshold false face later) :
    later.length = if threshold ≤ face then 1 else 0 := by
  cases h with
  | stop hlt => rw [if_neg (Int.not_le.mpr hlt), List.length_nil]
  | once next hle _ => rw [if_pos hle, List.length_singleton]
  | goOn _ hagain => cases hagain

theorem length_chains_once (h : List.Forall₂ (IsChain threshold false) first chains) :
    chains.flatten.length = first.countP (threshold ≤ ·) := by
  induction h with
  | nil => rfl
  | cons hchain _ ih =>
    rw [List.flatten_cons, List.length_append, ih, hchain.length_once, List.countP_cons,
      Nat.add_comm]
    simp

theorem length_series_once (h : IsSeries threshold false first sets) :
    sets.flatten.length = if ∀ face ∈ first, threshold ≤ face then first.length else 0 := by
  cases h with
  | stop hstop =>
    split
    next hall =>
      by_contra hlength
      have hne : first ≠ [] := fun hnil => hlength (by rw [hnil]; rfl)
      obtain ⟨face, hface, hlt⟩ := hstop hne
      exact Int.not_le.mpr hlt (hall face hface)
    next => rfl
  | once _ hall _ hlength => rw [if_pos hall, List.flatten_singleton, hlength]
  | goOn _ _ hagain => cases hagain

theorem exists_chains_once (threshold : Int) (h : first.length ≤ faces.length) :
    ∃ chains rest, faces = chains.flatten ++ rest ∧
      List.Forall₂ (IsChain threshold false) first chains := by
  induction first generalizing faces with
  | nil => exact ⟨[], faces, rfl, .nil⟩
  | cons face first ih =>
    obtain hlt | hle := Int.lt_or_le face threshold
    · obtain ⟨chains, rest, hfaces, hchains⟩ := ih (Nat.le_of_succ_le h)
      exact ⟨[] :: chains, rest, hfaces, .cons (.stop hlt) hchains⟩
    · obtain ⟨next, faces, rfl⟩ :=
        List.exists_cons_of_length_pos (Nat.lt_of_lt_of_le (Nat.succ_pos _) h)
      obtain ⟨chains, rest, rfl, hchains⟩ := ih (Nat.le_of_succ_le_succ h)
      exact ⟨[next] :: chains, rest, rfl, .cons (.once next hle rfl) hchains⟩

theorem exists_series_once (threshold : Int) (h : first.length ≤ faces.length) :
    ∃ sets rest, faces = sets.flatten ++ rest ∧ IsSeries threshold false first sets := by
  by_cases hreach : first ≠ [] ∧ ∀ face ∈ first, threshold ≤ face
  · refine ⟨[faces.take first.length], faces.drop first.length, ?_, ?_⟩
    · rw [List.flatten_singleton, List.take_append_drop]
    · exact .once hreach.1 hreach.2 rfl (List.length_take_of_le h)
  · refine ⟨[], faces, rfl, .stop fun hne => ?_⟩
    by_contra hnone
    refine hreach ⟨hne, fun face hface => Int.not_lt.mp fun hlt => ?_⟩
    exact hnone ⟨face, hface, hlt⟩

end Once

end Explosion

/-! ### Pools -/

namespace Pool

/-- How many faces the pool draws if its dice first show these faces and no explosion goes on. -/
def demand (pool : Pool) (first : List Int) : Nat :=
  let count := pool.count.toNat
  match pool.modifier with
  | some (.explode threshold _) =>
    if ∀ face ∈ first, threshold.getD pool.sides ≤ face then 2 * count else count
  | some (.explodeEach threshold _) => count + first.countP (threshold.getD pool.sides ≤ ·)
  | some .advantage | some .disadvantage => 2 * count
  | none | some (.addEach _) | some (.subtractEach _) | some (.takeLow _) | some (.takeHigh _)
  | some (.takeMiddle _) | some .bestGroup => count

/-- The pool draws these faces and no others, and they are as many as the first of them demand. -/
structure Draws (limits : Limits) (pool : Pool) (faces : List Int) : Prop where
  takes : pool.Takes limits faces
  length : faces.length = pool.demand (faces.take pool.count.toNat)

variable {limits : Limits} {pool : Pool} {pools : List Pool} {first faces : List Int}
  {dice : List Die}

theorem demand_of_select {select : List Die → List Die}
    (h : Modifier.selection? pool.modifier = some select) :
    pool.demand first = pool.count.toNat := by
  unfold demand
  cases hmodifier : pool.modifier with
  | none => rfl
  | some modifier =>
    rw [hmodifier] at h
    cases modifier with
    | explode | explodeEach | advantage | disadvantage => cases h
    | addEach | subtractEach | takeLow | takeHigh | takeMiddle | bestGroup => rfl

theorem demand_of_twice {high : Bool}
    (h : pool.modifier = some (if high then .advantage else .disadvantage)) :
    pool.demand first = 2 * pool.count.toNat := by
  rw [demand, h]
  cases high <;> rfl

theorem demand_le (h : first.length ≤ pool.count.toNat) :
    pool.demand first ≤ 2 * pool.count.toNat := by
  unfold demand
  cases pool.modifier with
  | none => dsimp only; omega
  | some modifier =>
    cases modifier with
    | explode => dsimp only; split <;> omega
    | explodeEach threshold =>
      have hcount := List.countP_le_length (p := (threshold.getD pool.sides ≤ ·)) (l := first)
      dsimp only; omega
    | addEach | subtractEach | takeLow | takeHigh | takeMiddle | bestGroup | advantage
    | disadvantage => dsimp only; omega

theorem Shows.length_eq_demand (h : pool.Shows faces dice)
    (honce : ∀ threshold, ¬pool.ExplodesAt threshold) :
    faces.length = pool.demand (faces.take pool.count.toNat) := by
  cases h with
  | once hselect hlength => rw [demand_of_select hselect, hlength]
  | twice high hmodifier hfirst hsecond =>
    rw [demand_of_twice hmodifier, List.length_append, hfirst, hsecond, Nat.two_mul]
  | @explode threshold again first sets hmodifier hlength hseries =>
    cases again with
    | true => exact absurd ⟨threshold, .inl hmodifier, rfl⟩ (honce _)
    | false =>
      rw [List.take_left' hlength, demand, hmodifier, List.length_append,
        Explosion.length_series_once hseries, hlength]
      dsimp only
      split <;> omega
  | @explodeEach threshold again first chains hmodifier hlength hchains =>
    cases again with
    | true => exact absurd ⟨threshold, .inr hmodifier, rfl⟩ (honce _)
    | false =>
      rw [List.take_left' hlength, demand, hmodifier, List.length_append,
        Explosion.length_chains_once hchains, hlength]

/-- Twice as many faces as dice are enough for any way to draw. -/
theorem exists_shows (honce : ∀ threshold, ¬pool.ExplodesAt threshold)
    (h : 2 * pool.count.toNat ≤ faces.length) :
    ∃ drawn rest dice, faces = drawn ++ rest ∧ pool.Shows drawn dice := by
  obtain ⟨first, faces, rfl, hfirst⟩ :
      ∃ first rest, faces = first ++ rest ∧ first.length = pool.count.toNat :=
    ⟨_, _, (List.take_append_drop _ faces).symm, List.length_take_of_le (by omega)⟩
  have hrest : first.length ≤ faces.length := by
    rw [List.length_append] at h
    omega
  have hsecond := List.length_take_of_le (hfirst ▸ hrest)
  have hsplit : first ++ faces = first ++ faces.take pool.count.toNat ++
      faces.drop pool.count.toNat := by
    rw [List.append_assoc, List.take_append_drop]
  cases hmodifier : pool.modifier with
  | none => exact ⟨first, faces, _, rfl, .once (by rw [hmodifier]; rfl) hfirst⟩
  | some modifier =>
    cases modifier with
    | addEach | subtractEach | takeLow | takeHigh | takeMiddle | bestGroup =>
      exact ⟨first, faces, _, rfl, .once (by rw [hmodifier]; rfl) hfirst⟩
    | advantage => exact ⟨_, _, _, hsplit, .twice true hmodifier hfirst hsecond⟩
    | disadvantage => exact ⟨_, _, _, hsplit, .twice false hmodifier hfirst hsecond⟩
    | explode threshold again =>
      cases again with
      | true => exact absurd ⟨threshold, .inl hmodifier, rfl⟩ (honce _)
      | false =>
        obtain ⟨sets, rest, rfl, hseries⟩ := Explosion.exists_series_once _ hrest
        exact ⟨_, rest, _, (List.append_assoc _ _ _).symm, .explode hmodifier hfirst hseries⟩
    | explodeEach threshold again =>
      cases again with
      | true => exact absurd ⟨threshold, .inr hmodifier, rfl⟩ (honce _)
      | false =>
        obtain ⟨chains, rest, rfl, hchains⟩ := Explosion.exists_chains_once _ hrest
        exact ⟨_, rest, _, (List.append_assoc _ _ _).symm, .explodeEach hmodifier hfirst hchains⟩

theorem exists_roll (hadmissible : pool.IsAdmissible limits)
    (honce : ∀ threshold, ¬pool.ExplodesAt threshold) (supplied : Nat)
    (h : 2 * pool.count.toNat ≤ faces.length)
    (hfaces : ∀ face ∈ faces, 1 ≤ face ∧ face ≤ pool.sides) :
    ∃ roll after, pool.roll limits (⟨supplied, faces⟩ : Replay) = .ok roll after := by
  obtain ⟨drawn, rest, dice, rfl, hshows⟩ := exists_shows honce h
  have hgives := Replay.gives_faces (List.forall_mem_append.mp hfaces).1 supplied rest
  have hdice := dice_eq_ok_iff.mpr ⟨drawn, hgives, hshows⟩
  rw [Pool.roll, fault?_eq_none_iff.mpr hadmissible]
  exact ⟨_, _, Rolling.map_eq_ok.mpr ⟨dice, hdice, rfl⟩⟩

theorem exists_draws_of_roll (honce : ∀ threshold, ¬pool.ExplodesAt threshold)
    {source after : Replay} {roll : Roll} (h : pool.roll limits source = .ok roll after) :
    ∃ faces, pool.Draws limits faces ∧ source = ⟨after.supplied, faces ++ after.rest⟩ := by
  obtain ⟨faces, htakes, hsource, hshows⟩ := exists_takes_of_roll h
  exact ⟨faces, ⟨htakes, hshows.length_eq_demand honce⟩, hsource⟩

theorem Draws.length_le (h : pool.Draws limits faces) : faces.length ≤ 2 * pool.count.toNat := by
  rw [h.length]
  exact demand_le (List.length_take_le _ _)

/-! ### Pools in a row -/

theorem exists_draws_of_rolls (honce : ∀ pool ∈ pools, ∀ threshold, ¬pool.ExplodesAt threshold)
    {source after : Replay} {rolls : List Roll}
    (h : pools.mapM (roll limits) source = .ok rolls after) :
    ∃ blocks, List.Forall₂ (Draws limits) pools blocks ∧
      source = ⟨after.supplied, blocks.flatten ++ after.rest⟩ := by
  induction pools generalizing source rolls with
  | nil =>
    cases h
    exact ⟨[], .nil, rfl⟩
  | cons pool pools ih =>
    obtain ⟨hpool, hpools⟩ := List.forall_mem_cons.mp honce
    rw [List.mapM_cons] at h
    obtain ⟨roll, middle, hroll, h⟩ := Rolling.bind_eq_ok.mp h
    obtain ⟨later, last, hlater, h⟩ := Rolling.bind_eq_ok.mp h
    obtain ⟨-, rfl⟩ := Rolling.pure_eq_ok.mp h
    obtain ⟨faces, hdraws, rfl⟩ := exists_draws_of_roll hpool hroll
    obtain ⟨blocks, hblocks, rfl⟩ := ih hpools hlater
    refine ⟨faces :: blocks, .cons hdraws hblocks, ?_⟩
    rw [List.flatten_cons, List.append_assoc]

theorem length_flatten_le {blocks : List (List Int)} (h : List.Forall₂ (Draws limits) pools blocks)
    (hpools : ∀ pool ∈ pools, 0 ≤ pool.count) :
    (blocks.flatten.length : Int) ≤ 2 * (pools.map (·.count)).sum := by
  induction h with
  | nil => rfl
  | @cons pool faces pools blocks hdraws _ ih =>
    obtain ⟨hpool, hpools⟩ := List.forall_mem_cons.mp hpools
    have hfaces := hdraws.length_le
    have hblocks := ih hpools
    rw [List.flatten_cons, List.length_append, List.map_cons, List.sum_cons]
    omega

theorem exists_rolls (hadmissible : ∀ pool ∈ pools, pool.IsAdmissible limits)
    (honce : ∀ pool ∈ pools, ∀ threshold, ¬pool.ExplodesAt threshold) (supplied : Nat)
    (hlength : 2 * (pools.map (·.count)).sum ≤ faces.length)
    (hfaces : ∀ face ∈ faces, ∀ pool ∈ pools, 1 ≤ face ∧ face ≤ pool.sides) :
    ∃ rolls after, pools.mapM (roll limits) (⟨supplied, faces⟩ : Replay) = .ok rolls after := by
  induction pools generalizing faces with
  | nil => exact ⟨[], _, rfl⟩
  | cons pool pools ih =>
    obtain ⟨hpool, hpools⟩ := List.forall_mem_cons.mp hadmissible
    obtain ⟨hone, hall⟩ := List.forall_mem_cons.mp honce
    rw [List.map_cons, List.sum_cons] at hlength
    have hcount := hpool.count_nonneg
    have hrest : 0 ≤ (pools.map (·.count)).sum :=
      List.sum_nonneg (by simpa using fun pool hpool => (hpools pool hpool).count_nonneg)
    have henough : 2 * pool.count.toNat ≤ faces.length := by omega
    obtain ⟨roll, middle, hroll⟩ := exists_roll hpool hone supplied henough
      fun face hface => hfaces face hface pool List.mem_cons_self
    obtain ⟨drawn, hdraws, hsource⟩ := exists_draws_of_roll hone hroll
    obtain ⟨rfl, rfl⟩ := Replay.mk.inj hsource
    have hdrawn := hdraws.length_le
    rw [List.length_append] at hlength
    have hmiddle : 2 * (pools.map (·.count)).sum ≤ middle.rest.length := by omega
    obtain ⟨later, after, hlater⟩ := ih hpools hall hmiddle fun face hface pool hpool =>
      hfaces face (List.mem_append_right _ hface) pool (List.mem_cons_of_mem _ hpool)
    rw [List.mapM_cons]
    exact ⟨_, after, Rolling.bind_eq_ok.mpr ⟨roll, middle, hroll,
      Rolling.bind_eq_ok.mpr ⟨later, after, hlater, rfl⟩⟩⟩

end Pool

namespace Expression

/-- Where no explosion goes on, twice as many faces as there are dice are enough for a value,
whatever the faces are. Each pool draws as many of them as the faces of its first dice demand, and
all pools together never more than this. -/
theorem evaluate_within_budget {limits : Limits} {tree : Expression} (hsteps : tree.HasSteps)
    (hadmissible : ∀ pool ∈ tree.pools, pool.IsAdmissible limits)
    (honce : ∀ pool ∈ tree.pools, ∀ threshold, ¬pool.ExplodesAt threshold) (source : Replay) :
    (2 * (tree.pools.map (·.count)).sum ≤ source.rest.length →
      (∀ face ∈ source.rest, ∀ pool ∈ tree.pools, 1 ≤ face ∧ face ≤ pool.sides) →
      ∃ value after, tree.evaluate limits source = .ok value after) ∧
    ∀ {value : Value} {after : Replay}, tree.evaluate limits source = .ok value after →
      ∃ blocks, List.Forall₂ (Pool.Draws limits) tree.pools blocks ∧
        source.rest = blocks.flatten ++ after.rest ∧
        blocks.flatten.length ≤ 2 * (tree.pools.map (·.count)).sum := by
  have halike : Rolling.Alike (tree.evaluate limits : Rolling Replay Value) _ :=
    alike_evaluate limits hsteps
  constructor
  · intro hlength hfaces
    obtain ⟨rolls, after, hrolls⟩ :=
      Pool.exists_rolls hadmissible honce source.supplied hlength hfaces
    obtain ⟨value, hvalue⟩ := Rolling.Alike.exists_ok halike.symm hrolls
    exact ⟨value, after, hvalue⟩
  · intro value after hvalue
    obtain ⟨rolls, hrolls⟩ := halike.exists_ok hvalue
    obtain ⟨blocks, hblocks, rfl⟩ := Pool.exists_draws_of_rolls honce hrolls
    refine ⟨blocks, hblocks, rfl, ?_⟩
    exact Pool.length_flatten_le hblocks fun pool hpool => (hadmissible pool hpool).count_nonneg

/-- Of ten faces nine are drawn: the first pool explodes as a whole, and two dice of the second one
explode each for itself. -/
theorem evaluate_within_budget_nine :
    (∃ value after, evaluate {} (.difference
      (.pool ⟨2, 6, some (.explode (some 1) false), none⟩)
      (.pool ⟨3, 4, some (.explodeEach (some 3) false), none⟩))
      (Replay.ofList [1, 2, 1, 2, 3, 4, 1, 3, 3, 2]) = .ok value after) ∧
    ∃ blocks, List.Forall₂ (Pool.Draws {}) [⟨2, 6, some (.explode (some 1) false), none⟩,
        ⟨3, 4, some (.explodeEach (some 3) false), none⟩] blocks ∧
      [1, 2, 1, 2, 3, 4, 1, 3, 3, 2] = blocks.flatten ++ [2] := by
  have hadmissible : ∀ pool ∈ [(⟨2, 6, some (.explode (some 1) false), none⟩ : Pool),
      ⟨3, 4, some (.explodeEach (some 3) false), none⟩], pool.IsAdmissible {} := by
    simp only [← Pool.fault?_eq_none_iff]
    decide
  have honce : ∀ pool ∈ [(⟨2, 6, some (.explode (some 1) false), none⟩ : Pool),
      ⟨3, 4, some (.explodeEach (some 3) false), none⟩],
      ∀ threshold, ¬pool.ExplodesAt threshold := by
    simp [Pool.ExplodesAt]
  have hvalue : evaluate {} (.difference
      (.pool ⟨2, 6, some (.explode (some 1) false), none⟩)
      (.pool ⟨3, 4, some (.explodeEach (some 3) false), none⟩))
      (Replay.ofList [1, 2, 1, 2, 3, 4, 1, 3, 3, 2]) =
        .ok (.plain ⟨[⟨1, .kept, false⟩, ⟨2, .kept, false⟩, ⟨1, .bonus, false⟩,
          ⟨2, .bonus, false⟩, ⟨3, .kept, true⟩, ⟨3, .bonus, true⟩, ⟨4, .kept, true⟩,
          ⟨3, .bonus, true⟩, ⟨1, .kept, true⟩], -8, 0, none⟩) ⟨10, [2]⟩ := by
    cbv
  have hbudget := @evaluate_within_budget {} (.difference
    (.pool ⟨2, 6, some (.explode (some 1) false), none⟩)
    (.pool ⟨3, 4, some (.explodeEach (some 3) false), none⟩)) ⟨trivial, trivial⟩ hadmissible honce
    (Replay.ofList [1, 2, 1, 2, 3, 4, 1, 3, 3, 2])
  obtain ⟨blocks, hblocks, hrest, -⟩ := hbudget.2 hvalue
  exact ⟨hbudget.1 (by decide) (by decide), blocks, hblocks, hrest⟩

end Expression

end DiceNotation
