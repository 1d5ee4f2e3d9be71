import DiceNotation.Evaluation
import DiceNotation.Proofs.Pool.Admission
import DiceNotation.Proofs.Pool.Explosion
import DiceNotation.Proofs.Pool.Faces

/-!
# Evaluated explosions

A pool that explodes comes to a value just if the source gives the faces of its dice and of whole
chains or series that follow them. These faces decide all of its dice, and in which order they are
shown: a set behind the sets before it, but a chain behind the die that it follows.
-/

namespace DiceNotation

namespace Explosion

/-! ### The loops, run on given faces -/

section Loops

variable {threshold face sides : Int} {again : Bool} {later first : List Int}
  {sets : List (List Int)} {count : Nat} {σ : Type} [Source σ] {source after : σ}

theorem chainFrom_of_gives (hchain : IsChain threshold again face later) (done : List Die)
    (h : Source.Gives source (later.map (Throw.mk sides)) after) :
    chainFrom sides threshold again face done source =
      .ok ((later.map (Die.showing .bonus)).reverse ++ done) after := by
  induction hchain generalizing source done with
  | stop hlt =>
    cases h
    rw [chainFrom_of_lt again done hlt]
    rfl
  | once next hle honce =>
    rcases h with _ | ⟨hdraw, hnil⟩
    cases hnil
    rw [chainFrom_of_le again done hle, Rolling.bind_of_eq_ok (Rolling.face_of_draw hdraw), honce]
    rfl
  | goOn hle hagain _ ih =>
    subst hagain
    rcases h with _ | ⟨hdraw, hlater⟩
    rw [chainFrom_of_le true done hle, Rolling.bind_of_eq_ok (Rolling.face_of_draw hdraw)]
    refine (ih _ hlater).trans ?_
    simp

theorem chainsFrom_of_gives {dice : List Die} {chains : List (List Int)}
    (hchains : List.Forall₂ (IsChain threshold again) (dice.map (·.value)) chains)
    (done : List Die) (h : Source.Gives source (chains.flatten.map (Throw.mk sides)) after) :
    chainsFrom sides threshold again dice done source =
      .ok ((List.zipWith (fun die chain => die :: chain.map (Die.showing .bonus))
        dice chains).flatten.reverse ++ done) after := by
  induction dice generalizing source chains done with
  | nil =>
    cases hchains
    cases h
    rfl
  | cons die dice ih =>
    rcases hchains with _ | ⟨hchain, hchains⟩
    rw [List.flatten_cons, List.map_append] at h
    obtain ⟨middle, hfirst, hrest⟩ := Source.gives_append_iff.mp h
    rw [chainsFrom, Rolling.bind_of_eq_ok (chainFrom_of_gives hchain (die :: done) hfirst),
      ih hchains _ hrest]
    simp

theorem reaches_map_showing {status : Status} :
    Reaches threshold (first.map (Die.showing status)) ↔
      first ≠ [] ∧ ∀ face ∈ first, threshold ≤ face := by
  simp [Reaches, Die.showing]

theorem setsFrom_of_gives (hseries : IsSeries threshold again first sets) (status : Status)
    (done : List Die) (h : Source.Gives source (sets.flatten.map (Throw.mk sides)) after) :
    setsFrom sides threshold again (first.map (Die.showing status)) done source =
      .ok (done.reverse ++ sets.flatten.map (Die.showing .bonus)) after := by
  induction hseries generalizing source status done with
  | @stop first hstop =>
    have hnot : ¬Reaches threshold (first.map (Die.showing status)) := by
      rw [reaches_map_showing]
      rintro ⟨hne, hall⟩
      obtain ⟨face, hface, hlt⟩ := hstop hne
      exact Int.not_le.mpr hlt (hall face hface)
    cases h
    rw [setsFrom_of_not_reaches again done hnot]
    simp [pure, EStateM.pure]
  | once hne hall honce hlength =>
    rw [List.flatten_singleton] at h
    rw [setsFrom_of_reaches again done (reaches_map_showing.mpr ⟨hne, hall⟩), List.length_map,
      ← hlength, Rolling.bind_of_eq_ok (Rolling.dice_of_gives .bonus h), honce]
    simp [pure, EStateM.pure]
  | goOn hne hall hagain hlength _ ih =>
    subst hagain
    rw [List.flatten_cons, List.map_append] at h
    obtain ⟨middle, hnext, hrest⟩ := Source.gives_append_iff.mp h
    rw [setsFrom_of_reaches true done (reaches_map_showing.mpr ⟨hne, hall⟩), List.length_map,
      ← hlength, Rolling.bind_of_eq_ok (Rolling.dice_of_gives .bonus hnext)]
    refine (ih _ _ hrest).trans ?_
    simp

theorem chains_eq_ok_iff {dice : List Die} :
    chains count sides threshold again source = .ok dice after ↔
      ∃ (first : List Int) (chains : List (List Int)),
        Source.Gives source ((first ++ chains.flatten).map (Throw.mk sides)) after ∧
        first.length = count ∧ List.Forall₂ (IsChain threshold again) first chains ∧
        dice = (List.zipWith (fun face chain => Die.showing .kept face ::
          chain.map (Die.showing .bonus)) first chains).flatten := by
  constructor
  · intro h
    have hcourse : Rolling.Course _ (fun _ => False) _ source :=
      course_chains count sides threshold again source
    obtain ⟨_, hgives, -, _, rfl, first, chains, rfl, hlength, hchains, rfl⟩ := hcourse.of_ok h
    exact ⟨first, chains, hgives, hlength, hchains, rfl⟩
  · rintro ⟨first, chains, hgives, rfl, hchains, rfl⟩
    rw [List.map_append] at hgives
    obtain ⟨middle, hfirst, hrest⟩ := Source.gives_append_iff.mp hgives
    have hvalues : List.Forall₂ (IsChain threshold again)
        ((first.map (Die.showing .kept)).map (·.value)) chains := by
      simpa [Function.comp_def, Die.showing] using hchains
    refine Rolling.bind_eq_ok.mpr ⟨_, middle, Rolling.dice_of_gives .kept hfirst, ?_⟩
    refine Rolling.map_eq_ok.mpr ⟨_, chainsFrom_of_gives hvalues [] hrest, ?_⟩
    simp [List.zipWith_map_left]

theorem sets_eq_ok_iff {dice : List Die} :
    Explosion.sets count sides threshold again source = .ok dice after ↔
      ∃ (first : List Int) (later : List (List Int)),
        Source.Gives source ((first ++ later.flatten).map (Throw.mk sides)) after ∧
        first.length = count ∧ IsSeries threshold again first later ∧
        dice = first.map (Die.showing .kept) ++ later.flatten.map (Die.showing .bonus) := by
  constructor
  · intro h
    have hcourse : Rolling.Course _ (fun _ => False) _ source :=
      course_sets count sides threshold again source
    obtain ⟨_, hgives, -, _, rfl, first, later, rfl, hlength, hseries, rfl⟩ := hcourse.of_ok h
    exact ⟨first, later, hgives, hlength, hseries, rfl⟩
  · rintro ⟨first, later, hgives, rfl, hseries, rfl⟩
    rw [List.map_append] at hgives
    obtain ⟨middle, hfirst, hrest⟩ := Source.gives_append_iff.mp hgives
    refine Rolling.bind_eq_ok.mpr ⟨_, middle, Rolling.dice_of_gives .kept hfirst, ?_⟩
    rw [setsFrom_of_gives hseries .kept _ hrest, List.reverse_reverse]

end Loops

end Explosion

/-! ### The pools -/

namespace Pool

variable {limits : Limits} {pool : Pool} {σ : Type} [Source σ] {source after : σ} {value : Value}

theorem evaluate_eq_ok_iff (h : pool.IsAdmissible limits) :
    (Expression.pool pool).evaluate limits source = .ok value after ↔
      ∃ dice, pool.dice source = .ok dice after ∧
        value = .plain { dice, total := Die.total dice } := by
  rw [Expression.evaluate, Rolling.map_eq_ok, Pool.roll, fault?_eq_none_iff.mpr h]
  simp only [Rolling.map_eq_ok]
  constructor
  · rintro ⟨_, ⟨dice, hdice, rfl⟩, rfl⟩
    exact ⟨dice, hdice, rfl⟩
  · rintro ⟨dice, hdice, rfl⟩
    exact ⟨_, ⟨dice, hdice, rfl⟩, rfl⟩

theorem length_eq_toNat_iff (h : pool.IsAdmissible limits) {n : Nat} :
    n = pool.count.toNat ↔ (n : Int) = pool.count := by
  have := h.count_nonneg
  omega

/-- All dice are rolled before the first chain, and each is shown in front of its own one. -/
theorem evaluate_explodeEach_iff {threshold : Option Int} {again : Bool}
    (hadmissible : pool.IsAdmissible limits)
    (hmodifier : pool.modifier = some (.explodeEach threshold again)) :
    (Expression.pool pool).evaluate limits source = .ok value after ↔
      ∃ (first : List Int) (chains : List (List Int)) (dice : List Die),
        Source.Gives source ((first ++ chains.flatten).map (Throw.mk pool.sides)) after ∧
        first.length = pool.count ∧
        List.Forall₂ (Explosion.IsWholeChain (threshold.getD pool.sides) again) first chains ∧
        dice = (List.zipWith (fun face chain => Die.showing .kept face ::
          chain.map (Die.showing .bonus)) first chains).flatten ∧
        value = .plain { dice, total := Die.total dice } := by
  rw [evaluate_eq_ok_iff hadmissible, Pool.dice, hmodifier]
  simp only [Explosion.chains_eq_ok_iff, length_eq_toNat_iff hadmissible, Explosion.isChain_eq]
  constructor
  · rintro ⟨dice, ⟨first, chains, hgives, hlength, hchains, hdice⟩, hvalue⟩
    exact ⟨first, chains, dice, hgives, hlength, hchains, hdice, hvalue⟩
  · rintro ⟨first, chains, dice, hgives, hlength, hchains, hdice, hvalue⟩
    exact ⟨dice, ⟨first, chains, hgives, hlength, hchains, hdice⟩, hvalue⟩

theorem evaluate_explodeEach_iff_again :
    Expression.evaluate {} (.pool ⟨3, 6, some (.explodeEach (some 5) true), none⟩)
        (Replay.ofList [6, 2, 5, 5, 1, 4, 3]) =
      .ok (.plain {
        dice := [⟨6, .kept, false⟩, ⟨5, .bonus, false⟩, ⟨1, .bonus, false⟩, ⟨2, .kept, false⟩,
          ⟨5, .kept, false⟩, ⟨4, .bonus, false⟩]
        total := 23 }) ⟨7, [3]⟩ := by
  have hadmissible : Pool.IsAdmissible {} ⟨3, 6, some (.explodeEach (some 5) true), none⟩ :=
    fault?_eq_none_iff.mp (by decide)
  have hfaces : ∀ face ∈ ([6, 2, 5, 5, 1, 4] : List Int), 1 ≤ face ∧ face ≤ 6 := by decide
  refine (evaluate_explodeEach_iff hadmissible rfl).mpr
    ⟨[6, 2, 5], [[5, 1], [], [4]], _, Replay.gives_faces hfaces 7 [3], rfl, ?_, rfl, rfl⟩
  refine .cons ?_ (.cons ?_ (.cons ?_ .nil)) <;>
    exact ⟨by decide, by decide, fun _ => by decide, fun _ => by decide⟩

/-- A pool without dice is left out: it rolls no set at all. -/
theorem evaluate_explode_iff {threshold : Option Int} {again : Bool}
    (hadmissible : pool.IsAdmissible limits) (hcount : 1 ≤ pool.count)
    (hmodifier : pool.modifier = some (.explode threshold again)) :
    (Expression.pool pool).evaluate limits source = .ok value after ↔
      ∃ (first : List Int) (later : List (List Int)) (dice : List Die),
        Source.Gives source ((first ++ later.flatten).map (Throw.mk pool.sides)) after ∧
        first.length = pool.count ∧
        Explosion.IsWholeSeries (threshold.getD pool.sides) again first later ∧
        dice = first.map (Die.showing .kept) ++ later.flatten.map (Die.showing .bonus) ∧
        value = .plain { dice, total := Die.total dice } := by
  have hfirst : ∀ {first : List Int}, (first.length : Int) = pool.count → first ≠ [] := by
    rintro _ hlength rfl
    rw [List.length_nil] at hlength
    omega
  rw [evaluate_eq_ok_iff hadmissible, Pool.dice, hmodifier]
  simp only [Explosion.sets_eq_ok_iff, length_eq_toNat_iff hadmissible]
  constructor
  · rintro ⟨dice, ⟨first, later, hgives, hlength, hseries, hdice⟩, hvalue⟩
    exact ⟨first, later, dice, hgives, hlength, hseries.isWholeSeries (hfirst hlength), hdice,
      hvalue⟩
  · rintro ⟨first, later, dice, hgives, hlength, hwhole, hdice, hvalue⟩
    exact ⟨dice, ⟨first, later, hgives, hlength, hwhole.isSeries (hfirst hlength), hdice⟩, hvalue⟩

theorem evaluate_explode_iff_again :
    Expression.evaluate {} (.pool ⟨2, 6, some (.explode (some 4) true), none⟩)
        (Replay.ofList [4, 6, 5, 5, 6, 3, 2]) =
      .ok (.plain {
        dice := [⟨4, .kept, false⟩, ⟨6, .kept, false⟩, ⟨5, .bonus, false⟩, ⟨5, .bonus, false⟩,
          ⟨6, .bonus, false⟩, ⟨3, .bonus, false⟩]
        total := 29 }) ⟨7, [2]⟩ := by
  have hadmissible : Pool.IsAdmissible {} ⟨2, 6, some (.explode (some 4) true), none⟩ :=
    fault?_eq_none_iff.mp (by decide)
  have hfaces : ∀ face ∈ ([4, 6, 5, 5, 6, 3] : List Int), 1 ≤ face ∧ face ≤ 6 := by decide
  refine (evaluate_explode_iff hadmissible (by decide) rfl).mpr
    ⟨[4, 6], [[5, 5], [6, 3]], _, Replay.gives_faces hfaces 7 [2], rfl, ?_, rfl, rfl⟩
  exact ⟨by decide, by decide, fun _ => ⟨3, by decide, by decide⟩, nofun, nofun⟩

end Pool

end DiceNotation
