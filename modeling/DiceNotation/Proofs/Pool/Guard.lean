import DiceNotation.Evaluation
import DiceNotation.Proofs.Numeral.Plain
import DiceNotation.Proofs.Pool.Admission
import DiceNotation.Proofs.Pool.Faces
import Mathlib

/-!
# The guard against endless explosions

A pool whose explosion goes on is refused just if no faces could ever end it. Where the guard lets
a pool pass, a face of one ends each chain and each series, so ones behind any faces are enough,
as many as the pool has dice.
-/

namespace DiceNotation

namespace Explosion

/-! ### No end -/

theorem IsSeries.exists_lt {threshold : Int} {again : Bool} {first : List Int}
    {later : List (List Int)} (h : IsSeries threshold again first later) (hagain : again = true)
    (hfirst : first ≠ []) : ∃ face ∈ first ++ later.flatten, face < threshold := by
  obtain ⟨face, hface, hlt⟩ := (h.isWholeSeries hfirst).ends hagain
  rw [← List.flatten_cons]
  exact ⟨face, List.mem_flatten.mpr ⟨_, List.getLast_mem _, hface⟩, hlt⟩

theorem IsChain.exists_lt {threshold face : Int} {again : Bool} {later : List Int}
    (h : IsChain threshold again face later) (hagain : again = true) :
    ∃ last ∈ face :: later, last < threshold :=
  ⟨_, List.getLast_mem _, h.isWholeChain.ends hagain⟩

section Endless

variable {σ : Type} [Source σ] {source after : σ} {count : Nat} {sides threshold : Int}
  {dice : List Die}

theorem sets_ne_ok (hcount : 1 ≤ count) (hthreshold : threshold ≤ 1) :
    sets count sides threshold true source ≠ .ok dice after := by
  intro h
  have hcourse : Rolling.Course _ (fun _ => False) _ source :=
    course_sets count sides threshold true source
  obtain ⟨_, hgives, _, faces, rfl, first, later, rfl, hlength, hseries, _⟩ := hcourse.of_ok h
  have hfirst : first ≠ [] := List.ne_nil_of_length_pos (by omega)
  obtain ⟨face, hface, hlt⟩ := hseries.exists_lt rfl hfirst
  have := hgives.forall_face face hface
  omega

theorem chains_ne_ok (hcount : 1 ≤ count) (hthreshold : threshold ≤ 1) :
    chains count sides threshold true source ≠ .ok dice after := by
  intro h
  have hcourse : Rolling.Course _ (fun _ => False) _ source :=
    course_chains count sides threshold true source
  obtain ⟨_, hgives, _, faces, rfl, first, chains, rfl, hlength, hchains, _⟩ := hcourse.of_ok h
  cases hchains with
  | nil =>
    rw [List.length_nil] at hlength
    omega
  | @cons face chain first chains hchain _ =>
    obtain ⟨last, hlast, hlt⟩ := hchain.exists_lt rfl
    have hmem : last ∈ (face :: first) ++ (chain :: chains).flatten := by
      rcases List.mem_cons.mp hlast with rfl | hlast
      · exact List.mem_append_left _ List.mem_cons_self
      · simp [hlast]
    have := hgives.forall_face last hmem
    omega

end Endless

/-! ### An end -/

section Ones

variable {sides threshold : Int} {faces : List Int}

/-- A roll of `count` dice on faces with as many ones behind them takes all its faces from the
given ones, or takes all of these and runs into the ones. -/
theorem dice_of_ones (hsides : 1 ≤ sides) (hfaces : ∀ face ∈ faces, 1 ≤ face ∧ face ≤ sides)
    (count supplied : Nat) (status : Status) :
    (∃ next rest, faces = next ++ rest ∧ next.length = count ∧
      Rolling.dice count sides status (⟨supplied, faces ++ List.replicate count 1⟩ : Replay) =
        .ok (next.map (Die.showing status)) ⟨supplied, rest ++ List.replicate count 1⟩) ∨
    faces.length < count ∧
      Rolling.dice count sides status (⟨supplied, faces ++ List.replicate count 1⟩ : Replay) =
        .ok ((faces ++ List.replicate (count - faces.length) 1).map (Die.showing status))
          ⟨supplied, List.replicate faces.length 1⟩ := by
  obtain hlt | hle := Nat.lt_or_ge faces.length count
  · refine .inr ⟨hlt, ?_⟩
    have hnext : ∀ face ∈ faces ++ List.replicate (count - faces.length) 1,
        1 ≤ face ∧ face ≤ sides := by
      intro face hface
      rcases List.mem_append.mp hface with hface | hface
      · exact hfaces face hface
      · rw [List.eq_of_mem_replicate hface]
        exact ⟨by omega, hsides⟩
    have hdice := Rolling.dice_of_gives status
      (Replay.gives_faces hnext supplied (List.replicate faces.length 1))
    rwa [List.append_assoc, List.replicate_append_replicate, List.length_append,
      List.length_replicate, Nat.add_sub_cancel' hlt.le, Nat.sub_add_cancel hlt.le] at hdice
  · refine .inl ⟨faces.take count, faces.drop count, (List.take_append_drop _ _).symm, ?_, ?_⟩
    · rw [List.length_take, Nat.min_eq_left hle]
    · have hnext : ∀ face ∈ faces.take count, 1 ≤ face ∧ face ≤ sides := fun face hface =>
        hfaces face (List.mem_of_mem_take hface)
      have hdice := Rolling.dice_of_gives status
        (Replay.gives_faces hnext supplied (faces.drop count ++ List.replicate count 1))
      rwa [← List.append_assoc, List.take_append_drop, List.length_take,
        Nat.min_eq_left hle] at hdice

/-- A set that runs into the ones is the last one. -/
theorem exists_setsFrom_of_lt (hthreshold : 1 < threshold) {count : Nat}
    (hlt : faces.length < count) (status : Status) (done : List Die) (source : Replay) :
    ∃ dice, setsFrom sides threshold true
      ((faces ++ List.replicate (count - faces.length) 1).map (Die.showing status)) done source =
        .ok dice source := by
  have hone : (1 : Int) ∈ List.replicate (count - faces.length) 1 :=
    List.mem_replicate.mpr ⟨by omega, rfl⟩
  have hstop : ¬Reaches threshold
      ((faces ++ List.replicate (count - faces.length) 1).map (Die.showing status)) := by
    rintro ⟨-, hall⟩
    have hle : threshold ≤ 1 := hall _ (List.mem_map_of_mem (List.mem_append_right _ hone))
    omega
  rw [setsFrom_of_not_reaches true done hstop]
  exact ⟨_, rfl⟩

theorem exists_setsFrom_eq_ok (hsides : 1 ≤ sides) (hthreshold : 1 < threshold)
    (hfaces : ∀ face ∈ faces, 1 ≤ face ∧ face ≤ sides) (newest done : List Die)
    (supplied : Nat) :
    ∃ dice after, setsFrom sides threshold true newest done
      (⟨supplied, faces ++ List.replicate newest.length 1⟩ : Replay) = .ok dice after := by
  -- Every further set takes faces from the list, until a set runs into the ones.
  induction hlength : faces.length using Nat.strongRecOn generalizing faces newest done with
  | ind length ih =>
    by_cases hreaches : Reaches threshold newest
    · have hpos := List.length_pos_iff.mpr hreaches.1
      rw [setsFrom_of_reaches true done hreaches]
      obtain ⟨next, rest, rfl, hnext, hdice⟩ | ⟨hlt, hdice⟩ :=
        dice_of_ones hsides hfaces newest.length supplied .bonus
      · rw [List.length_append] at hlength
        obtain ⟨dice, after, hrest⟩ := ih rest.length (by omega)
          (fun face hface => hfaces face (List.mem_append_right _ hface))
          (next.map (Die.showing .bonus)) ((next.map (Die.showing .bonus)).reverse ++ done) rfl
        rw [List.length_map, hnext] at hrest
        exact ⟨dice, after, Rolling.bind_eq_ok.mpr ⟨_, _, hdice, hrest⟩⟩
      · obtain ⟨dice, hrest⟩ := exists_setsFrom_of_lt hthreshold hlt .bonus _ _
        exact ⟨dice, _, Rolling.bind_eq_ok.mpr ⟨_, _, hdice, hrest⟩⟩
    · rw [setsFrom_of_not_reaches true done hreaches]
      exact ⟨_, _, rfl⟩

theorem exists_sets_eq_ok (hsides : 1 ≤ sides) (hthreshold : 1 < threshold)
    (hfaces : ∀ face ∈ faces, 1 ≤ face ∧ face ≤ sides) (count supplied : Nat) :
    ∃ dice after, sets count sides threshold true
      (⟨supplied, faces ++ List.replicate count 1⟩ : Replay) = .ok dice after := by
  obtain ⟨first, rest, rfl, hfirst, hdice⟩ | ⟨hlt, hdice⟩ :=
    dice_of_ones hsides hfaces count supplied .kept
  · obtain ⟨dice, after, hrest⟩ := exists_setsFrom_eq_ok hsides hthreshold
      (fun face hface => hfaces face (List.mem_append_right _ hface))
      (first.map (Die.showing .kept)) (first.map (Die.showing .kept)).reverse supplied
    rw [List.length_map, hfirst] at hrest
    exact ⟨dice, after, Rolling.bind_eq_ok.mpr ⟨_, _, hdice, hrest⟩⟩
  · obtain ⟨dice, hrest⟩ := exists_setsFrom_of_lt hthreshold hlt .kept _ _
    exact ⟨dice, _, Rolling.bind_eq_ok.mpr ⟨_, _, hdice, hrest⟩⟩

theorem face_cons {face : Int} (hface : 1 ≤ face ∧ face ≤ sides) (supplied : Nat)
    (rest : List Int) :
    Rolling.face sides (⟨supplied, face :: rest⟩ : Replay) = .ok face ⟨supplied, rest⟩ :=
  Rolling.face_of_draw (Replay.draw_eq_ok_iff.mpr ⟨hface, rfl⟩)

/-- A chain leaves faces of the list and all ones behind them, but for the one that it may end
with if it starts at all. -/
theorem exists_chainFrom_eq_ok (hsides : 1 ≤ sides) (hthreshold : 1 < threshold)
    (hfaces : ∀ face ∈ faces, 1 ≤ face ∧ face ≤ sides) (newest : Int) (done : List Die)
    (supplied ones : Nat) (hones : threshold ≤ newest → 0 < ones) :
    ∃ dice rest left, chainFrom sides threshold true newest done
        (⟨supplied, faces ++ List.replicate ones 1⟩ : Replay) =
          .ok dice ⟨supplied, rest ++ List.replicate left 1⟩ ∧
      (∀ face ∈ rest, 1 ≤ face ∧ face ≤ sides) ∧
      ones ≤ (if threshold ≤ newest then 1 else 0) + left := by
  induction faces generalizing newest done with
  | nil =>
    obtain hlt | hle := Int.lt_or_le newest threshold
    · rw [chainFrom_of_lt true done hlt]
      exact ⟨done, [], ones, rfl, hfaces, Nat.le_add_left _ _⟩
    · obtain ⟨left, rfl⟩ := Nat.exists_eq_add_one.mpr (hones hle)
      have hface := face_cons ⟨Int.le_refl 1, hsides⟩ supplied (List.replicate left 1)
      simp only [chainFrom_of_le true done hle, List.replicate_succ, List.nil_append,
        Rolling.bind_of_eq_ok hface, if_true, chainFrom_of_lt true _ hthreshold]
      refine ⟨_, [], left, rfl, hfaces, ?_⟩
      rw [if_pos hle]
      omega
  | cons face faces ih =>
    obtain hlt | hle := Int.lt_or_le newest threshold
    · rw [chainFrom_of_lt true done hlt]
      exact ⟨done, face :: faces, ones, rfl, hfaces, Nat.le_add_left _ _⟩
    · obtain ⟨hfirst, hfaces⟩ := List.forall_mem_cons.mp hfaces
      obtain ⟨dice, rest, left, hchain, hrest, hleft⟩ :=
        ih hfaces face (Die.showing .bonus face :: done) fun _ => hones hle
      have hface := face_cons hfirst supplied (faces ++ List.replicate ones 1)
      simp only [chainFrom_of_le true done hle, List.cons_append, Rolling.bind_of_eq_ok hface]
      refine ⟨dice, rest, left, hchain, hrest, ?_⟩
      rw [if_pos hle]
      split at hleft <;> omega

/-- How many of the dice start a chain. -/
def starters (threshold : Int) (dice : List Die) : Nat :=
  dice.countP fun die => threshold ≤ die.value

theorem starters_le_length (threshold : Int) (dice : List Die) :
    starters threshold dice ≤ dice.length :=
  List.countP_le_length

theorem exists_chainsFrom_eq_ok (hsides : 1 ≤ sides) (hthreshold : 1 < threshold)
    (hfaces : ∀ face ∈ faces, 1 ≤ face ∧ face ≤ sides) (dice done : List Die)
    (supplied ones : Nat) (hones : starters threshold dice ≤ ones) :
    ∃ rolled after, chainsFrom sides threshold true dice done
      (⟨supplied, faces ++ List.replicate ones 1⟩ : Replay) = .ok rolled after := by
  -- There is a one for each die whose chain is still to come.
  induction dice generalizing faces done ones with
  | nil => exact ⟨_, _, rfl⟩
  | cons die dice ih =>
    simp only [starters, List.countP_cons, decide_eq_true_eq] at hones
    have hpos : threshold ≤ die.value → 0 < ones := by
      intro hle
      rw [if_pos hle] at hones
      omega
    obtain ⟨chained, rest, left, hchain, hrest, hleft⟩ :=
      exists_chainFrom_eq_ok hsides hthreshold hfaces die.value (die :: done) supplied ones hpos
    have hlater : starters threshold dice ≤ left := by
      unfold starters
      omega
    obtain ⟨rolled, after, hrolled⟩ := ih hrest chained left hlater
    exact ⟨rolled, after, Rolling.bind_eq_ok.mpr ⟨_, _, hchain, hrolled⟩⟩

theorem exists_chains_eq_ok (hsides : 1 ≤ sides) (hthreshold : 1 < threshold)
    (hfaces : ∀ face ∈ faces, 1 ≤ face ∧ face ≤ sides) (count supplied : Nat) :
    ∃ dice after, chains count sides threshold true
      (⟨supplied, faces ++ List.replicate count 1⟩ : Replay) = .ok dice after := by
  obtain ⟨first, rest, rfl, hfirst, hdice⟩ | ⟨hlt, hdice⟩ :=
    dice_of_ones hsides hfaces count supplied .kept
  · have hones := starters_le_length threshold (first.map (Die.showing .kept))
    rw [List.length_map, hfirst] at hones
    obtain ⟨rolled, after, hrolled⟩ := exists_chainsFrom_eq_ok hsides hthreshold
      (fun face hface => hfaces face (List.mem_append_right _ hface)) _ [] supplied count hones
    exact ⟨rolled.reverse, after, Rolling.bind_eq_ok.mpr ⟨_, _, hdice,
      Rolling.map_eq_ok.mpr ⟨rolled, hrolled, rfl⟩⟩⟩
  · have hfew := starters_le_length threshold (faces.map (Die.showing .kept))
    have hnone : starters threshold
        ((List.replicate (count - faces.length) 1).map (Die.showing .kept)) = 0 := by
      simp [starters, Die.showing, hthreshold]
    -- The ones among the dice start no chain, and each other die has left a one behind.
    have hones : starters threshold ((faces ++ List.replicate (count - faces.length) 1).map
        (Die.showing .kept)) ≤ faces.length := by
      rw [List.length_map] at hfew
      rw [List.map_append, starters, List.countP_append]
      exact Nat.add_le_add hfew hnone.le
    have hempty : ∀ face ∈ ([] : List Int), 1 ≤ face ∧ face ≤ sides := by simp
    obtain ⟨rolled, after, hrolled⟩ :=
      exists_chainsFrom_eq_ok hsides hthreshold hempty _ [] supplied faces.length hones
    exact ⟨rolled.reverse, after, Rolling.bind_eq_ok.mpr ⟨_, _, hdice,
      Rolling.map_eq_ok.mpr ⟨rolled, hrolled, rfl⟩⟩⟩

end Ones

end Explosion

namespace Pool

/-- A pool that explodes on and on is rolled by one of the two loops. -/
theorem dice_of_explodesAt {pool : Pool} {threshold : Int} (h : pool.ExplodesAt threshold) :
    (∀ {σ : Type} [Source σ], (pool.dice : Rolling σ (List Die)) =
      Explosion.sets pool.count.toNat pool.sides threshold true) ∨
    ∀ {σ : Type} [Source σ], (pool.dice : Rolling σ (List Die)) =
      Explosion.chains pool.count.toNat pool.sides threshold true := by
  obtain ⟨given, hmodifier | hmodifier, rfl⟩ := h
  · left
    intros
    rw [Pool.dice, hmodifier]
  · right
    intros
    rw [Pool.dice, hmodifier]

theorem dice_ne_ok_of_explodesAt {pool : Pool} {threshold : Int} (hcount : 1 ≤ pool.count)
    (h : pool.ExplodesAt threshold) (hthreshold : threshold ≤ 1) {σ : Type} [Source σ]
    (source after : σ) (dice : List Die) : pool.dice source ≠ .ok dice after := by
  have hpositive : 1 ≤ pool.count.toNat := by omega
  obtain hloop | hloop := dice_of_explodesAt h
  · rw [hloop]
    exact Explosion.sets_ne_ok hpositive hthreshold
  · rw [hloop]
    exact Explosion.chains_ne_ok hpositive hthreshold

theorem exists_dice_eq_ok_of_explodesAt {pool : Pool} {threshold : Int} (hsides : 1 ≤ pool.sides)
    (h : pool.ExplodesAt threshold) (hthreshold : 1 < threshold) {faces : List Int}
    (hfaces : ∀ face ∈ faces, 1 ≤ face ∧ face ≤ pool.sides) :
    ∃ dice after, pool.dice
      (Replay.ofList (faces ++ List.replicate pool.count.toNat 1)) = .ok dice after := by
  obtain hloop | hloop := dice_of_explodesAt h
  · rw [hloop]
    exact Explosion.exists_sets_eq_ok hsides hthreshold hfaces _ _
  · rw [hloop]
    exact Explosion.exists_chains_eq_ok hsides hthreshold hfaces _ _

/-- The guard refuses those explosions that no faces end, before it draws any, and lets those pass
that can be ended from wherever they have come to. -/
theorem explosion_guard_exact {pool : Pool} {threshold : Int} (hcount : 1 ≤ pool.count)
    (hsides : 1 ≤ pool.sides) (h : pool.ExplodesAt threshold) :
    (threshold ≤ 1 →
      (∀ (limits : Limits) {σ : Type} [Source σ] (source : σ), pool.count ≤ limits.dice →
        pool.sides ≤ limits.sides → (Expression.pool pool).evaluate limits source =
          .error (Fault.pool (.endless pool threshold)).raised source) ∧
      ∀ {σ : Type} [Source σ] (source after : σ) (dice : List Die),
        pool.dice source ≠ .ok dice after) ∧
    (1 < threshold → ∀ (limits : Limits) (faces : List Int), pool.count ≤ limits.dice →
      pool.sides ≤ limits.sides → (∀ face ∈ faces, 1 ≤ face ∧ face ≤ pool.sides) →
      ∃ value after, (Expression.pool pool).evaluate limits
        (Replay.ofList (faces ++ List.replicate pool.count.toNat 1)) = .ok value after) := by
  constructor
  · intro hthreshold
    constructor
    · intro limits σ _ source hdice hlarge
      have hfault := fault?_of_explodesAt ⟨by omega, hdice⟩ ⟨hsides, hlarge⟩ h hthreshold
      exact Rolling.map_eq_error.mpr (by rw [roll_of_fault hfault]; rfl)
    · intro σ _ source after dice
      exact dice_ne_ok_of_explodesAt hcount h hthreshold source after dice
  · intro hthreshold limits faces hdice hlarge hfaces
    have hpasses := fault?_eq_none_of_explodesAt ⟨by omega, hdice⟩ ⟨hsides, hlarge⟩ h hthreshold
    obtain ⟨dice, after, hrolled⟩ := exists_dice_eq_ok_of_explodesAt hsides h hthreshold hfaces
    refine ⟨.plain { dice, total := Die.total dice }, after, Rolling.map_eq_ok.mpr ⟨_, ?_, rfl⟩⟩
    rw [Pool.roll, hpasses]
    exact Rolling.map_eq_ok.mpr ⟨dice, hrolled, rfl⟩

theorem explosion_guard_exact_chains :
    (∀ faces : List Int, Expression.evaluate {}
        (.pool ⟨2, 6, some (.explodeEach (some 1) true), none⟩) (Replay.ofList faces) =
      .error (.pool (.endless ⟨2, 6, some (.explodeEach (some 1) true), none⟩ 1))
        (Replay.ofList faces)) ∧
    ∃ value after, Expression.evaluate {} (.pool ⟨2, 6, some (.explodeEach none true), none⟩)
      (Replay.ofList [6, 6, 6, 1, 1]) = .ok value after := by
  have hendless : Pool.ExplodesAt ⟨2, 6, some (.explodeEach (some 1) true), none⟩ 1 :=
    ⟨some 1, .inr rfl, rfl⟩
  have hsix : Pool.ExplodesAt ⟨2, 6, some (.explodeEach none true), none⟩ 6 :=
    ⟨none, .inr rfl, rfl⟩
  have hsmall : ∀ n ∈ (Fault.pool (.endless ⟨2, 6, some (.explodeEach (some 1) true), none⟩
      1)).numbers, n.natAbs < 10 := by decide
  constructor
  · intro faces
    rw [((explosion_guard_exact (by decide) (by decide) hendless).1 (by decide)).1 _ _ (by decide)
      (by decide), Fault.raised_of_fits fun n hn => Numeral.fits_of_lt 1 (by decide) (hsmall n hn)]
  · exact (explosion_guard_exact (by decide) (by decide) hsix).2 (by decide) _ [6, 6, 6]
      (by decide) (by decide) (by decide)

end Pool

end DiceNotation
