import DiceNotation.Pool.Explosion
import DiceNotation.Proofs.Rolling.Course
import Mathlib.Data.List.Forall2

/-!
# Explosions, told by their faces

Which faces follow a die in its chain and which sets follow a set, and that the two loops draw
just these. Both are told step by step, as the loops go, and as wholes: where they start, what all
but the last of their parts show, and how the last one ends them. That an explosion ends is not
shown here.
-/

namespace DiceNotation

namespace Explosion

/-- The faces that follow a face in its chain: one more behind each that reaches the threshold,
but never a second one if the chain does not go on. -/
inductive IsChain (threshold : Int) (again : Bool) : Int → List Int → Prop where
  | stop {face : Int} : face < threshold → IsChain threshold again face []
  | once {face : Int} (next : Int) :
      threshold ≤ face → again = false → IsChain threshold again face [next]
  | goOn {face next : Int} {later : List Int} :
      threshold ≤ face → again = true → IsChain threshold again next later →
      IsChain threshold again face (next :: later)

/-- The sets that follow a set: one more of the same size behind each of which all faces reach the
threshold, but never a second one if the series does not go on. -/
inductive IsSeries (threshold : Int) (again : Bool) : List Int → List (List Int) → Prop where
  | stop {faces : List Int} :
      (faces ≠ [] → ∃ face ∈ faces, face < threshold) → IsSeries threshold again faces []
  | once {faces next : List Int} :
      faces ≠ [] → (∀ face ∈ faces, threshold ≤ face) → again = false →
      next.length = faces.length → IsSeries threshold again faces [next]
  | goOn {faces next : List Int} {later : List (List Int)} :
      faces ≠ [] → (∀ face ∈ faces, threshold ≤ face) → again = true →
      next.length = faces.length → IsSeries threshold again next later →
      IsSeries threshold again faces (next :: later)

/-! ### Chains and series as wholes -/

/-- The faces `later` are all that follow a face in its chain. -/
structure IsWholeChain (threshold : Int) (again : Bool) (face : Int) (later : List Int) :
    Prop where
  nil_iff : later = [] ↔ face < threshold
  once : again = false → later.length ≤ 1
  reach : again = true → ∀ each ∈ (face :: later).dropLast, threshold ≤ each
  ends : again = true → (face :: later).getLast (List.cons_ne_nil _ _) < threshold

/-- The sets `later` are all that follow the first one. -/
structure IsWholeSeries (threshold : Int) (again : Bool) (first : List Int)
    (later : List (List Int)) : Prop where
  size : ∀ set ∈ later, set.length = first.length
  reach : ∀ set ∈ (first :: later).dropLast, ∀ face ∈ set, threshold ≤ face
  ends : again = true → ∃ face ∈ (first :: later).getLast (List.cons_ne_nil _ _), face < threshold
  once : again = false → later.length ≤ 1
  once_iff : again = false → (later.length = 1 ↔ ∀ face ∈ first, threshold ≤ face)

section Wholes

variable {threshold face next : Int} {again : Bool} {later first second : List Int}
  {sets : List (List Int)}

theorem IsChain.isWholeChain (h : IsChain threshold again face later) :
    IsWholeChain threshold again face later := by
  induction h with
  | stop hlt =>
    exact {
      nil_iff := by simpa using hlt
      once := by simp
      reach := by simp
      ends := fun _ => hlt }
  | once next hle honce =>
    exact {
      nil_iff := by simpa using hle
      once := by simp
      reach := by simp [honce]
      ends := by simp [honce] }
  | goOn hle hagain _ ih =>
    constructor
    case nil_iff => simpa using hle
    case once => simp [hagain]
    case reach =>
      intro _
      rw [List.dropLast_cons_of_ne_nil (List.cons_ne_nil _ _)]
      exact List.forall_mem_cons.mpr ⟨hle, ih.reach hagain⟩
    case ends =>
      intro _
      rw [List.getLast_cons (List.cons_ne_nil _ _)]
      exact ih.ends hagain

/-- What follows a face that reaches the threshold is a chain of its own, if the chain goes on. -/
theorem IsWholeChain.tail (h : IsWholeChain threshold true face (next :: later)) :
    IsWholeChain threshold true next later := by
  have hreach := h.reach rfl
  have hends := h.ends rfl
  rw [List.dropLast_cons_of_ne_nil (List.cons_ne_nil _ _)] at hreach
  rw [List.getLast_cons (List.cons_ne_nil _ _)] at hends
  constructor
  case nil_iff =>
    constructor
    · rintro rfl
      exact hends
    · intro hlt
      by_contra hne
      rw [List.dropLast_cons_of_ne_nil hne] at hreach
      exact Int.not_le.mpr hlt (hreach next (by simp))
  case once => exact nofun
  case reach => exact fun _ => (List.forall_mem_cons.mp hreach).2
  case ends => exact fun _ => hends

theorem IsWholeChain.isChain (h : IsWholeChain threshold again face later) :
    IsChain threshold again face later := by
  induction later generalizing face with
  | nil => exact .stop (h.nil_iff.mp rfl)
  | cons next later ih =>
    have hle : threshold ≤ face := by
      have := h.nil_iff.not.mp (List.cons_ne_nil next later)
      omega
    cases again with
    | true => exact .goOn hle rfl (ih h.tail)
    | false =>
      have hlength := h.once rfl
      obtain rfl : later = [] := List.length_eq_zero_iff.mp (by simpa using hlength)
      exact .once next hle rfl

theorem isChain_eq : IsChain threshold again = IsWholeChain threshold again := by
  funext face later
  exact propext ⟨IsChain.isWholeChain, IsWholeChain.isChain⟩

theorem IsSeries.isWholeSeries (h : IsSeries threshold again first sets) (hfirst : first ≠ []) :
    IsWholeSeries threshold again first sets := by
  induction h with
  | @stop first hstop =>
    obtain ⟨face, hface, hlt⟩ := hstop hfirst
    exact {
      size := by simp
      reach := by simp
      ends := fun _ => ⟨face, hface, hlt⟩
      once := by simp
      once_iff := fun _ => by simpa using ⟨face, hface, hlt⟩ }
  | once _ hall honce hlength =>
    exact {
      size := by simpa using hlength
      reach := by simpa using hall
      ends := by simp [honce]
      once := by simp
      once_iff := fun _ => by simpa using hall }
  | @goOn first next later _ hall hagain hlength _ ih =>
    have hnext : next ≠ [] := by
      rintro rfl
      exact hfirst (List.length_eq_zero_iff.mp hlength.symm)
    have hwhole := ih hnext
    constructor
    case size =>
      exact List.forall_mem_cons.mpr ⟨hlength, fun set hset => (hwhole.size set hset).trans hlength⟩
    case reach =>
      rw [List.dropLast_cons_of_ne_nil (List.cons_ne_nil _ _)]
      exact List.forall_mem_cons.mpr ⟨hall, hwhole.reach⟩
    case ends =>
      intro _
      rw [List.getLast_cons (List.cons_ne_nil _ _)]
      exact hwhole.ends hagain
    case once => simp [hagain]
    case once_iff => simp [hagain]

/-- What follows a set that reaches the threshold is a series of its own, if the series goes on. -/
theorem IsWholeSeries.tail (h : IsWholeSeries threshold true first (second :: sets)) :
    IsWholeSeries threshold true second sets := by
  have hreach := h.reach
  have hends := h.ends rfl
  obtain ⟨hsecond, hsize⟩ := List.forall_mem_cons.mp h.size
  rw [List.dropLast_cons_of_ne_nil (List.cons_ne_nil _ _)] at hreach
  rw [List.getLast_cons (List.cons_ne_nil _ _)] at hends
  exact {
    size := fun set hset => (hsize set hset).trans hsecond.symm
    reach := (List.forall_mem_cons.mp hreach).2
    ends := fun _ => hends
    once := nofun
    once_iff := nofun }

theorem IsWholeSeries.isSeries (h : IsWholeSeries threshold again first sets)
    (hfirst : first ≠ []) : IsSeries threshold again first sets := by
  induction sets generalizing first with
  | nil =>
    refine .stop fun _ => ?_
    cases again with
    | true => exact h.ends rfl
    | false => simpa using h.once_iff rfl
  | cons second sets ih =>
    have hlength : second.length = first.length := h.size second List.mem_cons_self
    have hall : ∀ face ∈ first, threshold ≤ face := h.reach first (by simp)
    cases again with
    | true =>
      have hsecond : second ≠ [] := by
        rintro rfl
        exact hfirst (List.length_eq_zero_iff.mp hlength.symm)
      exact .goOn hfirst hall rfl hlength (ih h.tail hsecond)
    | false =>
      obtain rfl : sets = [] := List.length_eq_zero_iff.mp (by simpa using h.once rfl)
      exact .once hfirst hall rfl hlength

end Wholes

/-! ### The loops -/

section Loops

variable {allowed : Fault → Prop} {σ : Type} [Source σ]

theorem chainFrom_of_lt {sides threshold newest : Int} (again : Bool) (done : List Die)
    (h : newest < threshold) :
    chainFrom sides threshold again newest done = (pure done : Rolling σ (List Die)) := by
  funext source
  rw [chainFrom, if_neg (by omega)]
  rfl

theorem chainFrom_of_le {sides threshold newest : Int} (again : Bool) (done : List Die)
    (h : threshold ≤ newest) :
    chainFrom sides threshold again newest done =
      (do let next ← Rolling.face sides
          if again then chainFrom sides threshold again next (Die.showing .bonus next :: done)
          else pure (Die.showing .bonus next :: done) : Rolling σ (List Die)) := by
  funext source
  rw [chainFrom, if_pos h]
  simp only [bind, EStateM.bind]
  cases hface : Rolling.face sides source with
  | error fault after => rfl
  | ok next after =>
    cases again <;> rfl

theorem setsFrom_of_not_reaches {sides threshold : Int} {newest : List Die} (again : Bool)
    (done : List Die) (h : ¬Reaches threshold newest) :
    setsFrom sides threshold again newest done =
      (pure done.reverse : Rolling σ (List Die)) := by
  funext source
  rw [setsFrom, dif_neg h]
  rfl

theorem setsFrom_of_reaches {sides threshold : Int} {newest : List Die} (again : Bool)
    (done : List Die) (h : Reaches threshold newest) :
    setsFrom sides threshold again newest done =
      (do let next ← Rolling.dice newest.length sides .bonus
          if again then setsFrom sides threshold again next (next.reverse ++ done)
          else pure (next.reverse ++ done).reverse : Rolling σ (List Die)) := by
  funext source
  rw [setsFrom, dif_pos h]
  simp only [bind, EStateM.bind]
  cases hdice : Rolling.dice newest.length sides .bonus source with
  | error fault after => rfl
  | ok next after =>
    cases again <;> rfl

theorem course_chainFrom (sides threshold : Int) (again : Bool) (newest : Int) (done : List Die)
    (source : σ) :
    Rolling.Course (fun _ _ => chainFrom sides threshold again newest done) allowed
      (Rolling.OfSides sides fun faces dice => IsChain threshold again newest faces ∧
        dice = (faces.map (Die.showing .bonus)).reverse ++ done) source := by
  induction hleft : Source.left source using Nat.strongRecOn
    generalizing newest done source with
  | ind left ih =>
    obtain hlt | hle := Int.lt_or_le newest threshold
    · simp only [chainFrom_of_lt again done hlt]
      exact Rolling.course_pure _ (Rolling.ofSides_nil ⟨.stop hlt, rfl⟩)
    · simp only [chainFrom_of_le again done hle]
      refine (Rolling.course_face_ofSides sides).bind_ofSides ?_
      rintro _ middle next hgives rfl
      cases again with
      | false =>
        exact Rolling.course_pure _ (Rolling.ofSides_nil ⟨.once next hle rfl, rfl⟩)
      | true =>
        have hless : Source.left middle < left := hleft ▸ hgives.left_lt (List.cons_ne_nil _ _)
        refine (ih _ hless next _ middle rfl).imp ?_
        rintro _ dice ⟨later, rfl, hchain, rfl⟩
        refine ⟨later, rfl, .goOn hle rfl hchain, ?_⟩
        simp

theorem course_chainsFrom (sides threshold : Int) (again : Bool) (dice done : List Die)
    (source : σ) :
    Rolling.Course (fun _ _ => chainsFrom sides threshold again dice done) allowed
      (Rolling.OfSides sides fun faces result => ∃ chains : List (List Int),
        faces = chains.flatten ∧
        List.Forall₂ (IsChain threshold again) (dice.map (·.value)) chains ∧
        result = (List.zipWith (fun die chain => die :: chain.map (Die.showing .bonus))
          dice chains).flatten.reverse ++ done) source := by
  induction dice generalizing done source with
  | nil => exact Rolling.course_pure _ (Rolling.ofSides_nil ⟨[], rfl, .nil, rfl⟩)
  | cons die dice ih =>
    simp only [chainsFrom]
    refine (course_chainFrom sides threshold again die.value (die :: done) source).bind_ofSides ?_
    rintro chain middle _ - ⟨hchain, rfl⟩
    refine (ih _ middle).imp ?_
    rintro _ result ⟨_, rfl, chains, rfl, hchains, rfl⟩
    refine ⟨_, rfl, chain :: chains, rfl, .cons hchain hchains, ?_⟩
    simp

theorem course_chains (count : Nat) (sides threshold : Int) (again : Bool) (source : σ) :
    Rolling.Course (fun _ _ => chains count sides threshold again) allowed
      (Rolling.OfSides sides fun faces dice => ∃ (first : List Int) (chains : List (List Int)),
        faces = first ++ chains.flatten ∧ first.length = count ∧
        List.Forall₂ (IsChain threshold again) first chains ∧
        dice = (List.zipWith (fun face chain => Die.showing .kept face ::
          chain.map (Die.showing .bonus)) first chains).flatten) source := by
  refine (Rolling.course_dice count sides .kept source).bind_ofSides ?_
  rintro first middle _ - ⟨hlength, rfl⟩
  have hchains : Rolling.Course _ allowed _ middle :=
    course_chainsFrom sides threshold again (first.map (Die.showing .kept)) [] middle
  refine (hchains.map_ofSides List.reverse).imp ?_
  rintro _ dice ⟨_, rfl, _, ⟨chains, rfl, hforall, rfl⟩, rfl⟩
  refine ⟨chains.flatten, rfl, first, chains, rfl, hlength, ?_, ?_⟩
  · simpa [Function.comp_def, Die.showing] using hforall
  · simp [List.zipWith_map_left]

theorem reaches_iff {threshold : Int} {dice : List Die} :
    Reaches threshold dice ↔
      dice.map (·.value) ≠ [] ∧ ∀ face ∈ dice.map (·.value), threshold ≤ face := by
  simp [Reaches]

theorem course_setsFrom (sides threshold : Int) (again : Bool) (newest done : List Die)
    (source : σ) :
    Rolling.Course (fun _ _ => setsFrom sides threshold again newest done) allowed
      (Rolling.OfSides sides fun faces dice => ∃ later : List (List Int),
        faces = later.flatten ∧ IsSeries threshold again (newest.map (·.value)) later ∧
        dice = done.reverse ++ later.flatten.map (Die.showing .bonus)) source := by
  induction hleft : Source.left source using Nat.strongRecOn
    generalizing newest done source with
  | ind left ih =>
    by_cases hreaches : Reaches threshold newest
    · obtain ⟨hne, hall⟩ := reaches_iff.mp hreaches
      simp only [setsFrom_of_reaches again done hreaches]
      refine (Rolling.course_dice newest.length sides .bonus source).bind_ofSides ?_
      rintro next middle _ hgives ⟨hlength, rfl⟩
      have hsame : next.length = (newest.map (·.value)).length := by simp [hlength]
      cases again with
      | false =>
        refine Rolling.course_pure _ (Rolling.ofSides_nil ⟨[next], ?_, ?_, ?_⟩)
        · simp
        · exact .once hne hall rfl hsame
        · simp
      | true =>
        have hnext : next.map (Throw.mk sides) ≠ [] := by
          rw [ne_eq, List.map_eq_nil_iff, ← List.length_eq_zero_iff, hlength,
            List.length_eq_zero_iff]
          exact hreaches.1
        have hless : Source.left middle < left := hleft ▸ hgives.left_lt hnext
        refine (ih _ hless _ _ middle rfl).imp ?_
        rintro _ dice ⟨_, rfl, later, rfl, hseries, rfl⟩
        refine ⟨_, rfl, next :: later, rfl, ?_, ?_⟩
        · refine .goOn hne hall rfl hsame ?_
          simpa [Function.comp_def, Die.showing] using hseries
        · simp
    · have hstop : newest.map (·.value) ≠ [] →
          ∃ face ∈ newest.map (·.value), face < threshold := by
        intro hne
        by_contra hnone
        refine hreaches (reaches_iff.mpr ⟨hne, fun face hface => Int.not_lt.mp fun hlt => ?_⟩)
        exact hnone ⟨face, hface, hlt⟩
      simp only [setsFrom_of_not_reaches again done hreaches]
      refine Rolling.course_pure _ (Rolling.ofSides_nil ⟨[], rfl, .stop hstop, ?_⟩)
      simp

theorem course_sets (count : Nat) (sides threshold : Int) (again : Bool) (source : σ) :
    Rolling.Course (fun _ _ => sets count sides threshold again) allowed
      (Rolling.OfSides sides fun faces dice => ∃ (first : List Int) (later : List (List Int)),
        faces = first ++ later.flatten ∧ first.length = count ∧
        IsSeries threshold again first later ∧
        dice = first.map (Die.showing .kept) ++ later.flatten.map (Die.showing .bonus)) source := by
  refine (Rolling.course_dice count sides .kept source).bind_ofSides ?_
  rintro first middle _ - ⟨hlength, rfl⟩
  refine (course_setsFrom sides threshold again _ _ middle).imp ?_
  rintro _ dice ⟨_, rfl, later, rfl, hseries, rfl⟩
  refine ⟨later.flatten, rfl, first, later, rfl, hlength, ?_, ?_⟩
  · simpa [Function.comp_def, Die.showing] using hseries
  · simp

end Loops

end Explosion

end DiceNotation
