import DiceNotation.Batch
import DiceNotation.Proofs.Evaluation.Pools
import DiceNotation.Proofs.Expression.RoundTrip

/-!
# Refused pools

Which fault of a pool an evaluation can end in is settled by the tree and the limits. It is that
of the first pool that is refused, once the pools before it are rolled, and no face and no number
of repetitions makes it another one.
-/

namespace DiceNotation

namespace Pool

variable {σ : Type} [Source σ] {limits : Limits} {source after : σ} {fault : Fault}

/-- The first of the pools that is refused, those before it and what is wrong with it. -/
structure FirstRefused (limits : Limits) (pools before : List Pool) (bad : Pool)
    (cause : PoolFault) : Prop where
  split : ∃ rest, pools = before ++ bad :: rest
  passed : ∀ pool ∈ before, pool.IsAdmissible limits
  refused : ¬bad.IsAdmissible limits
  fault? : bad.fault? limits = some cause

theorem exists_firstRefused {pools : List Pool} (h : ¬∀ pool ∈ pools, pool.IsAdmissible limits) :
    ∃ before bad cause, FirstRefused limits pools before bad cause := by
  induction pools with
  | nil => simp at h
  | cons pool pools ih =>
    cases hfault : pool.fault? limits with
    | some cause =>
      refine ⟨[], pool, cause, ⟨pools, rfl⟩, by simp, ?_, hfault⟩
      rw [← fault?_eq_none_iff, hfault]
      exact Option.some_ne_none cause
    | none =>
      have hpool := fault?_eq_none_iff.mp hfault
      have hpools : ¬∀ pool ∈ pools, pool.IsAdmissible limits :=
        fun hpools => h (List.forall_mem_cons.mpr ⟨hpool, hpools⟩)
      obtain ⟨before, bad, cause, ⟨rest, rfl⟩, hbefore, hbad, hcause⟩ := ih hpools
      exact ⟨pool :: before, bad, cause, ⟨rest, rfl⟩, List.forall_mem_cons.mpr ⟨hpool, hbefore⟩,
        hbad, hcause⟩

/-- Rolling pools that are not refused, only the source can fail. -/
theorem starved_of_rolls {pools : List Pool} (h : ∀ pool ∈ pools, pool.IsAdmissible limits)
    (herror : pools.mapM (roll limits) source = .error fault after) :
    ∃ sides cause, Source.draw sides after = .error cause ∧
      fault = (Fault.source cause).raised := by
  induction pools generalizing source with
  | nil => cases herror
  | cons pool pools ih =>
    obtain ⟨hpool, hpools⟩ := List.forall_mem_cons.mp h
    rw [List.mapM_cons] at herror
    obtain herror | ⟨roll, middle, _, herror⟩ := Rolling.bind_eq_error.mp herror
    · have hcourse : Rolling.Course _ (fun _ => False) _ source :=
        course_roll (fault?_eq_none_iff.mpr hpool)
      obtain ⟨_, _, _, hnone⟩ | hstarved := hcourse.of_error herror
      · exact hnone.elim
      · exact hstarved
    · obtain herror | ⟨_, _, _, herror⟩ := Rolling.bind_eq_error.mp herror
      · exact ih hpools herror
      · cases herror

/-- Rolling stops at a pool that is refused, with its fault. -/
theorem rolls_refused {bad : Pool} {cause : PoolFault} (hcause : bad.fault? limits = some cause)
    (before rest : List Pool) :
    ((before ++ bad :: rest).mapM (roll limits) : Rolling σ (List Roll)) =
      before.mapM (roll limits) >>= fun _ => throw (Fault.pool cause).raised := by
  rw [List.mapM_append, List.mapM_cons, roll_of_fault hcause]
  rfl

def integers (pool : Pool) : List Int :=
  pool.count :: pool.sides :: (pool.modifier.map Modifier.numbers).getD []

theorem mem_integers_of_explodesAt {pool : Pool} {threshold : Int}
    (h : pool.ExplodesAt threshold) : threshold ∈ pool.integers := by
  obtain ⟨given, hmodifier, rfl⟩ := h
  cases given with
  | none => simp [integers]
  | some threshold =>
    rcases hmodifier with hmodifier | hmodifier <;> simp [integers, hmodifier, Modifier.numbers]

theorem numbers_subset_integers (pool : Pool) : pool.numbers ⊆ pool.integers := by
  unfold numbers integers
  split
  · exact List.cons_subset_cons _ (List.subset_cons_self _ _)
  · exact List.Subset.refl _

/-- What a refusal tells are numbers of the pool and limits. -/
theorem mem_numbers_of_fault? {pool : Pool} {cause : PoolFault}
    (h : pool.fault? limits = some cause) {n : Int} (hn : n ∈ cause.numbers) :
    n ∈ pool.integers ∨ n = limits.dice ∨ n = limits.sides := by
  have hcount : pool.count ∈ pool.integers := List.mem_cons_self
  have hsides : pool.sides ∈ pool.integers := List.mem_cons_of_mem _ List.mem_cons_self
  unfold fault? at h
  split_ifs at h
  · cases h
    rw [List.mem_singleton.mp hn]
    exact .inl hcount
  · cases h
    rw [List.mem_singleton.mp hn]
    exact .inl hsides
  · cases h
    obtain rfl | rfl : n = pool.count ∨ n = limits.dice := by simpa [PoolFault.numbers] using hn
    · exact .inl hcount
    · exact .inr (.inl rfl)
  · cases h
    obtain rfl | rfl : n = pool.sides ∨ n = limits.sides := by simpa [PoolFault.numbers] using hn
    · exact .inl hsides
    · exact .inr (.inr rfl)
  · obtain ⟨threshold, hthreshold, rfl⟩ := Option.map_eq_some_iff.mp h
    obtain ⟨hexplodes, -⟩ := endlessThreshold?_eq_some_iff.mp hthreshold
    obtain hn | hn := List.mem_append.mp hn
    · exact .inl (pool.numbers_subset_integers hn)
    · rw [List.mem_singleton.mp hn]
      exact .inl (mem_integers_of_explodesAt hexplodes)

end Pool

namespace Expression

/-- All integers of the tree, whether they are written or not. -/
def integers : Expression → List Int
  | .number n => [n]
  | .pool dice => dice.integers
  | .sum left right | .difference left right | .comparison left _ right =>
    left.integers ++ right.integers
  | .target inner _ threshold => inner.integers ++ [threshold]
  | .success inner threshold step => inner.integers ++ [threshold, step]

/-- All integers can be written, and all success levels have steps. -/
structure IsOrdinary (tree : Expression) : Prop where
  fits : ∀ n ∈ tree.integers, Numeral.fits n = true
  hasSteps : tree.HasSteps

theorem IsCanonical.isOrdinary {tree : Expression} (h : tree.IsCanonical) : tree.IsOrdinary := by
  apply h.induction
  case number =>
    intro n hn
    exact ⟨by simpa [integers] using hn.fits, trivial⟩
  case pool =>
    intro dice hdice
    have hmodifier : ∀ n ∈ (dice.modifier.map Modifier.numbers).getD [], Numeral.fits n = true := by
      cases hmodifier : dice.modifier with
      | none => simp
      | some modifier => exact fun n hn => (hdice.modifier modifier hmodifier n hn).fits
    refine ⟨List.forall_mem_cons.mpr ⟨hdice.count.fits, ?_⟩, trivial⟩
    exact List.forall_mem_cons.mpr ⟨hdice.sides.fits, hmodifier⟩
  case sum | difference =>
    intro left right hleft hright
    exact ⟨List.forall_mem_append.mpr ⟨hleft.fits, hright.fits⟩, hleft.hasSteps, hright.hasSteps⟩
  case comparison =>
    intro left relation right hleft hright
    exact ⟨List.forall_mem_append.mpr ⟨hleft.fits, hright.fits⟩, hleft.hasSteps, hright.hasSteps⟩
  case target =>
    intro inner side threshold hinner hthreshold
    refine ⟨List.forall_mem_append.mpr ⟨hinner.fits, ?_⟩, hinner.hasSteps⟩
    simpa using hthreshold.fits
  case success =>
    intro inner threshold step hinner hthreshold hstep hpos
    refine ⟨List.forall_mem_append.mpr ⟨hinner.fits, ?_⟩, hinner.hasSteps, by omega⟩
    simpa using ⟨hthreshold.fits, hstep.fits⟩

theorem mem_integers_of_mem_pools {tree : Expression} {pool : Pool} (hpool : pool ∈ tree.pools)
    {n : Int} (hn : n ∈ pool.integers) : n ∈ tree.integers := by
  induction tree with
  | number => cases hpool
  | pool dice =>
    cases List.mem_singleton.mp hpool
    exact hn
  | sum left right ihleft ihright | difference left right ihleft ihright
  | comparison left relation right ihleft ihright =>
    rcases List.mem_append.mp hpool with hpool | hpool
    · exact List.mem_append_left _ (ihleft hpool)
    · exact List.mem_append_right _ (ihright hpool)
  | target inner side threshold ih | success inner threshold step ih =>
    exact List.mem_append_left _ (ih hpool)

variable {σ : Type} [Source σ] {limits : Limits} {tree : Expression} {source after : σ}
  {fault : Fault}

theorem starved_of_evaluate (hsteps : tree.HasSteps)
    (hpools : ∀ pool ∈ tree.pools, pool.IsAdmissible limits)
    (herror : tree.evaluate limits source = .error fault after) :
    ∃ sides cause, Source.draw sides after = .error cause ∧
      fault = (Fault.source cause).raised :=
  Pool.starved_of_rolls hpools ((alike_evaluate limits hsteps).error_iff.mp herror)

/-- Every evaluation fails. If it is a pool that fails, then with this cause and right behind the
rolls of the pools before it, and so it does wherever these rolls succeed. -/
structure FailsBehind (limits : Limits) (tree : Expression) (before : List Pool)
    (cause : PoolFault) : Prop where
  ne_ok {σ : Type} [Source σ] {source after : σ} (value : Value) :
    tree.evaluate limits source ≠ .ok value after
  eq_cause {σ : Type} [Source σ] {source after : σ} {fault : Fault} :
    tree.evaluate limits source = .error fault after → fault.IsDice →
    fault = .pool cause ∧ ∃ rolls, before.mapM (Pool.roll limits) source = .ok rolls after
  eq_error {σ : Type} [Source σ] {source after : σ} {rolls : List Roll} :
    before.mapM (Pool.roll limits) source = .ok rolls after →
    tree.evaluate limits source = .error (Fault.pool cause).raised after

theorem failsBehind_of_refused (hsteps : tree.HasSteps) {before : List Pool} {bad : Pool}
    {cause : PoolFault} (h : Pool.FirstRefused limits tree.pools before bad cause) :
    tree.FailsBehind limits before cause := by
  obtain ⟨rest, hpools⟩ := h.split
  have halike : ∀ {σ : Type} [Source σ], Rolling.Alike (tree.evaluate limits : Rolling σ Value)
      (before.mapM (Pool.roll limits) >>= fun _ =>
        (throw (Fault.pool cause).raised : Rolling σ (List Roll))) := by
    intro σ _
    rw [← Pool.rolls_refused h.fault? before rest, ← hpools]
    exact alike_evaluate limits hsteps
  constructor
  · intro σ _ source after value hok
    obtain ⟨_, hrolls⟩ := halike.exists_ok hok
    obtain ⟨_, _, _, hthrow⟩ := Rolling.bind_eq_ok.mp hrolls
    cases hthrow
  · intro σ _ source after fault herror hdice
    obtain hbefore | ⟨rolls, middle, hrolls, hthrow⟩ :=
      Rolling.bind_eq_error.mp (halike.error_iff.mp herror)
    · obtain ⟨_, cause, _, rfl⟩ := Pool.starved_of_rolls h.passed hbefore
      exact (Fault.isDice_of_raised hdice).elim
    · cases hthrow
      exact ⟨Fault.raised_eq_of_isDice hdice, rolls, hrolls⟩
  · intro σ _ source after rolls hrolls
    exact halike.error_iff.mpr (Rolling.bind_eq_error.mpr (.inr ⟨rolls, after, hrolls, rfl⟩))

/-- The fault of the pool is not lost in the writing of its message. -/
theorem raised_of_firstRefused (hfits : ∀ n ∈ tree.integers, Numeral.fits n = true)
    {before : List Pool} {bad : Pool} {cause : PoolFault}
    (h : Pool.FirstRefused limits tree.pools before bad cause)
    (hdice : Numeral.fits limits.dice = true) (hsides : Numeral.fits limits.sides = true) :
    (Fault.pool cause).raised = .pool cause := by
  refine Fault.raised_of_fits fun n hn => ?_
  obtain hn | rfl | rfl := Pool.mem_numbers_of_fault? h.fault? hn
  · obtain ⟨rest, hpools⟩ := h.split
    refine hfits n (mem_integers_of_mem_pools ?_ hn)
    rw [hpools]
    exact List.mem_append_right _ List.mem_cons_self
  · exact hdice
  · exact hsides

/-- A repetition ends in a fault of a pool at its first turn, if it does at all. -/
theorem evaluate_of_times_eq_error (hsteps : tree.HasSteps) {α : Type} {action : Rolling σ α}
    (halike : Rolling.Alike action (tree.evaluate limits)) (hdice : fault.IsDice) {n : Nat}
    (h : Rolling.times n action source = .error fault after) :
    tree.evaluate limits source = .error fault after := by
  obtain h | ⟨⟨result, middle, hresult⟩, later, hlater⟩ := Rolling.times_eq_error h
  · exact halike.error_iff.mp h
  · -- The success before shows that no pool is refused, so that only the source can fail later.
    obtain ⟨value, hvalue⟩ := halike.exists_ok hresult
    have hpools : ∀ pool ∈ tree.pools, pool.IsAdmissible limits := by
      by_contra hnot
      obtain ⟨before, bad, cause, hrefused⟩ := Pool.exists_firstRefused hnot
      exact (failsBehind_of_refused hsteps hrefused).ne_ok value hvalue
    obtain ⟨_, cause, _, rfl⟩ :=
      starved_of_evaluate hsteps hpools (halike.error_iff.mp hlater)
    exact (Fault.isDice_of_raised hdice).elim

theorem evaluate_of_run_eq_error (hsteps : tree.HasSteps) (hdice : fault.IsDice) {count : Int}
    (h : tree.run limits count source = .error fault after) :
    tree.evaluate limits source = .error fault after := by
  unfold run at h
  split at h
  · cases Fault.isDice_of_fail h hdice
  · exact evaluate_of_times_eq_error hsteps rfl hdice h

theorem evaluate_of_sample_eq_error (hsteps : tree.HasSteps) (hdice : fault.IsDice) {count : Int}
    (h : tree.sample limits count source = .error fault after) :
    tree.evaluate limits source = .error fault after := by
  unfold sample at h
  split at h
  · cases Fault.isDice_of_fail h hdice
  · exact evaluate_of_times_eq_error hsteps (Rolling.alike_map Value.score _) hdice
      (Rolling.map_eq_error.mp h)

/-- The faults of pools are settled before any face is drawn: if every pool is admissible, only
the source can fail, and otherwise every evaluation fails, with the fault of the first pool that
is refused if the source gives the faces of those before it. -/
theorem evaluate_refusal (limits : Limits) :
    (∀ {text : Text} {reading : Reading} {tree : Expression}, read text = .ok reading →
      reading.expression = some tree → tree.IsOrdinary) ∧
    ∀ {tree : Expression}, tree.IsOrdinary →
      ((∀ pool ∈ tree.pools, pool.IsAdmissible limits) →
        ∀ {σ : Type} [Source σ] {source after : σ} {fault : Fault},
          tree.evaluate limits source = .error fault after →
          ∃ sides cause, Source.draw sides after = .error cause ∧
            fault = (Fault.source cause).raised) ∧
      ((¬∀ pool ∈ tree.pools, pool.IsAdmissible limits) →
        ∃ before bad cause, Pool.FirstRefused limits tree.pools before bad cause) ∧
      (∀ {before : List Pool} {bad : Pool} {cause : PoolFault},
        Pool.FirstRefused limits tree.pools before bad cause →
        tree.FailsBehind limits before cause ∧
        (Numeral.fits limits.dice = true → Numeral.fits limits.sides = true →
          (Fault.pool cause).raised = .pool cause)) ∧
      ∀ {σ : Type} [Source σ] {source after : σ} {fault : Fault} {count : Int}, fault.IsDice →
        (tree.run limits count source = .error fault after ∨
          tree.sample limits count source = .error fault after) →
        tree.evaluate limits source = .error fault after := by
  constructor
  · intro text reading tree hread htree
    exact (isCanonical_of_read hread htree).isOrdinary
  intro tree hordinary
  have hsteps := hordinary.hasSteps
  refine ⟨?_, Pool.exists_firstRefused, ?_, ?_⟩
  · intro hpools σ _ source after fault
    exact starved_of_evaluate hsteps hpools
  · intro before bad cause hrefused
    constructor
    · exact failsBehind_of_refused hsteps hrefused
    · exact raised_of_firstRefused hordinary.fits hrefused
  · rintro σ _ source after fault count hdice (hrun | hsample)
    · exact evaluate_of_run_eq_error hsteps hdice hrun
    · exact evaluate_of_sample_eq_error hsteps hdice hsample

theorem evaluate_refusal_endless :
    Expression.evaluate {} (.sum (.difference (.pool ⟨2, 6, none, none⟩)
        (.pool ⟨1, 6, some (.explodeEach (some 1) true), none⟩)) (.pool ⟨1, 0, none, none⟩))
        (Replay.ofList [3, 4, 5]) =
      .error (.pool (.endless ⟨1, 6, some (.explodeEach (some 1) true), none⟩ 1)) ⟨3, [5]⟩ := by
  have hsmall : ∀ n ∈ integers (.sum (.difference (.pool ⟨2, 6, none, none⟩)
      (.pool ⟨1, 6, some (.explodeEach (some 1) true), none⟩)) (.pool ⟨1, 0, none, none⟩)),
      n.natAbs < 10 ^ 1 := by decide
  have hordinary : IsOrdinary (.sum (.difference (.pool ⟨2, 6, none, none⟩)
      (.pool ⟨1, 6, some (.explodeEach (some 1) true), none⟩)) (.pool ⟨1, 0, none, none⟩)) :=
    ⟨fun n hn => Numeral.fits_of_lt 1 (by decide) (hsmall n hn), ⟨trivial, trivial⟩, trivial⟩
  have hrefused : Pool.FirstRefused {} (pools (.sum (.difference (.pool ⟨2, 6, none, none⟩)
      (.pool ⟨1, 6, some (.explodeEach (some 1) true), none⟩)) (.pool ⟨1, 0, none, none⟩)))
      [⟨2, 6, none, none⟩] ⟨1, 6, some (.explodeEach (some 1) true), none⟩
      (.endless ⟨1, 6, some (.explodeEach (some 1) true), none⟩ 1) := by
    refine ⟨⟨[⟨1, 0, none, none⟩], rfl⟩, ?_, ?_, rfl⟩
    · simpa using Pool.fault?_eq_none_iff.mp rfl
    · rw [← Pool.fault?_eq_none_iff]
      exact Option.some_ne_none _
  obtain ⟨hfails, hraised⟩ := ((evaluate_refusal {}).2 hordinary).2.2.1 hrefused
  have hrolls : [(⟨2, 6, none, none⟩ : Pool)].mapM (Pool.roll {}) (Replay.ofList [3, 4, 5]) =
      .ok [⟨[⟨3, .kept, false⟩, ⟨4, .kept, false⟩], 7, 0, none⟩] ⟨3, [5]⟩ := by
    cbv
  rw [hfails.eq_error hrolls, hraised]
  · exact Numeral.fits_of_lt 4 (by decide) (by decide)
  · exact Numeral.fits_of_lt 5 (by decide) (by decide)

end Expression

end DiceNotation
