import DiceNotation.Batch
import DiceNotation.Proofs.Rolling.Outcomes
import DiceNotation.Proofs.Tally.Counts
import DiceNotation.Source.Replay

/-!
# Batches and their tallies

A tally is that of the scores of the values which the same number of runs gives, on the same faces.
A batch is made of any two smaller ones in a row, the second of which rolls on from where the first
one stopped.
-/

namespace DiceNotation

namespace Rolling

variable {σ α β : Type}

theorem times_map (f : α → β) (action : Rolling σ α) (n : Nat) :
    times n (f <$> action) = List.map f <$> times n action := by
  induction n with
  | zero => rfl
  | succ n ih =>
    rw [times_succ, times_succ, ih]
    simp only [map_eq_pure_bind, bind_assoc, pure_bind, List.map_cons]

theorem times_pure (result : α) (n : Nat) :
    (times n (pure result) : Rolling σ (List α)) = pure (List.replicate n result) := by
  induction n with
  | zero => rfl
  | succ n ih => rw [times_succ, ih, pure_bind, pure_bind, List.replicate_succ]

theorem times_add (action : Rolling σ α) (n m : Nat) :
    times (n + m) action =
      (do let first ← times n action
          let second ← times m action
          return first ++ second) := by
  induction n with
  | zero => simp
  | succ n ih =>
    rw [Nat.add_right_comm, times_succ, times_succ, ih]
    simp only [bind_assoc, pure_bind, List.cons_append]

theorem length_of_times {action : Rolling σ α} {n : Nat} {source after : σ} {results : List α}
    (h : times n action source = .ok results after) : results.length = n := by
  induction n generalizing source results with
  | zero =>
    obtain ⟨rfl, -⟩ := pure_eq_ok.mp h
    rfl
  | succ n ih =>
    rw [times_succ] at h
    obtain ⟨result, middle, -, h⟩ := bind_eq_ok.mp h
    obtain ⟨rest, last, hrest, h⟩ := bind_eq_ok.mp h
    obtain ⟨rfl, rfl⟩ := pure_eq_ok.mp h
    rw [List.length_cons, ih hrest]

theorem exists_of_times {action : Rolling σ α} {n : Nat} {source after : σ} {results : List α}
    (h : times n action source = .ok results after) :
    ∀ result ∈ results, ∃ before behind, action before = .ok result behind := by
  induction n generalizing source results with
  | zero =>
    obtain ⟨rfl, -⟩ := pure_eq_ok.mp h
    simp
  | succ n ih =>
    rw [times_succ] at h
    obtain ⟨result, middle, hresult, h⟩ := bind_eq_ok.mp h
    obtain ⟨rest, last, hrest, h⟩ := bind_eq_ok.mp h
    obtain ⟨rfl, rfl⟩ := pure_eq_ok.mp h
    exact List.forall_mem_cons.mpr ⟨⟨source, middle, hresult⟩, ih hrest⟩

end Rolling

namespace Expression

variable {σ : Type} [Source σ] {limits : Limits} {tree : Expression} {n m : Int}

theorem run_of_pos (hn : 1 ≤ n) :
    (tree.run limits n : Rolling σ (List Value)) =
      Rolling.times n.toNat (tree.evaluate limits) :=
  if_neg (Int.not_lt.mpr hn)

theorem run_number (number : Int) (hn : 1 ≤ n) :
    (run limits (.number number) n : Rolling σ (List Value)) =
      pure (List.replicate n.toNat (.plain { total := number, constant := number })) := by
  rw [run_of_pos hn, evaluate, Rolling.times_pure]

theorem sample_of_pos (hn : 1 ≤ n) :
    (tree.sample limits n : Rolling σ Tally) =
      (fun values => Tally.ofScores (values.map Value.score)) <$> tree.run limits n := by
  rw [sample, if_neg (Int.not_lt.mpr hn), Rolling.times_map, run_of_pos hn, ← comp_map]
  rfl

theorem run_add (hn : 1 ≤ n) (hm : 1 ≤ m) :
    (tree.run limits (n + m) : Rolling σ (List Value)) =
      (do let first ← tree.run limits n
          let second ← tree.run limits m
          return first ++ second) := by
  rw [run_of_pos (by omega), run_of_pos hn, run_of_pos hm, ← Rolling.times_add,
    Int.toNat_add (by omega) (by omega)]

theorem length_of_run (hn : 1 ≤ n) {source after : σ} {values : List Value}
    (h : tree.run limits n source = .ok values after) : (values.length : Int) = n := by
  rw [run_of_pos hn] at h
  rw [Rolling.length_of_times h]
  omega

theorem ne_nil_of_run (hn : 1 ≤ n) {source after : σ} {values : List Value}
    (h : tree.run limits n source = .ok values after) : values ≠ [] := by
  rintro rfl
  have hlength := length_of_run hn h
  rw [List.length_nil, Nat.cast_zero] at hlength
  omega

theorem sample_eq_ok_iff (hn : 1 ≤ n) {source after : σ} {tally : Tally} :
    tree.sample limits n source = .ok tally after ↔
      ∃ values, tree.run limits n source = .ok values after ∧
        Tally.ofScores (values.map Value.score) = tally := by
  rw [sample_of_pos hn]
  exact Rolling.map_eq_ok

theorem tallies_of_sample (hn : 1 ≤ n) {source after : σ} {tally : Tally}
    (h : tree.sample limits n source = .ok tally after) :
    ∃ values, tree.run limits n source = .ok values after ∧
      tally.Tallies (values.map Value.score) := by
  obtain ⟨values, hvalues, rfl⟩ := (sample_eq_ok_iff hn).mp h
  exact ⟨values, hvalues, Tally.tallies_ofScores _⟩

/-- A tally of `n + m` samples is there just if those of its two parts are. -/
theorem sample_add (hn : 1 ≤ n) (hm : 1 ≤ m) {source after : σ} :
    (∃ whole, tree.sample limits (n + m) source = .ok whole after) ↔
      ∃ first middle second, tree.sample limits n source = .ok first middle ∧
        tree.sample limits m middle = .ok second after := by
  simp only [sample_eq_ok_iff hn, sample_eq_ok_iff hm,
    sample_eq_ok_iff (show 1 ≤ n + m by omega), run_add hn hm, Rolling.both_eq_ok]
  constructor
  · rintro ⟨_, _, ⟨firsts, middle, seconds, hfirsts, hseconds, -⟩, -⟩
    exact ⟨_, middle, _, ⟨firsts, hfirsts, rfl⟩, seconds, hseconds, rfl⟩
  · rintro ⟨_, middle, _, ⟨firsts, hfirsts, -⟩, seconds, hseconds, -⟩
    exact ⟨_, _, ⟨firsts, middle, seconds, hfirsts, hseconds, rfl⟩, rfl⟩

theorem joins_of_sample (hn : 1 ≤ n) (hm : 1 ≤ m) {source middle after last : σ}
    {whole first second : Tally} (hwhole : tree.sample limits (n + m) source = .ok whole last)
    (hfirst : tree.sample limits n source = .ok first middle)
    (hsecond : tree.sample limits m middle = .ok second after) : whole.Joins first second := by
  obtain ⟨values, hvalues, hall⟩ := tallies_of_sample (by omega) hwhole
  obtain ⟨firsts, hfirsts, hbefore⟩ := tallies_of_sample hn hfirst
  obtain ⟨seconds, hseconds, hbehind⟩ := tallies_of_sample hm hsecond
  have hboth : tree.run limits (n + m) source = .ok (firsts ++ seconds) after := by
    rw [run_add hn hm]
    exact Rolling.both_eq_ok.mpr ⟨firsts, middle, seconds, hfirsts, hseconds, rfl⟩
  cases hvalues.symm.trans hboth
  rw [List.map_append] at hall
  exact hall.joins hbefore hbehind

/-- A tally is there just if the runs are, and otherwise there is the fault of the runs. It counts
the scores of their values. Runs in a row are one batch, and their tallies add up. -/
theorem sample_tallies_run (limits : Limits) (tree : Expression) {n : Int} (hn : 1 ≤ n)
    (source : σ) :
    (∀ after, (∃ tally, tree.sample limits n source = .ok tally after) ↔
      ∃ values, tree.run limits n source = .ok values after) ∧
    (∀ fault after, tree.sample limits n source = .error fault after ↔
      tree.run limits n source = .error fault after) ∧
    (∀ tally after, tree.sample limits n source = .ok tally after →
      ∃ values, tree.run limits n source = .ok values after ∧ (values.length : Int) = n ∧
        tally.Tallies (values.map Value.score)) ∧
    ∀ m, 1 ≤ m →
      tree.run limits (n + m) source =
        (do let first ← tree.run limits n
            let second ← tree.run limits m
            return first ++ second : Rolling σ (List Value)) source ∧
      (∀ after, (∃ whole, tree.sample limits (n + m) source = .ok whole after) ↔
        ∃ first middle second, tree.sample limits n source = .ok first middle ∧
          tree.sample limits m middle = .ok second after) ∧
      ∀ whole first second middle after last,
        tree.sample limits (n + m) source = .ok whole last →
        tree.sample limits n source = .ok first middle →
        tree.sample limits m middle = .ok second after → whole.Joins first second := by
  refine ⟨fun after => ?_, fun fault after => ?_, fun tally after h => ?_, fun m hm => ?_⟩
  · simp [sample_eq_ok_iff hn]
  · rw [sample_of_pos hn]
    exact Rolling.map_eq_error
  · obtain ⟨values, hvalues, htallies⟩ := tallies_of_sample hn h
    exact ⟨values, hvalues, length_of_run hn hvalues, htallies⟩
  · refine ⟨by rw [run_add hn hm], fun after => sample_add hn hm, ?_⟩
    intro whole first second middle after last hwhole hfirst hsecond
    exact joins_of_sample hn hm hwhole hfirst hsecond

theorem sample_tallies_run_twice :
    (1 : Int) ≤ 3 ∧ ∃ whole first second middle after,
      sample {} (.pool ⟨1, 6, none, none⟩) 5 (Replay.ofList [4, 2, 4, 6, 4]) = .ok whole after ∧
      sample {} (.pool ⟨1, 6, none, none⟩) 3 (Replay.ofList [4, 2, 4, 6, 4]) = .ok first middle ∧
      sample {} (.pool ⟨1, 6, none, none⟩) 2 middle = .ok second after ∧
      whole = ⟨[(2, 1), (4, 3), (6, 1)], 5⟩ ∧ whole.Joins first second := by
  have hwhole : sample {} (.pool ⟨1, 6, none, none⟩) (3 + 2) (Replay.ofList [4, 2, 4, 6, 4]) =
      .ok ⟨[(2, 1), (4, 3), (6, 1)], 5⟩ ⟨5, []⟩ := by
    cbv
  obtain ⟨_, _, _, hcompose⟩ := sample_tallies_run {} (.pool ⟨1, 6, none, none⟩)
    (show (1 : Int) ≤ 3 by decide) (Replay.ofList [4, 2, 4, 6, 4])
  obtain ⟨_, hparts, hjoins⟩ := hcompose 2 (by decide)
  obtain ⟨first, middle, second, hfirst, hsecond⟩ := (hparts _).mp ⟨_, hwhole⟩
  exact ⟨by decide, _, first, second, middle, _, hwhole, hfirst, hsecond, rfl,
    hjoins _ _ _ _ _ _ hwhole hfirst hsecond⟩

end Expression

end DiceNotation
