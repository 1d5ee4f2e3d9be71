import DiceNotation.Proofs.Pool.Faces
import DiceNotation.Proofs.Pool.Keeping

/-!
# Standings

Where a die stands in a ranking, told by counting: behind all dice of a value that comes first and
behind the earlier dice of its own value. A selection by rank keeps the dice whose standings are in
one block.
-/

namespace DiceNotation.Selection

/-- How many dice stand before a die of this value that was rolled at this place. -/
def standing (before : Int → Int → Bool) (values : List Int) (value : Int) (place : Nat) : Nat :=
  values.countP (before · value) + (values.take place).count value

/-- Just the dice are kept that stand in the block of `kept` ones behind the first `low`. -/
def KeepsBlock (before : Int → Int → Bool) (low kept : Nat) (dice : List Die) : Prop :=
  ∀ ⦃place : Nat⦄ ⦃die : Die⦄, dice[place]? = some die →
    (die.status = .kept ↔
      low ≤ standing before (dice.map (·.value)) die.value place ∧
        standing before (dice.map (·.value)) die.value place < low + kept)

/-! ### Places in a ranking -/

/-- The order of a ranking: by the value, and by the place where the values are equal. -/
def Precedes (before : Int → Int → Bool) (a b : Die × Nat) : Prop :=
  before a.1.value b.1.value ∨ a.1.value = b.1.value ∧ a.2 < b.2

instance (before : Int → Int → Bool) (a b : Die × Nat) : Decidable (Precedes before a b) :=
  inferInstanceAs (Decidable (_ ∨ _))

section Rankings

variable {before : Int → Int → Bool} {dice : List Die} {die : Die} {place low kept : Nat}

theorem Precedes.asymm (hstrict : IsStrict before) {a b : Die × Nat} (h : Precedes before a b) :
    ¬Precedes before b a := by
  rintro (hba | ⟨hba, hlater⟩)
  · rcases h with hab | ⟨hab, -⟩
    · exact hstrict.irrefl _ (hstrict.trans hab hba)
    · exact hstrict.irrefl _ (hab ▸ hba)
  · rcases h with hab | ⟨-, hplaces⟩
    · exact hstrict.irrefl _ (hba ▸ hab)
    · omega

theorem nodup_ranking (before : Int → Int → Bool) (dice : List Die) :
    (ranking before dice).Nodup := by
  rw [ranking_eq_map, ((ranked_perm before dice).map _).nodup_iff, List.zipIdx_map_snd]
  exact List.nodup_range'

theorem pairwise_precedes (hstrict : IsStrict before) (dice : List Die) :
    (ranked before dice).Pairwise (Precedes before) := by
  have hplaces : (ranked before dice).Pairwise fun a b => a.2 ≠ b.2 :=
    List.pairwise_map.mp (nodup_ranking before dice)
  refine ((pairwise_ranked hstrict).and hplaces).imp ?_
  rintro a b ⟨hab | ⟨hvalues, hle⟩, hne⟩
  · exact .inl hab
  · exact .inr ⟨hvalues, by omega⟩

/-- In a list that is strictly in order, as many entries are before an entry as its place says. -/
theorem countP_precedes (hstrict : IsStrict before) {order : List (Die × Nat)}
    (h : order.Pairwise (Precedes before)) {i : Nat} (hi : i < order.length) :
    order.countP (fun entry => Precedes before entry order[i]) = i := by
  induction h generalizing i with
  | nil => cases hi
  | @cons first order hfirst horder ih =>
    cases i with
    | zero =>
      rw [List.countP_eq_zero]
      simp only [List.getElem_cons_zero, decide_eq_true_eq]
      intro entry hentry hprecedes
      rcases List.mem_cons.mp hentry with rfl | hentry
      · exact hprecedes.asymm hstrict hprecedes
      · exact hprecedes.asymm hstrict (hfirst entry hentry)
    | succ i =>
      have hi : i < order.length := Nat.lt_of_succ_lt_succ hi
      have hbefore : Precedes before first order[i] := hfirst _ (List.getElem_mem hi)
      simp only [List.getElem_cons_succ]
      rw [List.countP_cons_of_pos (by simpa using hbefore), ih hi]

theorem countP_zipIdx (hstrict : IsStrict before) (dice : List Die) (start : Nat)
    (entry : Die × Nat) :
    (dice.zipIdx start).countP (fun other => Precedes before other entry) =
      (dice.map (·.value)).countP (before · entry.1.value) +
        ((dice.map (·.value)).take (entry.2 - start)).count entry.1.value := by
  induction dice generalizing start with
  | nil => simp
  | cons first dice ih =>
    have hfirst : Precedes before (first, start) entry ↔
        before first.value entry.1.value ∨ first.value = entry.1.value ∧ start < entry.2 := .rfl
    rw [List.zipIdx_cons, List.countP_cons, ih, List.map_cons, List.countP_cons]
    simp only [hfirst, decide_eq_true_eq]
    -- A die counts by its value or by its place, but not by both.
    have hirrefl := hstrict.irrefl entry.1.value
    obtain hlt | hle := Nat.lt_or_ge start entry.2
    · rw [show entry.2 - start = (entry.2 - (start + 1)) + 1 by omega, List.take_succ_cons,
        List.count_cons]
      by_cases hvalue : first.value = entry.1.value
      · simp only [hvalue, hirrefl, hlt, and_self, or_true, if_true, if_false, BEq.rfl,
          Bool.false_eq_true, Nat.add_zero]
        omega
      · simp only [hvalue, false_and, or_false, beq_iff_eq, if_false, Nat.add_zero]
        omega
    · rw [Nat.sub_eq_zero_of_le hle, Nat.sub_eq_zero_of_le (by omega), List.take_zero,
        List.take_zero]
      simp [Nat.not_lt.mpr hle]

/-- In a ranking each place is found where the die at this place stands. -/
theorem getElem?_ranking (hstrict : IsStrict before) (h : dice[place]? = some die) :
    (ranking before dice)[standing before (dice.map (·.value)) die.value place]? =
      some place := by
  have hmem : (die, place) ∈ ranked before dice :=
    (ranked_perm before dice).mem_iff.mpr (List.mem_zipIdx_iff_getElem?.mpr h)
  obtain ⟨i, hi, hentry⟩ := List.getElem_of_mem hmem
  have hstanding : standing before (dice.map (·.value)) die.value place = i := by
    rw [← countP_precedes hstrict (pairwise_precedes hstrict dice) hi, hentry,
      (ranked_perm before dice).countP_eq, countP_zipIdx hstrict]
    rfl
  rw [hstanding, ranking_eq_map, List.getElem?_map, List.getElem?_eq_getElem hi, hentry]
  rfl

/-- Every standing is that of a die. -/
theorem exists_standing (hstrict : IsStrict before) {i : Nat} (h : i < dice.length) :
    ∃ place die, dice[place]? = some die ∧
      standing before (dice.map (·.value)) die.value place = i := by
  have hi : i < (ranked before dice).length := by rwa [length_ranked]
  obtain ⟨⟨die, place⟩, hentry⟩ : ∃ entry, (ranked before dice)[i] = entry := ⟨_, rfl⟩
  have hmem : (die, place) ∈ dice.zipIdx :=
    (ranked_perm before dice).mem_iff.mp (hentry ▸ List.getElem_mem hi)
  have hdie : dice[place]? = some die := List.mem_zipIdx_iff_getElem?.mp hmem
  have hplace : (ranking before dice)[i]? = some place := by
    rw [ranking_eq_map, List.getElem?_map, List.getElem?_eq_getElem hi, hentry]
    rfl
  obtain ⟨hlt, -⟩ := List.getElem?_eq_some_iff.mp hplace
  have hsame := hplace.trans (getElem?_ranking hstrict hdie).symm
  exact ⟨place, die, hdie, ((List.getElem?_inj hlt (nodup_ranking before dice)).mp hsame).symm⟩

theorem mem_block_iff {places : List Nat} (hnodup : places.Nodup) {i : Nat}
    (h : places[i]? = some place) :
    place ∈ (places.drop low).take kept ↔ low ≤ i ∧ i < low + kept := by
  obtain ⟨hi, hplace⟩ := List.getElem?_eq_some_iff.mp h
  rw [List.mem_iff_getElem?]
  constructor
  · rintro ⟨n, hn⟩
    rw [List.getElem?_take, List.getElem?_drop] at hn
    split at hn
    next hlt =>
      have : i = low + n := (List.getElem?_inj hi hnodup).mp (h.trans hn.symm)
      omega
    next => cases hn
  · rintro ⟨hlow, hlt⟩
    refine ⟨i - low, ?_⟩
    rw [List.getElem?_take, if_pos (by omega), List.getElem?_drop, Nat.add_sub_of_le hlow, h]

end Rankings

/-! ### The selections -/

section Selections

variable {before : Int → Int → Bool} {dice : List Die} {count : Int} {low kept : Nat}

theorem keepsBlock_keepAt (hstrict : IsStrict before) :
    KeepsBlock before low kept
      (keepAt (((ranking before dice).drop low).take kept) dice) := by
  intro place die hdie
  rw [map_value_keepAt]
  rw [keepAt_eq_mapIdx, List.getElem?_mapIdx, Option.map_eq_some_iff] at hdie
  obtain ⟨die, hdie, rfl⟩ := hdie
  rw [← mem_block_iff (nodup_ranking before dice) (getElem?_ranking hstrict hdie),
    ← List.contains_iff_mem]
  simp

theorem keepsBlock_lowest (count : Int) (dice : List Die) :
    KeepsBlock (fun a b => decide (a < b)) 0 count.toNat (lowest count dice) :=
  keepsBlock_keepAt isStrict_lower

theorem keepsBlock_highest (count : Int) (dice : List Die) :
    KeepsBlock (fun a b => decide (b < a)) 0 count.toNat (highest count dice) :=
  keepsBlock_keepAt isStrict_higher

theorem keepsBlock_middle (hdice : ∀ die ∈ dice, die.status = .kept)
    (hkept : (kept : Int) = min (max count 0) dice.length) :
    KeepsBlock (fun a b => decide (a < b)) ((dice.length - kept + 1) / 2) kept
      (middle count dice) := by
  rw [middle_eq_keepAt hdice hkept]
  exact keepsBlock_keepAt isStrict_lower

end Selections

end DiceNotation.Selection
