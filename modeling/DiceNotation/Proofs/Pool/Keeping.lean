import DiceNotation.Pool.Selection
import Mathlib.Data.List.Sort

/-!
# Kept dice

The dice that are kept by rank. Each such selection keeps a block of a ranking of all dice, so the
values of the dice that it keeps are a block of all values in ascending order. Equal dice may
stand on both sides of a cut. Which of them are kept does not matter for the values.
-/

namespace DiceNotation.Selection

def ascending (values : List Int) : List Int := values.mergeSort (· ≤ ·)

def valuesOf (status : Status) (dice : List Die) : List Int :=
  (dice.filter (·.status = status)).map (·.value)

/-- The selected dice are the given ones, but for their status. Of all values in ascending order
those of the kept dice are the `kept` ones behind the first `low`, and in front of the last
`high`. -/
structure Keeps (low kept high : Nat) (dice selected : List Die) : Prop where
  length : dice.length = low + kept + high
  same : selected.map (fun die => (die.value, die.negative)) =
    dice.map (fun die => (die.value, die.negative))
  status : ∀ die ∈ selected, die.status = .kept ∨ die.status = .discarded
  count : (selected.filter (·.status = .kept)).length = kept
  values : ascending (valuesOf .kept selected) =
    ((ascending (dice.map (·.value))).drop low).take kept
  discarded : ascending (valuesOf .discarded selected) =
    (ascending (dice.map (·.value))).take low ++ (ascending (dice.map (·.value))).drop (low + kept)

theorem ascending_eq_of_perm {sorted values : List Int} (hperm : sorted.Perm values)
    (hsorted : sorted.Pairwise (· ≤ ·)) : ascending values = sorted :=
  List.Perm.eq_of_pairwise' (pairwise_mergeSort_le values) hsorted
    ((List.mergeSort_perm values _).trans hperm.symm)

theorem plain_of_same {dice selected : List Die}
    (hsame : selected.map (fun die => (die.value, die.negative)) =
      dice.map fun die => (die.value, die.negative))
    (hplain : ∀ die ∈ dice, die.negative = false) : ∀ die ∈ selected, die.negative = false := by
  intro die hdie
  have hmem : (die.value, die.negative) ∈ selected.map fun die => (die.value, die.negative) :=
    List.mem_map_of_mem hdie
  rw [hsame] at hmem
  obtain ⟨original, horiginal, hpair⟩ := List.mem_map.mp hmem
  exact (congrArg Prod.snd hpair).symm.trans (hplain original horiginal)

/-! ### Dice kept at their places -/

def statusAt (places : List Nat) (place : Nat) : Status :=
  if place ∈ places then .kept else .discarded

section Places

variable {places : List Nat} {dice : List Die}

theorem keepAt_eq_map (places : List Nat) (dice : List Die) :
    keepAt places dice =
      dice.zipIdx.map fun entry => { entry.1 with status := statusAt places entry.2 } := by
  simp only [keepAt_eq_mapIdx, List.mapIdx_eq_zipIdx_map, List.contains_iff_mem, statusAt]

theorem map_zipIdx {α : Type} (f : Die → α) (dice : List Die) :
    (dice.zipIdx.map fun entry => f entry.1) = dice.map f :=
  calc
    _ = (dice.zipIdx.map Prod.fst).map f := List.map_map.symm
    _ = dice.map f := by rw [List.zipIdx_map_fst]

theorem valuesOf_keepAt (places : List Nat) (dice : List Die) (status : Status) :
    valuesOf status (keepAt places dice) =
      (dice.zipIdx.filter fun entry => statusAt places entry.2 = status).map (·.1.value) := by
  rw [valuesOf, keepAt_eq_map, List.filter_map, List.map_map]
  rfl

theorem keepAt_eq_self (hkept : ∀ die ∈ dice, die.status = .kept)
    (hplaces : ∀ place < dice.length, place ∈ places) : keepAt places dice = dice := by
  have hsame : ∀ die ∈ dice, { die with status := .kept } = die := by
    rintro ⟨value, status, negative⟩ hdie
    obtain rfl : status = .kept := hkept _ hdie
    rfl
  rw [keepAt_eq_mapIdx]
  refine List.ext_getElem (by simp) fun i _ hi => ?_
  rw [List.getElem_mapIdx, if_pos (List.contains_iff_mem.mpr (hplaces i hi))]
  exact hsame _ (List.getElem_mem hi)

variable {low block high : List (Die × Nat)}

/-- The places of a part of a ranking tell this part from the rest of it. -/
theorem filter_statusAt (hnodup : ((low ++ block ++ high).map (·.2)).Nodup)
    (hplaces : ∀ place, place ∈ places ↔ place ∈ block.map (·.2)) :
    (low ++ block ++ high).filter (fun entry => statusAt places entry.2 = .kept) = block ∧
      (low ++ block ++ high).filter (fun entry => statusAt places entry.2 = .discarded) =
        low ++ high := by
  rw [List.map_append, List.map_append, List.nodup_append, List.nodup_append] at hnodup
  obtain ⟨⟨_, _, hlow⟩, _, hhigh⟩ := hnodup
  have hblock : ∀ entry ∈ block, statusAt places entry.2 = .kept := fun entry hentry =>
    if_pos ((hplaces _).mpr (List.mem_map_of_mem hentry))
  have hbelow : ∀ entry ∈ low, statusAt places entry.2 = .discarded := fun entry hentry =>
    if_neg fun hmem => hlow _ (List.mem_map_of_mem hentry) _ ((hplaces _).mp hmem) rfl
  have habove : ∀ entry ∈ high, statusAt places entry.2 = .discarded := fun entry hentry =>
    if_neg fun hmem =>
      hhigh _ (List.mem_append_right _ ((hplaces _).mp hmem)) _ (List.mem_map_of_mem hentry) rfl
  simp only [List.filter_append]
  constructor
  · rw [List.filter_eq_nil_iff.mpr (by simp +contextual [hbelow]),
      List.filter_eq_self.mpr (by simpa using hblock),
      List.filter_eq_nil_iff.mpr (by simp +contextual [habove]), List.nil_append, List.append_nil]
  · rw [List.filter_eq_self.mpr (by simpa using hbelow),
      List.filter_eq_nil_iff.mpr (by simp +contextual [hblock]),
      List.filter_eq_self.mpr (by simpa using habove), List.append_nil]

theorem perm_filter_statusAt (hperm : (low ++ block ++ high).Perm dice.zipIdx)
    (hplaces : ∀ place, place ∈ places ↔ place ∈ block.map (·.2)) :
    block.Perm (dice.zipIdx.filter fun entry => statusAt places entry.2 = .kept) ∧
      (low ++ high).Perm
        (dice.zipIdx.filter fun entry => statusAt places entry.2 = .discarded) := by
  have hnodup : ((low ++ block ++ high).map (·.2)).Nodup := by
    rw [(hperm.map _).nodup_iff, List.zipIdx_map_snd]
    exact List.nodup_range'
  obtain ⟨hkept, hdiscarded⟩ := filter_statusAt hnodup hplaces
  exact ⟨hkept ▸ hperm.filter _, hdiscarded ▸ hperm.filter _⟩

/-- To keep the places of a block of a ranking by ascending values is to keep its values. -/
theorem keeps_keepAt (hperm : (low ++ block ++ high).Perm dice.zipIdx)
    (hsorted : (low ++ block ++ high).Pairwise (fun a b => a.1.value ≤ b.1.value))
    (hplaces : ∀ place, place ∈ places ↔ place ∈ block.map (·.2)) :
    Keeps low.length block.length high.length dice (keepAt places dice) := by
  obtain ⟨hkept, hdiscarded⟩ := perm_filter_statusAt hperm hplaces
  have hvalues : ascending (dice.map (·.value)) =
      low.map (·.1.value) ++ block.map (·.1.value) ++ high.map (·.1.value) := by
    rw [← List.map_append, ← List.map_append]
    refine ascending_eq_of_perm ?_ (List.pairwise_map.mpr hsorted)
    exact (hperm.map _).trans (.of_eq (map_zipIdx (·.value) dice))
  have hblock : block.Pairwise (fun a b => a.1.value ≤ b.1.value) :=
    hsorted.sublist (List.sublist_append_of_sublist_left (List.sublist_append_right low block))
  have hrest : (low ++ high).Pairwise (fun a b => a.1.value ≤ b.1.value) :=
    hsorted.sublist ((List.sublist_append_left low block).append (.refl high))
  constructor
  case length => simpa [Nat.add_assoc] using hperm.length_eq.symm
  case same =>
    rw [keepAt_eq_map, List.map_map]
    exact map_zipIdx (fun die => (die.value, die.negative)) dice
  case status =>
    rw [keepAt_eq_map]
    rintro die hdie
    obtain ⟨entry, -, rfl⟩ := List.mem_map.mp hdie
    exact ite_eq_or_eq _ _ _
  case count =>
    have hlength : (valuesOf .kept (keepAt places dice)).length = block.length := by
      rw [valuesOf_keepAt, List.length_map, hkept.length_eq]
    rwa [valuesOf, List.length_map] at hlength
  case values =>
    rw [valuesOf_keepAt, ascending_eq_of_perm (hkept.map _) (List.pairwise_map.mpr hblock), hvalues,
      List.append_assoc, List.drop_left' (by simp), List.take_left' (by simp)]
  case discarded =>
    rw [valuesOf_keepAt, ascending_eq_of_perm (hdiscarded.map _) (List.pairwise_map.mpr hrest),
      hvalues, List.drop_left' (by simp), List.append_assoc, List.take_left' (by simp),
      List.map_append]

end Places

/-! ### Rankings -/

/-- The relation has any two different values in order, and no value before itself. -/
structure IsStrict (before : Int → Int → Bool) : Prop where
  irrefl : ∀ a, ¬before a a
  trans : ∀ {a b c}, before a b → before b c → before a c
  total : ∀ a b, before a b ∨ a = b ∨ before b a

theorem isStrict_lower : IsStrict fun a b => decide (a < b) where
  irrefl a := by simp
  trans := by
    intro a b c hab hbc
    simp only [decide_eq_true_eq] at hab hbc ⊢
    exact hab.trans hbc
  total a b := by simpa using lt_trichotomy a b

theorem isStrict_higher : IsStrict fun a b => decide (b < a) where
  irrefl a := by simp
  trans := by
    intro a b c hab hbc
    simp only [decide_eq_true_eq] at hab hbc ⊢
    exact hbc.trans hab
  total a b := by
    simp only [decide_eq_true_eq]
    omega

/-- The dice of a ranking, each with its place. -/
def ranked (before : Int → Int → Bool) (dice : List Die) : List (Die × Nat) :=
  dice.zipIdx.mergeSort fun a b =>
    before a.1.value b.1.value || (a.1.value == b.1.value && a.2 ≤ b.2)

section Rankings

variable {before : Int → Int → Bool} {dice : List Die}

theorem ranking_eq_map (before : Int → Int → Bool) (dice : List Die) :
    ranking before dice = (ranked before dice).map (·.2) := rfl

theorem ranked_perm (before : Int → Int → Bool) (dice : List Die) :
    (ranked before dice).Perm dice.zipIdx := List.mergeSort_perm _ _

theorem length_ranked (before : Int → Int → Bool) (dice : List Die) :
    (ranked before dice).length = dice.length := by
  rw [(ranked_perm before dice).length_eq, List.length_zipIdx]

/-- A ranking goes by the value and, among equal values, by the place. -/
theorem pairwise_ranked (hstrict : IsStrict before) :
    (ranked before dice).Pairwise fun a b =>
      before a.1.value b.1.value ∨ a.1.value = b.1.value ∧ a.2 ≤ b.2 := by
  refine (List.pairwise_mergeSort ?_ ?_ dice.zipIdx).imp ?_
  · intro a b c hab hbc
    simp only [Bool.or_eq_true, Bool.and_eq_true, beq_iff_eq, decide_eq_true_eq] at hab hbc ⊢
    rcases hab with hab | ⟨hab, hplaces⟩
    · rcases hbc with hbc | ⟨hbc, -⟩
      · exact .inl (hstrict.trans hab hbc)
      · exact .inl (hbc ▸ hab)
    · rcases hbc with hbc | ⟨hbc, hlater⟩
      · exact .inl (hab ▸ hbc)
      · exact .inr ⟨hab.trans hbc, hplaces.trans hlater⟩
  · intro a b
    simp only [Bool.or_eq_true, Bool.and_eq_true, beq_iff_eq, decide_eq_true_eq]
    rcases hstrict.total a.1.value b.1.value with h | h | h
    · exact .inl (.inl h)
    · rcases Nat.le_total a.2 b.2 with hle | hle
      · exact .inl (.inr ⟨h, hle⟩)
      · exact .inr (.inr ⟨h.symm, hle⟩)
    · exact .inr (.inl h)
  · intro a b hab
    simpa using hab

theorem pairwise_lowestFirst (dice : List Die) :
    (ranked (fun a b => decide (a < b)) dice).Pairwise fun a b =>
      a.1.value < b.1.value ∨ a.1.value = b.1.value ∧ a.2 ≤ b.2 :=
  (pairwise_ranked isStrict_lower).imp fun h => by simpa using h

theorem pairwise_highestFirst (dice : List Die) :
    (ranked (fun a b => decide (b < a)) dice).Pairwise fun a b =>
      b.1.value < a.1.value ∨ a.1.value = b.1.value ∧ a.2 ≤ b.2 :=
  (pairwise_ranked isStrict_higher).imp fun h => by simpa using h

end Rankings

/-! ### The selections -/

section Selections

variable {dice : List Die} {count : Int} {low kept high : Nat}

theorem keeps_of_ascending {order : List (Die × Nat)} {places : List Nat}
    (hperm : order.Perm dice.zipIdx)
    (hsorted : order.Pairwise (fun a b => a.1.value ≤ b.1.value))
    (hlength : dice.length = low + kept + high)
    (hplaces : ∀ place, place ∈ places ↔ place ∈ ((order.drop low).take kept).map (·.2)) :
    Keeps low kept high dice (keepAt places dice) := by
  have hparts : order.take low ++ (order.drop low).take kept ++ (order.drop low).drop kept =
      order := by
    rw [List.append_assoc, List.take_append_drop, List.take_append_drop]
  have horder : order.length = low + kept + high := by
    rw [hperm.length_eq, List.length_zipIdx, hlength]
  have hkeeps := keeps_keepAt (by rwa [hparts]) (by rwa [hparts]) hplaces
  simp only [List.length_take, List.length_drop, horder] at hkeeps
  rwa [Nat.min_eq_left (by omega), Nat.min_eq_left (by omega), Nat.add_assoc,
    Nat.add_sub_cancel_left, Nat.add_sub_cancel_left] at hkeeps

theorem take_ranking (before : Int → Int → Bool)
    (hkept : (kept : Int) = min (max count 0) dice.length) :
    (ranking before dice).take count.toNat = (ranking before dice).take kept := by
  rw [List.take_eq_take_iff, ranking_eq_map, List.length_map, length_ranked]
  omega

theorem keeps_lowest (hkept : (kept : Int) = min (max count 0) dice.length) :
    Keeps 0 kept (dice.length - kept) dice (lowest count dice) := by
  rw [lowest, lowestFirst, take_ranking _ hkept]
  refine keeps_of_ascending (ranked_perm _ dice)
    ((pairwise_lowestFirst dice).imp fun h => by omega) (by omega) fun place => ?_
  rw [ranking_eq_map, List.drop_zero, List.map_take]

/-- From behind, the ranking that has the highest dice in front has ascending values. -/
theorem keeps_highest (hkept : (kept : Int) = min (max count 0) dice.length) :
    Keeps (dice.length - kept) kept 0 dice (highest count dice) := by
  have hblock : ∀ order : List (Die × Nat), order.length = dice.length →
      (order.reverse.drop (dice.length - kept)).take kept = (order.take kept).reverse := by
    intro order horder
    rw [List.drop_reverse, horder, Nat.sub_sub_self (by omega),
      List.take_of_length_le (by simp)]
  rw [highest, highestFirst, take_ranking _ hkept]
  refine keeps_of_ascending ((List.reverse_perm _).trans (ranked_perm _ dice))
    (List.pairwise_reverse.mpr ((pairwise_highestFirst dice).imp fun h => by omega)) (by omega)
    fun place => ?_
  rw [hblock _ (length_ranked _ dice), List.map_reverse, List.mem_reverse, List.map_take,
    ranking_eq_map]

theorem mem_lowestFirst {place : Nat} (h : place < dice.length) : place ∈ lowestFirst dice := by
  rw [lowestFirst, ranking_eq_map, ((ranked_perm _ dice).map _).mem_iff, List.zipIdx_map_snd]
  simpa using h

/-- Also where the dice are left as they are, the middle is a block of the ranking. -/
theorem middle_eq_keepAt (hdice : ∀ die ∈ dice, die.status = .kept)
    (hkept : (kept : Int) = min (max count 0) dice.length) :
    middle count dice =
      keepAt (((lowestFirst dice).drop ((dice.length - kept + 1) / 2)).take kept) dice := by
  obtain hlt | hle := Int.lt_or_le count dice.length
  · obtain rfl : kept = count.toNat := by omega
    rw [middle, if_neg (by omega)]
  · obtain rfl : kept = dice.length := by omega
    have hlength : (lowestFirst dice).length = dice.length := by
      rw [lowestFirst, ranking_eq_map, List.length_map, length_ranked]
    rw [middle, if_pos hle, Nat.sub_self, List.drop_zero, List.take_of_length_le hlength.le,
      keepAt_eq_self hdice fun _ => mem_lowestFirst]

theorem keeps_middle (hdice : ∀ die ∈ dice, die.status = .kept)
    (hkept : (kept : Int) = min (max count 0) dice.length) :
    Keeps ((dice.length - kept + 1) / 2) kept ((dice.length - kept) / 2) dice
      (middle count dice) := by
  rw [middle_eq_keepAt hdice hkept]
  refine keeps_of_ascending (ranked_perm _ dice)
    ((pairwise_lowestFirst dice).imp fun h => by omega) (by omega) fun place => ?_
  rw [lowestFirst, ranking_eq_map, List.map_take, List.map_drop]

/-- Which block of a ranking the selection keeps depends on the number of the dice alone. -/
def IsByRank (select : List Die → List Die) : Prop :=
  ∀ n : Nat, ∃ low kept high, ∀ dice : List Die, dice.length = n →
    (∀ die ∈ dice, die.status = .kept) → Keeps low kept high dice (select dice)

theorem exists_kept (count : Int) (n : Nat) : ∃ kept : Nat, (kept : Int) = min (max count 0) n :=
  ⟨(min (max count 0) n).toNat, by omega⟩

theorem isByRank_lowest (count : Int) : IsByRank (lowest count) := by
  intro n
  obtain ⟨kept, hkept⟩ := exists_kept count n
  refine ⟨0, kept, n - kept, ?_⟩
  rintro dice rfl -
  exact keeps_lowest hkept

theorem isByRank_highest (count : Int) : IsByRank (highest count) := by
  intro n
  obtain ⟨kept, hkept⟩ := exists_kept count n
  refine ⟨n - kept, kept, 0, ?_⟩
  rintro dice rfl -
  exact keeps_highest hkept

theorem isByRank_middle (count : Int) : IsByRank (middle count) := by
  intro n
  obtain ⟨kept, hkept⟩ := exists_kept count n
  refine ⟨(n - kept + 1) / 2, kept, (n - kept) / 2, ?_⟩
  rintro dice rfl hdice
  exact keeps_middle hdice hkept

/-- Each selection by rank keeps as many dice as it is asked for, none for a negative number and
all for one that is too large. Their values are the highest, the lowest, or those in the middle of
all values, where one more is dropped below than above if the number of dropped dice is odd. -/
theorem keeps_by_rank {dice : List Die} (hdice : ∀ die ∈ dice, die.status = .kept) {count : Int}
    {kept : Nat} (hkept : (kept : Int) = min (max count 0) dice.length) :
    Keeps (dice.length - kept) kept 0 dice (highest count dice) ∧
      Keeps 0 kept (dice.length - kept) dice (lowest count dice) ∧
      Keeps ((dice.length - kept + 1) / 2) kept ((dice.length - kept) / 2) dice
        (middle count dice) :=
  ⟨keeps_highest hkept, keeps_lowest hkept, keeps_middle hdice hkept⟩

theorem keeps_by_rank_ties :
    Keeps 3 2 0 ([4, 6, 4, 1, 4].map fun n => { value := n })
        (highest 2 ([4, 6, 4, 1, 4].map fun n => { value := n })) ∧
      Keeps 0 2 3 ([4, 6, 4, 1, 4].map fun n => { value := n })
        (lowest 2 ([4, 6, 4, 1, 4].map fun n => { value := n })) ∧
      Keeps 2 2 1 ([4, 6, 4, 1, 4].map fun n => { value := n })
        (middle 2 ([4, 6, 4, 1, 4].map fun n => { value := n })) := by
  have hdice : ∀ die ∈ [4, 6, 4, 1, 4].map fun n => ({ value := n } : Die),
      die.status = .kept := by decide
  have hkept : ((2 : Nat) : Int) = min (max 2 0) 5 := by decide
  exact keeps_by_rank hdice hkept

end Selections

end DiceNotation.Selection
