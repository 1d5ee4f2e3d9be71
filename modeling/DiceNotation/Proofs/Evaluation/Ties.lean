import DiceNotation.Proofs.Evaluation.Dice
import DiceNotation.Proofs.Evaluation.Faces
import DiceNotation.Proofs.Pool.Standing

/-!
# Ties

Which of several equal dice a selection by rank keeps. Where it drops dice above those that it
keeps, the earlier ones are kept. Where it drops dice below them, the earlier ones are the lower
ones and are dropped. Of the three selections only that of the middle does this on both sides, so it
alone may keep a die and drop an earlier one that shows the same.
-/

namespace DiceNotation

namespace Selection

/-- The dice at both places show the value, and only the one at the first place is kept. -/
structure Prefers (dice : List Die) (value : Int) (place other : Nat) : Prop where
  chosen : ∃ die, dice[place]? = some die ∧ die.value = value ∧ die.status = .kept
  passed : ∃ die, dice[other]? = some die ∧ die.value = value ∧ die.status ≠ .kept

/-- Of two dice that show the same, if just one is kept it is the one that was rolled earlier. -/
def EarlierWins (dice : List Die) : Prop :=
  ∀ ⦃value : Int⦄ ⦃place other : Nat⦄, Prefers dice value place other → place < other

/-- Of some faces that are equal a part is among the lowest `low` ones, and a part is not. -/
def SplitsAt (low : Nat) (faces : List Int) : Prop :=
  ∃ face, faces.countP (· < face) < low ∧ low < faces.countP (· ≤ face)

theorem SplitsAt.length_pos {low : Nat} {faces : List Int} (h : SplitsAt low faces) :
    0 < faces.length := by
  obtain ⟨face, -, hlt⟩ := h
  exact Nat.lt_of_lt_of_le (Nat.zero_lt_of_lt hlt) List.countP_le_length

/-! ### Standings of equal dice -/

section Standings

variable {before : Int → Int → Bool} {values : List Int} {value other : Int} {i j place : Nat}

/-- Of equal values the one that stands before the other is the earlier one. -/
theorem lt_of_standing_lt (h : standing before values value i < standing before values value j) :
    i < j := by
  have hcount : (values.take i).count value < (values.take j).count value := by
    unfold standing at h
    omega
  by_contra hle
  have hprefix : values.take j <+: values.take i := List.take_prefix_take_left (by omega)
  have := hprefix.sublist.count_le value
  omega

theorem countP_le_eq (values : List Int) (value : Int) :
    values.countP (· ≤ value) = values.countP (· < value) + values.count value := by
  induction values with
  | nil => rfl
  | cons first values ih =>
    simp only [List.countP_cons, List.count_cons, ih, decide_eq_true_eq, beq_iff_eq]
    split_ifs <;> omega

theorem countP_le_standing (values : List Int) (value : Int) (place : Nat) :
    values.countP (· < value) ≤ standing (fun a b => decide (a < b)) values value place :=
  Nat.le_add_right _ _

theorem standing_lt_countP (h : values[place]? = some value) :
    standing (fun a b => decide (a < b)) values value place < values.countP (· ≤ value) := by
  have hmem : value ∈ values.drop place := by
    rw [List.mem_iff_getElem?]
    exact ⟨0, by rwa [List.getElem?_drop, Nat.add_zero]⟩
  have hpos := List.count_pos_iff.mpr hmem
  have hsplit : (values.take place).count value + (values.drop place).count value =
      values.count value := by
    rw [← List.count_append, List.take_append_drop]
  rw [countP_le_eq, standing]
  omega

/-- All standings between those of the lower and of the higher dice are of dice of the value. -/
theorem eq_of_standing (h : values[place]? = some other)
    (hle : values.countP (· < value) ≤ standing (fun a b => decide (a < b)) values other place)
    (hlt : standing (fun a b => decide (a < b)) values other place < values.countP (· ≤ value)) :
    other = value := by
  obtain hlower | heq | hhigher := lt_trichotomy other value
  · have hmono : values.countP (· ≤ other) ≤ values.countP (· < value) :=
      List.countP_mono_left fun a _ ha => by
        simp only [decide_eq_true_eq] at ha ⊢
        omega
    have := standing_lt_countP h
    omega
  · exact heq
  · have hmono : values.countP (· ≤ value) ≤ values.countP (· < other) :=
      List.countP_mono_left fun a _ ha => by
        simp only [decide_eq_true_eq] at ha ⊢
        omega
    have := countP_le_standing values other place
    omega

end Standings

/-! ### Blocks -/

section Blocks

variable {before : Int → Int → Bool} {dice : List Die} {value : Int} {place other low kept : Nat}

/-- The die that is passed over stands either below the block or above it. In the first case it is
the earlier one, in the second the later one. -/
theorem KeepsBlock.lt_iff (h : KeepsBlock before low kept dice)
    (hprefers : Prefers dice value place other) :
    place < other ↔ low ≤ standing before (dice.map (·.value)) value other := by
  obtain ⟨⟨chosen, hchosen, rfl, hkept⟩, passed, hpassed, hvalue, hnot⟩ := hprefers
  have hin := (h hchosen).mp hkept
  have hout := (h hpassed).not.mp hnot
  rw [hvalue] at hout
  constructor
  · intro hlt
    by_contra hlow
    have hless : standing before (dice.map (·.value)) chosen.value other <
        standing before (dice.map (·.value)) chosen.value place := by omega
    have := lt_of_standing_lt hless
    omega
  · intro hlow
    have hless : standing before (dice.map (·.value)) chosen.value place <
        standing before (dice.map (·.value)) chosen.value other := by omega
    exact lt_of_standing_lt hless

theorem KeepsBlock.earlierWins (h : KeepsBlock before 0 kept dice) : EarlierWins dice :=
  fun _ _ _ hprefers => (h.lt_iff hprefers).mpr (Nat.zero_le _)

/-- Of equal dice on both sides of the lower end the last one below it was rolled earlier than the
first one above it. -/
theorem exists_prefers_of_splitsAt (h : KeepsBlock (fun a b => decide (a < b)) low kept dice)
    (hkept : 0 < kept) (hsplits : SplitsAt low (dice.map (·.value))) :
    ∃ value place other, Prefers dice value place other ∧ other < place := by
  obtain ⟨face, hbelow, habove⟩ := hsplits
  have hlength : (dice.map (·.value)).countP (· ≤ face) ≤ (dice.map (·.value)).length :=
    List.countP_le_length
  rw [List.length_map] at hlength
  have hshows : ∀ {place die i}, dice[place]? = some die →
      standing (fun a b => decide (a < b)) (dice.map (·.value)) die.value place = i →
      (dice.map (·.value)).countP (· < face) ≤ i → i < (dice.map (·.value)).countP (· ≤ face) →
      die.value = face := by
    rintro place die _ hdie rfl hle hlt
    have hvalue : (dice.map (·.value))[place]? = some die.value := by
      rw [List.getElem?_map, hdie]
      rfl
    exact eq_of_standing hvalue hle hlt
  obtain ⟨other, passed, hpassed, hlast⟩ :=
    exists_standing isStrict_lower (show low - 1 < dice.length by omega)
  obtain ⟨place, chosen, hchosen, hfirst⟩ :=
    exists_standing isStrict_lower (show low < dice.length by omega)
  obtain rfl := hshows hpassed hlast (by omega) (by omega)
  have hsame := hshows hchosen hfirst (by omega) (by omega)
  have hin := (h hchosen).mpr (by omega)
  have hout := (h hpassed).not.mpr (by omega)
  rw [hsame] at hfirst
  have hless : standing (fun a b => decide (a < b)) (dice.map (·.value)) passed.value other <
      standing (fun a b => decide (a < b)) (dice.map (·.value)) passed.value place := by omega
  exact ⟨passed.value, place, other, ⟨⟨chosen, hchosen, hsame, hin⟩, passed, hpassed, rfl, hout⟩,
    lt_of_standing_lt hless⟩

/-- A block of the ranking from the lowest die on keeps the earlier ones of equal dice just if it
does not begin between equal dice. -/
theorem KeepsBlock.earlierWins_iff (h : KeepsBlock (fun a b => decide (a < b)) low kept dice) :
    EarlierWins dice ↔ ¬(0 < kept ∧ SplitsAt low (dice.map (·.value))) := by
  constructor
  · rintro hwins ⟨hkept, hsplits⟩
    obtain ⟨value, place, other, hprefers, hlt⟩ := exists_prefers_of_splitsAt h hkept hsplits
    have := hwins hprefers
    omega
  · intro hnot value place other hprefers
    rw [h.lt_iff hprefers]
    by_contra hlow
    obtain ⟨⟨chosen, hchosen, hvalue, hkept⟩, passed, hpassed, rfl, -⟩ := hprefers
    have hin := (h hchosen).mp hkept
    rw [hvalue] at hin
    refine hnot ⟨by omega, passed.value, ?_, ?_⟩
    · have := countP_le_standing (dice.map (·.value)) passed.value other
      omega
    · have hplace : (dice.map (·.value))[place]? = some passed.value := by
        rw [List.getElem?_map, hchosen]
        exact congrArg some hvalue
      have := standing_lt_countP hplace
      omega

end Blocks

/-- How many dice are dropped below those in the middle. -/
def droppedBelow (count : Int) (n : Nat) : Nat := (n - count.toNat + 1) / 2

theorem keepsBlock_of_middle {dice : List Die} (hdice : ∀ die ∈ dice, die.status = .kept)
    (count : Int) :
    KeepsBlock (fun a b => decide (a < b)) (droppedBelow count dice.length)
      (min count.toNat dice.length) (middle count dice) := by
  have hkept : ((min count.toNat dice.length : Nat) : Int) = min (max count 0) dice.length := by
    omega
  have hlow : droppedBelow count dice.length =
      (dice.length - min count.toNat dice.length + 1) / 2 := by
    unfold droppedBelow
    omega
  rw [hlow]
  exact keepsBlock_middle hdice hkept

end Selection

namespace Pool

open Selection

variable {σ : Type} [Source σ] {source after : σ} {value : Value}

/-- The dice are shown as they were rolled. Among equal dice the highest and the lowest are taken
from the earlier ones on. The dice in the middle are so too, unless their lower end is between equal
dice: it is always an earlier die that is dropped below them. -/
theorem evaluate_ties {limits : Limits} {pool : Pool} {count : Int}
    (hmodifier : pool.modifier = some (.takeLow count) ∨ pool.modifier = some (.takeHigh count) ∨
      pool.modifier = some (.takeMiddle count))
    (h : (Expression.pool pool).evaluate limits source = .ok value after) :
    ∃ faces : List Int, Source.Gives source (faces.map (Throw.mk pool.sides)) after ∧
      value.roll.dice.map (·.value) = faces ∧
      (pool.modifier ≠ some (.takeMiddle count) → EarlierWins value.roll.dice) ∧
      (pool.modifier = some (.takeMiddle count) →
        (EarlierWins value.roll.dice ↔
          ¬(0 < count ∧ SplitsAt (droppedBelow count faces.length) faces)) ∧
        ∀ face place other, Prefers value.roll.dice face place other →
          (place < other ↔ droppedBelow count faces.length ≤
            standing (fun a b => decide (a < b)) faces face other)) := by
  obtain ⟨-, faces, dice, hgives, hshows, rfl⟩ := evaluate_eq_ok_iff_shows.mp h
  refine ⟨faces, hgives, ?_⟩
  have hfaces := map_value_showing .kept faces
  rcases hmodifier with hmodifier | hmodifier | hmodifier
  · obtain rfl := hshows.eq_select (by rw [hmodifier]; rfl)
    refine ⟨(map_value_keepAt _ _).trans hfaces, fun _ => (keepsBlock_lowest _ _).earlierWins, ?_⟩
    intro hmiddle
    cases hmodifier.symm.trans hmiddle
  · obtain rfl := hshows.eq_select (by rw [hmodifier]; rfl)
    refine ⟨(map_value_keepAt _ _).trans hfaces, fun _ => (keepsBlock_highest _ _).earlierWins, ?_⟩
    intro hmiddle
    cases hmodifier.symm.trans hmiddle
  · obtain rfl := hshows.eq_select (by rw [hmodifier]; rfl)
    have hvalues := (map_value_middle count _).trans hfaces
    have hkept : ∀ die ∈ faces.map (Die.showing .kept), die.status = .kept := by
      simp [Die.showing]
    have hblock := keepsBlock_of_middle hkept count
    rw [List.length_map] at hblock
    refine ⟨hvalues, fun hnot => absurd hmodifier hnot, fun _ => ⟨?_, ?_⟩⟩
    · refine hblock.earlierWins_iff.trans (not_congr ?_)
      rw [hvalues]
      refine and_congr_left fun hsplits => ?_
      have := hsplits.length_pos
      omega
    · intro face place other hprefers
      have hiff := hblock.lt_iff hprefers
      rwa [hvalues] at hiff

theorem evaluate_ties_middle :
    ∃ value after, Expression.evaluate {} (.pool ⟨3, 6, some (.takeMiddle 1), none⟩)
        (Replay.ofList [4, 4, 4]) = .ok value after ∧
      value.roll.dice.map (·.status) = [.discarded, .kept, .discarded] ∧
      ¬EarlierWins value.roll.dice := by
  have hvalue : Expression.evaluate {} (.pool ⟨3, 6, some (.takeMiddle 1), none⟩)
      (Replay.ofList [4, 4, 4]) =
        .ok (.plain ⟨[⟨4, .discarded, false⟩, ⟨4, .kept, false⟩, ⟨4, .discarded, false⟩], 4, 0,
          none⟩) ⟨3, []⟩ := by
    cbv
  obtain ⟨faces, _, rfl, _, hmiddle⟩ := evaluate_ties (.inr (.inr rfl)) hvalue
  refine ⟨_, _, hvalue, rfl, fun hwins => (hmiddle rfl).1.mp hwins ?_⟩
  exact ⟨by decide, 4, by decide, by decide⟩

end Pool

end DiceNotation
