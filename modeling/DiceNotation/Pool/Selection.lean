import DiceNotation.Die
import DiceNotation.Occurrences

/-!
# Selections

Which of the rolled dice are kept. A selection changes no die but for its status and leaves the
dice in the order in which they were rolled; among equal dice the earlier one is preferred. Pools
can be large, so no selection looks through all of the dice for each of them.
-/

namespace DiceNotation.Selection

/-- For each of `n` places, whether it is among the given ones. -/
def marks (places : List Nat) (n : Nat) : Array Bool :=
  places.foldl (fun marked place => marked.setIfInBounds place true) (Array.replicate n false)

theorem getElem?_marks {places : List Nat} {n i : Nat} (h : i < n) :
    (marks places n)[i]? = some (places.contains i) := by
  have hfold : ∀ (places : List Nat) (marked : Array Bool), i < marked.size →
      (places.foldl (fun marked place => marked.setIfInBounds place true) marked)[i]? =
        marked[i]?.map (· || places.contains i) := by
    intro places
    induction places with
    | nil => simp
    | cons place places ih =>
      intro marked hi
      rw [List.foldl_cons, ih _ (by simpa using hi), Array.getElem?_setIfInBounds]
      by_cases heq : place = i
      · subst heq
        simp [hi]
      · have : i ≠ place := fun h => heq h.symm
        simp [heq, this]
  rw [marks, hfold places _ (by simpa using h)]
  simp [h]

/-- The dice with those at the given places kept, and all others discarded. -/
def keepAt (places : List Nat) (dice : List Die) : List Die :=
  let marked := marks places dice.length
  dice.mapIdx fun i die =>
    { die with status := if marked[i]? = some true then .kept else .discarded }

theorem keepAt_eq_mapIdx (places : List Nat) (dice : List Die) :
    keepAt places dice =
      dice.mapIdx fun i die =>
        { die with status := if places.contains i then .kept else .discarded } := by
  apply List.ext_getElem?
  intro i
  rw [keepAt, List.getElem?_mapIdx, List.getElem?_mapIdx]
  by_cases h : i < dice.length
  · simp [getElem?_marks h]
  · simp [List.getElem?_eq_none (Nat.le_of_not_lt h)]

/-- The dice with those that show the face kept, and all others discarded. -/
def keepFace (face : Int) (dice : List Die) : List Die :=
  dice.map fun die => { die with status := if die.value = face then .kept else .discarded }

def discardAll (dice : List Die) : List Die :=
  dice.map fun die => { die with status := .discarded }

/-- The places of the dice, ordered by the value and then by the place itself. -/
def ranking (before : Int → Int → Bool) (dice : List Die) : List Nat :=
  (dice.zipIdx.mergeSort fun a b =>
    before a.1.value b.1.value || (a.1.value == b.1.value && a.2 ≤ b.2)).map (·.2)

def lowestFirst (dice : List Die) : List Nat := ranking (fun a b => decide (a < b)) dice

def highestFirst (dice : List Die) : List Nat := ranking (fun a b => decide (b < a)) dice

def lowest (count : Int) (dice : List Die) : List Die :=
  keepAt ((lowestFirst dice).take count.toNat) dice

def highest (count : Int) (dice : List Die) : List Die :=
  keepAt ((highestFirst dice).take count.toNat) dice

/-- Keeps the dice in the middle. If as many cannot be dropped on both sides, one more low die is
dropped. -/
def middle (count : Int) (dice : List Die) : List Die :=
  if dice.length ≤ count then dice
  else
    let low := (dice.length - count.toNat + 1) / 2
    keepAt (((lowestFirst dice).drop low).take count.toNat) dice

/-- The larger of two groups of equal faces, each a face and a number of dice. Of two that are
equally large it is the second. -/
def largerGroup (a b : Int × Nat) : Int × Nat := if a.2 ≤ b.2 then b else a

/-- The face of the largest group, the highest face of those that are equally large. -/
def bestFace? (faces : List Int) : Option Int :=
  match occurrences faces with
  | [] => none
  | first :: groups => some (groups.foldl largerGroup first).1

theorem foldl_largerGroup {groups : List (Int × Nat)} {first : Int × Nat}
    (h : (first :: groups).Pairwise (fun a b => a.1 < b.1)) :
    groups.foldl largerGroup first ∈ first :: groups ∧
      ∀ group ∈ first :: groups, group.2 < (groups.foldl largerGroup first).2 ∨
        group.2 = (groups.foldl largerGroup first).2 ∧
          group.1 ≤ (groups.foldl largerGroup first).1 := by
  induction groups generalizing first with
  | nil =>
    refine ⟨List.mem_cons_self, fun group hgroup => .inr ?_⟩
    rw [List.mem_singleton.mp hgroup]
    exact ⟨rfl, Int.le_refl _⟩
  | cons second groups ih =>
    obtain ⟨hfirst, hrest⟩ := List.pairwise_cons.mp h
    have hlt := hfirst second List.mem_cons_self
    rw [List.foldl_cons, largerGroup]
    split
    next hle =>
      obtain ⟨hmem, hbest⟩ := ih hrest
      refine ⟨List.mem_cons_of_mem _ hmem, fun group hgroup => ?_⟩
      rcases List.mem_cons.mp hgroup with rfl | hgroup
      · have := hbest second List.mem_cons_self
        omega
      · exact hbest group hgroup
    next hnot =>
      obtain ⟨_, hgroups⟩ := List.pairwise_cons.mp hrest
      have hpairwise : (first :: groups).Pairwise (fun a b => a.1 < b.1) :=
        List.pairwise_cons.mpr
          ⟨fun group hgroup => hfirst group (List.mem_cons_of_mem _ hgroup), hgroups⟩
      obtain ⟨hmem, hbest⟩ := ih hpairwise
      refine ⟨?_, fun group hgroup => ?_⟩
      · rcases List.mem_cons.mp hmem with hmem | hmem
        · exact List.mem_cons.mpr (.inl hmem)
        · exact List.mem_cons_of_mem _ (List.mem_cons_of_mem _ hmem)
      · rcases List.mem_cons.mp hgroup with rfl | hgroup
        · exact hbest _ List.mem_cons_self
        · rcases List.mem_cons.mp hgroup with rfl | hgroup
          · have := hbest first List.mem_cons_self
            omega
          · exact hbest group (List.mem_cons_of_mem _ hgroup)

theorem bestFace?_eq_none_iff {faces : List Int} : bestFace? faces = none ↔ faces = [] := by
  unfold bestFace?
  cases hgroups : occurrences faces with
  | nil =>
    refine ⟨fun _ => List.eq_nil_iff_forall_not_mem.mpr fun face hface => ?_, fun _ => rfl⟩
    have := mem_occurrences_iff.mpr ⟨hface, rfl⟩
    rw [hgroups] at this
    cases this
  | cons first groups =>
    refine ⟨nofun, fun h => ?_⟩
    have : (first.1, first.2) ∈ occurrences faces := hgroups ▸ List.mem_cons_self
    rw [mem_occurrences_iff, h] at this
    cases this.1

/-- The best face is one of the faces. Each of them has fewer dice than it, or as many and is not
higher. -/
theorem bestFace?_spec {faces : List Int} {best : Int} (h : bestFace? faces = some best) :
    best ∈ faces ∧ ∀ face ∈ faces, faces.count face < faces.count best ∨
      faces.count face = faces.count best ∧ face ≤ best := by
  unfold bestFace? at h
  cases hgroups : occurrences faces with
  | nil =>
    rw [hgroups] at h
    cases h
  | cons first groups =>
    rw [hgroups] at h
    cases h
    have hpairwise := pairwise_occurrences faces
    rw [hgroups] at hpairwise
    obtain ⟨hmem, hbest⟩ := foldl_largerGroup hpairwise
    rw [← hgroups] at hmem hbest
    obtain ⟨hface, hcount⟩ := mem_occurrences_iff.mp hmem
    refine ⟨hface, fun face hface => ?_⟩
    have := hbest (face, faces.count face) (mem_occurrences_iff.mpr ⟨hface, rfl⟩)
    rwa [hcount] at this

def bestGroup (dice : List Die) : List Die :=
  match bestFace? (dice.map (·.value)) with
  | none => dice
  | some face => keepFace face dice

/-- Keeps the set of dice with the better total, the first one if the totals are equal. -/
def betterSet (high : Bool) (first second : List Die) : List Die :=
  let firstWins :=
    if high then Die.total second ≤ Die.total first else Die.total first ≤ Die.total second
  if firstWins then first ++ discardAll second else discardAll first ++ second

end DiceNotation.Selection
