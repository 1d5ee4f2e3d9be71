import DiceNotation.Binary64
import DiceNotation.Fault
import DiceNotation.Occurrences

/-!
# Tallies

How often each score came up. A tally of scores lists them in ascending order; one that is made
of entries keeps their order and takes any counts and any number of samples as they are.
-/

namespace DiceNotation

structure Tally where
  /-- Each score once, with its count. -/
  counts : List (Int × Int)
  samples : Int
deriving DecidableEq

namespace Tally

def ofScores (scores : List Int) : Tally where
  counts := (occurrences scores).map fun (score, count) => (score, (count : Int))
  samples := scores.length

/-- The list with the score's count replaced, or with the score added at its end. -/
def put (score count : Int) : List (Int × Int) → List (Int × Int)
  | [] => [(score, count)]
  | (first, old) :: rest =>
    if first = score then (first, count) :: rest else (first, old) :: put score count rest

def ofEntries (entries : List (Int × Int)) (samples : Int) : Tally where
  counts := entries.foldl (fun counts (score, count) => put score count counts) []
  samples := samples

def scores (tally : Tally) : List Int := tally.counts.map (·.1)

/-- The count of a score, which is zero if the score did not come up. -/
def countOf (tally : Tally) (score : Int) : Int := (tally.counts.lookup score).getD 0

def minimum (tally : Tally) : Except TallyFault Int :=
  match tally.scores.min? with
  | some least => .ok least
  | none => .error .noMinimum

def maximum (tally : Tally) : Except TallyFault Int :=
  match tally.scores.max? with
  | some greatest => .ok greatest
  | none => .error .noMaximum

def maxCount (tally : Tally) : Except TallyFault Int :=
  match (tally.counts.map (·.2)).max? with
  | some greatest => .ok greatest
  | none => .error .noMaximum

/-- All scores from the least to the greatest, whether or not they came up. -/
def range (tally : Tally) : Except TallyFault (List Int) := do
  let least ← tally.minimum
  let greatest ← tally.maximum
  return (List.range (greatest + 1 - least).toNat).map fun (offset : Nat) => least + offset

/-- Each score with the samples that remain when the counts of the scores before it are taken
away from `samples`. -/
def remaindersFrom (tally : Tally) (samples : Int) (scores : List Int) : List (Int × Int) :=
  (scores.foldl
    (fun (done, remaining) score =>
      ((score, remaining) :: done, remaining - tally.countOf score))
    (([] : List (Int × Int)), samples)).1.reverse

/-- Each score with the samples that remain at it. For ascending scores this is the number of
samples that are at least the score. -/
def remainders (tally : Tally) (scores : List Int) : List (Int × Int) :=
  tally.remaindersFrom tally.samples scores

@[simp] theorem remaindersFrom_nil (tally : Tally) (samples : Int) :
    tally.remaindersFrom samples [] = [] := rfl

theorem remaindersFrom_cons (tally : Tally) (samples score : Int) (scores : List Int) :
    tally.remaindersFrom samples (score :: scores) =
      (score, samples) :: tally.remaindersFrom (samples - tally.countOf score) scores := by
  have hfold : ∀ (scores : List Int) (done : List (Int × Int)) (remaining : Int),
      (scores.foldl
        (fun (done, remaining) score =>
          ((score, remaining) :: done, remaining - tally.countOf score))
        (done, remaining)).1.reverse = done.reverse ++ tally.remaindersFrom remaining scores := by
    intro scores
    induction scores with
    | nil => simp
    | cons score scores ih =>
      intro done remaining
      rw [remaindersFrom, List.foldl_cons, List.foldl_cons, ih, ih]
      simp
  exact hfold scores [(score, samples)] (samples - tally.countOf score)

def share (tally : Tally) (count : Int) : Except TallyFault Binary64 :=
  if tally.samples = 0 then .error .noSamples
  else
    match Binary64.ofQuotient count tally.samples with
    | .infinite _ => .error .hugeShare
    | share => .ok share

def shareAt (tally : Tally) (entry : Int × Int) : Except TallyFault (Int × Binary64) :=
  (entry.1, ·) <$> tally.share entry.2

def sharesOf (tally : Tally) (scores : List Int) : Except TallyFault (List (Int × Binary64)) :=
  (tally.remainders scores).mapM tally.shareAt

/-- The share of samples at or above each score that came up. -/
def atLeast (tally : Tally) : Except TallyFault (List (Int × Binary64)) :=
  tally.sharesOf tally.scores

/-- The shares of `n` scores in a row from `score` on, behind those that are `done`, last one
first. The scores behind a share that fails are not looked at. -/
def sharesFrom (tally : Tally) :
    Nat → Int → Int → List (Int × Binary64) → Except TallyFault (List (Int × Binary64))
  | 0, _, _, done => .ok done.reverse
  | n + 1, score, remaining, done => do
    let share ← tally.share remaining
    tally.sharesFrom n (score + 1) (remaining - tally.countOf score) ((score, share) :: done)

/-- The share of samples at or above each score of the range. -/
def filled (tally : Tally) : Except TallyFault (List (Int × Binary64)) := do
  let least ← tally.minimum
  let greatest ← tally.maximum
  tally.sharesFrom (greatest + 1 - least).toNat least tally.samples []

theorem sharesFrom_eq (tally : Tally) (n : Nat) (score remaining : Int)
    (done : List (Int × Binary64)) :
    tally.sharesFrom n score remaining done =
      (done.reverse ++ ·) <$>
        (tally.remaindersFrom remaining
          ((List.range n).map fun (offset : Nat) => score + offset)).mapM tally.shareAt := by
  induction n generalizing score remaining done with
  | zero => simp [sharesFrom, pure, Except.pure, Functor.map, Except.map]
  | succ n ih =>
    have hrange : (List.range (n + 1)).map (fun (offset : Nat) => score + offset) =
        score :: (List.range n).map fun (offset : Nat) => score + 1 + offset := by
      rw [List.range_succ_eq_map, List.map_cons, List.map_map]
      congr 1
      · simp
      · apply List.map_congr_left
        intro offset _
        simp only [Function.comp, Nat.succ_eq_add_one]
        omega
    rw [hrange, remaindersFrom_cons, List.mapM_cons, sharesFrom, shareAt]
    cases tally.share remaining with
    | error fault => rfl
    | ok share =>
      simp only [bind, Except.bind, Functor.map, Except.map] at ih ⊢
      rw [ih]
      generalize List.mapM tally.shareAt _ = rest
      cases rest <;> simp [pure, Except.pure]

/-- The scores of the range are looked at one by one, but their shares are those that all of them
have together. -/
theorem filled_eq_sharesOf (tally : Tally) :
    tally.filled = (do tally.sharesOf (← tally.range)) := by
  unfold filled range
  cases tally.minimum with
  | error fault => rfl
  | ok least =>
    cases tally.maximum with
    | error fault => rfl
    | ok greatest =>
      simp only [bind, Except.bind, pure, Except.pure, sharesOf, remainders, sharesFrom_eq]
      generalize List.mapM tally.shareAt _ = shares
      cases shares <;> simp [Functor.map, Except.map]

end Tally

end DiceNotation
