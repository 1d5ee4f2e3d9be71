import DiceNotation.Display
import DiceNotation.Proofs.Evaluation.Balance
import DiceNotation.Proofs.Numeral.Entry
import DiceNotation.Source.Replay
import Mathlib

/-!
# Figures of displayed values

What a reader who knows nothing of the dice finds in the text of a value: items, a total, and
perhaps a success level. The items show more than is added up, and say themselves which of them
count. The figures are read from the text alone, and they add up.
-/

namespace DiceNotation

namespace Numeral

theorem exists_sign (n : Int) :
    ∃ sign, (∀ c ∈ sign, c = '-' ∨ c = '+') ∧ text n = sign ++ Nat.toDigits 10 n.natAbs := by
  cases n with
  | ofNat m => exact ⟨[], by simp, rfl⟩
  | negSucc m => exact ⟨['-'], by simp, rfl⟩

theorem exists_sign_signedText (n : Int) :
    ∃ sign, (∀ c ∈ sign, c = '-' ∨ c = '+') ∧ signedText n = sign ++ Nat.toDigits 10 n.natAbs := by
  obtain ⟨sign, hsign, htext⟩ := exists_sign n
  unfold signedText
  split
  · exact ⟨sign, hsign, htext⟩
  · exact ⟨'+' :: sign, List.forall_mem_cons.mpr ⟨.inr rfl, hsign⟩, by rw [htext, List.cons_append]⟩

theorem checked_eq_ok_iff {numbers : List Int} {shown text : Text} :
    checked numbers shown = .ok text ↔ (∀ n ∈ numbers, fits n = true) ∧ shown = text := by
  rw [checked, ← List.all_eq_true]
  split <;> simp [*]

end Numeral

/-- The texts that a display of a roll is made of. -/
structure Figures where
  items : List Text
  total : Text
  level : Option Text
deriving DecidableEq

namespace Figures

/-- What is in front of the equals sign. -/
def front (items : List Text) : Text :=
  [',', ' '].intercalate items ++ if items.isEmpty then [] else [' ']

/-- What is behind the total. -/
def behind (level : Option Text) : Text :=
  (level.map fun level => ' ' :: '\x7b' :: level ++ ['\x7d']).getD []

def text (figures : Figures) : Text :=
  front figures.items ++ '=' :: ' ' :: (figures.total ++ behind figures.level)

def itemsOf (front : Text) : List Text :=
  let joined := front.filter (· ≠ ' ')
  if joined.isEmpty then [] else joined.splitOn ','

/-- What a reader takes for the figures of a text: the items are in front of the equals sign, and
a level is in braces behind the total. -/
def ofText (text : Text) : Figures :=
  let back := (text.dropWhile (· ≠ '=')).drop 2
  { items := itemsOf (text.takeWhile (· ≠ '='))
    total := back.takeWhile (· ≠ ' ')
    level := if ' ' ∈ back then some ((back.dropWhile (· ≠ ' ')).drop 2).dropLast else none }

/-- An item that ends in a minus sign does not count. -/
def Counts (item : Text) : Prop := item.getLast? ≠ some '-'

instance (item : Text) : Decidable (Counts item) := inferInstanceAs (Decidable (_ ≠ _))

/-- The number of an item, with or without a star behind it. -/
def number? (item : Text) : Option Int :=
  Numeral.ofArgument? (if item.getLast? = some '*' then item.dropLast else item)

/-- The numbers of the items that count add up to the total, and the total and the level are those
of the roll. -/
structure Show (figures : Figures) (roll : Roll) : Prop where
  length : figures.items.length = roll.dice.length + if roll.constant = 0 then 0 else 1
  adds : ∃ numbers : List Int,
    (figures.items.filter Counts).map number? = numbers.map some ∧
      Numeral.ofArgument? figures.total = some numbers.sum
  total : Numeral.ofArgument? figures.total = some roll.total
  level : figures.level.map Numeral.ofArgument? = roll.level.map some

/-! ### Figures that are read back -/

/-- No item is without a character, or has one that stands between items or behind them. -/
def IsItem (item : Text) : Prop := item ≠ [] ∧ ∀ c ∈ item, c ≠ ',' ∧ c ≠ ' ' ∧ c ≠ '='

theorem filter_front {items : List Text} (h : ∀ item ∈ items, IsItem item) :
    (front items).filter (· ≠ ' ') = [','].intercalate items := by
  -- what follows the items has nothing but a space, so it plays no part in the induction
  have hjoined : ([',', ' '].intercalate items).filter (· ≠ ' ') = [','].intercalate items := by
    induction items with
    | nil => rfl
    | cons item items ih =>
      obtain ⟨hitem, hitems⟩ := List.forall_mem_cons.mp h
      have hsame : item.filter (· ≠ ' ') = item :=
        List.filter_eq_self.mpr fun c hc => decide_eq_true (hitem.2 c hc).2.1
      cases items with
      | nil => simpa using hsame
      | cons next items =>
        rw [List.intercalate_cons_cons, List.intercalate_cons_cons, List.filter_append,
          List.filter_append, hsame, ih hitems]
        rfl
  rw [front, List.filter_append, hjoined]
  split <;> simp

theorem itemsOf_front {items : List Text} (h : ∀ item ∈ items, IsItem item) :
    itemsOf (front items) = items := by
  unfold itemsOf
  rw [filter_front h]
  cases items with
  | nil => rfl
  | cons item items =>
    have hne : [','].intercalate (item :: items) ≠ [] := by
      obtain ⟨c, rest, hitem⟩ := List.exists_cons_of_ne_nil (h item List.mem_cons_self).1
      cases items <;> simp [hitem]
    have hcomma : ∀ part ∈ item :: items, ',' ∉ part :=
      fun part hpart hc => ((h part hpart).2 ',' hc).1 rfl
    rw [if_neg (by simpa using hne)]
    exact List.splitOn_intercalate ',' hcomma (List.cons_ne_nil item items)

theorem ne_of_mem_front {items : List Text} (h : ∀ item ∈ items, IsItem item) :
    ∀ c ∈ front items, c ≠ '=' := by
  have hjoined : ∀ c ∈ [',', ' '].intercalate items, c ≠ '=' :=
    Text.forall_mem_intercalate (by simp) fun item hitem c hc => ((h item hitem).2 c hc).2.2
  rw [front, List.forall_mem_append]
  refine ⟨hjoined, ?_⟩
  split <;> simp

/-- Nothing is lost in the text of figures. -/
theorem ofText_text {figures : Figures} (hitems : ∀ item ∈ figures.items, IsItem item)
    (htotal : ∀ c ∈ figures.total, c ≠ ' ') : ofText figures.text = figures := by
  obtain ⟨items, total, level⟩ := figures
  dsimp only at hitems htotal
  have hfront : ∀ c ∈ front items, decide (c ≠ '=') = true :=
    fun c hc => decide_eq_true (ne_of_mem_front hitems c hc)
  have hspace : ∀ c ∈ total, decide (c ≠ ' ') = true := fun c hc => decide_eq_true (htotal c hc)
  have hback : ((text ⟨items, total, level⟩).dropWhile (· ≠ '=')).drop 2 = total ++ behind level := by
    rw [text, List.dropWhile_append_of_pos hfront, List.dropWhile_cons_of_neg (by simp)]
    rfl
  unfold ofText
  rw [hback, text, List.takeWhile_append_of_pos hfront, List.takeWhile_cons_of_neg (by simp),
    List.append_nil, itemsOf_front hitems]
  dsimp only
  rw [List.takeWhile_append_of_pos hspace, List.dropWhile_append_of_pos hspace]
  have hmem : ' ' ∉ total := fun h => htotal ' ' h rfl
  cases level with
  | none => simp [behind, hmem]
  | some level => simp [behind]

example : ofText "6, 3*, 2-, +1 = 10 \x7b3\x7d".toList =
    ⟨[['6'], ['3', '*'], ['2', '-'], ['+', '1']], ['1', '0'], some ['3']⟩ := by decide +kernel

/-! ### Items -/

/-- An item of a single number, whether or not its sign is always shown. -/
structure IsNumber (item : Text) (n : Int) : Prop where
  chars : ∀ c ∈ item, c.isDigit = true ∨ c = '-' ∨ c = '+'
  last : ∃ c, item.getLast? = some c ∧ c.isDigit = true
  read : Numeral.ofArgument? item = some n

theorem isNumber_of_sign {item sign : Text} {n : Int} (hsign : ∀ c ∈ sign, c = '-' ∨ c = '+')
    (hitem : item = sign ++ Nat.toDigits 10 n.natAbs) (hread : Numeral.ofArgument? item = some n) :
    IsNumber item n := by
  have hdigits : ∀ c ∈ Nat.toDigits 10 n.natAbs, c.isDigit = true := fun c =>
    Nat.isDigit_of_mem_toDigits (by decide) (by decide)
  refine ⟨fun c hc => ?_, ⟨(Nat.toDigits 10 n.natAbs).getLast Nat.toDigits_ne_nil, ?_, ?_⟩, hread⟩
  · rw [hitem] at hc
    exact (List.mem_append.mp hc).symm.imp (hdigits c) (hsign c)
  · rw [hitem, List.getLast?_append_of_ne_nil _ Nat.toDigits_ne_nil, List.getLast?_eq_some_getLast]
  · exact hdigits _ (List.getLast_mem _)

theorem isNumber_text {n : Int} (h : Numeral.fits n = true) : IsNumber (Numeral.text n) n := by
  obtain ⟨sign, hsign, htext⟩ := Numeral.exists_sign n
  exact isNumber_of_sign hsign htext (Numeral.ofArgument?_text h)

theorem isNumber_signedText {n : Int} (h : Numeral.fits n = true) :
    IsNumber (Numeral.signedText n) n := by
  obtain ⟨sign, hsign, htext⟩ := Numeral.exists_sign_signedText n
  exact isNumber_of_sign hsign htext (Numeral.ofArgument?_signedText h)

namespace IsNumber

variable {item : Text} {n : Int}

theorem getLast?_ne (h : IsNumber item n) {c : Char} (hc : c.isDigit = false) :
    item.getLast? ≠ some c := by
  obtain ⟨last, hlast, hdigit⟩ := h.last
  rw [hlast, ne_eq, Option.some.injEq]
  exact Numeral.ne_of_ascii hdigit hc

theorem number?_eq (h : IsNumber item n) : number? item = some n := by
  rw [number?, if_neg (h.getLast?_ne (by decide)), h.read]

theorem counts (h : IsNumber item n) : Counts item := h.getLast?_ne (by decide)

theorem isItem (h : IsNumber item n) {mark : Text} (hmark : ∀ c ∈ mark, c = '-' ∨ c = '*') :
    IsItem (item ++ mark) := by
  obtain ⟨last, hlast, -⟩ := h.last
  have hne : item ≠ [] := by
    rintro rfl
    cases hlast
  refine ⟨List.append_ne_nil_of_left_ne_nil hne mark, fun c hc => ?_⟩
  obtain hc | hc := List.mem_append.mp hc
  · obtain hdigit | rfl | rfl := h.chars c hc
    · exact ⟨Numeral.ne_of_ascii hdigit (by decide), Numeral.ne_of_ascii hdigit (by decide),
        Numeral.ne_of_ascii hdigit (by decide)⟩
    · decide
    · decide
  · obtain rfl | rfl := hmark c hc <;> decide

end IsNumber

end Figures

open Figures

namespace Die

variable {die : Die}

theorem fits_signed (h : Numeral.fits die.value = true) : Numeral.fits die.signed = true := by
  rw [Numeral.fits_iff] at h ⊢
  unfold signed
  split
  · rwa [Int.natAbs_neg]
  · exact h

theorem counts_text (h : Numeral.fits die.value = true) :
    Counts die.text ↔ die.status ≠ .discarded := by
  have hnumber := isNumber_text (fits_signed h)
  unfold text
  cases hstatus : die.status with
  | kept => simpa [Status.mark] using hnumber.counts
  | discarded => simp [Status.mark, Counts]
  | bonus => simp [Status.mark, Counts]

theorem number?_text (h : Numeral.fits die.value = true) (hstatus : die.status ≠ .discarded) :
    number? die.text = some die.signed := by
  have hnumber := isNumber_text (fits_signed h)
  unfold text
  cases hmark : die.status with
  | kept => simpa [Status.mark] using hnumber.number?_eq
  | discarded => exact absurd hmark hstatus
  | bonus => simpa [Status.mark, number?] using hnumber.read

theorem isItem_text (h : Numeral.fits die.value = true) : IsItem die.text := by
  refine (isNumber_text (fits_signed h)).isItem fun c hc => ?_
  cases hstatus : die.status <;> simp_all [Status.mark]

/-- Only the items of dice that are not discarded have numbers to be added. -/
theorem exists_numbers {dice : List Die} (h : ∀ die ∈ dice, Numeral.fits die.value = true) :
    ∃ numbers : List Int, ((dice.map text).filter Counts).map number? = numbers.map some ∧
      numbers.sum = total dice := by
  induction dice with
  | nil => exact ⟨[], rfl, rfl⟩
  | cons die dice ih =>
    obtain ⟨hdie, hdice⟩ := List.forall_mem_cons.mp h
    obtain ⟨numbers, hnumbers, hsum⟩ := ih hdice
    by_cases hstatus : die.status = .discarded
    · have hcounts : ¬ Counts die.text := fun h => (counts_text hdie).mp h hstatus
      refine ⟨numbers, ?_, ?_⟩
      · rw [List.map_cons, List.filter_cons_of_neg (by simpa using hcounts), hnumbers]
      · rw [hsum, total_cons, contribution, if_pos hstatus, Int.zero_add]
    · have hcounts : Counts die.text := (counts_text hdie).mpr hstatus
      refine ⟨die.signed :: numbers, ?_, ?_⟩
      · rw [List.map_cons, List.filter_cons_of_pos (by simpa using hcounts), List.map_cons,
          number?_text hdie hstatus, hnumbers, List.map_cons]
      · rw [List.sum_cons, hsum, total_cons, contribution, if_neg hstatus]

end Die

namespace Roll

variable {roll : Roll}

def figures (roll : Roll) : Figures :=
  ⟨roll.items, Numeral.text roll.total, roll.level.map Numeral.text⟩

theorem text_figures (roll : Roll) : roll.figures.text = roll.text := by
  unfold Figures.text Roll.text levelText figures
  cases roll.level <;> cases roll.items <;> simp [front, behind]

theorem isItem_of_mem_items (hfits : ∀ n ∈ roll.numbers, Numeral.fits n = true) :
    ∀ item ∈ roll.items, IsItem item := by
  obtain ⟨hdice, hrest⟩ := List.forall_mem_append.mp hfits
  rw [List.forall_mem_map] at hdice
  rw [items, List.forall_mem_append, List.forall_mem_map]
  refine ⟨fun die hdie => Die.isItem_text (hdice die hdie), ?_⟩
  split
  · exact List.forall_mem_nil _
  · have hmark : ∀ c ∈ ([] : Text), c = '-' ∨ c = '*' := by simp
    have hnumber := isNumber_signedText (hrest roll.constant List.mem_cons_self)
    simpa using hnumber.isItem hmark

theorem ofText_text (hfits : ∀ n ∈ roll.numbers, Numeral.fits n = true) :
    ofText roll.text = roll.figures := by
  rw [← text_figures]
  refine Figures.ofText_text (isItem_of_mem_items hfits) fun c hc => ?_
  obtain hdigit | rfl := Numeral.cases_of_mem_text hc
  · exact Numeral.ne_of_ascii hdigit (by decide)
  · decide

theorem exists_numbers (hbalanced : roll.IsBalanced)
    (hfits : ∀ n ∈ roll.numbers, Numeral.fits n = true) :
    ∃ numbers : List Int, (roll.items.filter Counts).map number? = numbers.map some ∧
      numbers.sum = roll.total := by
  obtain ⟨hdice, hrest⟩ := List.forall_mem_append.mp hfits
  rw [List.forall_mem_map] at hdice
  obtain ⟨numbers, hnumbers, hsum⟩ := Die.exists_numbers hdice
  rw [isBalanced_iff] at hbalanced
  rw [items, List.filter_append, List.map_append, hnumbers]
  by_cases hzero : roll.constant = 0
  · refine ⟨numbers, ?_, ?_⟩
    · simp [hzero]
    · rw [hsum, hbalanced, hzero, Int.add_zero]
  · have hnumber := isNumber_signedText (hrest roll.constant List.mem_cons_self)
    refine ⟨numbers ++ [roll.constant], ?_, ?_⟩
    · simp [hzero, hnumber.counts, hnumber.number?_eq]
    · rw [List.sum_append, List.sum_singleton, hsum, hbalanced]

theorem show_figures (hbalanced : roll.IsBalanced)
    (hfits : ∀ n ∈ roll.numbers, Numeral.fits n = true) : roll.figures.Show roll := by
  obtain ⟨htotal, hlevel⟩ :=
    List.forall_mem_cons.mp (List.forall_mem_cons.mp (List.forall_mem_append.mp hfits).2).2
  have hread : Numeral.ofArgument? (Numeral.text roll.total) = some roll.total :=
    Numeral.ofArgument?_text htotal
  refine ⟨?_, ?_, hread, ?_⟩
  · change roll.items.length = _
    rw [items, List.length_append, List.length_map]
    split <;> rfl
  · obtain ⟨numbers, hnumbers, hsum⟩ := exists_numbers hbalanced hfits
    exact ⟨numbers, hnumbers, hsum ▸ hread⟩
  · change (roll.level.map Numeral.text).map Numeral.ofArgument? = roll.level.map some
    cases hsome : roll.level with
    | none => rfl
    | some level =>
      have hfits : Numeral.fits level = true := hlevel level (by simp [hsome])
      exact congrArg some (Numeral.ofArgument?_text hfits)

end Roll

/-! ### Displays of evaluations -/

/-- The text shows the roll, in figures that add up. -/
structure Displays (roll : Roll) (text : Text) : Prop where
  layout : (Figures.ofText text).text = text
  figures : (Figures.ofText text).Show roll

namespace Value

theorem Agrees.displays {tree : Expression} {value : Value} {text : Text} (h : value.Agrees tree)
    (hwrite : value.write = .ok text) : Displays value.roll text := by
  obtain ⟨hfits, rfl⟩ := Numeral.checked_eq_ok_iff.mp hwrite
  cases value with
  | plain roll =>
    change Displays roll roll.text
    have hread : Figures.ofText roll.text = roll.figures := Roll.ofText_text hfits
    refine ⟨?_, ?_⟩
    · rw [hread, roll.text_figures]
    · rw [hread]
      exact Roll.show_figures h.balanced hfits
  | versus roll left right => cases h.operands

theorem write_comparison {left right : Value} {relation : Relation} {text : Text}
    (h : (left.comparison relation right).write = .ok text) :
    ∃ first second result, left.write = .ok first ∧ right.write = .ok second ∧
      text = first ++ [' ', '<', '>', ' '] ++ second ++ [' ', '=', ' '] ++ result ∧
      Numeral.ofArgument? result = some (left.comparison relation right).roll.total := by
  obtain ⟨hfits, rfl⟩ := Numeral.checked_eq_ok_iff.mp h
  obtain ⟨hsides, hresult⟩ := List.forall_mem_append.mp hfits
  obtain ⟨hleft, hright⟩ := List.forall_mem_append.mp hsides
  exact ⟨left.text, right.text, _, Numeral.checked_eq_ok_iff.mpr ⟨hleft, rfl⟩,
    Numeral.checked_eq_ok_iff.mpr ⟨hright, rfl⟩, rfl,
    Numeral.ofArgument?_text (hresult _ (List.mem_singleton_self _))⟩

end Value

/-- Where an evaluation without comparisons is written, its text shows figures that add up; a
comparison is written as the texts of its sides and of what they compare to. -/
theorem evaluate_displays {σ : Type} [Source σ] {limits : Limits} {tree : Expression}
    {source after : σ} {value : Value} {text : Text}
    (h : tree.evaluate limits source = .ok value after) (hwrite : value.write = .ok text) :
    (tree.IsComparisonFree → Displays value.roll text) ∧
    ∀ left relation right, tree = .comparison left relation right →
      ∃ first middle second, left.evaluate limits source = .ok first middle ∧
        right.evaluate limits middle = .ok second after ∧
        value = first.comparison relation second ∧
        ∃ firstText secondText result,
          first.write = .ok firstText ∧ (left.IsComparisonFree → Displays first.roll firstText) ∧
          second.write = .ok secondText ∧
          (right.IsComparisonFree → Displays second.roll secondText) ∧
          text = firstText ++ [' ', '<', '>', ' '] ++ secondText ++ [' ', '=', ' '] ++ result ∧
          Numeral.ofArgument? result = some value.roll.total := by
  have hevaluates := evaluate_eq_ok_iff.mp h
  refine ⟨fun hfree => (hevaluates.agrees hfree).displays hwrite, ?_⟩
  rintro left relation right rfl
  cases hevaluates with
  | comparison _ hleft hright =>
    obtain ⟨firstText, secondText, result, hfirst, hsecond, htext, hresult⟩ :=
      Value.write_comparison hwrite
    exact ⟨_, _, _, evaluate_of_evaluates hleft, evaluate_of_evaluates hright, rfl, firstText,
      secondText, result, hfirst, fun hfree => (hleft.agrees hfree).displays hfirst, hsecond,
      fun hfree => (hright.agrees hfree).displays hsecond, htext, hresult⟩

theorem evaluate_displays_replay :
    (∃ value after text, Expression.evaluate {} (.success (.difference (.difference
        (.pool ⟨2, 6, some (.takeHigh 1), none⟩) (.pool ⟨1, 6, some (.explode none false), none⟩))
        (.number 1)) (-7) 1) (Replay.ofList [2, 5, 6, 3]) = .ok value after ∧
      value.write = .ok text ∧ text = "2-, 5, -6, -3*, -1 = -5 \x7b3\x7d".toList ∧
      Displays value.roll text) ∧
    ∃ value after text, Expression.evaluate {} (.comparison (.pool ⟨1, 6, none, none⟩) .order
        (.success (.number 4) 3 1)) (Replay.ofList [1]) = .ok value after ∧
      value.write = .ok text ∧ text = "1 = 1 <> +4 = 4 \x7b2\x7d = -1".toList ∧
      ∃ first second result, Displays ⟨[⟨1, .kept, false⟩], 1, 0, none⟩ first ∧
        Displays ⟨[], 4, 4, some 2⟩ second ∧
        text = first ++ [' ', '<', '>', ' '] ++ second ++ [' ', '=', ' '] ++ result := by
  have hplain : Expression.evaluate {} (.success (.difference (.difference
      (.pool ⟨2, 6, some (.takeHigh 1), none⟩) (.pool ⟨1, 6, some (.explode none false), none⟩))
      (.number 1)) (-7) 1) (Replay.ofList [2, 5, 6, 3]) =
        .ok (.plain ⟨[⟨2, .discarded, false⟩, ⟨5, .kept, false⟩, ⟨6, .kept, true⟩,
          ⟨3, .bonus, true⟩], -5, -1, some 3⟩) ⟨4, []⟩ := by
    cbv
  have hcomparison : Expression.evaluate {} (.comparison (.pool ⟨1, 6, none, none⟩) .order
      (.success (.number 4) 3 1)) (Replay.ofList [1]) =
        .ok (.versus ⟨[], -1, 0, none⟩ (.plain ⟨[⟨1, .kept, false⟩], 1, 0, none⟩)
          (.plain ⟨[], 4, 4, some 2⟩)) ⟨1, []⟩ := by
    cbv
  have hwritten : (Value.plain ⟨[⟨2, .discarded, false⟩, ⟨5, .kept, false⟩, ⟨6, .kept, true⟩,
      ⟨3, .bonus, true⟩], -5, -1, some 3⟩).write =
        .ok "2-, 5, -6, -3*, -1 = -5 \x7b3\x7d".toList := by
    decide +kernel
  have hversus : (Value.versus ⟨[], -1, 0, none⟩ (.plain ⟨[⟨1, .kept, false⟩], 1, 0, none⟩)
      (.plain ⟨[], 4, 4, some 2⟩)).write = .ok "1 = 1 <> +4 = 4 \x7b2\x7d = -1".toList := by
    decide +kernel
  obtain ⟨_, _, _, _, _, hvalue, first, second, result, -, hleft, -, hright, htext, -⟩ :=
    (evaluate_displays hcomparison hversus).2 _ _ _ rfl
  obtain ⟨-, rfl, rfl⟩ := Value.versus.inj hvalue
  exact ⟨⟨_, _, _, hplain, hwritten, rfl,
      (evaluate_displays hplain hwritten).1 ⟨⟨trivial, trivial⟩, trivial⟩⟩,
    _, _, _, hcomparison, hversus, rfl, first, second, result, hleft trivial, hright trivial, htext⟩

end DiceNotation
