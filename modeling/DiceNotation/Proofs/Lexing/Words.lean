import DiceNotation.Lexeme
import DiceNotation.Proofs.Text.Margins

/-!
# The longest word

The words of dice notation, and the first lexeme of a text as the longest word that the text
begins with. How the table of words is ordered matters for this fact alone: what follows from it
depends only on which words a text begins with.
-/

namespace DiceNotation

namespace Lexeme

/-- Numbers in any digits, and the entries of the table. -/
def IsWord : Lexeme → Prop
  | .number digits => digits ≠ [] ∧ ∀ c ∈ digits, Text.isDigit c = true
  | lexeme => lexeme ∈ fixed

theorem IsWord.cases {word : Lexeme} (h : word.IsWord) :
    (∃ digits, word = .number digits ∧ digits ≠ [] ∧ ∀ c ∈ digits, Text.isDigit c = true) ∨
      word ∈ fixed := by
  cases word with
  | number digits => exact .inl ⟨digits, rfl, h⟩
  | _ => exact .inr h

theorem isWord_of_mem_fixed {word : Lexeme} (h : word ∈ fixed) : word.IsWord := by
  cases word with
  | number digits =>
    have hnone : ∀ other ∈ fixed, ∀ digits, other ≠ .number digits := by
      simp [fixed]
    exact absurd rfl (hnone _ h digits)
  | _ => exact h

theorem isWord_symbol (sign : Symbol) : (symbol sign).IsWord := by
  cases sign <;> exact isWord_of_mem_fixed (by decide)

theorem isWord_keyword (word : Keyword) : (keyword word).IsWord := by
  cases word <;> exact isWord_of_mem_fixed (by decide)

theorem percent_mem_fixed (size : Percentile) : percent size ∈ fixed := by
  cases size <;> decide

theorem isDigit_of_mem_fixed : ∀ word ∈ fixed, ∀ c ∈ word.text, Text.isDigit c = false := by
  have hall : (fixed.all fun word => word.text.all fun c => !Text.isDigit c) = true := by decide
  simpa using hall

theorem isBlank_of_mem_fixed : ∀ word ∈ fixed, ∀ c ∈ word.text, Text.isBlank c = false := by
  have hall : (fixed.all fun word => word.text.all fun c => !Text.isBlank c) = true := by decide
  simpa using hall

/-- No entry of the table is a beginning of a later one. -/
theorem pairwise_fixed :
    fixed.Pairwise fun earlier later => ¬ earlier.text <+: later.text := by
  decide

theorem IsWord.text_ne_nil {word : Lexeme} (h : word.IsWord) : word.text ≠ [] := by
  obtain ⟨digits, rfl, hne, _⟩ | hmem := h.cases
  · exact hne
  · exact text_ne_nil_of_mem_fixed word hmem

theorem IsWord.isBlank {word : Lexeme} (h : word.IsWord) :
    ∀ c ∈ word.text, Text.isBlank c = false := by
  obtain ⟨digits, rfl, _, hdigits⟩ | hmem := h.cases
  · exact fun c hc => Text.isBlank_of_isDigit (hdigits c hc)
  · exact isBlank_of_mem_fixed word hmem

/-- A word is a number or an entry of the table as its first character is a digit or not. -/
theorem IsWord.mem_fixed {word : Lexeme} (h : word.IsWord) {c : Char} {rest : Text}
    (htext : word.text <+: c :: rest) (hc : Text.isDigit c = false) : word ∈ fixed := by
  obtain ⟨digits, rfl, hne, hdigits⟩ | hmem := h.cases
  · obtain ⟨first, digits, rfl⟩ := List.exists_cons_of_ne_nil hne
    obtain ⟨rfl, _⟩ := List.cons_prefix_cons.mp htext
    exact absurd (hdigits _ List.mem_cons_self) (by simp [hc])
  · exact hmem

theorem IsWord.eq_number {word : Lexeme} (h : word.IsWord) {c : Char} {rest : Text}
    (htext : word.text <+: c :: rest) (hc : Text.isDigit c = true) :
    ∃ digits, word = .number digits ∧ ∀ c ∈ digits, Text.isDigit c = true := by
  obtain ⟨digits, rfl, _, hdigits⟩ | hmem := h.cases
  · exact ⟨digits, rfl, hdigits⟩
  · obtain ⟨first, tail, heq⟩ := List.exists_cons_of_ne_nil (text_ne_nil_of_mem_fixed word hmem)
    rw [heq] at htext
    obtain ⟨rfl, _⟩ := List.cons_prefix_cons.mp htext
    have hnot := isDigit_of_mem_fixed word hmem first (by simp [heq])
    exact absurd hc (by simp [hnot])

/-- The lexeme is the longest word that the text begins with, or the first character of a text
that begins with no word. -/
def Longest (text : Text) (lexeme : Lexeme) : Prop :=
  (lexeme.IsWord ∧ lexeme.text <+: text ∧
    ∀ word : Lexeme, word.IsWord → word.text <+: text → word.text.length ≤ lexeme.text.length) ∨
  ∃ c, lexeme = .unknown c ∧ text.head? = some c ∧
    ∀ word : Lexeme, word.IsWord → ¬ word.text <+: text

theorem prefix_takeWhile {p : Char → Bool} {front text : Text} (h : front <+: text)
    (hfront : ∀ c ∈ front, p c = true) : front <+: text.takeWhile p := by
  obtain ⟨rest, rfl⟩ := h
  rw [List.takeWhile_append_of_pos hfront]
  exact List.prefix_append _ _

theorem longest_first (c : Char) (rest : Text) : Longest (c :: rest) (first c rest) := by
  unfold first
  split
  next hdigit =>
    refine .inl ⟨⟨List.cons_ne_nil _ _, ?_⟩, ?_, ?_⟩
    · intro d hd
      obtain rfl | hd := List.mem_cons.mp hd
      · exact hdigit
      · exact List.mem_takeWhile_imp hd
    · exact (List.prefix_cons_inj c).mpr (List.takeWhile_prefix _)
    · intro word hword hstart
      obtain ⟨digits, rfl, hdigits⟩ := hword.eq_number hstart hdigit
      have hlength := (prefix_takeWhile hstart hdigits).length_le
      rwa [List.takeWhile_cons_of_pos hdigit] at hlength
  next hdigit =>
    have hdigit : Text.isDigit c = false := by simpa using hdigit
    cases hfind : fixed.find? fun lexeme => lexeme.text.isPrefixOf (c :: rest) with
    | none =>
      refine .inr ⟨c, rfl, rfl, ?_⟩
      intro word hword hstart
      have hnot := List.find?_eq_none.mp hfind word (hword.mem_fixed hstart hdigit)
      exact hnot (List.isPrefixOf_iff_prefix.mpr hstart)
    | some found =>
      obtain ⟨hfound, earlier, later, hsplit, hearlier⟩ := List.find?_eq_some_iff_append.mp hfind
      have hfoundStart := List.isPrefixOf_iff_prefix.mp hfound
      refine .inl ⟨isWord_of_mem_fixed (List.mem_of_find?_eq_some hfind), hfoundStart, ?_⟩
      intro word hword hstart
      have hmem := hword.mem_fixed hstart hdigit
      rw [hsplit, List.mem_append, List.mem_cons] at hmem
      obtain hmem | rfl | hmem := hmem
      · have hnot := hearlier word hmem
        rw [List.isPrefixOf_iff_prefix.mpr hstart] at hnot
        cases hnot
      · exact Nat.le_refl _
      · -- Of two beginnings of one text one begins the other, and here it is the later word.
        have hpairwise := pairwise_fixed
        rw [hsplit, List.pairwise_append] at hpairwise
        have hnot := (List.pairwise_cons.mp hpairwise.2.1).1 word hmem
        obtain hle | hle := List.prefix_or_prefix_of_prefix hstart hfoundStart
        · exact hle.length_le
        · exact absurd hle hnot

theorem IsWord.eq_of_text_eq {word other : Lexeme} (hword : word.IsWord) (hother : other.IsWord)
    (htext : word.text = other.text) : word = other := by
  have hfixed : ∀ a ∈ fixed, ∀ b ∈ fixed, a.text = b.text → a = b := by decide
  obtain ⟨c, rest, hcons⟩ := List.exists_cons_of_ne_nil hword.text_ne_nil
  have hstart : word.text <+: c :: rest := hcons ▸ List.prefix_refl _
  have hstart' : other.text <+: c :: rest := htext ▸ hstart
  cases hdigit : Text.isDigit c with
  | true =>
    obtain ⟨digits, rfl, _⟩ := hword.eq_number hstart hdigit
    obtain ⟨digits', rfl, _⟩ := hother.eq_number hstart' hdigit
    exact congrArg Lexeme.number htext
  | false =>
    exact hfixed word (hword.mem_fixed hstart hdigit) other (hother.mem_fixed hstart' hdigit)
      htext

theorem Longest.eq {text : Text} {lexeme other : Lexeme} (h : Longest text lexeme)
    (hother : Longest text other) : lexeme = other := by
  obtain ⟨hword, hstart, hlongest⟩ | ⟨c, rfl, hc, hnone⟩ := h
  · obtain ⟨hword', hstart', hlongest'⟩ | ⟨_, _, _, hnone⟩ := hother
    · have hlength := Nat.le_antisymm (hlongest' _ hword hstart) (hlongest _ hword' hstart')
      have hle := List.prefix_of_prefix_length_le hstart hstart' hlength.le
      exact hword.eq_of_text_eq hword' (hle.eq_of_length hlength)
    · exact absurd hstart (hnone _ hword)
  · obtain ⟨hword', hstart', _⟩ | ⟨d, rfl, hd, _⟩ := hother
    · exact absurd hstart' (hnone _ hword')
    · rw [hc] at hd
      cases hd
      rfl

theorem first_eq_iff {c : Char} {rest : Text} {lexeme : Lexeme} :
    first c rest = lexeme ↔ Longest (c :: rest) lexeme := by
  constructor
  · rintro rfl
    exact longest_first c rest
  · exact (longest_first c rest).eq

/-- What the first lexeme is depends only on the words that the text begins with. -/
theorem first_congr {c : Char} {rest rest' : Text}
    (h : ∀ word : Lexeme, word.IsWord → (word.text <+: c :: rest ↔ word.text <+: c :: rest')) :
    first c rest = first c rest' := by
  rw [first_eq_iff]
  obtain ⟨hword, hstart, hlongest⟩ | ⟨d, hd, hhead, hnone⟩ := longest_first c rest'
  · exact .inl ⟨hword, (h _ hword).mpr hstart, fun word hword' hstart' =>
      hlongest word hword' ((h word hword').mp hstart')⟩
  · exact .inr ⟨d, hd, hhead, fun word hword hstart =>
      hnone word hword ((h word hword).mp hstart)⟩

/-- A lexeme stays the first one when the text is cut behind it. -/
theorem first_of_cut {c : Char} {rest cut : Text} (hcut : cut <+: rest)
    (htext : (first c rest).text <+: c :: cut) : first c cut = first c rest := by
  have hcons : c :: cut <+: c :: rest := (List.prefix_cons_inj c).mpr hcut
  rw [first_eq_iff]
  obtain ⟨hword, _, hlongest⟩ | ⟨d, hd, hhead, hnone⟩ := longest_first c rest
  · exact .inl ⟨hword, htext, fun word hword' hstart =>
      hlongest word hword' (hstart.trans hcons)⟩
  · exact .inr ⟨d, hd, hhead, fun word hword hstart => hnone word hword (hstart.trans hcons)⟩

/-! ### Where words end -/

/-- Some word goes on with the character behind the given one. -/
def Extends (word : Lexeme) (c : Char) : Prop :=
  ∃ other : Lexeme, other.IsWord ∧ word.text ++ [c] <+: other.text

/-- No word has the character anywhere but at its beginning. -/
def Breaks (c : Char) : Prop := ∀ word : Lexeme, word.IsWord → c ∉ word.text.tail

theorem first_of_not_extends {word : Lexeme} (hword : word.IsWord) {c : Char} {rest after : Text}
    (htext : word.text ++ after = c :: rest) (hafter : ∀ d ∈ after.head?, ¬ Extends word d) :
    first c rest = word := by
  rw [first_eq_iff, ← htext]
  refine .inl ⟨hword, List.prefix_append _ _, ?_⟩
  intro other hother hstart
  obtain hle | hle := List.prefix_or_prefix_of_prefix hstart (List.prefix_append word.text after)
  · exact hle.length_le
  · obtain ⟨more, hmore⟩ := hle
    cases more with
    | nil => simp [← hmore]
    | cons d more =>
      rw [← hmore, List.prefix_append_right_inj] at hstart
      obtain ⟨tail, rfl⟩ := hstart
      refine absurd ⟨other, hother, ?_⟩ (hafter d rfl)
      exact ⟨more, by simp [← hmore]⟩

theorem first_append_of_breaks {c d : Char} (hd : Breaks d) (rest after : Text) :
    first c (rest ++ d :: after) = first c rest := by
  apply first_congr
  intro word hword
  constructor
  · intro hstart
    obtain hle | ⟨more, hmore⟩ :=
      List.prefix_or_prefix_of_prefix hstart (List.prefix_append (c :: rest) (d :: after))
    · exact hle
    · cases more with
      | nil => simp [← hmore]
      | cons e more =>
        rw [← hmore, List.cons_append, List.prefix_cons_inj,
          List.prefix_append_right_inj] at hstart
        obtain ⟨rfl, _⟩ := List.cons_prefix_cons.mp hstart
        exact absurd (by simp [← hmore]) (hd word hword)
  · exact fun hstart => hstart.trans (List.prefix_append (c :: rest) (d :: after))

theorem breaks_iff {c : Char} :
    Breaks c ↔ Text.isDigit c = false ∧ ∀ word ∈ fixed, c ∉ word.text.tail := by
  constructor
  · intro h
    refine ⟨?_, fun word hmem => h word (isWord_of_mem_fixed hmem)⟩
    cases hdigit : Text.isDigit c with
    | false => rfl
    | true =>
      exact absurd (by simp [text]) (h (.number [c, c]) ⟨by simp, by simp [hdigit]⟩)
  · rintro ⟨hdigit, hfixed⟩ word hword
    obtain ⟨digits, rfl, _, hdigits⟩ | hmem := hword.cases
    · intro hmem
      have := hdigits c (List.mem_of_mem_tail hmem)
      simp [hdigit] at this
    · exact hfixed word hmem

instance (c : Char) : Decidable (Breaks c) := decidable_of_iff _ breaks_iff.symm

theorem breaks_of_isBlank {c : Char} (hc : Text.isBlank c = true) : Breaks c := by
  intro word hword hmem
  have := hword.isBlank c (List.mem_of_mem_tail hmem)
  simp [hc] at this

theorem not_extends_number {digits : Text} {c : Char} (hword : (number digits).IsWord)
    (hc : Text.isDigit c = false) : ¬ Extends (.number digits) c := by
  rintro ⟨other, hother, hstart⟩
  obtain ⟨d, rest, rfl⟩ := List.exists_cons_of_ne_nil hword.1
  obtain ⟨more, hmore⟩ := hstart
  have htext : other.text <+: d :: (rest ++ [c] ++ more) := hmore ▸ List.prefix_refl _
  obtain ⟨all, rfl, hall⟩ := hother.eq_number htext (hword.2 d List.mem_cons_self)
  have hmem : c ∈ (number all).text := by simp [← hmore]
  simp [hall c hmem] at hc

theorem not_extends_fixed {word : Lexeme} {c : Char} (hmem : word ∈ fixed)
    (h : ∀ other ∈ fixed, ¬ word.text ++ [c] <+: other.text) : ¬ Extends word c := by
  rintro ⟨other, hother, hstart⟩
  obtain ⟨d, rest, hcons⟩ := List.exists_cons_of_ne_nil (text_ne_nil_of_mem_fixed word hmem)
  have hdigit := isDigit_of_mem_fixed word hmem d (by simp [hcons])
  obtain ⟨more, hmore⟩ := hstart
  have htext : other.text <+: d :: (rest ++ [c] ++ more) := by
    rw [← hmore, hcons]
    exact List.prefix_refl _
  exact h other (hother.mem_fixed htext hdigit) ⟨more, hmore⟩

end Lexeme

end DiceNotation
