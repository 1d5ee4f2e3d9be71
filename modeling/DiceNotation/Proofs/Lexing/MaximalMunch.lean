import DiceNotation.Proofs.Lexing.Kinds
import DiceNotation.Proofs.Lexing.Places
import Mathlib.Data.List.Sort

/-!
# Maximal munch

What the tokens of a text are, told without scanning it: slices in a row that leave out the blanks
and nothing else, each of them the longest word at its place, or a character with which no word
begins there. A text has only one such row, and scanning finds it.
-/

namespace DiceNotation

namespace Token

variable {k : Nat} {c : Char} {text : Text} {token other : Token}

def Covers (token : Token) (k : Nat) : Prop := token.start ≤ k ∧ k < token.stop

/-- The token is a slice of the text, of the kind that the slice says, and no longer slice from the
same place is a word. -/
structure StandsIn (text : Text) (token : Token) : Prop where
  nonempty : token.start < token.stop
  inside : token.stop ≤ text.length
  slice : text.extract token.start token.stop = token.lexeme.text
  kind_iff : ∀ kind, token.lexeme.kind = kind ↔ token.lexeme.text.IsTokenOf kind
  ne_finish : token.lexeme ≠ .finish
  longest : ∀ stop, token.stop < stop → stop ≤ text.length →
    ¬ Text.IsWord (text.extract token.start stop)

def Before (earlier later : Token) : Prop :=
  earlier.start < later.start ∧ earlier.stop ≤ later.start

instance : Std.Irrefl Before := ⟨fun token h => Nat.lt_irrefl token.start h.1⟩

instance : Std.Antisymm Before := ⟨fun _ _ h h' => absurd h.1 (Nat.lt_asymm h'.1)⟩

/-! ### Tokens at their places -/

theorem extract_append (front back : Text) (n : Nat) :
    (front ++ back).extract front.length (front.length + n) = back.take n := by
  rw [List.extract_eq_take_drop, List.drop_left, Nat.add_sub_cancel_left]

theorem standsIn_of_mem (h : token ∈ scan 0 text) : token.StandsIn text := by
  obtain ⟨front, c, rest, rfl, hc, htoken⟩ := exists_first h
  rw [Nat.zero_add] at htoken
  obtain rfl := htoken
  have hne := Lexeme.text_first_ne_nil c rest
  have hprefix := Lexeme.text_first_isPrefix c rest
  have hlongest := Lexeme.longest_first c rest
  have hkind := hlongest.isTokenOf (by simpa using hc)
  constructor
  case nonempty => exact Nat.lt_add_of_pos_right (List.length_pos_iff.mpr hne)
  case inside =>
    rw [stop, List.length_append]
    exact Nat.add_le_add_left hprefix.length_le _
  case slice =>
    rw [stop, extract_append]
    exact (List.prefix_iff_eq_take.mp hprefix).symm
  case kind_iff =>
    intro kind
    constructor
    · rintro rfl
      exact hkind
    · exact hkind.unique
  case ne_finish => exact fun hfinish => hne (congrArg Lexeme.text hfinish)
  case longest =>
    intro stop hstop hle
    have hlt : front.length + (Lexeme.first c rest).text.length < stop := hstop
    have hfront : front.length ≤ stop := by omega
    obtain ⟨n, rfl⟩ := Nat.exists_eq_add_of_le hfront
    rw [extract_append]
    apply hlongest.not_isWord (List.take_prefix n _)
    rw [List.length_append] at hle
    rw [List.length_take]
    omega

theorem exists_covers (start : Nat) (hk : text[k]? = some c) (hc : Text.isBlank c = false) :
    ∃ token ∈ scan start text, token.Covers (start + k) := by
  induction text using scan_induction generalizing start k with
  | nil => simp at hk
  | blank d rest hd ih =>
    cases k with
    | zero =>
      cases hk
      simp [hc] at hd
    | succ k =>
      rw [scan_blank hd, ← Nat.add_assoc, Nat.add_right_comm]
      exact ih _ hk
  | word d rest tail hd htext ih =>
    rw [scan_word hd htext]
    obtain hlt | hle := Nat.lt_or_ge k (Lexeme.first d rest).text.length
    · exact ⟨_, List.mem_cons_self, Nat.le_add_right _ _, Nat.add_lt_add_left hlt _⟩
    · obtain ⟨n, rfl⟩ := Nat.exists_eq_add_of_le hle
      rw [htext, List.getElem?_append_right hle, Nat.add_sub_cancel_left] at hk
      obtain ⟨token, hmem, hcovers⟩ := ih (start + (Lexeme.first d rest).text.length) hk
      exact ⟨token, List.mem_cons_of_mem _ hmem, Nat.add_assoc start _ n ▸ hcovers⟩

theorem StandsIn.isBlank (h : token.StandsIn text) (hcovers : token.Covers k)
    (hk : text[k]? = some c) : Text.isBlank c = false := by
  obtain ⟨hle, hlt⟩ := hcovers
  apply ((h.kind_iff _).mp rfl).isBlank
  rw [← h.slice, List.extract_eq_take_drop]
  apply List.mem_of_getElem? (i := k - token.start)
  rw [List.getElem?_take_of_lt (by omega), List.getElem?_drop, Nat.add_sub_cancel' hle, hk]

/-! ### One token for each place -/

theorem StandsIn.stop_le (h : token.StandsIn text) (hother : other.StandsIn text)
    (hstart : token.start = other.start) : other.stop ≤ token.stop := by
  apply Nat.le_of_not_lt
  intro hlt
  have hnot := h.longest other.stop hlt hother.inside
  rw [hstart, hother.slice] at hnot
  obtain hword | ⟨-, -, c, hc, -⟩ := (hother.kind_iff _).mp rfl
  · exact hnot ⟨_, hword⟩
  · -- A single character is no longer than any token.
    have hstop : other.stop = other.start + 1 := by rw [stop, hc, List.length_singleton]
    have hnonempty := h.nonempty
    omega

theorem StandsIn.eq_of_start_eq (h : token.StandsIn text) (hother : other.StandsIn text)
    (hstart : token.start = other.start) : token = other := by
  have hstop : token.stop = other.stop :=
    Nat.le_antisymm (hother.stop_le h hstart.symm) (h.stop_le hother hstart)
  have htext : token.lexeme.text = other.lexeme.text := by
    rw [← h.slice, ← hother.slice, hstart, hstop]
  have hlexeme : token.lexeme = other.lexeme :=
    Lexeme.eq_of_isTokenOf ((h.kind_iff _).mp rfl) ((hother.kind_iff _).mp rfl) htext
  cases token
  cases hstart
  cases hlexeme
  rfl

end Token

open Token

/-- The tokens stand in the text in their order, apart from each other, and only blanks are left
out. -/
structure IsLexing (text : Text) (tokens : List Token) : Prop where
  each : ∀ token ∈ tokens, token.StandsIn text
  ordered : tokens.Pairwise Before
  covered_iff : ∀ k c, text[k]? = some c →
    ((∃ token ∈ tokens, token.Covers k) ↔ Text.isBlank c = false)

theorem isLexing_scan (text : Text) : IsLexing text (scan 0 text) := by
  constructor
  case each => exact fun token => standsIn_of_mem
  case ordered =>
    apply (pairwise_scan 0 text).imp_of_mem
    intro earlier later hearlier _ hle
    exact ⟨Nat.lt_of_lt_of_le (standsIn_of_mem hearlier).nonempty hle, hle⟩
  case covered_iff =>
    intro k c hk
    constructor
    · rintro ⟨token, hmem, hcovers⟩
      exact (standsIn_of_mem hmem).isBlank hcovers hk
    · intro hc
      simpa using exists_covers 0 hk hc

namespace IsLexing

variable {text : Text} {tokens others : List Token} {token other : Token}

theorem mem_of_mem (h : IsLexing text tokens) (hothers : IsLexing text others)
    (hmem : token ∈ tokens) : token ∈ others := by
  -- The first character of the token is no blank, so one of the others covers it. That one cannot
  -- start earlier: by induction it would be one of the tokens, and these do not overlap.
  induction hstart : token.start using Nat.strongRecOn generalizing tokens others token with
  | ind start ih =>
    subst hstart
    have hstands := h.each token hmem
    have hnonempty := hstands.nonempty
    have hcovers : token.Covers token.start := ⟨Nat.le_refl _, hnonempty⟩
    have hc := List.getElem?_eq_getElem (Nat.lt_of_lt_of_le hnonempty hstands.inside)
    obtain ⟨other, hother, hle, hover⟩ :=
      (hothers.covered_iff _ _ hc).mpr (hstands.isBlank hcovers hc)
    obtain hearlier | hsame := Nat.lt_or_eq_of_le hle
    · have hback := ih other.start hearlier hothers h hother rfl
      have hne : other ≠ token := by
        rintro rfl
        exact Nat.lt_irrefl _ hearlier
      have hapart := apart_of_pairwise (h.ordered.imp And.right) hback hmem hne
      unfold Apart at hapart
      omega
    · rwa [← (hothers.each other hother).eq_of_start_eq hstands hsame]

theorem unique (h : IsLexing text tokens) (hothers : IsLexing text others) : tokens = others := by
  apply h.ordered.eq_of_mem_iff hothers.ordered
  intro token
  exact ⟨h.mem_of_mem hothers, hothers.mem_of_mem h⟩

end IsLexing

/-- The tokens of a text are its only lexing, and behind them stands the one token for its end. -/
theorem tokenize_eq_iff {text : Text} {tokens : List Token} :
    tokenize text = tokens ↔
      ∃ words, tokens = words ++ [⟨.finish, text.length⟩] ∧ IsLexing text words := by
  constructor
  · rintro rfl
    exact ⟨scan 0 text, rfl, isLexing_scan text⟩
  · rintro ⟨words, rfl, hwords⟩
    rw [tokenize, hwords.unique (isLexing_scan text)]

end DiceNotation
