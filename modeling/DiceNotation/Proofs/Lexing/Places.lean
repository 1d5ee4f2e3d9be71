import DiceNotation.Proofs.Lexing.Scan
import Mathlib.Data.List.Pairwise

/-!
# Places of tokens

The tokens of a text stand in it one behind the other, and there are only blanks in front of each.
So no place at which a token starts or ends is inside of another one, and at each such place the
text can be cut without changing a token.
-/

namespace DiceNotation

namespace Token

variable {start k : Nat} {text : Text} {token : Token} {more : List Token}

theorem stop_le (h : token ∈ scan start text) : token.stop ≤ start + text.length := by
  obtain ⟨front, back, rfl, hstart⟩ := exists_place h
  rw [stop, hstart, List.length_append, List.length_append]
  omega

theorem pairwise_scan (start : Nat) (text : Text) :
    (scan start text).Pairwise fun earlier later => earlier.stop ≤ later.start := by
  induction text using scan_induction generalizing start with
  | nil => simp
  | blank c rest hc ih =>
    rw [scan_blank hc]
    exact ih _
  | word c rest tail hc htext ih =>
    rw [scan_word hc htext]
    apply List.pairwise_cons.mpr
    constructor
    · intro later hlater
      obtain ⟨front, -, -, hstart⟩ := exists_place hlater
      rw [hstart]
      apply Nat.le_add_right
    · exact ih _

def Apart (one two : Token) : Prop := one.stop ≤ two.start ∨ two.stop ≤ one.start

instance : Std.Symm Apart := ⟨fun _ _ => Or.symm⟩

theorem apart_of_pairwise {tokens : List Token} {one two : Token}
    (h : tokens.Pairwise fun earlier later => earlier.stop ≤ later.start) (hone : one ∈ tokens)
    (htwo : two ∈ tokens) (hne : one ≠ two) : Apart one two := by
  have hpairwise : tokens.Pairwise Apart := h.imp Or.inl
  exact hpairwise.forall hone htwo hne

theorem exists_gap (h : scan start text = token :: more) :
    ∃ gap rest, text = gap ++ rest ∧ (∀ c ∈ gap, Text.isBlank c = true) ∧
      token.start = start + gap.length := by
  induction text using scan_induction generalizing start with
  | nil => simp at h
  | blank c rest hc ih =>
    rw [scan_blank hc] at h
    obtain ⟨gap, rest, rfl, hgap, hstart⟩ := ih h
    refine ⟨c :: gap, rest, rfl, List.forall_mem_cons.mpr ⟨hc, hgap⟩, ?_⟩
    rw [hstart, List.length_cons]
    omega
  | word c rest tail hc htext _ =>
    rw [scan_word hc htext] at h
    cases h
    exact ⟨[], c :: rest, rfl, by simp, rfl⟩

/-! ### Cuts -/

/-- At a place that is inside of no token the tokens of the text are those of its two parts. -/
theorem scan_take_append_drop
    (h : ∀ token ∈ scan start text, start + k ≤ token.start ∨ token.stop ≤ start + k) :
    scan start (text.take k) ++ scan (start + k) (text.drop k) = scan start text := by
  induction text using scan_induction generalizing start k with
  | nil => simp
  | blank c rest hc ih =>
    cases k with
    | zero => simp
    | succ k =>
      have hplace : start + (k + 1) = start + 1 + k := by omega
      rw [scan_blank hc, hplace] at h
      rw [List.take_succ_cons, List.drop_succ_cons, scan_blank hc, scan_blank hc, hplace]
      exact ih h
  | word c rest tail hc htext ih =>
    cases k with
    | zero => simp
    | succ k =>
      rw [scan_word hc htext] at h ⊢
      obtain ⟨hfirst, htail⟩ := List.forall_mem_cons.mp h
      have hstop : start + (Lexeme.first c rest).text.length ≤ start + (k + 1) := by
        obtain hle | hle := hfirst
        · exact absurd hle (by simp)
        · exact hle
      obtain ⟨behind, hbehind⟩ := Nat.exists_eq_add_of_le (Nat.le_of_add_le_add_left hstop)
      have hplace : start + (k + 1) =
          start + (Lexeme.first c rest).text.length + behind := by
        omega
      rw [hplace] at htail ⊢
      rw [hbehind, htext, List.take_length_add_append, List.drop_length_add_append,
        scan_first_append hc htext (List.take_prefix _ _), List.cons_append, ih htail]

/-- A place in the text at which one of its tokens, or its end, starts or ends. -/
def IsBound (text : Text) (k : Nat) : Prop :=
  ∃ token ∈ tokenize text, k = token.start ∨ k = token.stop

theorem start_or_stop_le (h : IsBound text k) :
    ∀ token ∈ scan 0 text, k ≤ token.start ∨ token.stop ≤ k := by
  intro token htoken
  obtain ⟨other, hother, hplace⟩ := h
  obtain hother | hother := List.mem_append.mp hother
  · have hstart : token.start ≤ token.stop := Nat.le_add_right _ _
    have hstart' : other.start ≤ other.stop := Nat.le_add_right _ _
    by_cases heq : token = other
    · obtain rfl := heq
      omega
    · have hapart := apart_of_pairwise (pairwise_scan 0 text) htoken hother heq
      unfold Apart at hapart
      omega
  · obtain rfl := List.mem_singleton.mp hother
    have hend : k = text.length := by simpa [stop, Lexeme.text] using hplace
    right
    simpa [hend] using stop_le htoken

end Token

/-- Blanks between the tokens do not change them. -/
theorem lexemes_insert_blanks {text blanks : Text} {k : Nat} (h : Token.IsBound text k)
    (hblanks : ∀ c ∈ blanks, Text.isBlank c = true) :
    lexemes (text.take k ++ blanks ++ text.drop k) = lexemes text := by
  have hcut : lexemes (text.take k) ++ lexemes (text.drop k) = lexemes text := by
    have hplaces : ∀ token ∈ Token.scan 0 text, 0 + k ≤ token.start ∨ token.stop ≤ 0 + k := by
      simpa using Token.start_or_stop_le h
    have hscan := Token.scan_take_append_drop hplaces
    rw [lexemes_eq _ 0, lexemes_eq _ (0 + k), ← List.map_append, hscan, ← lexemes_eq]
  cases blanks with
  | nil => rw [List.append_nil, List.take_append_drop]
  | cons c blanks =>
    have hc := Lexeme.breaks_of_isBlank (hblanks c List.mem_cons_self)
    rw [List.append_assoc, List.cons_append, lexemes_append_of_breaks hc, ← List.cons_append,
      lexemes_blanks_append hblanks, hcut]

end DiceNotation
