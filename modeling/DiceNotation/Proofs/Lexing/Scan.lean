import DiceNotation.Proofs.Lexing.Words
import DiceNotation.Token

/-!
# Scanning in parts

A text can be scanned in parts: apart from a cut inside of a token, the tokens of the whole are
those of the parts. A cut is harmless before a character that no word has behind its first one, and
between any two tokens.
-/

namespace DiceNotation

/-- The tokens of a text without their places and without the end. -/
def lexemes (text : Text) : List Lexeme := (tokenize text).dropLast.map Token.lexeme

namespace Token

open Lexeme

@[simp] theorem scan_nil (start : Nat) : scan start [] = [] := by
  rw [scan]

theorem scan_blank {c : Char} (hc : Text.isBlank c = true) (start : Nat) (rest : Text) :
    scan start (c :: rest) = scan (start + 1) rest := by
  rw [scan, if_pos hc]

theorem scan_word {c : Char} {rest tail : Text} (hc : Text.isBlank c = false)
    (htext : c :: rest = (first c rest).text ++ tail) (start : Nat) :
    scan start (c :: rest) =
      ⟨first c rest, start⟩ :: scan (start + (first c rest).text.length) tail := by
  have hdrop : (c :: rest).drop (first c rest).text.length = tail := by
    rw [htext, List.drop_left]
  rw [scan, if_neg (by simp [hc])]
  simp only [hdrop]

/-- Induction along the tokens of a text and the blanks between them. -/
theorem scan_induction {motive : Text → Prop} (nil : motive [])
    (blank : ∀ c rest, Text.isBlank c = true → motive rest → motive (c :: rest))
    (word : ∀ c rest tail, Text.isBlank c = false → c :: rest = (first c rest).text ++ tail →
      motive tail → motive (c :: rest))
    (text : Text) : motive text := by
  induction hlength : text.length using Nat.strongRecOn generalizing text with
  | ind n ih =>
    subst hlength
    cases text with
    | nil => exact nil
    | cons c rest =>
      cases hc : Text.isBlank c with
      | true => exact blank c rest hc (ih _ (Nat.lt_succ_self _) rest rfl)
      | false =>
        obtain ⟨tail, htail⟩ := text_first_isPrefix c rest
        refine word c rest tail hc htail.symm (ih _ ?_ tail rfl)
        have hpos := List.length_pos_iff.mpr (text_first_ne_nil c rest)
        rw [← htail, List.length_append]
        omega

theorem map_lexeme_scan (start other : Nat) (text : Text) :
    (scan start text).map lexeme = (scan other text).map lexeme := by
  induction text using scan_induction generalizing start other with
  | nil => simp
  | blank c rest hc ih => rw [scan_blank hc, scan_blank hc, ih]
  | word c rest tail hc htext ih =>
    rw [scan_word hc htext, scan_word hc htext, List.map_cons, List.map_cons, ih]

theorem scan_append_of_breaks {d : Char} (hd : Breaks d) (text after : Text) (start : Nat) :
    scan start (text ++ d :: after) =
      scan start text ++ scan (start + text.length) (d :: after) := by
  induction text using scan_induction generalizing start with
  | nil => simp
  | blank c rest hc ih =>
    rw [List.cons_append, scan_blank hc, scan_blank hc, ih, List.length_cons]
    congr 2
    omega
  | word c rest tail hc htext ih =>
    have hfirst := first_append_of_breaks (c := c) hd rest after
    have hwhole : c :: (rest ++ d :: after) =
        (first c (rest ++ d :: after)).text ++ (tail ++ d :: after) := by
      rw [hfirst, ← List.append_assoc, ← htext]
      rfl
    rw [List.cons_append, scan_word hc hwhole, scan_word hc htext, hfirst, ih, htext,
      List.length_append, List.cons_append]
    congr 3
    omega

/-! ### Places -/

/-- The offset just behind the last of the tokens, or the given one if there is none. -/
def reach (start : Nat) (tokens : List Token) : Nat :=
  (tokens.getLast?.map stop).getD start

@[simp] theorem reach_nil (start : Nat) : reach start [] = start := rfl

theorem reach_cons (start : Nat) (token : Token) (tokens : List Token) :
    reach start (token :: tokens) = reach token.stop tokens := by
  cases tokens with
  | nil => rfl
  | cons next tokens =>
    rw [reach, reach, List.getLast?_cons_cons, List.getLast?_eq_some_getLast (List.cons_ne_nil _ _)]
    rfl

theorem reach_congr {tokens : List Token} (h : tokens ≠ []) (start other : Nat) :
    reach start tokens = reach other tokens := by
  obtain ⟨token, rest, rfl⟩ := List.exists_cons_of_ne_nil h
  rw [reach_cons, reach_cons]

theorem scan_first_append {c : Char} {rest tail front : Text} (hc : Text.isBlank c = false)
    (htext : c :: rest = (first c rest).text ++ tail) (hfront : front <+: tail) (start : Nat) :
    scan start ((first c rest).text ++ front) =
      ⟨first c rest, start⟩ :: scan (start + (first c rest).text.length) front := by
  obtain ⟨d, word, hword⟩ := List.exists_cons_of_ne_nil (text_first_ne_nil c rest)
  have hcut : (first c rest).text ++ front <+: c :: rest := by
    rw [htext]
    exact (List.prefix_append_right_inj _).mpr hfront
  rw [hword, List.cons_append] at hcut
  obtain ⟨rfl, hrest⟩ := List.cons_prefix_cons.mp hcut
  have hfirst : first d (word ++ front) = first d rest := by
    apply first_of_cut hrest
    rw [hword]
    exact List.prefix_append (d :: word) front
  have hwhole : d :: (word ++ front) = (first d (word ++ front)).text ++ front := by
    rw [hfirst, hword, List.cons_append]
  rw [hword, List.cons_append, scan_word hc hwhole, hfirst, hword]

/-- Each token is the first lexeme of what stands at its place. -/
theorem exists_first {start : Nat} {text : Text} {token : Token} (h : token ∈ scan start text) :
    ∃ front c rest, text = front ++ c :: rest ∧ Text.isBlank c = false ∧
      token = ⟨first c rest, start + front.length⟩ := by
  induction text using scan_induction generalizing start with
  | nil => simp at h
  | blank c rest hc ih =>
    rw [scan_blank hc] at h
    obtain ⟨front, d, after, rfl, hd, rfl⟩ := ih h
    refine ⟨c :: front, d, after, rfl, hd, ?_⟩
    rw [List.length_cons, Nat.add_assoc, Nat.add_comm 1]
  | word c rest tail hc htext ih =>
    rw [scan_word hc htext] at h
    obtain rfl | h := List.mem_cons.mp h
    · exact ⟨[], c, rest, rfl, hc, rfl⟩
    · obtain ⟨front, d, after, rfl, hd, rfl⟩ := ih h
      refine ⟨(first c rest).text ++ front, d, after, ?_, hd, ?_⟩
      · rw [htext, List.append_assoc]
      · rw [List.length_append, Nat.add_assoc]

theorem exists_place {start : Nat} {text : Text} {token : Token} (h : token ∈ scan start text) :
    ∃ front back, text = front ++ (token.lexeme.text ++ back) ∧
      token.start = start + front.length := by
  obtain ⟨front, c, rest, rfl, -, rfl⟩ := exists_first h
  obtain ⟨back, hback⟩ := text_first_isPrefix c rest
  exact ⟨front, back, by rw [hback], rfl⟩

/-- The first `n` tokens are those of the text up to the last of them, and the other ones those of
the text behind it. -/
theorem exists_split {start n : Nat} {text : Text} (hn : n ≤ (scan start text).length) :
    ∃ front back, text = front ++ back ∧ scan start front = (scan start text).take n ∧
      scan (start + front.length) back = (scan start text).drop n ∧
      reach start ((scan start text).take n) = start + front.length := by
  induction text using scan_induction generalizing start n with
  | nil => exact ⟨[], [], rfl, by simp, by simp, by simp⟩
  | blank c rest hc ih =>
    cases n with
    | zero => exact ⟨[], c :: rest, rfl, by simp, by simp, by simp⟩
    | succ n =>
      rw [scan_blank hc] at hn ⊢
      obtain ⟨front, back, rfl, hfront, hback, hreach⟩ := ih hn
      have hlength : start + (c :: front).length = start + 1 + front.length := by
        rw [List.length_cons]
        omega
      refine ⟨c :: front, back, rfl, ?_, ?_, ?_⟩
      · rw [scan_blank hc, hfront]
      · rw [hlength, hback]
      · have hne : (scan (start + 1) (front ++ back)).take (n + 1) ≠ [] := by
          rw [ne_eq, ← List.length_eq_zero_iff, List.length_take]
          omega
        rw [hlength, ← hreach, reach_congr hne start (start + 1)]
  | word c rest tail hc htext ih =>
    cases n with
    | zero => exact ⟨[], c :: rest, rfl, by simp, by simp, by simp⟩
    | succ n =>
      rw [scan_word hc htext] at hn ⊢
      obtain ⟨front, back, rfl, hfront, hback, hreach⟩ := ih (Nat.le_of_succ_le_succ hn)
      have hlength : start + ((first c rest).text ++ front).length =
          start + (first c rest).text.length + front.length := by
        rw [List.length_append]
        omega
      refine ⟨(first c rest).text ++ front, back, by rw [htext, List.append_assoc], ?_, ?_, ?_⟩
      · rw [scan_first_append hc htext (List.prefix_append _ _), hfront, List.take_succ_cons]
      · rw [hlength, hback, List.drop_succ_cons]
      · rw [hlength, List.take_succ_cons, reach_cons]
        exact hreach

/-- In a beginning of the text all tokens are those of the text, but for what is left of one that
is cut. -/
theorem exists_cut (start : Nat) (text : Text) (k : Nat) :
    ∃ n tail, scan start (text.take k) = (scan start text).take n ++ tail ∧
      (tail = [] ∨ ∃ token j, (scan start text)[n]? = some token ∧ 0 < j ∧
        j < token.lexeme.text.length ∧ start + k = token.start + j ∧
        tail = scan token.start (token.lexeme.text.take j)) := by
  induction text using scan_induction generalizing start k with
  | nil => exact ⟨0, [], by simp, .inl rfl⟩
  | blank c rest hc ih =>
    cases k with
    | zero => exact ⟨0, [], by simp, .inl rfl⟩
    | succ k =>
      obtain ⟨n, tail, hscan, htail⟩ := ih (start + 1) k
      rw [List.take_succ_cons, scan_blank hc, scan_blank hc]
      refine ⟨n, tail, hscan, htail.imp_right ?_⟩
      rintro ⟨token, j, htoken, hpos, hlt, hk, rfl⟩
      exact ⟨token, j, htoken, hpos, hlt, by omega, rfl⟩
  | word c rest tail hc htext ih =>
    rw [scan_word hc htext]
    by_cases hk : (first c rest).text.length ≤ k
    · obtain ⟨n, last, hscan, hlast⟩ :=
        ih (start + (first c rest).text.length) (k - (first c rest).text.length)
      refine ⟨n + 1, last, ?_, hlast.imp_right ?_⟩
      · rw [htext, List.take_append, List.take_of_length_le hk,
          scan_first_append hc htext (List.take_prefix _ _), hscan, List.take_succ_cons,
          List.cons_append]
      · rintro ⟨token, j, htoken, hpos, hlt, hk', rfl⟩
        exact ⟨token, j, htoken, hpos, hlt, by omega, rfl⟩
    · have htake : (c :: rest).take k = (first c rest).text.take k := by
        rw [htext, List.take_append_of_le_length (by omega)]
      rw [htake]
      obtain rfl | hpos := Nat.eq_zero_or_pos k
      · exact ⟨0, [], by simp, .inl rfl⟩
      · exact ⟨0, _, rfl, .inr ⟨_, k, rfl, hpos, by simpa using hk, rfl, rfl⟩⟩

theorem reach_take_le {start n m : Nat} {text : Text} (hle : n ≤ m)
    (hm : m ≤ (scan start text).length) :
    reach start ((scan start text).take n) ≤ reach start ((scan start text).take m) := by
  obtain ⟨front, _, _, hfront, _, hreach⟩ := exists_split hm
  have hn : n ≤ (scan start front).length := by
    rw [hfront, List.length_take]
    omega
  obtain ⟨shorter, more, rfl, _, _, hshorter⟩ := exists_split hn
  rw [hfront, List.take_take, Nat.min_eq_left hle] at hshorter
  rw [hreach, hshorter, List.length_append]
  omega

end Token

open Lexeme

theorem lexemes_eq (text : Text) (start : Nat) :
    lexemes text = (Token.scan start text).map Token.lexeme := by
  rw [lexemes, tokenize, List.dropLast_concat, Token.map_lexeme_scan 0 start]

@[simp] theorem lexemes_nil : lexemes [] = [] := by
  simp [lexemes_eq [] 0]

theorem lexemes_blank {c : Char} (hc : Text.isBlank c = true) (rest : Text) :
    lexemes (c :: rest) = lexemes rest := by
  rw [lexemes_eq _ 0, Token.scan_blank hc, ← lexemes_eq]

theorem lexemes_first {c : Char} {rest tail : Text} (hc : Text.isBlank c = false)
    (htext : c :: rest = (first c rest).text ++ tail) :
    lexemes (c :: rest) = first c rest :: lexemes tail := by
  rw [lexemes_eq _ 0, Token.scan_word hc htext, List.map_cons, ← lexemes_eq]

theorem lexemes_append_of_breaks {d : Char} (hd : Breaks d) (text after : Text) :
    lexemes (text ++ d :: after) = lexemes text ++ lexemes (d :: after) := by
  rw [lexemes_eq _ 0, Token.scan_append_of_breaks hd, List.map_append, ← lexemes_eq, ← lexemes_eq]

theorem lexemes_append_of_not_extends {word : Lexeme} (hword : word.IsWord) {after : Text}
    (hafter : ∀ d ∈ after.head?, ¬ Extends word d) :
    lexemes (word.text ++ after) = word :: lexemes after := by
  obtain ⟨c, rest, hcons⟩ := List.exists_cons_of_ne_nil hword.text_ne_nil
  have hc := hword.isBlank c (by simp [hcons])
  have hfirst : first c (rest ++ after) = word :=
    first_of_not_extends hword (by simp [hcons]) hafter
  have htext : c :: (rest ++ after) = (first c (rest ++ after)).text ++ after := by
    rw [hfirst, hcons, List.cons_append]
  rw [hcons, List.cons_append, lexemes_first hc htext, hfirst]

theorem lexemes_text {word : Lexeme} (hword : word.IsWord) : lexemes word.text = [word] := by
  have hnil : ∀ d ∈ ([] : Text).head?, ¬ Extends word d := nofun
  simpa using lexemes_append_of_not_extends hword hnil

theorem lexemes_blanks_append {blanks : Text} (h : ∀ c ∈ blanks, Text.isBlank c = true)
    (rest : Text) : lexemes (blanks ++ rest) = lexemes rest := by
  induction blanks with
  | nil => rfl
  | cons c blanks ih =>
    rw [List.cons_append, lexemes_blank (h c List.mem_cons_self)]
    exact ih fun d hd => h d (List.mem_cons_of_mem _ hd)

theorem lexemes_append_blanks (text : Text) {blanks : Text}
    (h : ∀ c ∈ blanks, Text.isBlank c = true) : lexemes (text ++ blanks) = lexemes text := by
  cases blanks with
  | nil => rw [List.append_nil]
  | cons c rest =>
    have hnone := lexemes_blanks_append h []
    rw [List.append_nil, lexemes_nil] at hnone
    rw [lexemes_append_of_breaks (breaks_of_isBlank (h c List.mem_cons_self)), hnone,
      List.append_nil]

theorem lexemes_strip (text : Text) : lexemes (Text.strip text) = lexemes text := by
  obtain ⟨before, after, htext, hbefore, hafter⟩ := Text.exists_margins text
  conv_rhs => rw [htext, lexemes_append_blanks _ hafter, lexemes_blanks_append hbefore]

theorem lexemes_ne_nil {text : Text} (h : text.IsTrimmed) (hne : text ≠ []) :
    lexemes text ≠ [] := by
  cases text with
  | nil => exact absurd rfl hne
  | cons c rest =>
    have hc : Text.isBlank c = false := h.head hne
    obtain ⟨tail, htail⟩ := text_first_isPrefix c rest
    rw [lexemes_first hc htail.symm]
    exact List.cons_ne_nil _ _

theorem scan_eq_nil_iff {start : Nat} {text : Text} :
    Token.scan start text = [] ↔ Text.strip text = [] := by
  rw [← List.map_eq_nil_iff, ← lexemes_eq, ← lexemes_strip]
  constructor
  · contrapose!
    exact lexemes_ne_nil (Text.isTrimmed_strip text)
  · intro hnil
    rw [hnil, lexemes_nil]

theorem text_infix_of_mem_lexemes {text : Text} {lexeme : Lexeme} (h : lexeme ∈ lexemes text) :
    lexeme.text <:+: text := by
  rw [lexemes_eq text 0] at h
  obtain ⟨token, htoken, rfl⟩ := List.mem_map.mp h
  obtain ⟨front, back, htext, -⟩ := Token.exists_place htoken
  exact ⟨front, back, by rw [htext, List.append_assoc]⟩

theorem isWord_of_mem_lexemes {text : Text} {lexeme : Lexeme} (h : lexeme ∈ lexemes text) :
    lexeme.IsWord ∨ ∃ c, lexeme = .unknown c := by
  rw [lexemes_eq text 0] at h
  obtain ⟨token, htoken, rfl⟩ := List.mem_map.mp h
  obtain ⟨front, c, rest, -, -, rfl⟩ := Token.exists_first htoken
  obtain ⟨hword, -⟩ | ⟨d, hd, -⟩ := longest_first c rest
  · exact .inl hword
  · exact .inr ⟨d, hd⟩

end DiceNotation
