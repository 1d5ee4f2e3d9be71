import DiceNotation.Proofs.Reading.Parts

/-!
# Reading takes the longest beginning

What is consumed can be read on its own, to the same tree, and no beginning of the text that can be
read as a whole goes beyond it. A beginning may end inside of a word: if it can be read, then the
whole word can stand in the place of what is left of it.
-/

namespace DiceNotation

open Grammar

/-! ### Cut words -/

/-- Of a word that is cut there remain lexemes of which the last cannot end a phrase, or a single
one that grows into the word. -/
def CutEndsWell (word : Lexeme) (part : Text) : Prop :=
  ∃ front last, lexemes part = front ++ [last] ∧
    (CanEnd last = true → front = [] ∧ Grows last word = true)

theorem exists_word_of_cut :
    ∀ word ∈ Lexeme.fixed, ∀ j < word.text.length, 0 < j →
      word = .keyword .advantage ∨ word = .keyword .disadvantage ∧ j = 2 ∨
        ∃ other ∈ Lexeme.fixed, other.text = word.text.take j ∧
          (CanEnd other = true → Grows other word = true) := by
  decide

theorem cutEndsWell_of_isWord {word : Lexeme} (hword : word.IsWord) {j : Nat} (hpos : 0 < j)
    (hj : j < word.text.length) : CutEndsWell word (word.text.take j) := by
  obtain ⟨digits, rfl, hne, hdigits⟩ | hmem := hword.cases
  · have hpart : (Lexeme.number (digits.take j)).IsWord := by
      refine ⟨?_, fun c hc => hdigits c (List.mem_of_mem_take hc)⟩
      rw [ne_eq, List.take_eq_nil_iff]
      simp [hne]
      omega
    exact ⟨[], .number (digits.take j), lexemes_text hpart, fun _ => ⟨rfl, rfl⟩⟩
  · obtain rfl | ⟨rfl, rfl⟩ | ⟨other, hother, htext, hgrows⟩ := exists_word_of_cut word hmem j hj hpos
    · have hcut : ∀ j < 3, 0 < j → j = 1 ∨ j = 2 := by decide
      obtain rfl | rfl := hcut j hj hpos
      · exact ⟨[], .unknown 'A', by cbv, fun hlast => by cases hlast⟩
      · exact ⟨[.unknown 'A'], .die 'D', by cbv, fun hlast => by cases hlast⟩
    · exact ⟨[.die 'D'], .unknown 'I', by cbv, fun hlast => by cases hlast⟩
    · rw [← htext]
      exact ⟨[], other, lexemes_text (Lexeme.isWord_of_mem_fixed hother), fun h => ⟨rfl, hgrows h⟩⟩

/-! ### What is consumed -/

theorem consumed_of_complete {text : Text} {reading : Reading} {tree : Expression}
    (hread : read text = .ok reading) (htree : reading.expression = some tree)
    (hwhole : reading.remainder = none) :
    reading.consumed = Text.strip (text.take (Token.reach 0 (Token.scan 0 text))) := by
  obtain ⟨used, phrase, _, hused, _, _, hconsumed, hremainder⟩ := exists_phrase_of_read hread htree
  rw [hremainder, remainderAfter_eq_none_iff hused] at hwhole
  have hlength : (Token.scan 0 text).length = used.length := by
    rw [length_scan hused, hwhole, List.length_nil, Nat.add_zero]
  rw [hconsumed, consumedBy_eq, ← hlength, List.take_length]

theorem read_consumed {text : Text} {reading : Reading} {tree : Expression}
    (hread : read text = .ok reading) (htree : reading.expression = some tree) :
    ∃ again, read reading.consumed = .ok again ∧ again.complete = true ∧
      again.expression = some tree ∧ again.reason = none := by
  obtain ⟨used, phrase, _, hused, hshort, hderives, hconsumed, _⟩ :=
    exists_phrase_of_read hread htree
  have hlexemes := lexemes_consumedBy hused
  rw [← hconsumed] at hlexemes
  rw [← hlexemes] at hderives hshort
  obtain ⟨again, hagain, htree', hremainder, hreason⟩ := read_of_derives hderives hshort
  refine ⟨again, hagain, ?_, htree', hreason⟩
  rw [Reading.complete_iff, htree']
  exact ⟨nofun, hremainder⟩

/-! ### No beginning goes beyond it -/

theorem reach_concat (start : Nat) (tokens : List Token) (token : Token) :
    Token.reach start (tokens ++ [token]) = token.stop := by
  simp [Token.reach]

/-- If a beginning of the text is a phrase, then so is a front of the lexemes that ends at the same
place, or behind the word that the beginning cuts. -/
theorem exists_front_of_take {text : Text} {k : Nat} {tree : Expression}
    (h : DerivesComparison (lexemes (text.take k)) tree) :
    ∃ n other, DerivesComparison ((lexemes text).take n) other ∧
      min k (Token.reach 0 (Token.scan 0 (text.take k))) ≤
        Token.reach 0 ((Token.scan 0 text).take n) := by
  obtain ⟨n, tail, hscan, htail⟩ := Token.exists_cut 0 text k
  have hlexemes : lexemes (text.take k) = (lexemes text).take n ++ tail.map Token.lexeme := by
    rw [lexemes_eq _ 0, hscan, List.map_append, List.map_take, ← lexemes_eq]
  rw [hlexemes] at h
  obtain rfl | ⟨token, j, htoken, hpos, hj, hk, rfl⟩ := htail
  · rw [List.map_nil, List.append_nil] at h
    refine ⟨n, tree, h, ?_⟩
    rw [hscan, List.append_nil]
    exact Nat.min_le_right _ _
  · rw [← lexemes_eq] at h
    have hmem : token.lexeme ∈ lexemes text := by
      rw [lexemes_eq _ 0]
      exact List.mem_map_of_mem (List.mem_of_getElem? htoken)
    have hword : token.lexeme.IsWord := by
      obtain hword | ⟨c, hc⟩ := isWord_of_mem_lexemes hmem
      · exact hword
      · rw [hc] at hj
        exact absurd hj (Nat.not_lt.mpr hpos)
    obtain ⟨before, last, hpart, hgrows⟩ := cutEndsWell_of_isWord hword hpos hj
    obtain ⟨front, last', hfront, hlast, hnext⟩ := h.endsWell
    rw [hpart, ← List.append_assoc, List.append_singleton_inj] at hfront
    obtain ⟨rfl, rfl⟩ := hfront
    obtain ⟨rfl, hgrown⟩ := hgrows hlast
    obtain ⟨other, hother⟩ := hnext token.lexeme hgrown
    refine ⟨n + 1, other, ?_, ?_⟩
    · have hget : (lexemes text)[n]? = some token.lexeme := by
        rw [lexemes_eq _ 0, List.getElem?_map, htoken]
        rfl
      rw [List.append_nil] at hother
      rwa [List.take_add_one, hget]
    · rw [List.take_add_one, htoken, Option.toList_some, reach_concat, Token.stop]
      omega

theorem consumed_mono {text : Text} {k : Nat} {reading part : Reading}
    (hruns : text.HasShortRuns) (hread : read text = .ok reading)
    (hpart : read (text.take k) = .ok part) (hcomplete : part.complete = true) :
    reading.expression ≠ none ∧ part.consumed <+: reading.consumed := by
  obtain ⟨hexpression, hwhole⟩ := part.complete_iff.mp hcomplete
  obtain ⟨tree, htree⟩ := Option.ne_none_iff_exists'.mp hexpression
  obtain ⟨n, other, hderives, hreach⟩ :=
    exists_front_of_take (derives_of_read hpart htree hwhole)
  have hshort := readable_lexemes hruns
  rw [← List.take_append_drop n (lexemes text)] at hshort
  obtain ⟨phrase, hphrase, hsuffix, _⟩ := comparison_append hderives hshort
  rw [List.take_append_drop] at hphrase
  obtain ⟨result, hresult, rfl⟩ := read_eq_ok_iff.mp hread
  cases hphrase.symm.trans hresult
  obtain ⟨used, hused, _, _⟩ := comparison_reads hphrase
  rw [ofTokens_eq hused]
  refine ⟨nofun, ?_⟩
  have hlength := length_scan hused
  have hrest : phrase.rest.length ≤ (Token.scan 0 text).length - n := by
    have hrest := hsuffix.length_le
    rwa [List.length_drop, lexemes_eq text 0, List.length_map] at hrest
  -- What is taken has at least as many lexemes as the front that is a phrase.
  have hused : Token.reach 0 ((Token.scan 0 text).take n) ≤
      Token.reach 0 ((Token.scan 0 text).take used.length) := by
    rw [List.take_eq_take_min]
    exact Token.reach_take_le (by omega) (by omega)
  rw [consumed_of_complete hpart htree hwhole, List.take_take, Nat.min_comm, consumedBy_eq]
  exact Text.strip_mono (List.take_prefix_take_left (hreach.trans hused))

/-- Reading keeps a beginning that can be read on its own, and of all beginnings that can be read
as a whole none has more to it. Where there is no expression, there is no such beginning. -/
theorem read_longest {text : Text} (hruns : text.HasShortRuns) :
    ∃ reading, read text = .ok reading ∧
      (∀ tree, reading.expression = some tree →
        (∃ again, read reading.consumed = .ok again ∧ again.complete = true ∧
          again.expression = some tree ∧ again.reason = none) ∧
        ∀ k, ∃ part, read (text.take k) = .ok part ∧
          (part.complete = true → part.consumed <+: reading.consumed)) ∧
      (reading.expression = none →
        ∀ k, ∃ part, read (text.take k) = .ok part ∧ part.complete = false) := by
  obtain ⟨reading, hread⟩ := read_total hruns
  have hparts : ∀ k, ∃ part, read (text.take k) = .ok part := by
    intro k
    exact read_total (hruns.of_infix (List.take_prefix k text).isInfix)
  refine ⟨reading, hread, ?_, ?_⟩
  · intro tree htree
    constructor
    · exact read_consumed hread htree
    · intro k
      obtain ⟨part, hpart⟩ := hparts k
      exact ⟨part, hpart, fun hcomplete => (consumed_mono hruns hread hpart hcomplete).2⟩
  · intro hnone k
    obtain ⟨part, hpart⟩ := hparts k
    refine ⟨part, hpart, ?_⟩
    cases hcomplete : part.complete with
    | false => rfl
    | true => exact absurd hnone (consumed_mono hruns hread hpart hcomplete).1

theorem read_longest_explosion :
    ∃ reading, read "2d6!! > x".toList = .ok reading ∧ reading.consumed = "2d6!!".toList ∧
      ∀ k, ∃ part, read ("2d6!! > x".toList.take k) = .ok part ∧
        (part.complete = true → part.consumed <+: reading.consumed) := by
  have hruns : Text.HasShortRuns "2d6!! > x".toList :=
    Text.hasShortRuns_of_length_le (by decide)
  obtain ⟨reading, hread, hsome, _⟩ := read_longest hruns
  have hvalue : read "2d6!! > x".toList =
      .ok ⟨some (.pool ⟨2, 6, some (.explode none true), none⟩), "2d6!!".toList,
        some "> x".toList, none⟩ := by
    cbv
  obtain rfl := Except.ok.inj (hread.symm.trans hvalue)
  exact ⟨_, hread, rfl, (hsome _ rfl).2⟩

end DiceNotation
