import DiceNotation.Proofs.Expression.Canonical
import DiceNotation.Proofs.Reading.Acceptance
import Mathlib

/-!
# Canonical texts are read back

The lexemes of a canonical text are those that its parts were made of, because each part ends
where its last word cannot go on. So canonical texts are phrases of the grammar, and reading one
gives the tree that it was written for.
-/

namespace DiceNotation

open Grammar Lexeme Numeral

/-- The lexemes of the text are readable and derive the value. -/
structure Spells {α : Type} (derives : List Lexeme → α → Prop) (text : Text) (value : α) :
    Prop where
  derives : derives (lexemes text) value
  readable : Readable (lexemes text)

theorem Spells.of_lexemes {α : Type} {derives : List Lexeme → α → Prop} {text : Text} {value : α}
    {parts : List Lexeme} (hparts : lexemes text = parts) (hderives : derives parts value)
    (hread : Readable parts) : Spells derives text value := by
  subst hparts
  exact ⟨hderives, hread⟩

/-! ### Words -/

theorem Numeral.IsPlain.isWord {n : Int} (h : IsPlain n) :
    (Lexeme.number (Numeral.text n)).IsWord :=
  ⟨h.text_ne_nil, h.isDigit_of_mem_text⟩

theorem lexemes_symbol (sign : Symbol) : lexemes sign.text = [.symbol sign] :=
  lexemes_text (isWord_symbol sign)

theorem lexemes_keyword (word : Keyword) : lexemes word.text = [.keyword word] :=
  lexemes_text (isWord_keyword word)

theorem lexemes_numeral {n : Int} (h : IsPlain n) :
    lexemes (Numeral.text n) = [.number (Numeral.text n)] :=
  lexemes_text h.isWord

theorem lexemes_numeral_append {n : Int} (h : IsPlain n) {after : Text}
    (hafter : ∀ c ∈ after.head?, Text.isDigit c = false) :
    lexemes (Numeral.text n ++ after) = .number (Numeral.text n) :: lexemes after :=
  lexemes_append_of_not_extends h.isWord fun c hc => not_extends_number h.isWord (hafter c hc)

theorem lexemes_symbol_numeral (sign : Symbol) {n : Int} (h : IsPlain n) :
    lexemes (sign.text ++ Numeral.text n) = [.symbol sign, .number (Numeral.text n)] := by
  rw [← lexemes_numeral h]
  apply lexemes_append_of_not_extends (isWord_symbol sign)
  intro c hc
  have hmem : .symbol sign ∈ fixed := by cases sign <;> decide
  have hdigit := h.isDigit_of_mem_text c (List.mem_of_mem_head? hc)
  apply not_extends_fixed hmem
  intro other hother hstart
  have hnot := isDigit_of_mem_fixed other hother c (hstart.subset (by simp))
  simp [hdigit] at hnot

theorem lexemes_die_append (after : Text) :
    lexemes ('d' :: after) = .die 'd' :: lexemes after := by
  have hmem : .die 'd' ∈ fixed := by decide
  apply lexemes_append_of_not_extends (isWord_of_mem_fixed hmem)
  intro c hc
  apply not_extends_fixed hmem
  simp [fixed, Lexeme.text, Keyword.text, Percentile.text, Symbol.text]

theorem lexemes_percent_append (size : Percentile) {after : Text}
    (hafter : ∀ c ∈ after.head?, c ≠ '%') :
    lexemes (size.text ++ after) = .percent size :: lexemes after := by
  have hmem := percent_mem_fixed size
  apply lexemes_append_of_not_extends (isWord_of_mem_fixed hmem)
  intro c hc
  apply not_extends_fixed hmem
  have hc := hafter c hc
  cases size <;> simp [fixed, Lexeme.text, Keyword.text, Percentile.text, Symbol.text, hc]

/-! ### Punctuation -/

/-- The symbols that enclose numbers or separate them. -/
def isPunctuation : Symbol → Bool
  | .openParen | .closeParen | .openBracket | .closeBracket | .openBrace | .closeBrace | .comma =>
    true
  | _ => false

theorem text_of_isPunctuation {sign : Symbol} (h : isPunctuation sign = true) :
    ∃ c, sign.text = [c] ∧ Breaks c ∧
      ∀ word ∈ fixed, word.text.head? = some c → word.text = [c] := by
  cases sign <;> first
    | exact ⟨_, rfl, by decide, by decide⟩
    | cases h

/-- Punctuation is one lexeme between those of the two sides. -/
theorem lexemes_punctuation (sign : Symbol) (h : isPunctuation sign = true) (before after : Text) :
    lexemes (before ++ (sign.text ++ after)) =
      lexemes before ++ .symbol sign :: lexemes after := by
  obtain ⟨c, hc, hbreaks, hlone⟩ := text_of_isPunctuation h
  have hextends : ∀ d ∈ after.head?, ¬ Extends (.symbol sign) d := by
    intro d hd
    apply not_extends_fixed (by cases sign <;> decide)
    intro other hother hstart
    have htext : (Lexeme.symbol sign).text ++ [d] = [c, d] := congrArg (· ++ [d]) hc
    rw [htext] at hstart
    obtain ⟨more, hmore⟩ := hstart
    have heq := hlone other hother (by rw [← hmore]; rfl)
    rw [heq] at hmore
    cases hmore
  have hfirst := lexemes_append_of_not_extends (isWord_symbol sign) hextends
  have hbefore := lexemes_append_of_breaks hbreaks before after
  rw [← List.singleton_append, ← hc] at hbefore
  rw [hbefore]
  exact congrArg (lexemes before ++ ·) hfirst

theorem lexemes_enclosed (before : Text) (opening closing : Symbol)
    (hopening : isPunctuation opening = true) (hclosing : isPunctuation closing = true) {n : Int}
    (hn : IsPlain n) :
    lexemes (before ++ (opening.text ++ Numeral.text n ++ closing.text)) =
      lexemes before ++ [.symbol opening, .number (Numeral.text n), .symbol closing] := by
  have hclosed := lexemes_punctuation closing hclosing (Numeral.text n) []
  rw [List.append_nil, lexemes_numeral hn, lexemes_nil] at hclosed
  rw [List.append_assoc, lexemes_punctuation opening hopening, hclosed, List.singleton_append]

theorem spells_enclosed {derives derives' : List Lexeme → Expression → Prop} {inner : Text}
    {tree : Expression} (build : Int → Expression) (opening closing : Symbol)
    (hopening : isPunctuation opening = true) (hclosing : isPunctuation closing = true) {n : Int}
    (hn : IsPlain n) (hinner : Spells derives inner tree)
    (hrule : ∀ lexemes digits, derives lexemes tree →
      derives' (lexemes ++ [.symbol opening, .number digits, .symbol closing])
        (build (Numeral.value digits))) :
    Spells derives' (inner ++ (opening.text ++ Numeral.text n ++ closing.text)) (build n) := by
  apply Spells.of_lexemes (lexemes_enclosed inner opening closing hopening hclosing hn)
  · have hderives := hrule _ (Numeral.text n) hinner.derives
    rwa [hn.value_text] at hderives
  · simp [hinner.readable, hn.length_text_le]

/-! ### Modifiers -/

theorem readable_numeral {n : Int} (h : IsPlain n) : Readable [.number (Numeral.text n)] := by
  simpa using h.length_text_le

theorem derivesOptional_numeral {n : Int} (h : IsPlain n) :
    DerivesOptional [.number (Numeral.text n)] (some n) := by
  have hpresent := DerivesOptional.present (Numeral.text n)
  rwa [h.value_text] at hpresent

theorem spells_optional (sign : Symbol) {build : Option Int → Modifier}
    (hform : sign.modifierForm? = some (.optionalNumber build)) {n : Option Int}
    (hn : ∀ m ∈ n, IsPlain m) :
    Spells DerivesModifier (sign.text ++ (n.map Numeral.text).getD []) (build n) := by
  cases n with
  | none =>
    rw [Option.map_none, Option.getD_none, List.append_nil]
    exact .of_lexemes (lexemes_symbol sign) (derivesModifier_of_optional hform .absent) (by simp)
  | some n =>
    have hn := hn n rfl
    rw [Option.map_some, Option.getD_some]
    apply Spells.of_lexemes (lexemes_symbol_numeral sign hn)
    · exact derivesModifier_of_optional hform (derivesOptional_numeral hn)
    · exact (readable_cons _ _).mpr ⟨by simp, readable_numeral hn⟩

theorem spells_required (sign : Symbol) {build : Int → Modifier}
    (hform : sign.modifierForm? = some (.requiredNumber build)) {n : Int} (hn : IsPlain n) :
    Spells DerivesModifier (sign.text ++ Numeral.text n) (build n) := by
  apply Spells.of_lexemes (lexemes_symbol_numeral sign hn)
  · have hderives := derivesModifier_of_required hform (Numeral.text n)
    rwa [hn.value_text] at hderives
  · exact (readable_cons _ _).mpr ⟨by simp, readable_numeral hn⟩

theorem spells_keyword (word : Keyword) : Spells DerivesModifier word.text word.modifier :=
  .of_lexemes (lexemes_keyword word) (derivesModifier_of_keyword word) (by simp)

theorem Modifier.spells {modifier : Modifier} (h : ∀ n ∈ modifier.numbers, IsPlain n) :
    Spells DerivesModifier modifier.text modifier := by
  cases modifier with
  | explode threshold again =>
    have hthreshold : ∀ n ∈ threshold, IsPlain n := by simpa [Modifier.numbers] using h
    cases again
    · exact spells_optional .bang rfl hthreshold
    · exact spells_optional .twoBangs rfl hthreshold
  | explodeEach threshold again =>
    have hthreshold : ∀ n ∈ threshold, IsPlain n := by simpa [Modifier.numbers] using h
    cases again
    · exact spells_optional .star rfl hthreshold
    · exact spells_optional .twoStars rfl hthreshold
  | addEach n =>
    have hn : ∀ m ∈ some n, IsPlain m := by simpa [Modifier.numbers] using h
    exact spells_optional .twoPluses rfl hn
  | subtractEach n =>
    have hn : ∀ m ∈ some n, IsPlain m := by simpa [Modifier.numbers] using h
    exact spells_optional .twoMinuses rfl hn
  | takeLow n => exact spells_required .backquote rfl (h n List.mem_cons_self)
  | takeHigh n => exact spells_required .caret rfl (h n List.mem_cons_self)
  | takeMiddle n => exact spells_required .tilde rfl (h n List.mem_cons_self)
  | advantage => exact spells_keyword .advantage
  | disadvantage => exact spells_keyword .disadvantage
  | bestGroup => exact spells_keyword .bestGroup

/-- No modifier goes on with the size that stands before it. -/
theorem Modifier.text_eq_cons (modifier : Modifier) :
    ∃ c rest, modifier.text = c :: rest ∧ Text.isDigit c = false ∧ c ≠ '%' := by
  cases modifier with
  | explode _ again | explodeEach _ again =>
    cases again
    · exact ⟨_, _, rfl, by decide, by decide⟩
    · exact ⟨_, _, rfl, by decide, by decide⟩
  | _ => exact ⟨_, _, rfl, by decide, by decide⟩

/-! ### Pools -/

theorem spells_change {modifier : Option Modifier}
    (h : ∀ given ∈ modifier, ∀ n ∈ given.numbers, IsPlain n) :
    Spells DerivesChange ((modifier.map Modifier.text).getD []) modifier := by
  cases modifier with
  | none =>
    rw [Option.map_none, Option.getD_none]
    exact .of_lexemes lexemes_nil .absent readable_nil
  | some given =>
    have hgiven := Modifier.spells (h given rfl)
    exact ⟨.present hgiven.derives, hgiven.readable⟩

theorem head_change {modifier : Option Modifier} :
    ∀ c ∈ ((modifier.map Modifier.text).getD []).head?, Text.isDigit c = false ∧ c ≠ '%' := by
  cases modifier with
  | none => simp
  | some given =>
    obtain ⟨c, rest, htext, hc⟩ := given.text_eq_cons
    simpa [htext] using hc

theorem Pool.IsCanonical.marker?_eq {dice : Pool} (h : dice.IsCanonical) :
    dice.marker? = dice.label := by
  rw [Pool.marker?]
  cases hlabel : dice.label with
  | none => rfl
  | some label =>
    obtain ⟨size, rfl, _⟩ := h.label label hlabel
    cases size <;> rfl

/-- The size is one lexeme, and the modifier is scanned behind it as if it stood alone. -/
theorem Pool.IsCanonical.lexemes_size {dice : Pool} (h : dice.IsCanonical) :
    ∃ size, DerivesSize size dice.sides dice.label ∧ Readable [size] ∧
      ∀ after : Text, (∀ c ∈ after.head?, Text.isDigit c = false ∧ c ≠ '%') →
        lexemes (dice.marker?.getD (Numeral.text dice.sides) ++ after) =
          size :: lexemes after := by
  rw [h.marker?_eq]
  cases hlabel : dice.label with
  | none =>
    refine ⟨.number (Numeral.text dice.sides), ?_, readable_numeral h.sides, ?_⟩
    · have hsize := DerivesSize.number (Numeral.text dice.sides)
      rwa [h.sides.value_text] at hsize
    · exact fun after hafter => lexemes_numeral_append h.sides fun c hc => (hafter c hc).1
  | some label =>
    obtain ⟨size, rfl, hsides⟩ := h.label label hlabel
    refine ⟨.percent size, ?_, by simp, ?_⟩
    · rw [hsides]
      exact .percent size
    · exact fun after hafter => lexemes_percent_append size fun c hc => (hafter c hc).2

theorem Pool.IsCanonical.spells {dice : Pool} (h : dice.IsCanonical) :
    Spells DerivesPool dice.text dice := by
  obtain ⟨size, hsize, hreadSize, happend⟩ := h.lexemes_size
  have hchange := spells_change h.modifier
  have hlexemes : lexemes dice.text = [.number (Numeral.text dice.count)] ++
      .die 'd' :: size :: lexemes ((dice.modifier.map Modifier.text).getD []) := by
    rw [Pool.text, List.append_assoc, List.cons_append, lexemes_numeral_append h.count,
      lexemes_die_append, happend _ head_change]
    · rfl
    · rintro c ⟨⟩
      decide
  apply Spells.of_lexemes hlexemes
  · exact .pool 'd' (derivesOptional_numeral h.count) hsize hchange.derives
  · refine (readable_append _ _).mpr ⟨readable_numeral h.count, ?_⟩
    refine (readable_cons _ _).mpr ⟨by simp, ?_⟩
    exact (readable_append [size] _).mpr ⟨hreadSize, hchange.readable⟩

/-! ### Expressions -/

namespace Expression

theorem IsCanonicalTerm.spells {tree : Expression} (h : tree.IsCanonicalTerm) :
    Spells DerivesTerm tree.text tree := by
  cases h with
  | @number n h =>
    refine .of_lexemes (lexemes_numeral h) ?_ (readable_numeral h)
    have hderives := DerivesTerm.number (Numeral.text n)
    rwa [h.value_text] at hderives
  | pool h =>
    have hpool := h.spells
    exact ⟨.pool hpool.derives, hpool.readable⟩

/-- A sign between two spaces is one lexeme between those of the two operands. -/
theorem lexemes_spaced (left right : Text) (sign : Symbol) :
    lexemes (left ++ ' ' :: (sign.text ++ ' ' :: right)) =
      lexemes left ++ .symbol sign :: lexemes right := by
  have hspace : Breaks ' ' := by decide
  have hblank : Text.isBlank ' ' = true := by decide
  rw [lexemes_append_of_breaks hspace, lexemes_blank hblank, lexemes_append_of_breaks hspace,
    lexemes_blank hblank, lexemes_symbol, List.singleton_append]

theorem readable_spaced {left right : List Lexeme} (sign : Symbol) (hleft : Readable left)
    (hright : Readable right) : Readable (left ++ .symbol sign :: right) := by
  simp [hleft, hright]

theorem spells_join (sign : Symbol) {join : Expression → Expression → Expression}
    (hjoin : sign.join? = some join) {first second : Text} {left right : Expression}
    (hleft : Spells DerivesSum first left) (hright : Spells DerivesTerm second right) :
    Spells DerivesSum (first ++ ' ' :: (sign.text ++ ' ' :: second)) (join left right) := by
  apply Spells.of_lexemes (lexemes_spaced first second sign)
  · exact hleft.derives.join hjoin hright.derives
  · exact readable_spaced sign hleft.readable hright.readable

theorem IsCanonicalSum.spells {tree : Expression} (h : tree.IsCanonicalSum) :
    Spells DerivesSum tree.text tree := by
  induction h with
  | term h =>
    have hterm := h.spells
    exact ⟨.term hterm.derives, hterm.readable⟩
  | sum _ hright ih =>
    rw [Expression.text, List.append_assoc]
    exact spells_join .plus rfl ih hright.spells
  | difference _ hright ih =>
    rw [Expression.text, List.append_assoc]
    exact spells_join .minus rfl ih hright.spells

theorem IsCanonicalTarget.spells {tree : Expression} (h : tree.IsCanonicalTarget) :
    Spells DerivesTarget tree.text tree := by
  cases h with
  | @target inner _ side h hthreshold =>
    cases side with
    | high =>
      rw [Expression.text, List.append_assoc]
      exact spells_enclosed (.target inner .high) .openBracket .closeBracket rfl rfl hthreshold h.spells
        fun _ digits hsum => .high digits (.sum hsum)
    | low =>
      rw [Expression.text, List.append_assoc]
      exact spells_enclosed (.target inner .low) .openParen .closeParen rfl rfl hthreshold h.spells
        fun _ digits hsum => .low digits (.sum hsum)
  | sum h =>
    have hsum := h.spells
    exact ⟨.grouped (.sum hsum.derives), hsum.readable⟩

theorem IsCanonicalSuccess.spells {tree : Expression} (h : tree.IsCanonicalSuccess) :
    Spells DerivesSuccess tree.text tree := by
  cases h with
  | @success inner threshold step h hthreshold hstep hpositive =>
    have hinner := h.spells
    by_cases hone : step = 1
    · subst hone
      rw [Expression.text, if_pos rfl, List.append_nil, List.append_assoc]
      exact spells_enclosed (.success inner · 1) .openBrace .closeBrace rfl rfl hthreshold hinner
        fun _ digits htarget => .single digits htarget
    · have hlexemes : lexemes (Expression.success inner threshold step).text =
          lexemes inner.text ++ [.symbol .openBrace, .number (Numeral.text threshold),
            .symbol .comma, .number (Numeral.text step), .symbol .closeBrace] := by
        have htext : (Expression.success inner threshold step).text =
            inner.text ++ (Symbol.openBrace.text ++ (Numeral.text threshold ++
              (Symbol.comma.text ++ (Numeral.text step ++ (Symbol.closeBrace.text ++ []))))) := by
          simp [Expression.text, Symbol.text, hone]
        rw [htext, lexemes_punctuation .openBrace rfl, lexemes_punctuation .comma rfl,
          lexemes_punctuation .closeBrace rfl, lexemes_numeral hthreshold, lexemes_numeral hstep,
          lexemes_nil, List.singleton_append, List.singleton_append]
      apply Spells.of_lexemes hlexemes
      · have hvalue : 1 ≤ Numeral.value (Numeral.text step) := by
          have := hstep.value_text
          omega
        have hstepped := DerivesSuccess.stepped (Numeral.text threshold) (Numeral.text step)
          hinner.derives hvalue
        rwa [hthreshold.value_text, hstep.value_text] at hstepped
      · simp [hinner.readable, hthreshold.length_text_le, hstep.length_text_le]
  | target h =>
    have htarget := h.spells
    exact ⟨.target htarget.derives, htarget.readable⟩

theorem IsCanonical.spells {tree : Expression} (h : tree.IsCanonical) :
    Spells DerivesComparison tree.text tree := by
  cases h with
  | @comparison left right relation hleft hright =>
    have hleft := hleft.spells
    have hright := hright.spells
    rw [Expression.text, List.append_assoc]
    apply Spells.of_lexemes (lexemes_spaced left.text right.text relation.symbol)
    · exact .related relation hleft.derives hright.derives
    · exact readable_spaced relation.symbol hleft.readable hright.readable
  | success h =>
    have hsuccess := h.spells
    exact ⟨.success hsuccess.derives, hsuccess.readable⟩

/-! ### What is shown -/

theorem isPlain_of_mem_pool {dice : Pool} (h : dice.IsCanonical) :
    ∀ n ∈ dice.numbers, IsPlain n := by
  intro n hn
  rw [Pool.numbers, List.cons_append, List.mem_cons, List.mem_append] at hn
  obtain rfl | hn | hn := hn
  · exact h.count
  · split at hn
    · cases hn
    · rw [List.mem_singleton.mp hn]
      exact h.sides
  · cases hmodifier : dice.modifier with
    | none => simp [hmodifier] at hn
    | some modifier =>
      rw [hmodifier] at hn
      exact h.modifier modifier hmodifier n hn

theorem IsCanonical.isPlain {tree : Expression} (h : tree.IsCanonical) :
    ∀ n ∈ tree.numbers, IsPlain n := by
  apply h.induction
  case number =>
    intro n hn
    simpa [Expression.numbers] using hn
  case pool => exact fun _ => isPlain_of_mem_pool
  case sum | difference => exact fun _ _ hleft hright => List.forall_mem_append.mpr ⟨hleft, hright⟩
  case comparison =>
    exact fun _ _ _ hleft hright => List.forall_mem_append.mpr ⟨hleft, hright⟩
  case target =>
    intro inner side threshold hinner hthreshold
    refine List.forall_mem_append.mpr ⟨hinner, ?_⟩
    simpa using hthreshold
  case success =>
    intro inner threshold step hinner hthreshold hstep _
    refine List.forall_mem_append.mpr ⟨hinner, List.forall_mem_cons.mpr ⟨hthreshold, ?_⟩⟩
    split
    · simp
    · simpa using hstep

theorem IsCanonical.write_eq {tree : Expression} (h : tree.IsCanonical) :
    tree.write = .ok tree.text := by
  refine (write_eq_ok_iff tree tree.text).mpr ⟨?_, rfl⟩
  exact List.all_eq_true.mpr fun n hn => (h.isPlain n hn).fits

theorem isCanonical_of_read {text : Text} {reading : Reading} {tree : Expression}
    (hread : read text = .ok reading) (htree : reading.expression = some tree) :
    tree.IsCanonical := by
  obtain ⟨used, _, _, _, hreadable, hderives, _⟩ := exists_phrase_of_read hread htree
  exact hderives.isCanonical hreadable

/-- Reading makes canonical trees only, and a tree comes back from its own text just if it is
canonical; then nothing of the text is left. -/
theorem isCanonical_iff_read_write :
    (∀ text reading tree, read text = .ok reading → reading.expression = some tree →
      tree.IsCanonical) ∧
    ∀ tree : Expression,
      (tree.IsCanonical ↔ ∃ text reading, tree.write = .ok text ∧ read text = .ok reading ∧
        reading.expression = some tree) ∧
      ∀ text reading, tree.write = .ok text → read text = .ok reading →
        reading.expression = some tree → reading.remainder = none := by
  constructor
  · intro text reading tree hread htree
    exact isCanonical_of_read hread htree
  intro tree
  constructor
  · constructor
    · intro h
      have hspells := h.spells
      obtain ⟨reading, hread, htree, _⟩ := read_of_derives hspells.derives hspells.readable
      exact ⟨tree.text, reading, h.write_eq, hread, htree⟩
    · rintro ⟨text, reading, _, hread, htree⟩
      exact isCanonical_of_read hread htree
  · intro text reading hwrite hread htree
    obtain ⟨_, rfl⟩ := (write_eq_ok_iff tree text).mp hwrite
    have hspells := (isCanonical_of_read hread htree).spells
    obtain ⟨other, hother, _, hremainder, _⟩ :=
      read_of_derives hspells.derives hspells.readable
    obtain rfl := Except.ok.inj (hread.symm.trans hother)
    exact hremainder

theorem isCanonical_iff_read_write_success :
    IsCanonical (.success (.pool ⟨4, 100, some (.takeHigh 3), some ['%']⟩) 10 5) ∧
      ∃ reading, read "4d%^3\x7b10,5\x7d".toList = .ok reading ∧ reading.remainder = none := by
  have hread : read "4d%^3\x7b10,5\x7d".toList =
      .ok ⟨some (.success (.pool ⟨4, 100, some (.takeHigh 3), some ['%']⟩) 10 5),
        "4d%^3\x7b10,5\x7d".toList, none, none⟩ := by
    cbv
  have hcanonical := isCanonical_iff_read_write.1 _ _ _ hread rfl
  have hwrite : write (.success (.pool ⟨4, 100, some (.takeHigh 3), some ['%']⟩) 10 5) =
      .ok "4d%^3\x7b10,5\x7d".toList := by
    rw [hcanonical.write_eq]
    cbv
  exact ⟨hcanonical, _, hread, (isCanonical_iff_read_write.2 _).2 _ _ hwrite hread rfl⟩

end Expression

end DiceNotation
