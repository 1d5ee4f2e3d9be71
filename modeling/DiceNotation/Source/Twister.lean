import DiceNotation.Source

/-!
# Seeded faces

A source that gives the faces which the generator MT19937 determines from a seed. The words of
the generator repeat after `period` of them, and a source supplies no more than that.

A die takes as many random bits as its number of sides has, again and again until they are less
than that number.
-/

namespace DiceNotation

structure Twister where
  block : Array UInt32
  place : Nat
  supplied : Nat
  drawn : Nat

namespace Twister

/-! ### The state -/

def size : Nat := 624

/-- Mixes the bits of a word downward. -/
def fold (word : UInt32) : UInt32 := word ^^^ (word >>> 30)

def blockOfWord (word : UInt32) : Array UInt32 :=
  ((List.range (size - 1)).foldl
    (fun (block, last) i =>
      let next := 1812433253 * fold last + UInt32.ofNat (i + 1)
      (block.push next, next))
    (#[word], word)).1

/-- A block while words are mixed into it, place by place. -/
structure Mixing where
  block : Array UInt32
  place : Nat

/-- Replaces the word at the place, given it and the one before, and goes on to the next; place
`0` is passed over and takes the last word instead. -/
def Mixing.step (mix : UInt32 → UInt32 → UInt32) (mixing : Mixing) : Mixing :=
  let word := mix (mixing.block.getD mixing.place 0) (mixing.block.getD (mixing.place - 1) 0)
  let block := mixing.block.setIfInBounds mixing.place word
  if mixing.place + 1 < size then ⟨block, mixing.place + 1⟩
  else ⟨block.setIfInBounds 0 word, 1⟩

def blockOfKey (key : Array UInt32) : Array UInt32 :=
  let start : Mixing := ⟨blockOfWord 19650218, 1⟩
  let keyed := (List.range (max size key.size)).foldl
    (fun (mixing : Mixing) n =>
      let j := n % key.size
      mixing.step fun (word last : UInt32) =>
        (word ^^^ (fold last * 1664525)) + key.getD j 0 + UInt32.ofNat j)
    start
  let mixed := (List.range (size - 1)).foldl
    (fun (mixing : Mixing) _ =>
      mixing.step fun (word last : UInt32) =>
        (word ^^^ (fold last * 1566083941)) - UInt32.ofNat mixing.place)
    keyed
  mixed.block.setIfInBounds 0 0x80000000

/-- The 32-bit words of a number, the least significant one first. -/
def wordsOf (n : Nat) : List UInt32 :=
  if _h : n < UInt32.size then [UInt32.ofNat n]
  else UInt32.ofNat n :: wordsOf (n / UInt32.size)
termination_by n
decreasing_by exact Nat.div_lt_self (by simp [UInt32.size] at *; omega) (by decide)

def period : Nat := Nat.pow 2 19937 - 1

/-- The sign of a seed has no effect. -/
def ofSeed (seed : Int) : Twister where
  block := blockOfKey (wordsOf seed.natAbs).toArray
  place := size
  supplied := period
  drawn := 0

def left (source : Twister) : Nat := source.supplied - source.drawn

/-! ### The words -/

def nextBlock (block : Array UInt32) : Array UInt32 :=
  (List.range size).foldl
    (fun block i =>
      let high := block.getD i 0 &&& 0x80000000
      let low := block.getD ((i + 1) % size) 0 &&& 0x7fffffff
      let pair := high ||| low
      let twist : UInt32 := if pair &&& 1 = 0 then 0 else 0x9908b0df
      block.setIfInBounds i (block.getD ((i + 397) % size) 0 ^^^ (pair >>> 1) ^^^ twist))
    block

def temper (word : UInt32) : UInt32 :=
  let word := word ^^^ (word >>> 11)
  let word := word ^^^ ((word <<< 7) &&& 0x9d2c5680)
  let word := word ^^^ ((word <<< 15) &&& 0xefc60000)
  word ^^^ (word >>> 18)

def word? (source : Twister) : Option (Nat × Twister) :=
  if source.drawn < source.supplied then
    let (block, place) :=
      if source.place < size then (source.block, source.place) else (nextBlock source.block, 0)
    some ((temper (block.getD place 0)).toNat,
      { source with block, place := place + 1, drawn := source.drawn + 1 })
  else none

theorem left_word? {source after : Twister} {word : Nat} (h : source.word? = some (word, after)) :
    after.left < source.left := by
  unfold word? at h
  split at h
  next hlt =>
    cases h
    simp only [left]
    omega
  next => cases h

/-- A number of `count` random bits, from whole words and the high bits of a last one. -/
def bits? (count : Nat) (source : Twister) : Option (Nat × Twister) :=
  match source.word? with
  | none => none
  | some (word, after) =>
    if count ≤ 32 then some (word >>> (32 - count), after)
    else
      match bits? (count - 32) after with
      | none => none
      | some (high, after) => some (word + high <<< 32, after)
termination_by count

theorem left_bits? {count : Nat} {source after : Twister} {bits : Nat}
    (h : source.bits? count = some (bits, after)) : after.left < source.left := by
  fun_induction bits? count source generalizing after bits
  case case1 => cases h
  case case2 next hword _ =>
    cases h
    exact left_word? hword
  case case3 => cases h
  case case4 next hword _ high last hbits ih =>
    obtain ⟨_, rfl⟩ := Prod.mk.inj (Option.some.inj h)
    exact Nat.lt_trans (ih hbits) (left_word? hword)

/-! ### The faces -/

/-- A number below `limit`, the first that the random bits give. -/
def below? (limit : Nat) (source : Twister) : Option (Nat × Twister) :=
  match h : source.bits? (Nat.log2 limit + 1) with
  | none => none
  | some (n, after) =>
    if n < limit then some (n, after)
    else
      have := left_bits? h
      below? limit after
termination_by source.left

theorem below?_spec {limit n : Nat} {source after : Twister}
    (h : source.below? limit = some (n, after)) : n < limit ∧ after.left < source.left := by
  fun_induction below? limit source
  case case1 => cases h
  case case2 hbits hlt =>
    cases h
    exact ⟨hlt, left_bits? hbits⟩
  case case3 hbits _ hless ih =>
    obtain ⟨hlt, hleft⟩ := ih h
    exact ⟨hlt, Nat.lt_trans hleft hless⟩

def draw (sides : Int) (source : Twister) : Except SourceFault (Int × Twister) :=
  if sides < 1 then .error (.noFace sides)
  else
    match source.below? sides.toNat with
    | none => .error (.exhausted source.supplied)
    | some (n, after) => .ok (n + 1, after)

theorem draw_spec {sides face : Int} {source after : Twister}
    (h : source.draw sides = .ok (face, after)) :
    (1 ≤ face ∧ face ≤ sides) ∧ after.left < source.left := by
  unfold draw at h
  split at h
  next => cases h
  next hsides =>
    split at h
    next => cases h
    next n next hbelow =>
      cases h
      have := below?_spec hbelow
      omega

instance : Source Twister where
  draw := fun sides source => source.draw sides
  left := left
  left_draw h := (draw_spec h).2
  face_draw h := (draw_spec h).1

end Twister

end DiceNotation
