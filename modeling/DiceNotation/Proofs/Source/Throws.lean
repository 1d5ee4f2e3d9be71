import DiceNotation.Source.Replay

/-!
# Throws

What a source has given: the dice that were asked for one after the other, each with its face. For
a list that is replayed these are the faces at its beginning.
-/

namespace DiceNotation

structure Throw where
  sides : Int
  face : Int

def Throw.IsValid (cast : Throw) : Prop := 1 ≤ cast.face ∧ cast.face ≤ cast.sides

theorem Throw.map_face (sides : Int) (faces : List Int) :
    (faces.map (mk sides)).map (·.face) = faces := by
  rw [List.map_map]
  exact List.map_id faces

namespace Source

variable {σ : Type} [Source σ]

inductive Gives : σ → List Throw → σ → Prop where
  | nil (source : σ) : Gives source [] source
  | cons {source middle after : σ} {sides face : Int} {throws : List Throw} :
      draw sides source = .ok (face, middle) → Gives middle throws after →
      Gives source (⟨sides, face⟩ :: throws) after

theorem gives_append_iff {source after : σ} {first second : List Throw} :
    Gives source (first ++ second) after ↔
      ∃ middle, Gives source first middle ∧ Gives middle second after := by
  constructor
  · intro h
    induction first generalizing source with
    | nil => exact ⟨source, .nil source, h⟩
    | cons cast first ih =>
      cases h with
      | cons hdraw h =>
        obtain ⟨middle, hfirst, hsecond⟩ := ih h
        exact ⟨middle, .cons hdraw hfirst, hsecond⟩
  · rintro ⟨middle, hfirst, hsecond⟩
    induction hfirst with
    | nil => exact hsecond
    | cons hdraw _ ih => exact .cons hdraw (ih hsecond)

theorem Gives.isValid {source after : σ} {throws : List Throw} (h : Gives source throws after) :
    ∀ cast ∈ throws, cast.IsValid := by
  induction h with
  | nil => simp
  | cons hdraw _ ih => exact List.forall_mem_cons.mpr ⟨face_draw hdraw, ih⟩

theorem Gives.forall_face {source after : σ} {sides : Int} {faces : List Int}
    (h : Gives source (faces.map (Throw.mk sides)) after) :
    ∀ face ∈ faces, 1 ≤ face ∧ face ≤ sides := fun face hface =>
  h.isValid ⟨sides, face⟩ (List.mem_map_of_mem hface)

theorem Gives.left_lt {source after : σ} {throws : List Throw} (h : Gives source throws after)
    (hthrows : throws ≠ []) : left after < left source := by
  induction h with
  | nil => exact absurd rfl hthrows
  | @cons source middle after sides face throws hdraw h ih =>
    have hfirst := left_draw hdraw
    cases throws with
    | nil =>
      cases h
      exact hfirst
    | cons cast throws => exact Nat.lt_trans (ih (List.cons_ne_nil _ _)) hfirst

end Source

namespace Replay

/-- A list gives the faces at its beginning, to dice that have them. -/
theorem gives_iff {supplied : Nat} {faces : List Int} {throws : List Throw} {after : Replay} :
    Source.Gives (⟨supplied, faces⟩ : Replay) throws after ↔
      (∀ cast ∈ throws, cast.IsValid) ∧ after.supplied = supplied ∧
        faces = throws.map (·.face) ++ after.rest := by
  induction throws generalizing faces with
  | nil =>
    constructor
    · rintro ⟨⟩
      simp
    · rintro ⟨_, rfl, rfl⟩
      exact .nil after
  | cons cast throws ih =>
    constructor
    · rintro (_ | ⟨hdraw, h⟩)
      obtain ⟨hvalid, hsource⟩ := draw_eq_ok_iff.mp hdraw
      obtain ⟨rfl, rfl⟩ := Replay.mk.inj hsource
      obtain ⟨hthrows, hsupplied, hrest⟩ := ih.mp h
      refine ⟨List.forall_mem_cons.mpr ⟨hvalid, hthrows⟩, hsupplied, ?_⟩
      rw [List.map_cons, List.cons_append, hrest]
    · rintro ⟨hvalid, hsupplied, rfl⟩
      obtain ⟨hcast, hthrows⟩ := List.forall_mem_cons.mp hvalid
      have hdraw : draw cast.sides ⟨supplied, cast.face :: throws.map (·.face) ++ after.rest⟩ =
          .ok (cast.face, ⟨supplied, throws.map (·.face) ++ after.rest⟩) :=
        draw_eq_ok_iff.mpr ⟨hcast, rfl⟩
      exact .cons hdraw (ih.mpr ⟨hthrows, hsupplied, rfl⟩)

/-- What a list gives does not depend on what is behind it. -/
theorem gives_append {supplied : Nat} {faces : List Int} {throws : List Throw} {after : Replay}
    (h : Source.Gives (⟨supplied, faces⟩ : Replay) throws after) (other : Nat) (rest : List Int) :
    Source.Gives (⟨other, faces ++ rest⟩ : Replay) throws ⟨other, after.rest ++ rest⟩ := by
  obtain ⟨hvalid, -, rfl⟩ := gives_iff.mp h
  exact gives_iff.mpr ⟨hvalid, rfl, List.append_assoc _ _ _⟩

theorem draw_eq_error_iff {sides : Int} {source : Replay} {cause : SourceFault} :
    draw sides source = .error cause ↔
      source.rest = [] ∧ cause = .exhausted source.supplied ∨
        ∃ face rest, source.rest = face :: rest ∧ ¬(1 ≤ face ∧ face ≤ sides) ∧
          cause = .misfit face sides := by
  fun_cases draw sides source
  case case1 supplied =>
    simp [eq_comm]
  case case2 supplied face rest h =>
    constructor
    · rintro ⟨⟩
    · rintro (⟨⟨⟩, _⟩ | ⟨_, _, ⟨⟩, hnot, _⟩)
      exact absurd h hnot
  case case3 supplied face rest h =>
    constructor
    · rintro ⟨⟩
      exact .inr ⟨face, rest, rfl, h, rfl⟩
    · rintro (⟨⟨⟩, _⟩ | ⟨_, _, ⟨⟩, _, rfl⟩)
      rfl

/-- A list gives its first faces to dice that have all of them. -/
theorem gives_faces {sides : Int} {faces : List Int}
    (h : ∀ face ∈ faces, 1 ≤ face ∧ face ≤ sides) (supplied : Nat) (rest : List Int) :
    Source.Gives (⟨supplied, faces ++ rest⟩ : Replay) (faces.map (Throw.mk sides))
      ⟨supplied, rest⟩ := by
  refine gives_iff.mpr ⟨?_, rfl, ?_⟩
  · rintro cast hcast
    obtain ⟨face, hface, rfl⟩ := List.mem_map.mp hcast
    exact h face hface
  · rw [Throw.map_face]

end Replay

end DiceNotation
