import DiceNotation.Evaluation
import DiceNotation.Proofs.Numeral.Plain
import DiceNotation.Proofs.Pool.Faces

/-!
# What an evaluation reads

On a list of faces an evaluation takes as many as it needs from the front. What is behind them it
neither changes nor looks at, and with fewer of them it runs out.
-/

namespace DiceNotation

namespace Rolling

variable {α σ : Type} {allowed : Fault → Prop}

/-- The source behind an action, whichever way it ends. -/
def behind : EStateM.Result Fault σ α → σ
  | .ok _ after => after
  | .error _ after => after

/-- These faces and no others are what the action takes to its end: all that is behind them stays,
and with fewer of them there is no end but that of the list. -/
structure Settles (action : Rolling Replay α) (faces : List Int)
    (ending : Replay → EStateM.Result Fault Replay α) : Prop where
  goesOn : ∀ supplied rest, action ⟨supplied, faces ++ rest⟩ = ending ⟨supplied, rest⟩
  runsOut : ∀ supplied fewer, fewer <+: faces → fewer ≠ faces →
    action ⟨supplied, fewer⟩ = .error (Fault.source (.exhausted supplied)).raised ⟨supplied, []⟩

/-- An action that does not run out leaves all faces behind those that it was given. -/
theorem Course.exhausted_or_behind {action : Action α} {fulfils : List Throw → α → Prop}
    {supplied : Nat} {faces : List Int}
    (h : Course action allowed fulfils (⟨supplied, faces⟩ : Replay)) :
    action Replay ⟨supplied, faces⟩ =
        .error (Fault.source (.exhausted supplied)).raised ⟨supplied, []⟩ ∨
      ∀ other rest, ∃ unread,
        behind (action Replay ⟨other, faces ++ rest⟩) = ⟨other, unread ++ rest⟩ := by
  cases h with
  | @result _ after _ hgives hleads _ =>
    refine .inr fun other rest => ⟨after.rest, ?_⟩
    rw [hleads (Replay.gives_append hgives other rest)]
    rfl
  | @fault _ after _ hgives hleads _ =>
    refine .inr fun other rest => ⟨after.rest, ?_⟩
    rw [hleads (Replay.gives_append hgives other rest)]
    rfl
  | @starved _ after sides cause _ hgives hleads hdraw =>
    obtain ⟨-, hsupplied, -⟩ := Replay.gives_iff.mp hgives
    obtain ⟨hnil, rfl⟩ | ⟨face, left, hcons, hmisfit, rfl⟩ :=
      Replay.draw_eq_error_iff.mp hdraw
    · left
      rw [hleads.eq_of_draw_error hgives hdraw, hsupplied, ← hsupplied, ← hnil]
    · refine .inr fun other rest => ⟨after.rest, ?_⟩
      have hsame : Source.draw sides (⟨other, after.rest ++ rest⟩ : Replay) =
          .error (.misfit face sides) :=
        Replay.draw_eq_error_iff.mpr (.inr ⟨face, left ++ rest, by simp [hcons], hmisfit, rfl⟩)
      rw [hleads.eq_of_draw_error (Replay.gives_append hgives other rest) hsame]
      rfl

theorem settles_of_gives {action : Action α} {fulfils : List Throw → α → Prop}
    (hcourse : ∀ source : Replay, Course action allowed fulfils source) {supplied : Nat}
    {faces rest : List Int} {throws : List Throw}
    {ending : Replay → EStateM.Result Fault Replay α}
    (hgives : Source.Gives (⟨supplied, faces ++ rest⟩ : Replay) throws ⟨supplied, rest⟩)
    (hleads : ∀ {source after : Replay}, Source.Gives source throws after →
      action Replay source = ending after)
    (hending : ∀ after, behind (ending after) = after) :
    Settles (action Replay) faces ending := by
  obtain ⟨hvalid, -, hfaces⟩ := Replay.gives_iff.mp hgives
  obtain rfl := List.append_cancel_right hfaces
  refine ⟨fun other rest => hleads (Replay.gives_iff.mpr ⟨hvalid, rfl, rfl⟩), ?_⟩
  rintro other fewer ⟨more, hmore⟩ hne
  obtain hexhausted | hbehind := (hcourse ⟨other, fewer⟩).exhausted_or_behind
  · exact hexhausted
  · -- What the action left on fewer faces it would have left on all of them.
    obtain ⟨unread, hunread⟩ := hbehind supplied (more ++ rest)
    rw [← List.append_assoc, hmore, hleads hgives, hending] at hunread
    have hlength := congrArg (fun source : Replay => source.rest.length) hunread
    simp only [List.length_append] at hlength
    have hnil : more = [] := List.length_eq_zero_iff.mp (by omega)
    rw [hnil, List.append_nil] at hmore
    exact absurd hmore hne

end Rolling

/-- The fault is not told by the source. -/
def Fault.IsOwn (fault : Fault) : Prop := ∀ cause, fault ≠ .source cause

theorem Fault.isOwn_raised_pool (cause : PoolFault) : (Fault.pool cause).raised.IsOwn := by
  intro other
  obtain h | h := (Fault.pool cause).raised_cases <;>
    · rw [h]
      exact Fault.noConfusion

theorem Value.eq_zeroStep_of_success {value : Value} {threshold step : Int} {fault : Fault}
    (h : value.success threshold step = .error fault) : fault = .zeroStep := by
  unfold success successLevel at h
  split at h
  · cases h
  · split at h
    · cases h
      rfl
    · cases h

namespace Pool

theorem course_roll_isOwn (limits : Limits) (pool : Pool) {σ : Type} [Source σ] (source : σ) :
    Rolling.Course (fun _ _ => pool.roll limits) Fault.IsOwn (fun _ _ => True) source := by
  cases hfault : pool.fault? limits with
  | none => exact (course_roll hfault).imp fun _ _ _ => trivial
  | some cause =>
    simp only [roll_of_fault hfault]
    exact Rolling.course_throw _ (Fault.isOwn_raised_pool cause)

end Pool

namespace Expression

theorem course_evaluate (limits : Limits) (tree : Expression) {σ : Type} [Source σ] (source : σ) :
    Rolling.Course (fun _ _ => tree.evaluate limits) Fault.IsOwn (fun _ _ => True) source := by
  induction tree generalizing source with
  | number n => exact Rolling.course_pure _ trivial
  | pool dice =>
    exact ((dice.course_roll_isOwn limits source).map Value.plain).imp
      fun _ _ _ => trivial
  | sum left right ihleft ihright => exact (ihleft source).both Value.sum ihright
  | difference left right ihleft ihright => exact (ihleft source).both Value.difference ihright
  | comparison left relation right ihleft ihright =>
    exact (ihleft source).both (fun first second => first.comparison relation second) ihright
  | target inner side threshold ih =>
    exact ((ih source).map (Value.target side threshold)).imp fun _ _ _ => trivial
  | success inner threshold step ih =>
    refine (ih source).bind fun {_ middle value} _ _ => ?_
    cases hsuccess : value.success threshold step with
    | ok result => exact Rolling.course_pure _ trivial
    | error fault =>
      obtain rfl := Value.eq_zeroStep_of_success hsuccess
      exact Rolling.course_throw _ fun _ => Fault.noConfusion

variable {limits : Limits} {tree : Expression}

theorem settles_of_evaluate_ok {supplied : Nat} {faces rest : List Int} {value : Value}
    (h : tree.evaluate limits (⟨supplied, faces ++ rest⟩ : Replay) = .ok value ⟨supplied, rest⟩) :
    Rolling.Settles (tree.evaluate limits) faces (.ok value) := by
  obtain ⟨throws, hgives, hleads, -⟩ := (tree.course_evaluate limits _).of_ok h
  exact Rolling.settles_of_gives (tree.course_evaluate limits) hgives (fun h => hleads h)
    fun _ => rfl

theorem settles_of_evaluate_error {supplied : Nat} {faces rest : List Int} {fault : Fault}
    (h : tree.evaluate limits (⟨supplied, faces ++ rest⟩ : Replay) = .error fault ⟨supplied, rest⟩)
    (hfault : ∀ cause : SourceFault, fault ≠ (Fault.source cause).raised) :
    Rolling.Settles (tree.evaluate limits) faces (.error fault) := by
  obtain ⟨throws, hgives, hleads, -⟩ | ⟨_, cause, _, rfl⟩ :=
    (tree.course_evaluate limits _).of_error h
  · exact Rolling.settles_of_gives (tree.course_evaluate limits) hgives (fun h => hleads h)
      fun _ => rfl
  · exact absurd rfl (hfault cause)

/-- What the source tells in an evaluation it would tell of the next face again. -/
theorem draw_error_of_evaluate {σ : Type} [Source σ] {source after : σ} {cause : SourceFault}
    (h : tree.evaluate limits source = .error (.source cause) after) :
    ∃ sides, Source.draw sides after = .error cause := by
  obtain ⟨_, _, _, hown⟩ | ⟨sides, other, hdraw, hsource⟩ :=
    (tree.course_evaluate limits source).of_error h
  · exact absurd rfl (hown cause)
  · obtain hraised | hraised := (Fault.source other).raised_cases
    · obtain rfl := Fault.source.inj (hsource.trans hraised)
      exact ⟨sides, hdraw⟩
    · cases hsource.trans hraised

/-- An evaluation that comes to an end of its own has read the faces before its rest and depends on
nothing else. One that the list stops has read all of it, or all before a face that does not fit. -/
theorem evaluate_settles (limits : Limits) (tree : Expression) :
    (∀ {supplied : Nat} {faces rest : List Int} {value : Value},
      tree.evaluate limits (⟨supplied, faces ++ rest⟩ : Replay) = .ok value ⟨supplied, rest⟩ →
      Rolling.Settles (tree.evaluate limits) faces (.ok value)) ∧
    (∀ {supplied : Nat} {faces rest : List Int} {fault : Fault},
      tree.evaluate limits (⟨supplied, faces ++ rest⟩ : Replay) = .error fault ⟨supplied, rest⟩ →
      fault.IsDice ∨ fault = .zeroStep →
      Rolling.Settles (tree.evaluate limits) faces (.error fault)) ∧
    (∀ {source after : Replay} {count : Nat},
      tree.evaluate limits source = .error (.source (.exhausted count)) after →
      after.rest = []) ∧
    ∀ {source after : Replay} {face sides : Int},
      tree.evaluate limits source = .error (.source (.misfit face sides)) after →
      ¬(1 ≤ face ∧ face ≤ sides) ∧ ∃ rest, after.rest = face :: rest := by
  refine ⟨settles_of_evaluate_ok, ?_, ?_, ?_⟩
  · intro supplied faces rest fault h hfault
    refine settles_of_evaluate_error h ?_
    rintro cause rfl
    obtain hdice | hstep := hfault
    · exact (Fault.isDice_of_raised hdice).elim
    · obtain hraised | hraised := (Fault.source cause).raised_cases <;>
        cases hraised.symm.trans hstep
  · intro source after count h
    obtain ⟨sides, hdraw⟩ := draw_error_of_evaluate h
    obtain ⟨hnil, _⟩ | ⟨_, _, _, _, hmisfit⟩ := Replay.draw_eq_error_iff.mp hdraw
    · exact hnil
    · cases hmisfit
  · intro source after face sides h
    obtain ⟨asked, hdraw⟩ := draw_error_of_evaluate h
    obtain ⟨_, hexhausted⟩ | ⟨_, rest, hrest, hnot, hmisfit⟩ := Replay.draw_eq_error_iff.mp hdraw
    · cases hexhausted
    · cases hmisfit
      exact ⟨hnot, rest, hrest⟩

theorem evaluate_settles_explosion :
    (∀ rest, ∃ value, evaluate {} (.pool ⟨1, 6, some (.explodeEach none true), none⟩)
      (⟨9, [6, 6, 2] ++ rest⟩ : Replay) = .ok value ⟨9, rest⟩) ∧
    evaluate {} (.pool ⟨1, 6, some (.explodeEach none true), none⟩) (⟨2, [6, 6]⟩ : Replay) =
      .error (.source (.exhausted 2)) ⟨2, []⟩ ∧
    (∀ rest, evaluate {} (.sum (.pool ⟨1, 6, none, none⟩) (.pool ⟨-1, 6, none, none⟩))
      (⟨9, [4] ++ rest⟩ : Replay) = .error (.pool (.negativeCount (-1))) ⟨9, rest⟩) ∧
    ∀ after, evaluate {} (.pool ⟨2, 6, none, none⟩) (⟨2, [4, 7]⟩ : Replay) =
      .error (.source (.misfit 7 6)) after → ∃ rest, after.rest = 7 :: rest := by
  have hchain : evaluate {} (.pool ⟨1, 6, some (.explodeEach none true), none⟩)
      (⟨4, [6, 6, 2] ++ [5]⟩ : Replay) =
        .ok (.plain ⟨[⟨6, .kept, false⟩, ⟨6, .bonus, false⟩, ⟨2, .bonus, false⟩], 14, 0, none⟩)
          ⟨4, [5]⟩ := by
    cbv
  have hsettles := (evaluate_settles _ _).1 hchain
  have hexhausted : (Fault.source (.exhausted 2)).raised = .source (.exhausted 2) :=
    Fault.raised_of_fits fun n hn => Numeral.fits_of_lt 1 (by decide)
      ((by decide : ∀ n ∈ (Fault.source (.exhausted 2)).numbers, n.natAbs < 10 ^ 1) n hn)
  have hnegative : (Fault.pool (.negativeCount (-1))).raised = .pool (.negativeCount (-1)) :=
    Fault.raised_of_fits fun n hn => Numeral.fits_of_lt 1 (by decide)
      ((by decide : ∀ n ∈ (Fault.pool (.negativeCount (-1))).numbers, n.natAbs < 10 ^ 1) n hn)
  have hrefused : evaluate {} (.sum (.pool ⟨1, 6, none, none⟩) (.pool ⟨-1, 6, none, none⟩))
      (⟨2, [4] ++ [5]⟩ : Replay) = .error (.pool (.negativeCount (-1))) ⟨2, [5]⟩ := by
    rw [← hnegative]
    rfl
  refine ⟨fun rest => ⟨_, hsettles.goesOn 9 rest⟩, ?_, ?_, ?_⟩
  · rw [hsettles.runsOut 2 [6, 6] ⟨[2], rfl⟩ (by decide), hexhausted]
  · exact ((evaluate_settles _ _).2.1 hrefused (.inl trivial)).goesOn 9
  · exact fun after hmisfit => ((evaluate_settles _ _).2.2.2 hmisfit).2

end Expression

end DiceNotation
