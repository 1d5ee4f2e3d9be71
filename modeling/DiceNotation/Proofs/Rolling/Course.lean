import DiceNotation.Proofs.Rolling.Outcomes
import DiceNotation.Proofs.Source.Throws

/-!
# Courses of rolling

The course that an action takes from a source: the throws that it draws, and then its result, a
fault of its own, or a face that the source does not give. After the same throws it goes on in the
same way on every source, so nothing but the throws decides how it ends.
-/

namespace DiceNotation

def Die.showing (status : Status) (face : Int) : Die := { value := face, status }

namespace Rolling

/-- An action that can be taken on every source. -/
abbrev Action (α : Type) := ∀ (σ : Type) [Source σ], Rolling σ α

variable {α β : Type}

/-- From any source that gives the throws, the first action goes on behind them as the second. -/
def Leads (action : Action α) (throws : List Throw) (next : Action α) : Prop :=
  ∀ ⦃σ : Type⦄ [Source σ] ⦃source after : σ⦄, Source.Gives source throws after →
    action σ source = next σ after

theorem leads_self (action : Action α) : Leads action [] action := by
  intro σ _ source after h
  cases h
  rfl

theorem Leads.trans {action middle last : Action α} {first second : List Throw}
    (h : Leads action first middle) (hlast : Leads middle second last) :
    Leads action (first ++ second) last := by
  intro σ _ source after hgives
  obtain ⟨between, hfirst, hsecond⟩ := Source.gives_append_iff.mp hgives
  rw [h hfirst, hlast hsecond]

theorem Leads.bind {action rest : Action α} {throws : List Throw} (h : Leads action throws rest)
    (next : α → Action β) :
    Leads (fun σ _ => action σ >>= fun a => next a σ) throws
      (fun σ _ => rest σ >>= fun a => next a σ) := by
  intro σ _ source after hgives
  simp only [Bind.bind, EStateM.bind, h hgives]

/-- How an action may go from a source: with the faults of its own that are allowed, and with what
the throws and the result have to fulfil. -/
inductive Course (action : Action α) (allowed : Fault → Prop) (fulfils : List Throw → α → Prop)
    {σ : Type} [Source σ] (source : σ) : Prop where
  | result {throws : List Throw} {after : σ} {value : α} :
      Source.Gives source throws after → Leads action throws (fun _ _ => pure value) →
      fulfils throws value → Course action allowed fulfils source
  | fault {throws : List Throw} {after : σ} {fault : Fault} :
      Source.Gives source throws after → Leads action throws (fun _ _ => throw fault) →
      allowed fault → Course action allowed fulfils source
  | starved {throws : List Throw} {after : σ} {sides : Int} {cause : SourceFault}
      {next : Int → Action α} :
      Source.Gives source throws after →
      Leads action throws (fun σ _ => face sides >>= fun n => next n σ) →
      Source.draw sides after = .error cause → Course action allowed fulfils source

variable {allowed : Fault → Prop} {fulfils : List Throw → α → Prop}
  {fulfilsNext : List Throw → β → Prop} {σ : Type} [Source σ] {source after : σ}

theorem Leads.eq_of_draw_error {action : Action α} {throws : List Throw} {sides : Int}
    {cause : SourceFault} {next : Int → Action α}
    (h : Leads action throws (fun σ _ => face sides >>= fun n => next n σ))
    (hgives : Source.Gives source throws after) (hdraw : Source.draw sides after = .error cause) :
    action σ source = .error (Fault.source cause).raised after := by
  rw [h hgives]
  simp only [Bind.bind, EStateM.bind, face, hdraw]

/-! ### Building courses -/

theorem course_pure (value : α) (h : fulfils [] value) :
    Course (fun _ _ => pure value) allowed fulfils source :=
  .result (.nil source) (leads_self _) h

theorem course_throw (fault : Fault) (h : allowed fault) :
    Course (fun _ _ => throw fault) allowed fulfils source :=
  .fault (.nil source) (leads_self _) h

theorem course_face (sides : Int) :
    Course (fun _ _ => face sides) allowed (fun throws n => throws = [⟨sides, n⟩]) source := by
  cases hdraw : Source.draw sides source with
  | error cause =>
    have hself : Leads (fun σ _ => face sides) [] (fun σ _ => face sides >>= fun n => pure n) := by
      simpa only [bind_pure] using leads_self _
    exact .starved (.nil source) hself hdraw
  | ok given =>
    obtain ⟨n, after⟩ := given
    refine .result (.cons hdraw (.nil after)) ?_ rfl
    intro τ _ other last hgives
    rcases hgives with _ | ⟨hother, hnil⟩
    cases hnil
    simp only [face, hother, pure, EStateM.pure]

theorem Course.bind {action : Action α} {next : α → Action β}
    (h : Course action allowed fulfils source)
    (hnext : ∀ {throws after value}, Source.Gives source throws after → fulfils throws value →
      Course (next value) allowed (fun later => fulfilsNext (throws ++ later)) after) :
    Course (fun σ _ => action σ >>= fun a => next a σ) allowed fulfilsNext source := by
  cases h with
  | @result throws middle value hgives hleads hvalue =>
    have hbind : Leads (fun σ _ => action σ >>= fun a => next a σ) throws (next value) := by
      simpa only [pure_bind] using hleads.bind next
    cases hnext hgives hvalue with
    | result hlater hend hresult =>
      exact .result (Source.gives_append_iff.mpr ⟨_, hgives, hlater⟩) (hbind.trans hend) hresult
    | fault hlater hend hfault =>
      exact .fault (Source.gives_append_iff.mpr ⟨_, hgives, hlater⟩) (hbind.trans hend) hfault
    | starved hlater hend hdraw =>
      exact .starved (Source.gives_append_iff.mpr ⟨_, hgives, hlater⟩) (hbind.trans hend) hdraw
  | fault hgives hleads hfault => exact .fault hgives (hleads.bind next) hfault
  | starved hgives hleads hdraw =>
    have hbind := hleads.bind next
    simp only [bind_assoc] at hbind
    exact .starved hgives hbind hdraw

theorem Course.imp {action : Action α} {weaker : List Throw → α → Prop}
    (h : Course action allowed fulfils source)
    (hweaker : ∀ throws value, fulfils throws value → weaker throws value) :
    Course action allowed weaker source := by
  cases h with
  | result hgives hleads hvalue => exact .result hgives hleads (hweaker _ _ hvalue)
  | fault hgives hleads hfault => exact .fault hgives hleads hfault
  | starved hgives hleads hdraw => exact .starved hgives hleads hdraw

theorem Course.map {action : Action α} (f : α → β) (h : Course action allowed fulfils source) :
    Course (fun σ _ => f <$> action σ) allowed
      (fun throws result => ∃ value, fulfils throws value ∧ f value = result) source := by
  have hbind : Course (fun σ _ => action σ >>= fun a => pure (f a)) allowed
      (fun throws result => ∃ value, fulfils throws value ∧ f value = result) source :=
    h.bind fun _ hvalue => course_pure _ ⟨_, by simpa using hvalue, rfl⟩
  simpa only [map_eq_pure_bind] using hbind

theorem Course.both {γ : Type} {left : Action α} {right : Action β} (f : α → β → γ)
    (hleft : Course left allowed (fun _ _ => True) source)
    (hright : ∀ middle : σ, Course right allowed (fun _ _ => True) middle) :
    Course (fun σ _ => do return f (← left σ) (← right σ)) allowed (fun _ _ => True) source := by
  refine hleft.bind fun {_ middle first} _ _ => ?_
  exact (hright middle).bind fun _ _ => course_pure _ trivial

/-! ### Dice of one size -/

/-- All throws are of dice with these sides, and the faces and the value fulfil the condition. -/
def OfSides (sides : Int) (holds : List Int → α → Prop) (throws : List Throw) (value : α) : Prop :=
  ∃ faces : List Int, throws = faces.map (Throw.mk sides) ∧ holds faces value

variable {sides : Int} {holds : List Int → α → Prop} {holdsNext : List Int → β → Prop}

theorem ofSides_nil {value : α} (h : holds [] value) : OfSides sides holds [] value := ⟨[], rfl, h⟩

theorem course_face_ofSides (sides : Int) :
    Course (fun _ _ => face sides) allowed (OfSides sides fun faces n => faces = [n]) source :=
  (course_face sides).imp fun _ n h => ⟨[n], h, rfl⟩

theorem Course.bind_ofSides {action : Action α} {next : α → Action β}
    (h : Course action allowed (OfSides sides holds) source)
    (hnext : ∀ {faces after value}, Source.Gives source (faces.map (Throw.mk sides)) after →
      holds faces value →
      Course (next value) allowed (OfSides sides fun later => holdsNext (faces ++ later)) after) :
    Course (fun σ _ => action σ >>= fun a => next a σ) allowed (OfSides sides holdsNext)
      source := by
  refine h.bind fun hgives hvalue => ?_
  obtain ⟨faces, rfl, hvalue⟩ := hvalue
  refine (hnext hgives hvalue).imp ?_
  rintro _ result ⟨later, rfl, hresult⟩
  exact ⟨faces ++ later, List.map_append.symm, hresult⟩

theorem Course.map_ofSides {action : Action α} (f : α → β)
    (h : Course action allowed (OfSides sides holds) source) :
    Course (fun σ _ => f <$> action σ) allowed
      (OfSides sides fun faces result => ∃ value, holds faces value ∧ f value = result) source := by
  refine (h.map f).imp ?_
  rintro _ result ⟨value, ⟨faces, rfl, hvalue⟩, hresult⟩
  exact ⟨faces, rfl, value, hvalue, hresult⟩

theorem course_dice (count : Nat) (sides : Int) (status : Status) (source : σ) :
    Course (fun _ _ => dice count sides status) allowed
      (OfSides sides fun faces dice =>
        faces.length = count ∧ dice = faces.map (Die.showing status)) source := by
  unfold dice
  induction count generalizing source with
  | zero => exact course_pure _ (ofSides_nil ⟨rfl, rfl⟩)
  | succ count ih =>
    simp only [times_succ]
    refine ((course_face_ofSides sides).map_ofSides (Die.showing status)).bind_ofSides ?_
    rintro _ middle _ - ⟨face, rfl, rfl⟩
    refine (ih middle).bind_ofSides ?_
    rintro faces last _ - ⟨hlength, rfl⟩
    refine course_pure _ (ofSides_nil ⟨?_, ?_⟩)
    · simp [hlength]
    · simp

theorem face_of_draw {n : Int} (h : Source.draw sides source = .ok (n, after)) :
    face sides source = .ok n after := by
  rw [face, h]

theorem dice_of_gives {faces : List Int} (status : Status)
    (h : Source.Gives source (faces.map (Throw.mk sides)) after) :
    dice faces.length sides status source = .ok (faces.map (Die.showing status)) after := by
  unfold dice
  induction faces generalizing source with
  | nil =>
    cases h
    rfl
  | cons face faces ih =>
    rcases h with _ | @⟨_, middle, _, _, _, _, hdraw, h⟩
    have hface : Rolling.face sides source = .ok face middle := face_of_draw hdraw
    rw [List.length_cons, times_succ]
    exact bind_eq_ok.mpr ⟨Die.showing status face, middle, map_eq_ok.mpr ⟨face, hface, rfl⟩,
      bind_eq_ok.mpr ⟨_, _, ih h, rfl⟩⟩

/-! ### What a course tells -/

theorem Course.of_ok {action : Action α} {value : α} (h : Course action allowed fulfils source)
    (hok : action σ source = .ok value after) :
    ∃ throws, Source.Gives source throws after ∧ Leads action throws (fun _ _ => pure value) ∧
      fulfils throws value := by
  cases h with
  | result hgives hleads hvalue =>
    cases (hleads hgives).symm.trans hok
    exact ⟨_, hgives, hleads, hvalue⟩
  | fault hgives hleads hfault => cases (hleads hgives).symm.trans hok
  | starved hgives hleads hdraw =>
    cases (hleads.eq_of_draw_error hgives hdraw).symm.trans hok

theorem Course.of_error {action : Action α} {fault : Fault}
    (h : Course action allowed fulfils source) (herror : action σ source = .error fault after) :
    (∃ throws, Source.Gives source throws after ∧ Leads action throws (fun _ _ => throw fault) ∧
        allowed fault) ∨
      ∃ sides cause, Source.draw sides after = .error cause ∧
        fault = (Fault.source cause).raised := by
  cases h with
  | result hgives hleads hvalue => cases (hleads hgives).symm.trans herror
  | fault hgives hleads hfault =>
    cases (hleads hgives).symm.trans herror
    exact .inl ⟨_, hgives, hleads, hfault⟩
  | starved hgives hleads hdraw =>
    cases (hleads.eq_of_draw_error hgives hdraw).symm.trans herror
    exact .inr ⟨_, _, hdraw, rfl⟩

end Rolling

end DiceNotation
