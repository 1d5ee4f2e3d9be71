import Mathlib.Data.List.Forall2

/-!
# Results of lists

A list of results is one result if none of them is a fault, and otherwise the first fault.
-/

namespace DiceNotation.Results

variable {ε α β : Type} {f : α → Except ε β} {list : List α}

theorem map_eq_ok_iff {g : α → β} {result : Except ε α} {b : β} :
    g <$> result = .ok b ↔ ∃ a, result = .ok a ∧ g a = b := by
  cases result <;> simp [Functor.map, Except.map]

theorem map_eq_error_iff {g : α → β} {result : Except ε α} {fault : ε} :
    g <$> result = .error fault ↔ result = .error fault := by
  cases result <;> simp [Functor.map, Except.map]

theorem mapM_eq_ok_iff {results : List β} :
    list.mapM f = .ok results ↔ List.Forall₂ (fun a b => f a = .ok b) list results := by
  induction list generalizing results with
  | nil => simp [pure, Except.pure, eq_comm]
  | cons a list ih =>
    rw [List.mapM_cons]
    cases hfirst : f a with
    | error fault => cases results <;> simp [bind, Except.bind, hfirst]
    | ok first =>
      cases hrest : list.mapM f <;> cases results <;>
        simp [bind, Except.bind, pure, Except.pure, ← ih, hfirst, hrest]

theorem exists_result_of_mem {results : List β} (h : list.mapM f = .ok results) {a : α}
    (ha : a ∈ list) : ∃ b ∈ results, f a = .ok b := by
  rw [mapM_eq_ok_iff] at h
  induction h with
  | nil => cases ha
  | cons hfirst _ ih =>
    obtain rfl | ha := List.mem_cons.mp ha
    · exact ⟨_, List.mem_cons_self, hfirst⟩
    · obtain ⟨b, hb, hresult⟩ := ih ha
      exact ⟨b, List.mem_cons_of_mem _ hb, hresult⟩

theorem exists_of_mem_results {results : List β} (h : list.mapM f = .ok results) {b : β}
    (hb : b ∈ results) : ∃ a ∈ list, f a = .ok b := by
  rw [mapM_eq_ok_iff] at h
  induction h with
  | nil => cases hb
  | cons hfirst _ ih =>
    obtain rfl | hb := List.mem_cons.mp hb
    · exact ⟨_, List.mem_cons_self, hfirst⟩
    · obtain ⟨a, ha, hresult⟩ := ih hb
      exact ⟨a, List.mem_cons_of_mem _ ha, hresult⟩

theorem mapM_of_forall {g : α → β} (h : ∀ a ∈ list, f a = .ok (g a)) :
    list.mapM f = .ok (list.map g) := by
  rw [mapM_eq_ok_iff, List.forall₂_map_right_iff, List.forall₂_same]
  exact h

theorem exists_of_mapM_eq_error {fault : ε} (h : list.mapM f = .error fault) :
    ∃ a ∈ list, f a = .error fault := by
  induction list with
  | nil => cases h
  | cons a list ih =>
    rw [List.mapM_cons] at h
    cases hfirst : f a with
    | error first =>
      rw [hfirst] at h
      cases h
      exact ⟨a, List.mem_cons_self, hfirst⟩
    | ok first =>
      cases hrest : list.mapM f with
      | error rest =>
        rw [hfirst, hrest] at h
        cases h
        obtain ⟨b, hb, hfault⟩ := ih hrest
        exact ⟨b, List.mem_cons_of_mem a hb, hfault⟩
      | ok rest =>
        rw [hfirst, hrest] at h
        cases h

end DiceNotation.Results
