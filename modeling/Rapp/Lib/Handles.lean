import Rapp.Lib.Outcome

/-!
# Handles used by the inputs of a run

Each input of a run uses a handle. A handle is live until a step releases it,
and a released handle never becomes live again. Every input finds its handle
live exactly when no step releases what a later one uses.
-/
namespace CallOutcome

variable {ε σ ι ρ : Type}

/-- What a step may do to handles. -/
structure Handles (step : ι → σ → Outcome ε σ) (handle : ι → ρ) (I : σ → Prop)
    (live gone : σ → ρ → Prop) (releases : σ → ι → ρ → Prop) : Prop where
  invariant : ∀ i s t, I s → step i s = .ok t → I t
  total : ∀ i s, I s → live s (handle i) → ∃ t, step i s = .ok t
  kept : ∀ i s t r, I s → live s r → ¬ releases s i r → step i s = .ok t → live t r
  lost : ∀ i s t r, I s → live s r → releases s i r → step i s = .ok t → gone t r
  stays : ∀ i s t r, I s → gone s r → step i s = .ok t → gone t r
  apart : ∀ s r, gone s r → ¬ live s r

variable (step : ι → σ → Outcome ε σ) (handle : ι → ρ)

/-- No step releases what a later one uses. -/
def Spares (releases : σ → ι → ρ → Prop) (s : σ) (is : List ι) : Prop :=
  ∀ xs i ys t, is = xs ++ i :: ys → run step xs s = .ok t → ∀ j ∈ ys, ¬ releases t i (handle j)

variable {step handle} {I : σ → Prop} {live gone : σ → ρ → Prop} {releases : σ → ι → ρ → Prop}

theorem Spares.tail {s t : σ} {i : ι} {is : List ι} (h : Spares step handle releases s (i :: is))
    (ht : step i s = .ok t) : Spares step handle releases t is :=
  fun us j vs u he hu => h (i :: us) j vs u (by simp [he]) (by simp [ht, hu])

namespace Handles

/-- A handle that is gone is not live when its turn comes. -/
theorem not_admitted_of_gone (H : Handles step handle I live gone releases) {is : List ι} {s : σ}
    (hI : I s) {j : ι} (hj : j ∈ is) (hgone : gone s (handle j)) :
    ¬ Admitted step (fun t i => live t (handle i)) s is := by
  induction is generalizing s with
  | nil => simp at hj
  | cons i is ih =>
    intro h
    rcases List.mem_cons.mp hj with rfl | hj
    · exact H.apart s _ hgone h.head
    · obtain ⟨t, ht⟩ := H.total i s hI h.head
      exact ih (H.invariant i s t hI ht) hj (H.stays i s t _ hI hgone ht) (h.tail ht)

/-- With every handle live at the start, each is live at its turn exactly when it is spared. -/
theorem admitted_iff_spares (H : Handles step handle I live gone releases) {is : List ι} {s : σ}
    (hI : I s) (hlive : ∀ i ∈ is, live s (handle i)) :
    Admitted step (fun t i => live t (handle i)) s is ↔ Spares step handle releases s is := by
  induction is generalizing s with
  | nil =>
    refine ⟨fun _ xs i ys t he => ?_, fun _ => admitted_nil _ s⟩
    simp at he
  | cons i is ih =>
    obtain ⟨t, ht⟩ := H.total i s hI (hlive i (by simp))
    have hIt := H.invariant i s t hI ht
    have hrest : (∀ j ∈ is, ¬ releases s i (handle j)) → ∀ j ∈ is, live t (handle j) :=
      fun hspared j hj => H.kept i s t _ hI (hlive j (by simp [hj])) (hspared j hj) ht
    constructor
    · intro h
      have hspared : ∀ j ∈ is, ¬ releases s i (handle j) := by
        intro j hj hrel
        have hgone := H.lost i s t _ hI (hlive j (by simp [hj])) hrel ht
        exact H.not_admitted_of_gone hIt hj hgone (h.tail ht)
      have htail := (ih hIt (hrest hspared)).mp (h.tail ht)
      intro xs k ys u he hu
      cases xs with
      | nil =>
        obtain ⟨rfl, rfl⟩ := List.cons.inj he
        cases hu
        exact hspared
      | cons x xs =>
        obtain ⟨rfl, he'⟩ := List.cons.inj he
        obtain ⟨t', ht', hxs⟩ := Outcome.bind_eq_ok.mp hu
        cases ht.symm.trans ht'
        exact htail xs k ys u he' hxs
    · intro h
      have hspared : ∀ j ∈ is, ¬ releases s i (handle j) := h [] i is s rfl rfl
      refine admitted_cons (hlive i (by simp)) fun t' ht' => ?_
      cases ht.symm.trans ht'
      exact (ih hIt (hrest hspared)).mpr (h.tail ht)

end Handles

end CallOutcome
