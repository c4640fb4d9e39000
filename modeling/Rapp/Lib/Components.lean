import Rapp.Lib.Outcome

/-!
# Components of an interleaved run

A system whose steps deliver events to components. Where each step changes at
most the component it delivers to, by that component's own step, and components
start alike, every component is where its own events have taken it. Everything
here is over arbitrary states, inputs, names, components and events.
-/
namespace InterleavedComponents

open CallOutcome (Outcome run)

variable {ε δ σ ι κ α β : Type} [DecidableEq κ]

/-- The events of a label that are for this component. -/
def forComponent (k : κ) (label : Option (κ × β)) : List β :=
  label.toList.filterMap fun e => if e.1 = k then some e.2 else none

@[simp] theorem forComponent_none (k : κ) : forComponent k (none : Option (κ × β)) = [] := rfl
@[simp] theorem forComponent_self (k : κ) (event : β) :
    forComponent k (some (k, event)) = [event] := by simp [forComponent]
theorem forComponent_other {k other : κ} (h : other ≠ k) (event : β) :
    forComponent k (some (other, event)) = [] := by simp [forComponent, h]

variable (step : ι → σ → Outcome ε σ) (label : ι → σ → Option (κ × β))

/-- The events a run delivers to a component, in order. -/
def eventsOf (k : κ) : List ι → σ → List β
  | [], _ => []
  | i :: is, s => forComponent k (label i s) ++ (step i s).toOption.elim [] (eventsOf k is)

theorem eventsOf_concat (k : κ) {is : List ι} {s t : σ} (h : run step is s = .ok t) (i : ι) :
    eventsOf step label k (is ++ [i]) s =
      eventsOf step label k is s ++ forComponent k (label i t) := by
  induction is generalizing s with
  | nil =>
    obtain rfl := Outcome.ok.inj h
    have hnone : (step i s).toOption.elim [] (eventsOf step label k []) = [] := by
      cases (step i s).toOption <;> rfl
    change forComponent k (label i s) ++ (step i s).toOption.elim [] _ = _
    rw [hnone, List.append_nil]
    rfl
  | cons j is ih =>
    obtain ⟨u, hu, hrest⟩ := Outcome.bind_eq_ok.mp h
    simp [eventsOf, hu, Outcome.toOption, ih hrest]

/-- What delivered events may do: `view` gives the components of a state, `used`
the names there have been. -/
structure Isolates (act : β → α → Outcome δ α) (new : α) (view : σ → κ → α → Prop)
    (used : σ → κ → Prop) (i : ι) (s t : σ) : Prop where
  delivered : ∀ k event, label i s = some (k, event) → used s k
  kept : ∀ k, used s k → used t k
  component : ∀ k c, view t k c →
    (forComponent k (label i s) = [] ∧ view s k c) ∨
    (∃ event before, label i s = some (k, event) ∧ view s k before ∧ act event before = .ok c) ∨
    (¬ used s k ∧ used t k ∧ c = new)

variable {step label} {act : β → α → Outcome δ α} {new : α} {view : σ → κ → α → Prop}
  {used : σ → κ → Prop}

/-- Every component is where its own events lead. -/
theorem component_run {I : σ → Prop} {s : σ} (start : I s) (empty : ∀ k c, ¬ view s k c)
    (preserved : ∀ i t u, I t → step i t = .ok u → I u)
    (isolates : ∀ i t u, I t → step i t = .ok u → Isolates label act new view used i t u)
    {is : List ι} {t : σ} (h : run step is s = .ok t) {k : κ} {c : α} (hc : view t k c) :
    run act (eventsOf step label k is s) new = .ok c := by
  have hevents : ∀ {is t}, run step is s = .ok t → I t ∧
      (∀ k, ¬ used t k → eventsOf step label k is s = []) ∧
      ∀ k c, view t k c → run act (eventsOf step label k is s) new = .ok c := by
    intro is
    induction is using List.reverseRecOn with
    | nil =>
      intro t ht
      obtain rfl := Outcome.ok.inj ht
      exact ⟨start, fun k _ => rfl, fun k c hc => absurd hc (empty k c)⟩
    | append_singleton is i ih =>
      intro u hu
      rw [CallOutcome.run_concat] at hu
      obtain ⟨t, ht, hstep⟩ := Outcome.bind_eq_ok.mp hu
      obtain ⟨hI, hunused, hview⟩ := ih ht
      have hisolates := isolates i t u hI hstep
      refine ⟨preserved i t u hI hstep, fun k hk => ?_, fun k c hc => ?_⟩
      · have hbefore : ¬ used t k := fun hused => hk (hisolates.kept k hused)
        rw [eventsOf_concat step label k ht, hunused k hbefore, List.nil_append]
        cases hlabel : label i t with
        | none => rfl
        | some e =>
          refine forComponent_other (fun he => hbefore ?_) e.2
          exact hisolates.delivered k e.2 (by rw [hlabel, ← he])
      · rw [eventsOf_concat step label k ht, CallOutcome.run_append]
        rcases hisolates.component k c hc with ⟨hnone, hold⟩ | ⟨event, before, hlabel, hold, hact⟩ |
          ⟨hfresh, -, rfl⟩
        · rw [hnone, hview k c hold]
          rfl
        · rw [hlabel, forComponent_self, hview k before hold, Outcome.bind_ok,
            CallOutcome.run_cons, hact]
          rfl
        · rw [hunused k hfresh]
          cases hlabel : label i t with
          | none => rfl
          | some e =>
            rw [forComponent_other (fun he => hfresh ?_) e.2]
            · rfl
            · exact hisolates.delivered k e.2 (by rw [hlabel, ← he])
  exact (hevents h).2.2 k c hc

end InterleavedComponents
