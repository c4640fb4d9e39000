import Mathlib.Data.List.Induction

/-!
# Outcomes of C calls and runs of a step function

A call returns success, returns an error while its effects stay, or does
something the language gives no meaning to. A run feeds inputs to a step
function one by one and stops at the first outcome that is not a success.
Everything here is over arbitrary states, inputs and causes.
-/
namespace CallOutcome

variable {ε σ τ ι : Type}

inductive Outcome (ε σ : Type) where
  | ok (s : σ)
  | failed (s : σ)
  | undefined (why : ε)
  deriving DecidableEq, Repr

namespace Outcome

/-- Sequencing: only a success goes on. -/
def bind (x : Outcome ε σ) (f : σ → Outcome ε σ) : Outcome ε σ :=
  match x with
  | .ok s => f s
  | .failed s => .failed s
  | .undefined why => .undefined why

/-- Apply a total function to whatever state the call leaves. -/
def map (f : σ → τ) : Outcome ε σ → Outcome ε τ
  | .ok s => .ok (f s)
  | .failed s => .failed (f s)
  | .undefined why => .undefined why

/-- A caller that goes on after a failure. -/
def recover (f : σ → σ) : Outcome ε σ → Outcome ε σ
  | .ok s => .ok s
  | .failed s => .ok (f s)
  | .undefined why => .undefined why

/-- The state of a success. -/
def toOption : Outcome ε σ → Option σ
  | .ok s => some s
  | _ => none

@[simp] theorem bind_ok (s : σ) (f : σ → Outcome ε σ) : (Outcome.ok s).bind f = f s := rfl
@[simp] theorem bind_failed (s : σ) (f : σ → Outcome ε σ) :
    (Outcome.failed s).bind f = .failed s := rfl
@[simp] theorem bind_undefined (why : ε) (f : σ → Outcome ε σ) :
    (Outcome.undefined why : Outcome ε σ).bind f = .undefined why := rfl

@[simp] theorem map_ok (f : σ → τ) (s : σ) : (Outcome.ok s : Outcome ε σ).map f = .ok (f s) := rfl
@[simp] theorem map_failed (f : σ → τ) (s : σ) :
    (Outcome.failed s : Outcome ε σ).map f = .failed (f s) := rfl
@[simp] theorem map_undefined (f : σ → τ) (why : ε) :
    (Outcome.undefined why : Outcome ε σ).map f = .undefined why := rfl

/-- Inversion of a successful sequence. -/
theorem bind_eq_ok {x : Outcome ε σ} {f : σ → Outcome ε σ} {t : σ} :
    x.bind f = .ok t ↔ ∃ s, x = .ok s ∧ f s = .ok t := by
  cases x <;> simp

theorem map_eq_ok {x : Outcome ε σ} {f : σ → τ} {t : τ} :
    x.map f = .ok t ↔ ∃ s, x = .ok s ∧ f s = t := by
  cases x <;> simp

theorem recover_eq_ok {x : Outcome ε σ} {f : σ → σ} {t : σ} :
    x.recover f = .ok t ↔ x = .ok t ∨ ∃ s, x = .failed s ∧ f s = t := by
  cases x <;> simp [recover]

/-- A computed observation of a successful outcome yields the outcome. -/
theorem exists_of_toOption {x : Outcome ε σ} {f : σ → τ} {t : τ}
    (h : x.toOption.map f = some t) : ∃ s, x = .ok s ∧ f s = t := by
  cases x <;> simp_all [toOption]

/-- What holds of the state a call leaves, whether it succeeds or fails. -/
def Holds (P : σ → Prop) : Outcome ε σ → Prop
  | .ok s => P s
  | .failed s => P s
  | .undefined _ => True

theorem Holds.bind {P Q : σ → Prop} {x : Outcome ε σ} {f : σ → Outcome ε σ} (h : x.Holds P)
    (hf : ∀ s, P s → (f s).Holds Q) (hPQ : ∀ s, P s → Q s) : (x.bind f).Holds Q := by
  cases x with
  | ok s => exact hf s h
  | failed s => exact hPQ s h
  | undefined why => trivial

theorem Holds.map {P : σ → Prop} {Q : τ → Prop} {x : Outcome ε σ} {f : σ → τ} (h : x.Holds P)
    (hf : ∀ s, P s → Q (f s)) : (x.map f).Holds Q := by
  cases x with
  | ok s => exact hf s h
  | failed s => exact hf s h
  | undefined why => trivial

theorem Holds.recover {P Q : σ → Prop} {x : Outcome ε σ} {f : σ → σ} (h : x.Holds P)
    (hok : ∀ s, P s → Q s) (hf : ∀ s, P s → Q (f s)) : (x.recover f).Holds Q := by
  cases x with
  | ok s => exact hok s h
  | failed s => exact hf s h
  | undefined why => trivial

theorem Holds.mono {P Q : σ → Prop} {x : Outcome ε σ} (h : x.Holds P) (hPQ : ∀ s, P s → Q s) :
    x.Holds Q := by
  cases x with
  | ok s => exact hPQ s h
  | failed s => exact hPQ s h
  | undefined why => trivial

theorem Holds.ok {P : σ → Prop} {x : Outcome ε σ} {s : σ} (h : x.Holds P) (hs : x = .ok s) :
    P s := by
  subst hs
  exact h

theorem bind_assoc (x : Outcome ε σ) (f g : σ → Outcome ε σ) :
    (x.bind f).bind g = x.bind (fun s => (f s).bind g) := by
  cases x <;> rfl

theorem map_map {υ : Type} (x : Outcome ε σ) (f : σ → τ) (g : τ → υ) :
    (x.map f).map g = x.map fun s => g (f s) := by
  cases x <;> rfl

/-- A sequence seen through a projection that both parts respect. -/
theorem map_bind {x : Outcome ε σ} {f : σ → Outcome ε σ} {g : σ → τ} {k : τ → Outcome ε τ}
    (h : ∀ s, (f s).map g = k (g s)) : (x.bind f).map g = (x.map g).bind k := by
  cases x with
  | ok s => exact h s
  | failed s => rfl
  | undefined why => rfl

theorem map_recover {x : Outcome ε σ} {f : σ → σ} {g : σ → τ} {k : τ → τ}
    (h : ∀ s, g (f s) = k (g s)) : (x.recover f).map g = (x.map g).recover k := by
  cases x with
  | ok s => rfl
  | failed s => exact congrArg Outcome.ok (h s)
  | undefined why => rfl

end Outcome

variable (step : ι → σ → Outcome ε σ)

def run : List ι → σ → Outcome ε σ
  | [], s => .ok s
  | i :: is, s => (step i s).bind (run is)

@[simp] theorem run_nil (s : σ) : run step [] s = .ok s := rfl
@[simp] theorem run_cons (i : ι) (is : List ι) (s : σ) :
    run step (i :: is) s = (step i s).bind (run step is) := rfl

/-- Exact concatenation of runs. -/
theorem run_append (xs ys : List ι) (s : σ) :
    run step (xs ++ ys) s = (run step xs s).bind (run step ys) := by
  induction xs generalizing s with
  | nil => rfl
  | cons i is ih =>
    simp only [List.cons_append, run_cons, Outcome.bind_assoc]
    congr 1
    funext t
    exact ih t

/-- A run of runs is one run. -/
theorem run_flatMap {κ : Type} (f : κ → List ι) (ks : List κ) (s : σ) :
    run step (ks.flatMap f) s = run (fun k => run step (f k)) ks s := by
  induction ks generalizing s with
  | nil => rfl
  | cons k ks ih =>
    rw [List.flatMap_cons, run_append, run_cons]
    congr 1
    funext t
    exact ih t

@[simp] theorem bind_run_nil (x : Outcome ε σ) : x.bind (run step []) = x := by
  cases x <;> rfl

theorem run_map_input {κ : Type} (f : κ → ι) (ks : List κ) (s : σ) :
    run step (ks.map f) s = run (fun k => step (f k)) ks s := by
  induction ks generalizing s with
  | nil => rfl
  | cons k ks ih =>
    rw [List.map_cons, run_cons, run_cons]
    congr 1
    funext t
    exact ih t

/-- Steps that do nothing for some inputs. -/
theorem run_filter (p : ι → Bool) (is : List ι) (s : σ) :
    run step (is.filter p) s = run (fun i t => if p i then step i t else .ok t) is s := by
  induction is generalizing s with
  | nil => rfl
  | cons i is ih =>
    rw [run_cons, List.filter_cons]
    split
    · rw [run_cons]
      congr 1
      funext t
      exact ih t
    · exact ih s

theorem run_concat (xs : List ι) (i : ι) (s : σ) :
    run step (xs ++ [i]) s = (run step xs s).bind (step i) := by
  rw [run_append]
  congr 1
  funext t
  rw [run_cons, bind_run_nil]

/-- A run seen through a projection that every step respects. -/
theorem run_project {step' : ι → τ → Outcome ε τ} {g : σ → τ}
    (h : ∀ i s, (step i s).map g = step' i (g s)) (is : List ι) (s : σ) :
    (run step is s).map g = run step' is (g s) := by
  induction is generalizing s with
  | nil => rfl
  | cons i is ih => rw [run_cons, run_cons, Outcome.map_bind ih, h]

/-- A run that succeeds passes through a state at every prefix. -/
theorem run_front {xs ys : List ι} {s t : σ} (h : run step (xs ++ ys) s = .ok t) :
    ∃ m, run step xs s = .ok m ∧ run step ys m = .ok t := by
  rw [run_append] at h
  exact Outcome.bind_eq_ok.mp h

/-- Steps that are the same wherever an invariant holds. -/
theorem run_congr {step' : ι → σ → Outcome ε σ} {I : σ → Prop}
    (preserved : ∀ i s t, I s → step i s = .ok t → I t) {is : List ι}
    (same : ∀ i ∈ is, ∀ s, I s → step i s = step' i s) {s : σ} (h : I s) :
    run step is s = run step' is s := by
  induction is generalizing s with
  | nil => rfl
  | cons i is ih =>
    rw [run_cons, run_cons, ← same i List.mem_cons_self s h]
    cases hstep : step i s with
    | ok t =>
      exact ih (fun j hj => same j (List.mem_cons_of_mem i hj)) (preserved i s t h hstep)
    | failed t => rfl
    | undefined why => rfl

/-- The invariant rule for the state a run leaves, also when it fails. -/
theorem run_holds {P : σ → Prop} (preserved : ∀ i s, P s → (step i s).Holds P) (is : List ι)
    {s : σ} (h : P s) : (run step is s).Holds P := by
  induction is generalizing s with
  | nil => exact h
  | cons i is ih => exact (preserved i s h).bind (fun t ht => ih ht) fun t ht => ht

/-- Every input of the list is admitted after the inputs before it. -/
def Guarded (C : List ι → ι → Prop) (is : List ι) : Prop :=
  ∀ xs i ys, is = xs ++ i :: ys → C xs i

theorem guarded_front {C : List ι → ι → Prop} {xs ys : List ι} (h : Guarded C (xs ++ ys)) :
    Guarded C xs := by
  intro us i vs he
  exact h us i (vs ++ ys) (by simp [he])

theorem guarded_last {C : List ι → ι → Prop} {xs : List ι} {i : ι} (h : Guarded C (xs ++ [i])) :
    C xs i := h xs i [] rfl

theorem guarded_concat {C : List ι → ι → Prop} {xs : List ι} {i : ι} (h : Guarded C xs)
    (hi : C xs i) : Guarded C (xs ++ [i]) := by
  intro us j vs he
  rcases vs.eq_nil_or_concat with rfl | ⟨ws, k, rfl⟩
  · obtain ⟨rfl, hj⟩ := List.append_inj' he rfl
    cases hj
    exact hi
  · have hcut : xs ++ [i] = (us ++ j :: ws) ++ [k] := by simpa using he
    obtain ⟨he', -⟩ := List.append_inj' hcut rfl
    exact h us j ws he'

theorem guarded_iff_getElem {C : List ι → ι → Prop} {is : List ι} :
    Guarded C is ↔ ∀ (n : Nat) (h : n < is.length), C (is.take n) is[n] := by
  constructor
  · intro hg n h
    refine hg _ _ (is.drop (n + 1)) ?_
    rw [← List.drop_eq_getElem_cons h, List.take_append_drop]
  · rintro hg xs i ys rfl
    simpa using hg xs.length (by simp)

instance {C : List ι → ι → Prop} [∀ xs i, Decidable (C xs i)] (is : List ι) :
    Decidable (Guarded C is) := decidable_of_iff _ guarded_iff_getElem.symm

/-- The invariant rule for runs whose inputs are all admitted. -/
theorem run_guarded {C : List ι → ι → Prop} {I : List ι → σ → Prop} {s : σ} (start : I [] s)
    (preserved : ∀ is i t u, C is i → I is t → step i t = .ok u → I (is ++ [i]) u)
    {is : List ι} {t : σ} (hg : Guarded C is) (h : run step is s = .ok t) : I is t := by
  induction is using List.reverseRecOn generalizing t with
  | nil =>
    cases h
    exact start
  | append_singleton is i ih =>
    rw [run_concat] at h
    obtain ⟨m, hm, hi⟩ := Outcome.bind_eq_ok.mp h
    exact preserved is i m t (guarded_last hg) (ih (guarded_front hg) hm) hi

/-- The invariant rule with history: what holds at the start and is carried by
each successful step holds of everything the run has read and of its state. -/
theorem run_history {I : List ι → σ → Prop} {s : σ} (start : I [] s)
    (preserved : ∀ is i t u, I is t → step i t = .ok u → I (is ++ [i]) u)
    {is : List ι} {t : σ} (h : run step is s = .ok t) : I is t :=
  run_guarded step (C := fun _ _ => True) start (fun is i t u _ => preserved is i t u)
    (fun _ _ _ _ => trivial) h

/-- Where every step uses up some of the work there is, a run is no longer than the work. -/
theorem run_length_le {I : σ → Prop} {work : σ → Nat} {is : List ι} {s t : σ} (start : I s)
    (decreases : ∀ i t u, I t → step i t = .ok u → I u ∧ work u < work t)
    (h : run step is s = .ok t) : is.length + work t ≤ work s := by
  induction is generalizing s with
  | nil =>
    cases h
    simp
  | cons i is ih =>
    obtain ⟨u, hu, hrest⟩ := Outcome.bind_eq_ok.mp h
    obtain ⟨hI, hless⟩ := decreases i s u start hu
    have hle := ih hI hrest
    simp only [List.length_cons]
    omega

/-- The inputs are those of a run: each one arrives in a state that the
earlier ones reach. What the last one does is left open. -/
def IsRun (s : σ) (is : List ι) : Prop := Guarded (fun xs _ => ∃ t, run step xs s = .ok t) is

theorem isRun_of_ok {s t : σ} {is : List ι} (h : run step is s = .ok t) : IsRun step s is := by
  intro xs i ys he
  subst he
  obtain ⟨m, hm, -⟩ := run_front step h
  exact ⟨m, hm⟩

theorem isRun_concat {s t : σ} {is : List ι} (h : run step is s = .ok t) (i : ι) :
    IsRun step s (is ++ [i]) := by
  intro xs j ys he
  rcases ys.eq_nil_or_concat with rfl | ⟨zs, k, rfl⟩
  · obtain ⟨rfl, -⟩ := List.append_inj' he rfl
    exact ⟨t, h⟩
  · have hcut : is ++ [i] = (xs ++ j :: zs) ++ [k] := by simpa using he
    obtain ⟨he', -⟩ := List.append_inj' hcut rfl
    exact isRun_of_ok step h xs j zs he'

/-- A property of every state the inputs reach from `s`. -/
def Always (P : σ → Prop) (s : σ) (is : List ι) : Prop :=
  ∀ xs ys t, is = xs ++ ys → run step xs s = .ok t → P t

/-- Every input arrives in a state that meets the condition with it. -/
def Admitted (C : σ → ι → Prop) (s : σ) (is : List ι) : Prop :=
  ∀ xs i ys t, is = xs ++ i :: ys → run step xs s = .ok t → C t i

variable {step} {s : σ} {is : List ι}

theorem Always.front {P : σ → Prop} {xs ys : List ι} (h : Always step P s (xs ++ ys)) :
    Always step P s xs :=
  fun us vs t he ht => h us (vs ++ ys) t (by simp [he]) ht

theorem Admitted.front {C : σ → ι → Prop} {xs ys : List ι} (h : Admitted step C s (xs ++ ys)) :
    Admitted step C s xs :=
  fun us i vs t he ht => h us i (vs ++ ys) t (by simp [he]) ht

theorem admitted_nil (C : σ → ι → Prop) (s : σ) : Admitted step C s [] := by
  intro xs i ys t he
  simp at he

theorem admitted_cons {C : σ → ι → Prop} {i : ι} (h : C s i)
    (hrest : ∀ t, step i s = .ok t → Admitted step C t is) : Admitted step C s (i :: is) := by
  intro xs j ys t he ht
  cases xs with
  | nil =>
    obtain ⟨rfl, -⟩ := List.cons.inj he
    cases ht
    exact h
  | cons x xs =>
    obtain ⟨rfl, he'⟩ := List.cons.inj he
    obtain ⟨u, hu, hxs⟩ := Outcome.bind_eq_ok.mp ht
    exact hrest u hu xs j ys t he' hxs

theorem Admitted.head {C : σ → ι → Prop} {i : ι} (h : Admitted step C s (i :: is)) : C s i :=
  h [] i is s rfl rfl

theorem Admitted.tail {C : σ → ι → Prop} {i : ι} (h : Admitted step C s (i :: is)) {t : σ}
    (ht : step i s = .ok t) : Admitted step C t is :=
  fun us j vs u he hu => h (i :: us) j vs u (by simp [he]) (by simp [ht, hu])

/-- Where every admitted input has a successful step, the run succeeds. -/
theorem Admitted.run_total {I : σ → Prop} {C : σ → ι → Prop} (start : I s)
    (total : ∀ i t, I t → C t i → ∃ u, step i t = .ok u ∧ I u) (h : Admitted step C s is) :
    ∃ t, run step is s = .ok t ∧ I t := by
  induction is generalizing s with
  | nil => exact ⟨s, rfl, start⟩
  | cons i is ih =>
    obtain ⟨u, hu, hI⟩ := total i s start h.head
    obtain ⟨t, ht, hIt⟩ := ih hI (h.tail hu)
    exact ⟨t, by rw [run_cons, hu, Outcome.bind_ok, ht], hIt⟩

/-- Conditions that are the same in every reachable state admit the same runs. -/
theorem admitted_congr {I : σ → Prop} {C D : σ → ι → Prop} (start : I s)
    (preserved : ∀ i t u, I t → step i t = .ok u → I u) (same : ∀ t i, I t → (C t i ↔ D t i)) :
    Admitted step C s is ↔ Admitted step D s is := by
  have hI : ∀ {xs t}, run step xs s = .ok t → I t := fun h =>
    run_history step (I := fun _ => I) start (fun _ i t u => preserved i t u) h
  exact forall₅_congr fun xs i ys t _ => forall_congr' fun ht => same t i (hI ht)

/-- The invariant rule for runs whose inputs meet a condition on the state they
arrive in; the invariant also speaks of the inputs read so far. -/
theorem history_of_admitted {I : List ι → σ → Prop} {C : σ → ι → Prop} (start : I [] s)
    (preserved : ∀ xs i ys t u, is = xs ++ i :: ys → I xs t → C t i → step i t = .ok u →
      I (xs ++ [i]) u)
    (h : Admitted step C s is) {xs ys : List ι} (he : is = xs ++ ys) {t : σ}
    (ht : run step xs s = .ok t) : I xs t := by
  induction xs using List.reverseRecOn generalizing ys t with
  | nil =>
    cases ht
    exact start
  | append_singleton xs i ih =>
    have he' : is = xs ++ i :: ys := by simp [he]
    rw [run_concat] at ht
    obtain ⟨m, hm, hi⟩ := Outcome.bind_eq_ok.mp ht
    exact preserved xs i ys m t he' (ih he' hm) (h xs i ys m he' hm) hi

/-- The same without history. -/
theorem always_of_admitted {I : σ → Prop} {C : σ → ι → Prop} (start : I s)
    (preserved : ∀ i ∈ is, ∀ t u, I t → C t i → step i t = .ok u → I u)
    (h : Admitted step C s is) : Always step I s is := by
  intro xs ys t he ht
  refine history_of_admitted (I := fun _ => I) start (fun xs i ys t u he => ?_) h he ht
  exact preserved i (by simp [he]) t u

/-- Conditions that agree wherever the invariant holds admit the same runs,
also when the invariant is kept only under the conditions. -/
theorem admitted_iff_of_history {I : List ι → σ → Prop} {C D : σ → ι → Prop} (start : I [] s)
    (same : ∀ xs i ys t, is = xs ++ i :: ys → I xs t → (C t i ↔ D t i))
    (preserved : ∀ xs i ys t u, is = xs ++ i :: ys → I xs t → D t i → step i t = .ok u →
      I (xs ++ [i]) u) :
    Admitted step C s is ↔ Admitted step D s is := by
  constructor
  · intro h xs i ys t he ht
    have hI : I xs t := history_of_admitted start (fun xs i ys t u he hI hC =>
      preserved xs i ys t u he hI ((same xs i ys t he hI).mp hC)) h he ht
    exact (same xs i ys t he hI).mp (h xs i ys t he ht)
  · intro h xs i ys t he ht
    have hI : I xs t := history_of_admitted start preserved h he ht
    exact (same xs i ys t he hI).mpr (h xs i ys t he ht)

/-- The rule for exact conditions: when a step from an invariant state shows
the observed property exactly under the condition, and the property restores
the invariant, it holds all along a run exactly when the condition does. -/
theorem always_iff_admitted {I P : σ → Prop} {C : σ → ι → Prop} (start : I s)
    (observe : ∀ t, I t → P t)
    (exact : ∀ i ∈ is, ∀ t u, I t → step i t = .ok u → (P u ↔ C t i))
    (restore : ∀ i ∈ is, ∀ t u, I t → step i t = .ok u → P u → I u)
    (total : ∀ i ∈ is, ∀ t, I t → ¬ C t i → ∃ u, step i t = .ok u) :
    Always step P s is ↔ Admitted step C s is := by
  constructor
  · intro h
    have hshows : Admitted step (fun t i => ∀ u, step i t = .ok u → P u) s is := by
      intro xs i ys t he ht u hu
      refine h (xs ++ [i]) ys u (by simp [he]) ?_
      rw [run_concat, ht]
      exact hu
    have hI : Always step I s is := always_of_admitted start
      (fun i hmem t u hIt hP hu => restore i hmem t u hIt hu (hP u hu)) hshows
    intro xs i ys t he ht
    have hmem : i ∈ is := by simp [he]
    have hIt := hI xs _ t he ht
    by_contra hC
    obtain ⟨u, hu⟩ := total i hmem t hIt hC
    exact hC ((exact i hmem t u hIt hu).mp (hshows xs i ys t he ht u hu))
  · intro h xs ys t he ht
    exact observe t (always_of_admitted start
      (fun i hm t u hI hC hi => restore i hm t u hI hi ((exact i hm t u hI hi).mpr hC)) h
      xs ys t he ht)

end CallOutcome
