import Mathlib.Logic.Relation

/-!
# Endless loops with an exit

`while (1)` around a body that either goes on with a new state or leaves the
loop with a result. A loop whose state gets smaller in every round is evaluated
with enough rounds for the state it starts in.
-/
namespace EndlessLoop

variable {σ ρ : Type}

/-- At most so many rounds; `stuck` when they do not suffice. -/
def rounds (body : σ → σ ⊕ ρ) (stuck : ρ) : Nat → σ → ρ
  | 0, _ => stuck
  | n + 1, s =>
    match body s with
    | .inl t => rounds body stuck n t
    | .inr r => r

/-- The loop, `size` bounding the rounds. -/
def loop (size : σ → Nat) (body : σ → σ ⊕ ρ) (stuck : ρ) (s : σ) : ρ :=
  rounds body stuck (size s + 1) s

variable {size : σ → Nat} {body : σ → σ ⊕ ρ} {stuck : ρ}

/-- Any number of rounds that suffices gives the same result. -/
theorem rounds_congr (shrinks : ∀ s t, body s = .inl t → size t < size s) {n m : Nat} {s : σ}
    (hn : size s < n) (hm : size s < m) : rounds body stuck n s = rounds body stuck m s := by
  induction n generalizing m s with
  | zero => omega
  | succ n ih =>
    obtain ⟨m, rfl⟩ : ∃ k, m = k + 1 := ⟨m - 1, by omega⟩
    rw [rounds, rounds]
    cases hb : body s with
    | inr r => rfl
    | inl t =>
      have hlt := shrinks s t hb
      exact ih (by omega) (by omega)

theorem loop_exit {s : σ} {r : ρ} (h : body s = .inr r) : loop size body stuck s = r := by
  simp [loop, rounds, h]

theorem loop_next (shrinks : ∀ s t, body s = .inl t → size t < size s) {s t : σ}
    (h : body s = .inl t) : loop size body stuck s = loop size body stuck t := by
  have hlt := shrinks s t h
  have hround : loop size body stuck s = rounds body stuck (size s) t := by
    simp only [loop, rounds, h]
  rw [hround]
  exact rounds_congr shrinks hlt (Nat.lt_succ_self _)

/-- The invariant rule: the loop is left in a round from a state that has the invariant. -/
theorem loop_leaves {P : σ → Prop} (shrinks : ∀ s t, body s = .inl t → size t < size s)
    (kept : ∀ s t, P s → body s = .inl t → P t) {s : σ} (h : P s) :
    ∃ t, P t ∧ body t = .inr (loop size body stuck s) := by
  induction hsize : size s using Nat.strongRecOn generalizing s with
  | ind n ih =>
    cases hb : body s with
    | inr r => exact ⟨s, h, by rw [loop_exit hb, hb]⟩
    | inl t =>
      have hlt := shrinks s t hb
      obtain ⟨u, hu, hbu⟩ := ih (size t) (by omega) (kept s t h hb) rfl
      exact ⟨u, hu, by rw [loop_next shrinks hb, hbu]⟩

/-- The rule with a postcondition: what a round does is said once. -/
theorem loop_post {P : σ → Prop} {Q : ρ → Prop}
    (shrinks : ∀ s t, body s = .inl t → size t < size s)
    (round : ∀ s, P s → Sum.elim P Q (body s)) {s : σ} (h : P s) : Q (loop size body stuck s) := by
  have kept : ∀ s t, P s → body s = .inl t → P t := by
    intro s t hs hnext
    have hround := round s hs
    rwa [hnext] at hround
  obtain ⟨t, ht, hleave⟩ : ∃ t, P t ∧ body t = .inr (loop size body stuck s) :=
    loop_leaves shrinks kept h
  have hround := round t ht
  rwa [hleave] at hround

/-- The states at the head of the loop. -/
def Reaches (body : σ → σ ⊕ ρ) : σ → σ → Prop := Relation.ReflTransGen fun s t => body s = .inl t

theorem loop_reaches (shrinks : ∀ s t, body s = .inl t → size t < size s) {s t : σ}
    (h : Reaches body s t) : loop size body stuck s = loop size body stuck t := by
  induction h with
  | refl => rfl
  | tail hst hround ih => exact ih.trans (loop_next shrinks hround)

/-- A round from a state that is reached leaves the loop. -/
theorem loop_leaves_reached (shrinks : ∀ s t, body s = .inl t → size t < size s) (s : σ) :
    ∃ t, Reaches body s t ∧ body t = .inr (loop size body stuck s) :=
  loop_leaves shrinks (fun _ _ ht hround => ht.tail hround) Relation.ReflTransGen.refl

/-- At most so many of the states at the head of the loop. -/
def heads (body : σ → σ ⊕ ρ) : Nat → σ → List σ
  | 0, _ => []
  | n + 1, s => s :: (body s).elim (heads body n) fun _ => []

/-- The states at the head of the loop, in order. -/
def visited (size : σ → Nat) (body : σ → σ ⊕ ρ) (s : σ) : List σ := heads body (size s + 1) s

theorem heads_congr (shrinks : ∀ s t, body s = .inl t → size t < size s) {n m : Nat} {s : σ}
    (hn : size s < n) (hm : size s < m) : heads body n s = heads body m s := by
  induction n generalizing m s with
  | zero => omega
  | succ n ih =>
    obtain ⟨m, rfl⟩ : ∃ k, m = k + 1 := ⟨m - 1, by omega⟩
    rw [heads, heads]
    cases hb : body s with
    | inr r => rfl
    | inl t =>
      have hlt := shrinks s t hb
      exact congrArg (s :: ·) (ih (by omega) (by omega))

theorem visited_exit {s : σ} {r : ρ} (h : body s = .inr r) : visited size body s = [s] := by
  simp [visited, heads, h]

theorem visited_next (shrinks : ∀ s t, body s = .inl t → size t < size s) {s t : σ}
    (h : body s = .inl t) : visited size body s = s :: visited size body t := by
  have hlt := shrinks s t h
  have hround : visited size body s = s :: heads body (size s) t := by
    simp only [visited, heads, h, Sum.elim_inl]
  rw [hround]
  exact congrArg (s :: ·) (heads_congr shrinks hlt (Nat.lt_succ_self _))

/-- Induction along the rounds. -/
theorem loop_induction {P : σ → Prop} (shrinks : ∀ s t, body s = .inl t → size t < size s)
    (exit : ∀ s r, body s = .inr r → P s) (next : ∀ s t, body s = .inl t → P t → P s) (s : σ) :
    P s := by
  induction hsize : size s using Nat.strongRecOn generalizing s with
  | ind n ih =>
    cases hb : body s with
    | inr r => exact exit s r hb
    | inl t =>
      have hlt := shrinks s t hb
      exact next s t hb (ih (size t) (by omega) t rfl)

/-! ### Loops with a limit

The rounds of a loop with a limit can be over a limit themselves. -/

variable {limited : σ → σ ⊕ Option ρ}

theorem rounds_leaves {n : Nat} {s : σ} {r : ρ}
    (h : rounds limited none n s = some r) :
    ∃ t, Reaches limited s t ∧ limited t = .inr (some r) := by
  induction n generalizing s with
  | zero => cases h
  | succ n ih =>
    rw [rounds] at h
    cases hb : limited s with
    | inl t =>
      rw [hb] at h
      obtain ⟨u, hu, hleft⟩ := ih h
      exact ⟨u, Relation.ReflTransGen.head hb hu, hleft⟩
    | inr x =>
      rw [hb] at h
      cases h
      exact ⟨s, .refl, hb⟩

/-- Within its limit the loop does what it does without one. -/
theorem loop_eq_of_rounds (shrinks : ∀ s t, body s = .inl t → size t < size s)
    (hnext : ∀ s t, limited s = .inl t → body s = .inl t)
    (hexit : ∀ s r, limited s = .inr (some r) → body s = .inr r) {n : Nat} {s : σ} {r : ρ}
    (h : rounds limited none n s = some r) : loop size body stuck s = r := by
  induction n generalizing s with
  | zero => cases h
  | succ n ih =>
    rw [rounds] at h
    cases hb : limited s with
    | inl t =>
      rw [hb] at h
      exact (loop_next shrinks (hnext s t hb)).trans (ih h)
    | inr x =>
      rw [hb] at h
      cases h
      exact loop_exit (hexit s r hb)

/-- A limit above the size of the state is enough. -/
theorem rounds_eq_of_loop (shrinks : ∀ s t, body s = .inl t → size t < size s) {limit : Nat}
    (hnext : ∀ s t, size s < limit → body s = .inl t → limited s = .inl t)
    (hexit : ∀ s r, size s < limit → body s = .inr r → r ≠ stuck → limited s = .inr (some r))
    {n : Nat} {s : σ} (hlimit : size s < limit) (hn : size s < n)
    (h : loop size body stuck s ≠ stuck) :
    rounds limited none n s = some (loop size body stuck s) := by
  induction n generalizing s with
  | zero => omega
  | succ n ih =>
    rw [rounds]
    cases hb : body s with
    | inl t =>
      have hlt := shrinks s t hb
      have hloop : loop size body stuck s = loop size body stuck t := loop_next shrinks hb
      rw [hnext s t hlimit hb, hloop]
      exact ih (by omega) (by omega) (hloop ▸ h)
    | inr r =>
      have hloop : loop size body stuck s = r := loop_exit hb
      rw [hexit s r hlimit hb (hloop ▸ h), hloop]

end EndlessLoop
