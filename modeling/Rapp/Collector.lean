import Rapp.Lib.Outcome

/-!
# The collector

`collector.c`: objects are scheduled to be freed, and a collect calls their
free functions from the front of the list to its end. What a free function
schedules while it runs is a parameter. Beside the list the collector records
the objects scheduled and those of them whose free function has not returned,
the calls of free functions, and the entries that were released.
-/
namespace Rapp

open CallOutcome (Outcome run Admitted)

variable {φ δ : Type} [DecidableEq δ]

/-- A free function with its data. -/
structure FreeCall (φ δ : Type) where
  freeFunc : φ
  data : δ
  deriving DecidableEq

/-- An entry is the how many-eth allocation its `serial` says. -/
structure CollectEntry (φ δ : Type) where
  freeFunc : φ
  data : δ
  serial : Nat
  deriving DecidableEq

def CollectEntry.call (entry : CollectEntry φ δ) : FreeCall φ δ := ⟨entry.freeFunc, entry.data⟩

structure Collector (φ δ : Type) where
  collectEntriesList : List (CollectEntry φ δ)
  nextSerial : Nat
  scheduled : List (FreeCall φ δ)
  pending : List δ
  freed : List (FreeCall φ δ)
  released : List Nat
  deriving DecidableEq

namespace Collector

def new : Collector φ δ where
  collectEntriesList := []
  nextSerial := 0
  scheduled := []
  pending := []
  freed := []
  released := []

/-- The record of a request; an object that is still pending is not counted again. -/
def note (freeFunc : φ) (data : δ) (c : Collector φ δ) : Collector φ δ :=
  if data ∈ c.pending then c
  else { c with
    scheduled := c.scheduled ++ [⟨freeFunc, data⟩]
    pending := data :: c.pending }

def scheduleFree (freeFunc : φ) (data : δ) (allocated : Bool) (c : Collector φ δ) :
    Int × Collector φ δ :=
  if c.collectEntriesList.any fun entry => entry.data = data then (0, c.note freeFunc data)
  else if !allocated then (-1, c)
  else (0, { c.note freeFunc data with
    collectEntriesList := ⟨freeFunc, data, c.nextSerial⟩ :: c.collectEntriesList
    nextSerial := c.nextSerial + 1 })

/-- A free function is called. -/
def called (call : FreeCall φ δ) (c : Collector φ δ) : Collector φ δ :=
  { c with freed := c.freed ++ [call] }

/-- The free function of the object has returned. -/
def returned (data : δ) (c : Collector φ δ) : Collector φ δ :=
  { c with pending := c.pending.erase data }

/-- Whatever is at the head is released, and the list goes on at `next`. -/
def release (next : List (CollectEntry φ δ)) (c : Collector φ δ) : Collector φ δ :=
  { c with
    released := c.released ++ (c.collectEntriesList.head?.map CollectEntry.serial).toList
    collectEntriesList := next }

/-- What a free function schedules, after the free functions that were called before it. -/
abbrev Reschedules (φ δ : Type) := List (FreeCall φ δ) → FreeCall φ δ → List (FreeCall φ δ)

/-- Schedule several objects, the allocations succeeding. -/
def scheduleAll (calls : List (FreeCall φ δ)) (c : Collector φ δ) : Collector φ δ :=
  calls.foldl (fun c call => (c.scheduleFree call.freeFunc call.data true).2) c

variable (reschedules : Reschedules φ δ)

/-- A round of the loop; `next` is read before the free function is called. -/
def collectRound (entry : CollectEntry φ δ) (next : List (CollectEntry φ δ))
    (c : Collector φ δ) : Collector φ δ :=
  (((c.called entry.call).scheduleAll (reschedules c.freed entry.call)).returned entry.data).release
    next

/-- The loop from an entry on. -/
def collectFrom : List (CollectEntry φ δ) → Collector φ δ → Collector φ δ
  | [], c => c
  | entry :: next, c => collectFrom next (c.collectRound reschedules entry next)

def collect (c : Collector φ δ) : Collector φ δ :=
  collectFrom reschedules c.collectEntriesList c

end Collector

inductive CollectorCall (φ δ : Type) where
  | scheduleFree (freeFunc : φ) (data : δ)
  | collect

namespace Collector

variable (reschedules : Reschedules φ δ)

/-- A call on the collector, the allocations succeeding. -/
def step (call : CollectorCall φ δ) (c : Collector φ δ) : Outcome Empty (Collector φ δ) :=
  match call with
  | .scheduleFree freeFunc data => .ok (c.scheduleFree freeFunc data true).2
  | .collect => .ok (c.collect reschedules)

/-- Every object scheduled was freed once, by its own function and with its own
data, nothing else was, the list is empty, and every entry was released once. -/
structure FreedAll (c : Collector φ δ) : Prop where
  freed : c.freed.Perm c.scheduled
  empty : c.collectEntriesList = []
  released : c.released.Perm (List.range c.nextSerial)

/-- Whenever a collect returns, everything is freed. -/
def FreesExactly (calls : List (CollectorCall φ δ)) : Prop :=
  ∀ xs ys c, calls = xs ++ .collect :: ys →
    run (step reschedules) (xs ++ [.collect]) new = .ok c → c.FreedAll

/-- The free functions called from an entry on schedule only objects that have
an entry there. -/
def QuietFrom : List (CollectEntry φ δ) → List (FreeCall φ δ) → Prop
  | [], _ => True
  | entry :: next, freed =>
    (∀ call ∈ reschedules freed entry.call,
      call.data ∈ (entry :: next).map CollectEntry.data) ∧
    QuietFrom next (freed ++ [entry.call])

/-- No free function schedules an object that has no entry. -/
def Quiet (c : Collector φ δ) : CollectorCall φ δ → Prop
  | .scheduleFree _ _ => True
  | .collect => QuietFrom reschedules c.collectEntriesList c.freed

/-! ### The list and the record -/

/-- Every object scheduled is freed or has its entry. -/
structure Balanced (c : Collector φ δ) : Prop where
  calls : (c.freed ++ c.collectEntriesList.map CollectEntry.call).Perm c.scheduled
  serials : (c.released ++ c.collectEntriesList.map CollectEntry.serial).Perm
    (List.range c.nextSerial)
  pending_eq : c.pending = c.collectEntriesList.map CollectEntry.data

omit [DecidableEq δ] in
theorem balanced_new : (new : Collector φ δ).Balanced := ⟨.nil, .nil, rfl⟩

theorem any_data (entries : List (CollectEntry φ δ)) (data : δ) :
    (entries.any fun entry => entry.data = data) = true ↔
      data ∈ entries.map CollectEntry.data := by
  simp

/-- An object that has an entry is not scheduled again. -/
theorem scheduleFree_pending {c : Collector φ δ}
    (h : c.pending = c.collectEntriesList.map CollectEntry.data) (freeFunc : φ) {data : δ}
    (hdata : data ∈ c.collectEntriesList.map CollectEntry.data) :
    (c.scheduleFree freeFunc data true).2 = c := by
  rw [scheduleFree, if_pos ((any_data _ _).mpr hdata), note, if_pos (h ▸ hdata)]

/-- A new object gets the first entry. -/
theorem scheduleFree_new {c : Collector φ δ}
    (h : c.pending = c.collectEntriesList.map CollectEntry.data) (freeFunc : φ) {data : δ}
    (hdata : data ∉ c.collectEntriesList.map CollectEntry.data) :
    (c.scheduleFree freeFunc data true).2 = { c with
      collectEntriesList := ⟨freeFunc, data, c.nextSerial⟩ :: c.collectEntriesList
      nextSerial := c.nextSerial + 1
      scheduled := c.scheduled ++ [⟨freeFunc, data⟩]
      pending := data :: c.pending } := by
  have hpending : data ∉ c.pending := fun hmem => hdata (h ▸ hmem)
  rw [scheduleFree, if_neg (mt (any_data _ _).mp hdata), note, if_neg hpending]
  rfl

theorem Balanced.scheduleFree {c : Collector φ δ} (h : c.Balanced) (freeFunc : φ) (data : δ) :
    (c.scheduleFree freeFunc data true).2.Balanced := by
  by_cases hdata : data ∈ c.collectEntriesList.map CollectEntry.data
  · rw [scheduleFree_pending h.pending_eq freeFunc hdata]
    exact h
  · rw [scheduleFree_new h.pending_eq freeFunc hdata]
    refine ⟨?_, ?_, congrArg (data :: ·) h.pending_eq⟩
    · exact List.perm_middle.trans
        ((h.calls.cons _).trans (List.perm_append_singleton _ c.scheduled).symm)
    · rw [List.range_succ]
      exact List.perm_middle.trans
        ((h.serials.cons _).trans (List.perm_append_singleton _ (List.range c.nextSerial)).symm)

/-! ### A quiet collect -/

theorem scheduleAll_pending {c : Collector φ δ}
    (h : c.pending = c.collectEntriesList.map CollectEntry.data) {calls : List (FreeCall φ δ)}
    (hcalls : ∀ call ∈ calls, call.data ∈ c.collectEntriesList.map CollectEntry.data) :
    c.scheduleAll calls = c := by
  induction calls with
  | nil => rfl
  | cons call calls ih =>
    rw [scheduleAll, List.foldl_cons,
      scheduleFree_pending h call.freeFunc (hcalls call List.mem_cons_self)]
    exact ih fun other hother => hcalls other (List.mem_cons_of_mem _ hother)

/-- A round whose free function is quiet moves the first object to those freed. -/
theorem collectRound_quiet {c : Collector φ δ} (h : c.Balanced) {entry : CollectEntry φ δ}
    {next : List (CollectEntry φ δ)} (hlist : c.collectEntriesList = entry :: next)
    (hquiet : ∀ call ∈ reschedules c.freed entry.call,
      call.data ∈ (entry :: next).map CollectEntry.data) :
    c.collectRound reschedules entry next = { c with
      collectEntriesList := next
      freed := c.freed ++ [entry.call]
      released := c.released ++ [entry.serial]
      pending := next.map CollectEntry.data } := by
  have hpending : (c.called entry.call).pending =
      (c.called entry.call).collectEntriesList.map CollectEntry.data := h.pending_eq
  have hcalls : ∀ call ∈ reschedules c.freed entry.call,
      call.data ∈ (c.called entry.call).collectEntriesList.map CollectEntry.data := by
    rw [called, hlist]
    exact hquiet
  have herase : c.pending.erase entry.data = next.map CollectEntry.data := by
    rw [h.pending_eq, hlist, List.map_cons, List.erase_cons_head]
  rw [collectRound, scheduleAll_pending hpending hcalls, returned, release, called]
  simp only [herase, hlist, List.head?_cons, Option.map_some, Option.toList_some]

theorem Balanced.collectRound_quiet {c : Collector φ δ} (h : c.Balanced)
    {entry : CollectEntry φ δ} {next : List (CollectEntry φ δ)}
    (hlist : c.collectEntriesList = entry :: next)
    (hquiet : ∀ call ∈ reschedules c.freed entry.call,
      call.data ∈ (entry :: next).map CollectEntry.data) :
    (c.collectRound reschedules entry next).Balanced := by
  rw [Collector.collectRound_quiet reschedules h hlist hquiet]
  refine ⟨?_, ?_, rfl⟩
  · have hcalls := h.calls
    rw [hlist, List.map_cons] at hcalls
    simpa using hcalls
  · have hserials := h.serials
    rw [hlist, List.map_cons] at hserials
    simpa using hserials

/-- The run of a quiet collect: the list is worked off and the record stays balanced. -/
theorem Balanced.collectFrom_quiet {entries : List (CollectEntry φ δ)} {c : Collector φ δ}
    (h : c.Balanced) (hlist : c.collectEntriesList = entries)
    (hquiet : QuietFrom reschedules entries c.freed) :
    (collectFrom reschedules entries c).Balanced ∧
      (collectFrom reschedules entries c).collectEntriesList = [] := by
  induction entries generalizing c with
  | nil => exact ⟨h, hlist⟩
  | cons entry next ih =>
    have hround := Collector.collectRound_quiet reschedules h hlist hquiet.1
    refine ih (h.collectRound_quiet reschedules hlist hquiet.1) ?_ ?_
    · rw [hround]
    · rw [hround]
      exact hquiet.2

omit [DecidableEq δ] in
/-- A balanced record with an empty list has everything freed. -/
theorem Balanced.freedAll {c : Collector φ δ} (h : c.Balanced)
    (hempty : c.collectEntriesList = []) : c.FreedAll := by
  refine ⟨?_, hempty, ?_⟩
  · simpa [hempty] using h.calls
  · simpa [hempty] using h.serials

/-! ### A loud collect -/

theorem scheduled_note (c : Collector φ δ) (freeFunc : φ) (data : δ) :
    c.scheduled.length ≤ (c.note freeFunc data).scheduled.length := by
  rw [note]
  split
  · exact Nat.le_refl _
  · simp

theorem scheduled_scheduleFree (c : Collector φ δ) (freeFunc : φ) (data : δ) :
    c.scheduled.length ≤ (c.scheduleFree freeFunc data true).2.scheduled.length := by
  rw [scheduleFree]
  split
  · exact c.scheduled_note freeFunc data
  · exact c.scheduled_note freeFunc data

theorem scheduled_scheduleAll (calls : List (FreeCall φ δ)) (c : Collector φ δ) :
    c.scheduled.length ≤ (c.scheduleAll calls).scheduled.length := by
  induction calls generalizing c with
  | nil => exact Nat.le_refl _
  | cons call calls ih => exact Nat.le_trans (c.scheduled_scheduleFree _ _) (ih _)

/-- A free function that schedules an object without an entry adds to what is scheduled. -/
theorem scheduled_loud {c : Collector φ δ}
    (h : c.pending = c.collectEntriesList.map CollectEntry.data) {calls : List (FreeCall φ δ)}
    (hloud : ∃ call ∈ calls, call.data ∉ c.collectEntriesList.map CollectEntry.data) :
    c.scheduled.length < (c.scheduleAll calls).scheduled.length := by
  induction calls with
  | nil =>
    obtain ⟨call, hmem, -⟩ := hloud
    cases hmem
  | cons first calls ih =>
    by_cases hfirst : first.data ∈ c.collectEntriesList.map CollectEntry.data
    · obtain ⟨call, hmem, hcall⟩ := hloud
      rcases List.mem_cons.mp hmem with rfl | hmem
      · exact absurd hfirst hcall
      · rw [scheduleAll, List.foldl_cons, scheduleFree_pending h first.freeFunc hfirst]
        exact ih ⟨call, hmem, hcall⟩
    · have hnew : c.scheduled.length <
          (c.scheduleFree first.freeFunc first.data true).2.scheduled.length := by
        rw [scheduleFree_new h first.freeFunc hfirst]
        simp
      exact Nat.lt_of_lt_of_le hnew (scheduled_scheduleAll calls _)

theorem freed_scheduleFree (c : Collector φ δ) (freeFunc : φ) (data : δ) :
    (c.scheduleFree freeFunc data true).2.freed = c.freed := by
  have hnote : (c.note freeFunc data).freed = c.freed := by
    rw [note]
    split <;> rfl
  rw [scheduleFree]
  split
  · exact hnote
  · exact hnote

theorem freed_scheduleAll (calls : List (FreeCall φ δ)) (c : Collector φ δ) :
    (c.scheduleAll calls).freed = c.freed := by
  induction calls generalizing c with
  | nil => rfl
  | cons call calls ih => exact (ih _).trans (c.freed_scheduleFree _ _)

theorem freed_collectRound (entry : CollectEntry φ δ) (next : List (CollectEntry φ δ))
    (c : Collector φ δ) :
    (c.collectRound reschedules entry next).freed = c.freed ++ [entry.call] :=
  freed_scheduleAll _ (c.called entry.call)

/-- A collect calls as many free functions as the list had entries when it began. -/
theorem freed_collectFrom (entries : List (CollectEntry φ δ)) (c : Collector φ δ) :
    (collectFrom reschedules entries c).freed.length = c.freed.length + entries.length := by
  induction entries generalizing c with
  | nil => rfl
  | cons entry next ih =>
    rw [collectFrom, ih, freed_collectRound, List.length_append]
    simp only [List.length_cons, List.length_nil]
    omega

theorem scheduled_collectFrom (entries : List (CollectEntry φ δ)) (c : Collector φ δ) :
    c.scheduled.length ≤ (collectFrom reschedules entries c).scheduled.length := by
  induction entries generalizing c with
  | nil => exact Nat.le_refl _
  | cons entry next ih =>
    exact Nat.le_trans (scheduled_scheduleAll (reschedules c.freed entry.call)
      (c.called entry.call)) (ih (c.collectRound reschedules entry next))

/-- The first free function that is not quiet adds an object that this collect does not free. -/
theorem Balanced.collectFrom_loud {entries : List (CollectEntry φ δ)} {c : Collector φ δ}
    (h : c.Balanced) (hlist : c.collectEntriesList = entries)
    (hloud : ¬ QuietFrom reschedules entries c.freed) :
    c.scheduled.length < (collectFrom reschedules entries c).scheduled.length := by
  induction entries generalizing c with
  | nil => exact absurd trivial hloud
  | cons entry next ih =>
    by_cases hfirst : ∀ call ∈ reschedules c.freed entry.call,
        call.data ∈ (entry :: next).map CollectEntry.data
    · have hround := Collector.collectRound_quiet reschedules h hlist hfirst
      have hrest : ¬ QuietFrom reschedules next (c.freed ++ [entry.call]) :=
        fun hnext => hloud ⟨hfirst, hnext⟩
      have hlater := ih (h.collectRound_quiet reschedules hlist hfirst)
        (by rw [hround]) (by rw [hround]; exact hrest)
      rw [hround] at hlater
      rw [collectFrom, hround]
      exact hlater
    · simp only [not_forall] at hfirst
      obtain ⟨call, hmem, hcall⟩ := hfirst
      have hpending : (c.called entry.call).pending =
          (c.called entry.call).collectEntriesList.map CollectEntry.data := h.pending_eq
      have hnew := scheduled_loud hpending
        ⟨call, hmem, by rw [called, hlist]; exact hcall⟩
      exact Nat.lt_of_lt_of_le hnew
        (scheduled_collectFrom reschedules next (c.collectRound reschedules entry next))

/-! ### Runs -/

/-- A collect from a balanced state frees everything exactly when it is quiet. -/
theorem freedAll_collect_iff {c : Collector φ δ} (h : c.Balanced) :
    (c.collect reschedules).FreedAll ↔ QuietFrom reschedules c.collectEntriesList c.freed := by
  constructor
  · intro hfreed
    by_contra hloud
    have hmore := h.collectFrom_loud reschedules rfl hloud
    have hcount := hfreed.freed.length_eq
    have hstart := h.calls.length_eq
    rw [collect, freed_collectFrom] at hcount
    rw [List.length_append, List.length_map] at hstart
    omega
  · intro hquiet
    obtain ⟨hbalanced, hempty⟩ := h.collectFrom_quiet reschedules rfl hquiet
    exact hbalanced.freedAll hempty

/-- One call keeps the record balanced while the collects are quiet. -/
theorem balanced_step {c next : Collector φ δ} {call : CollectorCall φ δ} (h : c.Balanced)
    (hquiet : Quiet reschedules c call) (hstep : step reschedules call c = .ok next) :
    next.Balanced := by
  cases call with
  | scheduleFree freeFunc data =>
    cases hstep
    exact h.scheduleFree freeFunc data
  | collect =>
    cases hstep
    exact (h.collectFrom_quiet reschedules rfl hquiet).1

/-- Collects that free exactly keep the record balanced, by induction on the calls. -/
theorem FreesExactly.balanced {calls : List (CollectorCall φ δ)}
    (h : FreesExactly reschedules calls) {xs ys : List (CollectorCall φ δ)} {c : Collector φ δ}
    (he : calls = xs ++ ys) (hc : run (step reschedules) xs new = .ok c) : c.Balanced := by
  induction xs using List.reverseRecOn generalizing ys c with
  | nil =>
    cases hc
    exact balanced_new
  | append_singleton xs call ih =>
    have he' : calls = xs ++ call :: ys := by simp [he]
    have hrun := hc
    rw [CallOutcome.run_concat] at hc
    obtain ⟨before, hbefore, hstep⟩ := Outcome.bind_eq_ok.mp hc
    have hb := ih he' hbefore
    refine balanced_step reschedules hb ?_ hstep
    cases call with
    | scheduleFree freeFunc data => trivial
    | collect =>
      have hfreed := h xs ys c he' hrun
      cases hstep
      exact (freedAll_collect_iff reschedules hb).mp hfreed

/-- In every sequence of calls, each collect has freed every object scheduled
exactly once exactly when no free function schedules an object without an entry. -/
theorem freesExactly_iff (calls : List (CollectorCall φ δ)) :
    FreesExactly reschedules calls ↔ Admitted (step reschedules) (Quiet reschedules) new calls := by
  constructor
  · intro h xs call ys c he hc
    cases call with
    | scheduleFree freeFunc data => trivial
    | collect =>
      have hrun : run (step reschedules) (xs ++ [.collect]) new =
          .ok (c.collect reschedules) := by
        rw [CallOutcome.run_concat, hc]
        rfl
      have hb := FreesExactly.balanced reschedules h he hc
      exact (freedAll_collect_iff reschedules hb).mp (h xs ys _ he hrun)
  · intro h xs ys c he hc
    rw [CallOutcome.run_concat] at hc
    obtain ⟨before, hbefore, hstep⟩ := Outcome.bind_eq_ok.mp hc
    have hb : before.Balanced := CallOutcome.always_of_admitted balanced_new
      (fun call _ c next hc hquiet hstep => balanced_step reschedules hc hquiet hstep) h
      xs _ before he hbefore
    have hquiet := h xs _ _ before he hbefore
    cases hstep
    exact (freedAll_collect_iff reschedules hb).mpr hquiet

/-- The free function of object 1 schedules object 2, which has no entry: the
entry of 2 is released, 2 is never freed, and the entry of 1 is lost. -/
theorem not_freesExactly_nested :
    ¬ FreesExactly (fun _ call => if call.data = 1 then [⟨(), 2⟩] else [])
      [.scheduleFree () (1 : Nat), .collect] := by
  intro h
  have hfreed := h [.scheduleFree () 1] [] _ rfl rfl
  have hcount := hfreed.freed.length_eq
  exact absurd hcount (by decide)

end Collector

end Rapp
