import Mathlib.Logic.Function.Basic
import Rapp.Lib.Outcome

/-!
# Signals

`signalhandler.c`: the mask of the handler, its two tables, and the two sets of
the kernel that a call publishes the mask to. Which signals libc and the kernel
take is a parameter. A call of the process that is not the handler's leaves the
blocked set alone.
-/
namespace Rapp

open CallOutcome (Outcome Admitted)

/-- `_NSIG`. -/
abbrev nsig : Nat := 65

abbrev Signal := Fin nsig

abbrev SigSet := Signal → Bool

/-- What is outside the program: the signals `sigaddset` and `sigdelset` do not
refuse, those `sigprocmask` blocks and those `signalfd` accepts. The two calls
drop the others without an error. -/
structure SignalSystem where
  valid : Signal → Bool
  blockable : Signal → Bool
  watchable : Signal → Bool

namespace SignalSystem

/-- SIGKILL and SIGSTOP cannot be blocked, and libc refuses the two signals that it
keeps to itself. -/
def linux : SignalSystem where
  valid sig := sig ∉ [0, 32, 33]
  blockable sig := sig ∉ [9, 19, 32, 33]
  watchable sig := sig ∉ [9, 19]

variable (system : SignalSystem)

def sigaddset (set : SigSet) (sig : Signal) : SigSet :=
  if system.valid sig then Function.update set sig true else set

def sigdelset (set : SigSet) (sig : Signal) : SigSet :=
  if system.valid sig then Function.update set sig false else set

/-- The set that is blocked behind `sigprocmask` with `SIG_SETMASK`. -/
def blocks (set : SigSet) : SigSet := fun sig => set sig && system.blockable sig

/-- The set that is read behind `signalfd`. -/
def watches (set : SigSet) : SigSet := fun sig => set sig && system.watchable sig

/-- A signal that all four calls take. -/
def takes (sig : Signal) : Bool := system.valid sig && system.blockable sig && system.watchable sig

end SignalSystem

/-- The handler, the blocked set of the process and the set of its `signalfd`. -/
structure SignalHandler (κ δ : Type) where
  sigmask : SigSet
  callbacks : Signal → Option κ
  data : Signal → Option δ
  blocked : SigSet
  signalfd : SigSet

/-- What the two system calls answer when they are reached: false for -1. -/
structure SignalAnswers where
  sigprocmask : Bool
  signalfd : Bool

variable {κ δ : Type}

namespace SignalHandler

/-- `signal_handler_new`; the process starts with a blocked set that it inherits. -/
def new (blocked : SigSet) : SignalHandler κ δ where
  sigmask _ := false
  callbacks _ := none
  data _ := none
  blocked := blocked
  signalfd _ := false

def setup (system : SignalSystem) (handler : SignalHandler κ δ) (sig : Signal)
    (callback : Option κ) (data : Option δ) (answers : SignalAnswers) :
    Int × SignalHandler κ δ :=
  if answers.sigprocmask = false then (-1, handler)
  else
    let handler := { handler with blocked := system.blocks handler.sigmask }
    if answers.signalfd = false then (-1, handler)
    else (0, { handler with
      signalfd := system.watches handler.sigmask
      callbacks := Function.update handler.callbacks sig callback
      data := Function.update handler.data sig data })

/-- The result of `sigaddset` is not looked at. -/
def addSignalCallback (system : SignalSystem) (handler : SignalHandler κ δ) (sig : Signal)
    (callback : κ) (data : Option δ) (answers : SignalAnswers) : Int × SignalHandler κ δ :=
  { handler with sigmask := system.sigaddset handler.sigmask sig }.setup system sig (some callback)
    data answers

def removeSignalCallback (system : SignalSystem) (handler : SignalHandler κ δ) (sig : Signal)
    (answers : SignalAnswers) : Int × SignalHandler κ δ :=
  { handler with sigmask := system.sigdelset handler.sigmask sig }.setup system sig none none
    answers

/-- `on_signal`, with the signal that `read` brings: the result, and the callback
that is called with its data. -/
def onSignal (handler : SignalHandler κ δ) (read : Option Signal) :
    Int × Option (κ × Option δ) :=
  match read with
  | none => (-1, none)
  | some sig => (0, (handler.callbacks sig).map fun callback => (callback, handler.data sig))

end SignalHandler

/-- The calls, with the answers they meet. -/
inductive SignalCall (κ δ : Type) where
  | add (sig : Signal) (callback : κ) (data : Option δ) (answers : SignalAnswers)
  | remove (sig : Signal) (answers : SignalAnswers)

namespace SignalCall

def call (system : SignalSystem) (handler : SignalHandler κ δ) :
    SignalCall κ δ → Int × SignalHandler κ δ
  | .add sig callback data answers =>
    handler.addSignalCallback system sig callback data answers
  | .remove sig answers => handler.removeSignalCallback system sig answers

/-- A caller goes on after -1. -/
def apply (system : SignalSystem) (call : SignalCall κ δ) (handler : SignalHandler κ δ) :
    Outcome Empty (SignalHandler κ δ) :=
  .ok (call.call system handler).2

def sig : SignalCall κ δ → Signal
  | .add sig _ _ _ => sig
  | .remove sig _ => sig

def answers : SignalCall κ δ → SignalAnswers
  | .add _ _ _ answers => answers
  | .remove _ answers => answers

/-- The mask that is handed to the system calls. -/
def edit (system : SignalSystem) (set : SigSet) : SignalCall κ δ → SigSet
  | .add sig _ _ _ => system.sigaddset set sig
  | .remove sig _ => system.sigdelset set sig

end SignalCall

/-! ### What a call should do -/

namespace SignalHandler

/-- A signal is in the mask if and only if it has a callback. -/
def Consistent (handler : SignalHandler κ δ) : Prop :=
  ∀ sig, handler.sigmask sig = (handler.callbacks sig).isSome

/-- Both sets of the kernel are the mask. -/
def Published (handler : SignalHandler κ δ) : Prop :=
  handler.blocked = handler.sigmask ∧ handler.signalfd = handler.sigmask

/-- The mask, the tables and the blocked set are the same. -/
structure Unchanged (before after : SignalHandler κ δ) : Prop where
  sigmask_eq : after.sigmask = before.sigmask
  callbacks_eq : after.callbacks = before.callbacks
  data_eq : after.data = before.data
  blocked_eq : after.blocked = before.blocked

end SignalHandler

namespace SignalCall

/-- The tables agree behind the call; what succeeds is published, and what
returns -1 changes nothing. -/
structure Transactional (system : SignalSystem) (handler : SignalHandler κ δ)
    (call : SignalCall κ δ) : Prop where
  consistent : (call.call system handler).2.Consistent
  published : (call.call system handler).1 = 0 → (call.call system handler).2.Published
  unchanged : (call.call system handler).1 = -1 → handler.Unchanged (call.call system handler).2

/-- Nothing to edit: the signal is in the mask already, or not in it, or it is
one that libc refuses. -/
def Idle (system : SignalSystem) (handler : SignalHandler κ δ) : SignalCall κ δ → Prop
  | .add sig _ _ _ => system.valid sig = true → handler.sigmask sig = true
  | .remove sig _ => system.valid sig = true → handler.sigmask sig = false

/-- Both system calls succeed. -/
def Answered (call : SignalCall κ δ) : Prop :=
  call.answers.sigprocmask = true ∧ call.answers.signalfd = true

instance (call : SignalCall κ δ) : Decidable call.Answered := inferInstanceAs (Decidable (_ ∧ _))

/-- A signal that is added is one the system takes. -/
def Taken (system : SignalSystem) : SignalCall κ δ → Prop
  | .add sig _ _ _ => system.takes sig = true
  | .remove _ _ => True

/-- The system calls succeed for a signal that the system takes; or one of them
fails where there is nothing to edit, `sigprocmask` itself or behind it a
`signalfd` where the blocked set was the mask. -/
def Keeps (system : SignalSystem) (handler : SignalHandler κ δ) (call : SignalCall κ δ) : Prop :=
  if call.Answered then call.Taken system
  else call.Idle system handler ∧
    (call.answers.sigprocmask = true → handler.blocked = handler.sigmask)

end SignalCall

/-! ### One call -/

namespace SignalSystem

variable {system : SignalSystem}

theorem takes_iff {sig : Signal} : system.takes sig = true ↔
    system.valid sig = true ∧ system.blockable sig = true ∧ system.watchable sig = true := by
  simp [takes, and_assoc]

theorem valid_of_takes {sig : Signal} (h : system.takes sig = true) : system.valid sig = true :=
  (takes_iff.mp h).1

/-- A set of signals that the system takes is blocked and read as it is. -/
theorem blocks_taken {set : SigSet} (h : ∀ sig, set sig = true → system.takes sig = true) :
    system.blocks set = set := by
  funext sig
  cases hset : set sig with
  | false => simp [blocks, hset]
  | true => simp [blocks, hset, (takes_iff.mp (h sig hset)).2.1]

theorem watches_taken {set : SigSet} (h : ∀ sig, set sig = true → system.takes sig = true) :
    system.watches set = set := by
  funext sig
  cases hset : set sig with
  | false => simp [watches, hset]
  | true => simp [watches, hset, (takes_iff.mp (h sig hset)).2.2]

/-- A signal in a set that is blocked and read as it is. -/
theorem takes_of_published {set : SigSet} (hblocks : system.blocks set = set)
    (hwatches : system.watches set = set) {sig : Signal} (hsig : set sig = true)
    (hvalid : system.valid sig = true) : system.takes sig = true := by
  have hblockable := congrFun hblocks sig
  rw [blocks, hsig, Bool.true_and] at hblockable
  have hwatchable := congrFun hwatches sig
  rw [watches, hsig, Bool.true_and] at hwatchable
  exact takes_iff.mpr ⟨hvalid, hblockable, hwatchable⟩

end SignalSystem

namespace SignalHandler

variable {system : SignalSystem} {handler : SignalHandler κ δ}

/-- What holds as long as every call keeps the tables: the mask and the callbacks
agree, the mask holds signals that the system takes, and `signalfd` reads them. -/
structure Settled (system : SignalSystem) (handler : SignalHandler κ δ) : Prop where
  consistent : handler.Consistent
  taken : ∀ sig, handler.sigmask sig = true → system.takes sig = true
  watched : handler.signalfd = handler.sigmask

theorem settled_new (system : SignalSystem) (blocked : SigSet) :
    Settled system (new blocked : SignalHandler κ δ) :=
  ⟨fun _ => rfl, nofun, rfl⟩

theorem setup_refused (sig : Signal) (callback : Option κ) (data : Option δ)
    {answers : SignalAnswers} (h : answers.sigprocmask = false) :
    handler.setup system sig callback data answers = (-1, handler) :=
  if_pos h

theorem setup_unwatched (sig : Signal) (callback : Option κ) (data : Option δ)
    {answers : SignalAnswers} (h : answers.sigprocmask = true) (hfd : answers.signalfd = false) :
    handler.setup system sig callback data answers =
      (-1, { handler with blocked := system.blocks handler.sigmask }) := by
  simp only [setup, h, hfd, Bool.true_eq_false, if_false, if_true]

theorem setup_done (sig : Signal) (callback : Option κ) (data : Option δ)
    {answers : SignalAnswers} (h : answers.sigprocmask = true) (hfd : answers.signalfd = true) :
    handler.setup system sig callback data answers =
      (0, { handler with
        blocked := system.blocks handler.sigmask
        signalfd := system.watches handler.sigmask
        callbacks := Function.update handler.callbacks sig callback
        data := Function.update handler.data sig data }) := by
  simp only [setup, h, hfd, Bool.true_eq_false, if_false]

end SignalHandler

namespace SignalCall

open SignalHandler SignalSystem

variable {system : SignalSystem} {handler : SignalHandler κ δ}

/-- The callback that a call leaves in the table. -/
def callback : SignalCall κ δ → Option κ
  | .add _ callback _ _ => some callback
  | .remove _ _ => none

def data : SignalCall κ δ → Option δ
  | .add _ _ data _ => data
  | .remove _ _ => none

/-- The mask is edited before anything is asked of the kernel. -/
theorem call_eq (call : SignalCall κ δ) : call.call system handler =
    { handler with sigmask := call.edit system handler.sigmask }.setup system call.sig
      call.callback call.data call.answers := by
  cases call <;> rfl

/-- Where libc takes the signal, the mask follows the callback. -/
theorem edit_eq (call : SignalCall κ δ) (set : SigSet) : call.edit system set =
    if system.valid call.sig then Function.update set call.sig call.callback.isSome else set := by
  cases call <;> rfl

theorem idle_iff (call : SignalCall κ δ) : call.Idle system handler ↔
    (system.valid call.sig = true → handler.sigmask call.sig = call.callback.isSome) := by
  cases call <;> rfl

theorem edit_eq_iff (call : SignalCall κ δ) :
    call.edit system handler.sigmask = handler.sigmask ↔ call.Idle system handler := by
  rw [edit_eq, idle_iff]
  by_cases hvalid : system.valid call.sig = true
  · rw [if_pos hvalid, Function.update_eq_self_iff, eq_comm]
    exact ⟨fun hset _ => hset, fun hidle => hidle hvalid⟩
  · rw [if_neg hvalid]
    exact iff_of_true rfl fun h => absurd h hvalid

theorem call_answered (system : SignalSystem) (handler : SignalHandler κ δ)
    {call : SignalCall κ δ} (h : call.Answered) :
    call.call system handler = (0, {
      sigmask := call.edit system handler.sigmask
      callbacks := Function.update handler.callbacks call.sig call.callback
      data := Function.update handler.data call.sig call.data
      blocked := system.blocks (call.edit system handler.sigmask)
      signalfd := system.watches (call.edit system handler.sigmask) }) := by
  rw [call_eq, setup_done _ _ _ h.1 h.2]

/-- A call that fails leaves the edited mask, and blocks it when only `signalfd` failed. -/
theorem call_failed (system : SignalSystem) (handler : SignalHandler κ δ)
    {call : SignalCall κ δ} (h : ¬ call.Answered) :
    call.call system handler = (-1, { handler with
      sigmask := call.edit system handler.sigmask
      blocked := if call.answers.sigprocmask = true then
        system.blocks (call.edit system handler.sigmask) else handler.blocked }) := by
  cases hmask : call.answers.sigprocmask with
  | false => rw [call_eq, setup_refused _ _ _ hmask, if_neg (by simp)]
  | true =>
    have hfd : call.answers.signalfd = false := by simpa [Answered, hmask] using h
    rw [call_eq, setup_unwatched _ _ _ hmask hfd, if_pos rfl]

/-- Where an added signal is one the system takes, the mask is edited at the
signal of the call and follows the callback. -/
theorem edit_eq_update (h : Settled system handler) {call : SignalCall κ δ}
    (hanswered : call.Answered) (hkeeps : call.Keeps system handler) :
    call.edit system handler.sigmask =
      Function.update handler.sigmask call.sig call.callback.isSome := by
  rw [Keeps, if_pos hanswered] at hkeeps
  rw [edit_eq]
  by_cases hvalid : system.valid call.sig = true
  · exact if_pos hvalid
  rw [if_neg hvalid]
  cases call with
  | add sig callback data answers => exact absurd (valid_of_takes hkeeps) hvalid
  | remove sig answers =>
    have hout : handler.sigmask sig = false := by
      by_contra hin
      exact hvalid (valid_of_takes (h.taken sig (by simpa using hin)))
    exact (Function.update_eq_self_iff.mpr hout.symm).symm

theorem edit_taken (h : Settled system handler) {call : SignalCall κ δ}
    (hanswered : call.Answered) (hkeeps : call.Keeps system handler) :
    ∀ sig, call.edit system handler.sigmask sig = true → system.takes sig = true := by
  intro sig hsig
  rw [edit_eq_update h hanswered hkeeps] at hsig
  rw [Keeps, if_pos hanswered] at hkeeps
  by_cases hsame : sig = call.sig
  · subst hsame
    cases call with
    | add sig callback data answers => exact hkeeps
    | remove sig answers => simp [SignalCall.callback] at hsig
  · rw [Function.update_of_ne hsame] at hsig
    exact h.taken sig hsig

theorem consistent_update (h : handler.Consistent) (sig : Signal) (callback : Option κ)
    (other : Signal) : Function.update handler.sigmask sig callback.isSome other =
      (Function.update handler.callbacks sig callback other).isSome := by
  by_cases hother : other = sig
  · rw [hother, Function.update_self, Function.update_self]
  · rw [Function.update_of_ne hother, Function.update_of_ne hother, h other]

/-- The step: a call that keeps the tables leaves them settled. -/
theorem settled_call (h : Settled system handler) {call : SignalCall κ δ}
    (hkeeps : call.Keeps system handler) : Settled system (call.call system handler).2 := by
  by_cases hanswered : call.Answered
  · have htaken := edit_taken h hanswered hkeeps
    rw [call_answered system handler hanswered]
    refine ⟨fun sig => ?_, htaken, watches_taken htaken⟩
    rw [edit_eq_update h hanswered hkeeps]
    exact consistent_update h.consistent _ _ sig
  · rw [Keeps, if_neg hanswered] at hkeeps
    rw [call_failed system handler hanswered, (edit_eq_iff call).mpr hkeeps.1]
    exact ⟨h.consistent, h.taken, h.watched⟩

/-- An answered call publishes the mask, and the tables agree with it, exactly
when a signal that is added is one the system takes. -/
theorem transactional_answered (h : Settled system handler) {call : SignalCall κ δ}
    (hanswered : call.Answered) :
    call.Transactional system handler ↔ call.Keeps system handler := by
  have hcall := call_answered system handler hanswered
  constructor
  · rintro ⟨hconsistent, hpublished, -⟩
    rw [Keeps, if_pos hanswered]
    rw [hcall] at hconsistent hpublished
    obtain ⟨hblocked, hwatched⟩ := hpublished rfl
    cases call with
    | remove sig answers => trivial
    | add sig callback data answers =>
      have hin : system.sigaddset handler.sigmask sig sig =
          (Function.update handler.callbacks sig (some callback) sig).isSome := hconsistent sig
      rw [Function.update_self, Option.isSome_some] at hin
      by_cases hvalid : system.valid sig = true
      · exact takes_of_published hblocked hwatched hin hvalid
      · -- a signal that is refused is in the mask already
        rw [SignalSystem.sigaddset, if_neg hvalid] at hin
        exact h.taken sig hin
  · intro hkeeps
    have hsettled := settled_call h hkeeps
    have htaken := edit_taken h hanswered hkeeps
    refine ⟨hsettled.consistent, fun _ => ?_, fun hfailed => ?_⟩
    · rw [hcall]
      exact ⟨blocks_taken htaken, watches_taken htaken⟩
    · rw [hcall] at hfailed
      cases hfailed

/-- A call that fails changes nothing exactly when there was nothing to change. -/
theorem transactional_failed (h : Settled system handler) {call : SignalCall κ δ}
    (hanswered : ¬ call.Answered) :
    call.Transactional system handler ↔ call.Keeps system handler := by
  have hcall := call_failed system handler hanswered
  have hblocks := blocks_taken h.taken
  constructor
  · rintro ⟨-, -, hunchanged⟩
    rw [Keeps, if_neg hanswered]
    rw [hcall] at hunchanged
    have hsame := hunchanged rfl
    have hedit : call.edit system handler.sigmask = handler.sigmask := hsame.sigmask_eq
    refine ⟨(edit_eq_iff call).mp hedit, fun hmask => ?_⟩
    have hblocked := hsame.blocked_eq
    rw [if_pos hmask, hedit, hblocks] at hblocked
    exact hblocked.symm
  · intro hkeeps
    have hsettled := settled_call h hkeeps
    rw [Keeps, if_neg hanswered] at hkeeps
    obtain ⟨hidle, hblocked⟩ := hkeeps
    refine ⟨hsettled.consistent, fun hdone => ?_, fun _ => ?_⟩
    · rw [hcall] at hdone
      cases hdone
    · rw [hcall, (edit_eq_iff call).mpr hidle]
      refine ⟨rfl, rfl, rfl, ?_⟩
      split
      · rename_i hmask
        rw [hblocks, hblocked hmask]
      · rfl

theorem transactional_iff_keeps (h : Settled system handler) (call : SignalCall κ δ) :
    call.Transactional system handler ↔ call.Keeps system handler := by
  by_cases hanswered : call.Answered
  · exact transactional_answered h hanswered
  · exact transactional_failed h hanswered

/-! ### Runs -/

theorem settled_apply (h : Settled system handler) {call : SignalCall κ δ}
    (hkeeps : call.Keeps system handler) {next : SignalHandler κ δ}
    (hcall : call.apply system handler = .ok next) : Settled system next := by
  cases hcall
  exact settled_call h hkeeps

/-- All along a run of calls with any answers the mask and the callbacks agree,
what succeeds is published and what fails changes nothing, exactly when every
call meets the condition in the state it arrives in. -/
theorem signals_transactional_iff (system : SignalSystem) (blocked : SigSet)
    (calls : List (SignalCall κ δ)) :
    Admitted (apply system) (fun handler call => call.Transactional system handler)
      (SignalHandler.new blocked) calls ↔
    Admitted (apply system) (fun handler call => call.Keeps system handler)
      (SignalHandler.new blocked) calls :=
  CallOutcome.admitted_iff_of_history (I := fun _ handler => Settled system handler)
    (settled_new system blocked)
    (fun _ call _ _ _ hsettled => transactional_iff_keeps hsettled call)
    (fun _ _ _ _ _ _ hsettled hkeeps hcall => settled_apply hsettled hkeeps hcall)

/-- SIGUSR1 stays in the mask of a new handler when it could not be published. -/
theorem not_signals_transactional_refused :
    ¬ Admitted (apply .linux)
      (fun handler call => call.Transactional .linux handler)
      (SignalHandler.new fun _ => false : SignalHandler Nat Nat)
      [.add 10 1 none ⟨false, true⟩] := by
  intro h
  have hsame := h.head.unchanged rfl
  have hmask := congrFun hsame.sigmask_eq 10
  exact absurd hmask (by decide)

/-- Along such a run every signal that the handler reads has a callback, and
`on_signal` calls it. -/
theorem onSignal_calls {system : SignalSystem} {blocked : SigSet} {calls : List (SignalCall κ δ)}
    (hkeeps : Admitted (apply system) (fun handler call => call.Keeps system handler)
      (SignalHandler.new blocked) calls) :
    CallOutcome.Always (apply system)
      (fun handler => ∀ sig, handler.signalfd sig = true →
        ∃ callback, handler.onSignal (some sig) = (0, some (callback, handler.data sig)))
      (SignalHandler.new blocked) calls := by
  have hsettled : CallOutcome.Always (apply system) (Settled system) (SignalHandler.new blocked)
      calls :=
    CallOutcome.always_of_admitted (settled_new system blocked)
      (fun _ _ _ _ hsettled hkeeps hcall => settled_apply hsettled hkeeps hcall) hkeeps
  intro before rest handler he hrun sig hsig
  have h := hsettled before rest handler he hrun
  rw [h.watched, h.consistent sig] at hsig
  obtain ⟨callback, hcallback⟩ := Option.isSome_iff_exists.mp hsig
  exact ⟨callback, by rw [SignalHandler.onSignal, hcallback]; rfl⟩

end SignalCall

end Rapp
