import Rapp.ResponseFifo

/-!
# The response buffer when memory runs out

Appends and reads in any order, with any answers of `memory_resize`. Both
functions store the answer over the buffer they wanted to resize.
-/
namespace Rapp

open CallOutcome (Outcome run Always Admitted)
open ByteBlock

/-- The calls with what `memory_resize` answers when it is asked. -/
inductive BufferCall where
  | append (data : Bytes) (nonempty : data ≠ []) (resized : Bool)
  | read (length : Nat) (positive : 0 < length) (shrunk : Bool)

namespace BufferCall

/-- The ledger counts what was appended and what was returned; a caller goes on after -1. -/
def apply (call : BufferCall) (state : LedgeredResponse) : Outcome Fault LedgeredResponse :=
  match call with
  | .append data _ resized =>
    let (appended, after) := state.response.appendData data resized
    .ok { response := after
          ledger := { state.ledger with
            given := state.ledger.given ++ if appended.isSome then data else []
            held := after.bytes } }
  | .read length _ shrunk =>
    match state.response.readData length shrunk with
    | .error fault => .undefined fault
    | .ok (returned, after) =>
      .ok { response := after
            ledger := { state.ledger with
              accepted := state.ledger.accepted ++ returned.getD []
              held := after.bytes } }

/-- No resize fails that has bytes to keep: an append's only over an empty
buffer, a read's only where the read takes everything and asks for none. -/
def Spares (state : LedgeredResponse) : BufferCall → Prop
  | .append _ _ resized => resized = true ∨ state.response.bufferLength = 0
  | .read length _ shrunk => shrunk = true ∨ state.response.bufferLength ≤ length

/-- An append that returns -1 leaves what was buffered. -/
def KeepsBuffered (state : LedgeredResponse) : BufferCall → Prop
  | .append data _ resized =>
    let (appended, after) := state.response.appendData data resized
    appended = none → after.bytes = state.response.bytes ∧
      after.bufferLength = state.response.bufferLength
  | .read _ _ _ => True

end BufferCall

/-- The buffer holds the bytes it is said to hold, so it is NULL only when there
are none, and what reads have returned was appended. -/
structure LedgeredResponse.Intact (state : LedgeredResponse) : Prop where
  holds : state.response.bufferLength ≤ state.response.bytes.length
  returned : state.ledger.accepted <+: state.ledger.given

/-! ### One call -/

namespace HTTPResponse

theorem appendData_refused (response : HTTPResponse) (data : Bytes) :
    response.appendData data false = (none, { response with buffer := none }) := rfl

/-- A read of everything does not ask for memory. -/
theorem readData_whole {response : HTTPResponse} {length : Nat} (h : response.bufferLength ≤ length)
    (shrunk : Bool) : response.readData length shrunk = response.readData length true := by
  have hrest : response.bufferLength - min response.bufferLength length = 0 := by omega
  simp only [readData, if_pos hrest]

/-- A read of a part whose shrink fails. -/
theorem Sound.readData_refused {response : HTTPResponse} (h : response.Sound) {length : Nat}
    (hpart : length < response.bufferLength) :
    response.readData length false = .ok (none, { response with
      buffer := none
      bufferLength := response.bufferLength - length }) := by
  have hlength : response.bytes.length = response.bufferLength := h
  have hmin : min response.bufferLength length = length := by omega
  simp only [HTTPResponse.readData, hmin]
  rw [if_neg (by omega), if_neg (by omega)]
  rfl

end HTTPResponse

namespace LedgeredResponse

theorem Faithful.bytes_length {state : LedgeredResponse} (h : state.Faithful) :
    state.response.bytes.length = state.response.bufferLength := h.sound

theorem Faithful.balance {state : LedgeredResponse} (h : state.Faithful) :
    state.ledger.accepted ++ state.response.bytes = state.ledger.given := by
  rw [← h.held_eq]
  exact h.balanced

theorem Faithful.intact {state : LedgeredResponse} (h : state.Faithful) : state.Intact :=
  ⟨h.bytes_length.ge, state.response.bytes, h.balance⟩

/-- A buffer without bytes that is said to be empty. -/
theorem Faithful.append_refused {state : LedgeredResponse} (h : state.Faithful)
    (hempty : state.response.bufferLength = 0) :
    ({ state.response with buffer := none } : HTTPResponse).bytes = state.response.bytes := by
  have hlength := h.bytes_length
  rw [hempty] at hlength
  exact (List.eq_nil_of_length_eq_zero hlength).symm

theorem Faithful.step {state next : LedgeredResponse} (h : state.Faithful) {call : BufferCall}
    (hcall : call.apply state = .ok next) (hspares : call.Spares state) : next.Faithful := by
  have hbalance := h.balance
  cases call with
  | append data nonempty resized =>
    cases resized with
    | true =>
      obtain ⟨after, happend, hsound, hbytes, -⟩ :=
        HTTPResponse.appendData_resized h.sound data
      simp only [BufferCall.apply, happend, Outcome.ok.injEq] at hcall
      subst hcall
      refine ⟨hsound, rfl, ?_⟩
      simp only [FifoLedger.Ledger.Balanced, hbytes, Option.isSome_some, if_true,
        ← List.append_assoc, hbalance]
    | false =>
      have hempty : state.response.bufferLength = 0 := by simpa [BufferCall.Spares] using hspares
      simp only [BufferCall.apply, HTTPResponse.appendData_refused, Outcome.ok.injEq] at hcall
      subst hcall
      have hkept := h.append_refused hempty
      refine ⟨hempty.symm, rfl, ?_⟩
      simp only [FifoLedger.Ledger.Balanced, hkept, Option.isSome_none, Bool.false_eq_true,
        if_false, List.append_nil, hbalance]
  | read length positive shrunk =>
    have hsame : state.response.readData length shrunk = state.response.readData length true := by
      rcases hspares with rfl | hwhole
      · rfl
      · exact HTTPResponse.readData_whole hwhole shrunk
    obtain ⟨data, after, hread, hsound, -, hbytes⟩ := h.sound.readData length
    simp only [BufferCall.apply, hsame, hread, Outcome.ok.injEq] at hcall
    subst hcall
    refine ⟨hsound, rfl, ?_⟩
    simp only [FifoLedger.Ledger.Balanced, Option.getD_some, List.append_assoc, hbytes, hbalance]

/-- A resize that fails over bytes leaves a count without a buffer. -/
theorem Faithful.not_intact {state : LedgeredResponse} (h : state.Faithful) {call : BufferCall}
    (hcall : ¬ call.Spares state) : ∃ next, call.apply state = .ok next ∧ ¬ next.Intact := by
  cases call with
  | append data nonempty resized =>
    simp only [BufferCall.Spares, not_or, Bool.not_eq_true] at hcall
    obtain ⟨rfl, hfull⟩ := hcall
    refine ⟨_, rfl, fun hintact => hfull ?_⟩
    exact Nat.le_zero.mp hintact.holds
  | read length positive shrunk =>
    simp only [BufferCall.Spares, not_or, Bool.not_eq_true, Nat.not_le] at hcall
    obtain ⟨rfl, hpart⟩ := hcall
    refine ⟨_, by simp only [BufferCall.apply, h.sound.readData_refused hpart]; rfl, ?_⟩
    intro hintact
    have hrest : state.response.bufferLength - length ≤ 0 := hintact.holds
    omega

/-- A faithful buffer stays intact over exactly the calls that spare it. -/
theorem Faithful.intact_iff {state next : LedgeredResponse} (h : state.Faithful)
    {call : BufferCall} (hcall : call.apply state = .ok next) :
    next.Intact ↔ call.Spares state := by
  constructor
  · intro hintact
    by_contra hspares
    obtain ⟨other, hother, hbroken⟩ := h.not_intact hspares
    rw [hcall] at hother
    cases hother
    exact hbroken hintact
  · intro hspares
    exact (h.step hcall hspares).intact

theorem Faithful.keepsBuffered {state : LedgeredResponse} (h : state.Faithful)
    {call : BufferCall} (hspares : call.Spares state) : call.KeepsBuffered state := by
  cases call with
  | append data nonempty resized =>
    rcases hspares with rfl | hempty
    · exact nofun
    · cases resized with
      | true => exact nofun
      | false => exact fun _ => ⟨h.append_refused hempty, rfl⟩
  | read length positive shrunk => trivial

end LedgeredResponse

/-! ### Runs -/

/-- All along a run the buffer stays intact, appends that fail leave it as it
was and reads return what was appended, exactly when every call spares it. -/
theorem buffer_intact_iff (serverName : Bytes) (calls : List BufferCall) :
    (Always BufferCall.apply LedgeredResponse.Intact (.new serverName) calls ∧
      Admitted BufferCall.apply (fun state call => call.KeepsBuffered state)
        (.new serverName) calls) ↔
    Admitted BufferCall.apply (fun state call => call.Spares state) (.new serverName) calls := by
  have hexact : Always BufferCall.apply LedgeredResponse.Intact (.new serverName) calls ↔
      Admitted BufferCall.apply (fun state call => call.Spares state) (.new serverName) calls :=
    CallOutcome.always_iff_admitted (LedgeredResponse.faithful_new serverName)
      (fun state h => h.intact)
      (fun call _ state next h hcall => h.intact_iff hcall)
      (fun call _ state next h hcall hintact => h.step hcall ((h.intact_iff hcall).mp hintact))
      (fun call _ state h hbroken => (h.not_intact hbroken).imp fun _ => And.left)
  constructor
  · rintro ⟨hintact, -⟩
    exact hexact.mp hintact
  · intro hspares
    refine ⟨hexact.mpr hspares, ?_⟩
    have hfaithful : Always BufferCall.apply LedgeredResponse.Faithful (.new serverName) calls :=
      CallOutcome.always_of_admitted (LedgeredResponse.faithful_new serverName)
        (fun call _ state next h hcall hnext => h.step hnext hcall) hspares
    intro before call rest state he hstate
    exact (hfaithful before (call :: rest) state he hstate).keepsBuffered
      (hspares before call rest state he hstate)

/-- One byte is buffered, and there is no memory for a second. -/
theorem not_buffer_intact_secondAppend :
    ¬ (Always BufferCall.apply LedgeredResponse.Intact (.new [])
        [.append [97] (by decide) true, .append [98] (by decide) false] ∧
      Admitted BufferCall.apply (fun state call => call.KeepsBuffered state) (.new [])
        [.append [97] (by decide) true, .append [98] (by decide) false]) := by
  rintro ⟨hintact, -⟩
  have hlast := hintact _ [] _ (List.append_nil _).symm rfl
  exact absurd hlast.holds (by decide)

end Rapp
