import Rapp.Lib.Ledger
import Rapp.ResponseWriters

/-!
# The response as a queue of bytes

Any writers and reads, in any order. Beside the response runs a ledger of the
texts the writers stand for and of the bytes the reads have returned; the
buffer is what is between them.
-/
namespace Rapp

open CallOutcome (Outcome run)
open FifoLedger (Ledger)
open ByteBlock

inductive WriterCall where
  | appendData (data : Bytes) (nonempty : data ≠ [])
  | writeStatusLine (statusLine : Bytes)
  | writeStatusLineByCode (code : Nat)
  | writeHeader (key value : Bytes)
  | endHeaders (datetime : Bytes)
  | writeErrorByCode (code : Nat) (datetime : Bytes)

inductive ResponseCall where
  | write (call : WriterCall)
  | setLast (last : Bool)
  | readData (length : Nat) (positive : 0 < length)

namespace WriterCall

def writer : WriterCall → Writer Nat
  | .appendData data _ => Writer.appendData data
  | .writeStatusLine statusLine => Writer.writeStatusLine statusLine
  | .writeStatusLineByCode code => Writer.writeStatusLineByCode code
  | .writeHeader key value => Writer.writeHeader key value
  | .endHeaders datetime => Writer.endHeaders (some datetime)
  | .writeErrorByCode code datetime => Writer.writeErrorByCode code (some datetime)

/-- The text the call stands for, none when its code is unknown. -/
def text (response : HTTPResponse) : WriterCall → Option Bytes
  | .appendData data _ => some data
  | .writeStatusLine statusLine => some (statusLineText statusLine)
  | .writeStatusLineByCode code => (statusMessageByCode code).map (statusLineByCodeText code)
  | .writeHeader key value => some (headerText key value)
  | .endHeaders datetime => some (endHeadersText response.serverName datetime response.isLast)
  | .writeErrorByCode code datetime => (statusMessageByCode code).map fun message =>
    errorText code message response.serverName datetime response.isLast

end WriterCall

/-- A response with the ledger of its bytes. -/
structure LedgeredResponse where
  response : HTTPResponse
  ledger : Ledger UInt8

namespace LedgeredResponse

def new (serverName : Bytes) : LedgeredResponse where
  response := .new serverName
  ledger := ⟨[], [], []⟩

/-- The memory functions succeed, a caller goes on after a refused code. -/
def apply (call : ResponseCall) (state : LedgeredResponse) : Outcome Fault LedgeredResponse :=
  match call with
  | .write call =>
    let after := (call.writer.start ⟨state.response, []⟩).2.response
    .ok { response := after
          ledger := { state.ledger with
            given := state.ledger.given ++ (call.text state.response).getD []
            held := after.bytes } }
  | .setLast last => .ok { state with response := state.response.setLast last }
  | .readData length _ =>
    match state.response.readData length true with
    | .error fault => .undefined fault
    | .ok (none, after) => .failed { state with response := after }
    | .ok (some data, after) =>
      .ok { response := after
            ledger := { state.ledger with
              accepted := state.ledger.accepted ++ data
              held := after.bytes } }

/-- The buffer is counted right and holds what the ledger holds. -/
structure Faithful (state : LedgeredResponse) : Prop where
  sound : state.response.Sound
  held_eq : state.ledger.held = state.response.bytes
  balanced : state.ledger.Balanced

theorem faithful_new (serverName : Bytes) : (new serverName).Faithful := ⟨rfl, rfl, rfl⟩

end LedgeredResponse

/-- What a call returns and does in a response. -/
def HTTPResponse.Answers (response : HTTPResponse) : ResponseCall → Prop
  | .write call =>
    let result := call.writer.start ⟨response, []⟩
    match call.text response with
    | some text => result.1 = some text.length ∧ result.2.response.bytes = response.bytes ++ text
    | none => result.1 = none ∧ result.2.response = response
  | .setLast last => (response.setLast last).bytes = response.bytes
  | .readData length _ => ∃ data after, response.readData length true = .ok (some data, after) ∧
    data.length = min length response.bytes.length ∧ data ++ after.bytes = response.bytes

/-! ### One call -/

/-- A writer appends its text, or refuses an unknown code and does nothing. -/
theorem WriterCall.writer_start {before : Writing} (h : before.Ready) (call : WriterCall) :
    match call.text before.response with
    | some text => call.writer.Appends before text
    | none => call.writer.start before = (none, before) := by
  cases call with
  | appendData data => exact Writer.appendData_appends h data
  | writeStatusLine statusLine => exact Writer.writeStatusLine_appends h statusLine
  | writeStatusLineByCode code =>
    cases hmessage : statusMessageByCode code with
    | none =>
      simp only [text, writer, hmessage, Option.map_none, Writer.writeStatusLineByCode]
      rfl
    | some message =>
      simp only [text, hmessage, Option.map_some]
      exact Writer.writeStatusLineByCode_appends h hmessage
  | writeHeader key value => exact Writer.writeHeader_appends h key value
  | endHeaders datetime => exact Writer.endHeaders_appends h datetime
  | writeErrorByCode code datetime =>
    cases hmessage : statusMessageByCode code with
    | none =>
      simp only [text, writer, hmessage, Option.map_none, Writer.writeErrorByCode]
      rfl
    | some message =>
      simp only [text, hmessage, Option.map_some]
      exact Writer.writeErrorByCode_appends h hmessage datetime

theorem ready_of_sound {response : HTTPResponse} (h : response.Sound) :
    (⟨response, []⟩ : Writing).Ready := ⟨h, nofun⟩

theorem HTTPResponse.Sound.readData {response : HTTPResponse} (h : response.Sound) (length : Nat) :
    ∃ data after, response.readData length true = .ok (some data, after) ∧ after.Sound ∧
      data.length = min length response.bytes.length ∧ data ++ after.bytes = response.bytes := by
  obtain ⟨after, hread, hsound, hbytes, -⟩ := readData_shrunk h length
  refine ⟨_, after, hread, hsound, ?_, ?_⟩
  · have hlength : response.bytes.length = response.bufferLength := h
    rw [List.length_take]
    omega
  · rw [hbytes, List.take_append_drop]

theorem HTTPResponse.Sound.answers {response : HTTPResponse} (h : response.Sound)
    (call : ResponseCall) : response.Answers call := by
  cases call with
  | write call =>
    have hstart := call.writer_start (ready_of_sound h)
    simp only [HTTPResponse.Answers]
    cases htext : call.text response with
    | none =>
      simp only [htext] at hstart
      rw [hstart]
      exact ⟨rfl, rfl⟩
    | some text =>
      simp only [htext] at hstart
      obtain ⟨after, hafter, hgrown⟩ := hstart
      rw [hafter]
      exact ⟨rfl, hgrown.bytes_eq⟩
  | setLast last => rfl
  | readData length positive =>
    obtain ⟨data, after, hread, -, hlength, hbytes⟩ := h.readData length
    exact ⟨data, after, hread, hlength, hbytes⟩

/-- Every call succeeds in the model's sense and keeps the ledger in step. -/
theorem LedgeredResponse.Faithful.apply {state : LedgeredResponse} (h : state.Faithful)
    (call : ResponseCall) :
    ∃ next, LedgeredResponse.apply call state = .ok next ∧ next.Faithful := by
  have hbalanced : state.ledger.accepted ++ state.response.bytes = state.ledger.given := by
    rw [← h.held_eq]
    exact h.balanced
  cases call with
  | write call =>
    have hstart := call.writer_start (ready_of_sound h.sound)
    refine ⟨_, rfl, ?_⟩
    cases htext : call.text state.response with
    | none =>
      simp only [htext] at hstart
      rw [hstart]
      exact ⟨h.sound, rfl, by simpa [Ledger.Balanced] using hbalanced⟩
    | some text =>
      simp only [htext] at hstart
      obtain ⟨after, hafter, hgrown⟩ := hstart
      rw [hafter]
      refine ⟨hgrown.ready.sound, rfl, ?_⟩
      simp only [Ledger.Balanced, hgrown.bytes_eq, Option.getD_some, ← List.append_assoc, hbalanced]
  | setLast last => exact ⟨_, rfl, h.sound, h.held_eq, h.balanced⟩
  | readData length positive =>
    obtain ⟨data, after, hread, hsound, -, hbytes⟩ := h.sound.readData length
    refine ⟨_, by simp only [LedgeredResponse.apply, hread]; rfl, hsound, rfl, ?_⟩
    simp only [Ledger.Balanced, List.append_assoc, hbytes, hbalanced]

/-! ### Runs -/

/-- After any calls: what was read and what is buffered is what was written, in
order, and the next call, whichever it is, returns what it adds or takes. -/
theorem response_fifo (serverName : Bytes) (calls : List ResponseCall) :
    ∃ state, run LedgeredResponse.apply calls (.new serverName) = .ok state ∧
      state.ledger.accepted ++ state.response.bytes = state.ledger.given ∧
      state.response.bytes.length = state.response.bufferLength ∧
      ∀ call, state.response.Answers call := by
  have hrun : ∃ state, run LedgeredResponse.apply calls (.new serverName) = .ok state ∧
      state.Faithful := by
    induction calls using List.reverseRecOn with
    | nil => exact ⟨_, rfl, LedgeredResponse.faithful_new serverName⟩
    | append_singleton calls call ih =>
      obtain ⟨state, hstate, hfaithful⟩ := ih
      obtain ⟨next, hnext, hkept⟩ := hfaithful.apply call
      refine ⟨next, ?_, hkept⟩
      rw [CallOutcome.run_concat, hstate]
      exact hnext
  obtain ⟨state, hstate, hfaithful⟩ := hrun
  refine ⟨state, hstate, ?_, hfaithful.sound, hfaithful.sound.answers⟩
  rw [← hfaithful.held_eq]
  exact hfaithful.balanced

end Rapp
