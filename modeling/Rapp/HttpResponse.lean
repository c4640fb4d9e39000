import Rapp.HttpRequest

/-!
# Responses

`httpresponse.c`: a byte buffer that is resized on every append and shrunk on
every read. The answers of `memory_resize` are arguments.
-/
namespace Rapp

open CallOutcome (Outcome)
open ByteBlock

structure HTTPResponse where
  buffer : Option Bytes
  bufferLength : Nat
  serverName : Bytes
  isLast : Bool
  deriving DecidableEq

namespace HTTPResponse

def new (serverName : Bytes) : HTTPResponse where
  buffer := none
  bufferLength := 0
  serverName := serverName
  isLast := false

def bytes (response : HTTPResponse) : Bytes := response.buffer.getD []

/-- The length appended, `none` for the result -1. A failed resize forgets the
buffer, and a resize of a NULL buffer brings bytes nobody wrote. -/
def appendData (data : Bytes) (resized : Bool) (response : HTTPResponse) :
    Option Nat × HTTPResponse :=
  if !resized then (none, { response with buffer := none })
  else (some data.length, { response with
    buffer := some (response.bytes ++
      List.replicate (response.bufferLength - response.bytes.length) 0 ++ data)
    bufferLength := response.bufferLength + data.length })

/-- The bytes copied out and the response left; `none` is the result -1. -/
def readData (length : Nat) (shrunk : Bool) (response : HTTPResponse) :
    Except Fault (Option Bytes × HTTPResponse) :=
  let available := min response.bufferLength length
  let rest := response.bufferLength - available
  if response.bytes.length < available then .error .responseRead
  else if rest = 0 then
    .ok (some (response.bytes.take available), { response with buffer := none, bufferLength := 0 })
  else if !shrunk then .ok (none, { response with buffer := none, bufferLength := rest })
  else .ok (some (response.bytes.take available), { response with
    buffer := some (slice available rest response.bytes)
    bufferLength := rest })

def setLast (response : HTTPResponse) (last : Bool) : HTTPResponse :=
  { response with isLast := last }

/-- The buffer holds as many bytes as the response counts. -/
def Sound (response : HTTPResponse) : Prop := response.bytes.length = response.bufferLength

theorem sound_new (serverName : Bytes) : (new serverName).Sound := rfl

theorem appendData_resized {response : HTTPResponse} (h : response.Sound) (data : Bytes) :
    ∃ next, response.appendData data true = (some data.length, next) ∧ next.Sound ∧
      next.bytes = response.bytes ++ data ∧ next.isLast = response.isLast := by
  have hlen : response.bytes.length = response.bufferLength := h
  refine ⟨_, rfl, ?_, ?_, rfl⟩
  · change (response.bytes ++ List.replicate _ 0 ++ data).length = _
    simp only [List.length_append, List.length_replicate]
    omega
  · change response.bytes ++ List.replicate _ 0 ++ data = _
    rw [hlen, Nat.sub_self, List.replicate_zero, List.append_nil]

/-- One read of a sound response whose shrink succeeds takes the front of the buffer. -/
theorem readData_shrunk {response : HTTPResponse} (h : response.Sound) (length : Nat) :
    ∃ next, response.readData length true =
        .ok (some (response.bytes.take (min response.bufferLength length)), next) ∧
      next.Sound ∧ next.bytes = response.bytes.drop (min response.bufferLength length) ∧
      next.isLast = response.isLast := by
  have hlen : response.bytes.length = response.bufferLength := h
  simp only [readData]
  rw [if_neg (by omega)]
  by_cases hrest : response.bufferLength - min response.bufferLength length = 0
  · rw [if_pos hrest]
    refine ⟨_, rfl, rfl, ?_, rfl⟩
    exact (List.drop_eq_nil_of_le (by omega)).symm
  · rw [if_neg hrest]
    have hslice : slice (min response.bufferLength length)
        (response.bufferLength - min response.bufferLength length) response.bytes =
        response.bytes.drop (min response.bufferLength length) :=
      List.take_of_length_le (by rw [List.length_drop]; omega)
    refine ⟨_, rfl, ?_, hslice, rfl⟩
    simp only [Sound, bytes, Option.getD_some] at hslice ⊢
    rw [hslice, List.length_drop]
    simp only [bytes] at hlen
    omega

end HTTPResponse

end Rapp
