import Rapp.Lib.Outcome
import Rapp.Lib.Slice
import Mathlib.Data.Vector.Basic

/-!
# Requests

`httprequest.c`: a request keeps ranges into its copy of the header block, a
table of header ranges of fixed size, and the body storage that is allocated
once the header block is complete. Allocation outcomes are arguments.
-/
namespace Rapp

open CallOutcome (Outcome)
open ByteBlock

abbrev httpRequestMaxHeaders : Nat := 100

structure MemoryRange where
  offset : Nat
  length : Nat
  deriving DecidableEq, Repr

structure HeaderMemoryRange where
  key : MemoryRange
  value : MemoryRange
  deriving DecidableEq, Repr

inductive HTTPMethod where
  | delete | get | head | post | put | connect | options | trace | copy | lock | mkcol | move
  | propfind | proppatch | search | unlock | report | mkactivity | checkout | merge | msearch
  | notify | subscribe | unsubscribe | patch | purge
  deriving DecidableEq, Repr

inductive HTTPURLField where
  | schema | host | port | path | query | fragment | userinfo
  deriving DecidableEq, Repr

/-- The fields below `HTTP_URL_FIELD_MAX`, in the order the loops visit them. -/
def HTTPURLField.all : List HTTPURLField :=
  [.schema, .host, .port, .path, .query, .fragment, .userinfo]

theorem HTTPURLField.mem_all (field : HTTPURLField) : field ∈ HTTPURLField.all := by
  cases field <;> decide

/-- Accesses of the request code that C gives no meaning to. -/
inductive Fault where
  /-- `queue->requests` is indexed outside the table. -/
  | requestIndex (index : Nat)
  /-- A request pointer that is NULL is used. -/
  | nullRequest
  /-- `headers_ranges` is indexed outside the table. -/
  | headerIndex (index : Nat)
  /-- More bytes are read from the queue's buffer than it holds. -/
  | bufferRead
  /-- Body bytes are copied outside the allocated storage. -/
  | bodyWrite
  /-- More bytes are read from a response buffer than it holds. -/
  | responseRead
  deriving DecidableEq, Repr

abbrev Result (σ : Type) := Outcome Fault σ

structure HTTPRequest where
  method : HTTPMethod
  urlRange : MemoryRange
  urlFieldRanges : HTTPURLField → MemoryRange
  headersRanges : Vector HeaderMemoryRange httpRequestMaxHeaders
  currentHeader : Nat
  headersBuffer : Option Bytes
  body : Option Bytes
  bodyLength : Nat
  isLast : Bool

namespace HTTPRequest

def zeroRange : MemoryRange := ⟨0, 0⟩

/-- The zeroed record `memory_create` hands out. -/
def new : HTTPRequest where
  method := .delete
  urlRange := zeroRange
  urlFieldRanges := fun _ => zeroRange
  headersRanges := Vector.replicate httpRequestMaxHeaders ⟨zeroRange, zeroRange⟩
  currentHeader := 0
  headersBuffer := none
  body := none
  bodyLength := 0
  isLast := false

/-- `memcpy` of `length` bytes from a buffer that holds fewer is undefined. -/
def setHeadersBuffer (request : HTTPRequest) (allocated : Bool) (buffer : Bytes) (length : Nat) :
    Result HTTPRequest :=
  if !allocated then .failed { request with headersBuffer := none }
  else if buffer.length < length then .undefined .bufferRead
  else .ok { request with headersBuffer := some (buffer.take length) }

def setMethod (request : HTTPRequest) (method : HTTPMethod) : HTTPRequest :=
  { request with method := method }

def setUrlRange (request : HTTPRequest) (offset length : Nat) : HTTPRequest :=
  { request with urlRange := ⟨offset, length⟩ }

def setUrlFieldRange (request : HTTPRequest) (field : HTTPURLField) (offset length : Nat) :
    HTTPRequest :=
  { request with
    urlFieldRanges := fun f => if f = field then ⟨offset, length⟩ else request.urlFieldRanges f }

def getUrlFieldRange (request : HTTPRequest) (field : HTTPURLField) : Option MemoryRange :=
  if (request.urlFieldRanges field).length = 0 then none
  else some (request.urlFieldRanges field)

def setHeaderKeyRange (request : HTTPRequest) (headerIndex offset length : Nat) :
    Result HTTPRequest :=
  if h : headerIndex < httpRequestMaxHeaders then
    .ok { request with
      headersRanges := request.headersRanges.set headerIndex
        { request.headersRanges[headerIndex] with key := ⟨offset, length⟩ } }
  else .undefined (.headerIndex headerIndex)

def setHeaderValueRange (request : HTTPRequest) (headerIndex offset length : Nat) :
    Result HTTPRequest :=
  if h : headerIndex < httpRequestMaxHeaders then
    .ok { request with
      headersRanges := request.headersRanges.set headerIndex
        { request.headersRanges[headerIndex] with value := ⟨offset, length⟩ }
      currentHeader := request.currentHeader + 1 }
  else .undefined (.headerIndex headerIndex)

/-- The bytes of a range of the copied header block (`EXTRACT_MEMORY_RANGE`). -/
def extract (request : HTTPRequest) (range : MemoryRange) : Bytes :=
  slice range.offset range.length (request.headersBuffer.getD [])

def toLower (byte : UInt8) : UInt8 := if 65 ≤ byte ∧ byte ≤ 90 then byte + 32 else byte

/-- `strcasecmp(s1, s2) == 0`. -/
def strcasecmp (s₁ s₂ : Bytes) : Bool := (cString s₁).map toLower == (cString s₂).map toLower

/-- The entries below `current_header`, as `http_request_get_headers_ranges` hands them out. -/
def getHeadersRanges (request : HTTPRequest) : List HeaderMemoryRange :=
  request.headersRanges.toList.take request.currentHeader

/-- The first header of the given name; `none` is the result -1. -/
def getHeaderValueRange (request : HTTPRequest) (headerName : Bytes) : Option MemoryRange :=
  (request.getHeadersRanges.find? fun header =>
    strcasecmp headerName (request.extract header.key)).map (·.value)

def setBodyLength (request : HTTPRequest) (allocated : Bool) (length : Nat) :
    Result HTTPRequest :=
  if !allocated then .failed { request with body := none }
  else .ok { request with body := some (List.replicate length 0) }

/-- `memcpy` behind the bytes already there, with no check of the storage. -/
def appendBodyData (request : HTTPRequest) (data : Bytes) : Result HTTPRequest :=
  match request.body with
  | none => .undefined .bodyWrite
  | some storage =>
    if storage.length < request.bodyLength + data.length then .undefined .bodyWrite
    else .ok { request with
      body := some (overwrite request.bodyLength data storage)
      bodyLength := request.bodyLength + data.length }

def setLast (request : HTTPRequest) (last : Bool) : HTTPRequest := { request with isLast := last }

/-! ### What a successful setter has done -/

theorem setHeadersBuffer_ok {r s : HTTPRequest} {allocated : Bool} {buffer : Bytes} {length : Nat}
    (h : r.setHeadersBuffer allocated buffer length = .ok s) :
    length ≤ buffer.length ∧ s = { r with headersBuffer := some (buffer.take length) } := by
  unfold setHeadersBuffer at h
  split at h
  · cases h
  · split at h
    · cases h
    · exact ⟨by omega, (Outcome.ok.inj h).symm⟩

theorem setHeaderKeyRange_ok {r s : HTTPRequest} {index offset length : Nat}
    (h : r.setHeaderKeyRange index offset length = .ok s) :
    ∃ hi : index < httpRequestMaxHeaders, s = { r with
      headersRanges := r.headersRanges.set index
        { r.headersRanges[index] with key := ⟨offset, length⟩ } } := by
  unfold setHeaderKeyRange at h
  split at h
  · rename_i hi
    exact ⟨hi, (Outcome.ok.inj h).symm⟩
  · cases h

theorem setHeaderValueRange_ok {r s : HTTPRequest} {index offset length : Nat}
    (h : r.setHeaderValueRange index offset length = .ok s) :
    ∃ hi : index < httpRequestMaxHeaders, s = { r with
      headersRanges := r.headersRanges.set index
        { r.headersRanges[index] with value := ⟨offset, length⟩ }
      currentHeader := r.currentHeader + 1 } := by
  unfold setHeaderValueRange at h
  split at h
  · rename_i hi
    exact ⟨hi, (Outcome.ok.inj h).symm⟩
  · cases h

theorem setBodyLength_ok {r s : HTTPRequest} {allocated : Bool} {length : Nat}
    (h : r.setBodyLength allocated length = .ok s) :
    s = { r with body := some (List.replicate length 0) } := by
  unfold setBodyLength at h
  split at h
  · cases h
  · exact (Outcome.ok.inj h).symm

theorem appendBodyData_ok {r s : HTTPRequest} {data : Bytes} (h : r.appendBodyData data = .ok s) :
    ∃ storage, r.body = some storage ∧ r.bodyLength + data.length ≤ storage.length ∧
      s = { r with
        body := some (overwrite r.bodyLength data storage)
        bodyLength := r.bodyLength + data.length } := by
  unfold appendBodyData at h
  split at h
  · cases h
  · rename_i storage hs
    split at h
    · cases h
    · exact ⟨storage, hs, by omega, (Outcome.ok.inj h).symm⟩

end HTTPRequest

end Rapp
