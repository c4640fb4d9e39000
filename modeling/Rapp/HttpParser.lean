import Rapp.HttpRequest

/-!
# The interface of http_parser

The parser itself is a submodule and is not part of the sources. What the
queue sees of it is a sequence of callbacks; positions are relative to the
memory range given to `http_parser_execute`. A callback also carries the
answers of the allocator to the requests made while it is served.
-/
namespace Rapp

open ByteBlock

/-- The fields of the parser that `on_headers_complete` reads. Without a
Content-Length the length is `ULLONG_MAX`. -/
structure ParserHead where
  method : HTTPMethod
  nread : Nat
  contentLength : BitVec 64
  keepAlive : Bool
  deriving DecidableEq

/-- Answers to the allocations of `on_headers_complete`; a block that is
resized comes back at some address. -/
structure HeadersMemory where
  headers : Bool
  shrunk : Option Nat
  body : Bool
  deriving DecidableEq

inductive Callback where
  | messageBegin (allocated : Bool)
  | url (pos : Nat) (data : Bytes)
  | headerField (pos : Nat) (data : Bytes)
  | headerValue (pos : Nat) (data : Bytes)
  | headersComplete (pos : Nat) (head : ParserHead) (memory : HeadersMemory)
  | body (pos : Nat) (data : Bytes)
  | messageComplete (pos : Nat)
  deriving DecidableEq

/-- Where the parser stands: between messages, in a header block, or after
one. Trailing headers of a chunked body come after it. -/
inductive Phase where
  | idle | head | body
  deriving DecidableEq, Repr

/-- The documented order of callbacks. -/
def Phase.next : Phase → Callback → Option Phase
  | .idle, .messageBegin _ => some .head
  | .head, .url _ _ => some .head
  | .head, .headerField _ _ => some .head
  | .head, .headerValue _ _ => some .head
  | .head, .headersComplete _ _ _ => some .body
  | .body, .body _ _ => some .body
  | .body, .headerField _ _ => some .body
  | .body, .headerValue _ _ => some .body
  | .body, .messageComplete _ => some .idle
  | _, _ => none

theorem Phase.next_messageBegin {phase next : Phase} {allocated : Bool} :
    phase.next (.messageBegin allocated) = some next ↔ phase = .idle ∧ next = .head := by
  cases phase <;> simp [Phase.next, eq_comm]

theorem Phase.next_url {phase next : Phase} {pos : Nat} {data : Bytes} :
    phase.next (.url pos data) = some next ↔ phase = .head ∧ next = .head := by
  cases phase <;> simp [Phase.next, eq_comm]

theorem Phase.next_headerField {phase next : Phase} {pos : Nat} {data : Bytes} :
    phase.next (.headerField pos data) = some next ↔ phase ≠ .idle ∧ next = phase := by
  cases phase <;> simp [Phase.next, eq_comm]

theorem Phase.next_headerValue {phase next : Phase} {pos : Nat} {data : Bytes} :
    phase.next (.headerValue pos data) = some next ↔ phase ≠ .idle ∧ next = phase := by
  cases phase <;> simp [Phase.next, eq_comm]

theorem Phase.next_headersComplete {phase next : Phase} {pos : Nat} {head : ParserHead}
    {memory : HeadersMemory} :
    phase.next (.headersComplete pos head memory) = some next ↔
      phase = .head ∧ next = .body := by
  cases phase <;> simp [Phase.next, eq_comm]

theorem Phase.next_body {phase next : Phase} {pos : Nat} {data : Bytes} :
    phase.next (.body pos data) = some next ↔ phase = .body ∧ next = .body := by
  cases phase <;> simp [Phase.next, eq_comm]

theorem Phase.next_messageComplete {phase next : Phase} {pos : Nat} :
    phase.next (.messageComplete pos) = some next ↔ phase = .body ∧ next = .idle := by
  cases phase <;> simp [Phase.next, eq_comm]

def Phase.after : Phase → List Callback → Option Phase
  | phase, [] => some phase
  | phase, c :: cs => (phase.next c).bind fun p => p.after cs

theorem Phase.after_append (phase : Phase) (xs ys : List Callback) :
    phase.after (xs ++ ys) = (phase.after xs).bind fun p => p.after ys := by
  induction xs generalizing phase with
  | nil => rfl
  | cons c cs ih =>
    simp only [List.cons_append, Phase.after]
    cases phase.next c with
    | none => rfl
    | some p => simpa using ih p

theorem Phase.after_concat (phase : Phase) (cs : List Callback) (c : Callback) :
    phase.after (cs ++ [c]) = (phase.after cs).bind fun p => p.next c := by
  rw [Phase.after_append]
  congr
  funext p
  simp [Phase.after]

theorem Phase.after_front {phase : Phase} {xs ys : List Callback}
    (h : (phase.after (xs ++ ys)).isSome) : (phase.after xs).isSome := by
  rw [Phase.after_append] at h
  exact Option.isSome_of_isSome_bind h

/-- In a documented order the next callback is one that the phase allows. -/
theorem Phase.next_of_after {phase middle : Phase} {xs ys : List Callback} {c : Callback}
    (h : (phase.after (xs ++ c :: ys)).isSome) (hm : phase.after xs = some middle) :
    ∃ next, middle.next c = some next := by
  rw [Phase.after_append, hm, Option.bind_some, Phase.after] at h
  exact Option.isSome_iff_exists.mp (Option.isSome_of_isSome_bind h)

/-- `http_parser_parse_url`: the fields found, as ranges of the given bytes. -/
abbrev ParseUrl := Bytes → Option (HTTPURLField → Option MemoryRange)

/-- What it answers on an origin-form URL without query and fragment: all of it is the path. -/
def parsePath : ParseUrl := fun data =>
  if data.head? = some 47 then
    some fun field => if field = .path then some ⟨0, data.length⟩ else none
  else none

/-- The header values reported so far for the message under way. -/
def valuesInMessage : List Callback → Nat :=
  List.foldl (fun n c => match c with
    | .headerValue _ _ => n + 1
    | .messageComplete _ => 0
    | _ => n) 0

/-- The messages completed so far. -/
def messagesCompleted (cs : List Callback) : Nat :=
  cs.countP fun c => match c with | .messageComplete _ => true | _ => false

end Rapp
