import Rapp.ResponseWriters

/-!
# Composite writers that fail

`http_response_end_headers` and `http_response_write_error_by_code` append piece
by piece, and each piece asks for memory. What the response holds when such a
writer returns -1 depends on the first piece that could not be written.
-/
namespace Rapp

open ByteBlock

/-- What can be read from the response is the same. -/
def Writing.SameContent (before after : Writing) : Prop :=
  after.response.bytes = before.response.bytes ∧
    after.response.bufferLength = before.response.bufferLength

/-- The answer of a later call of a memory function. -/
def Writing.answer (writing : Writing) (call : Nat) : Bool := writing.answers.getD call true

theorem Writing.answer_zero (writing : Writing) :
    writing.answer 0 = writing.answers.headD true := by
  cases hanswers : writing.answers <;> simp [answer, hanswers]

/-- One of `allocations` calls fails before the first append, or that append's
own over a response that holds nothing, or nothing fails at all: there is a time
and `count` calls of the memory functions succeed. -/
def Writing.Spares (writing : Writing) (allocations : Nat) (possible : Bool) (count : Nat) : Prop :=
  (∃ call < allocations, writing.answer call = false) ∨
  (writing.answer allocations = false ∧ writing.response.bytes = []) ∨
  (possible = true ∧ ∀ answer ∈ writing.answers.take count, answer = true)

namespace Writer

/-- A writer that returns -1 has left the content as it was. -/
def AllOrNothing (writer : Writer Nat) (before : Writing) : Prop :=
  (writer.start before).1 = none → before.SameContent (writer.start before).2

/-- In a response that is the last one or not, a writer that can succeed does so
exactly when its next `count` answers are yes, which it then has used up;
whatever happens, it takes no length back. -/
structure Runs {α : Type} (writer : Writer α) (last possible : Bool) (count : Nat) : Prop where
  isSome_iff : ∀ before : Writing, before.response.isLast = last →
    ((writer.start before).1.isSome = true ↔
      possible = true ∧ ∀ answer ∈ before.answers.take count, answer = true)
  answers_eq : ∀ before : Writing, before.response.isLast = last →
    (writer.start before).1.isSome = true →
    (writer.start before).2.answers = before.answers.drop count
  climbs : ∀ before : Writing, before.response.isLast = last →
    before.response.bufferLength ≤ (writer.start before).2.response.bufferLength
  isLast_eq : ∀ before : Writing, before.response.isLast = last →
    (writer.start before).2.response.isLast = last

/-! ### Sequences of writers -/

variable {α β : Type}

theorem start_bind_none {writer : Writer α} {next : α → Writer β} {before after : Writing}
    (h : writer.start before = (none, after)) :
    (writer >>= next).start before = (none, after) := by
  simp only [start] at h
  simp only [start, OptionT.run_bind, Option.elimM, StateT.run_bind, h]
  rfl

theorem Runs.bind {writer : Writer α} {next : α → Writer β} {last p q : Bool} {m n : Nat}
    (h : writer.Runs last p m) (hnext : ∀ value, (next value).Runs last q n) :
    (writer >>= next).Runs last (p && q) (m + n) := by
  have hcases : ∀ before,
      (∃ after, writer.start before = (none, after) ∧
        (writer >>= next).start before = (none, after)) ∨
      ∃ value after, writer.start before = (some value, after) ∧
        (writer >>= next).start before = (next value).start after := by
    intro before
    cases hstart : writer.start before with
    | mk result after =>
      cases result with
      | none => exact .inl ⟨after, rfl, start_bind_none hstart⟩
      | some value => exact .inr ⟨value, after, rfl, start_bind hstart⟩
  constructor
  · intro before hlast
    have hfirst := h.isSome_iff before hlast
    rw [List.take_add, Bool.and_eq_true]
    simp only [List.mem_append, or_imp, forall_and]
    obtain ⟨after, hstart, hbind⟩ | ⟨value, after, hstart, hbind⟩ := hcases before
    · rw [hstart] at hfirst
      rw [hbind]
      simp only [Option.isSome_none, Bool.false_eq_true, false_iff] at hfirst ⊢
      tauto
    · have hkept := h.isLast_eq before hlast
      have hused := h.answers_eq before hlast
      rw [hstart] at hfirst hused hkept
      rw [hbind, (hnext value).isSome_iff after hkept, hused rfl]
      simp only [Option.isSome_some, true_iff] at hfirst
      tauto
  · intro before hlast
    obtain ⟨after, hstart, hbind⟩ | ⟨value, after, hstart, hbind⟩ := hcases before
    · rw [hbind]
      exact nofun
    · have hkept := h.isLast_eq before hlast
      have hused := h.answers_eq before hlast
      rw [hstart] at hused hkept
      rw [hbind]
      intro hsome
      rw [(hnext value).answers_eq after hkept hsome, hused rfl, List.drop_drop]
  · intro before hlast
    have hfirst := h.climbs before hlast
    have hkept := h.isLast_eq before hlast
    obtain ⟨after, hstart, hbind⟩ | ⟨value, after, hstart, hbind⟩ := hcases before
    · rw [hbind]
      rwa [hstart] at hfirst
    · rw [hstart] at hfirst hkept
      rw [hbind]
      exact hfirst.trans ((hnext value).climbs after hkept)
  · intro before hlast
    have hkept := h.isLast_eq before hlast
    obtain ⟨after, hstart, hbind⟩ | ⟨value, after, hstart, hbind⟩ := hcases before
    · rw [hbind]
      rwa [hstart] at hkept
    · rw [hstart] at hkept
      rw [hbind]
      exact (hnext value).isLast_eq after hkept

variable {last : Bool}

theorem runs_pure (value : α) : (pure value : Writer α).Runs last true 0 := by
  constructor
  · simp
  · simp
  · exact fun before _ => le_rfl
  · exact fun before hlast => hlast

theorem runs_ofOption (value : Option α) : (ofOption value).Runs last value.isSome 0 := by
  constructor
  · intro before _
    cases value <;> simp [start, ofOption, StateT.run]
  · exact fun before _ _ => rfl
  · exact fun before _ => le_rfl
  · exact fun before hlast => hlast

/-- One question, the answer of which decides. -/
theorem headD_iff (answers : List Bool) :
    answers.headD true = true ↔ ∀ answer ∈ answers.take 1, answer = true := by
  cases answers <;> simp

theorem allocate_start_eq (before : Writing) : allocate.start before =
    (if before.answers.headD true then some () else none,
      { before with answers := before.answers.tail }) := rfl

theorem appendData_start_eq (data : Bytes) (before : Writing) : (appendData data).start before =
    ((before.response.appendData data (before.answers.headD true)).1,
      { response := (before.response.appendData data (before.answers.headD true)).2
        answers := before.answers.tail }) := rfl

theorem runs_allocate : allocate.Runs last true 1 := by
  constructor
  · intro before _
    rw [allocate_start_eq, ← headD_iff]
    cases before.answers.headD true <;> simp
  · intro before _ _
    rw [allocate_start_eq, List.drop_one]
  · exact fun before _ => le_rfl
  · exact fun before hlast => hlast

theorem runs_appendData (data : Bytes) : (appendData data).Runs last true 1 := by
  constructor
  · intro before _
    rw [appendData_start_eq, ← headD_iff]
    cases before.answers.headD true <;> simp [HTTPResponse.appendData]
  · intro before _ _
    rw [appendData_start_eq, List.drop_one]
  · intro before _
    rw [appendData_start_eq]
    cases before.answers.headD true <;> simp [HTTPResponse.appendData]
  · intro before hlast
    rw [appendData_start_eq]
    cases before.answers.headD true <;> exact hlast

theorem runs_writeHeader (key value : Bytes) : (writeHeader key value).Runs last true 2 :=
  runs_allocate.bind fun _ => runs_appendData _

theorem runs_writeConnection (isLast : Bool) :
    (writeConnection isLast).Runs last true (if isLast then 2 else 0) := by
  cases isLast with
  | true => exact runs_writeHeader _ _
  | false => exact runs_pure 0

/-- What `http_response_end_headers` does after the first header. -/
def afterServer (datetime : Option Bytes) (isLast : Bool) (server : Nat) : Writer Nat := do
  let datetime ← ofOption datetime
  let date ← writeHeader (ascii "Date") datetime
  let connection ← writeConnection isLast
  let eol ← appendData httpEol
  return server + date + connection + eol

theorem endHeaders_start (datetime : Option Bytes) (before : Writing) :
    (endHeaders datetime).start before =
      (writeHeader (ascii "Server") before.response.serverName >>=
        afterServer datetime before.response.isLast).start before := by
  have hread : readResponse.start before = (some before.response, before) := rfl
  rw [endHeaders, start_bind hread]
  rfl

theorem runs_afterServer (datetime : Option Bytes) (isLast : Bool) (server : Nat) :
    (afterServer datetime isLast server).Runs last datetime.isSome
      (3 + if isLast then 2 else 0) := by
  have hruns : (afterServer datetime isLast server).Runs last _ _ :=
    (runs_ofOption datetime).bind fun datetime =>
      (runs_writeHeader (ascii "Date") datetime).bind fun date =>
        (runs_writeConnection isLast).bind fun connection =>
          (runs_appendData httpEol).bind fun eol => runs_pure (server + date + connection + eol)
  have hcount : 0 + (2 + ((if isLast then 2 else 0) + (1 + 0))) =
      3 + if isLast then 2 else 0 := by omega
  rw [hcount] at hruns
  simp only [Bool.and_true] at hruns
  exact hruns

theorem runs_endHeaders (datetime : Option Bytes) :
    (endHeaders datetime).Runs last datetime.isSome (5 + if last then 2 else 0) := by
  have hruns : ∀ before : Writing, before.response.isLast = last →
      (writeHeader (ascii "Server") before.response.serverName >>=
        afterServer datetime before.response.isLast).Runs last datetime.isSome
          (5 + if last then 2 else 0) := by
    rintro before rfl
    have hheader : (writeHeader (ascii "Server") before.response.serverName >>=
        afterServer datetime before.response.isLast).Runs before.response.isLast _ _ :=
      (runs_writeHeader _ _).bind (runs_afterServer datetime before.response.isLast)
    rwa [Bool.true_and, ← Nat.add_assoc] at hheader
  constructor
  · intro before hlast
    rw [endHeaders_start]
    exact (hruns before hlast).isSome_iff before hlast
  · intro before hlast
    rw [endHeaders_start]
    exact (hruns before hlast).answers_eq before hlast
  · intro before hlast
    rw [endHeaders_start]
    exact (hruns before hlast).climbs before hlast
  · intro before hlast
    rw [endHeaders_start]
    exact (hruns before hlast).isLast_eq before hlast

/-- What `http_response_write_error_by_code` does after its status line. -/
def afterStatusLine (body : Bytes) (datetime : Option Bytes) (statusLine : Nat) : Writer Nat := do
  let contentType ← writeHeader (ascii "Content-Type") (ascii "text/html")
  let contentLength ← writeHeader (ascii "Content-Length") (decimal body.length)
  let headers ← endHeaders datetime
  let content ← appendData body
  return statusLine + contentType + contentLength + headers + content

theorem runs_afterStatusLine (body : Bytes) (datetime : Option Bytes) (statusLine : Nat) :
    (afterStatusLine body datetime statusLine).Runs last datetime.isSome
      (10 + if last then 2 else 0) := by
  have hruns : (afterStatusLine body datetime statusLine).Runs last _ _ :=
    (runs_writeHeader (ascii "Content-Type") (ascii "text/html")).bind fun contentType =>
      (runs_writeHeader (ascii "Content-Length") (decimal body.length)).bind fun contentLength =>
        (runs_endHeaders datetime).bind fun headers =>
          (runs_appendData body).bind fun content =>
            runs_pure (statusLine + contentType + contentLength + headers + content)
  have hcount : 2 + (2 + ((5 + if last then 2 else 0) + (1 + 0))) =
      10 + if last then 2 else 0 := by omega
  rw [hcount] at hruns
  simp only [Bool.true_and, Bool.and_true] at hruns
  exact hruns

/-! ### The step that decides -/

/-- A refused `memory_asprintf` changes nothing. -/
theorem allOrNothing_allocate {next : Unit → Writer Nat} (before : Writing) :
    (allocate >>= next).AllOrNothing before ↔
      before.answer 0 = false ∨
        (next ()).AllOrNothing { before with answers := before.answers.tail } := by
  have hstart := allocate_start_eq before
  rw [before.answer_zero]
  cases hhead : before.answers.headD true with
  | false =>
    rw [hhead] at hstart
    have hbind : (allocate >>= next).start before = _ := start_bind_none hstart
    simp only [AllOrNothing, hbind, true_or, iff_true]
    exact fun _ => ⟨rfl, rfl⟩
  | true =>
    rw [hhead] at hstart
    have hbind : (allocate >>= next).start before = _ := start_bind hstart
    simp only [AllOrNothing, hbind, Bool.true_eq_false, false_or]
    rfl

/-- The first append: refused it forgets the buffer, granted it is never taken back. -/
theorem allOrNothing_appendData {data : Bytes} (hdata : data ≠ []) {next : Nat → Writer Nat}
    {possible : Bool} {count : Nat} (before : Writing)
    (hnext : ∀ length, (next length).Runs before.response.isLast possible count) :
    (appendData data >>= next).AllOrNothing before ↔
      (before.answer 0 = false ∧ before.response.bytes = []) ∨
        (possible = true ∧ ∀ answer ∈ before.answers.take (1 + count), answer = true) := by
  have hall := ((runs_appendData data).bind hnext).isSome_iff before rfl
  rw [Bool.true_and] at hall
  rw [← hall, before.answer_zero]
  have hstart := appendData_start_eq data before
  cases hhead : before.answers.headD true with
  | false =>
    rw [hhead] at hstart
    have hbind : (appendData data >>= next).start before = _ := start_bind_none hstart
    simp only [AllOrNothing, hbind, Option.isSome_none, Bool.false_eq_true, or_false, true_and]
    constructor
    · exact fun hkept => (hkept trivial).1.symm
    · exact fun hempty _ => ⟨hempty.symm, rfl⟩
  | true =>
    rw [hhead] at hstart
    have hbind : (appendData data >>= next).start before = _ := start_bind hstart
    have hgrown := (hnext data.length).climbs
      { response := (before.response.appendData data true).2, answers := before.answers.tail } rfl
    have hlonger : before.response.bufferLength <
        (before.response.appendData data true).2.bufferLength := by
      have hpositive := List.length_pos_iff.mpr hdata
      simp only [HTTPResponse.appendData, Bool.not_true, Bool.false_eq_true, if_false]
      omega
    simp only [AllOrNothing, hbind, Bool.true_eq_false, false_and, false_or]
    rw [Option.isSome_iff_ne_none]
    constructor
    · intro hkept hnone
      exact absurd (hkept hnone).2 (hlonger.trans_le hgrown).ne'
    · exact fun hsome hnone => absurd hnone hsome

/-- The first of several answers, and the others. -/
theorem take_one_add_iff (writing : Writing) (count : Nat) :
    (∀ answer ∈ writing.answers.take (1 + count), answer = true) ↔
      writing.answer 0 = true ∧ ∀ answer ∈ writing.answers.tail.take count, answer = true := by
  cases hanswers : writing.answers with
  | nil => simp [Writing.answer, hanswers]
  | cons answer answers => simp [Writing.answer, hanswers, Nat.add_comm 1 count]

theorem answer_succ (writing : Writing) (call : Nat) : writing.answer (call + 1) =
    Writing.answer { writing with answers := writing.answers.tail } call := by
  cases hanswers : writing.answers <;> simp [Writing.answer, hanswers]

/-- Texts that are formatted before anything is appended. -/
def allocating (allocations : Nat) (writer : Writer Nat) : Writer Nat :=
  (fun writer => allocate >>= fun _ => writer)^[allocations] writer

/-- The first failure decides: before the first append it does no harm, there it
does none when nothing was buffered, and behind it what was appended stays. -/
theorem allOrNothing_allocating {data : Bytes} (hdata : data ≠ []) {next : Nat → Writer Nat}
    {last possible : Bool} {count : Nat} (hnext : ∀ length, (next length).Runs last possible count)
    (allocations : Nat) (before : Writing) (hlast : before.response.isLast = last) :
    (allocating allocations (appendData data >>= next)).AllOrNothing before ↔
      before.Spares allocations possible (allocations + (1 + count)) := by
  induction allocations generalizing before with
  | zero =>
    subst hlast
    have hfirst := allOrNothing_appendData hdata before hnext
    simpa [Writing.Spares, allocating] using hfirst
  | succ allocations ih =>
    have htail := ih { before with answers := before.answers.tail } hlast
    rw [allocating, Function.iterate_succ_apply', ← allocating, allOrNothing_allocate, htail]
    simp only [Writing.Spares, Nat.exists_lt_succ_left, ← answer_succ]
    have hcount : allocations + 1 + (1 + count) = 1 + (allocations + (1 + count)) := by omega
    rw [hcount, take_one_add_iff]
    cases before.answer 0 <;> simp

/-! ### The composite writers -/

theorem endHeaders_allOrNothing_iff (datetime : Option Bytes) (before : Writing) :
    (endHeaders datetime).AllOrNothing before ↔
      before.Spares 1 datetime.isSome (5 + if before.response.isLast then 2 else 0) := by
  have htext : headerText (ascii "Server") before.response.serverName ≠ [] := by
    simp [headerText, httpEol, ascii]
  have hfirst := allOrNothing_allocating htext
    (runs_afterServer datetime before.response.isLast) 1 before rfl
  have hstart : (endHeaders datetime).start before = (allocating 1
      (appendData (headerText (ascii "Server") before.response.serverName) >>=
        afterServer datetime before.response.isLast)).start before := by
    rw [endHeaders_start, writeHeader, bind_assoc]
    rfl
  have hcount : 1 + (1 + (3 + if before.response.isLast then 2 else 0)) =
      5 + if before.response.isLast then 2 else 0 := by omega
  rw [hcount] at hfirst
  rw [← hfirst, AllOrNothing, AllOrNothing, hstart]

theorem writeErrorByCode_allOrNothing_iff (code : Nat) (datetime : Option Bytes)
    (before : Writing) :
    (writeErrorByCode code datetime).AllOrNothing before ↔
      statusMessageByCode code = none ∨
        before.Spares 2 datetime.isSome (13 + if before.response.isLast then 2 else 0) := by
  cases hmessage : statusMessageByCode code with
  | none =>
    have hunknown : (writeErrorByCode code datetime).start before = (none, before) := by
      rw [writeErrorByCode, hmessage]
      rfl
    simp only [AllOrNothing, hunknown, true_or, iff_true]
    exact fun _ => ⟨rfl, rfl⟩
  | some message =>
    have htext : statusLineByCodeText code message ≠ [] := by
      simp [statusLineByCodeText, statusLineText, httpEol, ascii]
    have hfirst := allOrNothing_allocating htext
      (runs_afterStatusLine (errorBody message) datetime) 2 before rfl
    have hwriter : writeErrorByCode code datetime = allocating 2
        (appendData (statusLineByCodeText code message) >>=
          afterStatusLine (errorBody message) datetime) := by
      have hfound : (ofOption (some message) : Writer Bytes) = pure message := rfl
      rw [writeErrorByCode, hmessage, hfound, pure_bind, writeStatusLineByCode_eq hmessage]
      rfl
    have hcount : 2 + (1 + (10 + if before.response.isLast then 2 else 0)) =
        13 + if before.response.isLast then 2 else 0 := by omega
    rw [hcount] at hfirst
    rw [hwriter, hfirst]
    simp

end Writer

/-- Both composite writers leave the content alone when they return -1, exactly
when nothing fails or the first failure spares it. -/
theorem composites_allOrNothing_iff (response : HTTPResponse) (answers : List Bool)
    (datetime : Option Bytes) :
    ((Writer.endHeaders datetime).AllOrNothing ⟨response, answers⟩ ↔
      Writing.Spares ⟨response, answers⟩ 1 datetime.isSome
        (5 + if response.isLast then 2 else 0)) ∧
    ∀ code, (Writer.writeErrorByCode code datetime).AllOrNothing ⟨response, answers⟩ ↔
      statusMessageByCode code = none ∨
        Writing.Spares ⟨response, answers⟩ 2 datetime.isSome
          (13 + if response.isLast then 2 else 0) :=
  ⟨Writer.endHeaders_allOrNothing_iff datetime _,
    fun code => Writer.writeErrorByCode_allOrNothing_iff code datetime _⟩

/-- The first header is there when `time` fails. -/
theorem not_composites_allOrNothing_time :
    ¬ (Writer.endHeaders none).AllOrNothing ⟨.new (ascii "RApp"), []⟩ := by
  intro hkept
  exact absurd (hkept rfl).2 (by decide)

end Rapp
