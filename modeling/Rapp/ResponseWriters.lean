import Rapp.HttpResponse

/-!
# Writers of a response

The functions of `httpresponse.c` that format a part of a response and append
it. Texts are C strings without their NUL; what `time` and `strftime` give is an
argument, none when one of them fails.
-/
namespace Rapp

open ByteBlock

/-- A response and the answers of the memory functions to come; after the last
answer they succeed. -/
structure Writing where
  response : HTTPResponse
  answers : List Bool

/-- The result is none where the code returns -1. -/
abbrev Writer := OptionT (StateM Writing)

def httpEol : Bytes := ascii "\r\n"

/-- Code, space, message and NUL. -/
def statuslineLen : Nat := 36

/-- HTTP/1.1 -/
def protocolLen : Nat := 8

def httpStatuses : List (Nat × String) :=
  [(100, "Continue"), (101, "Switching Protocols"), (102, "Processing"), (200, "OK"),
    (201, "Created"), (202, "Accepted"), (203, "Non-Authoritative Information"),
    (204, "No Content"), (205, "Reset Content"), (206, "Partial Content"), (207, "Multi-Status"),
    (208, "Already Reported"), (226, "IM Used"), (300, "Multiple Choices"),
    (301, "Moved Permanently"), (302, "Found"), (303, "See Other"), (304, "Not Modified"),
    (305, "Use Proxy"), (306, "Reserved"), (307, "Temporary Redirect"),
    (308, "Permanent Redirect"), (400, "Bad Request"), (401, "Unauthorized"),
    (402, "Payment Required"), (403, "Forbidden"), (404, "Not Found"),
    (405, "Method Not Allowed"), (406, "Not Acceptable"), (407, "Proxy Authentication Required"),
    (408, "Request Timeout"), (409, "Conflict"), (410, "Gone"), (411, "Length Required"),
    (412, "Precondition Failed"), (413, "Request Entity Too Large"), (414, "Request-URI Too Long"),
    (415, "Unsupported Media Type"), (416, "Requested Range Not Satisfiable"),
    (417, "Expectation Failed"), (422, "Unprocessable Entity"), (423, "Locked"),
    (424, "Failed Dependency"), (426, "Upgrade Required"), (428, "Precondition Required"),
    (429, "Too Many Requests"), (431, "Request Header Fields Too Large"),
    (500, "Internal Server Error"), (501, "Not Implemented"), (502, "Bad Gateway"),
    (503, "Service Unavailable"), (504, "Gateway Timeout"), (505, "HTTP Version Not Supported"),
    (506, "Variant Also Negotiates"), (507, "Insufficient Storage"), (508, "Loop Detected"),
    (510, "Not Extended"), (511, "Network Authentication Required")]

def statusMessageByCode (code : Nat) : Option Bytes :=
  (httpStatuses.find? fun status => status.1 = code).map fun status => ascii status.2

/-- The text of a number, as `%d` and `%lu` print it. -/
def decimal (number : Nat) : Bytes := ascii (toString number)

/-- What `snprintf` leaves in a buffer of this size. -/
def snprintf (size : Nat) (text : Bytes) : Bytes := text.take (size - 1)

def errorBody (message : Bytes) : Bytes :=
  ascii "<!DOCTYPE html><html><head><title>" ++ message ++ ascii "</title></head><body><h1>" ++
    message ++ ascii "</h1></body></html>"

namespace Writer

/-- One call of `memory_asprintf`. -/
def allocate : Writer Unit := OptionT.mk fun writing =>
  (if writing.answers.headD true then some () else none,
    { writing with answers := writing.answers.tail })

def appendData (data : Bytes) : Writer Nat := OptionT.mk fun writing =>
  let appended := writing.response.appendData data (writing.answers.headD true)
  (appended.1, { response := appended.2, answers := writing.answers.tail })

def readResponse : Writer HTTPResponse := OptionT.mk fun writing =>
  (some writing.response, writing)

def ofOption {α : Type} (value : Option α) : Writer α := OptionT.mk fun writing => (value, writing)

def writeStatusLine (statusLine : Bytes) : Writer Nat :=
  let statusLen := protocolLen + 1 + statusLine.length + httpEol.length + 1
  let status := snprintf statusLen (ascii "HTTP/1.1 " ++ statusLine ++ httpEol)
  appendData (status.take (statusLen - 1))

def writeStatusLineByCode (code : Nat) : Writer Nat := do
  let message ← ofOption (statusMessageByCode code)
  writeStatusLine (snprintf statuslineLen (decimal code ++ ascii " " ++ message))

def writeHeader (key value : Bytes) : Writer Nat := do
  allocate
  appendData (key ++ ascii ": " ++ value ++ httpEol)

/-- The header of a last response. -/
def writeConnection (isLast : Bool) : Writer Nat :=
  if isLast then writeHeader (ascii "Connection") (ascii "Close") else pure 0

def endHeaders (datetime : Option Bytes) : Writer Nat := do
  let response ← readResponse
  let server ← writeHeader (ascii "Server") response.serverName
  let datetime ← ofOption datetime
  let date ← writeHeader (ascii "Date") datetime
  let connection ← writeConnection response.isLast
  let eol ← appendData httpEol
  return server + date + connection + eol

def writeErrorByCode (code : Nat) (datetime : Option Bytes) : Writer Nat := do
  let message ← ofOption (statusMessageByCode code)
  allocate
  let body := errorBody message
  allocate
  let lenS := decimal body.length
  let statusLine ← writeStatusLineByCode code
  let contentType ← writeHeader (ascii "Content-Type") (ascii "text/html")
  let contentLength ← writeHeader (ascii "Content-Length") lenS
  let headers ← endHeaders datetime
  let content ← appendData body
  return statusLine + contentType + contentLength + headers + content

end Writer

/-! ### What is written -/

def statusLineText (statusLine : Bytes) : Bytes := ascii "HTTP/1.1 " ++ statusLine ++ httpEol

def statusLineByCodeText (code : Nat) (message : Bytes) : Bytes :=
  statusLineText (decimal code ++ ascii " " ++ message)

def headerText (key value : Bytes) : Bytes := key ++ ascii ": " ++ value ++ httpEol

def endHeadersText (serverName datetime : Bytes) (isLast : Bool) : Bytes :=
  headerText (ascii "Server") serverName ++ headerText (ascii "Date") datetime ++
    (if isLast then headerText (ascii "Connection") (ascii "Close") else []) ++ httpEol

def errorText (code : Nat) (message serverName datetime : Bytes) (isLast : Bool) : Bytes :=
  statusLineByCodeText code message ++ headerText (ascii "Content-Type") (ascii "text/html") ++
    headerText (ascii "Content-Length") (decimal (errorBody message).length) ++
    endHeadersText serverName datetime isLast ++ errorBody message

/-- No message of the table is cut. -/
theorem snprintf_status {code : Nat} {message : Bytes}
    (h : statusMessageByCode code = some message) :
    snprintf statuslineLen (decimal code ++ ascii " " ++ message) =
      decimal code ++ ascii " " ++ message := by
  obtain ⟨status, hfind, rfl⟩ := Option.map_eq_some_iff.mp h
  have hcode := List.find?_some hfind
  rw [decide_eq_true_eq] at hcode
  have hfits : ∀ status ∈ httpStatuses,
      (decimal status.1 ++ ascii " " ++ ascii status.2).length < statuslineLen := by decide +kernel
  have hlength := hfits status (List.mem_of_find?_eq_some hfind)
  rw [hcode] at hlength
  exact List.take_of_length_le (by omega)

/-! ### Writers that append -/

/-- The counted buffer is there, and the memory functions will succeed. -/
structure Writing.Ready (writing : Writing) : Prop where
  sound : writing.response.Sound
  succeeds : ∀ answer ∈ writing.answers, answer = true

/-- The text is behind what was buffered, nothing else has changed. -/
structure Writing.Grown (before after : Writing) (text : Bytes) : Prop where
  ready : after.Ready
  bytes_eq : after.response.bytes = before.response.bytes ++ text
  isLast_eq : after.response.isLast = before.response.isLast
  serverName_eq : after.response.serverName = before.response.serverName

theorem Writing.Grown.trans {s t u : Writing} {first second : Bytes} (h : s.Grown t first)
    (h' : t.Grown u second) : s.Grown u (first ++ second) where
  ready := h'.ready
  bytes_eq := by rw [h'.bytes_eq, h.bytes_eq, List.append_assoc]
  isLast_eq := h'.isLast_eq.trans h.isLast_eq
  serverName_eq := h'.serverName_eq.trans h.serverName_eq

namespace Writer

/-- One writer run to its end. -/
def start {α : Type} (writer : Writer α) (writing : Writing) : Option α × Writing :=
  writer.run.run writing

theorem start_bind {α β : Type} {writer : Writer α} {next : α → Writer β} {before after : Writing}
    {value : α} (h : writer.start before = (some value, after)) :
    (writer >>= next).start before = (next value).start after := by
  simp only [start] at h
  simp only [start, OptionT.run_bind, Option.elimM, StateT.run_bind, h]
  rfl

@[simp] theorem start_pure {α : Type} (value : α) (writing : Writing) :
    (pure value : Writer α).start writing = (some value, writing) := rfl

/-- The writer appends the text and returns its length. -/
def Appends (writer : Writer Nat) (before : Writing) (text : Bytes) : Prop :=
  ∃ after, writer.start before = (some text.length, after) ∧ before.Grown after text

theorem allocate_start {before : Writing} (h : before.Ready) :
    ∃ after, allocate.start before = (some (), after) ∧ before.Grown after [] := by
  have hhead : before.answers.headD true = true := by
    cases hanswers : before.answers with
    | nil => rfl
    | cons answer answers => exact h.succeeds answer (by simp [hanswers])
  refine ⟨{ before with answers := before.answers.tail }, ?_, ?_⟩
  · exact Prod.ext (if_pos hhead) rfl
  · exact ⟨⟨h.sound, fun answer hmem => h.succeeds answer (List.mem_of_mem_tail hmem)⟩,
      (List.append_nil _).symm, rfl, rfl⟩

theorem appendData_appends {before : Writing} (h : before.Ready) (data : Bytes) :
    (appendData data).Appends before data := by
  have hhead : before.answers.headD true = true := by
    cases hanswers : before.answers with
    | nil => rfl
    | cons answer answers => exact h.succeeds answer (by simp [hanswers])
  obtain ⟨next, happend, hsound, hbytes, hlast⟩ := HTTPResponse.appendData_resized h.sound data
  refine ⟨{ response := next, answers := before.answers.tail }, ?_, ?_⟩
  · simp only [start, appendData, OptionT.run_mk, StateT.run, hhead, happend]
  · refine ⟨⟨hsound, fun answer hmem => h.succeeds answer (List.mem_of_mem_tail hmem)⟩, hbytes,
      hlast, ?_⟩
    have hnext := congrArg (fun result => result.2.serverName) happend
    exact hnext.symm

/-- The buffer of a status line is as long as its text. -/
theorem writeStatusLine_eq (statusLine : Bytes) :
    writeStatusLine statusLine = appendData (statusLineText statusLine) := by
  have hlength : (ascii "HTTP/1.1 ").length = protocolLen + 1 := by decide
  have htext : (snprintf (protocolLen + 1 + statusLine.length + httpEol.length + 1)
      (ascii "HTTP/1.1 " ++ statusLine ++ httpEol)).take
        (protocolLen + 1 + statusLine.length + httpEol.length + 1 - 1) =
      statusLineText statusLine := by
    rw [snprintf, List.take_take, statusLineText]
    refine List.take_of_length_le ?_
    simp only [List.length_append, hlength]
    omega
  rw [writeStatusLine]
  simp only [htext]

theorem writeStatusLine_appends {before : Writing} (h : before.Ready) (statusLine : Bytes) :
    (writeStatusLine statusLine).Appends before (statusLineText statusLine) := by
  rw [writeStatusLine_eq]
  exact appendData_appends h _

theorem writeStatusLineByCode_eq {code : Nat} {message : Bytes}
    (hmessage : statusMessageByCode code = some message) :
    writeStatusLineByCode code = appendData (statusLineByCodeText code message) := by
  have hfound : (ofOption (some message) : Writer Bytes) = pure message := rfl
  rw [writeStatusLineByCode, hmessage, hfound, pure_bind, snprintf_status hmessage,
    writeStatusLine_eq]
  rfl

theorem writeHeader_appends {before : Writing} (h : before.Ready) (key value : Bytes) :
    (writeHeader key value).Appends before (headerText key value) := by
  obtain ⟨allocated, hallocate, hgrown⟩ := allocate_start h
  obtain ⟨after, happend, hafter⟩ := appendData_appends hgrown.ready (headerText key value)
  refine ⟨after, ?_, hgrown.trans hafter⟩
  rw [writeHeader, start_bind hallocate]
  exact happend

theorem writeStatusLineByCode_appends {before : Writing} (h : before.Ready) {code : Nat}
    {message : Bytes} (hmessage : statusMessageByCode code = some message) :
    (writeStatusLineByCode code).Appends before (statusLineByCodeText code message) := by
  rw [writeStatusLineByCode_eq hmessage]
  exact appendData_appends h _

theorem endHeaders_appends {before : Writing} (h : before.Ready) (datetime : Bytes) :
    (endHeaders (some datetime)).Appends before
      (endHeadersText before.response.serverName datetime before.response.isLast) := by
  obtain ⟨served, hserver, hserved⟩ :=
    writeHeader_appends h (ascii "Server") before.response.serverName
  obtain ⟨dated, hdate, hdated⟩ := writeHeader_appends hserved.ready (ascii "Date") datetime
  have hconnection : (writeConnection before.response.isLast).Appends dated
      (if before.response.isLast then headerText (ascii "Connection") (ascii "Close") else []) := by
    cases before.response.isLast with
    | false => exact ⟨dated, rfl, hdated.ready, (List.append_nil _).symm, rfl, rfl⟩
    | true => exact writeHeader_appends hdated.ready _ _
  obtain ⟨closed, hclose, hclosed⟩ := hconnection
  obtain ⟨after, heol, hafter⟩ := appendData_appends hclosed.ready httpEol
  refine ⟨after, ?_, ((hserved.trans hdated).trans hclosed).trans hafter⟩
  have hread : readResponse.start before = (some before.response, before) := rfl
  have htime : (ofOption (some datetime)).start served = (some datetime, served) := rfl
  rw [endHeaders, start_bind hread, start_bind hserver, start_bind htime, start_bind hdate,
    start_bind hclose, start_bind heol, start_pure]
  simp only [endHeadersText, List.length_append]

theorem writeErrorByCode_appends {before : Writing} (h : before.Ready) {code : Nat}
    {message : Bytes} (hmessage : statusMessageByCode code = some message) (datetime : Bytes) :
    (writeErrorByCode code (some datetime)).Appends before
      (errorText code message before.response.serverName datetime before.response.isLast) := by
  have hfound : (ofOption (statusMessageByCode code)).start before = (some message, before) :=
    congrArg (·, before) hmessage
  obtain ⟨formatted, hbody, hformatted⟩ := allocate_start h
  obtain ⟨counted, hlen, hcounted⟩ := allocate_start hformatted.ready
  obtain ⟨started, hline, hstarted⟩ := writeStatusLineByCode_appends hcounted.ready hmessage
  obtain ⟨typed, htype, htyped⟩ :=
    writeHeader_appends hstarted.ready (ascii "Content-Type") (ascii "text/html")
  obtain ⟨sized, hsize, hsized⟩ := writeHeader_appends htyped.ready (ascii "Content-Length")
    (decimal (errorBody message).length)
  obtain ⟨ended, hend, hended⟩ := endHeaders_appends hsized.ready datetime
  obtain ⟨after, hcontent, hafter⟩ := appendData_appends hended.ready (errorBody message)
  have hkept := (((hformatted.trans hcounted).trans hstarted).trans htyped).trans hsized
  have hall := (hkept.trans hended).trans hafter
  rw [hkept.serverName_eq, hkept.isLast_eq] at hend hall
  refine ⟨after, ?_, hall⟩
  rw [writeErrorByCode, start_bind hfound, start_bind hbody, start_bind hlen, start_bind hline,
    start_bind htype, start_bind hsize, start_bind hend, start_bind hcontent, start_pure]
  simp only [errorText, List.length_append]

end Writer

end Rapp
