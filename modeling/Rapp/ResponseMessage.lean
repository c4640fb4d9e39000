import Rapp.Lib.Framing
import Rapp.ResponseFifo
import Rapp.ValueTexts

/-!
# Responses as messages

What a client takes out of the bytes it receives: a status line, header lines
up to an empty one, and as many bytes as `Content-Length` says. A page is what
a container writes with the functions of `httpresponse.c`; its text is framed
as long as no name or value ends the line it stands in.
-/
namespace Rapp

open HTTPRequest (strcasecmp)
open StreamFraming
open ByteBlock

/-- A response as the client takes it apart. -/
structure ResponseMessage where
  statusLine : Bytes
  headers : List (Bytes × Bytes)
  body : Bytes
  deriving DecidableEq

def colonSpace : Bytes := ascii ": "

namespace ResponseMessage

/-- The header in a line, none in the empty line behind the last one. -/
def header (line : Bytes) : Reader UInt8 (Option (Bytes × Bytes)) :=
  if line = [] then pure none else StateT.lift ((upTo colonSpace line).map some)

def readHeader : Reader UInt8 (Option (Bytes × Bytes)) := upTo httpEol >>= header

def contentLength (headers : List (Bytes × Bytes)) : Option Nat :=
  (headers.find? fun header => strcasecmp (ascii "Content-Length") header.1).map fun header =>
    decimalNumber header.2

def readBody (statusLine : Bytes) (headers : List (Bytes × Bytes)) :
    Reader UInt8 ResponseMessage :=
  StateT.lift (contentLength headers) >>= fun length =>
    (fun body => ⟨statusLine, headers, body⟩) <$> exactly length

def read : Reader UInt8 ResponseMessage :=
  upTo httpEol >>= fun statusLine => itemsUntil readHeader >>= readBody statusLine

end ResponseMessage

/-! ### Lines -/

/-- What holds no carriage return ends no line. -/
theorem no_eol {line : Bytes} (h : (13 : UInt8) ∉ line) : ¬ httpEol <:+: line :=
  fun hinside => h (hinside.subset (by decide))

theorem frames_line {line : Bytes} (h : ¬ httpEol <:+: line) :
    Frames (upTo httpEol) (line ++ httpEol) line :=
  frames_upTo (by decide) (ends_pair (by decide) h)

theorem toNat_digit {c : Char} (h : c.isDigit = true) :
    (UInt8.ofNat c.toNat).toNat = c.toNat ∧ 48 ≤ c.toNat ∧ c.toNat ≤ 57 := by
  have hrange : 48 ≤ c.toNat ∧ c.toNat ≤ 57 := by
    simpa [Char.isDigit, UInt32.le_iff_toNat_le] using h
  refine ⟨?_, hrange⟩
  rw [UInt8.toNat_ofNat', Nat.mod_eq_of_lt]
  omega

theorem decimal_eq (number : Nat) :
    decimal number = (Nat.toDigits 10 number).map fun c => UInt8.ofNat c.toNat := by
  rw [decimal, ascii, Nat.toString_eq_ofList_toDigits, String.toList_ofList]

theorem isDigit_of_mem_decimal {number : Nat} {byte : UInt8} (h : byte ∈ decimal number) :
    isDigit byte = true := by
  rw [decimal_eq] at h
  obtain ⟨c, hc, rfl⟩ := List.mem_map.mp h
  obtain ⟨hbyte, hlow, hhigh⟩ :=
    toNat_digit (Nat.isDigit_of_mem_toDigits (by decide) (by decide) hc)
  simp only [isDigit, Bool.and_eq_true, decide_eq_true_eq, UInt8.le_iff_toNat_le, hbyte]
  exact ⟨hlow, hhigh⟩

theorem decimalNumber_decimal (number : Nat) : decimalNumber (decimal number) = number := by
  have hfold : ∀ digits : List Char, (∀ c ∈ digits, c.isDigit = true) → ∀ n,
      (digits.map fun c => UInt8.ofNat c.toNat).foldl
        (fun n digit => 10 * n + (digit.toNat - 48)) n = Nat.ofDigitChars 10 digits n := by
    intro digits
    induction digits with
    | nil => exact fun _ n => rfl
    | cons c digits ih =>
      intro h n
      rw [List.map_cons, List.foldl_cons, (toNat_digit (h c (by simp))).1,
        ih fun c hc => h c (by simp [hc])]
      rfl
  rw [decimal_eq, ← foldl_decimalNumber, hfold _ fun c hc =>
    Nat.isDigit_of_mem_toDigits (by decide) (by decide) hc]
  exact Nat.ofDigitChars_ten_toDigits

/-! ### Headers -/

/-- A header whose name ends where the client looks for its end, and so does its line. -/
structure CleanHeader where
  name : Bytes
  value : Bytes
  name_clean : ¬ colonSpace <:+: name
  line_clean : ¬ httpEol <:+: name ++ colonSpace ++ value

namespace CleanHeader

def pair (header : CleanHeader) : Bytes × Bytes := (header.name, header.value)

def text (header : CleanHeader) : Bytes := headerText header.name header.value

def contentLength (count : Nat) : CleanHeader where
  name := ascii "Content-Length"
  value := decimal count
  name_clean := by decide
  line_clean := no_eol (by
    simp only [List.mem_append, not_or]
    refine ⟨by decide, fun hmem => ?_⟩
    exact absurd (isDigit_of_mem_decimal hmem) (by decide))

def connection : CleanHeader where
  name := ascii "Connection"
  value := ascii "Close"
  name_clean := by decide
  line_clean := by decide

theorem frames_header (header : CleanHeader) :
    Frames ResponseMessage.readHeader header.text (some header.pair) := by
  have hline : header.name ++ colonSpace ++ header.value ≠ [] := by
    simp [colonSpace, ascii]
  have hsplit : upTo colonSpace (header.name ++ colonSpace ++ header.value) = some header.pair :=
    upTo_append (by decide) (ends_pair (by decide) header.name_clean) header.value
  have hheader : Frames (ResponseMessage.header (header.name ++ colonSpace ++ header.value)) []
      (some header.pair) := by
    rw [ResponseMessage.header, if_neg hline, hsplit]
    exact .pure _
  have hread := (frames_line header.line_clean).bind hheader
  rw [List.append_nil] at hread
  exact hread

end CleanHeader

theorem frames_endHeaders : Frames ResponseMessage.readHeader httpEol none := by
  have hempty : ¬ httpEol <:+: [] := by decide
  have hheader : Frames (ResponseMessage.header []) [] none := by
    rw [ResponseMessage.header, if_pos rfl]
    exact .pure _
  exact (frames_line hempty).bind hheader

theorem frames_headers (headers : List CleanHeader) :
    Frames (itemsUntil ResponseMessage.readHeader) (headers.flatMap CleanHeader.text ++ httpEol)
      (headers.map CleanHeader.pair) := by
  have hframes : ∀ frame ∈ headers.map fun header => (header.text, header.pair),
      Frames ResponseMessage.readHeader frame.1 (some frame.2) ∧ frame.1 ≠ [] := by
    intro frame hmem
    obtain ⟨header, -, rfl⟩ := List.mem_map.mp hmem
    exact ⟨header.frames_header, by simp [CleanHeader.text, headerText, ascii]⟩
  have hitems := frames_itemsUntil frames_endHeaders (by decide) hframes
  rw [texts, List.map_map, List.map_map, ← List.flatMap_def] at hitems
  exact hitems

/-! ### Header injection -/

/-- What is read as a header is one line, and ends where a line ends. -/
theorem readHeader_eq_some {stream rest : Bytes} {pair : Bytes × Bytes}
    (h : ResponseMessage.readHeader stream = some (some pair, rest)) :
    upTo httpEol stream = some (pair.1 ++ colonSpace ++ pair.2, rest) ∧
      upTo colonSpace (pair.1 ++ colonSpace ++ pair.2) = some pair := by
  rw [ResponseMessage.readHeader, bind_apply] at h
  obtain ⟨⟨line, rest'⟩, hline, hheader⟩ := Option.bind_eq_some_iff.mp h
  simp only [ResponseMessage.header] at hheader
  split at hheader
  · cases hheader
  · cases hsplit : upTo colonSpace line with
    | none =>
      rw [hsplit] at hheader
      cases hheader
    | some found =>
      rw [hsplit] at hheader
      cases hheader
      have hpair : line = pair.1 ++ colonSpace ++ pair.2 := upTo_eq_some hsplit
      rw [← hpair]
      exact ⟨hline, hsplit⟩

theorem clean_of_items {headers : List (Bytes × Bytes)} {rest : Bytes} {fuel : Nat}
    (h : items ResponseMessage.readHeader fuel
      (headers.flatMap (fun header => headerText header.1 header.2) ++ (httpEol ++ rest)) =
        some (headers, rest)) :
    ∀ header ∈ headers, ¬ colonSpace <:+: header.1 ∧
      ¬ httpEol <:+: header.1 ++ colonSpace ++ header.2 := by
  induction headers generalizing fuel with
  | nil => simp
  | cons header headers ih =>
    cases fuel with
    | zero => cases h
    | succ fuel =>
      obtain ⟨⟨value, later⟩, hread, hitems⟩ := Option.bind_eq_some_iff.mp h
      cases value with
      | none => cases hitems
      | some pair =>
        obtain ⟨⟨pairs, rest'⟩, hlater, heq⟩ := Option.map_eq_some_iff.mp hitems
        simp only [Prod.mk.injEq, List.cons.injEq] at heq
        obtain ⟨⟨rfl, rfl⟩, rfl⟩ := heq
        obtain ⟨hline, hsplit⟩ := readHeader_eq_some hread
        have hstream := upTo_eq_some hline
        rw [List.flatMap_cons, List.append_assoc] at hstream hline
        have hwhole : headerText pair.1 pair.2 = pair.1 ++ colonSpace ++ pair.2 ++ httpEol := rfl
        rw [hwhole] at hstream hline
        rw [← List.append_cancel_left hstream] at hlater hline
        intro header hmem
        rcases List.mem_cons.mp hmem with rfl | hmem
        · exact ⟨(ends_pair_iff (by decide)).mp ((upTo_append_iff (by decide)).mp hsplit),
            (ends_pair_iff (by decide)).mp ((upTo_append_iff (by decide)).mp hline)⟩
        · exact ih hlater header hmem

/-- The header lines a container writes with `http_response_write_header`, closed
by the empty line, are the headers the client reads exactly when no name holds
the separator and no name or value ends its line. The writer checks neither. -/
theorem headers_read_iff (response : HTTPResponse) (headers : List (Bytes × Bytes)) (rest : Bytes) :
    itemsUntil ResponseMessage.readHeader
        (headers.flatMap (fun header =>
          ((WriterCall.writeHeader header.1 header.2).text response).getD []) ++
            (httpEol ++ rest)) = some (headers, rest) ↔
      ∀ header ∈ headers, ¬ colonSpace <:+: header.1 ∧
        ¬ httpEol <:+: header.1 ++ colonSpace ++ header.2 := by
  constructor
  · exact clean_of_items
  · intro h
    have hclean : ∃ clean : List CleanHeader, clean.map CleanHeader.pair = headers := by
      refine ⟨headers.attach.map fun header => ⟨header.1.1, header.1.2, (h _ header.2).1,
        (h _ header.2).2⟩, ?_⟩
      rw [List.map_map]
      exact List.attach_map_subtype_val headers
    obtain ⟨clean, rfl⟩ := hclean
    have hread := (frames_headers clean).reads rest
    rw [List.append_assoc] at hread
    rw [List.flatMap_map]
    exact hread

/-- What `http_response_end_headers` adds of its own. -/
structure Trailer where
  server : Bytes
  date : Bytes
  server_clean : ¬ httpEol <:+: ascii "Server" ++ colonSpace ++ server
  date_clean : ¬ httpEol <:+: ascii "Date" ++ colonSpace ++ date

namespace Trailer

def serverHeader (trailer : Trailer) : CleanHeader where
  name := ascii "Server"
  value := trailer.server
  name_clean := by decide
  line_clean := trailer.server_clean

def dateHeader (trailer : Trailer) : CleanHeader where
  name := ascii "Date"
  value := trailer.date
  name_clean := by decide
  line_clean := trailer.date_clean

def headers (trailer : Trailer) (isLast : Bool) : List CleanHeader :=
  [trailer.serverHeader, trailer.dateHeader] ++ if isLast then [.connection] else []

end Trailer

/-! ### Pages -/

/-- What a container writes: a known status, headers other than the length, and
a body, which `http_response_append_data` asserts not to be empty. -/
structure Page where
  code : Nat
  message : Bytes
  known : statusMessageByCode code = some message
  headers : List CleanHeader
  unmeasured : ∀ header ∈ headers, strcasecmp (ascii "Content-Length") header.name = false
  body : Bytes
  nonempty : body ≠ []

namespace Page

def statusLine (page : Page) : Bytes :=
  ascii "HTTP/1.1 " ++ (decimal page.code ++ ascii " " ++ page.message)

/-- All headers, as they are written. -/
def headersSent (page : Page) (trailer : Trailer) (isLast : Bool) : List CleanHeader :=
  page.headers ++ .contentLength page.body.length :: trailer.headers isLast

def received (page : Page) (trailer : Trailer) (isLast : Bool) : ResponseMessage :=
  ⟨page.statusLine, (page.headersSent trailer isLast).map CleanHeader.pair, page.body⟩

def text (page : Page) (trailer : Trailer) (isLast : Bool) : Bytes :=
  page.statusLine ++ httpEol ++
    ((page.headersSent trailer isLast).flatMap CleanHeader.text ++ httpEol ++ page.body)

/-- The calls that write the page. -/
def calls (page : Page) (date : Bytes) : List WriterCall :=
  .writeStatusLineByCode page.code ::
    (page.headers.map fun header => .writeHeader header.name header.value) ++
      [.writeHeader (ascii "Content-Length") (decimal page.body.length), .endHeaders date,
        .appendData page.body page.nonempty]

/-- The page `http_response_write_error_by_code` writes. -/
def error (code : Nat) (message : Bytes) (known : statusMessageByCode code = some message) :
    Page where
  code := code
  message := message
  known := known
  headers := [⟨ascii "Content-Type", ascii "text/html", by decide, by decide⟩]
  unmeasured header hmem := by
    rw [List.mem_singleton.mp hmem]
    decide
  body := errorBody message
  nonempty := by simp [errorBody, ascii]

/-- The page of the container in `containers/hello`. -/
def hello (message : Bytes) (nonempty : message ≠ []) : Page where
  code := 200
  message := ascii "OK"
  known := by decide
  headers := [⟨ascii "Content-Type", ascii "text/plain; charset=utf-8", by decide, by decide⟩]
  unmeasured header hmem := by
    rw [List.mem_singleton.mp hmem]
    decide
  body := message
  nonempty := nonempty

/-- `rapp_serve` of that container; an empty message ends in an assertion. -/
def rappServe (message date : Bytes) : Option (List WriterCall) :=
  if nonempty : message ≠ [] then
    some [.writeStatusLineByCode 200,
      .writeHeader (ascii "Content-Type") (ascii "text/plain; charset=utf-8"),
      .writeHeader (ascii "Content-Length") (decimal message.length), .endHeaders date,
      .appendData message nonempty]
  else none

theorem rappServe_eq {message : Bytes} (nonempty : message ≠ []) (date : Bytes) :
    rappServe message date = some ((hello message nonempty).calls date) := by
  rw [rappServe, dif_pos nonempty]
  rfl

theorem statusLine_clean (page : Page) : ¬ httpEol <:+: page.statusLine := by
  obtain ⟨status, hfind, hmessage⟩ := Option.map_eq_some_iff.mp page.known
  have hcode := List.find?_some hfind
  rw [decide_eq_true_eq] at hcode
  have hclean : ∀ status ∈ httpStatuses, (13 : UInt8) ∉ ascii status.2 := by decide +kernel
  refine no_eol ?_
  simp only [statusLine, List.mem_append, not_or, ← hmessage]
  refine ⟨by decide, ⟨fun hmem => ?_, by decide⟩, hclean status (List.mem_of_find?_eq_some hfind)⟩
  exact absurd (isDigit_of_mem_decimal hmem) (by decide)

/-- The client finds the length the page was given. -/
theorem contentLength_headersSent (page : Page) (trailer : Trailer) (isLast : Bool) :
    ResponseMessage.contentLength ((page.headersSent trailer isLast).map CleanHeader.pair) =
      some page.body.length := by
  have hnone : (page.headers.map CleanHeader.pair).find?
      (fun header => strcasecmp (ascii "Content-Length") header.1) = none := by
    rw [List.find?_eq_none]
    intro pair hmem
    obtain ⟨header, hheader, rfl⟩ := List.mem_map.mp hmem
    simpa [CleanHeader.pair] using page.unmeasured header hheader
  have hfound : strcasecmp (ascii "Content-Length")
      (CleanHeader.contentLength page.body.length).pair.1 = true := by
    exact (by decide : strcasecmp (ascii "Content-Length") (ascii "Content-Length") = true)
  rw [ResponseMessage.contentLength, headersSent, List.map_append, List.find?_append, hnone,
    List.map_cons, List.find?_cons, hfound]
  exact congrArg some (decimalNumber_decimal _)

/-- A page is read as it was written, whatever comes behind it. -/
theorem frames_read (page : Page) (trailer : Trailer) (isLast : Bool) :
    Frames ResponseMessage.read (page.text trailer isLast) (page.received trailer isLast) := by
  have hbody : Frames (ResponseMessage.readBody page.statusLine
      ((page.headersSent trailer isLast).map CleanHeader.pair)) page.body
        (page.received trailer isLast) := by
    have hlength : Frames (StateT.lift (ResponseMessage.contentLength ((page.headersSent trailer
        isLast).map CleanHeader.pair)) : Reader UInt8 Nat) [] page.body.length := by
      rw [contentLength_headersSent]
      exact .pure _
    have hexactly := (frames_exactly page.body).map fun body =>
      ResponseMessage.mk page.statusLine ((page.headersSent trailer isLast).map CleanHeader.pair)
        body
    rw [← List.nil_append page.body, ResponseMessage.readBody]
    exact hlength.bind hexactly
  exact (frames_line page.statusLine_clean).bind ((frames_headers _).bind hbody)

end Page

end Rapp
