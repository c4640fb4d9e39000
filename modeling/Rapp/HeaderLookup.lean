import Rapp.HeaderAgreement

/-!
# Looking up headers

What `http_request_get_header_value_range` and the other readers of a delivered
request give, in the terms of the header block the client sent: the first
header of a name when no element was cut, and a front of the value of some
header whose name ends in the wanted one however it was cut.
-/
namespace Rapp

open CallOutcome (Outcome run)
open HTTPRequest (strcasecmp)
open ByteBlock

variable {δ : Type} {parseUrl : ParseUrl} {block : HeaderBlock}
variable {notify : Machine δ → Result (Machine δ)}

namespace HeaderBlock

def text (block : HeaderBlock) (range : MemoryRange) : Bytes :=
  slice range.offset range.length block.bytes

/-- Names and values as the client sent them, in order. -/
def headerTexts (block : HeaderBlock) : List (Bytes × Bytes) :=
  block.headers.map fun header => (block.text header.key, block.text header.value)

/-- The value of the first header of the name, in any case of its letters. -/
def lookup (block : HeaderBlock) (name : Bytes) : Option Bytes :=
  (block.headerTexts.find? fun header => strcasecmp name header.1).map Prod.snd

/-- What the URL parser finds in the URL, empty parts left out. -/
def urlFieldText (parseUrl : ParseUrl) (block : HeaderBlock) (field : HTTPURLField) :
    Option Bytes :=
  ((parseUrl (block.text block.url)).bind fun fields => fields field).bind fun part =>
    if part.length = 0 then none
    else some (block.text ⟨block.url.offset + part.offset, part.length⟩)

end HeaderBlock

def HTTPRequest.headerValueString (r : HTTPRequest) (name : Bytes) : Option Bytes :=
  (r.getHeaderValueRange name).map r.extract

/-! ### Uncut elements -/

theorem headerTokens_fields (headers : List HeaderMemoryRange) (rec : Record) :
    ((headerTokens headers).foldl (Record.next parseUrl block.bytes) rec).fields = rec.fields := by
  induction headers generalizing rec with
  | nil => rfl
  | cons header headers ih => exact (ih _).trans rfl

theorem next_url_fields (block : HeaderBlock) (rec : Record) (range : MemoryRange)
    (field : HTTPURLField) : (rec.next parseUrl block.bytes (.url range)).fields field =
      (((parseUrl (block.text range)).bind fun fields => fields field).map
        fun part => ⟨range.offset + part.offset, part.length⟩).getD (rec.fields field) := by
  simp only [Record.next, HeaderBlock.text]
  cases (parseUrl (slice range.offset range.length block.bytes)).bind fun fields => fields field <;>
    rfl

/-- A lookup among ranges is a lookup among their texts. -/
theorem Copied.headerValueString {rec : Record} {r : HTTPRequest} (h : Copied block rec r)
    (name : Bytes) : r.headerValueString name =
      ((rec.entries.map fun entry => (block.text entry.key, block.text entry.value)).find?
        fun header => strcasecmp name header.1).map Prod.snd := by
  have hextract : r.extract = block.text := funext h.extract
  rw [HTTPRequest.headerValueString, HTTPRequest.getHeaderValueRange, h.entries, hextract,
    List.find?_map, Option.map_map, Option.map_map]
  rfl

/-- However the calls cut the stream, as long as they cut no element: the
request that is delivered has the headers, the URL and its parts as they were
sent, and a lookup gives the first header of the name. -/
theorem delivered_lookup (hk : KeepsQueue notify) (hu : FieldsInside parseUrl) {calls : List Call}
    (hdel : Delivers block calls) (hw : Whole block calls) {input : Nat} {d : δ} {r : HTTPRequest}
    (h : DeliversRequest parseUrl notify ⟨HTTPRequestQueue.new, input, d⟩ calls r) :
    r.headerStrings = block.headerTexts ∧
      (∀ name, r.headerValueString name = block.lookup name) ∧
      r.urlString = block.text block.url ∧
      ∀ field, r.urlFieldString field = block.urlFieldText parseUrl field := by
  have hcopied := copied_of_delivers hk hu hdel h
  rw [hw] at hcopied
  have hextract : r.extract = block.text := funext hcopied.extract
  have hentries : (record parseUrl block.bytes block.tokens).entries = block.headers := by
    rw [entries_record]
    exact entriesFrom_headerTokens _ block.headers
  have hurl : (record parseUrl block.bytes block.tokens).url = block.url :=
    (headerTokens_pieces block.headers).url_foldl _
  refine ⟨?_, fun name => ?_, ?_, fun field => ?_⟩
  · rw [HTTPRequest.headerStrings, hcopied.entries, hentries, hextract]
    rfl
  · rw [hcopied.headerValueString, hentries]
    rfl
  · rw [HTTPRequest.urlString, hextract, hcopied.url, hurl]
  · have hfields : r.urlFieldRanges = (Record.empty.next parseUrl block.bytes
        (.url block.url)).fields := hcopied.fields.trans (headerTokens_fields block.headers _)
    have hrange := congrFun hfields field
    rw [next_url_fields] at hrange
    rw [HTTPRequest.urlFieldString, HTTPRequest.getUrlFieldRange, hextract, hrange,
      HeaderBlock.urlFieldText]
    cases (parseUrl (block.text block.url)).bind fun fields => fields field with
    | none => rfl
    | some part =>
      simp only [Option.map_some, Option.getD_some, Option.bind_some]
      split <;> rfl

/-- The only header of a request, asked for in capitals. -/
theorem delivered_lookup_host :
    ∃ r, DeliversRequest parsePath Outcome.ok ⟨HTTPRequestQueue.new, 0, ()⟩ [hostInOneCall] r ∧
      r.headerStrings = [(ascii "Host", ascii "abc")] ∧
      r.headerValueString (ascii "HOST") = some (ascii "abc") ∧ r.urlString = ascii "/" := by
  have hwhole : Whole hostBlock [hostInOneCall] := by
    unfold Whole
    decide +kernel
  obtain ⟨r, hr⟩ := deliversRequest_of_whole keepsQueue_ok fieldsInside_parsePath answers_ok
    delivers_hostInOneCall hwhole (by decide +kernel) 0 ()
  obtain ⟨hheaders, hvalue, hurl, -⟩ := delivered_lookup keepsQueue_ok fieldsInside_parsePath
    delivers_hostInOneCall hwhole hr
  exact ⟨r, hr, hheaders.trans (by decide +kernel), (hvalue _).trans (by decide +kernel),
    hurl.trans (by decide +kernel)⟩

/-! ### Elements cut anyhow -/

/-- The fragment is the end of the element. -/
def MemoryRange.Ends (piece range : MemoryRange) : Prop :=
  range.offset ≤ piece.offset ∧ piece.offset + piece.length = range.offset + range.length

/-- The fragment is the front of the element. -/
def MemoryRange.Begins (piece range : MemoryRange) : Prop :=
  piece.offset = range.offset ∧ piece.length ≤ range.length

theorem Pieces.begins {range first : MemoryRange} {rest : List MemoryRange}
    (h : Pieces range (first :: rest)) : first.Begins range := by
  cases h with
  | whole => exact ⟨rfl, Nat.le_refl _⟩
  | cut offset length rest pieces h tail => exact ⟨rfl, Nat.le_add_right _ _⟩

theorem Pieces.ends {range last : MemoryRange} {pieces front : List MemoryRange}
    (h : Pieces range pieces) (hlast : pieces = front ++ [last]) : last.Ends range := by
  induction h generalizing front with
  | whole range =>
    have hsplit : [] ++ [range] = front ++ [last] := hlast
    obtain ⟨rfl, hrange⟩ := List.append_inj' hsplit rfl
    cases hrange
    exact ⟨Nat.le_refl _, rfl⟩
  | cut offset first rest pieces h tail ih =>
    cases front with
    | nil =>
      obtain ⟨_, _, rfl⟩ := tail.exists_cons
      simp at hlast
    | cons piece front =>
      simp only [List.cons_append, List.cons.injEq] at hlast
      obtain ⟨hlow, hhigh⟩ := ih hlast.2
      refine ⟨?_, ?_⟩
      · simp only at hlow ⊢
        omega
      · simp only at hhigh ⊢
        omega

/-- An entry that fragments close has no name, or the end of a name and a front of its value. -/
theorem HeaderTokens.entry {headers : List HeaderMemoryRange} {tokens : List Token}
    (h : HeaderTokens headers tokens) (key : MemoryRange) {entry : HeaderMemoryRange}
    (hentry : entry ∈ entriesFrom key tokens) : entry.key = HTTPRequest.zeroRange ∨
      ∃ header ∈ headers, entry.key.Ends header.key ∧ entry.value.Begins header.value := by
  induction h generalizing key with
  | nil => cases hentry
  | cons header headers keys values tokens hkey hvalue tail ih =>
    obtain ⟨front, last, rfl, -⟩ := hkey.last
    obtain ⟨first, rest, rfl⟩ := hvalue.exists_cons
    rw [entriesFrom_header] at hentry
    rcases List.mem_cons.mp hentry with rfl | hentry
    · exact .inr ⟨header, by simp, hkey.ends rfl, hvalue.begins⟩
    · rcases List.mem_append.mp hentry with hentry | hentry
      · obtain ⟨range, -, rfl⟩ := List.mem_map.mp hentry
        exact .inl rfl
      · rcases ih _ hentry with hzero | ⟨header, hmem, hends⟩
        · exact .inl hzero
        · exact .inr ⟨header, by simp [hmem], hends⟩

theorem HeaderBlock.text_begins (block : HeaderBlock) {piece range : MemoryRange}
    (h : piece.Begins range) : block.text piece <+: block.text range := by
  obtain ⟨hoffset, hlength⟩ := h
  rw [text, text, slice, slice, hoffset]
  exact List.take_prefix_take_left hlength

theorem HeaderBlock.text_ends (block : HeaderBlock) {piece range : MemoryRange}
    (h : piece.Ends range) : block.text piece <:+ block.text range := by
  obtain ⟨hlow, hhigh⟩ := h
  obtain ⟨k, hk⟩ := Nat.exists_eq_add_of_le hlow
  have hdrop : block.text piece = (block.text range).drop k := by
    rw [text, text, slice, slice, List.drop_take, List.drop_drop, ← hk]
    congr 1
    omega
  rw [hdrop]
  exact List.drop_suffix k _

/-- However the calls cut the block: what a lookup gives is a front of the value
of a header whose name ends in the name asked for. It gives nothing of another
header, and nothing from outside the block. -/
theorem lookup_sound (hk : KeepsQueue notify) (hu : FieldsInside parseUrl) {calls : List Call}
    (hdel : Delivers block calls) {input : Nat} {d : δ} {r : HTTPRequest}
    (h : DeliversRequest parseUrl notify ⟨HTTPRequestQueue.new, input, d⟩ calls r)
    {name value : Bytes} (hname : cString name ≠ [])
    (hlookup : r.headerValueString name = some value) :
    ∃ header ∈ block.headerTexts, value <+: header.2 ∧
      ∃ ending, ending <:+ header.1 ∧ strcasecmp name ending = true := by
  have hcopied := copied_of_delivers hk hu hdel h
  obtain ⟨urls, headers, hurls, hheaders, htokens⟩ := hdel.tokens
  rw [hcopied.headerValueString, htokens, entries_record, entriesFrom_urls] at hlookup
  obtain ⟨found, hfind, rfl⟩ := Option.map_eq_some_iff.mp hlookup
  have hmatch : strcasecmp name found.1 = true := by simpa using List.find?_some hfind
  obtain ⟨entry, hentry, rfl⟩ := List.mem_map.mp (List.mem_of_find?_eq_some hfind)
  rcases hheaders.entry _ hentry with hzero | ⟨header, hmem, hkey, hvalue⟩
  · -- a continued value has no name, which is the name of no lookup
    have hempty : block.text HTTPRequest.zeroRange = [] := slice_zero 0 block.bytes
    rw [hzero, hempty] at hmatch
    exact absurd (List.map_eq_nil_iff.mp (eq_of_beq hmatch)) hname
  · exact ⟨_, List.mem_map_of_mem hmem, block.text_begins hvalue, _, block.text_ends hkey, hmatch⟩

/-- The block cut inside the value: the lookup gives the front of it. -/
theorem lookup_sound_host : Delivers hostBlock hostValueInTwoCalls ∧
    ∃ r, DeliversRequest parsePath Outcome.ok ⟨HTTPRequestQueue.new, 0, ()⟩ hostValueInTwoCalls r ∧
      r.headerValueString (ascii "host") = some (ascii "ab") ∧
      ∃ header ∈ hostBlock.headerTexts, ascii "ab" <+: header.2 ∧
        ∃ ending, ending <:+ header.1 ∧ strcasecmp (ascii "host") ending = true := by
  have hdel : Delivers hostBlock hostValueInTwoCalls :=
    ⟨by decide +kernel, by decide, by decide +kernel, by decide +kernel, by decide +kernel,
      by decide +kernel, [⟨4, 1⟩], [.field ⟨16, 4⟩, .value ⟨22, 2⟩, .value ⟨24, 1⟩], .whole _,
      .cons _ [] [⟨16, 4⟩] [⟨22, 2⟩, ⟨24, 1⟩] [] (.whole _)
        (.cut 22 2 1 _ (by decide) (.whole _)) .nil, by decide +kernel⟩
  have hrun : ∃ m, run (appendData parsePath Outcome.ok) hostValueInTwoCalls
      (⟨HTTPRequestQueue.new, 0, ()⟩ : Machine Unit) = .ok m ∧
      m.queue.requests[0].map (fun r => r.headerValueString (ascii "host")) =
        some (some (ascii "ab")) := Outcome.exists_of_toOption (by decide +kernel)
  obtain ⟨m, hm, hvalue⟩ := hrun
  obtain ⟨r, hr, hlookup⟩ := Option.map_eq_some_iff.mp hvalue
  have hrequest : DeliversRequest parsePath Outcome.ok ⟨HTTPRequestQueue.new, 0, ()⟩
      hostValueInTwoCalls r := ⟨m, hm, hr⟩
  exact ⟨hdel, r, hrequest, hlookup,
    lookup_sound keepsQueue_ok fieldsInside_parsePath hdel hrequest (by decide) hlookup⟩

end Rapp
