import Mathlib.Data.List.Find
import Mathlib.Data.List.Forall2
import Rapp.YamlMentions

/-!
# Block and flow style

A configuration file is a mapping of mappings, whose values are scalars or lists
of scalars. It can be written in block style, with each section in flow style, or
in any mixture of them; the reader makes the same of all.
-/
namespace Rapp

open CallOutcome (Outcome run)
open ByteBlock

inductive MappedValue where
  | scalar (text : Bytes)
  | list (first : Bytes) (rest : List Bytes)

structure MappedEntry where
  name : Bytes
  value : MappedValue

structure MappedSection where
  name : Bytes
  first : MappedEntry
  rest : List MappedEntry

structure MappedDocument where
  directives : List Directive
  explicitStart : Bool
  explicitEnd : Bool
  first : MappedSection
  rest : List MappedSection
  start : directives ≠ [] → explicitStart = true

/-! ### What a document says -/

def MappedValue.texts : MappedValue → List Bytes
  | .scalar text => [text]
  | .list first rest => first :: rest

def MappedSection.entries (sect : MappedSection) : List MappedEntry := sect.first :: sect.rest

def MappedDocument.sections (doc : MappedDocument) : List MappedSection := doc.first :: doc.rest

/-- The entries in order, each with the name of its section. -/
def MappedDocument.entries (doc : MappedDocument) : List (Bytes × MappedEntry) :=
  doc.sections.flatMap fun sect => sect.entries.map fun entry => (sect.name, entry)

/-- Every text is accepted for the option, a list only for a multivalued one. -/
def MappedValue.accepted (opt : ConfigOption) (value : MappedValue) : Bool :=
  (match value with
    | .scalar _ => true
    | .list _ _ => decide (opt.multivalued ≠ 0)) &&
  value.texts.all fun text => (opt.configAddValueFromString (cString text) true).1 = 0

/-- Every entry names an option and has a value that is accepted for it. -/
def MappedDocument.Accepted (conf : RappConfig) (doc : MappedDocument) : Prop :=
  ∀ entry ∈ doc.entries, (conf.named (cString entry.1) (cString entry.2.name)).any
    (fun found => entry.2.value.accepted found.2) = true

instance (conf : RappConfig) (doc : MappedDocument) : Decidable (doc.Accepted conf) :=
  inferInstanceAs (Decidable (∀ _ ∈ _, _))

/-- The value of the last entry that names the option. -/
def MappedDocument.lastValue (conf : RappConfig) (doc : MappedDocument) (ref : OptionRef) :
    Option MappedValue :=
  (doc.entries.reverse.find? fun entry =>
    conf.getOption (cString entry.1) (cString entry.2.name) = some ref).map fun entry =>
      entry.2.value

/-- The option with the values of its last entry, unless it is locked or has none. -/
def MappedDocument.settle (conf : RappConfig) (doc : MappedDocument) (ref : OptionRef)
    (opt : ConfigOption) : ConfigOption :=
  match doc.lastValue conf ref with
  | none => opt
  | some value =>
    if opt.noOverride then opt
    else opt.withValues (value.texts.filterMap fun text => opt.parse (cString text))

/-! ### Block style -/

def blockScalar (text : Bytes) : BlockNode := .flow (.node (.scalar text))

def blockItems (first : Bytes) : List Bytes → BlockItems
  | [] => .last (blockScalar first)
  | next :: rest => .cons (blockScalar first) (blockItems next rest)

def MappedValue.block : MappedValue → BlockNode
  | .scalar text => blockScalar text
  | .list first rest => .sequence (blockItems first rest)

def MappedEntry.block (entry : MappedEntry) : BlockEntry :=
  .pair (blockScalar entry.name) entry.value.block

def blockEntries (first : MappedEntry) : List MappedEntry → BlockEntries
  | [] => .last first.block
  | next :: rest => .cons first.block (blockEntries next rest)

def MappedSection.block (sect : MappedSection) : YamlSection :=
  ⟨sect.name, .mapping (blockEntries sect.first sect.rest)⟩

/-! ### Flow style -/

def flowItems (first : Bytes) : List Bytes → FlowEntries
  | [] => .last (.node (.scalar first))
  | next :: rest => .cons (.node (.scalar first)) (flowItems next rest)

def MappedValue.flow : MappedValue → FlowSlot
  | .scalar text => .node (.scalar text)
  | .list first rest => .node (.sequence (flowItems first rest))

def MappedEntry.flow (entry : MappedEntry) : FlowEntry :=
  .pair (.node (.scalar entry.name)) entry.value.flow

def flowEntries (first : MappedEntry) : List MappedEntry → FlowEntries
  | [] => .last first.flow
  | next :: rest => .cons first.flow (flowEntries next rest)

def MappedSection.flow (sect : MappedSection) : YamlSection :=
  ⟨sect.name, .flow (.node (.mapping (flowEntries sect.first sect.rest)))⟩

namespace MappedDocument

/-- The document with its sections written in some style. -/
def written (style : MappedSection → YamlSection) (doc : MappedDocument) : YamlDocument where
  directives := doc.directives
  explicitStart := doc.explicitStart
  sections := doc.sections.map style
  explicitEnd := doc.explicitEnd
  start := doc.start

def block (doc : MappedDocument) : YamlDocument := doc.written MappedSection.block

def flow (doc : MappedDocument) : YamlDocument := doc.written MappedSection.flow

end MappedDocument

/-! ### Mixed styles -/

/-- A value in a block mapping; a list is indented or in brackets. -/
inductive MappedValue.WrittenAs : MappedValue → BlockNode → Prop where
  | scalar (text : Bytes) : WrittenAs (.scalar text) (blockScalar text)
  | indented (first : Bytes) (rest : List Bytes) :
      WrittenAs (.list first rest) (.sequence (blockItems first rest))
  | bracketed (first : Bytes) (rest : List Bytes) :
      WrittenAs (.list first rest) (.flow (.node (.sequence (flowItems first rest))))

/-- The entries of a block mapping, each value in its own style. -/
inductive WrittenEntries : List MappedEntry → BlockEntries → Prop where
  | last {entry : MappedEntry} {node : BlockNode} (h : entry.value.WrittenAs node) :
      WrittenEntries [entry] (.last (.pair (blockScalar entry.name) node))
  | cons {entry : MappedEntry} {node : BlockNode} {rest : List MappedEntry}
      {entries : BlockEntries} (h : entry.value.WrittenAs node)
      (hrest : WrittenEntries rest entries) :
      WrittenEntries (entry :: rest) (.cons (.pair (blockScalar entry.name) node) entries)

/-- A section as a block mapping, or all of it in braces. -/
inductive MappedSection.WrittenAs (sect : MappedSection) : YamlSection → Prop where
  | block {entries : BlockEntries} (h : WrittenEntries sect.entries entries) :
      WrittenAs sect ⟨sect.name, .mapping entries⟩
  | flow : WrittenAs sect sect.flow

/-- A document, each section in its own style. -/
structure MappedDocument.WrittenAs (doc : MappedDocument) (written : YamlDocument) : Prop where
  directives_eq : written.directives = doc.directives
  explicitStart_eq : written.explicitStart = doc.explicitStart
  sections : List.Forall₂ MappedSection.WrittenAs doc.sections written.sections

theorem writtenAs_block (value : MappedValue) : value.WrittenAs value.block := by
  cases value with
  | scalar text => exact .scalar text
  | list first rest => exact .indented first rest

theorem writtenEntries_block (first : MappedEntry) (rest : List MappedEntry) :
    WrittenEntries (first :: rest) (blockEntries first rest) := by
  induction rest generalizing first with
  | nil => exact .last (writtenAs_block first.value)
  | cons next rest ih => exact .cons (writtenAs_block first.value) (ih next)

namespace MappedDocument

theorem WrittenAs.of_style {style : MappedSection → YamlSection}
    (h : ∀ sect : MappedSection, sect.WrittenAs (style sect)) (doc : MappedDocument) :
    doc.WrittenAs (doc.written style) where
  directives_eq := rfl
  explicitStart_eq := rfl
  sections := List.forall₂_map_right_iff.mpr (List.forall₂_same.mpr fun sect _ => h sect)

theorem block_written (doc : MappedDocument) : doc.WrittenAs doc.block :=
  WrittenAs.of_style (fun sect => .block (writtenEntries_block sect.first sect.rest)) doc

theorem flow_written (doc : MappedDocument) : doc.WrittenAs doc.flow :=
  WrittenAs.of_style (fun _ => .flow) doc

end MappedDocument

/-! ### The same assignments -/

def MappedValue.form : MappedValue → ValueForm
  | .scalar text => .scalar text
  | .list first rest => .list ((first :: rest).map some)

theorem items_blockItems (first : Bytes) (rest : List Bytes) :
    (blockItems first rest).items = (first :: rest).map some := by
  induction rest generalizing first with
  | nil => rfl
  | cons next rest ih => rw [blockItems, BlockItems.items, ih]; rfl

theorem flowItems_ne_nil (first : Bytes) (rest : List Bytes) : flowItems first rest ≠ .nil := by
  cases rest <;> simp [flowItems]

theorem items_cons {entry : FlowEntry} {entries : FlowEntries} (h : entries ≠ .nil) :
    (FlowEntries.cons entry entries).items = entry.scalar? :: entries.items := by
  cases entries with
  | nil => exact absurd rfl h
  | last next => rfl
  | cons next entries => rfl

theorem items_flowItems (first : Bytes) (rest : List Bytes) :
    (flowItems first rest).items = (first :: rest).map some := by
  induction rest generalizing first with
  | nil => rfl
  | cons next rest ih =>
    rw [flowItems, items_cons (flowItems_ne_nil next rest), ih]
    rfl

theorem form_flow (value : MappedValue) : value.flow.form = value.form := by
  cases value with
  | scalar text => rfl
  | list first rest => exact congrArg ValueForm.list (items_flowItems first rest)

theorem MappedValue.WrittenAs.form_eq {value : MappedValue} {node : BlockNode}
    (h : value.WrittenAs node) : node.form = value.form := by
  cases h with
  | scalar text => rfl
  | indented first rest => exact congrArg ValueForm.list (items_blockItems first rest)
  | bracketed first rest => exact congrArg ValueForm.list (items_flowItems first rest)

def MappedEntry.assignment (entry : MappedEntry) : Assignment :=
  some (entry.name, entry.value.form)

theorem WrittenEntries.assignments_eq {entries : List MappedEntry} {written : BlockEntries}
    (h : WrittenEntries entries written) :
    written.assignments = entries.map MappedEntry.assignment := by
  have hentry : ∀ {entry : MappedEntry} {node : BlockNode}, entry.value.WrittenAs node →
      (BlockEntry.pair (blockScalar entry.name) node).assignment = entry.assignment :=
    fun h => congrArg (fun form => some (_, form)) h.form_eq
  induction h with
  | last h => exact congrArg (fun entry => [entry]) (hentry h)
  | cons h _ ih => rw [BlockEntries.assignments, ih, hentry h]; rfl

theorem assignments_cons {entry : FlowEntry} {entries : FlowEntries} (h : entries ≠ .nil) :
    (FlowEntries.cons entry entries).assignments = entry.assignment :: entries.assignments := by
  cases entries with
  | nil => exact absurd rfl h
  | last next => rfl
  | cons next entries => rfl

theorem flowEntries_ne_nil (first : MappedEntry) (rest : List MappedEntry) :
    flowEntries first rest ≠ .nil := by
  cases rest <;> simp [flowEntries]

theorem assignments_flowEntries (first : MappedEntry) (rest : List MappedEntry) :
    (flowEntries first rest).assignments = (first :: rest).map MappedEntry.assignment := by
  have hentry : ∀ entry : MappedEntry, entry.flow.assignment = entry.assignment := fun entry =>
    congrArg (fun form => some (entry.name, form)) (form_flow entry.value)
  induction rest generalizing first with
  | nil => exact congrArg (fun entry => [entry]) (hentry first)
  | cons next rest ih =>
    rw [flowEntries, assignments_cons (flowEntries_ne_nil next rest), ih, hentry]
    rfl

/-! ### The same reading -/

namespace MappedSection

theorem WrittenAs.name_eq {sect : MappedSection} {written : YamlSection}
    (h : sect.WrittenAs written) : written.name = sect.name := by
  cases h <;> rfl

theorem WrittenAs.body_eq {sect : MappedSection} {written : YamlSection}
    (h : sect.WrittenAs written) :
    written.value.body = some (sect.entries.map MappedEntry.assignment) := by
  cases h with
  | block h => exact congrArg some h.assignments_eq
  | flow => exact congrArg some (assignments_flowEntries sect.first sect.rest)

def mentions (sectionIndex : Nat) (sect : MappedSection) : List Mention :=
  sect.entries.map fun entry => ⟨sectionIndex, entry.name, entry.value.form⟩

variable {conf : RappConfig} {sect : MappedSection} {written : YamlSection} {sectionIndex : Nat}

theorem WrittenAs.mentions_eq (h : sect.WrittenAs written)
    (hget : conf.sectionGet (cString sect.name) = some sectionIndex) :
    written.mentions conf = sect.mentions sectionIndex := by
  rw [YamlSection.mentions, h.name_eq, hget, h.body_eq]
  simp only [List.filterMap_map]
  rw [mentions, ← List.filterMap_eq_map]
  rfl

theorem WrittenAs.readSection_eq (h : sect.WrittenAs written)
    (hget : conf.sectionGet (cString sect.name) = some sectionIndex) :
    readSection written conf = run Mention.read (written.mentions conf) conf := by
  rw [h.mentions_eq hget, readSection, h.name_eq, hget, h.body_eq]
  simp only
  rw [CallOutcome.run_map_input, mentions, CallOutcome.run_map_input]
  rfl

end MappedSection

/-- Sections that are declared are the mentions in them. -/
theorem run_sections_written {sections : List MappedSection} {written : List YamlSection}
    (h : List.Forall₂ MappedSection.WrittenAs sections written) {conf : RappConfig}
    (hdeclared : ∀ sect ∈ sections, (conf.sectionGet (cString sect.name)).isSome) :
    run readSection written conf =
      run Mention.read (written.flatMap (YamlSection.mentions conf)) conf := by
  induction h generalizing conf with
  | nil => rfl
  | @cons sect first sections rest hfirst _ ih =>
    obtain ⟨sectionIndex, hget⟩ := Option.isSome_iff_exists.mp (hdeclared sect (by simp))
    rw [CallOutcome.run_cons, List.flatMap_cons, CallOutcome.run_append,
      ← hfirst.readSection_eq hget]
    have hkept : ∀ name, (readSection first conf).Holds fun next =>
        next.sectionGet name = conf.sectionGet name := fun name => readSection_sectionGet rfl
    cases hread : readSection first conf with
    | failed next => rfl
    | undefined why => rfl
    | ok next =>
      have hnext : ∀ name, next.sectionGet name = conf.sectionGet name := fun name =>
        (hkept name).ok hread
      have hmentions : rest.flatMap (YamlSection.mentions conf) =
          rest.flatMap (YamlSection.mentions next) :=
        List.flatMap_congr fun sect _ => (mentions_congr hnext sect).symm
      rw [Outcome.bind_ok, Outcome.bind_ok, hmentions]
      refine ih fun other hother => ?_
      rw [hnext]
      exact hdeclared other (by simp [hother])

/-! ### Accepted documents -/

theorem texts_accepted {opt : ConfigOption} {text : Bytes} :
    (opt.configAddValueFromString text true).1 = 0 ↔ (opt.parse text).isSome := by
  rw [ConfigOption.configAddValueFromString_eq]
  cases opt.parse text <;> simp

theorem parseItems_of_accepted {opt : ConfigOption} {texts : List Bytes}
    (h : texts.all (fun text => (opt.configAddValueFromString (cString text) true).1 = 0) = true) :
    opt.parseItems (texts.map some) =
      some (texts.filterMap fun text => opt.parse (cString text)) := by
  induction texts with
  | nil => rfl
  | cons text texts ih =>
    rw [List.all_cons, Bool.and_eq_true, decide_eq_true_eq, texts_accepted] at h
    obtain ⟨value, hvalue⟩ := Option.isSome_iff_exists.mp h.1
    simp [ConfigOption.parseItems, ih h.2, hvalue]

/-- An accepted value is that of its texts. -/
theorem values_of_accepted {opt : ConfigOption} {value : MappedValue}
    (h : value.accepted opt = true) : value.form.values opt =
      some (value.texts.filterMap fun text => opt.parse (cString text)) := by
  unfold MappedValue.accepted at h
  rw [Bool.and_eq_true] at h
  cases value with
  | scalar text =>
    have htexts : [text].all (fun text =>
        (opt.configAddValueFromString (cString text) true).1 = 0) = true := h.2
    exact parseItems_of_accepted htexts
  | list first rest =>
    rw [MappedValue.form, ValueForm.values, if_neg (of_decide_eq_true h.1)]
    exact parseItems_of_accepted h.2

namespace MappedDocument

variable {doc : MappedDocument} {conf : RappConfig}

theorem Accepted.entry (h : doc.Accepted conf) {sect : MappedSection} (hsect : sect ∈ doc.sections)
    {entry : MappedEntry} (hentry : entry ∈ sect.entries) :
    ∃ sectionIndex ref opt, conf.sectionGet (cString sect.name) = some sectionIndex ∧
      conf.getOptionFromSect sectionIndex (cString entry.name) = some ref ∧
      conf.load ref = some opt ∧ entry.value.accepted opt = true := by
  have hany := h (sect.name, entry) (List.mem_flatMap.mpr ⟨sect, hsect, List.mem_map_of_mem hentry⟩)
  obtain ⟨⟨ref, opt⟩, hnamed, haccepted⟩ := (Option.any_eq_true _ _).mp hany
  obtain ⟨hfound, hload⟩ := named_eq_some hnamed
  obtain ⟨sectionIndex, hget, href⟩ := Option.bind_eq_some_iff.mp hfound
  exact ⟨sectionIndex, ref, opt, hget, href, hload, haccepted⟩

theorem Accepted.declared (h : doc.Accepted conf) {sect : MappedSection}
    (hsect : sect ∈ doc.sections) : (conf.sectionGet (cString sect.name)).isSome := by
  obtain ⟨sectionIndex, ref, opt, hget, -⟩ := h.entry hsect List.mem_cons_self
  rw [hget]
  rfl

/-- An entry as a mention. -/
def mention (conf : RappConfig) (entry : Bytes × MappedEntry) : Mention :=
  ⟨(conf.sectionGet (cString entry.1)).getD 0, entry.2.name, entry.2.value.form⟩

theorem mentions_written {sections : List MappedSection} {written : List YamlSection}
    (hwritten : List.Forall₂ MappedSection.WrittenAs sections written)
    (hdeclared : ∀ sect ∈ sections, (conf.sectionGet (cString sect.name)).isSome) :
    written.flatMap (YamlSection.mentions conf) =
      (sections.flatMap fun sect => sect.entries.map fun entry => (sect.name, entry)).map
        (mention conf) := by
  induction hwritten with
  | nil => rfl
  | @cons sect first sections rest hfirst _ ih =>
    obtain ⟨sectionIndex, hget⟩ := Option.isSome_iff_exists.mp (hdeclared sect (by simp))
    have hsect : first.mentions conf =
        (sect.entries.map fun entry => (sect.name, entry)).map (mention conf) := by
      rw [hfirst.mentions_eq hget, MappedSection.mentions, List.map_map]
      refine List.map_congr_left fun entry _ => ?_
      simp [mention, hget]
    rw [List.flatMap_cons, List.flatMap_cons, List.map_append, hsect,
      ih fun other hother => hdeclared other (by simp [hother])]

theorem Accepted.mention_ref (h : doc.Accepted conf) {entry : Bytes × MappedEntry}
    (hentry : entry ∈ doc.entries) :
    (mention conf entry).ref conf = conf.getOption (cString entry.1) (cString entry.2.name) := by
  obtain ⟨sect, hsect, hmem⟩ := List.mem_flatMap.mp hentry
  obtain ⟨inner, hinner, rfl⟩ := List.mem_map.mp hmem
  obtain ⟨sectionIndex, ref, opt, hget, -⟩ := h.entry hsect hinner
  simp [Mention.ref, mention, RappConfig.getOption, hget]

theorem lastForm_mentions (h : doc.Accepted conf) (ref : OptionRef) :
    lastForm conf (doc.entries.map (mention conf)) ref =
      (doc.lastValue conf ref).map MappedValue.form := by
  have href : ∀ entry ∈ doc.entries.reverse,
      decide ((mention conf entry).ref conf = some ref) =
        decide (conf.getOption (cString entry.1) (cString entry.2.name) = some ref) := by
    intro entry hentry
    rw [h.mention_ref (List.mem_reverse.mp hentry)]
  rw [lastForm, ← List.map_reverse, List.find?_map, lastValue, Option.map_map, Option.map_map]
  exact congrArg (Option.map (MappedValue.form ∘ fun entry => entry.2.value))
    (List.find?_congr href)

theorem lastValue_accepted (h : doc.Accepted conf) {ref : OptionRef} {opt : ConfigOption}
    (hload : conf.load ref = some opt) {value : MappedValue}
    (hvalue : doc.lastValue conf ref = some value) : value.accepted opt = true := by
  obtain ⟨entry, hfind, rfl⟩ := Option.map_eq_some_iff.mp hvalue
  have hmem := List.mem_reverse.mp (List.mem_of_find?_eq_some hfind)
  have href := List.find?_some hfind
  rw [decide_eq_true_eq] at href
  obtain ⟨⟨found, other⟩, hnamed, haccepted⟩ := (Option.any_eq_true _ _).mp (h entry hmem)
  obtain ⟨hfound, hother⟩ := named_eq_some hnamed
  obtain rfl : found = ref := Option.some.inj (hfound.symm.trans href)
  rw [hload] at hother
  cases hother
  exact haccepted

theorem settleLast_mentions (h : doc.Accepted conf) {ref : OptionRef} {opt : ConfigOption}
    (hload : conf.load ref = some opt) :
    settleLast (lastForm conf (doc.entries.map (mention conf)) ref) opt =
      doc.settle conf ref opt := by
  rw [lastForm_mentions h, settle]
  cases hvalue : doc.lastValue conf ref with
  | none => rfl
  | some value =>
    simp only [Option.map_some, settleLast, ValueForm.settle,
      values_of_accepted (lastValue_accepted h hload hvalue)]

/-- An accepted document that begins as the reader wants it, in any mixture of styles. -/
theorem Accepted.parse {written : YamlDocument} (hwritten : doc.WrittenAs written)
    (h : doc.Accepted conf) (hstart : doc.explicitStart = true)
    (hdirectives : doc.directives = []) :
    configParseMain conf written.tokens =
      run Mention.read (doc.entries.map (mention conf)) conf := by
  have hdeclared : written.Skips conf := by
    intro sect hsect hnone
    obtain ⟨i, hi, rfl⟩ := List.getElem_of_mem hsect
    have hlength : i < doc.sections.length := hwritten.sections.length_eq ▸ hi
    have hsome := h.declared (List.getElem_mem hlength)
    have hname : written.sections[i].name = doc.sections[i].name :=
      (hwritten.sections.get hlength hi).name_eq
    rw [← hname, hnone] at hsome
    cases hsome
  rw [configParseMain_tokens hdeclared, readDocument, hwritten.explicitStart_eq,
    hwritten.directives_eq, if_pos ⟨hstart, hdirectives⟩,
    run_sections_written hwritten.sections fun sect => h.declared,
    mentions_written hwritten.sections fun sect => h.declared]
  rfl

/-- An accepted document is read to its end in every style. -/
theorem Accepted.read (h : doc.Accepted conf) (hsane : conf.AllOptions Sane)
    (hstart : doc.explicitStart = true) (hdirectives : doc.directives = []) :
    ∃ next, (∀ written, doc.WrittenAs written →
        configParseMain conf written.tokens = .ok next) ∧ next.outline = conf.outline ∧
      ∀ ref, next.load ref = (conf.load ref).map (doc.settle conf ref) := by
  have hmentions : ∀ mention ∈ doc.entries.map (MappedDocument.mention conf), ∃ ref opt,
      mention.ref conf = some ref ∧ conf.load ref = some opt ∧
        (mention.form.values opt).isSome := by
    intro mention hmention
    obtain ⟨entry, hentry, rfl⟩ := List.mem_map.mp hmention
    obtain ⟨⟨ref, opt⟩, hnamed, hvalue⟩ := (Option.any_eq_true _ _).mp (h entry hentry)
    obtain ⟨hfound, hload⟩ := named_eq_some hnamed
    refine ⟨ref, opt, (h.mention_ref hentry).trans hfound, hload, ?_⟩
    rw [MappedDocument.mention, values_of_accepted hvalue]
    rfl
  obtain ⟨next, hrun⟩ := run_accepted hsane hmentions
  have hsettled := settled_run hsane hrun
  refine ⟨next, fun written hwritten => ?_, hsettled.outline_eq, fun ref => ?_⟩
  · exact (h.parse hwritten hstart hdirectives).trans hrun
  · rw [hsettled.load_eq]
    cases hload : conf.load ref with
    | none => rfl
    | some opt => exact congrArg some (settleLast_mentions h hload)

end MappedDocument

/-- Block style and flow style of an accepted document that begins with `---`
and no directive are both read, and leave the values of the last entries. -/
theorem styles_agree {calls : List ConfigCall} {conf : RappConfig}
    (hcalls : run ConfigCall.apply calls RappConfig.new = .ok conf) {doc : MappedDocument}
    (hstart : doc.explicitStart = true) (hdirectives : doc.directives = [])
    (haccepted : doc.Accepted conf) :
    ∃ next, configParseMain conf doc.block.tokens = .ok next ∧
      configParseMain conf doc.flow.tokens = .ok next ∧ next.outline = conf.outline ∧
      ∀ ref, next.load ref = (conf.load ref).map (doc.settle conf ref) := by
  obtain ⟨next, hwritten, hnext⟩ := haccepted.read (sane_run hcalls) hstart hdirectives
  exact ⟨next, hwritten _ doc.block_written, hwritten _ doc.flow_written, hnext⟩

/-- A section that is written twice, the second time with a list. -/
theorem styles_agree_portTwice :
    let calls : List ConfigCall := [.optAdd (ascii "core") (ascii "port") .int none none,
      .optSetMultivalued (ascii "core") (ascii "port") 1]
    let conf := ((RappConfig.new.optAdd (ascii "core") (ascii "port")
      .int none none).2.optSetMultivalued (ascii "core") (ascii "port") 1).2
    let doc : MappedDocument := {
      directives := []
      explicitStart := true
      explicitEnd := false
      first := ⟨ascii "core", ⟨ascii "port", .scalar (ascii "80")⟩, []⟩
      rest := [⟨ascii "core", ⟨ascii "port", .list (ascii "81") [ascii "82"]⟩, []⟩]
      start := fun _ => rfl }
    run ConfigCall.apply calls RappConfig.new = .ok conf ∧
      ∃ next, configParseMain conf doc.block.tokens = .ok next ∧
        configParseMain conf doc.flow.tokens = .ok next ∧ next.outline = conf.outline ∧
        ∀ ref, next.load ref = (conf.load ref).map (doc.settle conf ref) := by
  intro calls conf doc
  have hcalls : run ConfigCall.apply calls RappConfig.new = .ok conf := rfl
  exact ⟨hcalls, styles_agree hcalls rfl rfl (by decide +kernel)⟩

/-- Without `---` the scanner gives no start of a document, and the reader stops there. -/
theorem not_styles_agree_noStart :
    let conf := (RappConfig.new.optAdd (ascii "core") (ascii "port") .int none none).2
    let doc : MappedDocument := {
      directives := []
      explicitStart := false
      explicitEnd := false
      first := ⟨ascii "core", ⟨ascii "port", .scalar (ascii "80")⟩, []⟩
      rest := []
      start := fun h => absurd rfl h }
    doc.Accepted conf ∧ configParseMain conf doc.block.tokens = .failed conf ∧
      configParseMain conf doc.flow.tokens = .failed conf := by
  decide +kernel

end Rapp
