import Rapp.FilledTable
import Rapp.OneList

/-!
# The layout of the table

Every section has a row for its title and one for each option, in order; the
key of an option is its row and 150. The static options are behind them.
-/
namespace Rapp

open CallOutcome (Outcome run)
open ByteBlock
open BoundedTable

namespace RappConfig

/-- The row of a section's title. -/
def titleRow (conf : RappConfig) (sectionIndex : Nat) : Nat :=
  rows (conf.sections.take sectionIndex)

/-- The row of an option. -/
def optionRow (conf : RappConfig) (ref : OptionRef) : Nat :=
  conf.titleRow ref.sectionIndex + 1 + ref.optionIndex

/-- An entry and the pointer under the same index. -/
def HasRow (conf : RappConfig) (row : Nat) (option : ArgpOption) (ref : Option OptionRef) : Prop :=
  (conf.options.getD [])[row]? = some option ∧ conf.optionsMap[row]? = some ref

/-- The parser takes the key for the option: it wants a text, and sets the
option from it. -/
def KeySets (conf : RappConfig) (key : Int) (ref : OptionRef) : Prop :=
  conf.flagged key = some ref ∧
  ∀ arg, parseCommandlineOpt ⟨key, arg⟩ conf = match arg with
    | none => (einval, conf)
    | some arg => conf.withRef ref fun opt =>
      let result := opt.configAddValueFromString arg true
      if result.1 ≠ 0 then (einval, result.2) else (0, result.2.lock)

/-- The table of a configuration, with the texts complete: the rows of titles
and options, no pointer but those of the options, the copies of the static
options, a zero entry at the end, and what the parser makes of the keys. -/
structure LaidOut (conf after : RappConfig) : Prop where
  titles : ∀ sectionIndex sect, conf.sections[sectionIndex]? = some sect →
    after.HasRow (conf.titleRow sectionIndex)
      (ArgpTable.title sect.name (sectionIndex + 1 : Nat)) none
  entries : ∀ (ref : OptionRef) sect opt, conf.sections[ref.sectionIndex]? = some sect →
    sect.options[ref.optionIndex]? = some opt → after.HasRow (conf.optionRow ref)
      (ArgpTable.entry sect.name (conf.optionRow ref) (ref.sectionIndex + 1 : Nat) opt) (some ref)
  pointers : ∀ row ref, after.optionsMap[row]? = some (some ref) →
    (conf.load ref).isSome = true ∧ row = conf.optionRow ref
  statics : ∀ i option, rappoptions[i]? = some option →
    after.HasRow (after.numArgpOptions + i) { option with optionDoc := false } none
  terminated : (after.options.getD []).getLast? = some .zero
  readable : after.numArgpOptions < after.optionsMap.length
  sets : ∀ ref, (conf.load ref).isSome = true → after.KeySets (conf.optionRow ref + 150) ref
  refuses : ∀ key, argIndexOffset ≤ key → key ∉ argpReserved →
    (∀ ref, (conf.load ref).isSome = true → key ≠ conf.optionRow ref + 150) →
    ∀ arg, parseCommandlineOpt ⟨key, arg⟩ after = (einval, after)

/-- The table is filled without leaving its memory, its buffers or `int`. -/
def FilledAndLaidOut (conf : RappConfig) : Prop :=
  ∃ after, generateAndCopy conf = .ok (0, after) ∧ conf.LaidOut after

/-- The allocated entries, the lengths of titles and flags and the keys are
`int`s, and no key of an option is one of `argp`'s own. -/
structure TableFits (conf : RappConfig) : Prop where
  count : rows conf.sections + 8 < intBound
  titles : ∀ sect ∈ conf.sections, sect.name.length + 16 < intBound
  flags : ∀ sect ∈ conf.sections, ∀ opt ∈ sect.options,
    (optionPrefix sect.name ++ opt.name).length < intBound
  keys : ∀ ref, (conf.load ref).isSome = true → conf.optionRow ref + 150 < intBound
  free : ∀ ref, (conf.load ref).isSome = true → (conf.optionRow ref + 150 : Int) ∉ argpReserved

end RappConfig

/-! ### Counters -/

namespace BoundedTable

theorem optionsCounted_modify {sections : List ConfigSection} (h : OptionsCounted sections)
    (i : Nat) {change : ConfigSection → ConfigSection}
    (hchange : ∀ sect, sect.numOpts = sect.options.length →
      (change sect).numOpts = (change sect).options.length) :
    OptionsCounted (sections.modify i change) := by
  intro sect hsect
  obtain ⟨j, hj⟩ := List.mem_iff_getElem?.mp hsect
  rw [List.getElem?_modify] at hj
  cases hold : sections[j]? with
  | none => simp [hold] at hj
  | some old =>
    have hcounted := h old (List.mem_of_getElem? hold)
    rw [hold] at hj
    by_cases hi : i = j
    · have hsame : sect = change old := by simpa [hi] using hj.symm
      rw [hsame]
      exact hchange old hcounted
    · have hsame : sect = old := by simpa [hi] using hj.symm
      rw [hsame]
      exact hcounted

theorem optionsCounted_optAdd {conf : RappConfig} (h : OptionsCounted conf.sections)
    (sectionName name : Bytes) (type : RappConfigParamType) (help metavar : Option Bytes) :
    OptionsCounted (conf.optAdd sectionName name type help metavar).2.sections := by
  have hprovide : OptionsCounted (conf.provideSection sectionName).sections := by
    rw [RappConfig.provideSection]
    split
    · exact h
    · intro sect hsect
      rcases List.mem_append.mp hsect with hsect | hsect
      · exact h sect hsect
      · rw [List.mem_singleton.mp hsect]
        rfl
  simp only [RappConfig.optAdd]
  split
  · exact h
  split
  · exact h
  split
  · exact hprovide
  · refine optionsCounted_modify hprovide _ fun sect hsect => ?_
    rw [List.length_append, List.length_singleton, hsect]

theorem optionsCounted_step {conf : RappConfig} (h : OptionsCounted conf.sections)
    (call : ConfigCall) : OptionsCounted (call.step conf).2.sections := by
  cases htarget : call.target conf with
  | some found =>
    obtain ⟨ref, opt⟩ := found
    rw [ConfigCall.step_target htarget]
    refine optionsCounted_modify h _ fun sect hsect => ?_
    rw [List.length_set, hsect]
  | none =>
    cases call with
    | optAdd sectionName name type help metavar =>
      exact optionsCounted_optAdd h sectionName name type help metavar
    | _ =>
      rw [ConfigCall.step_no_target htarget (by simp)]
      exact h

theorem optionsCounted_run {calls : List ConfigCall} {conf : RappConfig}
    (h : run ConfigCall.apply calls RappConfig.new = .ok conf) : OptionsCounted conf.sections :=
  CallOutcome.run_history _ (I := fun _ conf => OptionsCounted conf.sections)
    (fun _ hsect => absurd hsect List.not_mem_nil)
    (fun _ call before next hbefore hstep => by
      cases hstep
      exact optionsCounted_step hbefore call) h

end BoundedTable

/-! ### What fits -/

theorem sectionsFit_iff {index : Nat} {sections : List ConfigSection} :
    SectionsFit index sections ↔ ∀ position sect, sections[position]? = some sect →
      sect.name.length + 16 < intBound ∧
        OptionsFit sect.name (index + rows (sections.take position) + 1) sect.options := by
  induction sections generalizing index with
  | nil =>
    refine iff_of_true trivial fun position sect hsect => ?_
    simp at hsect
  | cons sect sections ih =>
    have hnext : ∀ position,
        index + 1 + sect.options.length + rows (sections.take position) =
          index + rows ((sect :: sections).take (position + 1)) := by
      intro position
      rw [List.take_succ_cons, rows_cons]
      omega
    rw [SectionsFit, forall_getElem?_cons, ih, ← and_assoc]
    refine and_congr_right fun _ => forall₃_congr fun position _ _ => ?_
    rw [hnext]

theorem load_isSome_iff {conf : RappConfig} {ref : OptionRef} : (conf.load ref).isSome = true ↔
    ∃ sect opt, conf.sections[ref.sectionIndex]? = some sect ∧
      sect.options[ref.optionIndex]? = some opt := by
  rw [RappConfig.load]
  cases conf.sections[ref.sectionIndex]? with
  | none => simp
  | some sect =>
    cases hopt : sect.options[ref.optionIndex]? <;> simp [hopt]

/-- The sections fit when their titles, their flags and their keys do. -/
theorem sectionsFit_zero (conf : RappConfig) : SectionsFit 0 conf.sections ↔
    (∀ sect ∈ conf.sections, sect.name.length + 16 < intBound) ∧
    (∀ sect ∈ conf.sections, ∀ opt ∈ sect.options,
      (optionPrefix sect.name ++ opt.name).length < intBound) ∧
    (∀ ref, (conf.load ref).isSome = true → conf.optionRow ref + 150 < intBound) := by
  have hrow : ∀ (position : Nat) (opt : Nat), 0 + rows (conf.sections.take position) + 1 + opt =
      conf.optionRow ⟨position, opt⟩ := by
    intro position opt
    rw [RappConfig.optionRow, RappConfig.titleRow, Nat.zero_add]
  rw [sectionsFit_iff]
  constructor
  · intro h
    refine ⟨fun sect hsect => ?_, fun sect hsect opt hopt => ?_, fun ref href => ?_⟩
    · obtain ⟨position, hposition⟩ := List.mem_iff_getElem?.mp hsect
      exact (h position sect hposition).1
    · obtain ⟨position, hposition⟩ := List.mem_iff_getElem?.mp hsect
      obtain ⟨place, hplace⟩ := List.mem_iff_getElem?.mp hopt
      exact ((h position sect hposition).2 place opt hplace).1
    · obtain ⟨sect, opt, hsect, hopt⟩ := load_isSome_iff.mp href
      have hkey := ((h _ sect hsect).2 _ opt hopt).2
      rwa [hrow] at hkey
  · rintro ⟨htitles, hflags, hkeys⟩ position sect hposition
    have hsect := List.mem_of_getElem? hposition
    refine ⟨htitles sect hsect, fun place opt hplace => ?_⟩
    rw [hrow]
    exact ⟨hflags sect hsect opt (List.mem_of_getElem? hplace), hkeys ⟨position, place⟩
      (load_isSome_iff.mpr ⟨sect, opt, hposition, hplace⟩)⟩

/-! ### The rows of the table -/

namespace ArgpTable

/-- An entry and its pointer, which later entries leave alone. -/
def RowIs (table : ArgpTable) (row : Nat) (option : ArgpOption) (ref : Option OptionRef) : Prop :=
  table.options[row]? = some option ∧ table.optionsMap[row]? = some ref

theorem RowIs.push {table : ArgpTable} {row : Nat} {option : ArgpOption} {ref : Option OptionRef}
    (h : table.RowIs row option ref) (other : ArgpOption) (pointer : Option OptionRef) :
    (table.push other pointer).RowIs row option ref := by
  have hoptions := (List.getElem?_eq_some_iff.mp h.1).1
  have hrefs := (List.getElem?_eq_some_iff.mp h.2).1
  exact ⟨(List.getElem?_append_left hoptions).trans h.1,
    (List.getElem?_append_left hrefs).trans h.2⟩

theorem rowIs_push {table : ArgpTable} (h : table.Even) (option : ArgpOption)
    (ref : Option OptionRef) : (table.push option ref).RowIs table.options.length option ref := by
  refine ⟨by simp [ArgpTable.push], ?_⟩
  rw [h]
  simp [ArgpTable.push]

theorem RowIs.generateArgpForSection {table : ArgpTable} {row : Nat} {option : ArgpOption}
    {ref : Option OptionRef} (h : table.RowIs row option ref) (sectionName : Bytes)
    (sectionIndex : Nat) (group : Int) (first : Nat) (options : List ConfigOption) :
    (ArgpTable.generateArgpForSection sectionName sectionIndex group first options table).RowIs
      row option ref := by
  induction options generalizing first table with
  | nil => exact h
  | cons opt options ih => exact ih (h.push _ _) (first + 1)

theorem RowIs.generate {table : ArgpTable} {row : Nat} {option : ArgpOption}
    {ref : Option OptionRef} (h : table.RowIs row option ref) (first : Nat)
    (sections : List ConfigSection) :
    (ArgpTable.generate first sections table).RowIs row option ref := by
  induction sections generalizing first table with
  | nil => exact h
  | cons sect sections ih => exact ih ((h.push _ _).generateArgpForSection _ _ _ _ _) (first + 1)

/-- The rows of the title and of the options of a section, when what is made of
it is in the table. -/
theorem rows_of_section {table : ArgpTable} (h : table.Even) (first : Nat) (sect : ConfigSection)
    (sections : List ConfigSection) :
    let all := ArgpTable.generate (first + 1) sections (afterSection table first sect)
    all.RowIs table.options.length (title sect.name (first + 1 : Nat)) none ∧
    ∀ position opt, sect.options[position]? = some opt →
      all.RowIs (table.options.length + 1 + position)
        (entry sect.name (table.options.length + 1 + position) (first + 1 : Nat) opt)
        (some ⟨first, position⟩) := by
  have heven := even_push h (title sect.name (first + 1)) none
  refine ⟨((rowIs_push h _ none).generateArgpForSection _ _ _ _ _).generate _ _, ?_⟩
  intro position opt hopt
  have hhas := generateArgpForSection_has sect.name first (first + 1) 0 sect.options heven hopt
  rw [length_push, Nat.zero_add] at hhas
  have hrow : (afterSection table first sect).RowIs (table.options.length + 1 + position)
      (entry sect.name (table.options.length + 1 + position) (first + 1 : Nat) opt)
      (some ⟨first, position⟩) := ⟨hhas.option_eq, hhas.ref_eq⟩
  exact hrow.generate _ _

theorem generate_rows {table : ArgpTable} (h : table.Even) (first : Nat)
    {sections : List ConfigSection} {sectionIndex : Nat} {sect : ConfigSection}
    (hsect : sections[sectionIndex]? = some sect) :
    let all := ArgpTable.generate first sections table
    let row := table.options.length + rows (sections.take sectionIndex)
    all.RowIs row (title sect.name (first + sectionIndex + 1 : Nat)) none ∧
    ∀ position opt, sect.options[position]? = some opt →
      all.RowIs (row + 1 + position)
        (entry sect.name (row + 1 + position) (first + sectionIndex + 1 : Nat) opt)
        (some ⟨first + sectionIndex, position⟩) := by
  induction sections generalizing first table sectionIndex with
  | nil => simp at hsect
  | cons head sections ih =>
    cases sectionIndex with
    | zero =>
      cases hsect
      exact rows_of_section h first sect sections
    | succ sectionIndex =>
      have hrest := ih (even_afterSection h first head) (first + 1) hsect
      have hsection : first + 1 + sectionIndex = first + (sectionIndex + 1) := by omega
      have hrow : table.options.length + 1 + head.options.length +
          rows (sections.take sectionIndex) =
          table.options.length + rows ((head :: sections).take (sectionIndex + 1)) := by
        rw [List.take_succ_cons, rows_cons]
        omega
      rw [length_afterSection, hrow, hsection] at hrest
      exact hrest

end ArgpTable

/-- Every row is a title's or an option's. -/
theorem row_cases {sections : List ConfigSection} {row : Nat} (h : row < rows sections) :
    ∃ sectionIndex sect, sections[sectionIndex]? = some sect ∧
      (row = rows (sections.take sectionIndex) ∨
        ∃ position opt, sect.options[position]? = some opt ∧
          row = rows (sections.take sectionIndex) + 1 + position) := by
  induction sections generalizing row with
  | nil => simp [rows] at h
  | cons head sections ih =>
    rw [rows_cons] at h
    have hstart : rows ((head :: sections).take 0) = 0 := rfl
    by_cases htitle : row = 0
    · exact ⟨0, head, rfl, .inl (htitle.trans hstart.symm)⟩
    by_cases hoption : row < head.options.length + 1
    · have hposition : row - 1 < head.options.length := by omega
      refine ⟨0, head, rfl, .inr ⟨row - 1, head.options[row - 1], ?_, ?_⟩⟩
      · exact List.getElem?_eq_getElem hposition
      · omega
    · obtain ⟨sectionIndex, sect, hsect, hrow⟩ :=
        ih (show row - (head.options.length + 1) < rows sections by omega)
      have hnext : rows ((head :: sections).take (sectionIndex + 1)) =
          head.options.length + 1 + rows (sections.take sectionIndex) := by
        rw [List.take_succ_cons, rows_cons]
      refine ⟨sectionIndex + 1, sect, hsect, ?_⟩
      rw [hnext]
      rcases hrow with hrow | ⟨position, opt, hopt, hrow⟩
      · exact .inl (by omega)
      · exact .inr ⟨position, opt, hopt, by omega⟩

namespace RappConfig

variable {conf : RappConfig}

/-- The rows of the sections in the finished table. -/
theorem hasRow_of_rowIs (hnone : conf.options = none) (h : OptionsCounted conf.sections) {row : Nat}
    {option : ArgpOption} {ref : Option OptionRef} (hrow : conf.flagTable.RowIs row option ref) :
    conf.withFlags.HasRow row option ref := by
  have hoptions := (List.getElem?_eq_some_iff.mp hrow.1).1
  have hrefs := (List.getElem?_eq_some_iff.mp hrow.2).1
  rw [withFlags_eq hnone h]
  refine ⟨?_, ?_⟩
  · change ((conf.flagTable.options ++ _) ++ _)[row]? = _
    rw [List.append_assoc, List.getElem?_append_left hoptions]
    exact hrow.1
  · change ((conf.flagTable.optionsMap ++ _) ++ _)[row]? = _
    rw [List.append_assoc, List.getElem?_append_left hrefs]
    exact hrow.2

theorem length_flagTable (conf : RappConfig) :
    conf.flagTable.options.length = rows conf.sections :=
  (length_generate 0 conf.sections ⟨[], []⟩).trans (Nat.zero_add _)

theorem length_flagTable_map (conf : RappConfig) :
    conf.flagTable.optionsMap.length = rows conf.sections :=
  (even_generate even_nil 0 conf.sections).symm.trans conf.length_flagTable

theorem flagTable_rows {sectionIndex : Nat} {sect : ConfigSection}
    (hsect : conf.sections[sectionIndex]? = some sect) :
    conf.flagTable.RowIs (conf.titleRow sectionIndex)
      (ArgpTable.title sect.name (sectionIndex + 1 : Nat)) none ∧
    ∀ position opt, sect.options[position]? = some opt →
      conf.flagTable.RowIs (conf.optionRow ⟨sectionIndex, position⟩)
        (ArgpTable.entry sect.name (conf.optionRow ⟨sectionIndex, position⟩)
          (sectionIndex + 1 : Nat) opt)
        (some ⟨sectionIndex, position⟩) := by
  have hrows := ArgpTable.generate_rows even_nil 0 hsect
  simp only [List.length_nil, Nat.zero_add] at hrows
  exact hrows

/-- Behind the rows of the sections there is no pointer. -/
theorem withFlags_map (hnone : conf.options = none) (h : OptionsCounted conf.sections) :
    conf.withFlags.optionsMap = conf.flagTable.optionsMap ++ List.replicate 8 none := by
  rw [withFlags_eq hnone h]
  change (conf.flagTable.optionsMap ++ List.replicate 7 none) ++ List.replicate 1 none = _
  rw [List.append_assoc]
  rfl

/-- A pointer is at the row of its option. -/
theorem withFlags_pointers (hnone : conf.options = none) (h : OptionsCounted conf.sections)
    {row : Nat} {ref : OptionRef} (hrow : conf.withFlags.optionsMap[row]? = some (some ref)) :
    (conf.load ref).isSome = true ∧ row = conf.optionRow ref := by
  rw [withFlags_map hnone h] at hrow
  by_cases hbehind : row < rows conf.sections
  · rw [List.getElem?_append_left (by rw [length_flagTable_map]; exact hbehind)] at hrow
    obtain ⟨sectionIndex, sect, hsect, hcase⟩ := row_cases hbehind
    obtain ⟨htitle, hentries⟩ := flagTable_rows hsect
    rcases hcase with rfl | ⟨position, opt, hopt, rfl⟩
    · exact absurd (htitle.2.symm.trans hrow) (by simp)
    · have hentry := (hentries position opt hopt).2
      cases Option.some.inj (Option.some.inj (hentry.symm.trans hrow))
      exact ⟨load_isSome_iff.mpr ⟨sect, opt, hsect, hopt⟩, rfl⟩
  · rw [List.getElem?_append_right (by rw [length_flagTable_map]; omega)] at hrow
    have hmem := List.mem_of_getElem? hrow
    exact absurd (List.eq_of_mem_replicate hmem) (by simp)

theorem withFlags_options_eq (hnone : conf.options = none) (h : OptionsCounted conf.sections) :
    conf.withFlags.options = some (conf.flagTable.options ++
      (rappoptions.map (fun option => { option with optionDoc := false }) ++ [.zero])) := by
  rw [withFlags_eq hnone h, ← List.append_assoc]
  rfl

theorem withFlags_num (hnone : conf.options = none) (h : OptionsCounted conf.sections) :
    conf.withFlags.numArgpOptions = rows conf.sections := by
  rw [withFlags_eq hnone h]

theorem withFlags_statics (hnone : conf.options = none) (h : OptionsCounted conf.sections) {i : Nat}
    {option : ArgpOption} (hoption : rappoptions[i]? = some option) :
    conf.withFlags.HasRow (conf.withFlags.numArgpOptions + i) { option with optionDoc := false }
      none := by
  have hlength : i < rappoptions.length := (List.getElem?_eq_some_iff.mp hoption).1
  have hstatic : rappoptions.length = 7 := rfl
  rw [HasRow, withFlags_num hnone h, withFlags_options_eq hnone h, withFlags_map hnone h]
  constructor
  · rw [Option.getD_some, ← length_flagTable, List.getElem?_append_right (Nat.le_add_right _ _),
      Nat.add_sub_cancel_left, List.getElem?_append_left (by simpa using hlength),
      List.getElem?_map, hoption]
    rfl
  · rw [← length_flagTable_map, List.getElem?_append_right (Nat.le_add_right _ _),
      Nat.add_sub_cancel_left, List.getElem?_replicate, if_pos (by omega)]

theorem withFlags_terminated (hnone : conf.options = none) (h : OptionsCounted conf.sections) :
    (conf.withFlags.options.getD []).getLast? = some .zero := by
  rw [withFlags_options_eq hnone h, Option.getD_some, ← List.append_assoc, List.getLast?_concat]

theorem withFlags_readable (hnone : conf.options = none) (h : OptionsCounted conf.sections) :
    conf.withFlags.numArgpOptions < conf.withFlags.optionsMap.length := by
  rw [withFlags_num hnone h, withFlags_map hnone h, List.length_append, length_flagTable_map,
    List.length_replicate]
  omega

/-! ### Keys -/

theorem keySets_of_flagged {after : RappConfig} {key : Int} {ref : OptionRef}
    (h : after.flagged key = some ref) : after.KeySets key ref :=
  ⟨h, fun _ => parseCommandlineOpt_flagged h⟩

theorem not_keySets_of_reserved {after : RappConfig} {key : Int} (h : key ∈ argpReserved)
    (ref : OptionRef) : ¬ after.KeySets key ref := by
  rintro ⟨hflagged, -⟩
  rw [flagged, if_pos (.inl h)] at hflagged
  cases hflagged

theorem withFlags_sets (hnone : conf.options = none) {ref : OptionRef}
    (href : (conf.load ref).isSome = true)
    (hfree : (conf.optionRow ref + 150 : Int) ∉ argpReserved) :
    conf.withFlags.KeySets (conf.optionRow ref + 150) ref := by
  obtain ⟨sect, opt, hsect, hopt⟩ := load_isSome_iff.mp href
  have hrow := (flagTable_rows hsect).2 ref.optionIndex opt hopt
  exact keySets_of_flagged (flagged_of_has hnone ⟨hrow.1, hrow.2⟩ hfree)

/-- A key behind the offset that has no pointer is refused. -/
theorem parseCommandlineOpt_refuses {after : RappConfig} {call : ArgpCall}
    (hkey : argIndexOffset ≤ call.key) (hfree : call.key ∉ argpReserved)
    (hpointer : ∀ row : Nat, call.key = row + 150 → after.optionsMap[row]?.join = none) :
    parseCommandlineOpt call after = (einval, after) := by
  simp only [argpReserved, List.mem_cons, List.not_mem_nil, or_false, not_or] at hfree
  have hoffset : argIndexOffset = 150 := rfl
  have hjoin := hpointer (call.key - argIndexOffset).toNat (by omega)
  unfold parseCommandlineOpt
  rw [if_neg (by omega), if_neg (by omega), if_neg (by omega), if_neg (by omega),
    if_neg (by omega)]
  by_cases hindex : call.key - argIndexOffset < 0 ∨
      after.numArgpOptions < call.key - argIndexOffset
  · simp only [if_pos hindex]
  · simp only [if_neg hindex, hjoin]

theorem withFlags_refuses (hnone : conf.options = none) (h : OptionsCounted conf.sections)
    {key : Int} (hkey : argIndexOffset ≤ key) (hfree : key ∉ argpReserved)
    (hother : ∀ ref, (conf.load ref).isSome = true → key ≠ conf.optionRow ref + 150)
    (arg : Option Bytes) :
    parseCommandlineOpt ⟨key, arg⟩ conf.withFlags = (einval, conf.withFlags) := by
  refine @parseCommandlineOpt_refuses _ ⟨key, arg⟩ hkey hfree fun row hrow => ?_
  cases hpointer : conf.withFlags.optionsMap[row]? with
  | none => rfl
  | some pointer =>
    cases pointer with
    | none => rfl
    | some ref =>
      obtain ⟨href, hplace⟩ := withFlags_pointers hnone h hpointer
      exact absurd (hplace ▸ hrow) (hother ref href)

/-- The table of a configuration whose keys are free. -/
theorem withFlags_laidOut (hnone : conf.options = none) (h : OptionsCounted conf.sections)
    (hfree : ∀ ref, (conf.load ref).isSome = true →
      (conf.optionRow ref + 150 : Int) ∉ argpReserved) : conf.LaidOut conf.withFlags where
  titles _ _ hsect := hasRow_of_rowIs hnone h (flagTable_rows hsect).1
  entries ref _ opt hsect hopt :=
    hasRow_of_rowIs hnone h ((flagTable_rows hsect).2 ref.optionIndex opt hopt)
  pointers _ _ hrow := withFlags_pointers hnone h hrow
  statics _ _ hoption := withFlags_statics hnone h hoption
  terminated := withFlags_terminated hnone h
  readable := withFlags_readable hnone h
  sets ref href := withFlags_sets hnone href (hfree ref href)
  refuses _ hkey hreserved hother arg := withFlags_refuses hnone h hkey hreserved hother arg

theorem not_filledAndLaidOut {ref : OptionRef} (href : (conf.load ref).isSome = true)
    (hreserved : (conf.optionRow ref + 150 : Int) ∈ argpReserved) : ¬ conf.FilledAndLaidOut := by
  rintro ⟨after, -, hlaid⟩
  exact not_keySets_of_reserved hreserved ref (hlaid.sets ref href)

end RappConfig

/-- For every configuration that calls on the store reach: the table is filled
inside its memory with the layout that the parser relies on exactly when its
counts are `int`s and no option's key is one that `argp` uses itself. -/
theorem filledAndLaidOut_iff {calls : List ConfigCall} {conf : RappConfig}
    (hcalls : run ConfigCall.apply calls RappConfig.new = .ok conf) :
    conf.FilledAndLaidOut ↔ conf.TableFits := by
  have hnone := run_flags hcalls
  have hcounted := optionsCounted_run hcalls
  constructor
  · rintro ⟨after, hfill, hlaid⟩
    obtain ⟨⟨hcount, hsections⟩, -⟩ := (generateAndCopy_eq_ok hnone hcounted _).mp hfill
    obtain ⟨htitles, hflags, hkeys⟩ := (sectionsFit_zero conf).mp hsections
    refine ⟨hcount, htitles, hflags, hkeys, fun ref href hreserved => ?_⟩
    exact RappConfig.not_filledAndLaidOut href hreserved ⟨after, hfill, hlaid⟩
  · rintro ⟨hcount, htitles, hflags, hkeys, hfree⟩
    have hsections := (sectionsFit_zero conf).mpr ⟨htitles, hflags, hkeys⟩
    exact ⟨conf.withFlags, (generateAndCopy_eq_ok hnone hcounted _).mpr
      ⟨⟨hcount, hsections⟩, rfl⟩, RappConfig.withFlags_laidOut hnone hcounted hfree⟩

/-- One option in the core section. -/
theorem filledAndLaidOut_port :
    run ConfigCall.apply [.optAdd (ascii "core") (ascii "port") .int none none] RappConfig.new =
        .ok (coreConfig [.new (ascii "port") .int none none]) ∧
    ((coreConfig [.new (ascii "port") .int none none]).FilledAndLaidOut ↔
      (coreConfig [.new (ascii "port") .int none none]).TableFits) :=
  ⟨rfl, @filledAndLaidOut_iff [.optAdd (ascii "core") (ascii "port") .int none none] _ rfl⟩

/-- So many options of one name in the core section. -/
theorem run_manyPorts (n : Nat) :
    run ConfigCall.apply
        (List.replicate (n + 1) (.optAdd (ascii "core") (ascii "port") .int none none))
        RappConfig.new =
      .ok (coreConfig (.new (ascii "port") .int none none ::
        List.replicate n (.new (ascii "port") .int none none))) := by
  have hvalid : validateName (ascii "port") = true := by decide +kernel
  rw [List.replicate_succ, CallOutcome.run_cons]
  exact (congrArg (Outcome.bind · _) (optAdd_first hvalid)).trans
    (run_optAdd_coreConfig n [.new (ascii "port") .int none none] hvalid)

/-- The key of the last of them is 151 more than the number of the others. -/
theorem not_filledAndLaidOut_manyPorts {n : Nat} (hreserved : (n : Int) + 151 ∈ argpReserved)
    (port : ConfigOption) : ¬ (coreConfig (port :: List.replicate n port)).FilledAndLaidOut := by
  have hlast : ((coreConfig (port :: List.replicate n port)).load ⟨0, n⟩).isSome = true := by
    have hlength : n < (port :: List.replicate n port).length := by simp
    exact load_isSome_iff.mpr ⟨_, _, rfl, List.getElem?_eq_getElem hlength⟩
  have hrow : (coreConfig (port :: List.replicate n port)).optionRow ⟨0, n⟩ = 0 + 1 + n := rfl
  have hkey : ((0 + 1 + n : Nat) : Int) + 150 = (n : Int) + 151 := by omega
  refine RappConfig.not_filledAndLaidOut hlast ?_
  rw [hrow, hkey]
  exact hreserved

/-- The key of the 16777067th option of the core section is `ARGP_KEY_END`, which
the parser takes for the end of the arguments. -/
theorem not_filledAndLaidOut_end : ∃ conf,
    run ConfigCall.apply (List.replicate (16777066 + 1)
      (.optAdd (ascii "core") (ascii "port") .int none none)) RappConfig.new = .ok conf ∧
    ¬ conf.FilledAndLaidOut := by
  have hreserved : ((16777066 : Nat) : Int) + 151 ∈ argpReserved := by decide
  exact ⟨_, run_manyPorts 16777066, not_filledAndLaidOut_manyPorts hreserved _⟩

end Rapp
