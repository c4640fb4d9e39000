import Mathlib.Algebra.GroupWithZero.Nat
import Rapp.ConfigCommandline

/-!
# The table of flags in its memory

`config_generate_commandline` and the copy of the static options once more: the
arrays have the size they are allocated with, a write has an index, a text has
a buffer and a count is an `int`. What leaves one of these ends the run.
Allocations succeed.
-/
namespace Rapp

open ByteBlock

/-- The first number that is no `int`. -/
def intBound : Nat := 2 ^ 31

inductive TableFault where
  | outOfBounds
  | intOverflow
  | truncated
  deriving DecidableEq, Repr

namespace BoundedTable

def addInt (a b : Nat) : Except TableFault Nat :=
  if a + b < intBound then .ok (a + b) else .error .intOverflow

/-- The text fits with its terminator, and its length is the `int` that is returned. -/
def snprintf (size : Nat) (text : Bytes) : Except TableFault Bytes :=
  if text.length < size ∧ text.length < intBound then .ok text else .error .truncated

/-- `title_len` is an `int`, converted to a size again where it is used; there
is no memory for a negative one. -/
def titleLen (sectionName : Bytes) : Nat :=
  ((sectionName.length + (ascii "Options for ").length + 4 : Int).bmod (2 ^ 32)).toNat

/-- Assignments to members of `options[index]`. -/
def write (table : ArgpTable) (index : Nat) (assign : ArgpOption → ArgpOption) :
    Except TableFault ArgpTable :=
  if index < table.options.length then
    .ok { table with options := table.options.modify index assign }
  else .error .outOfBounds

/-- An assignment to `options_map[index]`. -/
def point (table : ArgpTable) (index : Nat) (ref : OptionRef) : Except TableFault ArgpTable :=
  if index < table.optionsMap.length then
    .ok { table with optionsMap := table.optionsMap.set index (some ref) }
  else .error .outOfBounds

/-- The members that are set for a title. -/
def assignTitle (doc : Bytes) (group : Nat) (option : ArgpOption) : ArgpOption :=
  { option with
    group := group
    optionDoc := true
    doc := some doc }

/-- The members that are set for an option; a boolean has no `arg`. -/
def assignEntry (name : Bytes) (key group : Nat) (opt : ConfigOption) (option : ArgpOption) :
    ArgpOption :=
  { option with
    key := key
    name := some (replaceUnderscores name)
    arg := if opt.type ≠ .bool then some (opt.metavar.getD (uppercase opt.name)) else option.arg
    group := group
    doc := if opt.help.isSome then opt.help else option.doc }

/-- The members that are copied from a static option. -/
def assignStatic (source option : ArgpOption) : ArgpOption :=
  { option with
    name := source.name
    arg := source.arg
    key := source.key
    group := source.group
    doc := source.doc }

/-- The loop over the options of a section: the next index and the table. -/
def fillOptions (before : Bytes) (beforeLength sectionIndex group : Nat) :
    Nat → List ConfigOption → Nat → ArgpTable → Except TableFault (Nat × ArgpTable)
  | _, [], index, table => .ok (index, table)
  | first, opt :: options, index, table => do
    let name ← snprintf (beforeLength + opt.name.length + 1) (before ++ opt.name)
    let key ← addInt index 150
    let table ← write table index (assignEntry name key group opt)
    let table ← point table index ⟨sectionIndex, first⟩
    let index ← addInt index 1
    fillOptions before beforeLength sectionIndex group (first + 1) options index table

/-- Outside of the core section the names of options begin with the section's. -/
def generateArgpForSection (sect : ConfigSection) (sectionIndex group index : Nat)
    (table : ArgpTable) : Except TableFault (Nat × ArgpTable) :=
  if sect.name = rappConfigSection then
    fillOptions [] 0 sectionIndex group 0 sect.options index table
  else do
    let before ← snprintf (sect.name.length + 2) (sect.name ++ ascii "-")
    fillOptions before (sect.name.length + 2) sectionIndex group 0 sect.options index table

/-- The loop over the sections. -/
def fillSections : Nat → Nat → List ConfigSection → Nat → ArgpTable →
    Except TableFault (Nat × ArgpTable)
  | _, _, [], index, table => .ok (index, table)
  | first, group, sect :: sections, index, table => do
    let doc ← snprintf (titleLen sect.name) (ascii "Options for '" ++ sect.name ++ ascii "':")
    let table ← write table index (assignTitle doc group)
    let index ← addInt index 1
    let filled ← generateArgpForSection sect first group index table
    let group ← addInt group 1
    fillSections (first + 1) group sections filled.1 filled.2

/-- The number of entries, counted section by section. -/
def countOptions : List ConfigSection → Nat → Except TableFault Nat
  | [], numOptions => .ok numOptions
  | sect :: sections, numOptions => do
    let numOptions ← addInt numOptions sect.numOpts
    let numOptions ← addInt numOptions 1
    countOptions sections numOptions

def configGenerateCommandline (conf : RappConfig) : Except TableFault (Int × RappConfig) :=
  if conf.options.isSome then .ok (-1, conf)
  else do
    let numOptions ← countOptions conf.sections 1
    let allocated ← addInt numOptions rappoptions.length
    let filled ← fillSections 0 1 conf.sections 0
      ⟨List.replicate allocated .zero, List.replicate allocated none⟩
    .ok (0, { conf with
      options := some filled.2.options
      optionsMap := filled.2.optionsMap
      numArgpOptions := filled.1 })

/-- The copy of the static options, from the `i`th on. -/
def copyStatic (numArgpOptions : Nat) : Nat → List ArgpOption → ArgpTable →
    Except TableFault ArgpTable
  | _, [], table => .ok table
  | i, source :: sources, table => do
    let index ← addInt i numArgpOptions
    let table ← write table index (assignStatic source)
    copyStatic numArgpOptions (i + 1) sources table

/-- What `config_parse_commandline` does before it calls `argp_parse`. -/
def generateAndCopy (conf : RappConfig) : Except TableFault (Int × RappConfig) := do
  let generated ← configGenerateCommandline conf
  if generated.1 ≠ 0 then .ok (-1, generated.2)
  else do
    let table ← copyStatic generated.2.numArgpOptions 0 rappoptions
      ⟨generated.2.options.getD [], generated.2.optionsMap⟩
    .ok (0, { generated.2 with
      options := some table.options
      optionsMap := table.optionsMap })

/-! ### One step -/

theorem bind_eq_ok {ε α β : Type} {x : Except ε α} {f : α → Except ε β} {b : β} :
    (x >>= f) = .ok b ↔ ∃ a, x = .ok a ∧ f a = .ok b := by
  cases x <;> simp [bind, Except.bind]

theorem addInt_eq_ok {a b c : Nat} : addInt a b = .ok c ↔ a + b < intBound ∧ c = a + b := by
  rw [addInt]
  split
  · rename_i h
    simp [h, eq_comm]
  · rename_i h
    simp [h]

theorem addInt_of_lt {a b : Nat} (h : a + b < intBound) : addInt a b = .ok (a + b) := if_pos h

theorem snprintf_eq_ok {size : Nat} {text result : Bytes} :
    snprintf size text = .ok result ↔
      (text.length < size ∧ text.length < intBound) ∧ result = text := by
  rw [snprintf]
  split
  · rename_i h
    simp [h, eq_comm]
  · rename_i h
    simp [h]

theorem length_titlebase : (ascii "Options for ").length = 12 := by decide +kernel

theorem titleLen_eq {sectionName : Bytes} (h : sectionName.length + 16 < 2 ^ 31) :
    titleLen sectionName = sectionName.length + 16 := by
  have hlow : -(((2 ^ 32 : Nat) : Int) / 2) ≤ sectionName.length + (12 : Nat) + 4 := by omega
  have hhigh : (sectionName.length + (12 : Nat) + 4 : Int) < (((2 ^ 32 : Nat) : Int) + 1) / 2 := by
    omega
  have hwrap := Int.bmod_eq_of_le hlow hhigh
  unfold titleLen
  rw [length_titlebase, hwrap]
  omega

/-- A buffer of this size holds the title, unless the size is no `int`. -/
theorem titleLen_fits (sectionName : Bytes) :
    sectionName.length + 15 < titleLen sectionName ↔ sectionName.length + 16 < intBound := by
  constructor
  · intro h
    have hint := Int.bmod_lt (x := sectionName.length + (12 : Nat) + 4) (m := 2 ^ 32) (by simp)
    unfold titleLen at h
    rw [length_titlebase] at h
    show sectionName.length + 16 < 2 ^ 31
    omega
  · intro h
    rw [titleLen_eq h]
    omega

/-- A table with room for more entries. -/
def padded (table : ArgpTable) (n : Nat) : ArgpTable :=
  ⟨table.options ++ List.replicate n .zero, table.optionsMap ++ List.replicate n none⟩

theorem write_padded (table : ArgpTable) (n : Nat) (assign : ArgpOption → ArgpOption) :
    write (padded table (n + 1)) table.options.length assign =
      .ok (padded (table.push (assign .zero) none) n) := by
  have hroom : table.options.length < (padded table (n + 1)).options.length := by simp [padded]
  rw [write, if_pos hroom]
  rw [List.modify_eq_take_cons_drop hroom]
  simp [padded, ArgpTable.push, List.replicate_succ]

theorem point_padded {table : ArgpTable} (h : table.Even) (n : Nat) (option : ArgpOption)
    (ref : OptionRef) : point (padded (table.push option none) n) table.options.length ref =
      .ok (padded (table.push option (some ref)) n) := by
  have hroom : table.options.length < (padded (table.push option none) n).optionsMap.length := by
    rw [h]
    simp [padded, ArgpTable.push]
  rw [point, if_pos hroom, h]
  simp [padded, ArgpTable.push]

/-! ### The loops -/

theorem forall_getElem?_cons {α : Type} {first : α} {items : List α} {P : Nat → α → Prop} :
    (∀ position item, (first :: items)[position]? = some item → P position item) ↔
      P 0 first ∧ ∀ position item, items[position]? = some item → P (position + 1) item := by
  constructor
  · intro h
    exact ⟨h 0 first rfl, fun position item hitem => h (position + 1) item hitem⟩
  · rintro ⟨hfirst, hitems⟩ position item hitem
    cases position with
    | zero =>
      cases hitem
      exact hfirst
    | succ position => exact hitems position item hitem

/-- What stands in front of the names of a section's options. -/
def optionPrefix (sectionName : Bytes) : Bytes :=
  if sectionName = rappConfigSection then [] else sectionName ++ ascii "-"

theorem assignEntry_zero (sectionName : Bytes) (index group : Nat) (opt : ConfigOption) :
    assignEntry (optionPrefix sectionName ++ opt.name) (index + 150) group opt .zero =
      ArgpTable.entry sectionName index group opt := by
  simp only [assignEntry, ArgpTable.entry, optionPrefix, ArgpOption.zero]
  congr 1
  · split <;> simp_all
  · cases opt.help <;> rfl

theorem assignTitle_zero (sectionName : Bytes) (group : Nat) :
    assignTitle (ascii "Options for '" ++ sectionName ++ ascii "':") group .zero =
      ArgpTable.title sectionName group := rfl

variable {table : ArgpTable}

theorem length_push (table : ArgpTable) (option : ArgpOption) (ref : Option OptionRef) :
    (table.push option ref).options.length = table.options.length + 1 := by
  simp [ArgpTable.push]

/-- One option: its flag and its key fit, and the entry is in place. -/
theorem fillOptions_cons (h : table.Even) (n : Nat) {sectionName : Bytes} {beforeLength : Nat}
    (hlength : (optionPrefix sectionName).length ≤ beforeLength) (sectionIndex group first : Nat)
    (opt : ConfigOption) (options : List ConfigOption) (result : Nat × ArgpTable) :
    fillOptions (optionPrefix sectionName) beforeLength sectionIndex group first (opt :: options)
        table.options.length (padded table (n + 1)) = .ok result ↔
      ((optionPrefix sectionName ++ opt.name).length < intBound ∧
        table.options.length + 150 < intBound) ∧
      fillOptions (optionPrefix sectionName) beforeLength sectionIndex group (first + 1) options
        (table.options.length + 1)
        (padded (table.push (ArgpTable.entry sectionName table.options.length group opt)
          (some ⟨sectionIndex, first⟩)) n) = .ok result := by
  have hfits : (optionPrefix sectionName ++ opt.name).length <
      beforeLength + opt.name.length + 1 := by
    rw [List.length_append]
    omega
  constructor
  · intro hfill
    obtain ⟨name, hname, hfill⟩ := bind_eq_ok.mp hfill
    obtain ⟨⟨-, hint⟩, rfl⟩ := snprintf_eq_ok.mp hname
    obtain ⟨key, hadd, hfill⟩ := bind_eq_ok.mp hfill
    obtain ⟨hkey, rfl⟩ := addInt_eq_ok.mp hadd
    obtain ⟨written, hwrite, hfill⟩ := bind_eq_ok.mp hfill
    rw [write_padded, assignEntry_zero] at hwrite
    cases hwrite
    obtain ⟨pointed, hpoint, hfill⟩ := bind_eq_ok.mp hfill
    rw [point_padded h] at hpoint
    cases hpoint
    obtain ⟨index, hindex, hfill⟩ := bind_eq_ok.mp hfill
    obtain ⟨-, rfl⟩ := addInt_eq_ok.mp hindex
    exact ⟨⟨hint, hkey⟩, hfill⟩
  · rintro ⟨⟨hint, hkey⟩, hfill⟩
    have hnext : table.options.length + 1 < intBound := Nat.lt_of_le_of_lt (by omega) hkey
    refine bind_eq_ok.mpr ⟨_, snprintf_eq_ok.mpr ⟨⟨hfits, hint⟩, rfl⟩, ?_⟩
    refine bind_eq_ok.mpr ⟨_, addInt_of_lt hkey, ?_⟩
    refine bind_eq_ok.mpr ⟨_, write_padded table n _, ?_⟩
    rw [assignEntry_zero]
    refine bind_eq_ok.mpr ⟨_, point_padded h n _ _, ?_⟩
    exact bind_eq_ok.mpr ⟨_, addInt_of_lt hnext, hfill⟩

/-- The flags and the keys of a section's options fit. -/
def OptionsFit (sectionName : Bytes) (index : Nat) (options : List ConfigOption) : Prop :=
  ∀ position opt, options[position]? = some opt →
    (optionPrefix sectionName ++ opt.name).length < intBound ∧ index + position + 150 < intBound

theorem optionsFit_nil (sectionName : Bytes) (index : Nat) : OptionsFit sectionName index [] := by
  intro position opt hopt
  simp at hopt

theorem optionsFit_cons {sectionName : Bytes} {index : Nat} {opt : ConfigOption}
    {options : List ConfigOption} : OptionsFit sectionName index (opt :: options) ↔
      ((optionPrefix sectionName ++ opt.name).length < intBound ∧ index + 150 < intBound) ∧
        OptionsFit sectionName (index + 1) options := by
  have hnext : ∀ position, index + (position + 1) = index + 1 + position := by
    intro position
    omega
  rw [OptionsFit, forall_getElem?_cons]
  refine and_congr_right fun _ => forall₃_congr fun position _ _ => ?_
  rw [hnext]

theorem fillOptions_eq_ok (h : table.Even) {n : Nat} (sectionName : Bytes) {beforeLength : Nat}
    (hlength : (optionPrefix sectionName).length ≤ beforeLength) (sectionIndex group first : Nat)
    {options : List ConfigOption} (hroom : options.length ≤ n) (result : Nat × ArgpTable) :
    fillOptions (optionPrefix sectionName) beforeLength sectionIndex group first options
        table.options.length (padded table n) = .ok result ↔
      OptionsFit sectionName table.options.length options ∧
      result = (table.options.length + options.length,
        padded (ArgpTable.generateArgpForSection sectionName sectionIndex group first options table)
          (n - options.length)) := by
  induction options generalizing first table n with
  | nil =>
    rw [fillOptions, Except.ok.injEq, eq_comm]
    exact ⟨fun hresult => ⟨optionsFit_nil sectionName _, hresult⟩, And.right⟩
  | cons opt options ih =>
    obtain ⟨n, rfl⟩ : ∃ m, n = m + 1 := ⟨n - 1, by simp at hroom; omega⟩
    have hroom' : options.length ≤ n := by simpa using hroom
    have heven := ArgpTable.even_push h (ArgpTable.entry sectionName table.options.length group opt)
      (some ⟨sectionIndex, first⟩)
    have hrest := ih heven (first + 1) hroom'
    rw [length_push] at hrest
    rw [fillOptions_cons h n hlength, hrest, optionsFit_cons, List.length_cons,
      Nat.add_sub_add_right, Nat.add_comm options.length, ← Nat.add_assoc]
    exact and_assoc.symm

theorem generateArgpForSection_eq_ok (h : table.Even) {n : Nat} {sect : ConfigSection}
    (hname : sect.name.length + 16 < intBound) (hroom : sect.options.length ≤ n)
    (sectionIndex group : Nat) (result : Nat × ArgpTable) :
    generateArgpForSection sect sectionIndex group table.options.length (padded table n) =
        .ok result ↔
      OptionsFit sect.name table.options.length sect.options ∧
      result = (table.options.length + sect.options.length,
        padded (ArgpTable.generateArgpForSection sect.name sectionIndex group 0 sect.options table)
          (n - sect.options.length)) := by
  rw [generateArgpForSection]
  by_cases hcore : sect.name = rappConfigSection
  · have hbefore : optionPrefix sect.name = [] := if_pos hcore
    have hlength : (optionPrefix sect.name).length ≤ 0 := by simp [hbefore]
    have hfill := fillOptions_eq_ok h sect.name hlength sectionIndex group 0 hroom result
    rw [hbefore] at hfill
    rw [if_pos hcore, hfill]
  · have hbefore : optionPrefix sect.name = sect.name ++ ascii "-" := if_neg hcore
    have hlength : (sect.name ++ ascii "-").length = sect.name.length + 1 :=
      List.length_append
    have hfits : snprintf (sect.name.length + 2) (sect.name ++ ascii "-") =
        .ok (sect.name ++ ascii "-") :=
      snprintf_eq_ok.mpr ⟨⟨by omega, by omega⟩, rfl⟩
    have hshort : (optionPrefix sect.name).length ≤ sect.name.length + 2 := by
      rw [hbefore]
      omega
    have hfill := fillOptions_eq_ok h sect.name hshort sectionIndex group 0 hroom result
    rw [hbefore] at hfill
    rw [if_neg hcore, hfits, ← hfill]
    rfl

theorem length_generateArgpForSection (sectionName : Bytes) (sectionIndex : Nat) (group : Int)
    (first : Nat) (options : List ConfigOption) (table : ArgpTable) :
    (ArgpTable.generateArgpForSection sectionName sectionIndex group first options
      table).options.length = table.options.length + options.length := by
  induction options generalizing first table with
  | nil => rfl
  | cons opt options ih =>
    rw [ArgpTable.generateArgpForSection, ih, length_push, List.length_cons]
    omega

/-- One row for the title of a section and one for each option. -/
def rows (sections : List ConfigSection) : Nat :=
  (sections.map fun sect => sect.options.length + 1).sum

theorem rows_cons (sect : ConfigSection) (sections : List ConfigSection) :
    rows (sect :: sections) = sect.options.length + 1 + rows sections := by
  rw [rows, List.map_cons, List.sum_cons, rows]

/-- The titles, the flags and the keys of sections fit. -/
def SectionsFit : Nat → List ConfigSection → Prop
  | _, [] => True
  | index, sect :: sections =>
    sect.name.length + 16 < intBound ∧ OptionsFit sect.name (index + 1) sect.options ∧
      SectionsFit (index + 1 + sect.options.length) sections

theorem length_title (sectionName : Bytes) :
    (ascii "Options for '" ++ sectionName ++ ascii "':").length = sectionName.length + 15 := by
  have hopen : (ascii "Options for '").length = 13 := by decide +kernel
  have hclose : (ascii "':").length = 2 := by decide +kernel
  rw [List.length_append, List.length_append, hopen, hclose]
  omega

/-- A title is written exactly when its length is an `int`. -/
theorem snprintf_title {sectionName result : Bytes} :
    snprintf (titleLen sectionName) (ascii "Options for '" ++ sectionName ++ ascii "':") =
        .ok result ↔
      sectionName.length + 16 < intBound ∧
        result = ascii "Options for '" ++ sectionName ++ ascii "':" := by
  rw [snprintf_eq_ok, length_title, titleLen_fits]
  refine and_congr_left fun _ => ⟨And.left, fun hlength => ⟨hlength, by omega⟩⟩

/-- The table behind one section. -/
def afterSection (table : ArgpTable) (first : Nat) (sect : ConfigSection) : ArgpTable :=
  ArgpTable.generateArgpForSection sect.name first (first + 1) 0 sect.options
    (table.push (ArgpTable.title sect.name (first + 1)) none)

theorem length_afterSection (table : ArgpTable) (first : Nat) (sect : ConfigSection) :
    (afterSection table first sect).options.length =
      table.options.length + 1 + sect.options.length := by
  rw [afterSection, length_generateArgpForSection, length_push]

/-- The options of a section whose title is in place. -/
theorem generateArgpForSection_titled (h : table.Even) {n first : Nat} {sect : ConfigSection}
    (hname : sect.name.length + 16 < intBound) (hroom : sect.options.length ≤ n)
    (filled : Nat × ArgpTable) :
    generateArgpForSection sect first (first + 1) (table.options.length + 1)
        (padded (table.push (ArgpTable.title sect.name (first + 1)) none) n) = .ok filled ↔
      OptionsFit sect.name (table.options.length + 1) sect.options ∧
      filled = (table.options.length + 1 + sect.options.length,
        padded (afterSection table first sect) (n - sect.options.length)) := by
  have heven := ArgpTable.even_push h (ArgpTable.title sect.name (first + 1)) none
  have hfill := generateArgpForSection_eq_ok heven hname hroom first (first + 1) filled
  rw [length_push] at hfill
  exact hfill

/-- One section: its title fits, and its options do. -/
theorem fillSections_cons (h : table.Even) {n first : Nat} {sect : ConfigSection}
    (sections : List ConfigSection) (hroom : sect.options.length ≤ n)
    (hindex : table.options.length + 1 < intBound) (hgroup : first + 2 < intBound)
    (result : Nat × ArgpTable) :
    fillSections first (first + 1) (sect :: sections) table.options.length (padded table (n + 1)) =
        .ok result ↔
      (sect.name.length + 16 < intBound ∧
        OptionsFit sect.name (table.options.length + 1) sect.options) ∧
      fillSections (first + 1) (first + 2) sections
        (table.options.length + 1 + sect.options.length)
        (padded (afterSection table first sect) (n - sect.options.length)) = .ok result := by
  have hadd : addInt (first + 1) 1 = .ok (first + 2) := addInt_of_lt hgroup
  have hwrite := write_padded table n
    (assignTitle (ascii "Options for '" ++ sect.name ++ ascii "':") (first + 1))
  rw [assignTitle_zero] at hwrite
  constructor
  · intro hfill
    obtain ⟨doc, htitle, hfill⟩ := bind_eq_ok.mp hfill
    obtain ⟨hname, rfl⟩ := snprintf_title.mp htitle
    obtain ⟨written, hwritten, hfill⟩ := bind_eq_ok.mp hfill
    rw [hwrite] at hwritten
    cases hwritten
    obtain ⟨index, hnext, hfill⟩ := bind_eq_ok.mp hfill
    obtain ⟨-, rfl⟩ := addInt_eq_ok.mp hnext
    obtain ⟨filled, hoptions, hfill⟩ := bind_eq_ok.mp hfill
    obtain ⟨hfits, rfl⟩ := (generateArgpForSection_titled h hname hroom filled).mp hoptions
    rw [hadd] at hfill
    exact ⟨⟨hname, hfits⟩, hfill⟩
  · rintro ⟨⟨hname, hfits⟩, hfill⟩
    refine bind_eq_ok.mpr ⟨_, snprintf_title.mpr ⟨hname, rfl⟩, ?_⟩
    refine bind_eq_ok.mpr ⟨_, hwrite, ?_⟩
    refine bind_eq_ok.mpr ⟨_, addInt_of_lt hindex, ?_⟩
    refine bind_eq_ok.mpr ⟨_, (generateArgpForSection_titled h hname hroom _).mpr ⟨hfits, rfl⟩, ?_⟩
    exact bind_eq_ok.mpr ⟨_, hadd, hfill⟩

theorem even_afterSection (h : table.Even) (first : Nat) (sect : ConfigSection) :
    (afterSection table first sect).Even :=
  ArgpTable.even_generateArgpForSection _ _ _ _ _ (ArgpTable.even_push h _ _)

theorem fillSections_eq_ok (h : table.Even) {n first : Nat} {sections : List ConfigSection}
    (hroom : rows sections ≤ n) (hindex : table.options.length + rows sections + 1 < intBound)
    (hfirst : first ≤ table.options.length) (result : Nat × ArgpTable) :
    fillSections first (first + 1) sections table.options.length (padded table n) = .ok result ↔
      SectionsFit table.options.length sections ∧
      result = (table.options.length + rows sections,
        padded (ArgpTable.generate first sections table) (n - rows sections)) := by
  induction sections generalizing first table n with
  | nil =>
    rw [fillSections, Except.ok.injEq, eq_comm]
    exact ⟨fun hresult => ⟨trivial, hresult⟩, And.right⟩
  | cons sect sections ih =>
    rw [rows_cons] at hroom hindex
    obtain ⟨n, rfl⟩ : ∃ m, n = m + 1 := ⟨n - 1, by omega⟩
    have hroom' : rows sections ≤ n - sect.options.length := by omega
    have hindex' : (afterSection table first sect).options.length + rows sections + 1 <
        intBound := by
      rw [length_afterSection]
      omega
    have hfirst' : first + 1 ≤ (afterSection table first sect).options.length := by
      rw [length_afterSection]
      omega
    have hrest := ih (even_afterSection h first sect) hroom' hindex' hfirst'
    rw [length_afterSection] at hrest
    have hleft : n + 1 - (sect.options.length + 1 + rows sections) =
        n - sect.options.length - rows sections := by
      omega
    have hnext : table.options.length + (sect.options.length + 1 + rows sections) =
        table.options.length + 1 + sect.options.length + rows sections := by
      omega
    rw [fillSections_cons h sections (by omega) (by omega) (by omega), hrest, SectionsFit,
      rows_cons, hleft, hnext, and_assoc, and_assoc, and_assoc]
    rfl

/-- The counters of the sections are right. -/
def OptionsCounted (sections : List ConfigSection) : Prop :=
  ∀ sect ∈ sections, sect.numOpts = sect.options.length

theorem countOptions_eq_ok {sections : List ConfigSection} (h : OptionsCounted sections)
    {numOptions : Nat} (hint : numOptions < intBound) (result : Nat) :
    countOptions sections numOptions = .ok result ↔
      numOptions + rows sections < intBound ∧ result = numOptions + rows sections := by
  induction sections generalizing numOptions with
  | nil =>
    rw [countOptions, Except.ok.injEq, eq_comm]
    exact ⟨fun hresult => ⟨hint, hresult⟩, And.right⟩
  | cons sect sections ih =>
    have hrest := fun sect hsect => h sect (List.mem_cons_of_mem _ hsect)
    have hcount := h sect List.mem_cons_self
    rw [rows_cons, ← hcount]
    constructor
    · intro hcounted
      obtain ⟨options, hadd, hcounted⟩ := bind_eq_ok.mp hcounted
      obtain ⟨-, rfl⟩ := addInt_eq_ok.mp hadd
      obtain ⟨title, hadd, hcounted⟩ := bind_eq_ok.mp hcounted
      obtain ⟨hnext, rfl⟩ := addInt_eq_ok.mp hadd
      obtain ⟨hfits, rfl⟩ := (ih hrest hnext).mp hcounted
      omega
    · rintro ⟨hfits, rfl⟩
      refine bind_eq_ok.mpr ⟨_, addInt_of_lt (by omega), ?_⟩
      refine bind_eq_ok.mpr ⟨_, addInt_of_lt (by omega), ?_⟩
      rw [ih hrest (by omega)]
      omega

/-- The copies of static options behind a table. -/
def withCopies (table : ArgpTable) (sources : List ArgpOption) : ArgpTable :=
  ⟨table.options ++ sources.map fun option => { option with optionDoc := false },
    table.optionsMap ++ List.replicate sources.length none⟩

theorem copyStatic_padded (numArgpOptions : Nat) {i n : Nat} {sources : List ArgpOption}
    (hindex : table.options.length = i + numArgpOptions) (hroom : sources.length ≤ n)
    (hint : table.options.length + sources.length < intBound) :
    copyStatic numArgpOptions i sources (padded table n) =
      .ok (padded (withCopies table sources) (n - sources.length)) := by
  induction sources generalizing i n table with
  | nil => simp [copyStatic, withCopies]
  | cons source sources ih =>
    obtain ⟨n, rfl⟩ : ∃ m, n = m + 1 := ⟨n - 1, by simp at hroom; omega⟩
    rw [List.length_cons] at hroom hint
    have hlength := length_push table (assignStatic source .zero) none
    have hnext : (table.push (assignStatic source .zero) none).options.length =
        i + 1 + numArgpOptions := by
      omega
    have hrest := ih hnext (Nat.le_of_succ_le_succ hroom) (by omega)
    have hcopies : withCopies (table.push (assignStatic source .zero) none) sources =
        withCopies table (source :: sources) := by
      simp [withCopies, ArgpTable.push, assignStatic, ArgpOption.zero, List.replicate_succ]
    rw [hcopies] at hrest
    rw [List.length_cons, Nat.add_sub_add_right, ← hrest]
    have hwrite := write_padded table n (assignStatic source)
    rw [hindex] at hwrite
    rw [copyStatic, addInt_of_lt (by omega)]
    change (write (padded table (n + 1)) (i + numArgpOptions) (assignStatic source) >>= _) = _
    rw [hwrite]
    rfl

theorem length_generate (first : Nat) (sections : List ConfigSection) (table : ArgpTable) :
    (ArgpTable.generate first sections table).options.length =
      table.options.length + rows sections := by
  induction sections generalizing first table with
  | nil => rfl
  | cons sect sections ih =>
    rw [ArgpTable.generate, ih, length_generateArgpForSection, length_push, rows_cons]
    omega

theorem even_nil : (⟨[], []⟩ : ArgpTable).Even := rfl

theorem even_generate (h : table.Even) (first : Nat) (sections : List ConfigSection) :
    (ArgpTable.generate first sections table).Even := by
  induction sections generalizing first table with
  | nil => exact h
  | cons sect sections ih => exact ih (even_afterSection h first sect) (first + 1)

theorem numOptions_eq {conf : RappConfig} (h : OptionsCounted conf.sections) :
    conf.numOptions = rows conf.sections + 1 := by
  have hfold : ∀ (sections : List ConfigSection) (numOptions : Nat), OptionsCounted sections →
      sections.foldl (fun numOptions sect => numOptions + sect.numOpts + 1) numOptions =
        rows sections + numOptions := by
    intro sections
    induction sections with
    | nil => exact fun numOptions _ => (Nat.zero_add _).symm
    | cons sect sections ih =>
      intro numOptions hsections
      rw [List.foldl_cons, ih _ fun other hother => hsections other (List.mem_cons_of_mem _ hother),
        rows_cons, hsections sect List.mem_cons_self]
      omega
  exact hfold _ _ h

/-- The rows of the sections, the static ones and one more. -/
def finished (conf : RappConfig) : ArgpTable :=
  padded (withCopies (ArgpTable.generate 0 conf.sections ⟨[], []⟩) rappoptions) 1

theorem withFlags_eq {conf : RappConfig} (hnone : conf.options = none)
    (h : OptionsCounted conf.sections) : conf.withFlags = { conf with
      options := some (finished conf).options
      optionsMap := (finished conf).optionsMap
      numArgpOptions := rows conf.sections } := by
  have hlength := length_generate 0 conf.sections ⟨[], []⟩
  rw [List.length_nil, Nat.zero_add] at hlength
  have heven : (ArgpTable.generate 0 conf.sections ⟨[], []⟩).options.length =
      (ArgpTable.generate 0 conf.sections ⟨[], []⟩).optionsMap.length :=
    even_generate even_nil 0 conf.sections
  have hzeros : rows conf.sections + 1 + rappoptions.length - rows conf.sections = 8 := by
    have hstatic : rappoptions.length = 7 := rfl
    omega
  rw [RappConfig.withFlags, RappConfig.configGenerateCommandline, if_neg (by simp [hnone])]
  simp only [RappConfig.copyStatic, numOptions_eq h, ← heven, hlength, hzeros, Option.map_some]
  have hoptions : overwrite (rows conf.sections)
      (rappoptions.map fun option => { option with optionDoc := false })
      ((ArgpTable.generate 0 conf.sections ⟨[], []⟩).options ++ List.replicate 8 .zero) =
      (finished conf).options := by
    rw [overwrite, ← hlength, List.take_left, List.drop_append]
    simp [finished, padded, withCopies, rappoptions]
  have hmap : (ArgpTable.generate 0 conf.sections ⟨[], []⟩).optionsMap ++ List.replicate 8 none =
      (finished conf).optionsMap := by
    simp [finished, padded, withCopies, rappoptions]
  rw [hoptions, hmap]

/-- The rows of the sections with the room that is left behind them. -/
def generated (conf : RappConfig) : RappConfig :=
  { conf with
    options := some (padded (ArgpTable.generate 0 conf.sections ⟨[], []⟩) 8).options
    optionsMap := (padded (ArgpTable.generate 0 conf.sections ⟨[], []⟩) 8).optionsMap
    numArgpOptions := rows conf.sections }

theorem configGenerateCommandline_eq_ok {conf : RappConfig} (hnone : conf.options = none)
    (h : OptionsCounted conf.sections) (result : Int × RappConfig) :
    configGenerateCommandline conf = .ok result ↔
      (rows conf.sections + 8 < intBound ∧ SectionsFit 0 conf.sections) ∧
        result = (0, generated conf) := by
  have hstatic : rappoptions.length = 7 := rfl
  have hzeros : 1 + rows conf.sections + 7 - rows conf.sections = 8 := by omega
  have hfill : rows conf.sections + 8 < intBound → ∀ filled,
      fillSections 0 1 conf.sections 0 (padded ⟨[], []⟩ (1 + rows conf.sections + 7)) =
        .ok filled ↔ SectionsFit 0 conf.sections ∧ filled = (rows conf.sections,
          padded (ArgpTable.generate 0 conf.sections ⟨[], []⟩) 8) := by
    intro hcount filled
    have hroom : rows conf.sections ≤ 1 + rows conf.sections + 7 := by omega
    have hindex : (⟨[], []⟩ : ArgpTable).options.length + rows conf.sections + 1 < intBound := by
      rw [List.length_nil]
      omega
    have hsections := fillSections_eq_ok even_nil hroom hindex (Nat.le_refl 0) filled
    rw [hzeros, List.length_nil, Nat.zero_add (rows conf.sections)] at hsections
    exact hsections
  have hone : 1 < intBound := by decide
  rw [configGenerateCommandline, if_neg (by simp [hnone])]
  constructor
  · intro hgenerate
    obtain ⟨numOptions, hnum, hgenerate⟩ := bind_eq_ok.mp hgenerate
    obtain ⟨-, rfl⟩ := (countOptions_eq_ok h hone numOptions).mp hnum
    obtain ⟨allocated, hadd, hgenerate⟩ := bind_eq_ok.mp hgenerate
    obtain ⟨hcount, rfl⟩ := addInt_eq_ok.mp hadd
    obtain ⟨filled, hfilled, hgenerate⟩ := bind_eq_ok.mp hgenerate
    obtain ⟨hfits, rfl⟩ := (hfill (by omega) filled).mp hfilled
    cases hgenerate
    exact ⟨⟨by omega, hfits⟩, rfl⟩
  · rintro ⟨⟨hcount, hfits⟩, rfl⟩
    refine bind_eq_ok.mpr ⟨_, (countOptions_eq_ok h hone _).mpr ⟨by omega, rfl⟩, ?_⟩
    refine bind_eq_ok.mpr ⟨_, addInt_of_lt (by omega), ?_⟩
    exact bind_eq_ok.mpr ⟨_, (hfill hcount _).mpr ⟨hfits, rfl⟩, rfl⟩

/-- The run succeeds exactly when everything fits, and leaves the same table. -/
theorem generateAndCopy_eq_ok {conf : RappConfig} (hnone : conf.options = none)
    (h : OptionsCounted conf.sections) (result : Int × RappConfig) :
    generateAndCopy conf = .ok result ↔
      (rows conf.sections + 8 < intBound ∧ SectionsFit 0 conf.sections) ∧
        result = (0, conf.withFlags) := by
  have hcopy : rows conf.sections + 8 < intBound →
      copyStatic (rows conf.sections) 0 rappoptions
        (padded (ArgpTable.generate 0 conf.sections ⟨[], []⟩) 8) = .ok (finished conf) := by
    intro hcount
    have hlength := length_generate 0 conf.sections ⟨[], []⟩
    have hstatic : rappoptions.length = 7 := rfl
    have hfits : (ArgpTable.generate 0 conf.sections ⟨[], []⟩).options.length +
        rappoptions.length < intBound := by
      rw [hlength, List.length_nil]
      omega
    have hcopied := copyStatic_padded (n := 8) (rows conf.sections) hlength (by omega) hfits
    have hleft : 8 - rappoptions.length = 1 := by omega
    rw [hleft] at hcopied
    exact hcopied
  rw [withFlags_eq hnone h]
  constructor
  · intro hall
    obtain ⟨before, hgenerate, hall⟩ := bind_eq_ok.mp hall
    obtain ⟨⟨hcount, hfits⟩, rfl⟩ := (configGenerateCommandline_eq_ok hnone h before).mp hgenerate
    obtain ⟨table, htable, hall⟩ := bind_eq_ok.mp hall
    cases (hcopy hcount).symm.trans htable
    cases hall
    exact ⟨⟨hcount, hfits⟩, rfl⟩
  · rintro ⟨⟨hcount, hfits⟩, rfl⟩
    refine bind_eq_ok.mpr ⟨_, (configGenerateCommandline_eq_ok hnone h _).mpr
      ⟨⟨hcount, hfits⟩, rfl⟩, ?_⟩
    exact bind_eq_ok.mpr ⟨_, hcopy hcount, rfl⟩

end BoundedTable

end Rapp
