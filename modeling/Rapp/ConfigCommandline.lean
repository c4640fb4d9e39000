import Rapp.AcceptedTexts

/-!
# The command line

`config/commandline.c`: the table of flags made from the declared options, and
the parser that `argp_parse` calls for each flag it finds. What `argp_parse`
makes of `argv` is the list of these calls; it stops at the first error.
Allocations succeed.
-/
namespace Rapp

open CallOutcome (Outcome run)
open ByteBlock

/-- `ARG_INDEX_BASE`, the key of the first static option. -/
abbrev argIndexBase : Int := 128

abbrev argIndexOffset : Int := 150

abbrev einval : Int := 22

abbrev argpKeyEnd : Int := 0x1000001
abbrev argpKeyNoArgs : Int := 0x1000002
abbrev argpKeyInit : Int := 0x1000003
abbrev argpKeySuccess : Int := 0x1000004
abbrev argpKeyError : Int := 0x1000005
abbrev argpKeyFini : Int := 0x1000007

/-! ### The table -/

def ArgpOption.zero : ArgpOption := ⟨none, 0, none, false, none, 0⟩

/-- `rappoptions` and the zero entry behind it. -/
def rappoptions : List ArgpOption :=
  [⟨none, 0, none, true, some (ascii "Logging:"), -3⟩,
    ⟨some (ascii "log-level"), 128, some (ascii "LOGLEVEL"), false,
      some (ascii "Log level, one of: \x7bCRITICAL, ERROR, WARN, INFO, DEBUG\x7d"), 0⟩,
    ⟨some (ascii "log-output"), 129, some (ascii "OUTPUT"), false,
      some (ascii "Log to file, defaults to <stderr>."), 0⟩,
    ⟨some (ascii "log-nocolor"), 130, none, false, some (ascii "Disable colors in logs"), 0⟩,
    ⟨none, 0, none, true, some (ascii "Containers:"), -2⟩,
    ⟨some (ascii "load"), 131, some (ascii "PATH"), false, some (ascii "Load container .so"), 0⟩,
    .zero]

def replaceUnderscores (text : Bytes) : Bytes := text.map fun byte => if byte = 95 then 45 else byte

/-- The entries written so far; the next index is their number. -/
structure ArgpTable where
  options : List ArgpOption
  optionsMap : List (Option OptionRef)

namespace ArgpTable

def push (table : ArgpTable) (option : ArgpOption) (ref : Option OptionRef) : ArgpTable :=
  ⟨table.options ++ [option], table.optionsMap ++ [ref]⟩

/-- The entry of an option. -/
def entry (sectionName : Bytes) (index : Nat) (group : Int) (opt : ConfigOption) : ArgpOption where
  name := some (replaceUnderscores
    ((if sectionName = rappConfigSection then [] else sectionName ++ ascii "-") ++ opt.name))
  key := index + 150
  arg := if opt.type = .bool then none else some (opt.metavar.getD (uppercase opt.name))
  optionDoc := false
  doc := opt.help
  group := group

def title (sectionName : Bytes) (group : Int) : ArgpOption where
  name := none
  key := 0
  arg := none
  optionDoc := true
  doc := some (ascii "Options for '" ++ sectionName ++ ascii "':")
  group := group

/-- The loop of `generate_argp_for_section`; `first` is the position of the first option. -/
def generateArgpForSection (sectionName : Bytes) (sectionIndex : Nat) (group : Int) :
    Nat → List ConfigOption → ArgpTable → ArgpTable
  | _, [], table => table
  | first, opt :: options, table =>
    generateArgpForSection sectionName sectionIndex group (first + 1) options
      (table.push (entry sectionName table.options.length group opt) (some ⟨sectionIndex, first⟩))

/-- The loop over the sections; the group is one more than the position. -/
def generate : Nat → List ConfigSection → ArgpTable → ArgpTable
  | _, [], table => table
  | first, sect :: sections, table =>
    generate (first + 1) sections
      (generateArgpForSection sect.name first (first + 1) 0 sect.options
        (table.push (title sect.name (first + 1)) none))

end ArgpTable

namespace RappConfig

/-- The number of entries that are allocated, the static ones left out. -/
def numOptions (conf : RappConfig) : Nat :=
  conf.sections.foldl (fun numOptions sect => numOptions + sect.numOpts + 1) 1

def configGenerateCommandline (conf : RappConfig) : Int × RappConfig :=
  if conf.options.isSome then (-1, conf)
  else
    let table := ArgpTable.generate 0 conf.sections ⟨[], []⟩
    let allocated := conf.numOptions + rappoptions.length
    (0, { conf with
      options := some (table.options ++
        List.replicate (allocated - table.options.length) ArgpOption.zero)
      optionsMap := table.optionsMap ++ List.replicate (allocated - table.optionsMap.length) none
      numArgpOptions := table.options.length })

/-- The copy of the static options; their flags are not copied. -/
def copyStatic (conf : RappConfig) : RappConfig :=
  let copies := rappoptions.map fun option => { option with optionDoc := false }
  { conf with options := conf.options.map (overwrite conf.numArgpOptions copies) }

end RappConfig

/-! ### The parser -/

/-- One call of the parser by `argp_parse`. -/
structure ArgpCall where
  key : Int
  arg : Option Bytes

def parseCommandlineOpt (call : ArgpCall) (conf : RappConfig) : Int × RappConfig :=
  if call.key = argpKeyNoArgs then (0, conf)
  else if call.key = argpKeyInit ∨ call.key = argpKeyFini ∨ call.key = argpKeyEnd then (0, conf)
  else if call.key = argpKeySuccess then (0, conf)
  else if call.key = argpKeyError then (einval, conf)
  else if argIndexBase ≤ call.key ∧ call.key < argIndexOffset then (0, conf)
  else
    let index := call.key - argIndexOffset
    if index < 0 ∨ conf.numArgpOptions < index then (einval, conf)
    else match conf.optionsMap[index.toNat]?.join with
      | none => (einval, conf)
      | some ref =>
        match call.arg with
        | none => (einval, conf)
        | some arg =>
          conf.withRef ref fun opt =>
            let result := opt.configAddValueFromString arg true
            if result.1 ≠ 0 then (einval, result.2)
            else (0, result.2.lock)

/-- `argp_parse` stops at the first error. -/
def argpParse (call : ArgpCall) (conf : RappConfig) : Outcome Empty RappConfig :=
  let result := parseCommandlineOpt call conf
  if result.1 = 0 then .ok result.2 else .failed result.2

def configParseCommandline (calls : List ArgpCall) (conf : RappConfig) :
    Outcome Empty RappConfig :=
  let generated := conf.configGenerateCommandline
  if generated.1 ≠ 0 then .failed generated.2
  else run argpParse calls generated.2.copyStatic

/-! ### Entries of the table -/

namespace ArgpTable

/-- An option has an entry: its flag, and the pointer under the same index. -/
structure Has (table : ArgpTable) (index : Nat) (sectionName : Bytes) (group : Int)
    (opt : ConfigOption) (ref : OptionRef) : Prop where
  option_eq : table.options[index]? = some (entry sectionName index group opt)
  ref_eq : table.optionsMap[index]? = some (some ref)

/-- Both arrays are filled to the same index. -/
def Even (table : ArgpTable) : Prop := table.options.length = table.optionsMap.length

theorem even_push {table : ArgpTable} (h : table.Even) (option : ArgpOption)
    (ref : Option OptionRef) : (table.push option ref).Even := by
  rw [Even, push, List.length_append, List.length_append]
  exact congrArg (· + 1) h

theorem Has.push {table : ArgpTable} {index : Nat} {sectionName : Bytes} {group : Int}
    {opt : ConfigOption} {ref : OptionRef} (h : table.Has index sectionName group opt ref)
    (option : ArgpOption) (other : Option OptionRef) :
    (table.push option other).Has index sectionName group opt ref := by
  have hoptions := (List.getElem?_eq_some_iff.mp h.option_eq).1
  have hrefs := (List.getElem?_eq_some_iff.mp h.ref_eq).1
  constructor
  · rw [ArgpTable.push, List.getElem?_append_left hoptions, h.option_eq]
  · rw [ArgpTable.push, List.getElem?_append_left hrefs, h.ref_eq]

theorem has_push {table : ArgpTable} (h : table.Even) (sectionName : Bytes) (group : Int)
    (opt : ConfigOption) (ref : OptionRef) :
    (table.push (entry sectionName table.options.length group opt) (some ref)).Has
      table.options.length sectionName group opt ref := by
  constructor
  · simp [push]
  · rw [push, h]
    simp

theorem even_generateArgpForSection (sectionName : Bytes) (sectionIndex : Nat) (group : Int)
    (first : Nat) (options : List ConfigOption) {table : ArgpTable} (h : table.Even) :
    (generateArgpForSection sectionName sectionIndex group first options table).Even := by
  induction options generalizing first table with
  | nil => exact h
  | cons opt options ih => exact ih (first + 1) (even_push h _ _)

theorem Has.generateArgpForSection {table : ArgpTable} {index : Nat} {name : Bytes}
    {titleGroup : Int} {opt : ConfigOption} {ref : OptionRef}
    (h : table.Has index name titleGroup opt ref) (sectionName : Bytes) (sectionIndex : Nat)
    (group : Int) (first : Nat) (options : List ConfigOption) :
    (ArgpTable.generateArgpForSection sectionName sectionIndex group first options table).Has
      index name titleGroup opt ref := by
  induction options generalizing first table with
  | nil => exact h
  | cons other options ih => exact ih (h.push _ _) (first + 1)

theorem Has.generate {table : ArgpTable} {index : Nat} {sectionName : Bytes} {group : Int}
    {opt : ConfigOption} {ref : OptionRef} (h : table.Has index sectionName group opt ref)
    (first : Nat) (sections : List ConfigSection) :
    (ArgpTable.generate first sections table).Has index sectionName group opt ref := by
  induction sections generalizing first table with
  | nil => exact h
  | cons sect sections ih => exact ih ((h.push _ _).generateArgpForSection _ _ _ _ _) (first + 1)

/-- The options of a section get the next entries in order. -/
theorem generateArgpForSection_has (sectionName : Bytes) (sectionIndex : Nat) (group : Int)
    (first : Nat) (options : List ConfigOption) {table : ArgpTable} (h : table.Even)
    {position : Nat} {opt : ConfigOption} (hopt : options[position]? = some opt) :
    (generateArgpForSection sectionName sectionIndex group first options table).Has
      (table.options.length + position) sectionName group opt ⟨sectionIndex, first + position⟩ := by
  induction options generalizing first table position with
  | nil => simp at hopt
  | cons head options ih =>
    cases position with
    | zero =>
      cases hopt
      exact (has_push h sectionName group opt ⟨sectionIndex, first⟩).generateArgpForSection
        _ _ _ _ _
    | succ position =>
      have hhas := ih (first + 1) (even_push h (entry sectionName table.options.length group head)
        (some ⟨sectionIndex, first⟩)) hopt
      have hlength : (table.push (entry sectionName table.options.length group head)
          (some ⟨sectionIndex, first⟩)).options.length = table.options.length + 1 := by
        simp [push]
      have hindex : table.options.length + 1 + position =
          table.options.length + (position + 1) := by
        omega
      have hposition : first + 1 + position = first + (position + 1) := by omega
      rw [hlength, hindex, hposition] at hhas
      exact hhas

/-- Every option of every section gets an entry. -/
theorem generate_has (first : Nat) (sections : List ConfigSection) {table : ArgpTable}
    (h : table.Even) {sectionIndex position : Nat} {sect : ConfigSection} {opt : ConfigOption}
    (hsect : sections[sectionIndex]? = some sect) (hopt : sect.options[position]? = some opt) :
    ∃ index, (generate first sections table).Has index sect.name (first + sectionIndex + 1 : Nat)
      opt ⟨first + sectionIndex, position⟩ := by
  induction sections generalizing first table sectionIndex with
  | nil => simp at hsect
  | cons head sections ih =>
    have heven := even_generateArgpForSection head.name first (first + 1) 0 head.options
      (even_push h (title head.name (first + 1)) none)
    cases sectionIndex with
    | zero =>
      cases hsect
      have hhas := generateArgpForSection_has sect.name first (first + 1) 0 sect.options
        (even_push h (title sect.name (first + 1)) none) hopt
      rw [Nat.zero_add] at hhas
      exact ⟨_, hhas.generate (first + 1) sections⟩
    | succ sectionIndex =>
      obtain ⟨index, hhas⟩ := ih (first + 1) heven hsect
      have hsection : first + 1 + sectionIndex = first + (sectionIndex + 1) := by omega
      rw [hsection] at hhas
      exact ⟨index, hhas⟩

end ArgpTable

/-! ### What a flag does -/

/-- The keys of `argp` itself that the parser knows. -/
def argpReserved : List Int :=
  [argpKeyNoArgs, argpKeyInit, argpKeyFini, argpKeyEnd, argpKeySuccess, argpKeyError]

/-- The option a key is for. -/
def RappConfig.flagged (conf : RappConfig) (key : Int) : Option OptionRef :=
  if key ∈ argpReserved ∨ key < argIndexOffset ∨ conf.numArgpOptions < key - argIndexOffset then
    none
  else conf.optionsMap[(key - argIndexOffset).toNat]?.join

/-- The text a call of the parser brings for an option. -/
def ArgpCall.textFor (conf : RappConfig) (ref : OptionRef) (call : ArgpCall) : Option Bytes :=
  if conf.flagged call.key = some ref then call.arg else none

/-- The text is added and the option is locked. -/
def ConfigOption.take (opt : ConfigOption) (text : Bytes) : ConfigOption :=
  (opt.configAddValueFromString text true).2.lock

/-- The configuration behind some calls of the parser, with the texts they brought. -/
structure Flagged (conf next : RappConfig) (texts : OptionRef → List Bytes) : Prop where
  outline_eq : next.outline = conf.outline
  optionsMap_eq : next.optionsMap = conf.optionsMap
  numArgpOptions_eq : next.numArgpOptions = conf.numArgpOptions
  load_eq : ∀ ref, next.load ref =
    (conf.load ref).map fun opt => (texts ref).foldl ConfigOption.take opt
  parsed : ∀ ref opt, conf.load ref = some opt → ∀ text ∈ texts ref, (opt.parse text).isSome

theorem flagged_nil (conf : RappConfig) : Flagged conf conf fun _ => [] := by
  refine ⟨rfl, rfl, rfl, fun ref => ?_, fun _ _ _ _ h => nomatch h⟩
  cases conf.load ref <;> rfl

/-- A key without an option changes nothing. -/
theorem parseCommandlineOpt_none {call : ArgpCall} {conf : RappConfig}
    (h : conf.flagged call.key = none) : (parseCommandlineOpt call conf).2 = conf := by
  unfold parseCommandlineOpt
  -- the first five tests are for keys that are no option's
  by_cases hnoArgs : call.key = argpKeyNoArgs
  · rw [if_pos hnoArgs]
  by_cases hsilent : call.key = argpKeyInit ∨ call.key = argpKeyFini ∨ call.key = argpKeyEnd
  · rw [if_neg hnoArgs, if_pos hsilent]
  by_cases hsuccess : call.key = argpKeySuccess
  · rw [if_neg hnoArgs, if_neg hsilent, if_pos hsuccess]
  by_cases herror : call.key = argpKeyError
  · rw [if_neg hnoArgs, if_neg hsilent, if_neg hsuccess, if_pos herror]
  rw [if_neg hnoArgs, if_neg hsilent, if_neg hsuccess, if_neg herror]
  by_cases hearly : argIndexBase ≤ call.key ∧ call.key < argIndexOffset
  · rw [if_pos hearly]
  rw [if_neg hearly]
  by_cases hindex : call.key - argIndexOffset < 0 ∨
      conf.numArgpOptions < call.key - argIndexOffset
  · simp only [if_pos hindex]
  have hjoin : conf.optionsMap[(call.key - argIndexOffset).toNat]?.join = none := by
    rw [RappConfig.flagged, if_neg] at h
    · exact h
    · simp only [argpReserved, List.mem_cons, List.not_mem_nil, or_false]
      omega
  simp only [if_neg hindex, hjoin]

/-- The keys of `argp` itself do nothing, except for the one that reports an error. -/
theorem argpParse_reserved {call : ArgpCall} (h : call.key ∈ argpReserved)
    (hne : call.key ≠ argpKeyError) (conf : RappConfig) : argpParse call conf = .ok conf := by
  have hresult : parseCommandlineOpt call conf = (0, conf) := by
    simp only [argpReserved, List.mem_cons, List.not_mem_nil, or_false] at h
    unfold parseCommandlineOpt
    rcases h with h | h | h | h | h | h
    · rw [if_pos h]
    · rw [if_neg (by rw [h]; decide), if_pos (.inl h)]
    · rw [if_neg (by rw [h]; decide), if_pos (.inr (.inl h))]
    · rw [if_neg (by rw [h]; decide), if_pos (.inr (.inr h))]
    · rw [if_neg (by rw [h]; decide), if_neg (by rw [h]; decide), if_pos h]
    · exact absurd h hne
  rw [argpParse, hresult]
  rfl

theorem parseCommandlineOpt_flagged {call : ArgpCall} {conf : RappConfig} {ref : OptionRef}
    (h : conf.flagged call.key = some ref) :
    parseCommandlineOpt call conf = match call.arg with
      | none => (einval, conf)
      | some arg => conf.withRef ref fun opt =>
        let result := opt.configAddValueFromString arg true
        if result.1 ≠ 0 then (einval, result.2) else (0, result.2.lock) := by
  unfold RappConfig.flagged at h
  split_ifs at h with hspecial
  simp only [argpReserved, List.mem_cons, List.not_mem_nil, not_or] at hspecial
  unfold parseCommandlineOpt
  rw [if_neg, if_neg, if_neg, if_neg, if_neg]
  · simp only
    rw [if_neg, h]
    omega
  all_goals omega

/-! ### Runs of the parser -/

theorem take_name (opt : ConfigOption) (text : Bytes) : (opt.take text).name = opt.name :=
  addFromString_name opt text

theorem parse_take (opt : ConfigOption) (text other : Bytes) :
    (opt.take text).parse other = opt.parse other := by
  rw [ConfigOption.take, ConfigOption.configAddValueFromString_eq]
  cases opt.parse text with
  | none => rfl
  | some value =>
    simp only [if_true, ConfigOption.offer]
    split <;> rfl

theorem parse_foldl_take (texts : List Bytes) (opt : ConfigOption) (other : Bytes) :
    (texts.foldl ConfigOption.take opt).parse other = opt.parse other := by
  induction texts generalizing opt with
  | nil => rfl
  | cons text texts ih =>
    rw [List.foldl_cons, ih, parse_take]

/-- Texts after texts. -/
theorem Flagged.trans {conf before next : RappConfig} {texts more : OptionRef → List Bytes}
    (h : Flagged conf before texts) (hmore : Flagged before next more) :
    Flagged conf next fun ref => texts ref ++ more ref := by
  refine ⟨hmore.outline_eq.trans h.outline_eq, hmore.optionsMap_eq.trans h.optionsMap_eq,
    hmore.numArgpOptions_eq.trans h.numArgpOptions_eq, fun ref => ?_, ?_⟩
  · rw [hmore.load_eq, h.load_eq, Option.map_map]
    congr 1
    funext opt
    exact (List.foldl_append ..).symm
  · intro ref opt hload text htext
    rcases List.mem_append.mp htext with htext | htext
    · exact h.parsed ref opt hload text htext
    · have hbefore : before.load ref = some ((texts ref).foldl ConfigOption.take opt) := by
        rw [h.load_eq, hload]
        rfl
      have hparsed := hmore.parsed ref _ hbefore text htext
      rwa [parse_foldl_take] at hparsed

/-- One text for one option. -/
theorem flagged_store {conf : RappConfig} {flag : OptionRef} {opt : ConfigOption} {arg : Bytes}
    (hload : conf.load flag = some opt) (hparse : (opt.parse arg).isSome) :
    Flagged conf (conf.store flag (opt.take arg)) fun ref => if ref = flag then [arg] else [] := by
  refine ⟨outline_store hload (take_name opt arg), rfl, rfl, fun ref => ?_, ?_⟩
  · by_cases href : ref = flag
    · subst href
      rw [load_store_same hload, if_pos rfl, hload]
      rfl
    · rw [load_store_other (Ne.symm href), if_neg href]
      cases conf.load ref <;> rfl
  · intro ref other hother text htext
    by_cases href : ref = flag
    · subst href
      rw [if_pos rfl] at htext
      rw [hload] at hother
      cases hother
      rw [List.mem_singleton.mp htext]
      exact hparse
    · rw [if_neg href] at htext
      cases htext

/-- Texts for no option. -/
theorem flagged_same {conf : RappConfig} {flag : OptionRef} (hload : conf.load flag = none)
    (arg : Bytes) : Flagged conf conf fun ref => if ref = flag then [arg] else [] := by
  refine ⟨rfl, rfl, rfl, fun ref => ?_, fun ref opt hopt text htext => ?_⟩
  · by_cases href : ref = flag
    · rw [href, hload]
      rfl
    · rw [if_neg href]
      cases conf.load ref <;> rfl
  · by_cases href : ref = flag
    · rw [href, hload] at hopt
      cases hopt
    · rw [if_neg href] at htext
      cases htext

theorem argpParse_ok {call : ArgpCall} {conf next : RappConfig} :
    argpParse call conf = .ok next ↔ parseCommandlineOpt call conf = (0, next) := by
  rw [argpParse]
  constructor
  · intro h
    split at h
    · rename_i hzero
      exact Prod.ext hzero (Outcome.ok.inj h)
    · cases h
  · intro h
    rw [h]
    rfl

/-- A flag that succeeds has an argument that its option accepts. -/
theorem argpParse_option {call : ArgpCall} {conf next : RappConfig} {flag : OptionRef}
    (hkey : conf.flagged call.key = some flag) (hcall : argpParse call conf = .ok next) :
    ∃ arg, call.arg = some arg ∧ ((conf.load flag = none ∧ next = conf) ∨
      ∃ opt, conf.load flag = some opt ∧ (opt.parse arg).isSome ∧
        next = conf.store flag (opt.take arg)) := by
  rw [argpParse_ok, parseCommandlineOpt_flagged hkey] at hcall
  cases harg : call.arg with
  | none =>
    simp only [harg, Prod.mk.injEq] at hcall
    exact absurd hcall.1 (by decide)
  | some arg =>
    refine ⟨arg, rfl, ?_⟩
    simp only [harg, RappConfig.withRef] at hcall
    cases hload : conf.load flag with
    | none =>
      simp only [hload, Prod.mk.injEq, true_and] at hcall
      exact .inl ⟨rfl, hcall.symm⟩
    | some opt =>
      simp only [hload, ConfigOption.configAddValueFromString_eq] at hcall
      refine .inr ⟨opt, rfl, ?_⟩
      cases hparse : opt.parse arg with
      | none =>
        have hrefused : (-1 : Int) ≠ 0 := by decide
        simp only [hparse] at hcall
        rw [if_pos hrefused] at hcall
        exact absurd (congrArg Prod.fst hcall) (by decide : einval ≠ 0)
      | some value =>
        have htake : opt.take arg = (opt.offer value).lock := by
          rw [ConfigOption.take, ConfigOption.configAddValueFromString_eq, hparse]
          rfl
        simp only [hparse, ne_eq, not_true_eq_false, if_false, Prod.mk.injEq, true_and] at hcall
        exact ⟨rfl, by rw [htake]; exact hcall.symm⟩

/-- A call that succeeds brings its text to its option. -/
theorem argpParse_flagged {call : ArgpCall} {conf next : RappConfig}
    (hcall : argpParse call conf = .ok next) :
    Flagged conf next fun ref => (call.textFor conf ref).toList := by
  cases hkey : conf.flagged call.key with
  | none =>
    have hsame : conf = next := by
      rw [← parseCommandlineOpt_none hkey, argpParse_ok.mp hcall]
    subst hsame
    simpa [ArgpCall.textFor, hkey] using flagged_nil conf
  | some flag =>
    obtain ⟨arg, harg, hoption⟩ := argpParse_option hkey hcall
    have htexts : (fun ref => (call.textFor conf ref).toList) =
        fun ref => if ref = flag then [arg] else [] := by
      funext ref
      by_cases href : ref = flag
      · simp [ArgpCall.textFor, hkey, harg, href]
      · simp [ArgpCall.textFor, hkey, href, Ne.symm href]
    rw [htexts]
    rcases hoption with ⟨hload, rfl⟩ | ⟨opt, hload, hparse, rfl⟩
    · exact flagged_same hload arg
    · exact flagged_store hload hparse

theorem textFor_congr {conf next : RappConfig} {texts : OptionRef → List Bytes}
    (h : Flagged conf next texts) (ref : OptionRef) (call : ArgpCall) :
    call.textFor next ref = call.textFor conf ref := by
  rw [ArgpCall.textFor, ArgpCall.textFor, RappConfig.flagged, RappConfig.flagged, h.optionsMap_eq,
    h.numArgpOptions_eq]

/-- The run rule: each option has taken the texts of its calls in order. -/
theorem run_argpParse {calls : List ArgpCall} {conf next : RappConfig}
    (h : run argpParse calls conf = .ok next) :
    Flagged conf next fun ref => calls.filterMap (ArgpCall.textFor conf ref) := by
  induction calls generalizing conf with
  | nil =>
    obtain rfl := Outcome.ok.inj h
    exact flagged_nil conf
  | cons call calls ih =>
    obtain ⟨middle, hcall, hcalls⟩ := Outcome.bind_eq_ok.mp h
    have hfirst := argpParse_flagged hcall
    have hrest := hfirst.trans (ih hcalls)
    have htexts : (fun ref => (call.textFor conf ref).toList ++
        calls.filterMap (ArgpCall.textFor middle ref)) =
        fun ref => (call :: calls).filterMap (ArgpCall.textFor conf ref) := by
      funext ref
      have hsame : ArgpCall.textFor middle ref = ArgpCall.textFor conf ref :=
        funext fun call => textFor_congr hfirst ref call
      rw [hsame, List.filterMap_cons]
      cases call.textFor conf ref <;> rfl
    rwa [htexts] at hrest

/-- The store with its flags generated. -/
def RappConfig.withFlags (conf : RappConfig) : RappConfig :=
  conf.configGenerateCommandline.2.copyStatic

theorem withFlags_sections (conf : RappConfig) : conf.withFlags.sections = conf.sections := by
  rw [RappConfig.withFlags, RappConfig.copyStatic, RappConfig.configGenerateCommandline]
  split <;> rfl

theorem withFlags_load (conf : RappConfig) (ref : OptionRef) :
    conf.withFlags.load ref = conf.load ref := by
  rw [RappConfig.load, RappConfig.load, withFlags_sections]

theorem configParseCommandline_eq {conf : RappConfig} (h : conf.options = none)
    (calls : List ArgpCall) :
    configParseCommandline calls conf = run argpParse calls conf.withFlags := by
  have hgenerated : conf.configGenerateCommandline.1 = 0 := by
    rw [RappConfig.configGenerateCommandline, if_neg (by simp [h])]
  rw [configParseCommandline, if_neg (not_not.mpr hgenerated)]
  rfl

/-- Calls on the store leave the flags alone. -/
theorem step_flags (call : ConfigCall) (conf : RappConfig) :
    (call.step conf).2.options = conf.options := by
  cases htarget : call.target conf with
  | some found =>
    obtain ⟨ref, opt⟩ := found
    rw [ConfigCall.step_target htarget]
    rfl
  | none =>
    cases call with
    | optAdd sectionName name type help metavar =>
      have hprovide : (conf.provideSection sectionName).options = conf.options := by
        rw [RappConfig.provideSection]
        split <;> rfl
      simp only [ConfigCall.step, RappConfig.optAdd]
      split
      · rfl
      split
      · rfl
      split <;> exact hprovide
    | _ =>
      rw [ConfigCall.step_no_target htarget (by simp)]

theorem run_flags {calls : List ConfigCall} {conf : RappConfig}
    (h : run ConfigCall.apply calls RappConfig.new = .ok conf) : conf.options = none :=
  CallOutcome.run_history _ (I := fun _ conf => conf.options = none) rfl
    (fun _ call before next hbefore hstep => by
      cases hstep
      exact (step_flags call before).trans hbefore) h

/-! ### What the texts leave -/

/-- The lock is not looked at when a value is added. -/
theorem addFromString_lock (opt : ConfigOption) (text : Bytes) :
    (opt.lock.configAddValueFromString text true).2 =
      (opt.configAddValueFromString text true).2.lock := by
  have hparse : opt.lock.parse text = opt.parse text := rfl
  rw [ConfigOption.configAddValueFromString_eq, ConfigOption.configAddValueFromString_eq, hparse]
  cases opt.parse text with
  | none => rfl
  | some value =>
    have hadmits : opt.lock.admits value = opt.admits value := rfl
    simp only [if_true, ConfigOption.offer, hadmits]
    split <;> rfl

theorem foldl_take_lock (texts : List Bytes) (opt : ConfigOption) :
    texts.foldl ConfigOption.take opt.lock = (opt.offerAll texts).lock := by
  induction texts generalizing opt with
  | nil => rfl
  | cons text texts ih =>
    rw [List.foldl_cons, ConfigOption.take, addFromString_lock]
    exact ih (opt.configAddValueFromString text true).2

/-- An option that has taken texts is locked, with the values of those accepted. -/
theorem foldl_take {opt : ConfigOption} (h : Sane opt) (hempty : opt.values = [])
    {texts : List Bytes} (hne : texts ≠ []) : texts.foldl ConfigOption.take opt =
      (opt.withValues (opt.acceptedValues texts)).lock := by
  rw [← offerAll_eq h hempty]
  cases texts with
  | nil => exact absurd rfl hne
  | cons text texts => exact foldl_take_lock texts _

theorem Sane.foldl_take {opt : ConfigOption} (h : Sane opt) (texts : List Bytes) :
    Sane (texts.foldl ConfigOption.take opt) := by
  induction texts generalizing opt with
  | nil => exact h
  | cons text texts ih => exact ih (h.addFromString text).lock

end Rapp
