import Rapp.ExternalNames
import Rapp.OneList

/-!
# Options set by their flags

`config_generate_commandline` declares a flag for every option, without an
argument for the booleans, and `parse_commandline_opt` refuses every flag that
comes without one. `argp_parse` finds the entry of a flag by its name and calls
the parser with the key of the entry, and with NULL when it names no argument.
-/
namespace Rapp

open CallOutcome (Outcome run)
open ByteBlock

namespace RappConfig

/-- The entry `argp_parse` finds for a flag. -/
def flagNamed (conf : RappConfig) (flag : Bytes) : Option ArgpOption :=
  (conf.options.getD []).find? fun option => option.name = some flag

/-- The call of the parser for `--flag`, or `--flag=arg` where the entry names an argument. -/
def flagCall (conf : RappConfig) (flag arg : Bytes) : Option ArgpCall :=
  (conf.flagNamed flag).map fun option => ⟨option.key, option.arg.map fun _ => arg⟩

/-- The generated flags have different names. -/
def FlagsDiffer (conf : RappConfig) : Prop :=
  (conf.flagTable.options.filterMap ArgpOption.name).Nodup

end RappConfig

/-- The flag alone on the command line appends a value to the option and to no other. -/
def SetsByFlag (conf : RappConfig) (flag arg : Bytes) (ref : OptionRef) : Prop :=
  ∃ call next, conf.withFlags.flagCall flag arg = some call ∧
    configParseCommandline (argpCalls [call]) conf = .ok next ∧
    (∃ value, next.valuesAt ref = (conf.valuesAt ref).map fun values => values ++ [value]) ∧
    ∀ other, other ≠ ref → next.load other = conf.load other

/-! ### Finding the entry -/

/-- With different names an entry is the one its name finds. -/
theorem find_of_names {options : List ArgpOption} {index : Nat} {option : ArgpOption}
    {flag : Bytes} (hnames : (options.filterMap ArgpOption.name).Nodup)
    (hoption : options[index]? = some option) (hname : option.name = some flag) :
    options.find? (fun option => option.name = some flag) = some option := by
  induction options generalizing index with
  | nil => simp at hoption
  | cons first options ih =>
    cases index with
    | zero =>
      cases hoption
      rw [List.find?_cons_of_pos (by simp [hname])]
    | succ index =>
      have hmem : flag ∈ options.filterMap ArgpOption.name :=
        List.mem_filterMap.mpr ⟨option, List.mem_of_getElem? hoption, hname⟩
      have hfirst : first.name ≠ some flag := by
        intro hfirst
        rw [List.filterMap_cons_some hfirst] at hnames
        exact (List.nodup_cons.mp hnames).1 hmem
      have hrest : (options.filterMap ArgpOption.name).Nodup :=
        hnames.sublist ((List.sublist_cons_self first options).filterMap _)
      rw [List.find?_cons_of_neg (by simpa using hfirst)]
      exact ih hrest hoption

/-- The entries of the options are in front of the copies of the static ones. -/
theorem withFlags_options {conf : RappConfig} (hnone : conf.options = none) :
    ∃ others, conf.withFlags.options = some (conf.flagTable.options ++ others) := by
  obtain ⟨copies, zeros, hoptions⟩ : ∃ copies zeros, conf.withFlags.options = some
      (overwrite conf.flagTable.options.length copies (conf.flagTable.options ++ zeros)) := by
    rw [RappConfig.withFlags, RappConfig.configGenerateCommandline, if_neg (by simp [hnone])]
    exact ⟨_, _, rfl⟩
  rw [hoptions, overwrite, List.take_left, List.append_assoc]
  exact ⟨_, rfl⟩

theorem flagCall_of_has {conf : RappConfig} (hnone : conf.options = none)
    (hdiffer : conf.FlagsDiffer) {index : Nat} {sectionName : Bytes} {group : Int}
    {opt : ConfigOption} {ref : OptionRef}
    (hhas : conf.flagTable.Has index sectionName group opt ref) (arg : Bytes) :
    conf.withFlags.flagCall (flagName sectionName opt.name) arg =
      some ⟨index + 150, if opt.type = .bool then none else some arg⟩ := by
  obtain ⟨others, hoptions⟩ := withFlags_options hnone
  have hfind := find_of_names hdiffer hhas.option_eq (entry_name sectionName index group opt)
  rw [RappConfig.flagCall, RappConfig.flagNamed, hoptions, Option.getD_some, List.find?_append,
    hfind, Option.some_or]
  have hkey : ((ArgpTable.entry sectionName index group opt).key : Int) = index + 150 := by
    simp [ArgpTable.entry]
  rw [Option.map_some, hkey]
  by_cases hbool : opt.type = .bool
  · simp [ArgpTable.entry, hbool]
  · simp [ArgpTable.entry, hbool]

/-! ### What the flag does -/

/-- The option takes the text and appends its value. -/
def Acceptable (opt : ConfigOption) (text : Bytes) : Prop :=
  ∃ value, opt.configAddValueFromString text true = (0, opt.push value)

theorem Acceptable.take {opt : ConfigOption} {text : Bytes} (h : Acceptable opt text) :
    (opt.parse text).isSome ∧ ∃ value, opt.take text = (opt.push value).lock := by
  obtain ⟨value, hvalue⟩ := h
  refine ⟨?_, value, ?_⟩
  · rw [ConfigOption.configAddValueFromString_eq] at hvalue
    cases hparse : opt.parse text with
    | none =>
      rw [hparse] at hvalue
      exact absurd (congrArg Prod.fst hvalue) (by decide : ¬ (-1 : Int) = 0)
    | some parsed => rfl
  · rw [ConfigOption.take, hvalue]

/-- A call of the parser that fails, or leaves every value, sets nothing. -/
theorem append_ne {conf next : RappConfig} {ref : OptionRef} {opt : ConfigOption}
    (hload : conf.load ref = some opt) (hsame : next.load ref = conf.load ref)
    (value : ConfigValue) :
    next.valuesAt ref ≠ (conf.valuesAt ref).map fun values => values ++ [value] := by
  rw [RappConfig.valuesAt, RappConfig.valuesAt, hsame, hload]
  simp

/-- A key of `argp` itself leaves every option as it is. -/
theorem load_of_reserved {call : ArgpCall} (h : call.key ∈ argpReserved) {conf next : RappConfig}
    (hrun : argpParse call conf = .ok next) (ref : OptionRef) : next.load ref = conf.load ref := by
  have hnone : conf.flagged call.key = none := by
    rw [RappConfig.flagged, if_pos (.inl h)]
  have hsame : next = conf := by
    rw [← parseCommandlineOpt_none hnone, argpParse_ok.mp hrun]
  rw [hsame]

/-- For every declared option and every text that is acceptable where its
entry names an argument, the flag sets the option exactly when it is no
boolean and the key of its entry is none that `argp` uses itself. -/
theorem setsByFlag_iff {calls : List ConfigCall} {conf : RappConfig}
    (hcalls : run ConfigCall.apply calls RappConfig.new = .ok conf)
    (hdiffer : conf.FlagsDiffer) {ref : OptionRef} {sect : ConfigSection}
    {opt : ConfigOption} (hsect : conf.sections[ref.sectionIndex]? = some sect)
    (hopt : sect.options[ref.optionIndex]? = some opt) :
    ∃ index, conf.flagTable.Has index sect.name (ref.sectionIndex + 1 : Nat) opt ref ∧
      ∀ arg, (opt.type ≠ .bool → Acceptable opt arg) →
        (SetsByFlag conf (flagName sect.name opt.name) arg ref ↔
          opt.type ≠ .bool ∧ (index + 150 : Int) ∉ argpReserved) := by
  have hnone := run_flags hcalls
  have heven : (⟨[], []⟩ : ArgpTable).Even := rfl
  obtain ⟨index, hhas⟩ := ArgpTable.generate_has 0 conf.sections heven hsect hopt
  rw [Nat.zero_add] at hhas
  refine ⟨index, hhas, fun arg hacceptable => ?_⟩
  have hload : conf.load ref = some opt := by
    rw [RappConfig.load, hsect, Option.bind_some, hopt]
  have hcall := flagCall_of_has hnone hdiffer hhas arg
  constructor
  · rintro ⟨call, next, hfound, hrun, ⟨value, hvalue⟩, -⟩
    cases hcall.symm.trans hfound
    rw [configParseCommandline_eq hnone, run_argpCalls] at hrun
    obtain ⟨middle, hparse, hlast⟩ := Outcome.bind_eq_ok.mp hrun
    cases hlast
    have hkey : (index + 150 : Int) ∉ argpReserved := by
      intro hreserved
      have hsame := load_of_reserved hreserved hparse ref
      rw [withFlags_load] at hsame
      exact append_ne hload hsame value hvalue
    refine ⟨fun hbool => ?_, hkey⟩
    have hflagged := flagged_of_has hnone hhas hkey
    rw [argpParse_ok, parseCommandlineOpt_flagged hflagged] at hparse
    simp only [hbool, if_true] at hparse
    exact absurd (congrArg Prod.fst hparse) (by decide : einval ≠ 0)
  · rintro ⟨hbool, hkey⟩
    obtain ⟨hparsed, value, htake⟩ := (hacceptable hbool).take
    have hflagged := flagged_of_has hnone hhas hkey
    have hwith := (withFlags_load conf ref).trans hload
    have hparse := argpParse_accepted hflagged hwith hparsed
    rw [if_neg hbool] at hcall
    refine ⟨_, conf.withFlags.store ref (opt.take arg), hcall, ?_, ⟨value, ?_⟩,
      fun other hother => ?_⟩
    · rw [configParseCommandline_eq hnone, run_argpCalls, CallOutcome.run_cons, hparse]
      rfl
    · rw [RappConfig.valuesAt, RappConfig.valuesAt, load_store_same hwith, hload, htake]
      rfl
    · rw [load_store_other (Ne.symm hother), withFlags_load]

theorem setsByFlag_port : ∃ conf,
    run ConfigCall.apply [.optAdd (ascii "core") (ascii "port") .int none none]
      RappConfig.new = .ok conf ∧
    conf.FlagsDiffer ∧ SetsByFlag conf (ascii "port") (ascii "80") ⟨0, 0⟩ := by
  let port : ConfigOption := .new (ascii "port") .int none none
  have hcalls : run ConfigCall.apply [.optAdd (ascii "core") (ascii "port") .int none none]
      RappConfig.new = .ok (coreConfig [port]) := rfl
  have hdiffer : (coreConfig [port]).FlagsDiffer := by
    rw [RappConfig.FlagsDiffer]
    decide +kernel
  have hacceptable : port.type ≠ .bool → Acceptable port (ascii "80") :=
    fun _ => ⟨.int 80, by decide +kernel⟩
  have hsect : (coreConfig [port]).sections[(⟨0, 0⟩ : OptionRef).sectionIndex]? =
      some ⟨ascii "core", 1, [port]⟩ := rfl
  obtain ⟨index, hhas, hsets⟩ := setsByFlag_iff hcalls hdiffer hsect rfl
  have hlength : (coreConfig [port]).flagTable.options.length = 2 := rfl
  have hindex := (List.getElem?_eq_some_iff.mp hhas.option_eq).1
  have hreserved : ∀ key ∈ argpReserved, 152 ≤ key := by decide
  refine ⟨_, hcalls, hdiffer, (hsets _ hacceptable).mpr ⟨by decide, fun hmem => ?_⟩⟩
  have hlow := hreserved _ hmem
  omega

/-- A boolean has a flag without an argument, and the parser wants one. -/
theorem not_setsByFlag_debug : ∃ conf,
    run ConfigCall.apply [.optAdd (ascii "core") (ascii "debug") .bool none none]
      RappConfig.new = .ok conf ∧
    conf.FlagsDiffer ∧ ¬ SetsByFlag conf (ascii "debug") (ascii "yes") ⟨0, 0⟩ := by
  let debug : ConfigOption := .new (ascii "debug") .bool none none
  refine ⟨coreConfig [debug], rfl, ?_, ?_⟩
  · rw [RappConfig.FlagsDiffer]
    decide +kernel
  · rintro ⟨call, next, hcall, hrun, -⟩
    have hentry : (coreConfig [debug]).withFlags.flagCall (ascii "debug") (ascii "yes") =
        some ⟨151, none⟩ := rfl
    cases hentry.symm.trans hcall
    have hfailed : (configParseCommandline (argpCalls [⟨151, none⟩])
        (coreConfig [debug])).toOption.isNone = true := by
      decide +kernel
    rw [hrun] at hfailed
    exact absurd hfailed (by simp [Outcome.toOption])

end Rapp
