import Rapp.Config
import Rapp.Lib.Outcome

/-!
# Calls on the configuration store

The operations plugins and readers use on the store, in any order: those of
`api.c` and `common.c` that name an option, and those that hold a pointer to
one. What a call can do to an option is said once, in `load_step`.
-/
namespace Rapp

open CallOutcome (Outcome run)
open ByteBlock

inductive ConfigCall where
  | optAdd (sectionName name : Bytes) (type : RappConfigParamType) (help metavar : Option Bytes)
  | optSetRangeInt (sectionName name : Bytes) (valueMin valueMax : Int)
  | optSetMultivalued (sectionName name : Bytes) (flag : Int)
  | optSetDefaultString (sectionName name value : Bytes) (allocated : Bool)
  | optSetDefaultInt (sectionName name : Bytes) (value : Int)
  | optSetDefaultBool (sectionName name : Bytes) (value : Int)
  | addValueInt (sectionName name : Bytes) (value : Int) (allocated : Bool)
  | addValueString (sectionName name : Bytes) (value : Option Bytes) (allocated : Bool)
  | addValueFromString (ref : OptionRef) (value : Bytes) (allocated : Bool)
  | removeAllValues (ref : OptionRef)
  | setNoOverride (ref : OptionRef)

/-- A call through a pointer; there are only pointers to options. -/
def RappConfig.withRef (conf : RappConfig) (ref : OptionRef)
    (use : ConfigOption → Int × ConfigOption) : Int × RappConfig :=
  match conf.load ref with
  | none => (0, conf)
  | some opt =>
    let result := use opt
    (result.1, conf.store ref result.2)

namespace ConfigCall

/-- The result and what the call leaves. -/
def step : ConfigCall → RappConfig → Int × RappConfig
  | .optAdd sectionName name type help metavar, conf =>
    conf.optAdd sectionName name type help metavar
  | .optSetRangeInt sectionName name valueMin valueMax, conf =>
    conf.optSetRangeInt sectionName name valueMin valueMax
  | .optSetMultivalued sectionName name flag, conf => conf.optSetMultivalued sectionName name flag
  | .optSetDefaultString sectionName name value allocated, conf =>
    conf.optSetDefaultString sectionName name value allocated
  | .optSetDefaultInt sectionName name value, conf => conf.optSetDefaultInt sectionName name value
  | .optSetDefaultBool sectionName name value, conf => conf.optSetDefaultBool sectionName name value
  | .addValueInt sectionName name value allocated, conf =>
    conf.addValueInt sectionName name value allocated
  | .addValueString sectionName name value allocated, conf =>
    conf.addValueString sectionName name value allocated
  | .addValueFromString ref value allocated, conf =>
    conf.withRef ref fun opt => opt.configAddValueFromString value allocated
  | .removeAllValues ref, conf => conf.withRef ref fun opt => (0, opt.removeAllValues)
  | .setNoOverride ref, conf => conf.withRef ref fun opt => (0, { opt with noOverride := true })

/-- A caller goes on whatever the result is. -/
def apply (call : ConfigCall) (conf : RappConfig) : Outcome Empty RappConfig :=
  .ok (call.step conf).2

end ConfigCall

/-- The option a name finds. -/
def RappConfig.named (conf : RappConfig) (sectionName name : Bytes) :
    Option (OptionRef × ConfigOption) :=
  (conf.getOption sectionName name).bind fun ref => (conf.load ref).map fun opt => (ref, opt)

namespace ConfigCall

/-- The option a call works on. -/
def target (conf : RappConfig) : ConfigCall → Option (OptionRef × ConfigOption)
  | .optAdd _ _ _ _ _ => none
  | .optSetRangeInt sectionName name _ _
  | .optSetMultivalued sectionName name _
  | .optSetDefaultString sectionName name _ _
  | .optSetDefaultInt sectionName name _
  | .optSetDefaultBool sectionName name _
  | .addValueInt sectionName name _ _
  | .addValueString sectionName name _ _ => conf.named sectionName name
  | .addValueFromString ref _ _ | .removeAllValues ref | .setNoOverride ref =>
    (conf.load ref).map fun opt => (ref, opt)

/-- What a call does to the option it works on. -/
def use (opt : ConfigOption) : ConfigCall → Int × ConfigOption
  | .optAdd _ _ _ _ _ => (0, opt)
  | .optSetRangeInt _ _ valueMin valueMax =>
    if opt.type ≠ .int then (-1, opt)
    else if valueMax ≤ valueMin then (-1, opt)
    else (0, { opt with valueMin := valueMin, valueMax := valueMax, rangeSet := true })
  | .optSetMultivalued _ _ flag => (0, { opt with multivalued := flag })
  | .optSetDefaultString _ _ value allocated =>
    if !allocated then (-1, { opt with defaultValue := .null })
    else (0, { opt with defaultValue := .str value, defaultSet := true })
  | .optSetDefaultInt _ _ value =>
    (0, { opt with defaultValue := .int value, defaultSet := true })
  | .optSetDefaultBool _ _ value =>
    if value < 0 ∨ 1 < value then (-1, opt)
    else (0, { opt with defaultValue := .int value, defaultSet := true })
  | .addValueInt _ _ value allocated => opt.optAddValueInt value allocated
  | .addValueString _ _ value allocated => opt.optAddValueString value allocated
  | .addValueFromString _ value allocated => opt.configAddValueFromString value allocated
  | .removeAllValues _ => (0, opt.removeAllValues)
  | .setNoOverride _ => (0, { opt with noOverride := true })

end ConfigCall

/-! ### Loads and stores -/

theorem store_load {conf : RappConfig} {ref : OptionRef} {opt : ConfigOption}
    (h : conf.load ref = some opt) : conf.store ref opt = conf := by
  obtain ⟨sect, hsect, hopt⟩ := Option.bind_eq_some_iff.mp h
  have hsame : sect.options.set ref.optionIndex opt = sect.options := by
    obtain ⟨hi, rfl⟩ := List.getElem?_eq_some_iff.mp hopt
    exact List.set_getElem_self hi
  have hmodify : (conf.sections.modify ref.sectionIndex fun sect =>
      { sect with options := sect.options.set ref.optionIndex opt }) = conf.sections := by
    refine List.ext_getElem? fun i => ?_
    rw [List.getElem?_modify]
    by_cases hi : ref.sectionIndex = i
    · subst hi
      simp [hsect, hsame]
    · simp [hi]
  rw [RappConfig.store, hmodify]

theorem load_store_same {conf : RappConfig} {ref : OptionRef} {old : ConfigOption}
    (h : conf.load ref = some old) (new : ConfigOption) :
    (conf.store ref new).load ref = some new := by
  obtain ⟨sect, hsect, hopt⟩ := Option.bind_eq_some_iff.mp h
  obtain ⟨hi, -⟩ := List.getElem?_eq_some_iff.mp hopt
  simp [RappConfig.load, RappConfig.store, hsect, hi]

theorem load_store_other {conf : RappConfig} {ref other : OptionRef} (h : ref ≠ other)
    (new : ConfigOption) : (conf.store ref new).load other = conf.load other := by
  rw [RappConfig.load, RappConfig.load, RappConfig.store, List.getElem?_modify]
  by_cases hsection : ref.sectionIndex = other.sectionIndex
  · have hoption : ref.optionIndex ≠ other.optionIndex := by
      intro hoption
      exact h (by cases ref; cases other; simp_all)
    cases conf.sections[other.sectionIndex]? <;> simp [hsection, hoption]
  · simp [hsection]

theorem named_eq_some {conf : RappConfig} {sectionName name : Bytes} {ref : OptionRef}
    {opt : ConfigOption} (h : conf.named sectionName name = some (ref, opt)) :
    conf.getOption sectionName name = some ref ∧ conf.load ref = some opt := by
  obtain ⟨found, hfound, hload⟩ := Option.bind_eq_some_iff.mp h
  obtain ⟨loaded, hloaded, heq⟩ := Option.map_eq_some_iff.mp hload
  cases heq
  exact ⟨hfound, hloaded⟩

theorem withOption_named {conf : RappConfig} {sectionName name : Bytes} {ref : OptionRef}
    {opt : ConfigOption} (h : conf.named sectionName name = some (ref, opt))
    (use : ConfigOption → Int × ConfigOption) :
    conf.withOption sectionName name use = ((use opt).1, conf.store ref (use opt).2) := by
  obtain ⟨hfound, hload⟩ := named_eq_some h
  simp only [RappConfig.withOption, hfound, hload]

theorem withOption_none {conf : RappConfig} {sectionName name : Bytes}
    (h : conf.named sectionName name = none) (use : ConfigOption → Int × ConfigOption) :
    conf.withOption sectionName name use = (1, conf) := by
  rw [RappConfig.withOption]
  cases hfound : conf.getOption sectionName name with
  | none => rfl
  | some ref =>
    cases hload : conf.load ref with
    | none => simp [hload]
    | some opt => simp [RappConfig.named, hfound, hload] at h

theorem withRef_load {conf : RappConfig} {pointer ref : OptionRef} {opt : ConfigOption}
    (h : (conf.load pointer).map (fun opt => (pointer, opt)) = some (ref, opt))
    (use : ConfigOption → Int × ConfigOption) :
    conf.withRef pointer use = ((use opt).1, conf.store ref (use opt).2) := by
  obtain ⟨loaded, hloaded, heq⟩ := Option.map_eq_some_iff.mp h
  cases heq
  simp only [RappConfig.withRef, hloaded]

theorem withRef_none {conf : RappConfig} {pointer : OptionRef}
    (h : (conf.load pointer).map (fun opt => (pointer, opt)) = none)
    (use : ConfigOption → Int × ConfigOption) : conf.withRef pointer use = (0, conf) := by
  simp only [RappConfig.withRef, Option.map_eq_none_iff.mp h]

/-! ### What a call does -/

namespace ConfigCall

theorem target_load {call : ConfigCall} {conf : RappConfig} {ref : OptionRef} {opt : ConfigOption}
    (h : call.target conf = some (ref, opt)) : conf.load ref = some opt := by
  have hpointer : ∀ pointer : OptionRef,
      (conf.load pointer).map (fun opt => (pointer, opt)) = some (ref, opt) →
      conf.load ref = some opt := by
    intro pointer h
    obtain ⟨loaded, hloaded, heq⟩ := Option.map_eq_some_iff.mp h
    cases heq
    exact hloaded
  cases call with
  | optAdd => cases h
  | addValueFromString => exact hpointer _ h
  | removeAllValues => exact hpointer _ h
  | setNoOverride => exact hpointer _ h
  | _ => exact (named_eq_some h).2

/-- A call on an option. -/
theorem step_target {call : ConfigCall} {conf : RappConfig} {ref : OptionRef} {opt : ConfigOption}
    (h : call.target conf = some (ref, opt)) :
    call.step conf = ((call.use opt).1, conf.store ref (call.use opt).2) := by
  cases call with
  | optAdd => cases h
  | optSetRangeInt => exact withOption_named h _
  | optSetMultivalued => exact withOption_named h _
  | optSetDefaultString => exact withOption_named h _
  | optSetDefaultInt => exact withOption_named h _
  | optSetDefaultBool sectionName name value =>
    simp only [step, use, RappConfig.optSetDefaultBool]
    split
    · rw [store_load (target_load h)]
    · exact withOption_named h _
  | addValueInt => exact withOption_named h _
  | addValueString => exact withOption_named h _
  | addValueFromString => exact withRef_load h _
  | removeAllValues => exact withRef_load h _
  | setNoOverride => exact withRef_load h _

/-- A call that declares nothing and finds no option. -/
theorem step_no_target {call : ConfigCall} {conf : RappConfig} (h : call.target conf = none)
    (hadd : ∀ sectionName name type help metavar,
      call ≠ .optAdd sectionName name type help metavar) : (call.step conf).2 = conf := by
  cases call with
  | optAdd => exact absurd rfl (hadd _ _ _ _ _)
  | optSetDefaultBool sectionName name value =>
    simp only [step, RappConfig.optSetDefaultBool]
    split
    · rfl
    · exact congrArg Prod.snd (withOption_none h _)
  | addValueFromString => exact congrArg Prod.snd (withRef_none h _)
  | removeAllValues => exact congrArg Prod.snd (withRef_none h _)
  | setNoOverride => exact congrArg Prod.snd (withRef_none h _)
  | _ => exact congrArg Prod.snd (withOption_none h _)

end ConfigCall

theorem load_provideSection (conf : RappConfig) (sectionName : Bytes) (ref : OptionRef) :
    (conf.provideSection sectionName).load ref = conf.load ref := by
  rw [RappConfig.provideSection]
  split
  · rfl
  · simp only [RappConfig.load, List.getElem?_append]
    split
    · rfl
    · rename_i hlength
      rw [List.getElem?_eq_none (Nat.le_of_not_lt hlength)]
      cases ref.sectionIndex - conf.sections.length <;> simp

/-- A new option behind those of a section. -/
theorem load_append {conf : RappConfig} {sectionIndex : Nat} (new : ConfigOption)
    (ref : OptionRef) :
    let added : RappConfig := { conf with
      sections := conf.sections.modify sectionIndex fun sect => { sect with
        numOpts := sect.numOpts + 1
        options := sect.options ++ [new] } }
    added.load ref = conf.load ref ∨ conf.load ref = none ∧ added.load ref = some new := by
  simp only [RappConfig.load, List.getElem?_modify]
  by_cases hsection : sectionIndex = ref.sectionIndex
  · subst hsection
    cases conf.sections[ref.sectionIndex]? with
    | none => exact .inl rfl
    | some sect =>
      simp only [Option.map_eq_map, Option.map_some, Option.bind_some, if_pos]
      rcases Nat.lt_trichotomy ref.optionIndex sect.options.length with hlt | heq | hgt
      · exact .inl (List.getElem?_append_left hlt)
      · exact .inr (by simp [heq])
      · have hlength : (sect.options ++ [new]).length ≤ ref.optionIndex := by
          rw [List.length_append, List.length_singleton]
          exact hgt
        exact .inl (by rw [List.getElem?_eq_none hlength, List.getElem?_eq_none hgt.le])
  · simp [hsection]

/-- A declaration adds one option and changes no other. -/
theorem load_optAdd (conf : RappConfig) (sectionName name : Bytes) (type : RappConfigParamType)
    (help metavar : Option Bytes) (ref : OptionRef) :
    (conf.optAdd sectionName name type help metavar).2.load ref = conf.load ref ∨
      conf.load ref = none ∧ (conf.optAdd sectionName name type help metavar).2.load ref =
        some (ConfigOption.new name type help metavar) := by
  rw [RappConfig.optAdd]
  split
  · exact .inl rfl
  split
  · exact .inl rfl
  simp only
  rw [← load_provideSection conf sectionName ref]
  cases (conf.provideSection sectionName).sectionGet sectionName with
  | none => exact .inl rfl
  | some sectionIndex => exact load_append _ ref

namespace ConfigCall

/-- All a call can do to an option: nothing, declare it, or use it. -/
theorem load_step {call : ConfigCall} {conf : RappConfig} {ref : OptionRef} {opt : ConfigOption}
    (h : (call.step conf).2.load ref = some opt) :
    conf.load ref = some opt ∨
    (conf.load ref = none ∧ ∃ name type help metavar,
      opt = ConfigOption.new name type help metavar) ∨
    ∃ old, call.target conf = some (ref, old) ∧ opt = (call.use old).2 := by
  cases htarget : call.target conf with
  | none =>
    cases call with
    | optAdd sectionName name type help metavar =>
      rcases load_optAdd conf sectionName name type help metavar ref with hsame | ⟨hnone, hnew⟩
      · exact .inl (hsame ▸ h)
      · exact .inr (.inl ⟨hnone, name, type, help, metavar, Option.some.inj (h.symm.trans hnew)⟩)
    | _ =>
      rw [step_no_target htarget (by simp)] at h
      exact .inl h
  | some found =>
    obtain ⟨pointer, old⟩ := found
    rw [step_target htarget] at h
    by_cases hsame : pointer = ref
    · subst hsame
      rw [load_store_same (target_load htarget)] at h
      exact .inr (.inr ⟨old, rfl, (Option.some.inj h).symm⟩)
    · rw [load_store_other hsame] at h
      exact .inl h

end ConfigCall

/-! ### Values -/

/-- The member of the union that options of this type use. -/
def ConfigValue.Fits (type : RappConfigParamType) : ConfigValue → Prop
  | .int _ => type ≠ .string
  | .str _ => type = .string
  | .null => False

namespace ConfigOption

/-- The value a text stands for. -/
def parse (opt : ConfigOption) (text : Bytes) : Option ConfigValue :=
  match opt.type with
  | .string => some (.str text)
  | .bool => if regexec regexBool text then some (.int 1) else none
  | .int =>
    let number := strtol text
    if number.erange ∨ number.endptr ≠ [] ∨ number.val < opt.valueMin ∨ opt.valueMax < number.val
    then none
    else some (.int number.val)

/-- There is room for the value, and it is in the range. -/
def admits (opt : ConfigOption) (value : ConfigValue) : Bool :=
  (opt.multivalued ≠ 0 || opt.numValues ≤ 0) &&
    match value with
    | .int number =>
      !opt.rangeSet || (decide (opt.valueMin ≤ number) && decide (number ≤ opt.valueMax))
    | .str _ | .null => true

def push (opt : ConfigOption) (value : ConfigValue) : ConfigOption :=
  { opt with numValues := opt.numValues + 1, values := opt.values ++ [value] }

/-- Offer a value to the option. -/
def offer (opt : ConfigOption) (value : ConfigValue) : ConfigOption :=
  if opt.admits value then opt.push value else opt

theorem admits_int (opt : ConfigOption) (value : Int) :
    opt.admits (.int value) = true ↔ ¬ (opt.multivalued = 0 ∧ 0 < opt.numValues) ∧
      ¬ (opt.rangeSet = true ∧ (value < opt.valueMin ∨ opt.valueMax < value)) := by
  cases hrange : opt.rangeSet <;> simp [admits, hrange] <;> omega

theorem admits_str (opt : ConfigOption) (text : Bytes) :
    opt.admits (.str text) = true ↔ ¬ (opt.multivalued = 0 ∧ 0 < opt.numValues) := by
  simp [admits]
  omega

/-- A value is added when its type fits and the option admits it. -/
theorem optAddValueInt_eq (opt : ConfigOption) (value : Int) (allocated : Bool) :
    opt.optAddValueInt value allocated =
      if opt.type ≠ .string ∧ opt.admits (.int value) = true ∧ allocated = true then
        (0, opt.push (.int value))
      else (-1, opt) := by
  have htype : (opt.type ≠ .bool ∧ opt.type ≠ .int) ↔ opt.type = .string := by
    cases opt.type <;> simp
  have hadmits := admits_int opt value
  rw [optAddValueInt]
  by_cases hstring : opt.type = .string
  · rw [if_pos (htype.mpr hstring), if_neg fun h => h.1 hstring]
  rw [if_neg (mt htype.mp hstring)]
  by_cases hroom : opt.multivalued = 0 ∧ 0 < opt.numValues
  · rw [if_pos hroom, if_neg fun h => (hadmits.mp h.2.1).1 hroom]
  rw [if_neg hroom]
  by_cases hrange : opt.rangeSet = true ∧ (value < opt.valueMin ∨ opt.valueMax < value)
  · rw [if_pos hrange, if_neg fun h => (hadmits.mp h.2.1).2 hrange]
  rw [if_neg hrange]
  cases allocated with
  | true => simp [hstring, hadmits.mpr ⟨hroom, hrange⟩, push]
  | false => simp

theorem optAddValueString_eq (opt : ConfigOption) (text : Bytes) (allocated : Bool) :
    opt.optAddValueString (some text) allocated =
      if opt.type = .string ∧ opt.admits (.str text) = true ∧ allocated = true then
        (0, opt.push (.str text))
      else (-1, opt) := by
  have hadmits := admits_str opt text
  rw [optAddValueString]
  by_cases hroom : opt.multivalued = 0 ∧ 0 < opt.numValues
  · rw [if_pos hroom, if_neg fun h => hadmits.mp h.2.1 hroom]
  rw [if_neg hroom]
  by_cases hstring : opt.type = .string
  · cases allocated with
    | true => simp [hstring, hadmits.mpr hroom, push]
    | false => simp [hstring]
  · simp [hstring]

theorem optAddValueInt_snd (opt : ConfigOption) (value : Int) (allocated : Bool)
    (h : opt.type ≠ .string) : (opt.optAddValueInt value allocated).2 =
      if allocated then opt.offer (.int value) else opt := by
  rw [optAddValueInt_eq, offer]
  cases opt.admits (.int value) <;> cases allocated <;> simp [h]

theorem optAddValueString_snd (opt : ConfigOption) (text : Bytes) (allocated : Bool)
    (h : opt.type = .string) : (opt.optAddValueString (some text) allocated).2 =
      if allocated then opt.offer (.str text) else opt := by
  rw [optAddValueString_eq, offer]
  cases opt.admits (.str text) <;> cases allocated <;> simp [h]

/-- A text is refused, or the value it stands for is offered. -/
theorem configAddValueFromString_eq (opt : ConfigOption) (text : Bytes) (allocated : Bool) :
    opt.configAddValueFromString text allocated =
      match opt.parse text with
      | none => (-1, opt)
      | some value => (0, if allocated then opt.offer value else opt) := by
  cases htype : opt.type with
  | string =>
    simp only [configAddValueFromString, parse, htype]
    rw [optAddValueString_snd opt text allocated htype]
  | bool =>
    have hne : opt.type ≠ .string := by simp [htype]
    simp only [configAddValueFromString, parse, htype, optAddValueInt_snd opt _ allocated hne]
    cases regexec regexBool text <;> rfl
  | int =>
    have hne : opt.type ≠ .string := by simp [htype]
    simp only [configAddValueFromString, parse, htype, optAddValueInt_snd opt _ allocated hne]
    split <;> rfl

theorem parse_fits {opt : ConfigOption} {text : Bytes} {value : ConfigValue}
    (h : opt.parse text = some value) : value.Fits opt.type := by
  unfold parse at h
  split at h
  · cases h
    assumption
  · split at h
    · cases h
      simp_all [ConfigValue.Fits]
    · cases h
  · simp only at h
    split at h
    · cases h
    · cases h
      simp_all [ConfigValue.Fits]

end ConfigOption

namespace ConfigCall

/-- The value a call offers to the option. -/
def offers (opt : ConfigOption) : ConfigCall → Option ConfigValue
  | .addValueInt _ _ value allocated =>
    if opt.type ≠ .string ∧ allocated = true then some (.int value) else none
  | .addValueString _ _ value allocated =>
    if opt.type = .string ∧ allocated = true then value.map .str else none
  | .addValueFromString _ text allocated => if allocated then opt.parse text else none
  | _ => none

/-- The calls that add values. -/
def Adds : ConfigCall → Prop
  | .addValueInt _ _ _ _ | .addValueString _ _ _ _ | .addValueFromString _ _ _ => True
  | _ => False

theorem use_adds {call : ConfigCall} (h : call.Adds) (opt : ConfigOption) :
    (call.use opt).2 = match call.offers opt with
      | none => opt
      | some value => opt.offer value := by
  cases call with
  | addValueInt sectionName name value allocated =>
    by_cases hstring : opt.type = .string
    · simp [use, offers, ConfigOption.optAddValueInt_eq, hstring]
    · simp only [use, offers, ConfigOption.optAddValueInt_snd opt value allocated hstring]
      cases allocated <;> simp [hstring]
  | addValueString sectionName name value allocated =>
    cases value with
    | none =>
      have hnone : (opt.optAddValueString none allocated).2 = opt := by
        rw [ConfigOption.optAddValueString]
        split <;> rfl
      simp [use, offers, hnone]
    | some text =>
      by_cases hstring : opt.type = .string
      · simp only [use, offers, ConfigOption.optAddValueString_snd opt text allocated hstring]
        cases allocated <;> simp [hstring]
      · simp [use, offers, ConfigOption.optAddValueString_eq, hstring]
  | addValueFromString ref text allocated =>
    simp only [use, offers, ConfigOption.configAddValueFromString_eq]
    cases opt.parse text <;> cases allocated <;> rfl
  | _ => exact h.elim

/-- A call that adds keeps what an offered value keeps. -/
theorem use_of_adds {P : ConfigOption → Prop} {call : ConfigCall} (hadds : call.Adds)
    {opt : ConfigOption} (h : P opt)
    (hoffer : ∀ value, call.offers opt = some value → P (opt.offer value)) :
    P (call.use opt).2 := by
  rw [use_adds hadds]
  cases hoffers : call.offers opt with
  | none => exact h
  | some value => exact hoffer value hoffers

theorem offers_fits {call : ConfigCall} {opt : ConfigOption} {value : ConfigValue}
    (h : call.offers opt = some value) : value.Fits opt.type := by
  cases call with
  | addValueInt =>
    simp only [offers] at h
    split at h
    · cases h
      rename_i hfits
      exact hfits.1
    · cases h
  | addValueString =>
    simp only [offers] at h
    split at h
    · obtain ⟨text, -, rfl⟩ := Option.map_eq_some_iff.mp h
      rename_i hfits
      exact hfits.1
    · cases h
  | addValueFromString =>
    simp only [offers] at h
    split at h
    · exact ConfigOption.parse_fits h
    · cases h
  | _ => cases h

end ConfigCall

/-! ### Invariants of the options -/

/-- A property of every option of the store. -/
def RappConfig.AllOptions (P : ConfigOption → Prop) (conf : RappConfig) : Prop :=
  ∀ ref opt, conf.load ref = some opt → P opt

theorem allOptions_new (P : ConfigOption → Prop) : RappConfig.new.AllOptions P := by
  intro ref opt h
  simp [RappConfig.load, RappConfig.new] at h

/-- The step rule: a property of new options that the call keeps on the option it works on. -/
theorem RappConfig.AllOptions.step {P : ConfigOption → Prop} {conf : RappConfig}
    (h : conf.AllOptions P)
    (start : ∀ name type help metavar, P (.new name type help metavar)) {call : ConfigCall}
    (kept : ∀ ref opt, call.target conf = some (ref, opt) → P opt → P (call.use opt).2) :
    (call.step conf).2.AllOptions P := by
  intro ref opt hload
  rcases ConfigCall.load_step hload with hsame | ⟨-, name, type, help, metavar, rfl⟩ |
    ⟨old, htarget, rfl⟩
  · exact h ref opt hsame
  · exact start name type help metavar
  · exact kept ref old htarget (h ref old (ConfigCall.target_load htarget))

/-! ### What holds of every option -/

structure Sane (opt : ConfigOption) : Prop where
  counted : opt.numValues = opt.values.length
  truth : opt.type = .bool → opt.valueMin ≤ 1 ∧ 1 ≤ opt.valueMax

theorem sane_new (name : Bytes) (type : RappConfigParamType) (help metavar : Option Bytes) :
    Sane (.new name type help metavar) := by
  refine ⟨rfl, ?_⟩
  rintro rfl
  exact ⟨Int.zero_le_ofNat 1, Int.le_refl 1⟩

theorem Sane.offer {opt : ConfigOption} (h : Sane opt) (value : ConfigValue) :
    Sane (opt.offer value) := by
  rw [ConfigOption.offer]
  split
  · refine ⟨?_, h.truth⟩
    simp [ConfigOption.push, h.counted]
  · exact h

theorem Sane.use {opt : ConfigOption} (h : Sane opt) (call : ConfigCall) :
    Sane (call.use opt).2 := by
  have hadds : call.Adds → Sane (call.use opt).2 := fun hadds =>
    ConfigCall.use_of_adds hadds h fun value _ => h.offer value
  cases call with
  | optAdd => exact h
  | optSetRangeInt sectionName name valueMin valueMax =>
    simp only [ConfigCall.use]
    split
    · exact h
    split
    · exact h
    · rename_i hint _
      refine ⟨h.counted, fun hbool => ?_⟩
      rw [not_not.mp hint] at hbool
      cases hbool
  | optSetDefaultString sectionName name value allocated =>
    cases allocated <;> exact ⟨h.counted, h.truth⟩
  | optSetDefaultBool sectionName name value =>
    simp only [ConfigCall.use]
    split
    · exact h
    · exact ⟨h.counted, h.truth⟩
  | addValueInt => exact hadds trivial
  | addValueString => exact hadds trivial
  | addValueFromString => exact hadds trivial
  | removeAllValues =>
    refine ⟨?_, h.truth⟩
    simp [ConfigCall.use, ConfigOption.removeAllValues, h.counted]
  | _ => exact ⟨h.counted, h.truth⟩

theorem sane_run {calls : List ConfigCall} {conf : RappConfig}
    (h : run ConfigCall.apply calls RappConfig.new = .ok conf) : conf.AllOptions Sane :=
  CallOutcome.run_history _ (I := fun _ conf => conf.AllOptions Sane) (allOptions_new Sane)
    (fun _ call before next hbefore hstep => by
      cases hstep
      exact hbefore.step sane_new fun ref opt _ hopt => hopt.use call) h

end Rapp
