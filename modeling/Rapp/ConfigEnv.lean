import Rapp.ConfigCommandline

/-!
# The environment

`config/env.c`: every option that is not locked is given the value of its
environment variable. Allocations succeed.
-/
namespace Rapp

open ByteBlock

/-- The section is left out of the name when it is the core section. -/
def getEnvName (sectionName name : Bytes) : Bytes :=
  uppercase (ascii "RAPP_" ++
    ((if sectionName = rappConfigSection then [] else sectionName ++ ascii "_") ++ name))

/-- The tokens of `strtok_r` between colons. -/
def colonTokens (value : Bytes) : List Bytes := (value.splitOn 58).filter fun token => token ≠ []

namespace ConfigOption

/-- The results of the tokens are not looked at. -/
def addValueFromEnvList (opt : ConfigOption) (value : Bytes) : Int × ConfigOption :=
  (0, opt.offerAll (colonTokens value))

def getEnvForOpt (getenv : Bytes → Option Bytes) (sectionName : Bytes) (opt : ConfigOption) :
    Int × ConfigOption :=
  if opt.noOverride then (0, opt)
  else match getenv (getEnvName sectionName opt.name) with
    | none => (0, opt)
    | some value =>
      let result :=
        if 58 ∈ value ∧ opt.multivalued = 1 then opt.addValueFromEnvList value
        else opt.configAddValueFromString value true
      if result.1 = 0 then (result.1, result.2.lock) else result

end ConfigOption

/-- The results of the options are only logged. -/
def configReadEnv (getenv : Bytes → Option Bytes) (conf : RappConfig) : Int × RappConfig :=
  (0, { conf with sections := conf.sections.map fun sect =>
    { sect with options := sect.options.map fun opt => (opt.getEnvForOpt getenv sect.name).2 } })

/-! ### Lists of values -/

/-- Pieces joined with colons; empty ones stand at leading, trailing and repeated colons. -/
theorem colonTokens_joined {pieces : List Bytes} (hne : pieces ≠ [])
    (h : ∀ piece ∈ pieces, 58 ∉ piece) :
    colonTokens ([58].intercalate pieces) = pieces.filter fun piece => piece ≠ [] := by
  rw [colonTokens, List.splitOn_intercalate 58 h hne]

theorem colonTokens_single {text : Bytes} (hne : text ≠ []) (h : 58 ∉ text) :
    colonTokens text = [text] := by
  rw [colonTokens, List.splitOn_eq_singleton h]
  simp [hne]

/-! ### What the variables leave -/

namespace ConfigOption

/-- The texts an option takes from the value of its variable. -/
def envTexts (opt : ConfigOption) (value : Option Bytes) : List Bytes :=
  match value with
  | none => []
  | some value => if 58 ∈ value ∧ opt.multivalued = 1 then colonTokens value else [value]

/-- The option is locked: by every list, by a single text when it is accepted. -/
def envLocks (opt : ConfigOption) (value : Option Bytes) : Bool :=
  match value with
  | none => false
  | some value => decide (58 ∈ value ∧ opt.multivalued = 1) || (opt.parse value).isSome

end ConfigOption

theorem getEnvForOpt_locked {opt : ConfigOption} (h : opt.noOverride = true)
    (getenv : Bytes → Option Bytes) (sectionName : Bytes) :
    (opt.getEnvForOpt getenv sectionName).2 = opt := by
  rw [ConfigOption.getEnvForOpt, if_pos h]

theorem getEnvForOpt_name (getenv : Bytes → Option Bytes) (sectionName : Bytes)
    (opt : ConfigOption) : (opt.getEnvForOpt getenv sectionName).2.name = opt.name := by
  rw [ConfigOption.getEnvForOpt]
  split
  · rfl
  split
  · rfl
  · rename_i value _
    have hlist : (opt.addValueFromEnvList value).2.name = opt.name :=
      offerAll_name opt (colonTokens value)
    have hsingle := addFromString_name opt value
    simp only
    split_ifs
    · exact hlist
    · exact hlist
    · exact hsingle
    · exact hsingle

/-- An option without values that is not locked. -/
theorem getEnvForOpt_open {opt : ConfigOption} (h : Sane opt) (hempty : opt.values = [])
    (hopen : opt.noOverride = false) (getenv : Bytes → Option Bytes) (sectionName : Bytes) :
    let value := getenv (getEnvName sectionName opt.name)
    (opt.getEnvForOpt getenv sectionName).2 =
      if opt.envLocks value then
        (opt.withValues (opt.acceptedValues (opt.envTexts value))).lock
      else opt := by
  intro value
  rw [ConfigOption.getEnvForOpt, hopen, if_neg Bool.false_ne_true]
  change (match value with | none => _ | some value => _ : Int × ConfigOption).2 = _
  cases value with
  | none => rfl
  | some value =>
    simp only [ConfigOption.envLocks, ConfigOption.envTexts]
    by_cases hlist : 58 ∈ value ∧ opt.multivalued = 1
    · simp only [if_pos hlist, ConfigOption.addValueFromEnvList, offerAll_eq h hempty]
      simp [hlist]
    · have hadded : (opt.configAddValueFromString value true).2 = _ := offerAll_eq h hempty [value]
      have hresult := opt.configAddValueFromString_eq value true
      simp only [if_neg hlist, decide_eq_false hlist, Bool.false_or]
      cases hparse : opt.parse value with
      | none =>
        rw [hparse] at hresult
        rw [hresult]
        rfl
      | some parsed =>
        have hzero : (opt.configAddValueFromString value true).1 = 0 := by rw [hresult, hparse]
        rw [if_pos hzero, hadded]
        rfl

theorem Sane.getEnvForOpt {opt : ConfigOption} (h : Sane opt) (getenv : Bytes → Option Bytes)
    (sectionName : Bytes) : Sane (opt.getEnvForOpt getenv sectionName).2 := by
  rw [ConfigOption.getEnvForOpt]
  split
  · exact h
  split
  · exact h
  · rename_i value _
    have hlist : Sane (opt.addValueFromEnvList value).2 := h.offerAll (colonTokens value)
    have hsingle := h.addFromString value
    simp only
    split_ifs
    · exact hlist.lock
    · exact hlist
    · exact hsingle.lock
    · exact hsingle

theorem outline_configReadEnv (getenv : Bytes → Option Bytes) (conf : RappConfig) :
    (configReadEnv getenv conf).2.outline = conf.outline := by
  rw [RappConfig.outline, RappConfig.outline, configReadEnv, List.map_map]
  congr 1
  funext sect
  simp only [Function.comp_apply, List.map_map]
  congr 2
  funext opt
  exact getEnvForOpt_name getenv sect.name opt

theorem load_configReadEnv (getenv : Bytes → Option Bytes) (conf : RappConfig) (ref : OptionRef) :
    (configReadEnv getenv conf).2.load ref =
      (conf.sections[ref.sectionIndex]?).bind fun sect =>
        (sect.options[ref.optionIndex]?).map fun opt =>
          (opt.getEnvForOpt getenv sect.name).2 := by
  rw [RappConfig.load, configReadEnv, List.getElem?_map]
  cases conf.sections[ref.sectionIndex]? with
  | none => rfl
  | some sect => exact List.getElem?_map ..

theorem sane_configReadEnv {conf : RappConfig} (h : conf.AllOptions Sane)
    (getenv : Bytes → Option Bytes) : (configReadEnv getenv conf).2.AllOptions Sane := by
  intro ref opt hload
  rw [load_configReadEnv] at hload
  obtain ⟨sect, hsect, hopt⟩ := Option.bind_eq_some_iff.mp hload
  obtain ⟨old, hold, rfl⟩ := Option.map_eq_some_iff.mp hopt
  have hsane : Sane old := h ref old (by rw [RappConfig.load, hsect, Option.bind_some, hold])
  exact hsane.getEnvForOpt getenv sect.name

/-- An option that is found by names is in the section of that name. -/
theorem named_section {conf : RappConfig} {sectionName name : Bytes} {ref : OptionRef}
    {opt : ConfigOption} (h : conf.named sectionName name = some (ref, opt)) :
    ∃ sect, conf.sections[ref.sectionIndex]? = some sect ∧ sect.name = sectionName ∧
      sect.options[ref.optionIndex]? = some opt ∧ opt.name = name := by
  obtain ⟨hfound, hload⟩ := named_eq_some h
  obtain ⟨sectionIndex, hget, hfrom⟩ := Option.bind_eq_some_iff.mp hfound
  obtain ⟨sect, hsect, hoption⟩ := Option.bind_eq_some_iff.mp hfrom
  obtain ⟨optionIndex, hfind, rfl⟩ := Option.map_eq_some_iff.mp hoption
  obtain ⟨hi, hname, -⟩ := List.findIdx?_eq_some_iff_getElem.mp hget
  obtain ⟨hj, hoptionName, -⟩ := List.findIdx?_eq_some_iff_getElem.mp hfind
  have hopt : sect.options[optionIndex]? = some opt := by
    simpa only [RappConfig.load, hsect, Option.bind_some] using hload
  have hsame := (List.getElem?_eq_some_iff.mp hsect).2
  have hsameOption := (List.getElem?_eq_some_iff.mp hopt).2
  rw [hsame] at hname
  rw [hsameOption] at hoptionName
  exact ⟨sect, hsect, of_decide_eq_true hname, hopt, of_decide_eq_true hoptionName⟩

/-- The option of a name behind the environment. -/
theorem load_configReadEnv_named {conf : RappConfig} {sectionName name : Bytes}
    {ref : OptionRef} {opt : ConfigOption} (h : conf.named sectionName name = some (ref, opt))
    (getenv : Bytes → Option Bytes) : (configReadEnv getenv conf).2.load ref =
      some (opt.getEnvForOpt getenv sectionName).2 := by
  obtain ⟨sect, hsect, rfl, hopt, -⟩ := named_section h
  rw [load_configReadEnv, hsect, Option.bind_some, hopt]
  rfl

end Rapp
