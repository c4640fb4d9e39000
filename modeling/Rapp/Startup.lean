import Rapp.ConfigFiles
import Rapp.ResponseMessage

/-!
# Start of the server

`main` from the declarations of its own options to the address and the port it
listens on. The command line and the environment decide which directories are
read; the files they stand for can neither add nor take away one.
-/
namespace Rapp

open CallOutcome (Outcome run)
open ByteBlock

/-- The calls of `main` behind those of the container. -/
def coreDeclarations : List ConfigCall :=
  [.optAdd (ascii "core") (ascii "address") .string (some (ascii "Address to listen to")) none,
    .optAdd (ascii "core") (ascii "port") .int (some (ascii "Port")) none,
    .optAdd (ascii "core") (ascii "config") .string (some (ascii "Path to yaml config"))
      (some (ascii "FILE")),
    .optAdd (ascii "core") (ascii "confd") .string
      (some (ascii "Path to directory to scan for config")) (some (ascii "DIR")),
    .optSetRangeInt (ascii "core") (ascii "port") 0 65535,
    .optSetDefaultString (ascii "core") (ascii "address") (ascii "127.0.0.1") true,
    .optSetDefaultInt (ascii "core") (ascii "port") 8080,
    .optSetMultivalued (ascii "core") (ascii "config") 1,
    .optSetMultivalued (ascii "core") (ascii "confd") 1]

/-- The loops over the values of `core.confd` and `core.config`. The count is
taken once, each value when it is used. -/
def Startup.eachValue (name : Bytes) (use : Bytes → Startup → StartupResult) (s : Startup) :
    StartupResult :=
  match s.conf.getNumValues (ascii "core") name with
  | none => .undefined .noCount
  | some num =>
    run (fun (i : Nat) (s : Startup) =>
      match s.conf.getNthString (ascii "core") name i true with
      | some (.str confpath) => use confpath s
      | _ => .failed s) (List.range num.toNat) s

/-- `main` from `config_parse_commandline` to the last `config_parse`; a failure
is `exit(1)`. -/
def Files.readConfiguration (files : Files) (calls : List ArgpCall) (getenv : Bytes → Option Bytes)
    (conf : RappConfig) : StartupResult :=
  match configParseCommandline calls conf with
  | .ok conf =>
    let environed := configReadEnv getenv conf
    if environed.1 ≠ 0 then .failed ⟨environed.2, []⟩
    else
      (Startup.eachValue (ascii "confd")
        (fun confpath => files.configScanDirectory confpath (ascii ".yaml"))
        ⟨environed.2, []⟩).bind (Startup.eachValue (ascii "config") files.configParse)
  | .failed conf => .failed ⟨conf, []⟩
  | .undefined why => why.elim

/-! ### The options of the server -/

/-- The store with a last section for the server. -/
def RappConfig.withCore (conf : RappConfig) (options : List ConfigOption) : RappConfig :=
  { conf with sections := conf.sections ++ [⟨ascii "core", options.length, options⟩] }

def coreAddressOption : ConfigOption :=
  { ConfigOption.new (ascii "address") .string (some (ascii "Address to listen to")) none with
    defaultValue := .str (ascii "127.0.0.1")
    defaultSet := true }

def corePortOption : ConfigOption :=
  { ConfigOption.new (ascii "port") .int (some (ascii "Port")) none with
    valueMin := 0
    valueMax := 65535
    rangeSet := true
    defaultValue := .int 8080
    defaultSet := true }

def coreConfigOption : ConfigOption :=
  { ConfigOption.new (ascii "config") .string (some (ascii "Path to yaml config"))
      (some (ascii "FILE")) with multivalued := 1 }

def coreConfdOption : ConfigOption :=
  { ConfigOption.new (ascii "confd") .string
      (some (ascii "Path to directory to scan for config")) (some (ascii "DIR")) with
    multivalued := 1 }

def coreOptions : List ConfigOption :=
  [coreAddressOption, corePortOption, coreConfigOption, coreConfdOption]

section Core

variable {conf : RappConfig} (h : conf.sectionGet (ascii "core") = none)
include h

theorem sectionGet_withCore (options : List ConfigOption) :
    (conf.withCore options).sectionGet (ascii "core") = some conf.sections.length := by
  rw [RappConfig.sectionGet] at h
  rw [RappConfig.sectionGet, RappConfig.withCore, List.findIdx?_append, h]
  simp

theorem named_withCore (options : List ConfigOption) (name : Bytes) :
    (conf.withCore options).named (ascii "core") name =
      (options.findIdx? fun opt => opt.name = name).bind fun i =>
        options[i]?.map fun opt => (⟨conf.sections.length, i⟩, opt) := by
  have hsect : (conf.withCore options).sections[conf.sections.length]? =
      some ⟨ascii "core", options.length, options⟩ := by simp [RappConfig.withCore]
  rw [RappConfig.named, RappConfig.getOption, sectionGet_withCore h, Option.bind_some,
    RappConfig.getOptionFromSect, hsect, Option.bind_some, ConfigSection.findOption]
  cases options.findIdx? fun opt => opt.name = name with
  | none => rfl
  | some i => simp [RappConfig.load, hsect]

omit h in
theorem modify_last {α : Type} (front : List α) (last : α) (f : α → α) :
    (front ++ [last]).modify front.length f = front ++ [f last] := by
  induction front with
  | nil => rfl
  | cons first front ih => exact congrArg (first :: ·) ih

omit h in
theorem store_withCore (options : List ConfigOption) (i : Nat) (opt : ConfigOption) :
    (conf.withCore options).store ⟨conf.sections.length, i⟩ opt =
      conf.withCore (options.set i opt) := by
  rw [RappConfig.store, RappConfig.withCore, RappConfig.withCore, modify_last, List.length_set]

theorem optAdd_withCore (options : List ConfigOption) {name : Bytes}
    (hname : validateName name = true) (type : RappConfigParamType) (help metavar : Option Bytes) :
    ((conf.withCore options).optAdd (ascii "core") name type help metavar).2 =
      conf.withCore (options ++ [.new name type help metavar]) := by
  have hcore : validateName (ascii "core") = true := by decide
  have hprovided : (conf.withCore options).provideSection (ascii "core") =
      conf.withCore options := by
    rw [RappConfig.provideSection, sectionGet_withCore h]
    rfl
  rw [RappConfig.optAdd, hname, hcore]
  simp only [Bool.not_true, Bool.false_eq_true, if_false, hprovided, sectionGet_withCore h]
  rw [RappConfig.withCore, RappConfig.withCore, modify_last, List.length_append]
  rfl

/-- The first declaration makes the section. -/
theorem optAdd_core {name : Bytes} (hname : validateName name = true)
    (type : RappConfigParamType) (help metavar : Option Bytes) :
    (conf.optAdd (ascii "core") name type help metavar).2 =
      conf.withCore [.new name type help metavar] := by
  have hcore : validateName (ascii "core") = true := by decide
  have hprovided : conf.provideSection (ascii "core") = conf.withCore [] := by
    rw [RappConfig.provideSection, h]
    rfl
  have hagain : (conf.withCore []).provideSection (ascii "core") = conf.withCore [] := by
    rw [RappConfig.provideSection, sectionGet_withCore h]
    rfl
  rw [← List.nil_append [ConfigOption.new name type help metavar], ← optAdd_withCore h [] hname,
    RappConfig.optAdd, RappConfig.optAdd, hname, hcore]
  simp only [Bool.not_true, Bool.false_eq_true, if_false, hprovided, hagain]

theorem withOption_withCore {options : List ConfigOption} {name : Bytes} {i : Nat}
    {opt : ConfigOption} (hindex : (options.findIdx? fun opt => opt.name = name) = some i)
    (hopt : options[i]? = some opt) (use : ConfigOption → Int × ConfigOption) :
    ((conf.withCore options).withOption (ascii "core") name use).2 =
      conf.withCore (options.set i (use opt).2) := by
  have hnamed : (conf.withCore options).named (ascii "core") name =
      some (⟨conf.sections.length, i⟩, opt) := by
    rw [named_withCore h, hindex, Option.bind_some, hopt]
    rfl
  rw [withOption_named hnamed]
  exact store_withCore options i (use opt).2

theorem run_coreDeclarations :
    run ConfigCall.apply coreDeclarations conf = .ok (conf.withCore coreOptions) := by
  simp only [coreDeclarations, CallOutcome.run_cons, CallOutcome.run_nil, ConfigCall.apply,
    Outcome.bind_ok, ConfigCall.step]
  rw [optAdd_core h (by decide), optAdd_withCore h _ (by decide),
    optAdd_withCore h _ (by decide), optAdd_withCore h _ (by decide)]
  simp only [RappConfig.optSetRangeInt, RappConfig.optSetDefaultString,
    RappConfig.optSetDefaultInt, RappConfig.optSetMultivalued]
  rw [withOption_withCore h (i := 1) rfl rfl, withOption_withCore h (i := 0) rfl rfl,
    withOption_withCore h (i := 1) rfl rfl, withOption_withCore h (i := 2) rfl rfl,
    withOption_withCore h (i := 3) rfl rfl]
  rfl

end Core

/-! ### The options of the container -/

/-- The call declares nothing in the section of the server. -/
def ConfigCall.Elsewhere : ConfigCall → Prop
  | .optAdd sectionName _ _ _ _ => sectionName ≠ ascii "core"
  | _ => True

theorem sectionGet_optAdd {conf : RappConfig} {sectionName other : Bytes}
    (hne : sectionName ≠ other) (h : conf.sectionGet other = none) (name : Bytes)
    (type : RappConfigParamType) (help metavar : Option Bytes) :
    (conf.optAdd sectionName name type help metavar).2.sectionGet other = none := by
  rw [sectionGet_eq_none_iff] at h ⊢
  rw [mem_optAdd]
  rintro (hold | ⟨-, rfl⟩)
  · exact h hold
  · exact hne rfl

theorem sectionGet_elsewhere {calls : List ConfigCall} (h : ∀ call ∈ calls, call.Elsewhere)
    {conf : RappConfig} (hcalls : run ConfigCall.apply calls RappConfig.new = .ok conf) :
    conf.sectionGet (ascii "core") = none := by
  induction calls using List.reverseRecOn generalizing conf with
  | nil =>
    obtain rfl := Outcome.ok.inj hcalls
    rfl
  | append_singleton calls call ih =>
    rw [CallOutcome.run_concat] at hcalls
    obtain ⟨before, hbefore, hstep⟩ := Outcome.bind_eq_ok.mp hcalls
    cases hstep
    have hearlier := ih (fun other hother => h other (by simp [hother])) hbefore
    have hcall := h call (by simp)
    cases call with
    | optAdd => exact sectionGet_optAdd hcall hearlier _ _ _ _
    | _ => exact (sectionGet_congr (outline_step (by simp)) _).trans hearlier

/-- The store `main` parses the command line into. -/
structure Declared (plugin : List ConfigCall) (conf : RappConfig) : Prop where
  declares : ∀ call ∈ plugin, call.Declares
  elsewhere : ∀ call ∈ plugin, call.Elsewhere
  run_eq : run ConfigCall.apply (plugin ++ coreDeclarations) RappConfig.new = .ok conf

section Declared

variable {plugin : List ConfigCall} {conf : RappConfig} (h : Declared plugin conf)
include h

theorem Declared.fresh : conf.AllOptions Fresh := by
  refine fresh_run (fun call hmem => ?_) h.run_eq
  rcases List.mem_append.mp hmem with hplugin | hcore
  · exact h.declares call hplugin
  · simp only [coreDeclarations, List.mem_cons, List.not_mem_nil, or_false] at hcore
    rcases hcore with rfl | rfl | rfl | rfl | rfl | rfl | rfl | rfl | rfl <;> trivial

theorem Declared.named : ∃ sectionIndex,
    conf.named (ascii "core") (ascii "address") = some (⟨sectionIndex, 0⟩, coreAddressOption) ∧
    conf.named (ascii "core") (ascii "port") = some (⟨sectionIndex, 1⟩, corePortOption) ∧
    conf.named (ascii "core") (ascii "config") = some (⟨sectionIndex, 2⟩, coreConfigOption) ∧
    conf.named (ascii "core") (ascii "confd") = some (⟨sectionIndex, 3⟩, coreConfdOption) := by
  obtain ⟨before, hbefore, hcore⟩ := CallOutcome.run_front _ h.run_eq
  have hnone := sectionGet_elsewhere h.elsewhere hbefore
  rw [run_coreDeclarations hnone] at hcore
  obtain rfl := Outcome.ok.inj hcore
  refine ⟨before.sections.length, ?_, ?_, ?_, ?_⟩
  · exact named_withCore hnone coreOptions (ascii "address")
  · exact named_withCore hnone coreOptions (ascii "port")
  · exact named_withCore hnone coreOptions (ascii "config")
  · exact named_withCore hnone coreOptions (ascii "confd")

end Declared

/-! ### The paths -/

/-- The texts of an option of the server, from the command line or else from
the environment. -/
def Sources.given (sources : Sources) (conf : RappConfig) (name : Bytes) : Option (List Bytes) :=
  (conf.named (ascii "core") name).bind fun found =>
    if sources.commandline conf found.1 ≠ [] then some (sources.commandline conf found.1)
    else (sources.envValue (ascii "core") name).map fun value =>
      if 58 ∈ value then colonTokens value else [value]

/-- A list of paths without a default. -/
structure PathOption (opt : ConfigOption) : Prop where
  type_eq : opt.type = .string
  multivalued_eq : opt.multivalued = 1

theorem pathOption_config : PathOption coreConfigOption := ⟨rfl, rfl⟩
theorem pathOption_confd : PathOption coreConfdOption := ⟨rfl, rfl⟩

theorem PathOption.acceptedValues_eq {opt : ConfigOption} (h : PathOption opt)
    (texts : List Bytes) : opt.acceptedValues texts = texts.map .str := by
  have hparse : opt.parse = fun text => some (.str text) := by
    funext text
    rw [ConfigOption.parse, h.type_eq]
  rw [ConfigOption.acceptedValues, if_neg (by simp [h.multivalued_eq]), hparse,
    List.filterMap_eq_map']

/-- What is given locks the option. -/
theorem PathOption.loaded_eq {opt : ConfigOption} (h : PathOption opt) {sources : Sources}
    {conf : RappConfig} {name : Bytes} {ref : OptionRef}
    (hnamed : conf.named (ascii "core") name = some (ref, opt)) :
    opt.loaded (sources.commandline conf ref) (sources.envValue (ascii "core") name) none =
      (sources.given conf name).elim opt fun texts => (opt.withValues (texts.map .str)).lock := by
  rw [ConfigOption.loaded, Sources.given, hnamed, Option.bind_some]
  by_cases htexts : sources.commandline conf ref = []
  · rw [if_neg (not_not.mpr htexts), if_neg (not_not.mpr htexts)]
    cases sources.envValue (ascii "core") name with
    | none => rfl
    | some value =>
      have hlocks : opt.envLocks (some value) = true := by
        rw [ConfigOption.envLocks, ConfigOption.parse, h.type_eq]
        simp
      rw [if_pos hlocks, h.acceptedValues_eq, ConfigOption.envTexts, h.multivalued_eq]
      simp
  · rw [if_pos htexts, if_pos htexts, h.acceptedValues_eq]
    rfl

/-- The getters of an option that is locked with these texts. -/
theorem PathOption.readsBack {conf : RappConfig} {name : Bytes} {ref : OptionRef}
    {opt : ConfigOption} (h : PathOption opt) {texts : List Bytes}
    (hnamed : conf.named (ascii "core") name =
      some (ref, (opt.withValues (texts.map .str)).lock)) :
    conf.getNumValues (ascii "core") name = some (texts.length : Int) ∧
      ∀ i < texts.length, conf.getNthString (ascii "core") name i true =
        some (.str (texts[i]?.getD [])) := by
  have hreads : conf.ReadsBack (ascii "core") name opt (texts.map .str) :=
    Rapp.readsBack (fun hsingle => by simp [h.multivalued_eq] at hsingle) hnamed
  refine ⟨by simpa using hreads.getNumValues_eq, fun i hi => ?_⟩
  have hne : texts.map ConfigValue.str ≠ [] := by
    intro hnil
    simp [List.map_eq_nil_iff.mp hnil] at hi
  rw [hreads.getNthString_eq, if_pos h.type_eq, ConfigOption.readBack, if_neg hne]
  simp [hi]

theorem map_range_getD (texts : List Bytes) :
    (List.range texts.length).map (fun i => texts[i]?.getD []) = texts := by
  refine List.ext_getElem (by simp) fun i hi hi' => ?_
  simp [hi']

/-- The loop over a locked option is the run over its texts. -/
theorem eachValue_locked {use : Bytes → Startup → StartupResult}
    (huse : ∀ path s, (use path s).Holds fun t => Compared Refilled s.conf t.conf) {s : Startup}
    {name : Bytes} {ref : OptionRef} {opt : ConfigOption} (h : PathOption opt)
    {texts : List Bytes} (hnamed : s.conf.named (ascii "core") name =
      some (ref, (opt.withValues (texts.map .str)).lock)) :
    s.eachValue name use = run use texts s := by
  let I := fun t : Startup => t.conf.named (ascii "core") name =
    some (ref, (opt.withValues (texts.map .str)).lock)
  have hkept : ∀ path t u, I t → use path t = .ok u → I u := by
    intro path t u ht hstep
    obtain ⟨new, hnew, hrefilled⟩ := ((huse path t).ok hstep).named ht
    rwa [hrefilled.locked rfl] at hnew
  rw [Startup.eachValue, (h.readsBack hnamed).1]
  simp only [Int.toNat_natCast]
  rw [← CallOutcome.run_congr (fun i : Nat => use (texts[i]?.getD []))
    (fun i t u ht hstep => hkept _ t u ht hstep) (fun i hi t ht => ?_) hnamed,
    ← CallOutcome.run_map_input, map_range_getD]
  simp only [(h.readsBack ht).2 i (List.mem_range.mp hi)]

/-- Without values nothing is read. -/
theorem eachValue_empty {use : Bytes → Startup → StartupResult} {s : Startup} {name : Bytes}
    {ref : OptionRef} {opt : ConfigOption} (h : Fresh opt)
    (hnamed : s.conf.named (ascii "core") name = some (ref, opt)) :
    s.eachValue name use = .ok s := by
  obtain ⟨hfound, hload⟩ := named_eq_some hnamed
  have hcount : opt.numValues = 0 := by
    rw [h.sane.counted, h.empty]
    rfl
  rw [Startup.eachValue, RappConfig.getNumValues, hfound, Option.bind_some, hload,
    Option.map_some, hcount]
  rfl

section Environed

variable {plugin : List ConfigCall} {conf : RappConfig} (h : Declared plugin conf)
  {calls : List ArgpCall} {getenv : Bytes → Option Bytes} {environed : RappConfig}
  (hloads : (⟨calls, getenv, []⟩ : Sources).Loads conf environed)
include h hloads

/-- An option behind the command line and the environment. -/
theorem Declared.behind {name : Bytes} {ref : OptionRef} {opt : ConfigOption}
    (hnamed : conf.named (ascii "core") name = some (ref, opt)) :
    environed.named (ascii "core") name =
      some (ref, opt.loaded ((⟨calls, getenv, []⟩ : Sources).commandline conf ref)
        ((⟨calls, getenv, []⟩ : Sources).envValue (ascii "core") name) none) :=
  (hloads.settles_delivered.named (run_flags h.run_eq) h.fresh hnamed).1

/-- The directories are those of the command line or else of the environment,
the files too when there are any; what is in the files has no part in it. -/
theorem readConfiguration_eq (files : Files) :
    files.readConfiguration calls getenv conf =
      (run (fun confpath => files.configScanDirectory confpath (ascii ".yaml"))
        (((⟨calls, getenv, []⟩ : Sources).given conf (ascii "confd")).getD [])
        ⟨environed, []⟩).bind fun scanned =>
          ((⟨calls, getenv, []⟩ : Sources).given conf (ascii "config")).elim
            (scanned.eachValue (ascii "config") files.configParse)
            fun paths => run files.configParse paths scanned := by
  let sources : Sources := ⟨calls, getenv, []⟩
  let scan := fun confpath => files.configScanDirectory confpath (ascii ".yaml")
  have hscan : ∀ path s, (scan path s).Holds fun t => Compared Refilled s.conf t.conf :=
    fun path s => Files.compared_scan rereads_refilled files path (ascii ".yaml") s
  have hparse : ∀ path s, (files.configParse path s).Holds fun t =>
      Compared Refilled s.conf t.conf :=
    fun path s => Files.compared_configParse rereads_refilled files path s
  obtain ⟨sectionIndex, -, -, hconfig, hconfd⟩ := h.named
  have hconfd' := h.behind hloads hconfd
  have hconfig' := h.behind hloads hconfig
  rw [pathOption_confd.loaded_eq hconfd] at hconfd'
  rw [pathOption_config.loaded_eq hconfig] at hconfig'
  have hdirectories : Startup.eachValue (ascii "confd") scan ⟨environed, []⟩ =
      run scan ((sources.given conf (ascii "confd")).getD []) ⟨environed, []⟩ := by
    cases hgiven : sources.given conf (ascii "confd") with
    | none =>
      rw [hgiven] at hconfd'
      exact eachValue_empty (h.fresh _ _ (named_eq_some hconfd).2) hconfd'
    | some paths =>
      rw [hgiven] at hconfd'
      exact eachValue_locked hscan pathOption_confd hconfd'
  have hread : files.readConfiguration calls getenv conf =
      (Startup.eachValue (ascii "confd") scan ⟨environed, []⟩).bind
        (Startup.eachValue (ascii "config") files.configParse) := by
    obtain ⟨commanded, before, hcommand, henv, hdocs⟩ := hloads
    obtain rfl := Outcome.ok.inj hdocs
    rw [Files.readConfiguration, hcommand]
    simp only [henv]
    rfl
  rw [hread, hdirectories]
  cases hscanned : run scan ((sources.given conf (ascii "confd")).getD []) ⟨environed, []⟩ with
  | failed s => rfl
  | undefined why => rfl
  | ok scanned =>
    rw [Outcome.bind_ok, Outcome.bind_ok]
    cases hgiven : sources.given conf (ascii "config") with
    | none => rfl
    | some paths =>
      rw [hgiven] at hconfig'
      have hcompared : (run scan ((sources.given conf (ascii "confd")).getD [])
          ⟨environed, []⟩).Holds fun t => Compared Refilled environed t.conf :=
        CallOutcome.run_holds scan (fun path s hs => (hscan path s).mono fun _ ht =>
          hs.trans rereads_refilled ht) _ (Compared.refl rereads_refilled environed)
      obtain ⟨new, hnew, hrefilled⟩ := (hcompared.ok hscanned).named hconfig'
      rw [hrefilled.locked rfl] at hnew
      exact eachValue_locked hparse pathOption_config hnew

end Environed

theorem declared_nil : Declared [] (RappConfig.new.withCore coreOptions) :=
  ⟨by simp, by simp, run_coreDeclarations rfl⟩

/-- A directory and two files from the environment. -/
theorem readConfiguration_env :
    let files : Files := ⟨fun _ => some [ascii "b.yaml", ascii "a.yaml"], fun _ => none⟩
    let getenv : Bytes → Option Bytes := fun name =>
      if name = ascii "RAPP_CONFD" then some (ascii "conf.d")
      else if name = ascii "RAPP_CONFIG" then some (ascii "a.yaml:b.yaml") else none
    let conf := RappConfig.new.withCore coreOptions
    files.readConfiguration [] getenv conf =
      (run (fun confpath => files.configScanDirectory confpath (ascii ".yaml"))
        [ascii "conf.d"] ⟨(configReadEnv getenv conf.withFlags).2, []⟩).bind
        (run files.configParse [ascii "a.yaml", ascii "b.yaml"]) := by
  intro files getenv conf
  have hloads : (⟨[], getenv, []⟩ : Sources).Loads conf (configReadEnv getenv conf.withFlags).2 :=
    ⟨conf.withFlags, _, configParseCommandline_eq rfl [], Prod.ext (by decide +kernel) rfl, rfl⟩
  have hconfd : (⟨[], getenv, []⟩ : Sources).given conf (ascii "confd") =
      some [ascii "conf.d"] := by decide +kernel
  have hconfig : (⟨[], getenv, []⟩ : Sources).given conf (ascii "config") =
      some [ascii "a.yaml", ascii "b.yaml"] := by decide +kernel
  rw [readConfiguration_eq declared_nil hloads, hconfd, hconfig]
  rfl

/-! ### What is read -/

namespace Files

/-- The paths opened in between are all that changes the store. -/
def Advances (files : Files) (s t : Startup) : Prop :=
  ∃ paths, t.opened = s.opened ++ paths ∧ run files.parse paths s.conf = .ok t.conf

variable {files : Files}

theorem advances_refl (s : Startup) : files.Advances s s := ⟨[], by simp, rfl⟩

theorem Advances.trans {s t u : Startup} (h : files.Advances s t) (h' : files.Advances t u) :
    files.Advances s u := by
  obtain ⟨front, hopened, hrun⟩ := h
  obtain ⟨rest, hopened', hrun'⟩ := h'
  refine ⟨front ++ rest, by rw [hopened', hopened, List.append_assoc], ?_⟩
  rw [CallOutcome.run_append, hrun]
  exact hrun'

theorem advances_run {ι : Type} {step : ι → Startup → StartupResult}
    (h : ∀ i s t, step i s = .ok t → files.Advances s t) {is : List ι} {s t : Startup}
    (hrun : run step is s = .ok t) : files.Advances s t := by
  induction is generalizing s with
  | nil =>
    obtain rfl := Outcome.ok.inj hrun
    exact advances_refl s
  | cons i is ih =>
    obtain ⟨middle, hstep, hrest⟩ := Outcome.bind_eq_ok.mp hrun
    exact (h i s middle hstep).trans (ih hrest)

theorem advances_configParse {path : Bytes} {s t : Startup}
    (h : files.configParse path s = .ok t) : files.Advances s t := by
  rw [configParse] at h
  split at h
  · rename_i conf hparse
    cases h
    exact ⟨[path], rfl, by simp [hparse]⟩
  · cases h
  · cases h

theorem advances_scan {directory ext : Bytes} {s t : Startup}
    (h : files.configScanDirectory directory ext s = .ok t) : files.Advances s t := by
  rw [configScanDirectory] at h
  split at h
  · cases h
  · refine advances_run (fun name before next hname => ?_) h
    rw [scanName] at hname
    split at hname
    · dsimp only at hname
      split at hname
      · cases hname
      · exact advances_configParse hname
    · cases hname
      exact advances_refl _

theorem advances_eachValue {name : Bytes} {use : Bytes → Startup → StartupResult}
    (huse : ∀ path s t, use path s = .ok t → files.Advances s t) {s t : Startup}
    (h : s.eachValue name use = .ok t) : files.Advances s t := by
  rw [Startup.eachValue] at h
  split at h
  · cases h
  · refine advances_run (fun i before next hstep => ?_) h
    split at hstep
    · exact huse _ before next hstep
    · cases hstep

end Files

/-- A start that succeeds is the command line, the environment and the files in
the order they were opened. -/
theorem readConfiguration_ok {files : Files} {calls : List ArgpCall}
    {getenv : Bytes → Option Bytes} {conf : RappConfig} {s : Startup}
    (h : files.readConfiguration calls getenv conf = .ok s) :
    ∃ environed, (⟨calls, getenv, []⟩ : Sources).Loads conf environed ∧
      run files.parse s.opened environed = .ok s.conf := by
  rw [Files.readConfiguration] at h
  cases hcommand : configParseCommandline calls conf with
  | failed commanded =>
    rw [hcommand] at h
    cases h
  | undefined why => exact why.elim
  | ok commanded =>
    rw [hcommand] at h
    dsimp only at h
    split at h
    · cases h
    · rename_i hzero
      obtain ⟨scanned, hscanned, hfiles⟩ := Outcome.bind_eq_ok.mp h
      have hfirst := Files.advances_eachValue (fun _ _ _ => Files.advances_scan) hscanned
      have hsecond := Files.advances_eachValue (fun _ _ _ => Files.advances_configParse) hfiles
      obtain ⟨paths, hopened, hrun⟩ := hfirst.trans hsecond
      obtain rfl : s.opened = paths := hopened
      refine ⟨(configReadEnv getenv commanded).2, ⟨commanded, _, hcommand, ?_, rfl⟩, hrun⟩
      exact Prod.ext (not_not.mp hzero) rfl

/-- What a start leaves of every option, when the files it opens are documents. -/
theorem readConfiguration_loaded {plugin : List ConfigCall} {conf : RappConfig}
    (h : Declared plugin conf) {files : Files} {calls : List ArgpCall}
    {getenv : Bytes → Option Bytes} {s : Startup}
    (hstart : files.readConfiguration calls getenv conf = .ok s) {docOf : Bytes → YamlDocument}
    (hdocs : ∀ path ∈ s.opened, files.tokens path = some (docOf path).tokens ∧
      (docOf path).Skips conf) {sectionName name : Bytes} {ref : OptionRef} {opt : ConfigOption}
    (hnamed : conf.named sectionName name = some (ref, opt)) :
    let sources : Sources := ⟨calls, getenv, s.opened.map docOf⟩
    s.conf.named sectionName name = some (ref, opt.loaded (sources.commandline conf ref)
      (sources.envValue sectionName name) (sources.lastMention conf ref)) := by
  intro sources
  obtain ⟨environed, ⟨commanded, before, hcommand, henv, hnone⟩, hrun⟩ :=
    readConfiguration_ok hstart
  obtain rfl := Outcome.ok.inj hnone
  have hloads : sources.Loads conf s.conf := by
    refine ⟨commanded, before, hcommand, henv, ?_⟩
    rw [CallOutcome.run_map_input, ← hrun]
    refine CallOutcome.run_congr _ (I := fun _ => True) (fun _ _ _ _ _ => trivial)
      (fun path hpath conf _ => ?_) trivial
    rw [Files.parse, (hdocs path hpath).1]
    rfl
  have hskips : ∀ doc ∈ sources.docs, doc.Skips conf := by
    intro doc hdoc
    obtain ⟨path, hpath, rfl⟩ := List.mem_map.mp hdoc
    exact (hdocs path hpath).2
  have hsettles := hloads.settles (run_flags h.run_eq) hskips
  exact (hsettles.named (run_flags h.run_eq) h.fresh hnamed).1

/-- The port from a file that the environment names. -/
theorem readConfiguration_file :
    let conf := RappConfig.new.withCore coreOptions
    let doc : YamlDocument := {
      directives := []
      explicitStart := true
      sections := [⟨ascii "core", .mapping (.last
        (.pair (.flow (.node (.scalar (ascii "port")))) (.flow (.node (.scalar (ascii "80"))))))⟩]
      explicitEnd := false
      start := nofun }
    let files : Files := ⟨fun _ => none, fun _ => some doc.tokens⟩
    let getenv : Bytes → Option Bytes := fun name =>
      if name = ascii "RAPP_CONFIG" then some (ascii "a.yaml") else none
    ∃ s, files.readConfiguration [] getenv conf = .ok s ∧
      s.conf.named (ascii "core") (ascii "port") =
        some (⟨0, 1⟩, corePortOption.withValues [.int 80]) := by
  intro conf doc files getenv
  obtain ⟨s, hstart, hopened⟩ : ∃ s, files.readConfiguration [] getenv conf = .ok s ∧
      s.opened = [ascii "a.yaml"] :=
    Outcome.exists_of_toOption (by decide +kernel)
  let docOf : Bytes → YamlDocument := fun _ => doc
  have hskips : ∀ path ∈ s.opened, files.tokens path = some (docOf path).tokens ∧
      (docOf path).Skips conf := by
    refine fun path _ => ⟨rfl, fun sect hsect hundeclared => ?_⟩
    rw [List.mem_singleton.mp hsect] at hundeclared
    exact absurd hundeclared (by decide +kernel)
  have hport : conf.named (ascii "core") (ascii "port") = some (⟨0, 1⟩, corePortOption) := by
    decide +kernel
  refine ⟨s, hstart, ?_⟩
  have hloaded := readConfiguration_loaded declared_nil hstart hskips hport
  rw [hopened] at hloaded
  exact hloaded.trans (by decide +kernel)

/-! ### The address and the port -/

theorem mem_acceptedValues {opt : ConfigOption} {texts : List Bytes} {value : ConfigValue}
    (h : value ∈ opt.acceptedValues texts) : ∃ text, opt.parse text = some value := by
  have hmem : value ∈ texts.filterMap opt.parse := by
    rw [ConfigOption.acceptedValues] at h
    split at h
    · exact List.mem_of_mem_take h
    · exact h
  obtain ⟨text, -, htext⟩ := List.mem_filterMap.mp hmem
  exact ⟨text, htext⟩

/-- The text of an integer option is checked against its range. -/
theorem inRange_of_parse {opt : ConfigOption} (htype : opt.type = .int) {text : Bytes}
    {value : ConfigValue} (h : opt.parse text = some value) : InRange opt value := by
  rw [ConfigOption.parse, htype] at h
  dsimp only at h
  split at h
  · cases h
  · rename_i hchecked
    cases h
    refine ⟨_, rfl, ?_, ?_⟩
    · by_contra hlow
      exact hchecked (.inr (.inr (.inl (by omega))))
    · by_contra hhigh
      exact hchecked (.inr (.inr (.inr (by omega))))

/-- An option with a default has a first value. -/
theorem getNth_zero {opt : ConfigOption} (hsane : Sane opt) (hdefault : opt.defaultSet = true) :
    ∃ value, RappConfig.getNth opt 0 = some value := by
  rw [RappConfig.getNth, if_neg (fun h => h.2 rfl), hsane.counted]
  cases hvalues : opt.values with
  | nil => exact ⟨opt.defaultValue, by simp [hdefault]⟩
  | cons value values =>
    refine ⟨value, ?_⟩
    rw [List.length_cons, if_neg (by omega), if_neg (by omega)]
    rfl

/-- The command line and the environment give an option values of its texts. -/
theorem loaded_sound {opt : ConfigOption} (h : Fresh opt) (commandline : List Bytes)
    (envValue : Option Bytes) :
    ∃ values locked, opt.loaded commandline envValue none =
      { opt.withValues values with noOverride := locked } ∧
      ∀ value ∈ values, ∃ text, opt.parse text = some value := by
  obtain ⟨locked, hloaded⟩ := @loaded_eq opt h commandline envValue none (by simp)
  refine ⟨_, locked, hloaded, fun value hvalue => ?_⟩
  rw [ConfigOption.kept] at hvalue
  split at hvalue
  · exact mem_acceptedValues hvalue
  split at hvalue
  · exact mem_acceptedValues hvalue
  · cases hvalue

/-- `port_s` for the `long` that `main` passes as a `uint16_t`. -/
def portS (port : Int) : Bytes := snprintf 6 (decimal (port % 65536).toNat)

theorem portS_eq {port : Int} (hlow : 0 ≤ port) (hhigh : port ≤ 65535) :
    portS port = decimal port.toNat := by
  have hlength : (decimal port.toNat).length ≤ 5 := by
    rw [decimal_eq, List.length_map]
    exact (Nat.length_toDigits_le_iff (by omega) (by omega)).mpr (by omega)
  rw [portS, Int.emod_eq_of_lt hlow (by omega), snprintf]
  exact List.take_of_length_le hlength

/-- The first value of an option of the server that has a default. -/
theorem readConfiguration_first {plugin : List ConfigCall} {conf : RappConfig}
    (h : Declared plugin conf) {files : Files} {calls : List ArgpCall}
    {getenv : Bytes → Option Bytes} {s : Startup}
    (hstart : files.readConfiguration calls getenv conf = .ok s) {name : Bytes} {ref : OptionRef}
    {opt : ConfigOption} (hnamed : conf.named (ascii "core") name = some (ref, opt))
    (htyped : WellTyped opt) (hdefault : opt.defaultSet = true)
    (hnull : opt.defaultValue ≠ .null) :
    ∃ new value, s.conf.named (ascii "core") name = some (ref, new) ∧ new.type = opt.type ∧
      RappConfig.getNth new 0 = some value ∧ value.Fits opt.type ∧
      (opt.type = .int → opt.rangeSet = true → HoldsRange id opt → InRange opt value) := by
  obtain ⟨environed, hloads, hrun⟩ := readConfiguration_ok hstart
  have hcompared := (Files.compared_run rereads_refilled files s.opened environed).ok hrun
  have hfresh := h.fresh ref opt (named_eq_some hnamed).2
  have hbehind := h.behind hloads hnamed
  obtain ⟨values, locked, hloaded, htexts⟩ := loaded_sound hfresh _ _
  rw [hloaded] at hbehind
  obtain ⟨new, hnew, hrefilled⟩ := hcompared.named hbehind
  have htype : new.type = opt.type := by rw [hrefilled.same]; rfl
  have hsane : Sane new := hrefilled.sane ⟨rfl, hfresh.sane.truth⟩
  have hwell : WellTyped new := hrefilled.typed ⟨fun value hvalue => by
    obtain ⟨text, htext⟩ := htexts value hvalue
    exact ConfigOption.parse_fits htext, htyped.default, htyped.null⟩
  obtain ⟨value, hvalue⟩ := getNth_zero hsane (by rw [hrefilled.same]; exact hdefault)
  have hdefaultEq : new.defaultValue = opt.defaultValue := by rw [hrefilled.same]; rfl
  have hfits : value.Fits opt.type := by
    rcases hwell.of_mem (getNth_mem hvalue) with hfits | ⟨rfl, -⟩
    · exact htype ▸ hfits
    · rcases getNth_mem hvalue with hmem | ⟨-, hlost⟩
      · exact (hwell.values .null hmem).elim
      · exact absurd (hdefaultEq.symm.trans hlost) hnull
  refine ⟨new, value, hnew, htype, hvalue, hfits, ?_⟩
  intro hint hset hrange
  have hranged : Ranged id new := hrefilled.ranged fun _ _ => ⟨fun value hvalue => by
    obtain ⟨text, htext⟩ := htexts value hvalue
    exact inRange_of_parse hint htext, hrange.default⟩
  have hholds : HoldsRange id new := by
    refine hranged (by simp [htype, hint]) ?_
    rw [hrefilled.same]
    exact hset
  obtain ⟨number, rfl, hlow, hhigh⟩ : InRange new value := hholds.of_mem (getNth_mem hvalue)
  rw [hrefilled.same] at hlow hhigh
  exact ⟨number, rfl, hlow, hhigh⟩

theorem coreAddressOption_typed : WellTyped coreAddressOption :=
  ⟨fun _ hvalue => (List.not_mem_nil hvalue).elim, fun _ => .inl rfl, fun _ => rfl⟩

theorem corePortOption_typed : WellTyped corePortOption :=
  ⟨fun _ hvalue => (List.not_mem_nil hvalue).elim,
    fun _ => .inl RappConfigParamType.noConfusion, ConfigValue.noConfusion⟩

theorem corePortOption_range : HoldsRange id corePortOption :=
  ⟨fun _ hvalue => (List.not_mem_nil hvalue).elim,
    fun _ => ⟨8080, rfl, by decide, by decide⟩⟩

/-- Whatever was in the files, the two getters whose results `main` does not
look at give an address and a port in its range, which reaches `getaddrinfo` as
it was configured. -/
theorem readConfiguration_listens {plugin : List ConfigCall} {conf : RappConfig}
    (h : Declared plugin conf) {files : Files} {calls : List ArgpCall}
    {getenv : Bytes → Option Bytes} {s : Startup}
    (hstart : files.readConfiguration calls getenv conf = .ok s) :
    ∃ address port, s.conf.getNthString (ascii "core") (ascii "address") 0 true =
        some (.str address) ∧
      s.conf.getNthInt (ascii "core") (ascii "port") 0 = some (.int port) ∧
      0 ≤ port ∧ port ≤ 65535 ∧ portS port = decimal port.toNat := by
  obtain ⟨sectionIndex, haddress, hport, -, -⟩ := h.named
  obtain ⟨new, value, hnamed, htype, hvalue, hfits, -⟩ :=
    readConfiguration_first h hstart haddress coreAddressOption_typed rfl ConfigValue.noConfusion
  obtain ⟨address, rfl⟩ := hfits.string rfl
  obtain ⟨new', value', hnamed', htype', hvalue', -, hrange⟩ :=
    readConfiguration_first h hstart hport corePortOption_typed rfl ConfigValue.noConfusion
  obtain ⟨port, rfl, hlow, hhigh⟩ := hrange rfl rfl corePortOption_range
  have hstring : new.type = .string := htype
  have hint : new'.type = .int := htype'
  refine ⟨address, port, ?_, ?_, hlow, hhigh, portS_eq hlow hhigh⟩
  · obtain ⟨hfound, hload⟩ := named_eq_some hnamed
    rw [RappConfig.getNthString, if_neg (by omega), hfound, Option.bind_some, hload,
      Option.bind_some, if_neg (not_not.mpr hstring), hvalue]
    rfl
  · obtain ⟨hfound, hload⟩ := named_eq_some hnamed'
    rw [RappConfig.getNthInt, if_neg (by omega), hfound, Option.bind_some, hload,
      Option.bind_some, if_neg (by simp [hint]), hvalue']

/-- The port from the environment, the address by default. -/
theorem readConfiguration_listens_env :
    let conf := RappConfig.new.withCore coreOptions
    let getenv : Bytes → Option Bytes := fun name =>
      if name = ascii "RAPP_PORT" then some (ascii "80") else none
    let s : Startup := ⟨(configReadEnv getenv conf.withFlags).2, []⟩
    ∃ address port, s.conf.getNthString (ascii "core") (ascii "address") 0 true =
        some (.str address) ∧
      s.conf.getNthInt (ascii "core") (ascii "port") 0 = some (.int port) ∧
      0 ≤ port ∧ port ≤ 65535 ∧ portS port = decimal port.toNat := by
  intro conf getenv s
  have hstart : Files.readConfiguration ⟨fun _ => none, fun _ => none⟩ [] getenv conf = .ok s := by
    decide +kernel
  exact readConfiguration_listens declared_nil hstart

end Rapp
