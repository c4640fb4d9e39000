import Rapp.ConfigEnv
import Rapp.YamlDelivered

/-!
# Precedence of the sources

The server declares its options and reads the command line, the environment and
its files, in this order. An option keeps what the first of the sources gave it,
except for a list in the environment of which no item is accepted: it locks the
option and leaves it empty.
-/
namespace Rapp

open CallOutcome (Outcome run)
open ByteBlock

/-! ### Declared options -/

/-- The calls that declare options. -/
def ConfigCall.Declares : ConfigCall → Prop
  | .optAdd _ _ _ _ _ | .optSetRangeInt _ _ _ _ | .optSetMultivalued _ _ _
  | .optSetDefaultString _ _ _ _ | .optSetDefaultInt _ _ _ | .optSetDefaultBool _ _ _ => True
  | _ => False

/-- An option without values that is not locked. -/
structure Fresh (opt : ConfigOption) : Prop where
  sane : Sane opt
  empty : opt.values = []
  unlocked : opt.noOverride = false

theorem fresh_new (name : Bytes) (type : RappConfigParamType) (help metavar : Option Bytes) :
    Fresh (.new name type help metavar) :=
  ⟨sane_new name type help metavar, rfl, rfl⟩

theorem Fresh.use {opt : ConfigOption} (h : Fresh opt) {call : ConfigCall}
    (hdeclares : call.Declares) : Fresh (call.use opt).2 := by
  have hsame : (call.use opt).2.values = opt.values ∧
      (call.use opt).2.noOverride = opt.noOverride := by
    cases call with
    | optSetRangeInt =>
      simp only [ConfigCall.use]
      split
      · exact ⟨rfl, rfl⟩
      split <;> exact ⟨rfl, rfl⟩
    | optSetDefaultString sectionName name value allocated =>
      cases allocated <;> exact ⟨rfl, rfl⟩
    | optSetDefaultBool =>
      simp only [ConfigCall.use]
      split <;> exact ⟨rfl, rfl⟩
    | addValueInt => exact hdeclares.elim
    | addValueString => exact hdeclares.elim
    | addValueFromString => exact hdeclares.elim
    | removeAllValues => exact hdeclares.elim
    | setNoOverride => exact hdeclares.elim
    | _ => exact ⟨rfl, rfl⟩
  exact ⟨h.sane.use call, hsame.1.trans h.empty, hsame.2.trans h.unlocked⟩

theorem fresh_run {calls : List ConfigCall} (hdeclares : ∀ call ∈ calls, call.Declares)
    {conf : RappConfig} (h : run ConfigCall.apply calls RappConfig.new = .ok conf) :
    conf.AllOptions Fresh := by
  induction calls using List.reverseRecOn generalizing conf with
  | nil =>
    obtain rfl := Outcome.ok.inj h
    exact allOptions_new Fresh
  | append_singleton calls call ih =>
    rw [CallOutcome.run_concat] at h
    obtain ⟨before, hbefore, hstep⟩ := Outcome.bind_eq_ok.mp h
    cases hstep
    have hearlier := ih (fun other hother => hdeclares other (by simp [hother])) hbefore
    exact hearlier.step fresh_new fun ref opt _ hopt => hopt.use (hdeclares call (by simp))

/-! ### Documents in order -/

/-- `config_parse_string` or `config_parse` on a document. -/
def configParseDocument (doc : YamlDocument) (conf : RappConfig) : ConfigResult :=
  configParseMain conf doc.tokens

theorem run_readSection_sectionGet {sections : List YamlSection} {conf next : RappConfig}
    (h : run readSection sections conf = .ok next) (name : Bytes) :
    next.sectionGet name = conf.sectionGet name := by
  have hholds := CallOutcome.run_holds (P := fun after : RappConfig =>
    after.sectionGet name = conf.sectionGet name) readSection
    (fun sect before hbefore => readSection_sectionGet hbefore) sections rfl
  exact hholds.ok h

/-- Documents that are all read to the end are their sections one after the other. -/
theorem run_configParseDocument {docs : List YamlDocument} {conf next : RappConfig}
    (hskips : ∀ doc ∈ docs, doc.Skips conf) (h : run configParseDocument docs conf = .ok next) :
    run readSection (docs.flatMap YamlDocument.sections) conf = .ok next := by
  induction docs generalizing conf with
  | nil => exact h
  | cons doc docs ih =>
    obtain ⟨middle, hdoc, hdocs⟩ := Outcome.bind_eq_ok.mp h
    have hsections : run readSection doc.sections conf = .ok middle := by
      rw [configParseDocument, configParseMain_tokens (hskips doc List.mem_cons_self),
        readDocument] at hdoc
      split at hdoc
      · exact hdoc
      · cases hdoc
    have hrest : ∀ other ∈ docs, other.Skips middle := fun other hother =>
      (hskips other (List.mem_cons_of_mem _ hother)).congr (run_readSection_sectionGet hsections)
    rw [List.flatMap_cons, CallOutcome.run_append, hsections, Outcome.bind_ok]
    exact ih hrest hdocs

/-- The mentions the reader takes from documents that it reads one after the other. -/
def deliveredAlong : List YamlDocument → RappConfig → List Mention
  | [], _ => []
  | doc :: docs, conf => delivered conf doc.tokens ++
      (configParseDocument doc conf).toOption.elim [] (deliveredAlong docs)

theorem run_deliveredAlong {docs : List YamlDocument} {conf next : RappConfig}
    (h : run configParseDocument docs conf = .ok next) :
    run Mention.read (deliveredAlong docs conf) conf = .ok next := by
  induction docs generalizing conf with
  | nil => exact h
  | cons doc docs ih =>
    obtain ⟨middle, hdoc, hdocs⟩ := Outcome.bind_eq_ok.mp h
    have hfirst : run Mention.read (delivered conf doc.tokens) conf = .ok middle :=
      run_delivered hdoc
    rw [deliveredAlong, CallOutcome.run_append, hfirst, Outcome.bind_ok, hdoc]
    exact ih hdocs

/-! ### The sources -/

/-- What the server reads: the calls of the parser that `argp_parse` makes for
the command line, the environment and the documents. -/
structure Sources where
  calls : List ArgpCall
  getenv : Bytes → Option Bytes
  docs : List YamlDocument

namespace Sources

/-- The texts of an option on the command line. -/
def commandline (sources : Sources) (conf : RappConfig) (ref : OptionRef) : List Bytes :=
  sources.calls.filterMap (ArgpCall.textFor conf.withFlags ref)

/-- The variable of an option. -/
def envValue (sources : Sources) (sectionName name : Bytes) : Option Bytes :=
  sources.getenv (getEnvName sectionName name)

/-- The last mention of an option. -/
def lastMention (sources : Sources) (conf : RappConfig) (ref : OptionRef) : Option ValueForm :=
  lastForm conf ((sources.docs.flatMap YamlDocument.sections).flatMap (YamlSection.mentions conf))
    ref

/-- The sources are read in the order of the server, without an error. -/
def Loads (sources : Sources) (conf next : RappConfig) : Prop :=
  ∃ commanded environed, configParseCommandline sources.calls conf = .ok commanded ∧
    configReadEnv sources.getenv commanded = (0, environed) ∧
    run configParseDocument sources.docs environed = .ok next

/-- The configuration that the documents are read into. -/
def environed (sources : Sources) (conf : RappConfig) : RappConfig :=
  (configReadEnv sources.getenv
    ((configParseCommandline sources.calls conf).toOption.getD conf)).2

/-- What the reader takes for the mentions of the documents. -/
def delivered (sources : Sources) (conf : RappConfig) : List Mention :=
  deliveredAlong sources.docs (sources.environed conf)

/-- The command line and the environment are read, and then the mentions, without an error. -/
def Settles (sources : Sources) (mentions : List Mention) (conf next : RappConfig) : Prop :=
  ∃ commanded environed, configParseCommandline sources.calls conf = .ok commanded ∧
    configReadEnv sources.getenv commanded = (0, environed) ∧
    run Mention.read mentions environed = .ok next

end Sources

namespace ConfigOption

/-- What the sources leave of an option. -/
def loaded (opt : ConfigOption) (commandline : List Bytes) (envValue : Option Bytes)
    (mention : Option ValueForm) : ConfigOption :=
  if commandline ≠ [] then (opt.withValues (opt.acceptedValues commandline)).lock
  else if opt.envLocks envValue then
    (opt.withValues (opt.acceptedValues (opt.envTexts envValue))).lock
  else settleLast mention opt

end ConfigOption

/-! ### Names and sections that stay -/

theorem sectionGet_congr {conf next : RappConfig} (h : next.outline = conf.outline)
    (name : Bytes) : next.sectionGet name = conf.sectionGet name := by
  have hnames : ∀ conf : RappConfig,
      conf.sections.map ConfigSection.name = conf.outline.map Prod.fst := by
    intro conf
    rw [RappConfig.outline, List.map_map]
    rfl
  rw [sectionGet_eq, sectionGet_eq, hnames, hnames, h]

theorem getOption_congr {conf next : RappConfig} (h : next.outline = conf.outline)
    (sectionName name : Bytes) :
    next.getOption sectionName name = conf.getOption sectionName name := by
  have hsections : (fun sectionIndex => next.getOptionFromSect sectionIndex name) =
      fun sectionIndex => conf.getOptionFromSect sectionIndex name :=
    funext fun sectionIndex => getOptionFromSect_congr h sectionIndex name
  rw [RappConfig.getOption, RappConfig.getOption, sectionGet_congr h, hsections]

theorem named_congr {conf next : RappConfig} (h : next.outline = conf.outline)
    {sectionName name : Bytes} {ref : OptionRef} {opt new : ConfigOption}
    (hnamed : conf.named sectionName name = some (ref, opt)) (hload : next.load ref = some new) :
    next.named sectionName name = some (ref, new) := by
  rw [RappConfig.named, getOption_congr h, (named_eq_some hnamed).1, Option.bind_some, hload]
  rfl

theorem lastForm_congr {conf next : RappConfig} (h : next.outline = conf.outline)
    (mentions : List Mention) (ref : OptionRef) :
    lastForm next mentions ref = lastForm conf mentions ref := by
  have href : ∀ mention : Mention, mention.ref next = mention.ref conf := fun mention =>
    getOptionFromSect_congr h mention.sectionIndex (cString mention.name)
  simp only [lastForm, href]

/-! ### What is left of an option -/

/-- The command line of a store whose flags were not generated yet. -/
theorem configParseCommandline_flagged {conf next : RappConfig} (hnone : conf.options = none)
    {calls : List ArgpCall} (h : configParseCommandline calls conf = .ok next) :
    Flagged conf.withFlags next fun ref =>
      calls.filterMap (ArgpCall.textFor conf.withFlags ref) := by
  rw [configParseCommandline_eq hnone] at h
  exact run_argpParse h

/-- A last mention behind the environment behind the command line. -/
theorem settleLast_getEnvForOpt {opt : ConfigOption} (h : Fresh opt) (texts : List Bytes)
    (getenv : Bytes → Option Bytes) (sectionName : Bytes) (mention : Option ValueForm) :
    settleLast mention ((texts.foldl ConfigOption.take opt).getEnvForOpt getenv sectionName).2 =
      opt.loaded texts (getenv (getEnvName sectionName opt.name)) mention := by
  have hlocked : ∀ locked : ConfigOption, locked.noOverride = true →
      settleLast mention locked = locked := by
    intro locked hlocked
    cases mention with
    | none => rfl
    | some form => exact if_pos hlocked
  rw [ConfigOption.loaded]
  by_cases htexts : texts = []
  · rw [if_neg (not_not.mpr htexts), htexts, List.foldl_nil,
      getEnvForOpt_open h.sane h.empty h.unlocked]
    split
    · exact hlocked _ rfl
    · rfl
  · rw [if_pos htexts, foldl_take h.sane h.empty htexts, getEnvForOpt_locked rfl]
    exact hlocked _ rfl

theorem outline_commanded {conf commanded : RappConfig} (hnone : conf.options = none)
    {calls : List ArgpCall} (h : configParseCommandline calls conf = .ok commanded) :
    commanded.outline = conf.outline := by
  rw [(configParseCommandline_flagged hnone h).outline_eq, RappConfig.outline, withFlags_sections]
  rfl

namespace Sources

/-- Documents whose undeclared sections are skipped whole are their mentions. -/
theorem Loads.settles {sources : Sources} {conf next : RappConfig} (h : sources.Loads conf next)
    (hnone : conf.options = none) (hskips : ∀ doc ∈ sources.docs, doc.Skips conf) :
    sources.Settles ((sources.docs.flatMap YamlDocument.sections).flatMap
      (YamlSection.mentions conf)) conf next := by
  obtain ⟨commanded, environed, hcommand, henv, hdocs⟩ := h
  obtain rfl : (configReadEnv sources.getenv commanded).2 = environed := congrArg Prod.snd henv
  have henvironed : (configReadEnv sources.getenv commanded).2.outline = conf.outline :=
    (outline_configReadEnv sources.getenv commanded).trans (outline_commanded hnone hcommand)
  have hsections := run_configParseDocument
    (fun doc hdoc => (hskips doc hdoc).congr (sectionGet_congr henvironed)) hdocs
  refine ⟨commanded, _, hcommand, henv, ?_⟩
  have hmentions : YamlSection.mentions conf =
      YamlSection.mentions (configReadEnv sources.getenv commanded).2 :=
    funext fun sect => (mentions_congr (sectionGet_congr henvironed) sect).symm
  rw [hmentions]
  exact run_sections_mentions hsections

/-- Documents of any kind are the mentions that the reader delivers. -/
theorem Loads.settles_delivered {sources : Sources} {conf next : RappConfig}
    (h : sources.Loads conf next) : sources.Settles (sources.delivered conf) conf next := by
  obtain ⟨commanded, environed, hcommand, henv, hdocs⟩ := h
  refine ⟨commanded, environed, hcommand, henv, ?_⟩
  have hsame : sources.environed conf = environed := by
    rw [Sources.environed, hcommand]
    exact congrArg Prod.snd henv
  rw [delivered, hsame]
  exact run_deliveredAlong hdocs

/-- An option that is found by its names, behind all sources. -/
theorem Settles.named {sources : Sources} {mentions : List Mention} {conf next : RappConfig}
    (h : sources.Settles mentions conf next) (hnone : conf.options = none)
    (hfresh : conf.AllOptions Fresh) {sectionName name : Bytes} {ref : OptionRef}
    {opt : ConfigOption} (hnamed : conf.named sectionName name = some (ref, opt)) :
    next.named sectionName name = some (ref, opt.loaded (sources.commandline conf ref)
      (sources.envValue sectionName name) (lastForm conf mentions ref)) ∧
    (∀ text ∈ sources.commandline conf ref, (opt.parse text).isSome) ∧
    ∀ form, lastForm conf mentions ref = some form → sources.commandline conf ref = [] →
      opt.envLocks (sources.envValue sectionName name) = false → (form.values opt).isSome := by
  obtain ⟨commanded, environed, hcommand, henv, hmentions⟩ := h
  obtain rfl : (configReadEnv sources.getenv commanded).2 = environed := congrArg Prod.snd henv
  have hflagged := configParseCommandline_flagged hnone hcommand
  have hcommanded := outline_commanded hnone hcommand
  have henvironed : (configReadEnv sources.getenv commanded).2.outline = conf.outline :=
    (outline_configReadEnv sources.getenv commanded).trans hcommanded
  have hload := (named_eq_some hnamed).2
  have hname := (named_section hnamed).choose_spec.2.2.2
  have htaken : ∀ ref, commanded.load ref = (conf.load ref).map fun opt =>
      (sources.commandline conf ref).foldl ConfigOption.take opt := by
    intro ref
    rw [hflagged.load_eq, withFlags_load]
    rfl
  have hsane : (configReadEnv sources.getenv commanded).2.AllOptions Sane := by
    refine sane_configReadEnv (fun other taken hother => ?_) sources.getenv
    rw [htaken] at hother
    obtain ⟨old, hold, rfl⟩ := Option.map_eq_some_iff.mp hother
    exact (hfresh other old hold).sane.foldl_take _
  have hsettled := settled_run hsane hmentions
  have hopt : commanded.load ref =
      some ((sources.commandline conf ref).foldl ConfigOption.take opt) := by
    rw [htaken, hload]
    rfl
  have hbehind := load_configReadEnv_named (named_congr hcommanded hnamed hopt) sources.getenv
  have hopened := hfresh ref opt hload
  refine ⟨named_congr (hsettled.outline_eq.trans henvironed) hnamed ?_, ?_, ?_⟩
  · rw [hsettled.load_eq, lastForm_congr henvironed, hbehind, Option.map_some, Sources.envValue,
      ← hname]
    exact congrArg some (settleLast_getEnvForOpt hopened _ sources.getenv sectionName _)
  · exact hflagged.parsed ref opt ((withFlags_load conf ref).trans hload)
  · intro form hform htexts hlocks
    have haccepted := hsettled.accepted ref _ form hbehind
    rw [lastForm_congr henvironed, htexts, List.foldl_nil,
      getEnvForOpt_open hopened.sane hopened.empty hopened.unlocked, hname] at haccepted
    rw [Sources.envValue] at hlocks
    rw [if_neg (by simp [hlocks])] at haccepted
    exact (haccepted hform).resolve_right (by simp [hopened.unlocked])

end Sources

/-! ### What the sources should give -/

namespace ConfigOption

/-- The values of the first source that gave any. -/
def precedence (opt : ConfigOption) (commandline : List Bytes) (envValue : Option Bytes)
    (mention : Option ValueForm) : List ConfigValue :=
  if opt.acceptedValues commandline ≠ [] then opt.acceptedValues commandline
  else if opt.acceptedValues (opt.envTexts envValue) ≠ [] then
    opt.acceptedValues (opt.envTexts envValue)
  else (mention.bind (ValueForm.values opt)).getD []

/-- The environment has a list without an accepted item, and only a file has values. -/
def ShutOut (opt : ConfigOption) (commandline : List Bytes) (envValue : Option Bytes)
    (mention : Option ValueForm) : Prop :=
  opt.acceptedValues commandline = [] ∧
    (∃ text, envValue = some text ∧ 58 ∈ text ∧ opt.multivalued = 1 ∧
      opt.acceptedValues (colonTokens text) = []) ∧
    (mention.bind (ValueForm.values opt)).getD [] ≠ []

/-- The value the getters give at a position when the option has these values. -/
def readBack (opt : ConfigOption) (values : List ConfigValue) (position : Nat) :
    Option ConfigValue :=
  if values = [] then if position = 0 ∧ opt.defaultSet then some opt.defaultValue else none
  else values[position]?

end ConfigOption

/-- The getters give these values for an option as it was declared, or its default. -/
structure RappConfig.ReadsBack (conf : RappConfig) (sectionName name : Bytes) (opt : ConfigOption)
    (values : List ConfigValue) : Prop where
  getNumValues_eq : conf.getNumValues sectionName name = some (values.length : Int)
  getNthInt_eq : ∀ position : Nat, conf.getNthInt sectionName name position =
    if opt.type = .string then none else opt.readBack values position
  getNthString_eq : ∀ position : Nat, conf.getNthString sectionName name position true =
    if opt.type = .string then opt.readBack values position else none

/-- Every option has the values of the first source that gave any. -/
def Sources.Precedence (sources : Sources) (conf next : RappConfig) : Prop :=
  ∀ sectionName name ref opt, conf.named sectionName name = some (ref, opt) →
    next.ReadsBack sectionName name opt (opt.precedence (sources.commandline conf ref)
      (sources.envValue sectionName name) (sources.lastMention conf ref))

/-- The same with the mentions of the files given. -/
def Sources.PrecedenceOf (sources : Sources) (mentions : List Mention) (conf next : RappConfig) :
    Prop :=
  ∀ sectionName name ref opt, conf.named sectionName name = some (ref, opt) →
    next.ReadsBack sectionName name opt (opt.precedence (sources.commandline conf ref)
      (sources.envValue sectionName name) (lastForm conf mentions ref))

/-! ### What they give -/

namespace ConfigOption

/-- The values of the first source that locked the option, or else of the files. -/
def kept (opt : ConfigOption) (commandline : List Bytes) (envValue : Option Bytes)
    (mention : Option ValueForm) : List ConfigValue :=
  if commandline ≠ [] then opt.acceptedValues commandline
  else if opt.envLocks envValue then opt.acceptedValues (opt.envTexts envValue)
  else (mention.bind (ValueForm.values opt)).getD []

end ConfigOption

theorem loaded_eq {opt : ConfigOption} (h : Fresh opt) {commandline : List Bytes}
    {envValue : Option Bytes} {mention : Option ValueForm}
    (haccepted : ∀ form, mention = some form → commandline = [] → opt.envLocks envValue = false →
      (form.values opt).isSome) :
    ∃ locked, opt.loaded commandline envValue mention =
      { opt.withValues (opt.kept commandline envValue mention) with noOverride := locked } := by
  rw [ConfigOption.loaded, ConfigOption.kept]
  by_cases htexts : commandline = []
  · rw [if_neg (not_not.mpr htexts), if_neg (not_not.mpr htexts)]
    cases hlocks : opt.envLocks envValue with
    | true => exact ⟨true, rfl⟩
    | false =>
      refine ⟨false, ?_⟩
      have hunlocked : ∀ values : List ConfigValue,
          { opt.withValues values with noOverride := false } = opt.withValues values := by
        intro values
        rw [← h.unlocked]
        rfl
      rw [hunlocked]
      cases mention with
      | none => exact (withValues_nil h.sane h.empty).symm
      | some form =>
        obtain ⟨values, hvalues⟩ := Option.isSome_iff_exists.mp (haccepted form rfl htexts hlocks)
        simp [settleLast, ValueForm.settle, h.unlocked, hvalues]
  · rw [if_pos htexts, if_pos htexts]
    exact ⟨true, rfl⟩

@[simp] theorem acceptedValues_nil (opt : ConfigOption) : opt.acceptedValues [] = [] := by
  simp [ConfigOption.acceptedValues]

/-- A variable that does not lock its option brings no value. -/
theorem acceptedValues_of_envLocks {opt : ConfigOption} {envValue : Option Bytes}
    (h : opt.envLocks envValue = false) : opt.acceptedValues (opt.envTexts envValue) = [] := by
  cases envValue with
  | none => exact acceptedValues_nil opt
  | some value =>
    rw [ConfigOption.envLocks, Bool.or_eq_false_iff] at h
    have hrefused : opt.parse value = none := by simpa using h.2
    rw [ConfigOption.envTexts, if_neg (of_decide_eq_false h.1), ConfigOption.acceptedValues]
    simp [hrefused]

/-- A variable that locks its option and brings no value is a list. -/
theorem envLocks_nil {opt : ConfigOption} {envValue : Option Bytes}
    (h : opt.envLocks envValue = true)
    (hnil : opt.acceptedValues (opt.envTexts envValue) = []) :
    ∃ text, envValue = some text ∧ 58 ∈ text ∧ opt.multivalued = 1 ∧
      opt.acceptedValues (colonTokens text) = [] := by
  cases envValue with
  | none => cases h
  | some value =>
    by_cases hlist : 58 ∈ value ∧ opt.multivalued = 1
    · rw [ConfigOption.envTexts, if_pos hlist] at hnil
      exact ⟨value, rfl, hlist.1, hlist.2, hnil⟩
    · rw [ConfigOption.envTexts, if_neg hlist] at hnil
      rw [ConfigOption.envLocks, decide_eq_false hlist, Bool.false_or] at h
      exact absurd hnil (acceptedValues_ne_nil (List.cons_ne_nil value []) (by simpa using h))

/-- What an option keeps is what it should have, unless it is shut out. -/
theorem kept_eq_precedence {opt : ConfigOption} {commandline : List Bytes}
    (hparsed : ∀ text ∈ commandline, (opt.parse text).isSome) {envValue : Option Bytes}
    {mention : Option ValueForm} (h : ¬ opt.ShutOut commandline envValue mention) :
    opt.kept commandline envValue mention = opt.precedence commandline envValue mention := by
  rw [ConfigOption.kept, ConfigOption.precedence]
  by_cases htexts : commandline = []
  · subst htexts
    rw [if_neg (not_not.mpr rfl), acceptedValues_nil, if_neg (not_not.mpr rfl)]
    cases hlocks : opt.envLocks envValue with
    | false => rw [acceptedValues_of_envLocks hlocks, if_neg (not_not.mpr rfl), if_neg (by simp)]
    | true =>
      rw [if_pos rfl]
      by_cases hnil : opt.acceptedValues (opt.envTexts envValue) = []
      · rw [hnil, if_neg (not_not.mpr rfl)]
        by_contra hne
        exact h ⟨acceptedValues_nil opt, envLocks_nil hlocks hnil, Ne.symm hne⟩
      · rw [if_pos hnil]
  · rw [if_pos htexts, if_pos (acceptedValues_ne_nil htexts hparsed)]

/-- An option that is shut out keeps nothing. -/
theorem kept_shutOut {opt : ConfigOption} {commandline : List Bytes}
    (hparsed : ∀ text ∈ commandline, (opt.parse text).isSome) {envValue : Option Bytes}
    {mention : Option ValueForm} (h : opt.ShutOut commandline envValue mention) :
    opt.kept commandline envValue mention = [] ∧
      opt.precedence commandline envValue mention ≠ [] := by
  obtain ⟨hcommandline, ⟨text, rfl, hcolon, hmulti, htokens⟩, hmention⟩ := h
  have htexts : commandline = [] := by
    by_contra hne
    exact acceptedValues_ne_nil hne hparsed hcommandline
  have henv : opt.acceptedValues (opt.envTexts (some text)) = [] := by
    rw [ConfigOption.envTexts, if_pos ⟨hcolon, hmulti⟩, htokens]
  constructor
  · rw [ConfigOption.kept, if_neg (not_not.mpr htexts), henv, ConfigOption.envLocks,
      decide_eq_true ⟨hcolon, hmulti⟩]
    rfl
  · rw [ConfigOption.precedence, hcommandline, henv, if_neg (not_not.mpr rfl),
      if_neg (not_not.mpr rfl)]
    exact hmention

/-! ### What the getters give -/

theorem length_acceptedValues {opt : ConfigOption} (h : opt.multivalued = 0) (texts : List Bytes) :
    (opt.acceptedValues texts).length ≤ 1 := by
  rw [ConfigOption.acceptedValues, if_pos h, List.length_take]
  omega

theorem length_values {opt : ConfigOption} (h : opt.multivalued = 0) (form : ValueForm) :
    ((form.values opt).getD []).length ≤ 1 := by
  cases form with
  | scalar value =>
    rw [ValueForm.values, ConfigOption.parseItems, ConfigOption.parseItems, Option.bind_some]
    cases opt.parse (cString value) <;> simp
  | list items => simp [ValueForm.values, h]
  | other => simp [ValueForm.values]

theorem length_kept {opt : ConfigOption} (h : opt.multivalued = 0) (commandline : List Bytes)
    (envValue : Option Bytes) (mention : Option ValueForm) :
    (opt.kept commandline envValue mention).length ≤ 1 := by
  rw [ConfigOption.kept]
  split_ifs
  · exact length_acceptedValues h _
  · exact length_acceptedValues h _
  · cases mention with
    | none => simp
    | some form => exact length_values h form

theorem getNth_readBack {opt : ConfigOption} {values : List ConfigValue} (locked : Bool)
    (hsingle : opt.multivalued = 0 → values.length ≤ 1) (position : Nat) :
    RappConfig.getNth { opt.withValues values with noOverride := locked } position =
      opt.readBack values position := by
  have hbeyond : values.length ≤ position → values[position]? = none := List.getElem?_eq_none
  rw [ConfigOption.readBack]
  change (if opt.multivalued = 0 ∧ (position : Int) ≠ 0 then none
    else if (values.length : Int) = 0 ∧ opt.defaultSet then
      if (position : Int) = 0 then some opt.defaultValue else none
    else if (values.length : Int) ≤ position then none else values[position]?) = _
  cases values with
  | nil =>
    by_cases hdefault : opt.defaultSet = true <;> by_cases hposition : position = 0 <;>
      simp [hdefault, hposition]
  | cons value values =>
    rw [if_neg (List.cons_ne_nil value values)]
    simp only [List.length_cons] at hsingle hbeyond ⊢
    by_cases hother : opt.multivalued = 0 ∧ (position : Int) ≠ 0
    · have hlength := hsingle hother.1
      rw [if_pos hother, hbeyond (by omega)]
    · rw [if_neg hother, if_neg (by omega)]
      by_cases hlength : values.length + 1 ≤ position
      · rw [if_pos (by omega), hbeyond hlength]
      · rw [if_neg (by omega)]

theorem readsBack {conf : RappConfig} {sectionName name : Bytes} {ref : OptionRef}
    {opt : ConfigOption} {values : List ConfigValue} {locked : Bool}
    (hsingle : opt.multivalued = 0 → values.length ≤ 1)
    (hnamed : conf.named sectionName name =
      some (ref, { opt.withValues values with noOverride := locked })) :
    conf.ReadsBack sectionName name opt values := by
  obtain ⟨hfound, hload⟩ := named_eq_some hnamed
  constructor
  · rw [RappConfig.getNumValues, hfound, Option.bind_some, hload]
    rfl
  · intro position
    rw [RappConfig.getNthInt, if_neg (by omega), hfound, Option.bind_some, hload, Option.bind_some,
      getNth_readBack locked hsingle]
    cases htype : opt.type <;> simp [ConfigOption.withValues, htype]
  · intro position
    rw [RappConfig.getNthString, if_neg (by omega), hfound, Option.bind_some, hload,
      Option.bind_some, getNth_readBack locked hsingle]
    cases htype : opt.type <;> simp [ConfigOption.withValues, htype]

theorem precedenceOf_iff {calls : List ConfigCall} (hdeclares : ∀ call ∈ calls, call.Declares)
    {conf next : RappConfig} (hcalls : run ConfigCall.apply calls RappConfig.new = .ok conf)
    {sources : Sources} {mentions : List Mention} (hsettles : sources.Settles mentions conf next) :
    sources.PrecedenceOf mentions conf next ↔
      ∀ sectionName name ref opt, conf.named sectionName name = some (ref, opt) →
        ¬ opt.ShutOut (sources.commandline conf ref) (sources.envValue sectionName name)
          (lastForm conf mentions ref) := by
  have hfresh := fresh_run hdeclares hcalls
  have hkept : ∀ sectionName name ref opt, conf.named sectionName name = some (ref, opt) →
      next.ReadsBack sectionName name opt (opt.kept (sources.commandline conf ref)
        (sources.envValue sectionName name) (lastForm conf mentions ref)) ∧
      ∀ text ∈ sources.commandline conf ref, (opt.parse text).isSome := by
    intro sectionName name ref opt hnamed
    obtain ⟨hnext, hparsed, haccepted⟩ := hsettles.named (run_flags hcalls) hfresh hnamed
    obtain ⟨locked, hlocked⟩ := loaded_eq (hfresh ref opt (named_eq_some hnamed).2) haccepted
    rw [hlocked] at hnext
    exact ⟨readsBack (fun hsingle => length_kept hsingle _ _ _) hnext, hparsed⟩
  constructor
  · intro h sectionName name ref opt hnamed hshut
    obtain ⟨hreads, hparsed⟩ := hkept sectionName name ref opt hnamed
    obtain ⟨hnil, hne⟩ := kept_shutOut hparsed hshut
    have hcounts := (h sectionName name ref opt hnamed).getNumValues_eq
    rw [hreads.getNumValues_eq, hnil, Option.some.injEq, List.length_nil] at hcounts
    have hpositive := List.length_pos_iff.mpr hne
    omega
  · intro h sectionName name ref opt hnamed
    obtain ⟨hreads, hparsed⟩ := hkept sectionName name ref opt hnamed
    rwa [kept_eq_precedence hparsed (h sectionName name ref opt hnamed)] at hreads

/-- For documents of any kind: the last mention is the last one the reader delivers. -/
theorem precedence_delivered {calls : List ConfigCall}
    (hdeclares : ∀ call ∈ calls, call.Declares) {conf next : RappConfig}
    (hcalls : run ConfigCall.apply calls RappConfig.new = .ok conf)
    {sources : Sources} (hloads : sources.Loads conf next) :
    sources.PrecedenceOf (sources.delivered conf) conf next ↔
      ∀ sectionName name ref opt, conf.named sectionName name = some (ref, opt) →
        ¬ opt.ShutOut (sources.commandline conf ref) (sources.envValue sectionName name)
          (lastForm conf (sources.delivered conf) ref) :=
  precedenceOf_iff hdeclares hcalls hloads.settles_delivered

/-- After the declarations and the sources, every option has the values of the
first source that gave any, or else its default, if and only if none is shut out
by a list in the environment that has no accepted item. -/
theorem precedence_iff {calls : List ConfigCall} (hdeclares : ∀ call ∈ calls, call.Declares)
    {conf next : RappConfig} (hcalls : run ConfigCall.apply calls RappConfig.new = .ok conf)
    {sources : Sources} (hloads : sources.Loads conf next)
    (hskips : ∀ doc ∈ sources.docs, doc.Skips conf) :
    sources.Precedence conf next ↔
      ∀ sectionName name ref opt, conf.named sectionName name = some (ref, opt) →
        ¬ opt.ShutOut (sources.commandline conf ref) (sources.envValue sectionName name)
          (sources.lastMention conf ref) :=
  precedenceOf_iff hdeclares hcalls (hloads.settles (run_flags hcalls) hskips)

/-- A port from a file, where the environment has none. -/
theorem precedence_file :
    let calls : List ConfigCall := [.optAdd (ascii "core") (ascii "port") .int none none,
      .optSetDefaultInt (ascii "core") (ascii "port") 8080]
    let conf := ((RappConfig.new.optAdd (ascii "core") (ascii "port")
      .int none none).2.optSetDefaultInt (ascii "core") (ascii "port") 8080).2
    let port := { ConfigOption.new (ascii "port") .int none none with
      defaultValue := .int 8080
      defaultSet := true }
    let doc : YamlDocument := {
      directives := []
      explicitStart := true
      sections := [⟨ascii "core", .mapping (.last
        (.pair (.flow (.node (.scalar (ascii "port")))) (.flow (.node (.scalar (ascii "80"))))))⟩]
      explicitEnd := false
      start := nofun }
    let sources : Sources := ⟨[], fun _ => none, [doc]⟩
    let next := conf.withFlags.store ⟨0, 0⟩ (port.withValues [.int 80])
    run ConfigCall.apply calls RappConfig.new = .ok conf ∧ sources.Loads conf next ∧
      sources.Precedence conf next := by
  intro calls conf port doc sources next
  have hcalls : run ConfigCall.apply calls RappConfig.new = .ok conf := rfl
  have hdeclares : ∀ call ∈ calls, call.Declares := by simp [calls, ConfigCall.Declares]
  have hloads : sources.Loads conf next := by
    refine ⟨conf.withFlags, conf.withFlags, configParseCommandline_eq rfl [], rfl, ?_⟩
    decide +kernel
  have hskips : ∀ doc ∈ sources.docs, doc.Skips conf := by
    intro other hother sect hsect hundeclared
    rw [List.mem_singleton.mp hother] at hsect
    rw [List.mem_singleton.mp hsect] at hundeclared
    exact absurd hundeclared (by decide +kernel)
  refine ⟨hcalls, hloads, (precedence_iff hdeclares hcalls hloads hskips).mpr ?_⟩
  rintro sectionName name ref opt - ⟨-, ⟨text, htext, -⟩, -⟩
  cases htext

/-- A list without items in the environment, and one with an item in a file. -/
theorem not_precedence_colon :
    let calls : List ConfigCall := [.optAdd (ascii "core") (ascii "port") .int none none,
      .optSetMultivalued (ascii "core") (ascii "port") 1]
    let conf := ((RappConfig.new.optAdd (ascii "core") (ascii "port")
      .int none none).2.optSetMultivalued (ascii "core") (ascii "port") 1).2
    let port := { ConfigOption.new (ascii "port") .int none none with multivalued := 1 }
    let doc : YamlDocument := {
      directives := []
      explicitStart := true
      sections := [⟨ascii "core", .mapping (.last
        (.pair (.flow (.node (.scalar (ascii "port")))) (.flow (.node (.sequence
          (.last (.node (.scalar (ascii "80")))))))))⟩]
      explicitEnd := false
      start := nofun }
    let sources : Sources :=
      ⟨[], fun name => if name = ascii "RAPP_PORT" then some (ascii ":") else none, [doc]⟩
    let next := conf.withFlags.store ⟨0, 0⟩ port.lock
    run ConfigCall.apply calls RappConfig.new = .ok conf ∧ sources.Loads conf next ∧
      (∀ doc ∈ sources.docs, doc.Skips conf) ∧ ¬ sources.Precedence conf next := by
  intro calls conf port doc sources next
  refine ⟨rfl, ⟨conf.withFlags, next, configParseCommandline_eq rfl [], rfl, by decide +kernel⟩, ?_,
    ?_⟩
  · intro other hother sect hsect hundeclared
    rw [List.mem_singleton.mp hother] at hsect
    rw [List.mem_singleton.mp hsect] at hundeclared
    exact absurd hundeclared (by decide +kernel)
  · intro h
    have hnamed : conf.named (ascii "core") (ascii "port") = some (⟨0, 0⟩, port) := by
      decide +kernel
    exact absurd (h _ _ _ _ hnamed).getNumValues_eq (by decide +kernel)

end Rapp
