import Mathlib.Data.List.TakeWhile
import Rapp.ConfigEnv
import Rapp.SkipSection
import Rapp.YamlStyles

/-!
# One list from three sources

A list for a multivalued option can be given with a repeated flag, with one
variable that holds the items joined with colons, or with a sequence in a file.
-/
namespace Rapp

open CallOutcome (Outcome run)
open ByteBlock

/-! ### The table of flags -/

/-- The flags of the options. -/
def RappConfig.flagTable (conf : RappConfig) : ArgpTable := .generate 0 conf.sections ⟨[], []⟩

/-- The key of an entry is a flag of its option, unless `argp` uses it itself. -/
theorem flagged_of_has {conf : RappConfig} (hnone : conf.options = none) {index : Nat}
    {sectionName : Bytes} {group : Int} {opt : ConfigOption} {ref : OptionRef}
    (hhas : conf.flagTable.Has index sectionName group opt ref)
    (hkey : (index + 150 : Int) ∉ argpReserved) :
    conf.withFlags.flagged (index + 150) = some ref := by
  have hlength := (List.getElem?_eq_some_iff.mp hhas.option_eq).1
  have hmap := (List.getElem?_eq_some_iff.mp hhas.ref_eq).1
  have hindex : ((index + 150 : Int) - argIndexOffset).toNat = index := by
    have hoffset : argIndexOffset = 150 := rfl
    omega
  rw [RappConfig.withFlags, RappConfig.configGenerateCommandline, if_neg (by simp [hnone]),
    RappConfig.flagged, if_neg, hindex]
  · change (conf.flagTable.optionsMap ++ _)[index]?.join = _
    rw [List.getElem?_append_left hmap, hhas.ref_eq]
    rfl
  · have hoffset : argIndexOffset = 150 := rfl
    rintro (hreserved | hlow | hhigh)
    · exact hkey hreserved
    · omega
    · change (conf.flagTable.options.length : Int) < _ at hhigh
      omega

/-! ### A repeated flag -/

/-- The calls of the parser for a command line of these flags. -/
def argpCalls (flags : List ArgpCall) : List ArgpCall :=
  ⟨argpKeyInit, none⟩ :: (flags ++ [⟨argpKeyNoArgs, none⟩, ⟨argpKeyEnd, none⟩,
    ⟨argpKeySuccess, none⟩, ⟨argpKeyFini, none⟩])

theorem run_reserved {calls : List ArgpCall} (h : ∀ call ∈ calls, call.key ∈ argpReserved)
    (hne : ∀ call ∈ calls, call.key ≠ argpKeyError) (conf : RappConfig) :
    run argpParse calls conf = .ok conf := by
  induction calls with
  | nil => rfl
  | cons call calls ih =>
    rw [CallOutcome.run_cons, argpParse_reserved (h call List.mem_cons_self)
      (hne call List.mem_cons_self), Outcome.bind_ok]
    exact ih (fun other hother => h other (List.mem_cons_of_mem _ hother))
      fun other hother => hne other (List.mem_cons_of_mem _ hother)

theorem run_argpCalls (flags : List ArgpCall) (conf : RappConfig) :
    run argpParse (argpCalls flags) conf = run argpParse flags conf := by
  have hlast : run argpParse [⟨argpKeyNoArgs, none⟩, ⟨argpKeyEnd, none⟩, ⟨argpKeySuccess, none⟩,
      ⟨argpKeyFini, none⟩] = Outcome.ok (ε := Empty) := by
    funext conf
    apply run_reserved
    · simp [argpReserved]
    · simp only [List.forall_mem_cons]
      exact ⟨by decide, by decide, by decide, by decide, by simp⟩
  have hinit : argpKeyInit ∈ argpReserved := by simp [argpReserved]
  rw [argpCalls, CallOutcome.run_cons, argpParse_reserved hinit (by decide), Outcome.bind_ok,
    CallOutcome.run_append, hlast]
  cases run argpParse flags conf <;> rfl

/-- A flag with an accepted text. -/
theorem argpParse_accepted {conf : RappConfig} {key : Int} {ref : OptionRef} {opt : ConfigOption}
    (hkey : conf.flagged key = some ref) (hload : conf.load ref = some opt) {text : Bytes}
    (hparse : (opt.parse text).isSome) :
    argpParse ⟨key, some text⟩ conf = .ok (conf.store ref (opt.take text)) := by
  obtain ⟨value, hvalue⟩ := Option.isSome_iff_exists.mp hparse
  rw [argpParse_ok, parseCommandlineOpt_flagged hkey]
  simp [RappConfig.withRef, hload, ConfigOption.take, ConfigOption.configAddValueFromString_eq,
    hvalue]

theorem run_repeated {conf : RappConfig} {key : Int} {ref : OptionRef} {opt : ConfigOption}
    (hkey : conf.flagged key = some ref) (hload : conf.load ref = some opt) {items : List Bytes}
    (hitems : ∀ item ∈ items, (opt.parse item).isSome) :
    ∃ next, run argpParse (items.map fun item => ⟨key, some item⟩) conf = .ok next := by
  induction items generalizing conf opt with
  | nil => exact ⟨conf, rfl⟩
  | cons item items ih =>
    have haccepted : (opt.parse item).isSome := hitems item List.mem_cons_self
    rw [List.map_cons, CallOutcome.run_cons, argpParse_accepted hkey hload haccepted,
      Outcome.bind_ok]
    refine ih hkey (load_store_same hload _) fun other hother => ?_
    rw [parse_take]
    exact hitems other (List.mem_cons_of_mem _ hother)

/-! ### The three sources -/

/-- The values of the option behind a pointer. -/
def RappConfig.valuesAt (conf : RappConfig) (ref : OptionRef) : Option (List ConfigValue) :=
  (conf.load ref).map ConfigOption.values

section

variable {conf : RappConfig} {ref : OptionRef} {opt : ConfigOption} {items : List Bytes}
  (hload : conf.load ref = some opt) (hsane : Sane opt) (hmulti : opt.multivalued = 1)
  (hempty : opt.values = [])

include hmulti in
theorem acceptedValues_list (texts : List Bytes) :
    opt.acceptedValues texts = texts.filterMap opt.parse := by
  rw [ConfigOption.acceptedValues, if_neg (by omega)]

include hload hsane hmulti hempty

theorem commandline_list (hnone : conf.options = none) {index : Nat} {sectionName : Bytes}
    {group : Int} (hhas : conf.flagTable.Has index sectionName group opt ref)
    (hkey : (index + 150 : Int) ∉ argpReserved) (hne : items ≠ [])
    (hitems : ∀ item ∈ items, (opt.parse item).isSome) :
    ∃ next, configParseCommandline
        (argpCalls (items.map fun item => ⟨index + 150, some item⟩)) conf = .ok next ∧
      next.valuesAt ref = some (items.filterMap opt.parse) := by
  have hflagged := flagged_of_has hnone hhas hkey
  have hopt := (withFlags_load conf ref).trans hload
  obtain ⟨next, hrun⟩ := run_repeated hflagged hopt hitems
  refine ⟨next, ?_, ?_⟩
  · rw [configParseCommandline_eq hnone, run_argpCalls]
    exact hrun
  · have htexts : (items.map fun item => (⟨index + 150, some item⟩ : ArgpCall)).filterMap
        (ArgpCall.textFor conf.withFlags ref) = items := by
      rw [List.filterMap_map]
      have htext : ArgpCall.textFor conf.withFlags ref ∘ (fun item => ⟨index + 150, some item⟩) =
          some := by
        funext item
        exact if_pos hflagged
      rw [htext, List.filterMap_some]
    have hafter := (run_argpParse hrun).load_eq ref
    rw [hopt, htexts, Option.map_some, foldl_take hsane hempty hne,
      acceptedValues_list hmulti] at hafter
    rw [RappConfig.valuesAt, hafter]
    rfl

end

/-- A variable of which the tokens are the items offers just these. -/
theorem envTexts_list {opt : ConfigOption} (hmulti : opt.multivalued = 1) {text : Bytes}
    (hne : colonTokens text ≠ []) : opt.envTexts (some text) = colonTokens text := by
  rw [ConfigOption.envTexts]
  by_cases hcolon : 58 ∈ text
  · rw [if_pos ⟨hcolon, hmulti⟩]
  · have htext : text ≠ [] := by
      rintro rfl
      exact hne rfl
    rw [if_neg (fun h => hcolon h.1), colonTokens_single htext hcolon]

theorem envLocks_list {opt : ConfigOption} (hmulti : opt.multivalued = 1) {text : Bytes}
    (hne : colonTokens text ≠ []) (hitems : ∀ item ∈ colonTokens text, (opt.parse item).isSome) :
    opt.envLocks (some text) = true := by
  rw [ConfigOption.envLocks]
  by_cases hcolon : 58 ∈ text
  · simp [hcolon, hmulti]
  · have htexts := envTexts_list hmulti hne
    rw [ConfigOption.envTexts, if_neg (fun h => hcolon h.1)] at htexts
    rw [hitems text (by simp [← htexts]), Bool.or_true]

theorem env_list {conf : RappConfig} {sectionName name : Bytes} {ref : OptionRef}
    {opt : ConfigOption} (hnamed : conf.named sectionName name = some (ref, opt))
    (hsane : Sane opt) (hmulti : opt.multivalued = 1) (hempty : opt.values = [])
    (hopen : opt.noOverride = false) {getenv : Bytes → Option Bytes} {text : Bytes}
    (henv : getenv (getEnvName sectionName name) = some text) (hne : colonTokens text ≠ [])
    (hitems : ∀ item ∈ colonTokens text, (opt.parse item).isSome) :
    (configReadEnv getenv conf).2.valuesAt ref = some ((colonTokens text).filterMap opt.parse) := by
  obtain ⟨-, -, -, -, hname⟩ := named_section hnamed
  rw [RappConfig.valuesAt, load_configReadEnv_named hnamed, getEnvForOpt_open hsane hempty hopen,
    hname, henv, if_pos (envLocks_list hmulti hne hitems), envTexts_list hmulti hne,
    acceptedValues_list hmulti]
  rfl

theorem cString_of_no_nul {text : Bytes} (h : 0 ∉ text) : cString text = text := by
  refine List.takeWhile_eq_self_iff.mpr fun byte hbyte => ?_
  have hne : byte ≠ 0 := fun hzero => h (hzero ▸ hbyte)
  exact decide_eq_true hne

/-- Items without a NUL are read from a file as they are. -/
theorem filterMap_cString {items : List Bytes} (hnul : ∀ item ∈ items, 0 ∉ item)
    (opt : ConfigOption) :
    items.filterMap (fun item => opt.parse (cString item)) = items.filterMap opt.parse := by
  refine List.filterMap_congr fun item hitem => ?_
  rw [cString_of_no_nul (hnul item hitem)]

/-- An accepted document whose last entry for the option is the list. -/
theorem yaml_list {conf : RappConfig} (hsane : conf.AllOptions Sane) {ref : OptionRef}
    {opt : ConfigOption} (hload : conf.load ref = some opt) (hopen : opt.noOverride = false)
    {first : Bytes} {rest : List Bytes} (hnul : ∀ item ∈ first :: rest, 0 ∉ item)
    {doc : MappedDocument} (hstart : doc.explicitStart = true) (hdirectives : doc.directives = [])
    (haccepted : doc.Accepted conf) (hlast : doc.lastValue conf ref = some (.list first rest)) :
    ∃ next, (∀ written, doc.WrittenAs written →
        configParseMain conf written.tokens = .ok next) ∧
      next.valuesAt ref = some ((first :: rest).filterMap opt.parse) := by
  obtain ⟨next, hwritten, -, hnext⟩ := haccepted.read hsane hstart hdirectives
  refine ⟨next, hwritten, ?_⟩
  rw [RappConfig.valuesAt, hnext, hload, Option.map_some, Option.map_some, MappedDocument.settle,
    hlast]
  simp only [hopen, MappedValue.texts, filterMap_cString hnul]
  rfl

/-! ### A trailing comma -/

/-- `[a, b,]`. -/
def commaItems (items : List Bytes) : FlowEntries :=
  items.foldr (fun item entries => .cons (.node (.scalar item)) entries) .nil

/-- `name: [a, b,]` or `{name: [a, b,]}`. -/
def commaSection (flow : Bool) (sectionName name : Bytes) (items : List Bytes) : YamlSection where
  name := sectionName
  value :=
    if flow then .flow (.node (.mapping (.last
      (.pair (.node (.scalar name)) (.node (.sequence (commaItems items)))))))
    else .mapping (.last
      (.pair (blockScalar name) (.flow (.node (.sequence (commaItems items))))))

theorem items_commaItems (first : Bytes) (rest : List Bytes) :
    (commaItems (first :: rest)).items = (first :: rest).map some ++ [none] := by
  induction rest generalizing first with
  | nil => rfl
  | cons next rest ih =>
    have hne : commaItems (next :: rest) ≠ .nil := nofun
    have hcons : commaItems (first :: next :: rest) =
        .cons (.node (.scalar first)) (commaItems (next :: rest)) := rfl
    rw [hcons, items_cons hne, ih]
    rfl

theorem body_commaSection (flow : Bool) (sectionName name first : Bytes) (rest : List Bytes) :
    (commaSection flow sectionName name (first :: rest)).value.body =
      some [some (name, .list ((first :: rest).map some ++ [none]))] := by
  rw [← items_commaItems]
  cases flow <;> rfl

/-- The items are taken, then the comma is an error. -/
theorem set_comma {opt : ConfigOption} (hsane : Sane opt) (hmulti : opt.multivalued = 1)
    (hopen : opt.noOverride = false) {items : List Bytes}
    (hitems : ∀ item ∈ items, 0 ∉ item ∧ (opt.parse item).isSome) :
    ValueForm.set opt (.list (items.map some ++ [none])) =
      .failed (opt.withValues (items.filterMap opt.parse)) := by
  have hall : items.all (fun text => (opt.configAddValueFromString (cString text) true).1 = 0) =
      true := by
    refine List.all_eq_true.mpr fun item hitem => ?_
    rw [cString_of_no_nul (hitems item hitem).1]
    exact decide_eq_true (texts_accepted.mpr (hitems item hitem).2)
  have hparsed := parseItems_of_accepted hall
  rw [filterMap_cString fun item hitem => (hitems item hitem).1] at hparsed
  have hitemsRun : run addItem (items.map some) (opt.withValues []) =
      .ok (opt.withValues (items.filterMap opt.parse)) := by
    refine (run_addItem_open (hsane.withValues []) hopen ?_ _ _).mpr ⟨_, ?_, rfl⟩
    · rw [withValues_multivalued]
      omega
    · rw [parseItems_withValues, hparsed]
  rw [ValueForm.set, wipe_eq hsane hopen, withValues_multivalued, if_neg (by omega),
    CallOutcome.run_append, hitemsRun]
  rfl

/-- A list with a trailing comma is left in the option by a document that is refused. -/
theorem comma_list {conf : RappConfig} {sectionText nameText : Bytes} {ref : OptionRef}
    {opt : ConfigOption} (hnamed : conf.named (cString sectionText) (cString nameText) =
      some (ref, opt)) (hsane : Sane opt) (hmulti : opt.multivalued = 1)
    (hopen : opt.noOverride = false) {first : Bytes} {rest : List Bytes}
    (hitems : ∀ item ∈ first :: rest, 0 ∉ item ∧ (opt.parse item).isSome) (flow : Bool) :
    ∃ next, configParseMain conf
        (plainDocument [commaSection flow sectionText nameText (first :: rest)]).tokens =
          .failed next ∧
      next.valuesAt ref = some ((first :: rest).filterMap opt.parse) := by
  obtain ⟨hfound, hload⟩ := named_eq_some hnamed
  obtain ⟨sectionIndex, hget, hfrom⟩ := Option.bind_eq_some_iff.mp hfound
  have hoption : optionNamed conf sectionIndex nameText = some (ref, opt) := by
    rw [optionNamed, hfrom, Option.bind_some, hload]
    rfl
  have hread : readSection (commaSection flow sectionText nameText (first :: rest)) conf =
      .failed (conf.store ref (opt.withValues ((first :: rest).filterMap opt.parse))) := by
    have hname : (commaSection flow sectionText nameText (first :: rest)).name = sectionText := rfl
    rw [readSection, hname, hget, body_commaSection]
    simp only [CallOutcome.run_cons, assign, hoption, set_comma hsane hmulti hopen hitems]
    rfl
  refine ⟨conf.store ref (opt.withValues ((first :: rest).filterMap opt.parse)), ?_, ?_⟩
  · rw [configParseMain_tokens]
    · change run readSection [_] conf = _
      rw [CallOutcome.run_cons, hread]
      rfl
    · intro sect hsect hnone
      rw [List.mem_singleton.mp hsect] at hnone
      cases hget.symm.trans hnone
  · rw [RappConfig.valuesAt, load_store_same hload]
    rfl

/-! ### All of them -/

/-- The items of a multivalued option that has no values and is not locked give
it the same list from each source: repeated flags whose key is none of `argp`'s
own, a variable with the items between any colons, the last entry of a document
in any mixture of styles, and an entry with a trailing comma, which is an error. -/
theorem one_list {calls : List ConfigCall} {conf : RappConfig}
    (hcalls : run ConfigCall.apply calls RappConfig.new = .ok conf) {sectionName name : Bytes}
    {ref : OptionRef} {opt : ConfigOption}
    (hnamed : conf.named sectionName name = some (ref, opt)) (hmulti : opt.multivalued = 1)
    (hempty : opt.values = []) (hopen : opt.noOverride = false) {first : Bytes}
    {rest : List Bytes} (hitems : ∀ item ∈ first :: rest, item ≠ [] ∧ 58 ∉ item ∧ 0 ∉ item ∧
      (opt.configAddValueFromString item true).1 = 0) :
    (∃ index, conf.flagTable.Has index sectionName (ref.sectionIndex + 1 : Nat) opt ref ∧
      ((index + 150 : Int) ∉ argpReserved →
        ∃ next, configParseCommandline (argpCalls ((first :: rest).map fun item =>
            ⟨index + 150, some item⟩)) conf = .ok next ∧
          next.valuesAt ref = some ((first :: rest).filterMap opt.parse))) ∧
    (∀ pieces : List Bytes, pieces.filter (fun piece => piece ≠ []) = first :: rest →
      ∀ getenv : Bytes → Option Bytes,
        getenv (getEnvName sectionName name) = some ([58].intercalate pieces) →
        (configReadEnv getenv conf).1 = 0 ∧
          (configReadEnv getenv conf).2.valuesAt ref =
            some ((first :: rest).filterMap opt.parse)) ∧
    (∀ doc : MappedDocument, doc.explicitStart = true → doc.directives = [] → doc.Accepted conf →
      doc.lastValue conf ref = some (.list first rest) →
      ∃ next, (∀ written, doc.WrittenAs written →
          configParseMain conf written.tokens = .ok next) ∧
        next.valuesAt ref = some ((first :: rest).filterMap opt.parse)) ∧
    ∀ sectionText nameText : Bytes, cString sectionText = sectionName → cString nameText = name →
      ∀ flow, ∃ next, configParseMain conf
          (plainDocument [commaSection flow sectionText nameText (first :: rest)]).tokens =
            .failed next ∧
        next.valuesAt ref = some ((first :: rest).filterMap opt.parse) := by
  have hsane := sane_run hcalls
  obtain ⟨-, hload⟩ := named_eq_some hnamed
  have hopt := hsane ref opt hload
  have hparse : ∀ item ∈ first :: rest, (opt.parse item).isSome := fun item hitem =>
    texts_accepted.mp (hitems item hitem).2.2.2
  refine ⟨?_, fun pieces hpieces getenv henv => ⟨rfl, ?_⟩, ?_, ?_⟩
  · obtain ⟨sect, hsect, rfl, hposition, -⟩ := named_section hnamed
    have heven : (⟨[], []⟩ : ArgpTable).Even := rfl
    obtain ⟨index, hhas⟩ := ArgpTable.generate_has 0 conf.sections heven hsect hposition
    rw [Nat.zero_add] at hhas
    exact ⟨index, hhas, fun hkey => commandline_list hload hopt hmulti hempty (run_flags hcalls)
      hhas hkey (List.cons_ne_nil first rest) hparse⟩
  · have htokens : colonTokens ([58].intercalate pieces) = first :: rest := by
      rw [colonTokens_joined, hpieces]
      · rintro rfl
        cases hpieces
      · intro piece hpiece
        by_cases hblank : piece = []
        · simp [hblank]
        · have hitem : piece ∈ first :: rest := by
            rw [← hpieces]
            exact List.mem_filter.mpr ⟨hpiece, decide_eq_true hblank⟩
          exact (hitems piece hitem).2.1
    have hlist := env_list hnamed hopt hmulti hempty hopen henv
    rw [htokens] at hlist
    exact hlist (List.cons_ne_nil first rest) hparse
  · intro doc hstart hdirectives haccepted
    exact yaml_list hsane hload hopen (fun item hitem => (hitems item hitem).2.2.1) hstart
      hdirectives haccepted
  · rintro sectionText nameText rfl rfl flow
    exact comma_list hnamed hopt hmulti hopen
      (fun item hitem => ⟨(hitems item hitem).2.2.1, hparse item hitem⟩) flow

/-- Two ports. -/
theorem one_list_ports :
    let conf := ((RappConfig.new.optAdd (ascii "core") (ascii "port")
      .int none none).2.optSetMultivalued (ascii "core") (ascii "port") 1).2
    let opt := { ConfigOption.new (ascii "port") .int none none with multivalued := 1 }
    let doc : MappedDocument := {
      directives := []
      explicitStart := true
      explicitEnd := false
      first := ⟨ascii "core", ⟨ascii "port", .list (ascii "80") [ascii "8080"]⟩, []⟩
      rest := []
      start := nofun }
    let written := plainDocument [⟨ascii "core", .mapping (.last (.pair
      (blockScalar (ascii "port"))
      (.flow (.node (.sequence (flowItems (ascii "80") [ascii "8080"]))))))⟩]
    (∃ index, conf.flagTable.Has index (ascii "core") 1 opt ⟨0, 0⟩ ∧
      ((index + 150 : Int) ∉ argpReserved →
        ∃ next, configParseCommandline (argpCalls [⟨index + 150, some (ascii "80")⟩,
            ⟨index + 150, some (ascii "8080")⟩]) conf = .ok next ∧
          next.valuesAt ⟨0, 0⟩ = some [.int 80, .int 8080])) ∧
    (configReadEnv (fun _ => some (ascii ":80::8080")) conf).2.valuesAt ⟨0, 0⟩ =
      some [.int 80, .int 8080] ∧
    (∃ next, configParseMain conf written.tokens = .ok next ∧
      configParseMain conf doc.block.tokens = .ok next ∧
      configParseMain conf doc.flow.tokens = .ok next ∧
      next.valuesAt ⟨0, 0⟩ = some [.int 80, .int 8080]) ∧
    ∃ next, configParseMain conf (plainDocument [commaSection true (ascii "core") (ascii "port")
        [ascii "80", ascii "8080"]]).tokens = .failed next ∧
      next.valuesAt ⟨0, 0⟩ = some [.int 80, .int 8080] := by
  intro conf opt doc written
  have hcalls : run ConfigCall.apply [.optAdd (ascii "core") (ascii "port") .int none none,
      .optSetMultivalued (ascii "core") (ascii "port") 1] RappConfig.new = .ok conf := rfl
  have hnamed : conf.named (ascii "core") (ascii "port") = some (⟨0, 0⟩, opt) := by
    decide +kernel
  have hvalues : [ascii "80", ascii "8080"].filterMap opt.parse = [.int 80, .int 8080] := by
    decide +kernel
  have hitems : ∀ item ∈ ascii "80" :: [ascii "8080"], item ≠ [] ∧ 58 ∉ item ∧ 0 ∉ item ∧
      (opt.configAddValueFromString item true).1 = 0 := by
    decide +kernel
  obtain ⟨hflags, henv, hdoc, hcomma⟩ := one_list hcalls hnamed rfl rfl rfl hitems
  rw [hvalues] at hflags hdoc hcomma
  have hbracketed : doc.WrittenAs written :=
    ⟨rfl, rfl, .cons (.block (.last (.bracketed _ _))) .nil⟩
  obtain ⟨next, hread, hports⟩ := hdoc doc rfl rfl (by decide +kernel) rfl
  refine ⟨hflags, ?_, ⟨next, hread _ hbracketed, hread _ doc.block_written,
    hread _ doc.flow_written, hports⟩,
    hcomma (ascii "core") (ascii "port") (by decide +kernel) (by decide +kernel) true⟩
  have hpieces := henv [[], ascii "80", [], ascii "8080"] (by decide +kernel)
    (fun _ => some (ascii ":80::8080")) (by decide +kernel)
  rw [hvalues] at hpieces
  exact hpieces.2

/-! ### Lists that are lost -/

/-- A store with the core section alone. -/
def coreConfig (options : List ConfigOption) : RappConfig where
  sections := [⟨rappConfigSection, options.length, options⟩]
  options := none
  optionsMap := []
  numArgpOptions := 0

theorem optAdd_coreConfig (options : List ConfigOption) {name : Bytes}
    (h : validateName name = true) :
    ConfigCall.apply (.optAdd rappConfigSection name .int none none) (coreConfig options) =
      .ok (coreConfig (options ++ [.new name .int none none])) := by
  have hsection : validateName rappConfigSection = true := by decide +kernel
  have hget : (coreConfig options).sectionGet rappConfigSection = some 0 := by
    simp [RappConfig.sectionGet, coreConfig]
  have hprovide : (coreConfig options).provideSection rappConfigSection = coreConfig options := by
    rw [RappConfig.provideSection, hget]
    rfl
  simp only [ConfigCall.apply, ConfigCall.step, RappConfig.optAdd, h, hsection, hprovide, hget]
  simp [coreConfig]

theorem optAdd_first {name : Bytes} (h : validateName name = true) :
    ConfigCall.apply (.optAdd rappConfigSection name .int none none) RappConfig.new =
      .ok (coreConfig [.new name .int none none]) := by
  have hsection : validateName rappConfigSection = true := by decide +kernel
  have hprovide : RappConfig.new.provideSection rappConfigSection = coreConfig [] := rfl
  have hget : (coreConfig []).sectionGet rappConfigSection = some 0 := by decide +kernel
  simp only [ConfigCall.apply, ConfigCall.step, RappConfig.optAdd, h, hsection, hprovide, hget]
  simp [coreConfig]

/-- Any number of options of one name. -/
theorem run_optAdd_coreConfig (n : Nat) (options : List ConfigOption) {name : Bytes}
    (h : validateName name = true) :
    run ConfigCall.apply (List.replicate n (.optAdd rappConfigSection name .int none none))
        (coreConfig options) =
      .ok (coreConfig (options ++ List.replicate n (.new name .int none none))) := by
  induction n generalizing options with
  | zero => simp
  | succ n ih =>
    rw [List.replicate_succ, CallOutcome.run_cons, optAdd_coreConfig options h, Outcome.bind_ok, ih,
      List.append_assoc]
    rfl

/-- The last option, when no other has its name. -/
theorem named_coreConfig {options : List ConfigOption} {opt : ConfigOption}
    (h : ∀ other ∈ options, other.name ≠ opt.name) :
    (coreConfig (options ++ [opt])).named rappConfigSection opt.name =
      some (⟨0, options.length⟩, opt) := by
  have hfind : (options ++ [opt]).findIdx? (fun other => other.name = opt.name) =
      some options.length := by
    have hnone : options.findIdx? (fun other => decide (other.name = opt.name)) = none := by
      simpa [List.findIdx?_eq_none_iff] using h
    simp [List.findIdx?_append, hnone]
  simp [RappConfig.named, RappConfig.getOption, RappConfig.sectionGet, coreConfig,
    RappConfig.getOptionFromSect, ConfigSection.findOption, hfind, RappConfig.load]

theorem store_coreConfig (options : List ConfigOption) (old new : ConfigOption) :
    (coreConfig (options ++ [old])).store ⟨0, options.length⟩ new =
      coreConfig (options ++ [new]) := by
  simp [RappConfig.store, coreConfig]

/-- Behind enough options there is one whose key is a key of `argp`. -/
theorem exists_reserved : ∃ calls conf ref opt,
    run ConfigCall.apply calls RappConfig.new = .ok conf ∧
    conf.named rappConfigSection (ascii "ports") = some (ref, opt) ∧ opt.type = .int ∧
    opt.multivalued = 1 ∧ opt.values = [] ∧ opt.noOverride = false ∧
    (opt.configAddValueFromString (ascii "80") true).1 = 0 ∧
    ∃ index, conf.flagTable.Has index rappConfigSection (ref.sectionIndex + 1 : Nat) opt ref ∧
      (index + 150 : Int) = argpKeyEnd := by
  obtain ⟨n, hn⟩ : ∃ n : Nat, (n : Int) + 152 = argpKeyEnd := ⟨16777065, by decide⟩
  let ports : ConfigOption := .new (ascii "ports") .int none none
  let list : ConfigOption := { ports with multivalued := 1 }
  let before := List.replicate (n + 1) (ConfigOption.new (ascii "port") .int none none)
  have hbefore : before.length = n + 1 := List.length_replicate
  have hnames : ∀ other ∈ before, other.name ≠ ascii "ports" := by
    intro other hother
    rw [List.eq_of_mem_replicate hother]
    decide +kernel
  have hport : validateName (ascii "port") = true := by decide +kernel
  have hports : validateName (ascii "ports") = true := by decide +kernel
  have hcalls : run ConfigCall.apply
      (List.replicate (n + 1) (.optAdd rappConfigSection (ascii "port") .int none none) ++
        [.optAdd rappConfigSection (ascii "ports") .int none none,
          .optSetMultivalued rappConfigSection (ascii "ports") 1]) RappConfig.new =
      .ok (coreConfig (before ++ [list])) := by
    have hflag : ConfigCall.apply (.optSetMultivalued rappConfigSection (ascii "ports") 1)
        (coreConfig (before ++ [ports])) = .ok (coreConfig (before ++ [list])) := by
      have hnamed : (coreConfig (before ++ [ports])).named rappConfigSection (ascii "ports") =
          some (⟨0, before.length⟩, ports) := named_coreConfig hnames
      rw [ConfigCall.apply, ConfigCall.step, RappConfig.optSetMultivalued, withOption_named hnamed,
        store_coreConfig]
    rw [CallOutcome.run_append, List.replicate_succ, CallOutcome.run_cons, optAdd_first hport,
      Outcome.bind_ok, run_optAdd_coreConfig n _ hport, Outcome.bind_ok, CallOutcome.run_cons,
      optAdd_coreConfig _ hports, Outcome.bind_ok, CallOutcome.run_cons]
    exact congrArg (fun outcome => Outcome.bind outcome (run ConfigCall.apply [])) hflag
  refine ⟨_, coreConfig (before ++ [list]), ⟨0, before.length⟩, list, hcalls,
    named_coreConfig hnames, rfl, rfl, rfl, rfl, by decide +kernel, 1 + before.length, ?_, ?_⟩
  · have heven : (ArgpTable.push ⟨[], []⟩ (ArgpTable.title rappConfigSection 1) none).Even := rfl
    have hoption : (before ++ [list])[before.length]? = some list := by simp
    have hhas := ArgpTable.generateArgpForSection_has rappConfigSection 0 1 0 (before ++ [list])
      heven hoption
    rw [Nat.zero_add] at hhas
    exact hhas
  · omega

/-- A flag whose key `argp` uses itself is passed over; a sequence at the indentation
of its key, and a document without `---`, are errors. -/
theorem not_one_list :
    (∃ calls conf ref opt, run ConfigCall.apply calls RappConfig.new = .ok conf ∧
      conf.named rappConfigSection (ascii "ports") = some (ref, opt) ∧ opt.type = .int ∧
      opt.multivalued = 1 ∧ opt.values = [] ∧ opt.noOverride = false ∧
      (opt.configAddValueFromString (ascii "80") true).1 = 0 ∧
      ∃ index, conf.flagTable.Has index rappConfigSection (ref.sectionIndex + 1 : Nat) opt ref ∧
        ∃ next, configParseCommandline (argpCalls [⟨index + 150, some (ascii "80")⟩]) conf =
            .ok next ∧
          next.valuesAt ref = some []) ∧
    let conf := ((RappConfig.new.optAdd (ascii "core") (ascii "port")
      .int none none).2.optSetMultivalued (ascii "core") (ascii "port") 1).2
    let opt := { ConfigOption.new (ascii "port") .int none none with multivalued := 1 }
    let indentless := plainDocument [⟨ascii "core", .mapping (.last
      (.pair (blockScalar (ascii "port")) (.indentless (blockItems (ascii "80") []))))⟩]
    let noStart : YamlDocument := {
      directives := []
      explicitStart := false
      sections := [⟨ascii "core", .mapping (.last
        (.pair (blockScalar (ascii "port")) (.sequence (blockItems (ascii "80") []))))⟩]
      explicitEnd := false
      start := nofun }
    conf.named (ascii "core") (ascii "port") = some (⟨0, 0⟩, opt) ∧
      (opt.configAddValueFromString (ascii "80") true).1 = 0 ∧
      configParseMain conf indentless.tokens = .failed conf ∧
      configParseMain conf noStart.tokens = .failed conf ∧ conf.valuesAt ⟨0, 0⟩ = some [] := by
  refine ⟨?_, by decide +kernel⟩
  obtain ⟨calls, conf, ref, opt, hcalls, hnamed, htype, hmulti, hempty, hopen, hitem, index, hhas,
    hkey⟩ := exists_reserved
  refine ⟨calls, conf, ref, opt, hcalls, hnamed, htype, hmulti, hempty, hopen, hitem, index, hhas,
    conf.withFlags, ?_, ?_⟩
  · rw [hkey, configParseCommandline_eq (run_flags hcalls), run_argpCalls]
    apply run_reserved
    · simp [argpReserved]
    · simp only [List.forall_mem_cons]
      exact ⟨by decide, by simp⟩
  · rw [RappConfig.valuesAt, withFlags_load, (named_eq_some hnamed).2, Option.map_some, hempty]

end Rapp
