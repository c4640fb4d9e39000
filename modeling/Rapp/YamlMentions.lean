import Rapp.OptionNames
import Rapp.YamlMeaning

/-!
# Mentions of options

A document that is read to its end is a list of mentions, each of one option.
A mention replaces the values of its option unless the option is locked, so
that of several mentions the last one counts.
-/
namespace Rapp

open CallOutcome (Outcome run)
open ByteBlock

/-! ### The values of a form -/

namespace ConfigOption

/-- The values of a list, when each item stands for one. -/
def parseItems (opt : ConfigOption) : List (Option Bytes) → Option (List ConfigValue)
  | [] => some []
  | item :: items =>
    (item.bind fun text => opt.parse (cString text)).bind fun value =>
      (opt.parseItems items).map fun values => value :: values

/-- The option with these values in place of those it has. -/
def withValues (opt : ConfigOption) (values : List ConfigValue) : ConfigOption :=
  { opt with values := values, numValues := values.length }

end ConfigOption

/-- The values a form gives the option, when it is accepted. -/
def ValueForm.values (opt : ConfigOption) : ValueForm → Option (List ConfigValue)
  | .scalar value => opt.parseItems [some value]
  | .list items => if opt.multivalued = 0 then none else opt.parseItems items
  | .other => none

/-- What a mention leaves of its option. -/
def ValueForm.settle (opt : ConfigOption) (form : ValueForm) : ConfigOption :=
  if opt.noOverride then opt else match form.values opt with
    | none => opt
    | some values => opt.withValues values

theorem parse_withValues (opt : ConfigOption) (values : List ConfigValue) (text : Bytes) :
    (opt.withValues values).parse text = opt.parse text := rfl

theorem parseItems_withValues (opt : ConfigOption) (values : List ConfigValue)
    (items : List (Option Bytes)) :
    (opt.withValues values).parseItems items = opt.parseItems items := by
  induction items with
  | nil => rfl
  | cons item items ih =>
    rw [ConfigOption.parseItems, ConfigOption.parseItems, ih]
    rfl

theorem values_withValues (opt : ConfigOption) (values : List ConfigValue) (form : ValueForm) :
    form.values (opt.withValues values) = form.values opt := by
  cases form with
  | scalar value => exact parseItems_withValues opt values _
  | list items =>
    rw [ValueForm.values, ValueForm.values, parseItems_withValues]
    rfl
  | other => rfl

theorem values_settle (opt : ConfigOption) (form later : ValueForm) :
    later.values (form.settle opt) = later.values opt := by
  rw [ValueForm.settle]
  split
  · rfl
  · split
    · rfl
    · exact values_withValues opt _ later

theorem settle_noOverride (opt : ConfigOption) (form : ValueForm) :
    (form.settle opt).noOverride = opt.noOverride := by
  rw [ValueForm.settle]
  split
  · rfl
  · split <;> rfl

theorem settle_name (opt : ConfigOption) (form : ValueForm) :
    (form.settle opt).name = opt.name := by
  rw [ValueForm.settle]
  split
  · rfl
  · split <;> rfl

/-- A later accepted mention takes the place of an earlier one. -/
theorem settle_settle {opt : ConfigOption} {form later : ValueForm}
    (h : (later.values opt).isSome ∨ opt.noOverride = true) :
    later.settle (form.settle opt) = later.settle opt := by
  rw [ValueForm.settle, settle_noOverride, values_settle, ValueForm.settle]
  cases hlocked : opt.noOverride with
  | true => simp [ValueForm.settle, hlocked]
  | false =>
    obtain ⟨values, hvalues⟩ := Option.isSome_iff_exists.mp (h.resolve_right (by simp [hlocked]))
    simp only [hvalues, ValueForm.settle, hlocked]
    cases form.values opt <;> rfl

theorem Sane.settle {opt : ConfigOption} (h : Sane opt) (form : ValueForm) :
    Sane (form.settle opt) := by
  rw [ValueForm.settle]
  split
  · exact h
  · split
    · exact h
    · exact ⟨rfl, h.truth⟩

/-! ### One mention -/

/-- A value that was read from a text is admitted where there is room. -/
theorem admits_of_parse {opt : ConfigOption} (h : Sane opt)
    (hroom : opt.multivalued ≠ 0 ∨ opt.values = []) {text : Bytes} {value : ConfigValue}
    (hparse : opt.parse text = some value) : opt.admits value = true := by
  have hempty : ¬ (opt.multivalued = 0 ∧ 0 < opt.numValues) := by
    rintro ⟨hsingle, hpositive⟩
    rw [h.counted, hroom.resolve_left (not_not.mpr hsingle)] at hpositive
    simp at hpositive
  cases value with
  | str text => exact (opt.admits_str text).mpr hempty
  | null => exact (ConfigOption.parse_fits hparse).elim
  | int number =>
    refine (opt.admits_int number).mpr ⟨hempty, ?_⟩
    rintro ⟨-, houtside⟩
    unfold ConfigOption.parse at hparse
    split at hparse
    · cases hparse
    · rename_i hbool
      have htruth := h.truth hbool
      split at hparse
      · cases hparse
        omega
      · cases hparse
    · dsimp only at hparse
      split at hparse
      · cases hparse
      · rename_i hinside
        cases hparse
        exact hinside (houtside.elim (fun hlow => .inr (.inr (.inl hlow)))
          fun hhigh => .inr (.inr (.inr hhigh)))

/-- An item of an option that is locked. -/
theorem addItem_locked {opt : ConfigOption} (h : opt.noOverride = true) (item : Option Bytes) :
    addItem item opt = if item.isSome then .ok opt else .failed opt := by
  cases item with
  | none => rfl
  | some text => simp [addItem, configSetValueFromYamlScalar, h]

/-- An item of an option with room. -/
theorem addItem_open {opt : ConfigOption} (h : Sane opt) (hopen : opt.noOverride = false)
    (hroom : opt.multivalued ≠ 0 ∨ opt.values = []) (item : Option Bytes) :
    addItem item opt = match item.bind fun text => opt.parse (cString text) with
      | none => .failed opt
      | some value => .ok (opt.push value) := by
  cases item with
  | none => rfl
  | some text =>
    simp only [addItem, configSetValueFromYamlScalar, hopen,
      ConfigOption.configAddValueFromString_eq, Option.bind_some]
    cases hparse : opt.parse (cString text) with
    | none => simp
    | some value => simp [ConfigOption.offer, admits_of_parse h hroom hparse]

theorem run_addItem_locked {opt : ConfigOption} (h : opt.noOverride = true)
    (items : List (Option Bytes)) :
    run addItem items opt = if items.all Option.isSome then .ok opt else .failed opt := by
  induction items with
  | nil => rfl
  | cons item items ih =>
    rw [CallOutcome.run_cons, addItem_locked h]
    cases item with
    | none => simp
    | some text => simpa using ih

theorem push_eq {opt : ConfigOption} (h : Sane opt) (value : ConfigValue) :
    opt.push value = opt.withValues (opt.values ++ [value]) := by
  simp [ConfigOption.push, ConfigOption.withValues, h.counted]

@[simp] theorem withValues_multivalued (opt : ConfigOption) (values : List ConfigValue) :
    (opt.withValues values).multivalued = opt.multivalued := rfl

theorem Sane.withValues {opt : ConfigOption} (h : Sane opt) (values : List ConfigValue) :
    Sane (opt.withValues values) := ⟨rfl, h.truth⟩

/-- A list of items is read to its end when each stands for a value. -/
theorem run_addItem_open {opt : ConfigOption} (h : Sane opt) (hopen : opt.noOverride = false)
    (hmulti : opt.multivalued ≠ 0) (items : List (Option Bytes)) (next : ConfigOption) :
    run addItem items opt = .ok next ↔
      ∃ values, opt.parseItems items = some values ∧
        next = opt.withValues (opt.values ++ values) := by
  induction items generalizing opt with
  | nil =>
    have hsame : opt.withValues opt.values = opt := by
      simp [ConfigOption.withValues, ← h.counted]
    simp [ConfigOption.parseItems, hsame, eq_comm]
  | cons item items ih =>
    rw [CallOutcome.run_cons, addItem_open h hopen (.inl hmulti), ConfigOption.parseItems]
    cases hvalue : item.bind fun text => opt.parse (cString text) with
    | none => simp
    | some value =>
      have hwith := h.withValues (opt.values ++ [value])
      have hrest := ih hwith hopen hmulti
      rw [parseItems_withValues] at hrest
      simp only [Outcome.bind_ok, push_eq h, hrest, Option.bind_some, Option.map_eq_some_iff]
      constructor
      · rintro ⟨values, hvalues, rfl⟩
        refine ⟨value :: values, ⟨values, hvalues, rfl⟩, ?_⟩
        simp [ConfigOption.withValues]
      · rintro ⟨-, ⟨values, hvalues, rfl⟩, rfl⟩
        refine ⟨values, hvalues, ?_⟩
        simp [ConfigOption.withValues]

theorem wipe_eq {opt : ConfigOption} (h : Sane opt) (hopen : opt.noOverride = false) :
    wipe opt = opt.withValues [] := by
  simp [wipe, hopen, ConfigOption.removeAllValues, ConfigOption.withValues, h.counted]

/-- A mention of an option that is not locked succeeds when its form is accepted. -/
theorem set_open {opt : ConfigOption} (h : Sane opt) (hopen : opt.noOverride = false)
    (form : ValueForm) (next : ConfigOption) :
    form.set opt = .ok next ↔
      ∃ values, form.values opt = some values ∧ next = opt.withValues values := by
  cases form with
  | scalar value =>
    have hitem := addItem_open (h.withValues []) hopen (.inr rfl) (some value)
    rw [ValueForm.set, wipe_eq h hopen, hitem, ValueForm.values, ConfigOption.parseItems,
      ConfigOption.parseItems, Option.bind_some, parse_withValues, Option.bind_some]
    cases opt.parse (cString value) with
    | none => simp
    | some parsed =>
      simp only [push_eq (h.withValues [])]
      simp [ConfigOption.withValues, eq_comm]
  | list items =>
    rw [ValueForm.set, wipe_eq h hopen, ValueForm.values, withValues_multivalued]
    by_cases hmulti : opt.multivalued = 0
    · rw [if_pos hmulti, if_pos hmulti]
      simp
    · rw [if_neg hmulti, if_neg hmulti, run_addItem_open (h.withValues []) hopen hmulti,
        parseItems_withValues]
      simp [ConfigOption.withValues]
  | other => simp [ValueForm.set, ValueForm.values]

/-- A mention of a locked option changes nothing. -/
theorem set_locked {opt : ConfigOption} (h : opt.noOverride = true) {form : ValueForm}
    {next : ConfigOption} (hset : form.set opt = .ok next) : next = opt := by
  have hwipe : wipe opt = opt := if_pos h
  cases form with
  | scalar value =>
    rw [ValueForm.set, hwipe, addItem_locked h] at hset
    exact (Outcome.ok.inj hset).symm
  | list items =>
    rw [ValueForm.set, hwipe, run_addItem_locked h] at hset
    split at hset
    · cases hset
    split at hset
    · exact (Outcome.ok.inj hset).symm
    · cases hset
  | other => cases hset

theorem set_settles {opt : ConfigOption} (h : Sane opt) {form : ValueForm} {next : ConfigOption}
    (hset : form.set opt = .ok next) :
    next = form.settle opt ∧ ((form.values opt).isSome ∨ opt.noOverride = true) := by
  cases hlocked : opt.noOverride with
  | true =>
    refine ⟨(set_locked hlocked hset).trans ?_, .inr rfl⟩
    rw [ValueForm.settle, if_pos hlocked]
  | false =>
    obtain ⟨values, hvalues, rfl⟩ := (set_open h hlocked form next).mp hset
    simp [ValueForm.settle, hlocked, hvalues]

theorem parseItems_isSome {opt : ConfigOption} {items : List (Option Bytes)}
    (h : (opt.parseItems items).isSome) : items.all Option.isSome = true := by
  induction items with
  | nil => rfl
  | cons item items ih =>
    rw [ConfigOption.parseItems] at h
    cases item with
    | none => simp at h
    | some text =>
      obtain ⟨values, hvalues⟩ := Option.isSome_iff_exists.mp h
      obtain ⟨value, -, hrest⟩ := Option.bind_eq_some_iff.mp hvalues
      obtain ⟨others, hothers, -⟩ := Option.map_eq_some_iff.mp hrest
      simpa using ih (by simp [hothers])

/-- An accepted form is taken by every option, locked or not. -/
theorem set_of_values {opt : ConfigOption} (h : Sane opt) {form : ValueForm}
    (hvalues : (form.values opt).isSome) : form.set opt = .ok (form.settle opt) := by
  cases hlocked : opt.noOverride with
  | false =>
    obtain ⟨values, hsome⟩ := Option.isSome_iff_exists.mp hvalues
    refine (set_open h hlocked form _).mpr ⟨values, hsome, ?_⟩
    simp [ValueForm.settle, hlocked, hsome]
  | true =>
    have hwipe : wipe opt = opt := if_pos hlocked
    rw [ValueForm.settle, if_pos hlocked]
    cases form with
    | scalar value => rw [ValueForm.set, hwipe, addItem_locked hlocked]; rfl
    | list items =>
      rw [ValueForm.values] at hvalues
      by_cases hmulti : opt.multivalued = 0
      · simp [hmulti] at hvalues
      · rw [if_neg hmulti] at hvalues
        rw [ValueForm.set, hwipe, if_neg hmulti, run_addItem_locked hlocked,
          if_pos (parseItems_isSome hvalues)]
    | other => simp [ValueForm.values] at hvalues

/-! ### Mentions in order -/

/-- An option of a section, with the form of its value. -/
structure Mention where
  sectionIndex : Nat
  name : Bytes
  form : ValueForm

namespace Mention

def read (mention : Mention) (conf : RappConfig) : ConfigResult :=
  assign mention.sectionIndex (some (mention.name, mention.form)) conf

/-- The option it names. -/
def ref (conf : RappConfig) (mention : Mention) : Option OptionRef :=
  conf.getOptionFromSect mention.sectionIndex (cString mention.name)

end Mention

/-- The form of the last mention of an option. -/
def lastForm (conf : RappConfig) (mentions : List Mention) (ref : OptionRef) :
    Option ValueForm :=
  (mentions.reverse.find? fun mention => mention.ref conf = some ref).map Mention.form

/-- An option behind the mentions. -/
def settleLast (form : Option ValueForm) (opt : ConfigOption) : ConfigOption :=
  match form with
  | none => opt
  | some form => form.settle opt

theorem getOptionFromSect_congr {conf next : RappConfig} (h : next.outline = conf.outline)
    (sectionIndex : Nat) (name : Bytes) :
    next.getOptionFromSect sectionIndex name = conf.getOptionFromSect sectionIndex name := by
  have hnames : ∀ conf : RappConfig, conf.getOptionFromSect sectionIndex name =
      conf.outline[sectionIndex]?.bind fun entry =>
        (entry.2.findIdx? fun n => n = name).map fun optionIndex =>
          ⟨sectionIndex, optionIndex⟩ := by
    intro conf
    rw [RappConfig.getOptionFromSect, RappConfig.outline, List.getElem?_map]
    cases conf.sections[sectionIndex]? with
    | none => rfl
    | some sect =>
      simp only [Option.map_some, Option.bind_some, ConfigSection.findOption, List.findIdx?_map]
      rfl
  rw [hnames, hnames, h]

/-- The configuration behind the mentions: the last one of each option counts. -/
structure Settled (conf next : RappConfig) (mentions : List Mention) : Prop where
  outline_eq : next.outline = conf.outline
  load_eq : ∀ ref, next.load ref = (conf.load ref).map (settleLast (lastForm conf mentions ref))
  accepted : ∀ ref opt form, conf.load ref = some opt → lastForm conf mentions ref = some form →
    (form.values opt).isSome ∨ opt.noOverride = true

theorem settled_nil (conf : RappConfig) : Settled conf conf [] := by
  refine ⟨rfl, fun ref => ?_, fun ref opt form _ h => nomatch h⟩
  cases conf.load ref <;> rfl

theorem lastForm_concat (conf : RappConfig) (mentions : List Mention) (mention : Mention)
    (ref : OptionRef) : lastForm conf (mentions ++ [mention]) ref =
      if mention.ref conf = some ref then some mention.form else lastForm conf mentions ref := by
  rw [lastForm, List.reverse_concat, List.find?_cons]
  by_cases h : mention.ref conf = some ref
  · simp [h]
  · simp [h, lastForm]

theorem Sane.settleLast {opt : ConfigOption} (h : Sane opt) (form : Option ValueForm) :
    Sane (settleLast form opt) := by
  cases form with
  | none => exact h
  | some form => exact h.settle form

theorem values_settleLast (opt : ConfigOption) (earlier : Option ValueForm) (form : ValueForm) :
    form.values (settleLast earlier opt) = form.values opt := by
  cases earlier with
  | none => rfl
  | some earlier => exact values_settle opt earlier form

theorem settle_settleLast {opt : ConfigOption} {form : ValueForm} (earlier : Option ValueForm)
    (h : (form.values opt).isSome ∨ opt.noOverride = true) :
    form.settle (settleLast earlier opt) = form.settle opt := by
  cases earlier with
  | none => rfl
  | some earlier => exact settle_settle h

theorem settleLast_noOverride (opt : ConfigOption) (form : Option ValueForm) :
    (settleLast form opt).noOverride = opt.noOverride := by
  cases form with
  | none => rfl
  | some form => exact settle_noOverride opt form

/-- The step rule: an option of the configuration gets the form of the mention. -/
theorem Settled.store {conf next : RappConfig} {mentions : List Mention}
    (h : Settled conf next mentions) {mention : Mention} {ref : OptionRef} {opt : ConfigOption}
    (href : mention.ref conf = some ref) (hload : conf.load ref = some opt)
    (haccepted : (mention.form.values opt).isSome ∨ opt.noOverride = true) :
    Settled conf (next.store ref (mention.form.settle opt)) (mentions ++ [mention]) := by
  have hnext : next.load ref = some (settleLast (lastForm conf mentions ref) opt) := by
    rw [h.load_eq, hload]
    rfl
  have hname : (settleLast (lastForm conf mentions ref) opt).name = opt.name := by
    cases lastForm conf mentions ref with
    | none => rfl
    | some form => exact settle_name opt form
  constructor
  · rw [outline_store hnext ((settle_name opt _).trans hname.symm)]
    exact h.outline_eq
  · intro other
    rw [lastForm_concat, href]
    by_cases hother : ref = other
    · subst hother
      rw [load_store_same hnext, if_pos rfl, hload]
      rfl
    · rw [load_store_other hother, if_neg (by simpa using hother)]
      exact h.load_eq other
  · intro other opt' form hopt hform
    rw [lastForm_concat, href] at hform
    by_cases hother : ref = other
    · subst hother
      rw [if_pos rfl] at hform
      cases hform
      rw [hload] at hopt
      cases hopt
      exact haccepted
    · rw [if_neg (by simpa using hother)] at hform
      exact h.accepted other opt' form hopt hform

theorem Settled.optionNamed {conf next : RappConfig} {mentions : List Mention}
    (h : Settled conf next mentions) (mention : Mention) :
    optionNamed next mention.sectionIndex mention.name =
      (mention.ref conf).bind fun ref => (conf.load ref).map fun opt =>
        (ref, settleLast (lastForm conf mentions ref) opt) := by
  rw [Rapp.optionNamed, getOptionFromSect_congr h.outline_eq]
  congr 1
  funext ref
  rw [h.load_eq]
  cases conf.load ref <;> rfl

theorem Settled.read {conf next after : RappConfig} {mentions : List Mention}
    (h : Settled conf next mentions) (hsane : conf.AllOptions Sane) {mention : Mention}
    (hread : mention.read next = .ok after) : Settled conf after (mentions ++ [mention]) := by
  rw [Mention.read, assign, h.optionNamed] at hread
  cases href : mention.ref conf with
  | none => simp [href] at hread
  | some ref =>
    cases hload : conf.load ref with
    | none => simp [href, hload] at hread
    | some opt =>
      simp only [href, hload, Option.bind_some, Option.map_some] at hread
      obtain ⟨opt', hset, rfl⟩ := Outcome.map_eq_ok.mp hread
      have hopt := hsane ref opt hload
      obtain ⟨rfl, haccepted⟩ := set_settles (hopt.settleLast _) hset
      rw [values_settleLast, settleLast_noOverride] at haccepted
      rw [settle_settleLast _ haccepted]
      exact h.store href hload haccepted

theorem settled_run {conf next : RappConfig} (hsane : conf.AllOptions Sane)
    {mentions : List Mention} (h : run Mention.read mentions conf = .ok next) :
    Settled conf next mentions :=
  CallOutcome.run_history _ (I := fun mentions next => Settled conf next mentions)
    (settled_nil conf) (fun _ _ _ _ hbefore hread => hbefore.read hsane hread) h

/-- Mentions that are all accepted are read to the end. -/
theorem run_accepted {conf : RappConfig} (hsane : conf.AllOptions Sane) {mentions : List Mention}
    (h : ∀ mention ∈ mentions, ∃ ref opt, mention.ref conf = some ref ∧
      conf.load ref = some opt ∧ (mention.form.values opt).isSome) :
    ∃ next, run Mention.read mentions conf = .ok next := by
  induction mentions using List.reverseRecOn with
  | nil => exact ⟨conf, rfl⟩
  | append_singleton mentions mention ih =>
    obtain ⟨before, hbefore⟩ := ih fun other hother => h other (by simp [hother])
    obtain ⟨ref, opt, href, hload, hvalues⟩ := h mention (by simp)
    have hsettled := settled_run hsane hbefore
    have hopt := (hsane ref opt hload).settleLast (lastForm conf mentions ref)
    have hsome : (mention.form.values (settleLast (lastForm conf mentions ref) opt)).isSome := by
      rw [values_settleLast]
      exact hvalues
    rw [CallOutcome.run_concat, hbefore, Outcome.bind_ok, Mention.read, assign,
      hsettled.optionNamed, href, Option.bind_some, hload, Option.map_some]
    simp only [set_of_values hopt hsome]
    exact ⟨_, rfl⟩

/-! ### Documents -/

/-- The mentions of a section that is declared. -/
def YamlSection.mentions (conf : RappConfig) (sect : YamlSection) : List Mention :=
  match conf.sectionGet (cString sect.name), sect.value.body with
  | some sectionIndex, some assignments =>
    assignments.filterMap fun entry => entry.map fun (name, form) => ⟨sectionIndex, name, form⟩
  | _, _ => []

/-- A section that is read to its end is the mentions in it. -/
theorem run_assign_mentions (sectionIndex : Nat) {assignments : List Assignment}
    {conf next : RappConfig} (h : run (assign sectionIndex) assignments conf = .ok next) :
    run Mention.read (assignments.filterMap fun entry =>
      entry.map fun (name, form) => ⟨sectionIndex, name, form⟩) conf = .ok next := by
  induction assignments generalizing conf with
  | nil => exact h
  | cons entry assignments ih =>
    obtain ⟨middle, hentry, hrest⟩ := Outcome.bind_eq_ok.mp h
    cases entry with
    | none => cases hentry
    | some entry =>
      simp only [List.filterMap_cons, Option.map_some, CallOutcome.run_cons]
      have hread : Mention.read ⟨sectionIndex, entry.1, entry.2⟩ conf = .ok middle := hentry
      rw [hread]
      exact ih hrest

theorem readSection_mentions {sect : YamlSection} {conf next : RappConfig}
    (h : readSection sect conf = .ok next) :
    run Mention.read (sect.mentions conf) conf = .ok next := by
  rw [readSection] at h
  rw [YamlSection.mentions]
  cases hget : conf.sectionGet (cString sect.name) with
  | none =>
    rw [hget] at h
    exact h
  | some sectionIndex =>
    cases hbody : sect.value.body with
    | none =>
      rw [hget, hbody] at h
      cases h
    | some assignments =>
      rw [hget, hbody] at h
      exact run_assign_mentions sectionIndex h

theorem mentions_congr {conf next : RappConfig}
    (h : ∀ name, next.sectionGet name = conf.sectionGet name)
    (sect : YamlSection) : sect.mentions next = sect.mentions conf := by
  rw [YamlSection.mentions, YamlSection.mentions, h]

theorem run_sections_mentions {sections : List YamlSection} {conf next : RappConfig}
    (h : run readSection sections conf = .ok next) :
    run Mention.read (sections.flatMap (YamlSection.mentions conf)) conf = .ok next := by
  induction sections generalizing conf with
  | nil => exact h
  | cons sect sections ih =>
    obtain ⟨middle, hsect, hrest⟩ := Outcome.bind_eq_ok.mp h
    have hkept : ∀ name, middle.sectionGet name = conf.sectionGet name := by
      intro name
      have hholds : (readSection sect conf).Holds fun next =>
          next.sectionGet name = conf.sectionGet name := readSection_sectionGet rfl
      exact hholds.ok hsect
    have hmentions : sections.flatMap (YamlSection.mentions conf) =
        sections.flatMap (YamlSection.mentions middle) :=
      List.flatMap_congr fun sect _ => (mentions_congr hkept sect).symm
    rw [List.flatMap_cons, CallOutcome.run_append, readSection_mentions hsect, Outcome.bind_ok,
      hmentions]
    exact ih hrest

end Rapp
