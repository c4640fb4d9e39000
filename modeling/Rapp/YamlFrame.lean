import Rapp.OptionRange
import Rapp.Precedence

/-!
# What a file can do to the store

Whatever the tokens of a file are, and whether reading them ends with success or
with an error: no option is declared or declared anew, a locked one keeps
everything, and of the others only the values change.
-/
namespace Rapp

open CallOutcome (Outcome)
open ByteBlock

/-- A relation that holds wherever the reader changes an option. -/
structure Rereads (R : ConfigOption → ConfigOption → Prop) : Prop where
  refl : ∀ opt, R opt opt
  trans : ∀ {first second third}, R first second → R second third → R first third
  name : ∀ {old new}, R old new → new.name = old.name
  wiped : ∀ {opt}, opt.noOverride = false → R opt opt.removeAllValues
  added : ∀ {opt}, opt.noOverride = false →
    ∀ text, R opt (opt.configAddValueFromString text true).2

/-- Two stores with the same options, which are related one by one. -/
structure Compared (R : ConfigOption → ConfigOption → Prop) (conf next : RappConfig) : Prop where
  outline_eq : next.outline = conf.outline
  rest : next = { conf with sections := next.sections }
  load : ∀ ref, Option.Rel R (conf.load ref) (next.load ref)

variable {R : ConfigOption → ConfigOption → Prop}

theorem Compared.refl (h : Rereads R) (conf : RappConfig) : Compared R conf conf := by
  refine ⟨rfl, rfl, fun ref => ?_⟩
  cases conf.load ref with
  | none => exact .none
  | some opt => exact .some (h.refl opt)

theorem Compared.trans (h : Rereads R) {first second third : RappConfig}
    (hfirst : Compared R first second) (hsecond : Compared R second third) :
    Compared R first third := by
  refine ⟨hsecond.outline_eq.trans hfirst.outline_eq, ?_, fun ref => ?_⟩
  · rw [hsecond.rest, hfirst.rest]
  · have hbefore := hfirst.load ref
    have hbehind := hsecond.load ref
    revert hbefore hbehind
    generalize first.load ref = x, second.load ref = y, third.load ref = z
    intro hbefore hbehind
    cases hbefore with
    | none => exact hbehind
    | some hab =>
      cases hbehind with
      | some hbc => exact .some (h.trans hab hbc)

theorem compared_store (h : Rereads R) {conf : RappConfig} {ref : OptionRef}
    {old new : ConfigOption} (hload : conf.load ref = some old) (hnew : R old new) :
    Compared R conf (conf.store ref new) := by
  refine ⟨outline_store hload (h.name hnew), rfl, fun other => ?_⟩
  by_cases hsame : ref = other
  · subst hsame
    rw [hload, load_store_same hload]
    exact .some hnew
  · rw [load_store_other hsame]
    exact (Compared.refl h conf).load other

def KeyValueResult.state : KeyValueResult → YamlState
  | .next state | .last state | .error state => state

/-! ### The reader -/

section Reader

variable (h : Rereads R)
include h

theorem rereads_scalar (opt : ConfigOption) (value : Bytes) :
    R opt (configSetValueFromYamlScalar opt value).2 := by
  rw [configSetValueFromYamlScalar]
  cases hlocked : opt.noOverride with
  | true => exact h.refl opt
  | false => exact h.added hlocked (cString value)

theorem rereads_wipe (opt : ConfigOption) : R opt (wipe opt) := by
  rw [wipe]
  cases hlocked : opt.noOverride with
  | true => exact h.refl opt
  | false => exact h.wiped hlocked

theorem rereads_listItems (opt : ConfigOption) (tokens : List YamlToken) :
    (yamlListItems opt tokens).Holds fun left => R opt left.1 := by
  fun_induction yamlListItems opt tokens with
  | case1 opt value tokens result hzero ih =>
    exact ih.mono fun left hleft => h.trans (rereads_scalar h opt value) hleft
  | case3 opt value tokens result hzero ih =>
    exact ih.mono fun left hleft => h.trans (rereads_scalar h opt value) hleft
  | case5 opt value tokens result hzero ih =>
    exact ih.mono fun left hleft => h.trans (rereads_scalar h opt value) hleft
  | case2 opt value => exact rereads_scalar h opt value
  | case4 opt value => exact rereads_scalar h opt value
  | case6 opt value => exact rereads_scalar h opt value
  | _ => exact h.refl _

theorem rereads_list (opt : ConfigOption) (tokens : List YamlToken) :
    (configSetValueFromYamlList opt tokens).Holds fun left => R opt left.1 := by
  rw [configSetValueFromYamlList]
  split
  · exact h.refl opt
  · exact rereads_listItems h opt tokens

theorem compared_value {conf : RappConfig} {ref : OptionRef} {opt : ConfigOption}
    (hload : conf.load ref = some opt) (tokens : List YamlToken) :
    Compared R conf (yamlParseValue conf ref opt tokens).state.conf := by
  have hlist : ∀ rest, Compared R conf
      (yamlParseValue conf ref opt (.value :: .blockSequenceStart :: rest)).state.conf := by
    intro rest
    have hitems := rereads_list h (wipe opt) rest
    simp only [yamlParseValue]
    revert hitems
    cases configSetValueFromYamlList (wipe opt) rest with
    | ok left => exact fun hleft => compared_store h hload (h.trans (rereads_wipe h opt) hleft)
    | failed left => exact fun hleft => compared_store h hload (h.trans (rereads_wipe h opt) hleft)
    | undefined why => exact fun _ => Compared.refl h conf
  unfold yamlParseValue
  split
  · rename_i value rest
    have hvalue := compared_store h hload
      (h.trans (rereads_wipe h opt) (rereads_scalar h (wipe opt) value))
    dsimp only
    split
    · exact hvalue
    · exact hvalue
  · exact hlist _
  · exact hlist _
  · exact Compared.refl h conf

theorem compared_keyValue (sectionIndex : Nat) (state : YamlState) :
    Compared R state.conf (yamlParseKeyValue sectionIndex state).state.conf := by
  unfold yamlParseKeyValue
  split
  · exact Compared.refl h _
  · exact Compared.refl h _
  · split
    · exact Compared.refl h _
    · split
      · exact Compared.refl h _
      · rename_i opt hload
        exact compared_value h hload _
  · split
    · exact Compared.refl h _
    · split
      · exact Compared.refl h _
      · rename_i opt hload
        exact compared_value h hload _
  · exact Compared.refl h _

theorem compared_sectionLoop (sectionIndex : Nat) (state : YamlState) :
    (sectionLoop sectionIndex state).Holds fun left => Compared R state.conf left.conf := by
  refine EndlessLoop.loop_post (P := fun before : YamlState => Compared R state.conf before.conf)
    (sectionRound_shrinks sectionIndex) (fun before hbefore => ?_) (Compared.refl h state.conf)
  have hkept := hbefore.trans h (compared_keyValue h sectionIndex before)
  rw [sectionRound]
  revert hkept
  cases yamlParseKeyValue sectionIndex before with
  | next left => exact id
  | last left => exact id
  | error left => exact id

theorem compared_section (sectionName : Bytes) (state : YamlState) :
    (yamlParseSection sectionName state).Holds fun left => Compared R state.conf left.conf := by
  unfold yamlParseSection
  split
  · split
    · trivial
    · exact Compared.refl h _
  · split
    · exact compared_sectionLoop h _ _
    · exact compared_sectionLoop h _ _
    · exact Compared.refl h _

theorem compared_mainLoop (state : YamlState) :
    (mainLoop state).Holds (Compared R state.conf) := by
  refine EndlessLoop.loop_post (P := fun before : YamlState => Compared R state.conf before.conf)
    mainRound_shrinks (fun before hbefore => ?_) (Compared.refl h state.conf)
  unfold mainRound
  split
  · exact hbefore
  · rename_i name tokens _
    have hkept := (compared_section h name ⟨before.conf, tokens⟩).mono fun left hleft =>
      hbefore.trans h hleft
    revert hkept
    cases yamlParseSection name ⟨before.conf, tokens⟩ with
    | ok left => exact id
    | failed left => exact id
    | undefined why => exact id
  · exact hbefore

/-- The rule for a whole file. -/
theorem compared_main (conf : RappConfig) (tokens : List YamlToken) :
    (configParseMain conf tokens).Holds (Compared R conf) := by
  rw [configParseMain]
  split
  · exact Compared.refl h conf
  · exact compared_mainLoop h _

end Reader

/-! ### Options -/

/-- A locked option is as it was. Of another one the values are new, and they
are of its type and inside its range if the old ones were. -/
structure Refilled (old new : ConfigOption) : Prop where
  locked : old.noOverride = true → new = old
  same : new = { old with values := new.values, numValues := new.numValues }
  sane : Sane old → Sane new
  typed : WellTyped old → WellTyped new
  ranged : Ranged id old → Ranged id new

theorem Refilled.of_offer {opt : ConfigOption} (hopen : opt.noOverride = false)
    {value : ConfigValue} (hfits : value.Fits opt.type) : Refilled opt (opt.offer value) := by
  refine ⟨fun hlocked => ?_, ?_, fun h => h.offer value, fun h => h.offer hfits,
    fun h => h.offer (inRange_of_admits hfits)⟩
  · rw [hopen] at hlocked
    cases hlocked
  · rw [ConfigOption.offer]
    split <;> rfl

theorem rereads_refilled : Rereads Refilled where
  refl opt := ⟨fun _ => rfl, rfl, id, id, id⟩
  trans hfirst hsecond := by
    refine ⟨fun hlocked => ?_, ?_, hsecond.sane ∘ hfirst.sane, hsecond.typed ∘ hfirst.typed,
      hsecond.ranged ∘ hfirst.ranged⟩
    · have hmiddle := hfirst.locked hlocked
      rw [hsecond.locked (hmiddle ▸ hlocked), hmiddle]
    · rw [hsecond.same, hfirst.same]
  name h := by rw [h.same]
  wiped {opt} hopen := by
    refine ⟨fun hlocked => ?_, rfl, fun h => h.use (.removeAllValues ⟨0, 0⟩),
      fun h => ⟨by simp [ConfigOption.removeAllValues], h.default, h.null⟩,
      fun h htype hrange => ⟨by simp [ConfigOption.removeAllValues], (h htype hrange).default⟩⟩
    rw [hopen] at hlocked
    cases hlocked
  added {opt} hopen text := by
    rw [ConfigOption.configAddValueFromString_eq]
    cases hparse : opt.parse text with
    | none => exact ⟨fun _ => rfl, rfl, id, id, id⟩
    | some value => exact .of_offer hopen (ConfigOption.parse_fits hparse)

/-- An option that is found by its names. -/
theorem Compared.named {conf next : RappConfig} (h : Compared R conf next)
    {sectionName name : Bytes} {ref : OptionRef} {old : ConfigOption}
    (hnamed : conf.named sectionName name = some (ref, old)) :
    ∃ new, next.named sectionName name = some (ref, new) ∧ R old new := by
  have hrelated := h.load ref
  rw [(named_eq_some hnamed).2] at hrelated
  cases hnext : next.load ref with
  | none =>
    rw [hnext] at hrelated
    cases hrelated
  | some new =>
    rw [hnext] at hrelated
    cases hrelated with
    | some hr =>
      exact ⟨new, named_congr h.outline_eq hnamed hnext, hr⟩

end Rapp
