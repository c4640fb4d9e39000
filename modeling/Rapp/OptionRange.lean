import Rapp.OptionTypes

/-!
# Ranges

A range is checked when a value is added, and by no other call: not when a
default is set, and not against what is there when the range is set; nor does
`rapp_config_get_nth_bool` look at what it leaves of a `long`. As long as all of
these keep to it, the getters stay inside the range.
-/
namespace Rapp

open CallOutcome (run Always Admitted)
open ByteBlock

/-- An integer in the range of the option. -/
def InRange (opt : ConfigOption) (value : ConfigValue) : Prop :=
  ∃ number, value = .int number ∧ opt.valueMin ≤ number ∧ number ≤ opt.valueMax

/-- What the integer getters return for an option with a range is inside it. -/
structure RangeSound (conf : RappConfig) : Prop where
  ints : ∀ sectionName name position value,
    conf.getNthInt sectionName name position = some value →
    ∀ ref opt, conf.named sectionName name = some (ref, opt) → opt.rangeSet = true →
      InRange opt value
  bools : ∀ sectionName name position value,
    conf.getNthBool sectionName name position = some value →
    ∀ ref opt, conf.named sectionName name = some (ref, opt) → opt.rangeSet = true →
      InRange opt value

/-- What the option holds is inside its range when it is read this way. -/
structure HoldsRange (read : ConfigValue → ConfigValue) (opt : ConfigOption) : Prop where
  values : ∀ value ∈ opt.values, InRange opt (read value)
  default : opt.defaultSet = true → InRange opt (read opt.defaultValue)

/-- Read this way, a default or an added value is inside the range there is, and a new
range holds what there is. -/
def KeepsReading (read : ConfigValue → ConfigValue) (conf : RappConfig) (call : ConfigCall) :
    Prop :=
  ∀ ref opt, call.target conf = some (ref, opt) → opt.type ≠ .string →
    match call with
    | .optSetRangeInt _ _ valueMin valueMax => opt.type = .int → valueMin < valueMax →
      HoldsRange read { opt with valueMin := valueMin, valueMax := valueMax }
    | .optSetDefaultString _ _ _ _ => opt.rangeSet = false
    | .optSetDefaultInt _ _ value => opt.rangeSet = true → InRange opt (read (.int value))
    | .optSetDefaultBool _ _ value => 0 ≤ value ∧ value ≤ 1 → opt.rangeSet = true →
      InRange opt (read (.int value))
    | _ => ∀ value, call.offers opt = some value → opt.rangeSet = true →
      opt.admits value = true → InRange opt (read value)

/-- The integers keep to the range, and so do their low 32 bits. -/
def KeepsRange (conf : RappConfig) (call : ConfigCall) : Prop :=
  KeepsReading id conf call ∧ KeepsReading ConfigValue.narrow conf call

/-- In a range of `int`s the low 32 bits of an integer are the integer. -/
theorem InRange.narrow {opt : ConfigOption} {value : ConfigValue} (h : InRange opt value)
    (hmin : -2 ^ 31 ≤ opt.valueMin) (hmax : opt.valueMax < 2 ^ 31) : InRange opt value.narrow := by
  obtain ⟨number, rfl, hlow, hhigh⟩ := h
  have hfits : FitsInt number := ⟨by omega, by omega⟩
  exact ⟨number, (narrow_eq_iff number).mpr hfits, hlow, hhigh⟩

/-! ### The invariant -/

/-- An integer option with a range holds to it. -/
def Ranged (read : ConfigValue → ConfigValue) (opt : ConfigOption) : Prop :=
  opt.type ≠ .string → opt.rangeSet = true → HoldsRange read opt

section

variable {read : ConfigValue → ConfigValue}

theorem ranged_new (name : Bytes) (type : RappConfigParamType) (help metavar : Option Bytes) :
    Ranged read (.new name type help metavar) := fun _ _ => ⟨nofun, nofun⟩

theorem HoldsRange.setDefault {opt : ConfigOption} (h : HoldsRange read opt) {value : ConfigValue}
    (hvalue : InRange opt (read value)) :
    HoldsRange read { opt with defaultValue := value, defaultSet := true } :=
  ⟨h.values, fun _ => hvalue⟩

theorem Ranged.offer {opt : ConfigOption} (h : Ranged read opt) {value : ConfigValue}
    (hvalue : opt.type ≠ .string → opt.rangeSet = true → opt.admits value = true →
      InRange opt (read value)) : Ranged read (opt.offer value) := by
  rw [ConfigOption.offer]
  cases hadmits : opt.admits value with
  | false => exact h
  | true =>
    intro htype hrange
    have hopt := h htype hrange
    refine ⟨fun other hmem => ?_, hopt.default⟩
    rcases List.mem_append.mp hmem with hold | hnew
    · exact hopt.values other hold
    · rw [List.mem_singleton.mp hnew]
      exact hvalue htype hrange hadmits

/-- An added value has been checked. -/
theorem inRange_of_admits {opt : ConfigOption} {value : ConfigValue} (hfits : value.Fits opt.type)
    (htype : opt.type ≠ .string) (hrange : opt.rangeSet = true)
    (hadmits : opt.admits value = true) : InRange opt value := by
  obtain ⟨number, rfl⟩ := hfits.number htype
  have hchecked := ((ConfigOption.admits_int opt number).mp hadmits).2
  refine ⟨number, rfl, ?_, ?_⟩
  · by_contra hlow
    exact hchecked ⟨hrange, .inl (by omega)⟩
  · by_contra hhigh
    exact hchecked ⟨hrange, .inr (by omega)⟩

theorem Ranged.use {opt : ConfigOption} (h : Ranged read opt) {call : ConfigCall}
    {conf : RappConfig} {ref : OptionRef} (htarget : call.target conf = some (ref, opt))
    (hkeeps : KeepsReading read conf call) : Ranged read (call.use opt).2 := by
  have hcall := hkeeps ref opt htarget
  have hadds : call.Adds → (∀ value, call.offers opt = some value → opt.type ≠ .string →
      opt.rangeSet = true → opt.admits value = true → InRange opt (read value)) →
      Ranged read (call.use opt).2 := fun hadds hoffered =>
    ConfigCall.use_of_adds hadds h fun value hoffers => h.offer (hoffered value hoffers)
  cases call with
  | optAdd => exact h
  | optSetRangeInt sectionName name valueMin valueMax =>
    simp only [ConfigCall.use]
    split
    · exact h
    split
    · exact h
    · rename_i hint hlt
      intro htype _
      have hnew := hcall htype (not_not.mp hint) (by omega)
      exact ⟨hnew.values, hnew.default⟩
  | optSetMultivalued =>
    exact fun htype hrange => ⟨(h htype hrange).values, (h htype hrange).default⟩
  | optSetDefaultString sectionName name value allocated =>
    have hunset : opt.type ≠ .string → opt.rangeSet = false := hcall
    cases allocated with
    | false => exact fun htype hrange => absurd ((hunset htype).symm.trans hrange) (by simp)
    | true => exact fun htype hrange => absurd ((hunset htype).symm.trans hrange) (by simp)
  | optSetDefaultInt => exact fun htype hrange => (h htype hrange).setDefault (hcall htype hrange)
  | optSetDefaultBool sectionName name value =>
    simp only [ConfigCall.use]
    split
    · exact h
    · intro htype hrange
      exact (h htype hrange).setDefault (hcall htype ⟨by omega, by omega⟩ hrange)
  | addValueInt => exact hadds trivial fun value hoffers htype => hcall htype value hoffers
  | addValueString => exact hadds trivial fun value hoffers htype => hcall htype value hoffers
  | addValueFromString => exact hadds trivial fun value hoffers htype => hcall htype value hoffers
  | removeAllValues => exact fun htype hrange =>
      ⟨by simp [ConfigCall.use, ConfigOption.removeAllValues], (h htype hrange).default⟩
  | setNoOverride => exact fun htype hrange => ⟨(h htype hrange).values, (h htype hrange).default⟩

end

/-- What a getter finds in a ranged option. -/
theorem HoldsRange.of_mem {read : ConfigValue → ConfigValue} {opt : ConfigOption}
    (h : HoldsRange read opt) {value : ConfigValue}
    (hmem : value ∈ opt.values ∨ opt.defaultSet = true ∧ opt.defaultValue = value) :
    InRange opt (read value) := by
  rcases hmem with hvalue | ⟨hset, rfl⟩
  · exact h.values value hvalue
  · exact h.default hset

theorem rangeSound_of_ranged {conf : RappConfig} (hsane : conf.AllOptions Sane)
    (h : conf.AllOptions (Ranged id)) (hnarrow : conf.AllOptions (Ranged ConfigValue.narrow)) :
    RangeSound conf := by
  have hread : ∀ read, conf.AllOptions (Ranged read) → ∀ sectionName name position value,
      conf.getNthInt sectionName name position = some value →
      ∀ ref opt, conf.named sectionName name = some (ref, opt) → opt.rangeSet = true →
        InRange opt (read value) := by
    intro read hranged sectionName name position value hget ref opt hnamed hrange
    obtain ⟨found, other, hfound, htype, hheld⟩ := (getNthInt_eq_some hsane).mp hget
    obtain ⟨-, rfl⟩ := Prod.mk.inj (Option.some.inj (hfound.symm.trans hnamed))
    exact (hranged ref other (named_eq_some hnamed).2 htype hrange).of_mem hheld.mem
  refine ⟨hread id h, ?_⟩
  intro sectionName name position value hget
  obtain ⟨stored, hstored, rfl⟩ := Option.map_eq_some_iff.mp hget
  exact hread ConfigValue.narrow hnarrow sectionName name position stored hstored

/-- In every run whose defaults, values and ranges keep to each other, also in the
bits an `int` has of them, what the getters return is in the range. -/
theorem rangeSound_of_keepsRange {calls : List ConfigCall}
    (h : Admitted ConfigCall.apply KeepsRange RappConfig.new calls) :
    Always ConfigCall.apply RangeSound RappConfig.new calls := by
  have hkept : ∀ read, Admitted ConfigCall.apply (KeepsReading read) RappConfig.new calls →
      Always ConfigCall.apply (RappConfig.AllOptions (Ranged read)) RappConfig.new calls :=
    fun read => CallOutcome.always_of_admitted (allOptions_new (Ranged read))
      fun call _ conf next hall hkeeps hstep => by
        cases hstep
        exact hall.step ranged_new fun ref opt htarget hopt => hopt.use htarget hkeeps
  have hints := hkept id fun xs call ys conf hcalls hrun => (h xs call ys conf hcalls hrun).1
  have hbools := hkept ConfigValue.narrow fun xs call ys conf hcalls hrun =>
    (h xs call ys conf hcalls hrun).2
  intro xs ys conf hcalls hrun
  exact rangeSound_of_ranged (sane_run hrun) (hints xs ys conf hcalls hrun)
    (hbools xs ys conf hcalls hrun)

/-- The port: a range, a default inside it, and a value. -/
theorem rangeSound_port :
    Always ConfigCall.apply RangeSound RappConfig.new
      [.optAdd (ascii "core") (ascii "port") .int none none,
        .optSetRangeInt (ascii "core") (ascii "port") 1 65535,
        .optSetDefaultInt (ascii "core") (ascii "port") 8080,
        .addValueInt (ascii "core") (ascii "port") 80 true] := by
  have hadded : ∀ read : ConfigValue → ConfigValue, KeepsReading read RappConfig.new
      (.optAdd (ascii "core") (ascii "port") .int none none) := by
    intro read ref opt htarget
    cases htarget
  refine rangeSound_of_keepsRange (CallOutcome.admitted_cons ⟨hadded _, hadded _⟩
    fun conf hconf => ?_)
  cases hconf
  refine CallOutcome.admitted_cons ?_ fun conf hconf => ?_
  · constructor <;>
    · rintro ref opt htarget - - -
      cases htarget
      exact ⟨nofun, nofun⟩
  cases hconf
  refine CallOutcome.admitted_cons ?_ fun conf hconf => ?_
  · constructor <;>
    · rintro ref opt htarget - -
      cases htarget
      exact ⟨8080, rfl, by decide, by decide⟩
  cases hconf
  refine CallOutcome.admitted_cons ?_ fun conf _ => CallOutcome.admitted_nil KeepsRange conf
  constructor <;>
  · rintro ref opt htarget - value hoffers - -
    cases htarget
    obtain rfl : ConfigValue.int 80 = value := Option.some.inj hoffers
    exact ⟨80, rfl, by decide, by decide⟩

/-- A default outside the range is returned. -/
theorem not_rangeSound_default :
    ¬ Always ConfigCall.apply RangeSound RappConfig.new
      [.optAdd (ascii "core") (ascii "port") .int none none,
        .optSetRangeInt (ascii "core") (ascii "port") 1 65535,
        .optSetDefaultInt (ascii "core") (ascii "port") 70000] := by
  intro h
  have hsound := h _ [] _ (List.append_nil _).symm rfl
  obtain ⟨number, hnumber, -, hhigh⟩ := hsound.ints (ascii "core") (ascii "port") 0 (.int 70000)
    (by decide +kernel) _ _ rfl rfl
  cases hnumber
  exact absurd hhigh (by decide)

end Rapp
