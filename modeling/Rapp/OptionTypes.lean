import Rapp.ConfigCalls

/-!
# The types of option values

Values and defaults are unions; the type of the option says which member is
read. The calls that add values check the type, those that set a default do
not. As long as no default is set through the wrong member, every value is read
through the member it was stored through; the getters give it as it was stored
where the caller has room for it.
-/
namespace Rapp

open CallOutcome (Outcome run Always Admitted)
open ByteBlock

/-- What `config_option_destroy` frees as a string. -/
def ConfigOption.destroyFrees (opt : ConfigOption) : List ConfigValue :=
  (if opt.type = .string then opt.values else []) ++
    (if opt.defaultSet = true ∧ opt.type = .string then [opt.defaultValue] else [])

/-- What is freed as a string was stored as one, or is NULL. -/
def FreesStrings (conf : RappConfig) : Prop :=
  ∀ ref opt, conf.load ref = some opt →
    ∀ value ∈ opt.destroyFrees, (∃ text, value = .str text) ∨ value = .null

/-- The value at a position; the default is at the first one when there are no values. -/
def ConfigOption.HoldsAt (opt : ConfigOption) (position : Int) (value : ConfigValue) : Prop :=
  0 ≤ position ∧ (opt.multivalued = 0 → position = 0) ∧
    (opt.values[position.toNat]? = some value ∨
      opt.values = [] ∧ position = 0 ∧ opt.defaultSet = true ∧ opt.defaultValue = value)

/-- The same of the option that is found by its names. -/
def RappConfig.HoldsAt (conf : RappConfig) (sectionName name : Bytes) (position : Int)
    (value : ConfigValue) : Prop :=
  ∃ ref opt, conf.named sectionName name = some (ref, opt) ∧ opt.HoldsAt position value

/-- A call that may change the store, or a getter; `allocated` is for the copy it makes. -/
inductive ConfigUse where
  | change (call : ConfigCall)
  | getNthInt (sectionName name : Bytes) (position : Int)
  | getNthBool (sectionName name : Bytes) (position : Int)
  | getNthString (sectionName name : Bytes) (position : Int) (allocated : Bool)

/-- A setter for another type than that of the option. -/
def Misfit (conf : RappConfig) (call : ConfigCall) : Prop :=
  ∃ ref opt, call.target conf = some (ref, opt) ∧
    match call with
    | .optSetRangeInt _ _ _ _ => opt.type ≠ .int
    | .optSetDefaultString _ _ _ _ | .addValueString _ _ _ _ => opt.type ≠ .string
    | .optSetDefaultInt _ _ _ | .optSetDefaultBool _ _ _ | .addValueInt _ _ _ _ =>
      opt.type = .string
    | _ => False

namespace ConfigUse

/-- Getters leave the store as it is. -/
def apply : ConfigUse → RappConfig → Outcome Empty RappConfig
  | .change call, conf => call.apply conf
  | _, conf => .ok conf

/-- A setter of the wrong type fails and changes nothing; a getter whose result is 0
gives what the option holds there, and that is of the getter's type. -/
def Typed (conf : RappConfig) : ConfigUse → Prop
  | .change call => Misfit conf call → (call.step conf).1 ≠ 0 ∧ (call.step conf).2 = conf
  | .getNthInt sectionName name position => ∀ value,
    conf.getNthInt sectionName name position = some value →
      conf.HoldsAt sectionName name position value ∧ ∃ number, value = .int number
  | .getNthBool sectionName name position => ∀ value,
    conf.getNthBool sectionName name position = some value →
      conf.HoldsAt sectionName name position value ∧ ∃ number, value = .int number
  | .getNthString sectionName name position allocated => ∀ value,
    conf.getNthString sectionName name position allocated = some value →
      conf.HoldsAt sectionName name position value ∧ ∃ text, value = .str text

end ConfigUse

/-- All along the uses. -/
def TypeSafe (uses : List ConfigUse) : Prop :=
  Always ConfigUse.apply FreesStrings RappConfig.new uses ∧
    Admitted ConfigUse.apply ConfigUse.Typed RappConfig.new uses

/-- A default is set through the member the option uses. -/
def DefaultFits (conf : RappConfig) (call : ConfigCall) : Prop :=
  ∀ ref opt, call.target conf = some (ref, opt) →
    match call with
    | .optSetDefaultString _ _ _ _ => opt.type = .string
    | .optSetDefaultInt _ _ _ => opt.type ≠ .string
    | .optSetDefaultBool _ _ value => 0 ≤ value ∧ value ≤ 1 → opt.type ≠ .string
    | _ => True

/-- The integer is one of an `int`. -/
def FitsInt (number : Int) : Prop := -2 ^ 31 ≤ number ∧ number < 2 ^ 31

/-- A default is set through the member its option uses, an integer that is read as an
`int` is one, and there is a string to copy and memory for it. -/
def ConfigUse.Fits (conf : RappConfig) : ConfigUse → Prop
  | .change call => DefaultFits conf call
  | .getNthInt _ _ _ => True
  | .getNthBool sectionName name position => ∀ number,
    conf.HoldsAt sectionName name position (.int number) → FitsInt number
  | .getNthString sectionName name position allocated => ∀ ref opt value,
    conf.named sectionName name = some (ref, opt) → opt.type = .string →
    opt.HoldsAt position value → allocated = true ∧ value ≠ .null

/-! ### The invariant -/

/-- Values are of the type of the option, and so is the default, but for a string
that there was no memory for. -/
structure WellTyped (opt : ConfigOption) : Prop where
  values : ∀ value ∈ opt.values, value.Fits opt.type
  default : opt.defaultSet = true → opt.defaultValue.Fits opt.type ∨ opt.defaultValue = .null
  null : opt.defaultValue = .null → opt.type = .string

theorem wellTyped_new (name : Bytes) (type : RappConfigParamType) (help metavar : Option Bytes) :
    WellTyped (.new name type help metavar) := by
  refine ⟨nofun, nofun, fun hnull => ?_⟩
  cases type with
  | string => rfl
  | bool => cases hnull
  | int => cases hnull

theorem WellTyped.offer {opt : ConfigOption} (h : WellTyped opt) {value : ConfigValue}
    (hfits : value.Fits opt.type) : WellTyped (opt.offer value) := by
  rw [ConfigOption.offer]
  split
  · refine ⟨fun other hmem => ?_, h.default, h.null⟩
    rcases List.mem_append.mp hmem with hold | hnew
    · exact h.values other hold
    · rw [List.mem_singleton.mp hnew]
      exact hfits
  · exact h

/-- A default of the option's own type. -/
theorem WellTyped.setDefault {opt : ConfigOption} (h : WellTyped opt) {value : ConfigValue}
    (hfits : value.Fits opt.type) :
    WellTyped { opt with defaultValue := value, defaultSet := true } := by
  refine ⟨h.values, fun _ => .inl hfits, fun hnull => ?_⟩
  obtain rfl : value = .null := hnull
  exact hfits.elim

/-- Calls that set defaults need the condition, all others check the type. -/
theorem WellTyped.use {opt : ConfigOption} (h : WellTyped opt) {call : ConfigCall}
    {conf : RappConfig} {ref : OptionRef} (htarget : call.target conf = some (ref, opt))
    (hfits : DefaultFits conf call) : WellTyped (call.use opt).2 := by
  have hadds : call.Adds → WellTyped (call.use opt).2 := fun hadds =>
    ConfigCall.use_of_adds hadds h fun _ hoffers => h.offer (ConfigCall.offers_fits hoffers)
  have hdefault := hfits ref opt htarget
  cases call with
  | optAdd => exact h
  | optSetRangeInt sectionName name valueMin valueMax =>
    simp only [ConfigCall.use]
    split
    · exact h
    split
    · exact h
    · exact ⟨h.values, h.default, h.null⟩
  | optSetMultivalued => exact ⟨h.values, h.default, h.null⟩
  | optSetDefaultString sectionName name value allocated =>
    cases allocated with
    | false => exact ⟨h.values, fun _ => .inr rfl, fun _ => hdefault⟩
    | true => exact h.setDefault hdefault
  | optSetDefaultInt => exact h.setDefault hdefault
  | optSetDefaultBool sectionName name value =>
    simp only [ConfigCall.use]
    split
    · exact h
    · exact h.setDefault (hdefault ⟨by omega, by omega⟩)
  | addValueInt => exact hadds trivial
  | addValueString => exact hadds trivial
  | addValueFromString => exact hadds trivial
  | removeAllValues =>
    exact ⟨by simp [ConfigCall.use, ConfigOption.removeAllValues], h.default, h.null⟩
  | setNoOverride => exact ⟨h.values, h.default, h.null⟩

/-! ### What is read -/

theorem ConfigValue.Fits.string {type : RappConfigParamType} {value : ConfigValue}
    (h : value.Fits type) (htype : type = .string) : ∃ text, value = .str text := by
  cases value with
  | int number => exact absurd htype h
  | str text => exact ⟨text, rfl⟩
  | null => exact h.elim

theorem ConfigValue.Fits.number {type : RappConfigParamType} {value : ConfigValue}
    (h : value.Fits type) (htype : type ≠ .string) : ∃ number, value = .int number := by
  cases value with
  | int number => exact ⟨number, rfl⟩
  | str text => exact absurd h htype
  | null => exact h.elim

/-- A getter gives a value of the list or the default. -/
theorem getNth_mem {opt : ConfigOption} {position : Int} {value : ConfigValue}
    (h : RappConfig.getNth opt position = some value) :
    value ∈ opt.values ∨ opt.defaultSet = true ∧ opt.defaultValue = value := by
  unfold RappConfig.getNth at h
  split at h
  · cases h
  split at h
  · rename_i hdefault
    split at h
    · exact .inr ⟨hdefault.2, Option.some.inj h⟩
    · cases h
  · split at h
    · cases h
    · exact .inl (List.mem_of_getElem? h)

theorem WellTyped.of_mem {opt : ConfigOption} (h : WellTyped opt) {value : ConfigValue}
    (hmem : value ∈ opt.values ∨ opt.defaultSet = true ∧ opt.defaultValue = value) :
    value.Fits opt.type ∨ value = .null ∧ opt.type = .string := by
  rcases hmem with hvalue | ⟨hset, rfl⟩
  · exact .inl (h.values value hvalue)
  · exact (h.default hset).imp_right fun hnull => ⟨hnull, h.null hnull⟩

theorem ConfigOption.HoldsAt.mem {opt : ConfigOption} {position : Int} {value : ConfigValue}
    (h : opt.HoldsAt position value) :
    value ∈ opt.values ∨ opt.defaultSet = true ∧ opt.defaultValue = value := by
  obtain ⟨-, -, hvalue | ⟨-, -, hset, hdefault⟩⟩ := h
  · exact .inl (List.mem_of_getElem? hvalue)
  · exact .inr ⟨hset, hdefault⟩

/-- The count says what the list is, so the getters find what the option holds. -/
theorem getNth_iff {opt : ConfigOption} (h : Sane opt) {position : Int} (hposition : 0 ≤ position)
    (value : ConfigValue) :
    RappConfig.getNth opt position = some value ↔ opt.HoldsAt position value := by
  rw [RappConfig.getNth, ConfigOption.HoldsAt, h.counted]
  by_cases hsingle : opt.multivalued = 0 ∧ position ≠ 0
  · rw [if_pos hsingle]
    exact ⟨nofun, fun hholds => absurd (hholds.2.1 hsingle.1) hsingle.2⟩
  have hallowed : opt.multivalued = 0 → position = 0 := by
    intro hzero
    by_contra hne
    exact hsingle ⟨hzero, hne⟩
  rw [if_neg hsingle]
  rw [and_iff_right hposition, and_iff_right hallowed]
  cases hvalues : opt.values with
  | nil =>
    cases hset : opt.defaultSet with
    | false => simp [hposition]
    | true => by_cases hfirst : position = 0 <;> simp [hfirst]
  | cons first rest =>
    have hcount : ¬ (((first :: rest).length : Int) = 0 ∧ opt.defaultSet = true) := by
      rintro ⟨hzero, -⟩
      simp at hzero
      omega
    rw [if_neg hcount]
    simp only [List.cons_ne_nil, false_and, or_false]
    by_cases hend : ((first :: rest).length : Int) ≤ position
    · rw [if_pos hend, List.getElem?_eq_none (by omega)]
    · rw [if_neg hend]

/-- What is read of an option is read of the one that is found by the names. -/
theorem bind_named {conf : RappConfig} {sectionName name : Bytes}
    {f : ConfigOption → Option ConfigValue} {value : ConfigValue} :
    ((conf.getOption sectionName name).bind conf.load).bind f = some value ↔
      ∃ ref opt, conf.named sectionName name = some (ref, opt) ∧ f opt = some value := by
  constructor
  · intro h
    obtain ⟨opt, hopt, hget⟩ := Option.bind_eq_some_iff.mp h
    obtain ⟨ref, href, hload⟩ := Option.bind_eq_some_iff.mp hopt
    exact ⟨ref, opt, by simp [RappConfig.named, href, hload], hget⟩
  · rintro ⟨ref, opt, hnamed, hget⟩
    obtain ⟨hfound, hload⟩ := named_eq_some hnamed
    rw [hfound, Option.bind_some, hload, Option.bind_some, hget]

section

variable {conf : RappConfig} (h : conf.AllOptions Sane) {sectionName name : Bytes}
  {position : Int} {value : ConfigValue}
include h

theorem getNthInt_eq_some : conf.getNthInt sectionName name position = some value ↔
    ∃ ref opt, conf.named sectionName name = some (ref, opt) ∧ opt.type ≠ .string ∧
      opt.HoldsAt position value := by
  rw [RappConfig.getNthInt]
  by_cases hposition : position < 0
  · rw [if_pos hposition]
    refine ⟨nofun, ?_⟩
    rintro ⟨ref, opt, -, -, hlow, -⟩
    omega
  rw [if_neg hposition, bind_named]
  refine exists₂_congr fun ref opt => and_congr_right fun hnamed => ?_
  rw [← getNth_iff (h ref opt (named_eq_some hnamed).2) (by omega)]
  cases opt.type <;> simp

theorem getNthString_eq_some {allocated : Bool} :
    conf.getNthString sectionName name position allocated = some value ↔
      ∃ ref opt stored, conf.named sectionName name = some (ref, opt) ∧ opt.type = .string ∧
        opt.HoldsAt position stored ∧ (if allocated then stored else .null) = value := by
  rw [RappConfig.getNthString]
  by_cases hposition : position < 0
  · rw [if_pos hposition]
    refine ⟨nofun, ?_⟩
    rintro ⟨ref, opt, stored, -, -, ⟨hlow, -⟩, -⟩
    omega
  rw [if_neg hposition, bind_named]
  refine exists₂_congr fun ref opt => ?_
  rw [exists_and_left]
  refine and_congr_right fun hnamed => ?_
  have hget := getNth_iff (h ref opt (named_eq_some hnamed).2) (show 0 ≤ position by omega)
  rw [exists_and_left]
  simp only [← hget]
  cases opt.type <;> simp [Option.map_eq_some_iff]

end

/-! ### Uses that fit -/

theorem freesStrings_of_wellTyped {conf : RappConfig} (h : conf.AllOptions WellTyped) :
    FreesStrings conf := by
  intro ref opt hload value hmem
  have hheld : opt.type = .string ∧
      (value ∈ opt.values ∨ opt.defaultSet = true ∧ opt.defaultValue = value) := by
    rcases List.mem_append.mp hmem with hvalue | hdefault
    · split at hvalue
      · rename_i htype
        exact ⟨htype, .inl hvalue⟩
      · cases hvalue
    · split at hdefault
      · rename_i hset
        exact ⟨hset.2, .inr ⟨hset.1, (List.mem_singleton.mp hdefault).symm⟩⟩
      · cases hdefault
  rcases (h ref opt hload).of_mem hheld.2 with hfits | ⟨hnull, -⟩
  · exact .inl (hfits.string hheld.1)
  · exact .inr hnull

/-- Where the condition holds, a setter of the wrong type is refused. -/
theorem misfit_refused {conf : RappConfig} {call : ConfigCall} (hmisfit : Misfit conf call)
    (hfits : DefaultFits conf call) :
    (call.step conf).1 ≠ 0 ∧ (call.step conf).2 = conf := by
  obtain ⟨ref, opt, htarget, hwrong⟩ := hmisfit
  have hload := ConfigCall.target_load htarget
  have hrefused : call.use opt = (-1, opt) →
      (call.step conf).1 ≠ 0 ∧ (call.step conf).2 = conf := by
    intro huse
    rw [ConfigCall.step_target htarget, huse]
    exact ⟨by simp, store_load hload⟩
  have hdefault := hfits ref opt htarget
  cases call with
  | optSetRangeInt => exact hrefused (if_pos hwrong)
  | optSetDefaultString => exact absurd hdefault hwrong
  | optSetDefaultInt => exact absurd hwrong hdefault
  | optSetDefaultBool sectionName name value =>
    refine hrefused (if_pos ?_)
    by_contra hrange
    exact hdefault ⟨by omega, by omega⟩ hwrong
  | addValueInt =>
    refine hrefused ?_
    rw [ConfigCall.use, ConfigOption.optAddValueInt_eq, if_neg fun h => h.1 hwrong]
  | addValueString sectionName name value =>
    refine hrefused ?_
    cases value with
    | none =>
      rw [ConfigCall.use, ConfigOption.optAddValueString]
      split <;> rfl
    | some text =>
      rw [ConfigCall.use, ConfigOption.optAddValueString_eq, if_neg fun h => hwrong h.1]
  | _ => exact hwrong.elim

/-- A default of the wrong type is taken, or leaves NULL in the union. -/
theorem misfit_of_not_defaultFits {conf : RappConfig} (hwell : conf.AllOptions WellTyped)
    {call : ConfigCall} (h : ¬ DefaultFits conf call) :
    Misfit conf call ∧ ((call.step conf).1 = 0 ∨ (call.step conf).2 ≠ conf) := by
  simp only [DefaultFits, not_forall] at h
  obtain ⟨ref, opt, htarget, hwrong⟩ := h
  have hload := ConfigCall.target_load htarget
  rw [ConfigCall.step_target htarget]
  cases call with
  | optSetDefaultString sectionName name value allocated =>
    refine ⟨⟨ref, opt, htarget, hwrong⟩, ?_⟩
    cases allocated with
    | true => exact .inl rfl
    | false =>
      refine .inr fun hsame => hwrong ((hwell ref opt hload).null ?_)
      have hstored := load_store_same hload { opt with defaultValue := .null }
      have hkept : conf.store ref { opt with defaultValue := .null } = conf := hsame
      rw [hkept, hload] at hstored
      exact congrArg ConfigOption.defaultValue (Option.some.inj hstored)
  | optSetDefaultInt => exact ⟨⟨ref, opt, htarget, not_not.mp hwrong⟩, .inl rfl⟩
  | optSetDefaultBool sectionName name value =>
    simp only [Classical.not_imp, not_not] at hwrong
    exact ⟨⟨ref, opt, htarget, hwrong.2⟩, .inl (congrArg Prod.fst (if_neg (by omega)))⟩
  | _ => exact absurd trivial hwrong

theorem narrow_eq_iff (number : Int) :
    ConfigValue.narrow (.int number) = .int number ↔ FitsInt number := by
  rw [ConfigValue.narrow, ConfigValue.int.injEq, FitsInt]
  constructor
  · intro h
    have hlow := @Int.le_bmod number (2 ^ 32) (by decide)
    have hhigh := @Int.bmod_lt number (2 ^ 32) (by decide)
    rw [h] at hlow hhigh
    exact ⟨by omega, by omega⟩
  · rintro ⟨hlow, hhigh⟩
    exact Int.bmod_eq_of_le (by omega) (by omega)

/-- What an integer option holds is an integer. -/
theorem WellTyped.number {opt : ConfigOption} (h : WellTyped opt) (htype : opt.type ≠ .string)
    {position : Int} {value : ConfigValue} (hheld : opt.HoldsAt position value) :
    ∃ number, value = .int number := by
  rcases h.of_mem hheld.mem with hfits | ⟨-, hstring⟩
  · exact hfits.number htype
  · exact absurd hstring htype

/-- An option holds one value at a position. -/
theorem HoldsAt.unique {conf : RappConfig} (h : conf.AllOptions Sane) {sectionName name : Bytes}
    {position : Int} {ref : OptionRef} {opt : ConfigOption} {value other : ConfigValue}
    (hnamed : conf.named sectionName name = some (ref, opt)) (hheld : opt.HoldsAt position value)
    (hother : conf.HoldsAt sectionName name position other) : value = other := by
  obtain ⟨found, same, hfound, hsame⟩ := hother
  obtain ⟨-, rfl⟩ := Prod.mk.inj (Option.some.inj (hfound.symm.trans hnamed))
  have hsane := h ref same (named_eq_some hnamed).2
  have hget := (getNth_iff hsane hheld.1 value).mpr hheld
  exact Option.some.inj (hget.symm.trans ((getNth_iff hsane hheld.1 other).mpr hsame))

/-- The bits of 2^32 + 5 that are left. -/
example : ConfigValue.narrow (.int 4294967301) = .int 5 := by decide

/-- In a store whose options are of their types, a use does what it should exactly
when it fits. -/
theorem typed_iff_fits {conf : RappConfig} (hsane : conf.AllOptions Sane)
    (hwell : conf.AllOptions WellTyped) (use : ConfigUse) : use.Typed conf ↔ use.Fits conf := by
  cases use with
  | change call =>
    constructor
    · intro htyped
      by_contra hfits
      obtain ⟨hmisfit, htaken⟩ := misfit_of_not_defaultFits hwell hfits
      obtain ⟨hresult, hsame⟩ := htyped hmisfit
      exact htaken.elim hresult fun hchanged => hchanged hsame
    · exact fun hfits hmisfit => misfit_refused hmisfit hfits
  | getNthInt sectionName name position =>
    refine iff_of_true (fun value hget => ?_) trivial
    obtain ⟨ref, opt, hnamed, htype, hheld⟩ := (getNthInt_eq_some hsane).mp hget
    exact ⟨⟨ref, opt, hnamed, hheld⟩, (hwell ref opt (named_eq_some hnamed).2).number htype hheld⟩
  | getNthBool sectionName name position =>
    constructor
    · rintro htyped number ⟨ref, opt, hnamed, hheld⟩
      have htype : opt.type ≠ .string := by
        rcases (hwell ref opt (named_eq_some hnamed).2).of_mem hheld.mem with hfits | ⟨hnull, -⟩
        · exact hfits
        · cases hnull
      have hget : conf.getNthBool sectionName name position =
          some (ConfigValue.narrow (.int number)) := by
        rw [RappConfig.getNthBool,
          (getNthInt_eq_some hsane).mpr ⟨ref, opt, hnamed, htype, hheld⟩, Option.map_some]
      exact (narrow_eq_iff number).mp (HoldsAt.unique hsane hnamed hheld (htyped _ hget).1).symm
    · intro hfits value hget
      obtain ⟨stored, hstored, rfl⟩ := Option.map_eq_some_iff.mp hget
      obtain ⟨ref, opt, hnamed, htype, hheld⟩ := (getNthInt_eq_some hsane).mp hstored
      obtain ⟨number, rfl⟩ := (hwell ref opt (named_eq_some hnamed).2).number htype hheld
      have hholds : conf.HoldsAt sectionName name position (.int number) :=
        ⟨ref, opt, hnamed, hheld⟩
      rw [(narrow_eq_iff number).mpr (hfits number hholds)]
      exact ⟨hholds, number, rfl⟩
  | getNthString sectionName name position allocated =>
    constructor
    · intro htyped ref opt stored hnamed htype hheld
      have hget : conf.getNthString sectionName name position allocated =
          some (if allocated then stored else .null) :=
        (getNthString_eq_some hsane).mpr ⟨ref, opt, stored, hnamed, htype, hheld, rfl⟩
      obtain ⟨-, text, htext⟩ := htyped _ hget
      cases allocated with
      | false => cases htext
      | true =>
        obtain rfl : stored = .str text := htext
        exact ⟨rfl, nofun⟩
    · intro hfits value hget
      obtain ⟨ref, opt, stored, hnamed, htype, hheld, rfl⟩ := (getNthString_eq_some hsane).mp hget
      obtain ⟨rfl, hnull⟩ := hfits ref opt stored hnamed htype hheld
      refine ⟨⟨ref, opt, hnamed, hheld⟩, ?_⟩
      rcases (hwell ref opt (named_eq_some hnamed).2).of_mem hheld.mem with hstored | ⟨hno, -⟩
      · exact hstored.string htype
      · exact absurd hno hnull

/-- Exactly when every default is set through the member its option uses, every
integer read as an `int` is one, and every string that is read is there and can be
copied, everything is read as it was stored and setters of the wrong type fail. -/
theorem typeSafe_iff_usesFit (uses : List ConfigUse) :
    TypeSafe uses ↔ Admitted ConfigUse.apply ConfigUse.Fits RappConfig.new uses := by
  let I := fun conf : RappConfig => conf.AllOptions Sane ∧ conf.AllOptions WellTyped
  have hstart : I RappConfig.new := ⟨allOptions_new Sane, allOptions_new WellTyped⟩
  have hkept : ∀ (use : ConfigUse) (conf next : RappConfig), I conf → use.Fits conf →
      use.apply conf = .ok next → I next := by
    rintro use conf next ⟨hsane, hwell⟩ hfits hstep
    cases use with
    | change call =>
      cases hstep
      exact ⟨hsane.step sane_new fun ref opt _ hopt => hopt.use call,
        hwell.step wellTyped_new fun ref opt htarget hopt => hopt.use htarget hfits⟩
    | _ =>
      cases hstep
      exact ⟨hsane, hwell⟩
  have hsame : Admitted ConfigUse.apply ConfigUse.Typed RappConfig.new uses ↔
      Admitted ConfigUse.apply ConfigUse.Fits RappConfig.new uses :=
    CallOutcome.admitted_iff_of_history (I := fun _ => I) hstart
      (fun xs use ys conf _ h => typed_iff_fits h.1 h.2 use)
      (fun xs use ys conf next _ h hfits hstep => hkept use conf next h hfits hstep)
  constructor
  · exact fun h => hsame.mp h.2
  · intro h
    have hI : Always ConfigUse.apply I RappConfig.new uses :=
      CallOutcome.always_of_admitted hstart (fun use _ => hkept use) h
    refine ⟨fun xs ys conf hcut hrun => ?_, hsame.mpr h⟩
    exact freesStrings_of_wellTyped (hI xs ys conf hcut hrun).2

/-- An integer default for a string option is read as a pointer. -/
theorem not_typeSafe_intDefault :
    ¬ TypeSafe [.change (.optAdd (ascii "core") (ascii "address") .string none none),
      .change (.optSetDefaultInt (ascii "core") (ascii "address") 42),
      .getNthString (ascii "core") (ascii "address") 0 true] := by
  intro h
  have hread := h.2 [.change (.optAdd (ascii "core") (ascii "address") .string none none),
    .change (.optSetDefaultInt (ascii "core") (ascii "address") 42)] _ [] _ rfl rfl
  obtain ⟨-, text, htext⟩ := hread (.int 42) (by decide +kernel)
  cases htext

end Rapp
