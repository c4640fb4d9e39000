import Rapp.OptionNames
import Rapp.OptionTypes

/-!
# The option store as a record of calls

Beside the store, a record of what the calls on each option come to: the values
accepted since the last removal, the default and the multivalued flag set last.
The counts, lists and getters of the store say what the records say.
-/
namespace Rapp

open CallOutcome (Outcome run)
open ByteBlock

/-- The past of an option; `multivalued` is none when the flag was never set. -/
structure OptionRecord where
  values : List ConfigValue
  default : Option ConfigValue
  multivalued : Option Int

namespace OptionRecord

def empty : OptionRecord := ⟨[], none, none⟩

def flag (record : OptionRecord) : Int := record.multivalued.getD 0

/-- A single value, or any number of them, inside the range of the option. -/
def accepts (record : OptionRecord) (opt : ConfigOption) (value : ConfigValue) : Bool :=
  (record.flag ≠ 0 || record.values.isEmpty) &&
    match value with
    | .int number =>
      !opt.rangeSet || (decide (opt.valueMin ≤ number) && decide (number ≤ opt.valueMax))
    | .str _ | .null => true

/-- What a call on the option adds to its past. -/
def note (record : OptionRecord) (opt : ConfigOption) (call : ConfigCall) : OptionRecord :=
  match call with
  | .optSetMultivalued _ _ flag => { record with multivalued := some flag }
  | .optSetDefaultString _ _ value allocated =>
    if allocated then { record with default := some (.str value) }
    else { record with default := record.default.map fun _ => .null }
  | .optSetDefaultInt _ _ value => { record with default := some (.int value) }
  | .optSetDefaultBool _ _ value =>
    if 0 ≤ value ∧ value ≤ 1 then { record with default := some (.int value) } else record
  | .removeAllValues _ => { record with values := [] }
  | _ =>
    match call.offers opt with
    | none => record
    | some value =>
      if record.accepts opt value then { record with values := record.values ++ [value] }
      else record

/-- A call that adds leaves the value it offers, where the past accepts it. -/
theorem note_adds {call : ConfigCall} (h : call.Adds) (record : OptionRecord) (opt : ConfigOption) :
    record.note opt call = (call.offers opt).elim record fun value =>
      if record.accepts opt value then { record with values := record.values ++ [value] }
      else record := by
  cases call with
  | addValueInt | addValueString | addValueFromString =>
    simp only [note]
    split <;> rename_i hoffers <;> rw [hoffers] <;> rfl
  | _ => exact False.elim h

/-- The value at a position; the default is at the first one when there are no values. -/
def read (record : OptionRecord) (position : Int) : Option ConfigValue :=
  if 0 ≤ position ∧ position < record.values.length ∧ (record.flag ≠ 0 ∨ position = 0) then
    record.values[position.toNat]?
  else if record.values = [] ∧ position = 0 then record.default
  else none

end OptionRecord

/-- The store with the past of its options. -/
structure RecordedConfig where
  conf : RappConfig
  records : OptionRef → OptionRecord

namespace RecordedConfig

def new : RecordedConfig := ⟨RappConfig.new, fun _ => .empty⟩

def apply (call : ConfigCall) (state : RecordedConfig) : Outcome Empty RecordedConfig :=
  .ok {
    conf := (call.step state.conf).2
    records := match call.target state.conf with
      | none => state.records
      | some (ref, opt) => fun other =>
        if other = ref then (state.records ref).note opt call else state.records other }

end RecordedConfig

/-! ### Walking the list -/

/-- The NULL behind the last value is dereferenced. -/
structure PastEnd where

/-- `cv = cv->entries.tqe_next` as often as `n` says, then the value of `cv`. -/
def walk : List ConfigValue → Nat → Except PastEnd ConfigValue
  | [], _ => .error ⟨⟩
  | value :: _, 0 => .ok value
  | _ :: values, n + 1 => walk values n

/-- `getNth`, walking the list. -/
def getNthWalking (opt : ConfigOption) (position : Int) : Except PastEnd (Option ConfigValue) :=
  if opt.multivalued = 0 ∧ position ≠ 0 then .ok none
  else if opt.numValues = 0 ∧ opt.defaultSet then
    .ok (if position = 0 then some opt.defaultValue else none)
  else if opt.numValues ≤ position then .ok none
  else (walk opt.values position.toNat).map some

theorem walk_eq {values : List ConfigValue} {n : Nat} (h : n < values.length) :
    (walk values n).map some = .ok values[n]? := by
  induction values generalizing n with
  | nil => simp at h
  | cons value values ih =>
    cases n with
    | zero => rfl
    | succ n => exact ih (by simpa using h)

/-! ### The invariant -/

/-- The option is what its past says. -/
structure Recorded (record : OptionRecord) (opt : ConfigOption) : Prop where
  values_eq : opt.values = record.values
  numValues_eq : opt.numValues = opt.values.length
  multivalued_eq : opt.multivalued = record.flag
  default_eq : (if opt.defaultSet then some opt.defaultValue else none) = record.default
  single : record.multivalued = none → opt.values.length ≤ 1

theorem recorded_new (name : Bytes) (type : RappConfigParamType) (help metavar : Option Bytes) :
    Recorded .empty (.new name type help metavar) :=
  ⟨rfl, rfl, rfl, rfl, fun _ => Nat.zero_le 1⟩

/-- The option admits what its past accepts. -/
theorem Recorded.admits_eq {record : OptionRecord} {opt : ConfigOption} (h : Recorded record opt)
    (value : ConfigValue) : opt.admits value = record.accepts opt value := by
  have hroom : (opt.numValues ≤ 0) ↔ record.values.isEmpty = true := by
    rw [h.numValues_eq, h.values_eq, List.isEmpty_iff_length_eq_zero]
    omega
  simp only [ConfigOption.admits, OptionRecord.accepts, h.multivalued_eq]
  congr 2
  simp only [hroom]
  cases record.values <;> rfl

theorem Recorded.offer {record : OptionRecord} {opt : ConfigOption} (h : Recorded record opt)
    (value : ConfigValue) :
    Recorded (if record.accepts opt value then { record with values := record.values ++ [value] }
      else record) (opt.offer value) := by
  rw [ConfigOption.offer, h.admits_eq]
  cases haccepts : record.accepts opt value with
  | false => exact h
  | true =>
    refine ⟨congrArg (· ++ [value]) h.values_eq, ?_, h.multivalued_eq, h.default_eq,
      fun hnever => ?_⟩
    · simp [ConfigOption.push, h.numValues_eq]
    · -- A flag that was never set is 0, so the list was empty.
      have hempty : record.values = [] := by
        have hnone : record.multivalued = none := hnever
        simp only [OptionRecord.accepts, OptionRecord.flag, hnone, Bool.and_eq_true] at haccepts
        simpa using haccepts.1
      simp [ConfigOption.push, h.values_eq, hempty]

theorem Recorded.use {record : OptionRecord} {opt : ConfigOption} (h : Recorded record opt)
    (call : ConfigCall) : Recorded (record.note opt call) (call.use opt).2 := by
  have hadds : call.Adds → Recorded (record.note opt call) (call.use opt).2 := by
    intro hadds
    rw [ConfigCall.use_adds hadds, OptionRecord.note_adds hadds]
    cases call.offers opt with
    | none => exact h
    | some value => exact h.offer value
  cases call with
  | optAdd => exact h
  | optSetRangeInt sectionName name valueMin valueMax =>
    simp only [OptionRecord.note, ConfigCall.use, ConfigCall.offers]
    split
    · exact h
    split
    · exact h
    · exact ⟨h.values_eq, h.numValues_eq, h.multivalued_eq, h.default_eq, h.single⟩
  | optSetMultivalued =>
    exact ⟨h.values_eq, h.numValues_eq, rfl, h.default_eq, by simp [OptionRecord.note]⟩
  | optSetDefaultString sectionName name value allocated =>
    cases allocated with
    | true => exact ⟨h.values_eq, h.numValues_eq, h.multivalued_eq, rfl, h.single⟩
    | false =>
      refine ⟨h.values_eq, h.numValues_eq, h.multivalued_eq, ?_, h.single⟩
      have hlost : record.default.map (fun _ => ConfigValue.null) =
          if opt.defaultSet then some .null else none := by
        rw [← h.default_eq]
        cases opt.defaultSet <;> rfl
      exact hlost.symm
  | optSetDefaultInt => exact ⟨h.values_eq, h.numValues_eq, h.multivalued_eq, rfl, h.single⟩
  | optSetDefaultBool sectionName name value =>
    simp only [OptionRecord.note, ConfigCall.use]
    by_cases hvalue : 0 ≤ value ∧ value ≤ 1
    · rw [if_pos hvalue, if_neg (by omega)]
      exact ⟨h.values_eq, h.numValues_eq, h.multivalued_eq, rfl, h.single⟩
    · rw [if_neg hvalue, if_pos (by omega)]
      exact h
  | addValueInt => exact hadds trivial
  | addValueString => exact hadds trivial
  | addValueFromString => exact hadds trivial
  | removeAllValues =>
    refine ⟨rfl, ?_, h.multivalued_eq, h.default_eq, fun _ => Nat.zero_le 1⟩
    simp [ConfigCall.use, ConfigOption.removeAllValues, h.numValues_eq]
  | setNoOverride =>
    exact ⟨h.values_eq, h.numValues_eq, h.multivalued_eq, h.default_eq, h.single⟩

/-- Every option is what its past says, and what is no option has no past. -/
structure RecordedConfig.Sound (state : RecordedConfig) : Prop where
  options : ∀ ref opt, state.conf.load ref = some opt → Recorded (state.records ref) opt
  unused : ∀ ref, state.conf.load ref = none → state.records ref = .empty

theorem sound_new : RecordedConfig.new.Sound where
  options := fun ref opt h => by simp [RecordedConfig.new, RappConfig.load, RappConfig.new] at h
  unused := fun _ _ => rfl

/-- Options stay. -/
theorem load_none_of_step {call : ConfigCall} {conf : RappConfig} {ref : OptionRef}
    (h : (call.step conf).2.load ref = none) : conf.load ref = none := by
  cases htarget : call.target conf with
  | none =>
    cases call with
    | optAdd sectionName name type help metavar =>
      rcases load_optAdd conf sectionName name type help metavar ref with hsame | ⟨hnone, -⟩
      · exact hsame.symm.trans h
      · exact hnone
    | _ =>
      rw [ConfigCall.step_no_target htarget (by simp)] at h
      exact h
  | some found =>
    obtain ⟨pointer, old⟩ := found
    rw [ConfigCall.step_target htarget] at h
    by_cases hsame : ref = pointer
    · subst hsame
      rw [load_store_same (ConfigCall.target_load htarget)] at h
      cases h
    · rw [load_store_other (Ne.symm hsame)] at h
      exact h

theorem RecordedConfig.Sound.apply {state next : RecordedConfig} (h : state.Sound)
    {call : ConfigCall} (hstep : RecordedConfig.apply call state = .ok next) : next.Sound := by
  cases hstep
  constructor
  · intro ref opt hload
    cases htarget : call.target state.conf with
    | none =>
      simp only
      rcases ConfigCall.load_step hload with hsame | ⟨hnone, name, type, help, metavar, rfl⟩ |
        ⟨old, hold, rfl⟩
      · exact h.options ref opt hsame
      · rw [h.unused ref hnone]
        exact recorded_new name type help metavar
      · rw [htarget] at hold
        cases hold
    | some found =>
      obtain ⟨pointer, old⟩ := found
      have hold := ConfigCall.target_load htarget
      simp only [ConfigCall.step_target htarget] at hload ⊢
      by_cases hsame : ref = pointer
      · subst hsame
        rw [load_store_same hold] at hload
        cases hload
        rw [if_pos rfl]
        exact (h.options ref old hold).use call
      · rw [load_store_other (Ne.symm hsame)] at hload
        rw [if_neg hsame]
        exact h.options ref opt hload
  · intro ref hnone
    have hbefore := load_none_of_step hnone
    cases htarget : call.target state.conf with
    | none => exact h.unused ref hbefore
    | some found =>
      obtain ⟨pointer, old⟩ := found
      have hold := ConfigCall.target_load htarget
      by_cases hsame : ref = pointer
      · subst hsame
        rw [hold] at hbefore
        cases hbefore
      · simp only [if_neg hsame]
        exact h.unused ref hbefore

/-! ### Getters -/

/-- Every option is what the calls on it come to, under the names it was declared with. -/
structure RecordedConfig.Reads (state : RecordedConfig) : Prop where
  counted : ∀ ref opt, state.conf.load ref = some opt → opt.numValues = opt.values.length
  values_eq : ∀ ref opt, state.conf.load ref = some opt → opt.values = (state.records ref).values
  single : ∀ ref opt, state.conf.load ref = some opt →
    (state.records ref).multivalued = none → opt.values.length ≤ 1
  found : ∀ (ref : OptionRef) sect opt, state.conf.sections[ref.sectionIndex]? = some sect →
    sect.options[ref.optionIndex]? = some opt → state.conf.getOption sect.name opt.name = some ref
  getNthInt_eq : ∀ sectionName name ref opt position,
    state.conf.named sectionName name = some (ref, opt) →
    state.conf.getNthInt sectionName name position =
      if opt.type = .string then none else (state.records ref).read position
  getNthString_eq : ∀ sectionName name ref opt position,
    state.conf.named sectionName name = some (ref, opt) →
    state.conf.getNthString sectionName name position true =
      if opt.type = .string then (state.records ref).read position else none
  getNumValues_eq : ∀ sectionName name ref opt,
    state.conf.named sectionName name = some (ref, opt) →
    state.conf.getNumValues sectionName name = some ((state.records ref).values.length : Int)
  walks : ∀ ref opt position, state.conf.load ref = some opt → 0 ≤ position →
    getNthWalking opt position = .ok (RappConfig.getNth opt position)

theorem Recorded.getNth_eq {record : OptionRecord} {opt : ConfigOption} (h : Recorded record opt)
    {position : Int} (hposition : 0 ≤ position) :
    RappConfig.getNth opt position = record.read position := by
  have hlength := congrArg List.length h.values_eq
  have hcount := h.numValues_eq
  rw [RappConfig.getNth, OptionRecord.read, h.multivalued_eq, ← h.values_eq]
  by_cases hsingle : record.flag = 0 ∧ position ≠ 0
  · rw [if_pos hsingle, if_neg (by omega), if_neg (by omega)]
  rw [if_neg hsingle]
  by_cases hempty : opt.values = []
  · have hzero : opt.numValues = 0 := by simp [hcount, hempty]
    have houtside : ¬ (0 ≤ position ∧ position < ([] : List ConfigValue).length ∧
        (record.flag ≠ 0 ∨ position = 0)) := by
      rw [List.length_nil]
      omega
    rw [hzero, hempty, if_neg houtside, ← h.default_eq]
    cases hset : opt.defaultSet <;> by_cases hfirst : position = 0 <;> simp [hfirst, hposition]
  · have hpositive : opt.numValues ≠ 0 := by
      rw [hcount]
      exact Int.natCast_ne_zero.mpr (mt List.length_eq_zero_iff.mp hempty)
    rw [if_neg (by omega), hcount]
    by_cases hinside : position < opt.values.length
    · rw [if_neg (by omega), if_pos (by omega)]
    · rw [if_pos (by omega), if_neg (by omega), if_neg (fun hnone => hempty hnone.1)]

theorem Recorded.walks {record : OptionRecord} {opt : ConfigOption} (h : Recorded record opt)
    {position : Int} (hposition : 0 ≤ position) :
    getNthWalking opt position = .ok (RappConfig.getNth opt position) := by
  have hcount := h.numValues_eq
  rw [getNthWalking, RappConfig.getNth]
  split
  · rfl
  split
  · rfl
  split
  · rfl
  · exact walk_eq (by omega)

/-- What the getters read is in the record, at any position. -/
theorem Recorded.read_eq {record : OptionRecord} {opt : ConfigOption} (h : Recorded record opt)
    (position : Int) : (if position < 0 then none else RappConfig.getNth opt position) =
      record.read position := by
  by_cases hposition : position < 0
  · rw [if_pos hposition, OptionRecord.read, if_neg (by omega), if_neg (by omega)]
  · rw [if_neg hposition]
    exact h.getNth_eq (by omega)

theorem RecordedConfig.Sound.reads {state : RecordedConfig} (h : state.Sound)
    {declared : List (Bytes × Bytes)} (hnames : NamesDiffer declared state.conf.outline) :
    state.Reads where
  counted := fun ref opt hload => (h.options ref opt hload).numValues_eq
  values_eq := fun ref opt hload => (h.options ref opt hload).values_eq
  single := fun ref opt hload => (h.options ref opt hload).single
  found := fun ref sect opt => getOption_of_namesDiffer hnames
  getNthInt_eq := by
    intro sectionName name ref opt position hnamed
    obtain ⟨hfound, hload⟩ := named_eq_some hnamed
    rw [← (h.options ref opt hload).read_eq, RappConfig.getNthInt, hfound, Option.bind_some, hload,
      Option.bind_some]
    cases htype : opt.type <;> simp
  getNthString_eq := by
    intro sectionName name ref opt position hnamed
    obtain ⟨hfound, hload⟩ := named_eq_some hnamed
    rw [← (h.options ref opt hload).read_eq, RappConfig.getNthString, hfound, Option.bind_some,
      hload, Option.bind_some]
    cases htype : opt.type <;> simp
  getNumValues_eq := by
    intro sectionName name ref opt hnamed
    obtain ⟨hfound, hload⟩ := named_eq_some hnamed
    have hopt := h.options ref opt hload
    rw [RappConfig.getNumValues, hfound, Option.bind_some, hload, Option.map_some,
      hopt.numValues_eq, hopt.values_eq]
  walks := fun ref opt position hload => (h.options ref opt hload).walks

/-! ### Runs -/

/-- The record changes nothing in the store, and calls always succeed or fail in order. -/
theorem run_recorded (calls : List ConfigCall) (state : RecordedConfig) :
    ∃ next, run RecordedConfig.apply calls state = .ok next ∧
      run ConfigCall.apply calls state.conf = .ok next.conf := by
  induction calls generalizing state with
  | nil => exact ⟨state, rfl, rfl⟩
  | cons call calls ih => exact ih _

/-- After any calls that declare no pair of names twice, every option is what the
calls on it come to. -/
theorem reads_of_declaresOnce {calls : List ConfigCall} (h : ConfigCall.DeclaresOnce calls) :
    ∃ state, run RecordedConfig.apply calls .new = .ok state ∧
      run ConfigCall.apply calls RappConfig.new = .ok state.conf ∧ state.Reads := by
  obtain ⟨state, hrecorded, hrun⟩ := run_recorded calls .new
  have hsound : state.Sound := CallOutcome.run_history _ (I := fun _ => RecordedConfig.Sound)
    sound_new (fun _ call before next hbefore hstep => hbefore.apply hstep) hrecorded
  exact ⟨state, hrecorded, hrun, hsound.reads (namesDiffer_run h hrun)⟩

/-- Two options, one of them with a list. -/
theorem reads_declaredTwo : ∃ state, run RecordedConfig.apply
    [.optAdd (ascii "core") (ascii "port") .int none none,
      .optSetMultivalued (ascii "core") (ascii "port") 1,
      .optAdd (ascii "core") (ascii "address") .string none none,
      .addValueInt (ascii "core") (ascii "port") 80 true,
      .addValueInt (ascii "core") (ascii "port") 8080 true] .new = .ok state ∧
    run ConfigCall.apply
    [.optAdd (ascii "core") (ascii "port") .int none none,
      .optSetMultivalued (ascii "core") (ascii "port") 1,
      .optAdd (ascii "core") (ascii "address") .string none none,
      .addValueInt (ascii "core") (ascii "port") 80 true,
      .addValueInt (ascii "core") (ascii "port") 8080 true] RappConfig.new = .ok state.conf ∧
    state.Reads :=
  reads_of_declaresOnce (by decide +kernel)

end Rapp
