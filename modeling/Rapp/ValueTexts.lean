import Mathlib.Data.List.TakeWhile
import Mathlib.Data.Nat.Digits.Defs
import Rapp.YamlMentions

/-!
# Texts of values

`config_add_value_from_string`, type by type. An integer is what `strtol`
reads to the end of the text, and the empty text has no end to miss. A boolean
is any text the expression matches somewhere, and all of them are stored as 1.
The results of the helpers that add the value are dropped.
-/
namespace Rapp

open CallOutcome (Outcome run)
open ByteBlock

/-! ### Integers -/

inductive Sign where
  | none
  | plus
  | minus

namespace Sign

def text : Sign → Bytes
  | none => []
  | plus => ascii "+"
  | minus => ascii "-"

def apply : Sign → Nat → Int
  | minus, magnitude => -magnitude
  | _, magnitude => magnitude

end Sign

/-- The number that decimal digits denote, the first one the most significant. -/
def decimalNumber (digits : Bytes) : Nat :=
  Nat.ofDigits 10 (digits.reverse.map fun digit => digit.toNat - 48)

/-- Optional white space, an optional sign and at least one digit, with nothing after. -/
def IntegerText (text : Bytes) (number : Int) : Prop :=
  ∃ (space : Bytes) (sign : Sign) (digits : Bytes), text = space ++ (sign.text ++ digits) ∧
    (∀ byte ∈ space, isSpace byte = true) ∧ (∀ byte ∈ digits, isDigit byte = true) ∧
    digits ≠ [] ∧ number = sign.apply (decimalNumber digits)

theorem foldl_decimalNumber (digits : Bytes) :
    digits.foldl (fun n digit => 10 * n + (digit.toNat - 48)) 0 = decimalNumber digits := by
  induction digits using List.reverseRecOn with
  | nil => rfl
  | append_singleton digits digit ih =>
    rw [List.foldl_append, ih, decimalNumber, decimalNumber, List.reverse_append]
    simp only [List.reverse_singleton, List.singleton_append, List.map_cons, Nat.ofDigits_cons,
      List.foldl_cons, List.foldl_nil]
    omega

/-- A digit is neither white space nor a sign. -/
theorem isDigit_apart {byte : UInt8} (h : isDigit byte = true) :
    isSpace byte = false ∧ byte ≠ 43 ∧ byte ≠ 45 := by
  simp only [isDigit, Bool.and_eq_true, decide_eq_true_eq, UInt8.le_iff_toNat_le] at h
  have hlow : 48 ≤ byte.toNat := h.1
  have hne : ∀ n : UInt8, n.toNat < 48 → byte ≠ n := by
    rintro n hn rfl
    omega
  refine ⟨?_, hne 43 (by decide), hne 45 (by decide)⟩
  have hblank : byte ≠ 32 := hne 32 (by decide)
  have hcontrol : ¬ byte ≤ 13 := by
    rw [UInt8.le_iff_toNat_le]
    have hthirteen : (13 : UInt8).toNat = 13 := rfl
    omega
  simp [isSpace, hblank, hcontrol]

/-- What `strtol` takes of white space, a sign and digits. -/
structure StrtolParts where
  sign : Sign
  digits : Bytes
  rest : Bytes

def strtolParts (text : Bytes) : StrtolParts :=
  let trimmed := text.dropWhile isSpace
  let sign : Sign :=
    if trimmed.head? = some 45 then .minus else if trimmed.head? = some 43 then .plus else .none
  let unsigned := match sign with
    | .none => trimmed
    | _ => trimmed.tail
  ⟨sign, unsigned.takeWhile isDigit, unsigned.dropWhile isDigit⟩

theorem strtol_eq (text : Bytes) : strtol text =
    let parts := strtolParts text
    let number := parts.sign.apply (decimalNumber parts.digits)
    if parts.digits = [] then ⟨0, text, false⟩
    else if number < longMin then ⟨longMin, parts.rest, true⟩
    else if longMax < number then ⟨longMax, parts.rest, true⟩
    else ⟨number, parts.rest, false⟩ := by
  simp only [strtol, strtolParts, foldl_decimalNumber]
  by_cases hminus : (text.dropWhile isSpace).head? = some 45
  · simp [hminus, Sign.apply]
  · by_cases hplus : (text.dropWhile isSpace).head? = some 43
    · simp [hplus, Sign.apply]
    · simp [hminus, hplus, Sign.apply]

theorem strtolParts_text (text : Bytes) :
    text = text.takeWhile isSpace ++
      ((strtolParts text).sign.text ++ ((strtolParts text).digits ++ (strtolParts text).rest)) := by
  have hcut : ∀ trimmed : Bytes, (strtolParts text).sign.text ++ trimmed =
      text.dropWhile isSpace → text = text.takeWhile isSpace ++
        ((strtolParts text).sign.text ++ trimmed) := by
    intro trimmed h
    rw [h, List.takeWhile_append_dropWhile]
  refine hcut _ ?_
  simp only [strtolParts, List.takeWhile_append_dropWhile]
  cases htrimmed : text.dropWhile isSpace with
  | nil => rfl
  | cons byte trimmed =>
    by_cases hminus : byte = 45
    · simp [hminus, Sign.text, ascii]
    · by_cases hplus : byte = 43
      · simp [hplus, Sign.text, ascii]
      · simp [hminus, hplus, Sign.text]

/-- An integer text is taken as it was written. -/
theorem strtolParts_integerText {space : Bytes} (hspace : ∀ byte ∈ space, isSpace byte = true)
    (sign : Sign) {digits : Bytes} (hdigits : ∀ byte ∈ digits, isDigit byte = true)
    (hne : digits ≠ []) :
    strtolParts (space ++ (sign.text ++ digits)) = ⟨sign, digits, []⟩ := by
  obtain ⟨digit, more, rfl⟩ := List.exists_cons_of_ne_nil hne
  obtain ⟨hblank, hplus, hminus⟩ := isDigit_apart (hdigits digit List.mem_cons_self)
  have htrimmed : (space ++ (sign.text ++ digit :: more)).dropWhile isSpace =
      sign.text ++ digit :: more := by
    rw [List.dropWhile_append_of_pos hspace]
    cases sign with
    | none => simp [Sign.text, hblank]
    | plus => rfl
    | minus => rfl
  have htake : (digit :: more).takeWhile isDigit = digit :: more :=
    List.takeWhile_eq_self_iff.mpr hdigits
  have hdrop : (digit :: more).dropWhile isDigit = [] := List.dropWhile_eq_nil_iff.mpr hdigits
  simp only [strtolParts, htrimmed]
  cases sign with
  | none => simp [Sign.text, hminus, hplus, htake, hdrop]
  | plus => simp [Sign.text, ascii, htake, hdrop]
  | minus => simp [Sign.text, ascii, htake, hdrop]

/-- `strtol` reads an integer text to its end and says when it is out of range. -/
theorem strtol_integerText {text : Bytes} {number : Int} (h : IntegerText text number) :
    strtol text = if number < longMin then ⟨longMin, [], true⟩
      else if longMax < number then ⟨longMax, [], true⟩ else ⟨number, [], false⟩ := by
  obtain ⟨space, sign, digits, rfl, hspace, hdigits, hne, rfl⟩ := h
  rw [strtol_eq, strtolParts_integerText hspace sign hdigits hne]
  simp [hne]

/-- What `strtol` reads to its end is an integer text, or empty. -/
theorem integerText_of_strtol {text : Bytes} (h : (strtol text).endptr = []) (hne : text ≠ []) :
    ∃ number, IntegerText text number := by
  have htext := strtolParts_text text
  rw [strtol_eq] at h
  simp only at h
  split_ifs at h with hdigits
  · exact absurd h hne
  all_goals
    rw [show (strtolParts text).rest = [] from h, List.append_nil] at htext
    refine ⟨_, text.takeWhile isSpace, (strtolParts text).sign, (strtolParts text).digits, htext,
      fun byte hmem => List.mem_takeWhile_imp hmem, fun byte hmem => ?_, hdigits, rfl⟩
    exact List.mem_takeWhile_imp hmem

theorem integerText_ne_nil {text : Bytes} {number : Int} (h : IntegerText text number) :
    text ≠ [] := by
  obtain ⟨space, sign, digits, rfl, -, -, hne, -⟩ := h
  simp [hne]

/-- A text denotes one integer. -/
theorem IntegerText.unique {text : Bytes} {number other : Int} (h : IntegerText text number)
    (k : IntegerText text other) : number = other := by
  obtain ⟨space, sign, digits, rfl, hspace, hdigits, hne, rfl⟩ := h
  obtain ⟨space', sign', digits', htext, hspace', hdigits', hne', rfl⟩ := k
  have hparts := strtolParts_integerText hspace sign hdigits hne
  rw [htext, strtolParts_integerText hspace' sign' hdigits' hne'] at hparts
  cases hparts
  rfl

/-- The option takes the text as the integer it denotes, when that is a `long`
in the range; otherwise it refuses the text and stays as it is. -/
structure ReadsInteger (opt : ConfigOption) (text : Bytes) : Prop where
  accepts : ∀ number, IntegerText text number → longMin ≤ number → number ≤ longMax →
    opt.valueMin ≤ number → number ≤ opt.valueMax →
    opt.configAddValueFromString text true = (0, opt.push (.int number))
  refuses : (¬ ∃ number, IntegerText text number ∧ longMin ≤ number ∧ number ≤ longMax ∧
    opt.valueMin ≤ number ∧ number ≤ opt.valueMax) →
    (opt.configAddValueFromString text true).1 ≠ 0 ∧
      (opt.configAddValueFromString text true).2 = opt

theorem parse_int {opt : ConfigOption} (h : opt.type = .int) (text : Bytes) : opt.parse text =
    if (strtol text).erange = true ∨ (strtol text).endptr ≠ [] ∨
      (strtol text).val < opt.valueMin ∨ opt.valueMax < (strtol text).val then none
    else some (.int (strtol text).val) := by
  rw [ConfigOption.parse, h]

/-- A number in the range is admitted when the option is empty. -/
theorem admits_of_empty {opt : ConfigOption} (h : opt.numValues = 0) {number : Int}
    (hmin : opt.valueMin ≤ number) (hmax : number ≤ opt.valueMax) :
    opt.admits (.int number) = true := by
  rw [ConfigOption.admits_int]
  omega

/-- A text that denotes no integer in the range fails one of the tests, unless
it is empty and 0 is in the range. -/
theorem refused_of_no_integer {opt : ConfigOption} {text : Bytes}
    (hcond : ¬ (text = [] ∧ opt.valueMin ≤ 0 ∧ 0 ≤ opt.valueMax))
    (hnone : ¬ ∃ number, IntegerText text number ∧ longMin ≤ number ∧ number ≤ longMax ∧
      opt.valueMin ≤ number ∧ number ≤ opt.valueMax) :
    (strtol text).erange = true ∨ (strtol text).endptr ≠ [] ∨
      (strtol text).val < opt.valueMin ∨ opt.valueMax < (strtol text).val := by
  by_cases hend : (strtol text).endptr = []
  · by_cases hnil : text = []
    · subst hnil
      have hzero : strtol [] = ⟨0, [], false⟩ := rfl
      simp only [true_and, not_and] at hcond
      simp only [hzero]
      omega
    · obtain ⟨number, hnumber⟩ := integerText_of_strtol hend hnil
      rw [strtol_integerText hnumber]
      split_ifs with hlow hhigh
      · exact .inl rfl
      · exact .inl rfl
      · by_contra hin
        simp only [not_or] at hin
        exact hnone ⟨number, hnumber, by omega, by omega, by omega, by omega⟩
  · exact .inr (.inl hend)

/-- An integer option without values reads every text as the grammar says,
except for the empty text where 0 is in the range. -/
theorem readsInteger_iff {opt : ConfigOption} (htype : opt.type = .int) (hempty : opt.numValues = 0)
    (text : Bytes) :
    ReadsInteger opt text ↔ ¬ (text = [] ∧ opt.valueMin ≤ 0 ∧ 0 ≤ opt.valueMax) := by
  have hresult := opt.configAddValueFromString_eq text true
  rw [parse_int htype] at hresult
  constructor
  · rintro h ⟨rfl, hmin, hmax⟩
    have hnone : ¬ ∃ number, IntegerText [] number ∧ longMin ≤ number ∧ number ≤ longMax ∧
        opt.valueMin ≤ number ∧ number ≤ opt.valueMax := by
      rintro ⟨number, hnumber, -⟩
      exact integerText_ne_nil hnumber rfl
    have hzero : strtol [] = ⟨0, [], false⟩ := rfl
    rw [hzero, if_neg (by simp; omega)] at hresult
    exact (h.refuses hnone).1 (congrArg Prod.fst hresult)
  · intro hcond
    constructor
    · intro number hnumber hlow hhigh hmin hmax
      have hread : strtol text = ⟨number, [], false⟩ := by
        rw [strtol_integerText hnumber, if_neg (by omega), if_neg (by omega)]
      rw [hread, if_neg (by simp; omega)] at hresult
      rw [hresult]
      simp [ConfigOption.offer, admits_of_empty hempty hmin hmax]
    · intro hnone
      rw [if_pos (refused_of_no_integer hcond hnone)] at hresult
      rw [hresult]
      exact ⟨(by decide : (-1 : Int) ≠ 0), rfl⟩

/-- The option of `core.port`, just declared. -/
def portOption : ConfigOption := .new (ascii "port") .int (some (ascii "Port")) none

theorem readsInteger_portText : ReadsInteger portOption (ascii " +80") :=
  (readsInteger_iff rfl rfl _).mpr (by decide)

/-- The empty text gives the option the value 0. -/
theorem not_readsInteger_empty : ¬ ReadsInteger portOption [] := by
  intro h
  have hnone : ¬ ∃ number, IntegerText [] number ∧ longMin ≤ number ∧ number ≤ longMax ∧
      portOption.valueMin ≤ number ∧ number ≤ portOption.valueMax := by
    rintro ⟨number, hnumber, -⟩
    exact integerText_ne_nil hnumber rfl
  exact (h.refuses hnone).1 rfl

/-! ### Booleans -/

def trueWords : List Bytes :=
  [ascii "yes", ascii "Yes", ascii "YES", ascii "true", ascii "True", ascii "TRUE", ascii "on",
    ascii "On", ascii "ON", ascii "1"]

def falseWords : List Bytes :=
  [ascii "no", ascii "No", ascii "NO", ascii "false", ascii "False", ascii "FALSE", ascii "off",
    ascii "Off", ascii "OFF", ascii "0"]

/-- The option takes the words of the grammar with their values, and no other text. -/
structure ReadsBoolean (opt : ConfigOption) (text : Bytes) : Prop where
  true_word : text ∈ trueWords → opt.configAddValueFromString text true = (0, opt.push (.int 1))
  false_word : text ∈ falseWords → opt.configAddValueFromString text true = (0, opt.push (.int 0))
  other : text ∉ trueWords → text ∉ falseWords →
    ¬ ((opt.configAddValueFromString text true).1 = 0 ∧
      ∃ value, (opt.configAddValueFromString text true).2 = opt.push value)

/-- Every word of the grammar matches. -/
theorem regexec_word : ∀ text ∈ trueWords ++ falseWords, regexec regexBool text = true := by
  decide +kernel

theorem push_inj {opt : ConfigOption} {value other : ConfigValue}
    (h : opt.push value = opt.push other) : value = other := by
  have hvalues : opt.values ++ [value] = opt.values ++ [other] := congrArg ConfigOption.values h
  simpa using hvalues

/-- What a boolean option makes of a text. -/
theorem addFromString_bool {opt : ConfigOption} (hsane : Sane opt) (htype : opt.type = .bool)
    (hempty : opt.values = []) (text : Bytes) :
    opt.configAddValueFromString text true =
      if regexec regexBool text = true then (0, opt.push (.int 1)) else (-1, opt) := by
  have hparse : opt.parse text =
      if regexec regexBool text = true then some (.int 1) else none := by
    rw [ConfigOption.parse, htype]
  rw [ConfigOption.configAddValueFromString_eq, hparse]
  by_cases hmatch : regexec regexBool text = true
  · have hadmits : opt.admits (.int 1) = true := by
      refine admits_of_empty ?_ (hsane.truth htype).1 (hsane.truth htype).2
      rw [hsane.counted, hempty]
      rfl
    simp [hmatch, ConfigOption.offer, hadmits]
  · simp [hmatch]

/-- A boolean option without values reads a text as the grammar says exactly
when the text is a true word or matches nowhere. -/
theorem readsBoolean_iff {calls : List ConfigCall} {conf : RappConfig}
    (hcalls : run ConfigCall.apply calls RappConfig.new = .ok conf) {ref : OptionRef}
    {opt : ConfigOption} (hload : conf.load ref = some opt) (htype : opt.type = .bool)
    (hempty : opt.values = []) (text : Bytes) :
    ReadsBoolean opt text ↔ text ∈ trueWords ∨ regexec regexBool text = false := by
  have hresult := addFromString_bool (sane_run hcalls ref opt hload) htype hempty text
  have hwords : text ∈ trueWords ∨ text ∈ falseWords → regexec regexBool text = true :=
    fun h => regexec_word text (List.mem_append.mpr h)
  constructor
  · intro h
    by_contra hcond
    simp only [not_or, Bool.not_eq_false] at hcond
    rw [if_pos hcond.2] at hresult
    by_cases hfalse : text ∈ falseWords
    · -- the second expression is not executed, so the value is 1
      have hone := congrArg Prod.snd (hresult.symm.trans (h.false_word hfalse))
      exact absurd (push_inj hone) (by decide)
    · exact h.other hcond.1 hfalse (by rw [hresult]; exact ⟨rfl, _, rfl⟩)
  · rintro (htrue | hnone)
    · rw [if_pos (hwords (.inl htrue))] at hresult
      refine ⟨fun _ => hresult, fun hfalse => absurd htrue ?_, fun hnot => absurd htrue hnot⟩
      have hapart : ∀ word ∈ falseWords, word ∉ trueWords := by decide +kernel
      exact hapart text hfalse
    · have hno : ∀ words, text ∈ trueWords ∨ text ∈ falseWords → words := fun words h =>
        absurd (hwords h) (by simp [hnone])
      rw [hnone, if_neg Bool.false_ne_true] at hresult
      refine ⟨fun h => hno _ (.inl h), fun h => hno _ (.inr h), fun _ _ hzero => ?_⟩
      rw [hresult] at hzero
      exact absurd hzero.1 (by decide : ¬ (-1 : Int) = 0)

theorem readsBoolean_yes : ∃ conf opt,
    run ConfigCall.apply [.optAdd (ascii "core") (ascii "debug") .bool none none]
      RappConfig.new = .ok conf ∧
    conf.load ⟨0, 0⟩ = some opt ∧ ReadsBoolean opt (ascii "yes") := by
  obtain ⟨conf, hconf⟩ : ∃ conf, run ConfigCall.apply
      [.optAdd (ascii "core") (ascii "debug") .bool none none] RappConfig.new = .ok conf :=
    ⟨_, rfl⟩
  have hload : conf.load ⟨0, 0⟩ = some (.new (ascii "debug") .bool none none) := by
    cases hconf
    rfl
  exact ⟨conf, _, hconf, hload, (readsBoolean_iff hconf hload rfl rfl _).mpr (.inl (by decide))⟩

/-- The option is on after "no". -/
theorem not_readsBoolean_no :
    ¬ ReadsBoolean (.new (ascii "debug") .bool none none) (ascii "no") := by
  intro h
  have hone : (ConfigOption.new (ascii "debug") .bool none none).configAddValueFromString
      (ascii "no") true =
      (0, (ConfigOption.new (ascii "debug") .bool none none).push (.int 1)) := by
    decide +kernel
  have hzero := h.false_word (by decide)
  exact absurd (push_inj (congrArg Prod.snd (hone.symm.trans hzero))) (by decide)

/-! ### What the result says -/

/-- The answers of the allocator to `config_add_value_from_string`: to the two
`regcomp` and the `regexec` in between, to the record, and to the copy of a string. -/
structure ValueMemory where
  regexBool : Bool
  regexec : Bool
  regexBoolTrue : Bool
  created : Bool
  duplicated : Bool

namespace ConfigOption

/-- `config_add_value_from_string` where any allocation may fail. -/
def addValueFromString (opt : ConfigOption) (value : Bytes) (memory : ValueMemory) :
    Int × ConfigOption :=
  match opt.type with
  | .string =>
    (0, (opt.optAddValueString (some value) (memory.created && memory.duplicated)).2)
  | .bool =>
    if !memory.regexBool then (-1, opt)
    else if memory.regexec && Rapp.regexec Rapp.regexBool value then
      (0, (opt.optAddValueInt (if memory.regexBoolTrue then 1 else 0) memory.created).2)
    else (-1, opt)
  | .int =>
    let number := strtol value
    if number.erange ∨ number.endptr ≠ [] ∨ number.val < opt.valueMin ∨ opt.valueMax < number.val
    then (-1, opt)
    else (0, (opt.optAddValueInt number.val memory.created).2)

/-- With expressions that compile it is the function the other results are about. -/
theorem addValueFromString_compiled (opt : ConfigOption) (value : Bytes) (allocated : Bool) :
    opt.addValueFromString value ⟨true, true, true, allocated, true⟩ =
      opt.configAddValueFromString value allocated := by
  cases htype : opt.type <;> simp [addValueFromString, configAddValueFromString, htype]

/-- The value that is handed to the helper, when the text is not refused. -/
def takes (opt : ConfigOption) (value : Bytes) (memory : ValueMemory) : Option ConfigValue :=
  match opt.type with
  | .string => some (.str value)
  | .bool =>
    if memory.regexBool && memory.regexec && Rapp.regexec Rapp.regexBool value then
      some (.int (if memory.regexBoolTrue then 1 else 0))
    else none
  | .int => opt.parse value

/-- The allocations of the helper succeed. -/
def stores (opt : ConfigOption) (memory : ValueMemory) : Bool :=
  memory.created && (opt.type != .string || memory.duplicated)

theorem addValueFromString_eq (opt : ConfigOption) (value : Bytes) (memory : ValueMemory) :
    opt.addValueFromString value memory = match opt.takes value memory with
      | none => (-1, opt)
      | some taken => (0, if opt.stores memory then opt.offer taken else opt) := by
  cases htype : opt.type with
  | string =>
    simp only [addValueFromString, takes, stores, htype, optAddValueString_snd opt _ _ htype]
    simp
  | bool =>
    have hne : opt.type ≠ .string := by simp [htype]
    simp only [addValueFromString, takes, stores, htype, optAddValueInt_snd opt _ _ hne]
    cases memory.regexBool <;> cases memory.regexec <;>
      cases Rapp.regexec Rapp.regexBool value <;> simp
  | int =>
    have hne : opt.type ≠ .string := by simp [htype]
    simp only [addValueFromString, takes, stores, htype, parse_int htype,
      optAddValueInt_snd opt _ _ hne]
    split_ifs <;> simp_all

end ConfigOption

/-- The result is 0 exactly when one value was appended, and otherwise nothing has changed. -/
structure ReportsTruth (opt : ConfigOption) (result : Int × ConfigOption) : Prop where
  appended : result.1 = 0 ↔ ∃ value, result.2 = opt.push value
  unchanged : result.1 ≠ 0 → result.2 = opt

theorem push_ne (opt : ConfigOption) (value : ConfigValue) : opt.push value ≠ opt := by
  intro h
  have hlength := congrArg (fun opt => opt.values.length) h
  simp [ConfigOption.push] at hlength

/-- The result is the truth exactly when the text is refused, or the value it
stands for finds room, is in the range, and its allocations succeed. -/
theorem reportsTruth_iff (opt : ConfigOption) (value : Bytes) (memory : ValueMemory) :
    ReportsTruth opt (opt.addValueFromString value memory) ↔
      ∀ taken, opt.takes value memory = some taken →
        opt.admits taken = true ∧ opt.stores memory = true := by
  rw [opt.addValueFromString_eq value memory]
  cases opt.takes value memory with
  | none =>
    have hfailed : ¬ (-1 : Int) = 0 := by decide
    refine iff_of_true ⟨iff_of_false hfailed ?_, fun _ => rfl⟩ nofun
    rintro ⟨value, h⟩
    exact push_ne opt value h.symm
  | some taken =>
    simp only [Option.some.injEq, forall_eq']
    constructor
    · intro h
      obtain ⟨value, hpush⟩ := h.appended.mp rfl
      by_contra hcond
      rw [not_and_or, Bool.not_eq_true, Bool.not_eq_true] at hcond
      have hsame : (if opt.stores memory = true then opt.offer taken else opt) = opt := by
        rcases hcond with hadmits | hstores
        · simp [ConfigOption.offer, hadmits]
        · simp [hstores]
      exact push_ne opt value (hpush.symm.trans hsame)
    · rintro ⟨hadmits, hstores⟩
      refine ⟨iff_of_true rfl ⟨taken, ?_⟩, fun h => absurd rfl h⟩
      simp [hstores, ConfigOption.offer, hadmits]

/-- A second value for `core.port` is dropped, and the result is 0. -/
theorem not_reportsTruth_second :
    ¬ ReportsTruth (portOption.push (.int 80))
      ((portOption.push (.int 80)).addValueFromString (ascii "81")
        ⟨true, true, true, true, true⟩) := by
  intro h
  have hdropped : (portOption.push (.int 80)).addValueFromString (ascii "81")
      ⟨true, true, true, true, true⟩ = (0, portOption.push (.int 80)) := by
    decide +kernel
  rw [hdropped] at h
  obtain ⟨value, hpush⟩ := h.appended.mp rfl
  exact push_ne _ value hpush.symm

end Rapp
