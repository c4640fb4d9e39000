import Mathlib.Algebra.Group.Int.Defs
import Mathlib.Algebra.Group.Nat.Defs
import Mathlib.Data.List.Infix
import Rapp.Lib.Slice

/-!
# The configuration store

`config/common.c` and `config/api.c`: sections of options with their values,
the text forms of values, declarations and getters. Pointers to options are
their positions in the lists. Texts are C strings without their NUL.
-/
namespace Rapp

open ByteBlock

/-- `RAPP_CONFIG_SECTION`. -/
def rappConfigSection : Bytes := ascii "core"

inductive RappConfigParamType where
  | bool
  | int
  | string
  deriving DecidableEq

/-- The union of a value; the type of its option says which member is in use.
`null` is the string member without a string. -/
inductive ConfigValue where
  | int (intvalue : Int)
  | str (strvalue : Bytes)
  | null
  deriving DecidableEq

/-- What an `int` has of a `long` that is written to it: the low 32 bits. -/
def ConfigValue.narrow : ConfigValue → ConfigValue
  | .int value => .int (value.bmod (2 ^ 32))
  | value => value

abbrev longMin : Int := -2 ^ 63
abbrev longMax : Int := 2 ^ 63 - 1

structure ConfigOption where
  type : RappConfigParamType
  help : Option Bytes
  name : Bytes
  rangeSet : Bool
  valueMin : Int
  valueMax : Int
  multivalued : Int
  numValues : Int
  defaultValue : ConfigValue
  defaultSet : Bool
  metavar : Option Bytes
  noOverride : Bool
  values : List ConfigValue
  deriving DecidableEq

structure ConfigSection where
  name : Bytes
  numOpts : Nat
  options : List ConfigOption
  deriving DecidableEq

/-- A pointer to an option. -/
structure OptionRef where
  sectionIndex : Nat
  optionIndex : Nat
  deriving DecidableEq

/-- `struct argp_option`; `doc` alone is a title. -/
structure ArgpOption where
  name : Option Bytes
  key : Nat
  arg : Option Bytes
  optionDoc : Bool
  doc : Option Bytes
  group : Int
  deriving DecidableEq

structure RappConfig where
  sections : List ConfigSection
  options : Option (List ArgpOption)
  optionsMap : List (Option OptionRef)
  numArgpOptions : Nat
  deriving DecidableEq

/-! ### Texts -/

/-- `isspace` in the C locale. -/
def isSpace (byte : UInt8) : Bool := byte = 32 || (9 ≤ byte && byte ≤ 13)

def isDigit (byte : UInt8) : Bool := 48 ≤ byte && byte ≤ 57

def isLower (byte : UInt8) : Bool := 97 ≤ byte && byte ≤ 122

def toUpper (byte : UInt8) : UInt8 := if isLower byte then byte - 32 else byte

def uppercase (text : Bytes) : Bytes := text.map toUpper

structure StrtolResult where
  val : Int
  endptr : Bytes
  erange : Bool
  deriving DecidableEq

/-- `strtol(text, &endptr, 10)`. -/
def strtol (text : Bytes) : StrtolResult :=
  let trimmed := text.dropWhile isSpace
  let negative := trimmed.head? = some 45
  let unsigned := if negative ∨ trimmed.head? = some 43 then trimmed.tail else trimmed
  let digits := unsigned.takeWhile isDigit
  let rest := unsigned.dropWhile isDigit
  let magnitude : Nat := digits.foldl (fun n digit => 10 * n + (digit.toNat - 48)) 0
  let number : Int := if negative then -magnitude else magnitude
  if digits = [] then ⟨0, text, false⟩
  else if number < longMin then ⟨longMin, rest, true⟩
  else if longMax < number then ⟨longMax, rest, true⟩
  else ⟨number, rest, false⟩

/-- One alternative of a regular expression that is a disjunction of words: the
anchors bind to the first and the last one only. -/
inductive Alternative where
  | starts (word : String)
  | contains (word : String)
  | ends (word : String)

def Alternative.test (text : Bytes) : Alternative → Bool
  | .starts word => decide (ascii word <+: text)
  | .contains word => decide (ascii word <:+: text)
  | .ends word => decide (ascii word <:+ text)

def regexec (regex : List Alternative) (text : Bytes) : Bool := regex.any (Alternative.test text)

/-- `regex_bool_str`. -/
def regexBool : List Alternative :=
  [.starts "yes", .contains "Yes", .contains "YES", .contains "no", .contains "No", .contains "NO",
    .contains "true", .contains "True", .contains "TRUE", .contains "false", .contains "False",
    .contains "FALSE", .contains "on", .contains "On", .contains "ON", .contains "off",
    .contains "Off", .contains "OFF", .contains "1", .ends "0"]

/-- `^[[:lower:]][_[:lower:]]*[[:lower:]]$`. -/
def validateName (name : Bytes) : Bool :=
  2 ≤ name.length && name.all (fun byte => byte = 95 || isLower byte) &&
    name.head?.any isLower && name.getLast?.any isLower

/-! ### Values of an option -/

namespace ConfigOption

def optAddValueInt (opt : ConfigOption) (value : Int) (allocated : Bool) : Int × ConfigOption :=
  if opt.type ≠ .bool ∧ opt.type ≠ .int then (-1, opt)
  else if opt.multivalued = 0 ∧ 0 < opt.numValues then (-1, opt)
  else if opt.rangeSet = true ∧ (value < opt.valueMin ∨ opt.valueMax < value) then (-1, opt)
  else if !allocated then (-1, opt)
  else (0, { opt with
    numValues := opt.numValues + 1
    values := opt.values ++ [.int value] })

def optAddValueString (opt : ConfigOption) (value : Option Bytes) (allocated : Bool) :
    Int × ConfigOption :=
  if opt.multivalued = 0 ∧ 0 < opt.numValues then (-1, opt)
  else match value with
    | none => (-1, opt)
    | some value =>
      if opt.type ≠ .string then (-1, opt)
      else if !allocated then (-1, opt)
      else (0, { opt with
        numValues := opt.numValues + 1
        values := opt.values ++ [.str value] })

/-- The result of adding the value is not looked at. A word that matches is
stored as 1: the second expression is compiled, never executed. -/
def configAddValueFromString (opt : ConfigOption) (value : Bytes) (allocated : Bool) :
    Int × ConfigOption :=
  match opt.type with
  | .string => (0, (opt.optAddValueString (some value) allocated).2)
  | .bool =>
    if regexec regexBool value then (0, (opt.optAddValueInt 1 allocated).2) else (-1, opt)
  | .int =>
    let number := strtol value
    if number.erange ∨ number.endptr ≠ [] ∨ number.val < opt.valueMin ∨ opt.valueMax < number.val
    then (-1, opt)
    else (0, (opt.optAddValueInt number.val allocated).2)

def removeAllValues (opt : ConfigOption) : ConfigOption :=
  { opt with values := [], numValues := opt.numValues - opt.values.length }

/-- `memory_create` and `opt_setup_values`. -/
def new (name : Bytes) (type : RappConfigParamType) (help metavar : Option Bytes) :
    ConfigOption where
  type := type
  help := help
  name := name
  rangeSet := type = .bool
  valueMin := match type with | .int => longMin | _ => 0
  valueMax := match type with | .bool => 1 | .int => longMax | .string => 0
  multivalued := 0
  numValues := 0
  defaultValue := match type with | .string => .null | _ => .int 0
  defaultSet := false
  metavar := if type = .bool then none else metavar
  noOverride := false
  values := []

end ConfigOption

/-! ### Sections and options by name -/

namespace ConfigSection

/-- The loop of `GET_OPTION_FROM_SECT`. -/
def findOption (sect : ConfigSection) (name : Bytes) : Option Nat :=
  sect.options.findIdx? fun opt => opt.name = name

end ConfigSection

namespace RappConfig

def new : RappConfig where
  sections := []
  options := none
  optionsMap := []
  numArgpOptions := 0

def sectionGet (conf : RappConfig) (name : Bytes) : Option Nat :=
  conf.sections.findIdx? fun sect => sect.name = name

/-- The option behind a pointer. -/
def load (conf : RappConfig) (ref : OptionRef) : Option ConfigOption :=
  conf.sections[ref.sectionIndex]?.bind fun sect => sect.options[ref.optionIndex]?

/-- Write to the option behind a pointer. -/
def store (conf : RappConfig) (ref : OptionRef) (opt : ConfigOption) : RappConfig :=
  { conf with sections := conf.sections.modify ref.sectionIndex fun sect =>
      { sect with options := sect.options.set ref.optionIndex opt } }

/-- `GET_OPTION_FROM_SECT`. -/
def getOptionFromSect (conf : RappConfig) (sectionIndex : Nat) (name : Bytes) :
    Option OptionRef :=
  conf.sections[sectionIndex]?.bind fun sect =>
    (sect.findOption name).map fun optionIndex => ⟨sectionIndex, optionIndex⟩

/-- `GET_OPTION`. -/
def getOption (conf : RappConfig) (sectionName name : Bytes) : Option OptionRef :=
  (conf.sectionGet sectionName).bind fun sectionIndex => conf.getOptionFromSect sectionIndex name

/-- Use the option of that name; the macro returns 1 when there is none. -/
def withOption (conf : RappConfig) (sectionName name : Bytes)
    (use : ConfigOption → Int × ConfigOption) : Int × RappConfig :=
  match conf.getOption sectionName name with
  | none => (1, conf)
  | some ref =>
    match conf.load ref with
    | none => (1, conf)
    | some opt =>
      let result := use opt
      (result.1, conf.store ref result.2)

def addValueInt (conf : RappConfig) (sectionName name : Bytes) (value : Int) (allocated : Bool) :
    Int × RappConfig :=
  conf.withOption sectionName name fun opt => opt.optAddValueInt value allocated

def addValueString (conf : RappConfig) (sectionName name : Bytes) (value : Option Bytes)
    (allocated : Bool) : Int × RappConfig :=
  conf.withOption sectionName name fun opt => opt.optAddValueString value allocated

/-! ### Declarations

The allocations of a new option and its section succeed. -/

/-- `config_section_get`, or else `config_section_create`. -/
def provideSection (conf : RappConfig) (name : Bytes) : RappConfig :=
  if (conf.sectionGet name).isSome then conf
  else { conf with sections := conf.sections ++ [⟨name, 0, []⟩] }

def optAdd (conf : RappConfig) (sectionName name : Bytes) (type : RappConfigParamType)
    (help metavar : Option Bytes) : Int × RappConfig :=
  if !validateName name then (-1, conf)
  else if !validateName sectionName then (-1, conf)
  else
    let conf := conf.provideSection sectionName
    match conf.sectionGet sectionName with
    | none => (-1, conf)
    | some sectionIndex => (0, { conf with
        sections := conf.sections.modify sectionIndex fun sect => { sect with
          numOpts := sect.numOpts + 1
          options := sect.options ++ [ConfigOption.new name type help metavar] } })

def optSetRangeInt (conf : RappConfig) (sectionName name : Bytes) (valueMin valueMax : Int) :
    Int × RappConfig :=
  conf.withOption sectionName name fun opt =>
    if opt.type ≠ .int then (-1, opt)
    else if valueMax ≤ valueMin then (-1, opt)
    else (0, { opt with valueMin := valueMin, valueMax := valueMax, rangeSet := true })

def optSetMultivalued (conf : RappConfig) (sectionName name : Bytes) (flag : Int) :
    Int × RappConfig :=
  conf.withOption sectionName name fun opt => (0, { opt with multivalued := flag })

/-- The copy goes into the union before it is looked at. -/
def optSetDefaultString (conf : RappConfig) (sectionName name value : Bytes) (allocated : Bool) :
    Int × RappConfig :=
  conf.withOption sectionName name fun opt =>
    if !allocated then (-1, { opt with defaultValue := .null })
    else (0, { opt with defaultValue := .str value, defaultSet := true })

def optSetDefaultInt (conf : RappConfig) (sectionName name : Bytes) (value : Int) :
    Int × RappConfig :=
  conf.withOption sectionName name fun opt =>
    (0, { opt with defaultValue := .int value, defaultSet := true })

def optSetDefaultBool (conf : RappConfig) (sectionName name : Bytes) (value : Int) :
    Int × RappConfig :=
  if value < 0 ∨ 1 < value then (-1, conf) else conf.optSetDefaultInt sectionName name value

/-! ### Getters -/

/-- The part of the getters behind the check of the type. -/
def getNth (opt : ConfigOption) (position : Int) : Option ConfigValue :=
  if opt.multivalued = 0 ∧ position ≠ 0 then none
  else if opt.numValues = 0 ∧ opt.defaultSet then
    if position = 0 then some opt.defaultValue else none
  else if opt.numValues ≤ position then none
  else opt.values[position.toNat]?

/-- The value, when the result is 0. -/
def getNthInt (conf : RappConfig) (sectionName name : Bytes) (position : Int) :
    Option ConfigValue :=
  if position < 0 then none
  else ((conf.getOption sectionName name).bind conf.load).bind fun opt =>
    if opt.type ≠ .int ∧ opt.type ≠ .bool then none else getNth opt position

/-- The pointer to the caller's `int` is passed on as one to a `long`. -/
def getNthBool (conf : RappConfig) (sectionName name : Bytes) (position : Int) :
    Option ConfigValue := (conf.getNthInt sectionName name position).map ConfigValue.narrow

/-- The result is 0 also when there is no memory for the copy, which is then NULL.
`strdup` of a NULL is undefined; here it gives NULL. -/
def getNthString (conf : RappConfig) (sectionName name : Bytes) (position : Int)
    (allocated : Bool) : Option ConfigValue :=
  if position < 0 then none
  else ((conf.getOption sectionName name).bind conf.load).bind fun opt =>
    if opt.type ≠ .string then none
    else (getNth opt position).map fun value => if allocated then value else .null

def getNumValues (conf : RappConfig) (sectionName name : Bytes) : Option Int :=
  ((conf.getOption sectionName name).bind conf.load).map ConfigOption.numValues

end RappConfig

end Rapp
