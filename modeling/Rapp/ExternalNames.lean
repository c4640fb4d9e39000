import Rapp.ConfigEnv

/-!
# Names outside the store

An option is known outside by the name of its variable and by its flag. Both
join the section and the option with a separator that underscores inside the
two become as well, and leave the core section out. So two options share them
exactly when the words of both, in order, are the same.
-/
namespace Rapp

open ByteBlock

/-- The name `generate_argp_for_section` writes for an option. -/
def flagName (sectionName name : Bytes) : Bytes :=
  replaceUnderscores
    ((if sectionName = rappConfigSection then [] else sectionName ++ ascii "-") ++ name)

theorem entry_name (sectionName : Bytes) (index : Nat) (group : Int) (opt : ConfigOption) :
    (ArgpTable.entry sectionName index group opt).name = some (flagName sectionName opt.name) :=
  rfl

/-- The words of section and option, with underscores between them. -/
def joinedName (sectionName name : Bytes) : Bytes :=
  if sectionName = rappConfigSection then name else sectionName ++ 95 :: name

/-- The bytes of valid names. -/
def isNameByte (byte : UInt8) : Bool := byte = 95 || isLower byte

theorem isNameByte_of_validateName {name : Bytes} (h : validateName name = true) :
    ∀ byte ∈ name, isNameByte byte = true := by
  simp only [validateName, Bool.and_eq_true, List.all_eq_true] at h
  exact h.1.1.2

theorem isNameByte_joinedName {sectionName name : Bytes}
    (hsection : validateName sectionName = true) (hname : validateName name = true) :
    ∀ byte ∈ joinedName sectionName name, isNameByte byte = true := by
  intro byte hmem
  rw [joinedName] at hmem
  split at hmem
  · exact isNameByte_of_validateName hname byte hmem
  · rcases List.mem_append.mp hmem with hmem | hmem
    · exact isNameByte_of_validateName hsection byte hmem
    · rcases List.mem_cons.mp hmem with rfl | hmem
      · rfl
      · exact isNameByte_of_validateName hname byte hmem

/-- A byte map that tells the bytes of names apart tells the texts apart. -/
theorem map_inj_of_names {f : UInt8 → UInt8}
    (hf : ∀ byte other, isNameByte byte = true → isNameByte other = true → f byte = f other →
      byte = other) {xs ys : Bytes} (hxs : ∀ byte ∈ xs, isNameByte byte = true)
    (hys : ∀ byte ∈ ys, isNameByte byte = true) : xs.map f = ys.map f ↔ xs = ys := by
  refine ⟨fun h => ?_, congrArg _⟩
  induction xs generalizing ys with
  | nil => exact (List.map_eq_nil_iff.mp h.symm).symm
  | cons byte xs ih =>
    cases ys with
    | nil => cases h
    | cons other ys =>
      obtain ⟨hhead, htail⟩ := List.cons.inj h
      have hbyte := hf byte other (hxs byte List.mem_cons_self) (hys other List.mem_cons_self) hhead
      have hrest := ih (fun b hb => hxs b (List.mem_cons_of_mem _ hb))
        (fun b hb => hys b (List.mem_cons_of_mem _ hb)) htail
      rw [hbyte, hrest]

theorem isLower_iff (byte : UInt8) :
    isLower byte = true ↔ 97 ≤ byte.toNat ∧ byte.toNat ≤ 122 := by
  simp [isLower, UInt8.le_iff_toNat_le]

/-- Upper case moves the letters below the underscore. -/
theorem toUpper_toNat {byte : UInt8} (h : isNameByte byte = true) : (toUpper byte).toNat =
    if byte.toNat = 95 then 95 else byte.toNat - 32 := by
  by_cases hunderscore : byte = 95
  · subst hunderscore
    rfl
  · have hlower : isLower byte = true := by simpa [isNameByte, hunderscore] using h
    obtain ⟨hlow, hhigh⟩ := (isLower_iff byte).mp hlower
    have hle : (32 : UInt8) ≤ byte := by
      rw [UInt8.le_iff_toNat_le]
      have hthirtyTwo : (32 : UInt8).toNat = 32 := rfl
      omega
    rw [toUpper, if_pos hlower, UInt8.toNat_sub_of_le _ _ hle, if_neg (by omega)]
    rfl

theorem toUpper_inj {byte other : UInt8} (h : isNameByte byte = true)
    (k : isNameByte other = true) (he : toUpper byte = toUpper other) : byte = other := by
  have hnat := congrArg UInt8.toNat he
  rw [toUpper_toNat h, toUpper_toNat k] at hnat
  have hrange : ∀ b : UInt8, isNameByte b = true → b.toNat = 95 ∨ 97 ≤ b.toNat ∧ b.toNat ≤ 122 := by
    intro b hb
    rcases (Bool.or_eq_true _ _).mp hb with hunderscore | hlower
    · exact .inl (congrArg UInt8.toNat (of_decide_eq_true hunderscore))
    · exact .inr ((isLower_iff b).mp hlower)
  have hbyte := hrange byte h
  have hother := hrange other k
  have hsame : byte.toNat = other.toNat := by
    split_ifs at hnat <;> omega
  exact UInt8.toNat_inj.mp hsame

/-- No name has a hyphen, so folding underscores into hyphens loses nothing. -/
theorem foldUnderscore_inj {byte other : UInt8} (h : isNameByte byte = true)
    (k : isNameByte other = true)
    (he : (if byte = 95 then 45 else byte) = if other = 95 then (45 : UInt8) else other) :
    byte = other := by
  have hhyphen : isNameByte 45 = false := rfl
  split_ifs at he with hbyte hother hother
  · exact hbyte.trans hother.symm
  · rw [← he, hhyphen] at k
    exact absurd k Bool.false_ne_true
  · rw [he, hhyphen] at h
    exact absurd h Bool.false_ne_true
  · exact he

theorem getEnvName_eq (sectionName name : Bytes) :
    getEnvName sectionName name =
      uppercase (ascii "RAPP_") ++ uppercase (joinedName sectionName name) := by
  rw [getEnvName, joinedName, uppercase, uppercase, uppercase, List.map_append]
  split
  · rfl
  · rw [List.append_assoc]
    rfl

theorem flagName_eq (sectionName name : Bytes) :
    flagName sectionName name = replaceUnderscores (joinedName sectionName name) := by
  rw [flagName, joinedName]
  split
  · rfl
  · simp [replaceUnderscores, ascii]

/-- The two options have the same words: a word at the end of the one section
stands at the front of the other option's name, or one of them is in the core
section and its name begins with the other section. -/
def SameWords (sectionName name otherSection otherName : Bytes) : Prop :=
  if sectionName = rappConfigSection then
    otherSection ≠ rappConfigSection ∧ name = otherSection ++ 95 :: otherName
  else if otherSection = rappConfigSection then otherName = sectionName ++ 95 :: name
  else ∃ middle,
    otherSection = sectionName ++ 95 :: middle ∧ name = middle ++ 95 :: otherName ∨
    sectionName = otherSection ++ 95 :: middle ∧ otherName = middle ++ 95 :: name

/-- What two texts with an underscore each have in common. -/
theorem append_underscore {front back otherFront otherBack : Bytes}
    (h : front ++ 95 :: back = otherFront ++ 95 :: otherBack) :
    front = otherFront ∧ back = otherBack ∨ ∃ middle,
      otherFront = front ++ 95 :: middle ∧ back = middle ++ 95 :: otherBack ∨
      front = otherFront ++ 95 :: middle ∧ otherBack = middle ++ 95 :: back := by
  rcases List.append_eq_append_iff.mp h with ⟨rest, hfront, hback⟩ | ⟨rest, hfront, hback⟩
  · cases rest with
    | nil => exact .inl ⟨by simpa using hfront.symm, (List.cons.inj hback).2⟩
    | cons byte middle =>
      obtain ⟨rfl, htail⟩ := List.cons.inj hback
      exact .inr ⟨middle, .inl ⟨hfront, htail⟩⟩
  · cases rest with
    | nil => exact .inl ⟨by simpa using hfront, (List.cons.inj hback).2.symm⟩
    | cons byte middle =>
      obtain ⟨rfl, htail⟩ := List.cons.inj hback
      exact .inr ⟨middle, .inr ⟨hfront, htail⟩⟩

/-- The joined names of two different options are the same exactly when their words are. -/
theorem joinedName_eq_iff {sectionName name otherSection otherName : Bytes}
    (hne : (sectionName, name) ≠ (otherSection, otherName)) :
    joinedName sectionName name = joinedName otherSection otherName ↔
      SameWords sectionName name otherSection otherName := by
  rw [joinedName, joinedName, SameWords]
  by_cases hcore : sectionName = rappConfigSection
  · by_cases hother : otherSection = rappConfigSection
    · have hnames : name ≠ otherName := fun h => hne (by rw [hcore, hother, h])
      rw [if_pos hcore, if_pos hother, if_pos hcore]
      exact iff_of_false hnames fun h => h.1 hother
    · rw [if_pos hcore, if_neg hother, if_pos hcore]
      exact ⟨fun h => ⟨hother, h⟩, fun h => h.2⟩
  · by_cases hother : otherSection = rappConfigSection
    · rw [if_neg hcore, if_pos hother, if_neg hcore, if_pos hother]
      exact eq_comm
    · rw [if_neg hcore, if_neg hother, if_neg hcore, if_neg hother]
      constructor
      · intro h
        rcases append_underscore h with ⟨hsection, hname⟩ | hmiddle
        · exact absurd (by rw [hsection, hname]) hne
        · exact hmiddle
      · rintro ⟨middle, ⟨rfl, rfl⟩ | ⟨rfl, rfl⟩⟩
        · simp
        · simp

/-- `rapp_config_opt_add` accepts a pair exactly when both parts match the pattern. -/
theorem optAdd_accepts (conf : RappConfig) (sectionName name : Bytes) (type : RappConfigParamType)
    (help metavar : Option Bytes) : (conf.optAdd sectionName name type help metavar).1 = 0 ↔
      validateName sectionName = true ∧ validateName name = true := by
  have hget : ((conf.provideSection sectionName).sectionGet sectionName).isSome = true := by
    rw [RappConfig.provideSection]
    split
    · assumption
    · simp [RappConfig.sectionGet, List.findIdx?_append]
  obtain ⟨sectionIndex, hindex⟩ := Option.isSome_iff_exists.mp hget
  simp only [RappConfig.optAdd, hindex]
  cases validateName name <;> cases validateName sectionName <;> simp

/-- Two different options have different variables and different flags exactly
when their words are not the same. -/
theorem externalNames_differ_iff {conf other : RappConfig}
    {sectionName name otherSection otherName : Bytes} {type otherType : RappConfigParamType}
    {help metavar otherHelp otherMetavar : Option Bytes}
    (h : (conf.optAdd sectionName name type help metavar).1 = 0)
    (k : (other.optAdd otherSection otherName otherType otherHelp otherMetavar).1 = 0)
    (hne : (sectionName, name) ≠ (otherSection, otherName)) :
    (getEnvName sectionName name ≠ getEnvName otherSection otherName ∧
      flagName sectionName name ≠ flagName otherSection otherName) ↔
    ¬ SameWords sectionName name otherSection otherName := by
  obtain ⟨hsection, hname⟩ := (optAdd_accepts ..).mp h
  obtain ⟨ksection, kname⟩ := (optAdd_accepts ..).mp k
  have hbytes := isNameByte_joinedName hsection hname
  have kbytes := isNameByte_joinedName ksection kname
  have hvariable : getEnvName sectionName name = getEnvName otherSection otherName ↔
      SameWords sectionName name otherSection otherName := by
    rw [getEnvName_eq, getEnvName_eq, List.append_cancel_left_eq, ← joinedName_eq_iff hne]
    exact map_inj_of_names (fun _ _ => toUpper_inj) hbytes kbytes
  have hflag : flagName sectionName name = flagName otherSection otherName ↔
      SameWords sectionName name otherSection otherName := by
    rw [flagName_eq, flagName_eq, ← joinedName_eq_iff hne]
    exact map_inj_of_names (fun _ _ => foldUnderscore_inj) hbytes kbytes
  rw [ne_eq, ne_eq, hvariable, hflag, and_self]

theorem externalNames_differ_ports :
    (RappConfig.new.optAdd (ascii "core") (ascii "port") .int none none).1 = 0 ∧
    (RappConfig.new.optAdd (ascii "hello") (ascii "port") .int none none).1 = 0 ∧
    (getEnvName (ascii "core") (ascii "port") ≠ getEnvName (ascii "hello") (ascii "port") ∧
      flagName (ascii "core") (ascii "port") ≠ flagName (ascii "hello") (ascii "port")) := by
  have hcore : (RappConfig.new.optAdd (ascii "core") (ascii "port") .int none none).1 = 0 := by
    decide +kernel
  have hhello : (RappConfig.new.optAdd (ascii "hello") (ascii "port") .int none none).1 = 0 := by
    decide +kernel
  refine ⟨hcore, hhello, (externalNames_differ_iff hcore hhello (by decide +kernel)).mpr ?_⟩
  rintro ⟨-, hwords⟩
  exact absurd hwords (by decide +kernel)

/-- The option `proxy_port` of the section `http` and the option `port` of the
section `http_proxy` are set by one variable and by one flag. -/
theorem not_externalNames_differ_proxy :
    (RappConfig.new.optAdd (ascii "http") (ascii "proxy_port") .int none none).1 = 0 ∧
    (RappConfig.new.optAdd (ascii "http_proxy") (ascii "port") .int none none).1 = 0 ∧
    getEnvName (ascii "http") (ascii "proxy_port") =
      getEnvName (ascii "http_proxy") (ascii "port") ∧
    flagName (ascii "http") (ascii "proxy_port") =
      flagName (ascii "http_proxy") (ascii "port") := by
  decide +kernel

end Rapp
