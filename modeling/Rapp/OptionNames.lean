import Mathlib.Data.List.Nodup
import Rapp.ConfigCalls

/-!
# Names of options

The store is searched by names, the first match is taken. Sections never share
a name; as long as no pair of names is declared twice, the options of a section
do not either, and every option is found under its own name.
-/
namespace Rapp

open CallOutcome (run Guarded)
open ByteBlock

/-- The names of the sections, each with those of its options. -/
def RappConfig.outline (conf : RappConfig) : List (Bytes × List Bytes) :=
  conf.sections.map fun sect => (sect.name, sect.options.map ConfigOption.name)

namespace ConfigCall

/-- The names a call declares. -/
def declares : ConfigCall → Option (Bytes × Bytes)
  | .optAdd sectionName name _ _ _ =>
    if validateName name && validateName sectionName then some (sectionName, name) else none
  | _ => none

/-- No pair of names is declared twice. -/
def DeclaresOnce (calls : List ConfigCall) : Prop := (calls.filterMap declares).Nodup

instance (calls : List ConfigCall) : Decidable (DeclaresOnce calls) :=
  inferInstanceAs (Decidable (List.Nodup _))

end ConfigCall

/-- Names that differ, among those declared. -/
structure NamesDiffer (declared : List (Bytes × Bytes)) (outline : List (Bytes × List Bytes)) :
    Prop where
  sections : (outline.map Prod.fst).Nodup
  options : ∀ entry ∈ outline, entry.2.Nodup
  known : ∀ entry ∈ outline, ∀ name ∈ entry.2, (entry.1, name) ∈ declared

theorem namesDiffer_nil (declared : List (Bytes × Bytes)) : NamesDiffer declared [] :=
  ⟨List.nodup_nil, nofun, nofun⟩

theorem NamesDiffer.mono {declared more : List (Bytes × Bytes)}
    {outline : List (Bytes × List Bytes)} (h : NamesDiffer declared outline)
    (hsub : declared ⊆ more) : NamesDiffer more outline :=
  ⟨h.sections, h.options, fun entry hentry name hname => hsub (h.known entry hentry name hname)⟩

/-- A section of a new name. -/
theorem NamesDiffer.append {declared : List (Bytes × Bytes)} {outline : List (Bytes × List Bytes)}
    (h : NamesDiffer declared outline) {sectionName : Bytes}
    (hnew : sectionName ∉ outline.map Prod.fst) :
    NamesDiffer declared (outline ++ [(sectionName, [])]) := by
  constructor
  · rw [List.map_append, List.nodup_append]
    refine ⟨h.sections, List.nodup_singleton _, fun a ha b hb hab => hnew ?_⟩
    rw [List.mem_singleton.mp hb] at hab
    subst hab
    exact ha
  · intro entry hentry
    rcases List.mem_append.mp hentry with hold | hsection
    · exact h.options entry hold
    · rw [List.mem_singleton.mp hsection]
      exact List.nodup_nil
  · intro entry hentry
    rcases List.mem_append.mp hentry with hold | hsection
    · exact h.known entry hold
    · rw [List.mem_singleton.mp hsection]
      exact nofun

/-- An option of a new pair of names. -/
theorem NamesDiffer.declare {declared : List (Bytes × Bytes)}
    {before behind : List (Bytes × List Bytes)} {sectionName : Bytes} {names : List Bytes}
    (h : NamesDiffer declared (before ++ (sectionName, names) :: behind)) {name : Bytes}
    (hnew : (sectionName, name) ∉ declared) :
    NamesDiffer (declared ++ [(sectionName, name)])
      (before ++ (sectionName, names ++ [name]) :: behind) := by
  have hentry : (sectionName, names) ∈ before ++ (sectionName, names) :: behind := by simp
  have hother : ∀ entry ∈ before ++ (sectionName, names ++ [name]) :: behind,
      entry = (sectionName, names ++ [name]) ∨
        entry ∈ before ++ (sectionName, names) :: behind := by
    intro entry hmem
    simp only [List.mem_append, List.mem_cons] at hmem ⊢
    tauto
  constructor
  · simpa using h.sections
  · intro entry hmem
    rcases hother entry hmem with rfl | hold
    · rw [List.nodup_append]
      refine ⟨h.options _ hentry, List.nodup_singleton _, fun a ha b hb hab => hnew ?_⟩
      rw [List.mem_singleton.mp hb] at hab
      subst hab
      exact h.known _ hentry a ha
    · exact h.options entry hold
  · intro entry hmem other hname
    rcases hother entry hmem with rfl | hold
    · rcases List.mem_append.mp hname with hknown | hadded
      · exact List.mem_append_left _ (h.known _ hentry other hknown)
      · rw [List.mem_singleton.mp hadded]
        simp
    · exact List.mem_append_left _ (h.known entry hold other hname)

/-! ### Calls -/

theorem outline_store {conf : RappConfig} {ref : OptionRef} {old new : ConfigOption}
    (hload : conf.load ref = some old) (hname : new.name = old.name) :
    (conf.store ref new).outline = conf.outline := by
  obtain ⟨sect, hsect, hopt⟩ := Option.bind_eq_some_iff.mp hload
  refine List.ext_getElem? fun i => ?_
  rw [RappConfig.outline, RappConfig.outline, RappConfig.store, List.getElem?_map,
    List.getElem?_map, List.getElem?_modify]
  by_cases hi : ref.sectionIndex = i
  · subst hi
    have hnames : (sect.options.set ref.optionIndex new).map ConfigOption.name =
        sect.options.map ConfigOption.name := by
      obtain ⟨hlt, rfl⟩ := List.getElem?_eq_some_iff.mp hopt
      have hlength : ref.optionIndex < (sect.options.map ConfigOption.name).length := by
        simpa using hlt
      have hold : sect.options[ref.optionIndex].name =
          (sect.options.map ConfigOption.name)[ref.optionIndex] := by simp
      rw [List.map_set, hname, hold, List.set_getElem_self]
    simp [hsect, hnames]
  · simp [hi]

theorem use_name (opt : ConfigOption) (call : ConfigCall) : (call.use opt).2.name = opt.name := by
  have hadds : call.Adds → (call.use opt).2.name = opt.name := by
    intro hadds
    refine ConfigCall.use_of_adds (P := fun next => next.name = opt.name) hadds rfl ?_
    intro value _
    simp only [ConfigOption.offer]
    split <;> rfl
  cases call with
  | optSetRangeInt =>
    simp only [ConfigCall.use]
    split
    · rfl
    split <;> rfl
  | optSetDefaultString sectionName name value allocated => cases allocated <;> rfl
  | optSetDefaultBool =>
    simp only [ConfigCall.use]
    split <;> rfl
  | addValueInt => exact hadds trivial
  | addValueString => exact hadds trivial
  | addValueFromString => exact hadds trivial
  | _ => rfl

/-- The section a name finds is one of that name, among the others. -/
theorem outline_sectionGet {conf : RappConfig} {sectionName : Bytes} {sectionIndex : Nat}
    (h : conf.sectionGet sectionName = some sectionIndex) :
    ∃ before names behind, before.length = sectionIndex ∧
      conf.outline = before ++ (sectionName, names) :: behind := by
  obtain ⟨hi, hname, -⟩ := List.findIdx?_eq_some_iff_getElem.mp h
  have hname' : conf.sections[sectionIndex].name = sectionName := of_decide_eq_true hname
  refine ⟨conf.outline.take sectionIndex, conf.sections[sectionIndex].options.map ConfigOption.name,
    conf.outline.drop (sectionIndex + 1), ?_, ?_⟩
  · simp [RappConfig.outline, Nat.le_of_lt hi]
  · have hlength : sectionIndex < conf.outline.length := by simpa [RappConfig.outline] using hi
    have hentry : conf.outline[sectionIndex] =
        (sectionName, conf.sections[sectionIndex].options.map ConfigOption.name) := by
      simp [RappConfig.outline, hname']
    rw [← hentry, ← List.drop_eq_getElem_cons hlength, List.take_append_drop]

theorem outline_names (conf : RappConfig) :
    conf.outline.map Prod.fst = conf.sections.map ConfigSection.name := by
  rw [RappConfig.outline, List.map_map]
  rfl

theorem sectionGet_eq_none_iff {conf : RappConfig} {sectionName : Bytes} :
    conf.sectionGet sectionName = none ↔ sectionName ∉ conf.outline.map Prod.fst := by
  rw [outline_names, RappConfig.sectionGet, List.findIdx?_eq_none_iff]
  simp

theorem namesDiffer_provideSection {declared : List (Bytes × Bytes)} {conf : RappConfig}
    (h : NamesDiffer declared conf.outline) (sectionName : Bytes) :
    NamesDiffer declared (conf.provideSection sectionName).outline := by
  rw [RappConfig.provideSection]
  cases hget : conf.sectionGet sectionName with
  | some sectionIndex => exact h
  | none => simpa [RappConfig.outline] using h.append (sectionGet_eq_none_iff.mp hget)

/-- A new option behind those of a section. -/
theorem outline_append (conf : RappConfig) (sectionIndex : Nat) (new : ConfigOption) :
    RappConfig.outline { conf with
      sections := conf.sections.modify sectionIndex fun sect => { sect with
        numOpts := sect.numOpts + 1
        options := sect.options ++ [new] } } =
    conf.outline.modify sectionIndex fun entry => (entry.1, entry.2 ++ [new.name]) := by
  refine List.ext_getElem? fun i => ?_
  rw [RappConfig.outline, RappConfig.outline, List.getElem?_map, List.getElem?_modify,
    List.getElem?_modify, List.getElem?_map]
  by_cases hi : sectionIndex = i <;> cases conf.sections[i]? <;> simp [hi]

/-- A declaration of new names. -/
theorem namesDiffer_optAdd {declared : List (Bytes × Bytes)} {conf : RappConfig}
    (h : NamesDiffer declared conf.outline) {sectionName name : Bytes}
    (hnew : (sectionName, name) ∉ declared) (type : RappConfigParamType)
    (help metavar : Option Bytes) :
    NamesDiffer (declared ++ [(sectionName, name)])
      (conf.optAdd sectionName name type help metavar).2.outline := by
  have hmono : NamesDiffer (declared ++ [(sectionName, name)]) conf.outline :=
    h.mono (List.subset_append_left _ _)
  rw [RappConfig.optAdd]
  split
  · exact hmono
  split
  · exact hmono
  have hprovided := namesDiffer_provideSection h sectionName
  simp only
  cases hget : (conf.provideSection sectionName).sectionGet sectionName with
  | none => exact hprovided.mono (List.subset_append_left _ _)
  | some sectionIndex =>
    obtain ⟨before, names, behind, hlength, houtline⟩ := outline_sectionGet hget
    rw [houtline] at hprovided
    have hadded := hprovided.declare hnew
    have hname : (ConfigOption.new name type help metavar).name = name := rfl
    rw [outline_append, hname, houtline, ← hlength, List.modify_eq_take_cons_drop (by simp)]
    simpa using hadded

theorem mem_provideSection (conf : RappConfig) (sectionName other : Bytes) :
    other ∈ (conf.provideSection sectionName).outline.map Prod.fst ↔
      other ∈ conf.outline.map Prod.fst ∨ other = sectionName := by
  rw [RappConfig.provideSection]
  cases hget : conf.sectionGet sectionName with
  | none => simp [RappConfig.outline]
  | some sectionIndex =>
    have hmem : sectionName ∈ conf.outline.map Prod.fst := by
      by_contra hnot
      cases hget.symm.trans (sectionGet_eq_none_iff.mpr hnot)
    constructor
    · exact .inl
    · rintro (hold | rfl)
      · exact hold
      · exact hmem

/-- The sections after a declaration. -/
theorem mem_optAdd (conf : RappConfig) (sectionName name : Bytes) (type : RappConfigParamType)
    (help metavar : Option Bytes) (other : Bytes) :
    other ∈ (conf.optAdd sectionName name type help metavar).2.outline.map Prod.fst ↔
      other ∈ conf.outline.map Prod.fst ∨
        (validateName name && validateName sectionName) = true ∧ other = sectionName := by
  rw [RappConfig.optAdd]
  cases hname : validateName name with
  | false => simp
  | true =>
    cases hsection : validateName sectionName with
    | false => simp
    | true =>
      have hprovided := mem_provideSection conf sectionName other
      simp only [Bool.not_true, Bool.false_eq_true, if_false, Bool.and_self, true_and]
      rw [← hprovided]
      cases (conf.provideSection sectionName).sectionGet sectionName with
      | none => exact Iff.rfl
      | some sectionIndex =>
        have hnames : ∀ entries : List (Bytes × List Bytes),
            (entries.modify sectionIndex fun entry => (entry.1, entry.2 ++ [name])).map Prod.fst =
              entries.map Prod.fst := by
          intro entries
          refine List.ext_getElem? fun i => ?_
          rw [List.getElem?_map, List.getElem?_map, List.getElem?_modify]
          by_cases hi : sectionIndex = i <;> cases entries[i]? <;> simp [hi]
        exact iff_of_eq (congrArg (other ∈ ·) ((congrArg _ (outline_append _ _ _)).trans
          (hnames _)))

/-- A call on an option leaves the names. -/
theorem outline_step {call : ConfigCall} {conf : RappConfig}
    (hadd : ∀ sectionName name type help metavar,
      call ≠ .optAdd sectionName name type help metavar) :
    (call.step conf).2.outline = conf.outline := by
  cases htarget : call.target conf with
  | none => rw [ConfigCall.step_no_target htarget hadd]
  | some found =>
    obtain ⟨ref, opt⟩ := found
    rw [ConfigCall.step_target htarget]
    exact outline_store (ConfigCall.target_load htarget) (use_name opt call)

theorem namesDiffer_step {calls : List ConfigCall} {call : ConfigCall} {conf : RappConfig}
    (h : NamesDiffer (calls.filterMap ConfigCall.declares) conf.outline)
    (honce : ∀ names, call.declares = some names →
      names ∉ calls.filterMap ConfigCall.declares) :
    NamesDiffer ((calls ++ [call]).filterMap ConfigCall.declares) (call.step conf).2.outline := by
  have hmore : calls.filterMap ConfigCall.declares ⊆
      (calls ++ [call]).filterMap ConfigCall.declares := by
    rw [List.filterMap_append]
    exact List.subset_append_left _ _
  cases call with
  | optAdd sectionName name type help metavar =>
    by_cases hvalid : (validateName name && validateName sectionName) = true
    · have hdeclares : ConfigCall.declares (.optAdd sectionName name type help metavar) =
          some (sectionName, name) := if_pos hvalid
      have hadded := namesDiffer_optAdd h (honce _ hdeclares) type help metavar
      rw [List.filterMap_append, List.filterMap_cons, hdeclares]
      exact hadded
    · have hsame : (conf.optAdd sectionName name type help metavar).2 = conf := by
        rw [RappConfig.optAdd]
        split
        · rfl
        split
        · rfl
        · simp_all
      exact (congrArg (NamesDiffer _ ∘ RappConfig.outline) hsame).mpr (h.mono hmore)
  | _ =>
    rw [outline_step (by simp)]
    exact h.mono hmore

theorem namesDiffer_run {calls : List ConfigCall} (honce : ConfigCall.DeclaresOnce calls)
    {conf : RappConfig} (hrun : run ConfigCall.apply calls RappConfig.new = .ok conf) :
    NamesDiffer (calls.filterMap ConfigCall.declares) conf.outline := by
  have hguarded : Guarded (fun earlier call => ∀ names, ConfigCall.declares call = some names →
      names ∉ earlier.filterMap ConfigCall.declares) calls := by
    rintro earlier call later rfl names hnames hmem
    rw [ConfigCall.DeclaresOnce, List.filterMap_append, List.nodup_append] at honce
    refine honce.2.2 names hmem names ?_ rfl
    rw [List.filterMap_cons, hnames]
    exact List.mem_cons_self
  exact CallOutcome.run_guarded _ (I := fun earlier conf =>
    NamesDiffer (earlier.filterMap ConfigCall.declares) conf.outline) (namesDiffer_nil _)
    (fun earlier call conf next honce h hstep => by
      cases hstep
      exact namesDiffer_step h honce) hguarded hrun

/-- The sections of a configuration are those of the declarations. -/
theorem mem_sections_run {calls : List ConfigCall} {conf : RappConfig}
    (hrun : run ConfigCall.apply calls RappConfig.new = .ok conf) (sectionName : Bytes) :
    sectionName ∈ conf.outline.map Prod.fst ↔
      ∃ name, (sectionName, name) ∈ calls.filterMap ConfigCall.declares := by
  refine CallOutcome.run_history _ (I := fun earlier conf =>
    sectionName ∈ conf.outline.map Prod.fst ↔
      ∃ name, (sectionName, name) ∈ earlier.filterMap ConfigCall.declares) ?_ ?_ hrun
  · simp [RappConfig.new, RappConfig.outline]
  · intro earlier call conf next h hstep
    cases hstep
    rw [List.filterMap_append]
    simp only [List.mem_append, exists_or]
    rw [← h]
    cases call with
    | optAdd other name type help metavar =>
      rw [ConfigCall.step, mem_optAdd]
      refine or_congr_right ?_
      by_cases hvalid : (validateName name && validateName other) = true
      · simp [ConfigCall.declares, hvalid]
      · simp [ConfigCall.declares, hvalid]
    | _ =>
      rw [outline_step (by simp)]
      simp [ConfigCall.declares]

/-- A section has a name that can be declared. -/
theorem validateName_of_sectionGet {calls : List ConfigCall} {conf : RappConfig}
    (hrun : run ConfigCall.apply calls RappConfig.new = .ok conf) {sectionName : Bytes}
    (h : conf.sectionGet sectionName ≠ none) : validateName sectionName = true := by
  have hmem : sectionName ∈ conf.outline.map Prod.fst := by
    by_contra hnot
    exact h (sectionGet_eq_none_iff.mpr hnot)
  obtain ⟨name, hdeclared⟩ := (mem_sections_run hrun sectionName).mp hmem
  obtain ⟨call, -, hcall⟩ := List.mem_filterMap.mp hdeclared
  cases call with
  | optAdd other name type help metavar =>
    rw [ConfigCall.declares] at hcall
    split at hcall
    · rename_i hvalid
      cases hcall
      exact (Bool.and_eq_true_iff.mp hvalid).2
    · cases hcall
  | _ => cases hcall

/-! ### Finding an option -/

theorem findIdx_of_nodup {names : List Bytes} (h : names.Nodup) {i : Nat} {name : Bytes}
    (hi : names[i]? = some name) : names.findIdx? (fun n => n = name) = some i := by
  obtain ⟨hlt, rfl⟩ := List.getElem?_eq_some_iff.mp hi
  rw [List.findIdx?_eq_some_iff_getElem]
  refine ⟨hlt, by simp, fun j hj heq => ?_⟩
  have hsame := (List.Nodup.getElem_inj_iff h).mp (of_decide_eq_true heq)
  omega

/-- Where names differ, every option is found under its own. -/
theorem getOption_of_namesDiffer {declared : List (Bytes × Bytes)} {conf : RappConfig}
    (h : NamesDiffer declared conf.outline) {ref : OptionRef} {sect : ConfigSection}
    {opt : ConfigOption} (hsect : conf.sections[ref.sectionIndex]? = some sect)
    (hopt : sect.options[ref.optionIndex]? = some opt) :
    conf.getOption sect.name opt.name = some ref := by
  have hsections : (conf.sections.map ConfigSection.name).Nodup := by
    simpa [RappConfig.outline, Function.comp_def] using h.sections
  have hentry : (sect.name, sect.options.map ConfigOption.name) ∈ conf.outline :=
    List.mem_map.mpr ⟨sect, List.mem_of_getElem? hsect, rfl⟩
  have hget : conf.sectionGet sect.name = some ref.sectionIndex := by
    have hname : (conf.sections.map ConfigSection.name)[ref.sectionIndex]? = some sect.name := by
      simp [hsect]
    have hfound := findIdx_of_nodup hsections hname
    rw [List.findIdx?_map] at hfound
    exact hfound
  have hfind : sect.findOption opt.name = some ref.optionIndex := by
    have hname : (sect.options.map ConfigOption.name)[ref.optionIndex]? = some opt.name := by
      simp [hopt]
    have hfound := findIdx_of_nodup (h.options _ hentry) hname
    rw [List.findIdx?_map] at hfound
    exact hfound
  simp [RappConfig.getOption, RappConfig.getOptionFromSect, hget, hsect, hfind]

end Rapp
