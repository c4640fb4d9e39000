import Rapp.YamlMentions

/-!
# Texts offered one after the other

What an option makes of a list of texts: the values of those that are accepted,
only the first of them when it is not multivalued.
-/
namespace Rapp

open ByteBlock

namespace ConfigOption

/-- The values a list of texts gives an option that has none. -/
def acceptedValues (opt : ConfigOption) (texts : List Bytes) : List ConfigValue :=
  if opt.multivalued = 0 then (texts.filterMap opt.parse).take 1 else texts.filterMap opt.parse

/-- The texts offered in order, the results not looked at. -/
def offerAll (opt : ConfigOption) (texts : List Bytes) : ConfigOption :=
  texts.foldl (fun opt text => (opt.configAddValueFromString text true).2) opt

/-- `opt->no_override = 1`. -/
def lock (opt : ConfigOption) : ConfigOption := { opt with noOverride := true }

end ConfigOption

theorem addFromString_name (opt : ConfigOption) (text : Bytes) :
    (opt.configAddValueFromString text true).2.name = opt.name :=
  use_name opt (.addValueFromString ⟨0, 0⟩ text true)

theorem offerAll_name (opt : ConfigOption) (texts : List Bytes) :
    (opt.offerAll texts).name = opt.name := by
  induction texts generalizing opt with
  | nil => rfl
  | cons text texts ih => exact (ih _).trans (addFromString_name opt text)

theorem acceptedValues_concat (opt : ConfigOption) (texts : List Bytes) (text : Bytes) :
    opt.acceptedValues (texts ++ [text]) =
      if opt.multivalued = 0 ∧ opt.acceptedValues texts ≠ [] then opt.acceptedValues texts
      else opt.acceptedValues texts ++ (opt.parse text).toList := by
  rw [ConfigOption.acceptedValues, ConfigOption.acceptedValues, List.filterMap_append]
  by_cases hsingle : opt.multivalued = 0
  · rw [if_pos hsingle, if_pos hsingle]
    cases texts.filterMap opt.parse with
    | nil => cases hparse : opt.parse text <;> simp [hparse]
    | cons value values => simp [hsingle]
  · rw [if_neg hsingle, if_neg hsingle, if_neg (fun h => hsingle h.1)]
    cases hparse : opt.parse text <;> simp [hparse]

/-- One more text. -/
theorem addFromString_accepted {opt : ConfigOption} (h : Sane opt) (texts : List Bytes)
    (text : Bytes) :
    ((opt.withValues (opt.acceptedValues texts)).configAddValueFromString text true).2 =
      opt.withValues (opt.acceptedValues (texts ++ [text])) := by
  rw [ConfigOption.configAddValueFromString_eq, parse_withValues, acceptedValues_concat]
  cases hparse : opt.parse text with
  | none => simp
  | some value =>
    have hwith := h.withValues (opt.acceptedValues texts)
    simp only [if_true, ConfigOption.offer]
    by_cases hfull : opt.multivalued = 0 ∧ opt.acceptedValues texts ≠ []
    · rw [if_pos hfull, if_neg]
      intro hadmits
      have hroom : ¬ (opt.multivalued = 0 ∧ 0 < ((opt.acceptedValues texts).length : Int)) := by
        cases value with
        | int number => exact ((ConfigOption.admits_int _ number).mp hadmits).1
        | str text => exact (ConfigOption.admits_str _ text).mp hadmits
        | null => exact (ConfigOption.parse_fits hparse).elim
      refine hroom ⟨hfull.1, ?_⟩
      have hlength := List.length_pos_iff.mpr hfull.2
      omega
    · have hroom : opt.multivalued ≠ 0 ∨ opt.acceptedValues texts = [] := by
        by_contra hno
        simp only [not_or, not_not] at hno
        exact hfull hno
      rw [if_neg hfull, if_pos (admits_of_parse hwith hroom hparse), push_eq hwith]
      rfl

theorem withValues_nil {opt : ConfigOption} (h : Sane opt) (hempty : opt.values = []) :
    opt.withValues [] = opt := by
  have hcount := h.counted
  rw [hempty] at hcount
  rw [ConfigOption.withValues, ← hempty, h.counted.symm]

theorem offerAll_eq {opt : ConfigOption} (h : Sane opt) (hempty : opt.values = [])
    (texts : List Bytes) : opt.offerAll texts = opt.withValues (opt.acceptedValues texts) := by
  induction texts using List.reverseRecOn with
  | nil =>
    have hnone : opt.acceptedValues [] = [] := by simp [ConfigOption.acceptedValues]
    rw [hnone, withValues_nil h hempty]
    rfl
  | append_singleton texts text ih =>
    have hstep := addFromString_accepted h texts text
    rw [← ih] at hstep
    rw [ConfigOption.offerAll, List.foldl_append]
    exact hstep

/-- Something is accepted when each text is. -/
theorem acceptedValues_ne_nil {opt : ConfigOption} {texts : List Bytes} (hne : texts ≠ [])
    (h : ∀ text ∈ texts, (opt.parse text).isSome) : opt.acceptedValues texts ≠ [] := by
  obtain ⟨text, texts, rfl⟩ := List.exists_cons_of_ne_nil hne
  obtain ⟨value, hvalue⟩ := Option.isSome_iff_exists.mp (h text List.mem_cons_self)
  rw [ConfigOption.acceptedValues]
  split <;> simp [hvalue]

theorem Sane.lock {opt : ConfigOption} (h : Sane opt) : Sane opt.lock := ⟨h.counted, h.truth⟩

theorem Sane.addFromString {opt : ConfigOption} (h : Sane opt) (text : Bytes) :
    Sane (opt.configAddValueFromString text true).2 :=
  h.use (.addValueFromString ⟨0, 0⟩ text true)

theorem Sane.offerAll {opt : ConfigOption} (h : Sane opt) (texts : List Bytes) :
    Sane (opt.offerAll texts) := by
  induction texts generalizing opt with
  | nil => exact h
  | cons text texts ih => exact ih (h.addFromString text)

end Rapp
