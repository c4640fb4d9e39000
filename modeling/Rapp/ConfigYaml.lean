import Rapp.Config
import Rapp.Lib.Loop
import Rapp.Lib.Outcome

/-!
# The YAML reader

`config/yaml.c` from `yaml_parse_init` to `config_parse_main`, over the tokens
that `yaml_parser_scan` gives. Behind the last token of a stream, and after an
error of the scanner, every scan gives a token of no type; here the list of
tokens is then empty. Allocations succeed.
-/
namespace Rapp

open CallOutcome (Outcome)
open EndlessLoop (loop)
open ByteBlock

/-- Token types of libyaml, with the data that is read of them. -/
inductive YamlToken where
  | streamStart
  | streamEnd
  | versionDirective
  | tagDirective
  | documentStart
  | documentEnd
  | blockSequenceStart
  | blockMappingStart
  | blockEnd
  | flowSequenceStart
  | flowSequenceEnd
  | flowMappingStart
  | flowMappingEnd
  | blockEntry
  | flowEntry
  | key
  | value
  | alias
  | anchor
  | tag
  | scalar (value : Bytes)
  deriving DecidableEq

/-- The call never returns. -/
structure NeverReturns where
  deriving DecidableEq

/-- The tokens behind the start of the top-level mapping. -/
def yamlParseInit : List YamlToken → Option (List YamlToken)
  | .streamStart :: .documentStart :: .blockMappingStart :: tokens => some tokens
  | _ => none

def configSetValueFromYamlScalar (opt : ConfigOption) (value : Bytes) : Int × ConfigOption :=
  if opt.noOverride then (0, opt) else opt.configAddValueFromString (cString value) true

abbrev ListResult := Outcome NeverReturns (ConfigOption × List YamlToken)

/-- The loop over `BLOCK_ENTRY`/`SCALAR` values. -/
def yamlListItems : ConfigOption → List YamlToken → ListResult
  | opt, .blockEntry :: .scalar value :: tokens
  | opt, .flowEntry :: .scalar value :: tokens
  | opt, .scalar value :: tokens =>
    let result := configSetValueFromYamlScalar opt value
    if result.1 = 0 then yamlListItems result.2 tokens else .failed (result.2, tokens)
  | opt, .blockEnd :: tokens | opt, .flowSequenceEnd :: tokens => .ok (opt, tokens)
  | opt, tokens => .failed (opt, tokens)

def configSetValueFromYamlList (opt : ConfigOption) (tokens : List YamlToken) : ListResult :=
  if opt.multivalued = 0 then .failed (opt, tokens) else yamlListItems opt tokens

structure YamlState where
  conf : RappConfig
  tokens : List YamlToken

/-- A result 0, a result -1 with `*last` set, and a result that is an error. -/
inductive KeyValueResult where
  | next (state : YamlState)
  | last (state : YamlState)
  | error (state : YamlState)

/-- The values a mention of the option replaces are dropped. -/
def wipe (opt : ConfigOption) : ConfigOption :=
  if opt.noOverride then opt else opt.removeAllValues

/-- The value of the option `opt` points to. -/
def yamlParseValue (conf : RappConfig) (ref : OptionRef) (opt : ConfigOption) :
    List YamlToken → KeyValueResult
  | .value :: .scalar value :: tokens =>
    let result := configSetValueFromYamlScalar (wipe opt) value
    let state := ⟨conf.store ref result.2, tokens⟩
    if result.1 = 0 then .next state else .error state
  | .value :: .blockSequenceStart :: tokens | .value :: .flowSequenceStart :: tokens =>
    match configSetValueFromYamlList (wipe opt) tokens with
    | .ok (opt, tokens) => .next ⟨conf.store ref opt, tokens⟩
    | .failed (opt, tokens) => .error ⟨conf.store ref opt, tokens⟩
    | .undefined _ => .error ⟨conf, tokens⟩
  | tokens => .error ⟨conf, tokens⟩

def yamlParseKeyValue (sectionIndex : Nat) (state : YamlState) : KeyValueResult :=
  match state.tokens with
  | .blockEnd :: tokens | .flowMappingEnd :: tokens => .last ⟨state.conf, tokens⟩
  | .key :: .scalar name :: tokens | .flowEntry :: .key :: .scalar name :: tokens =>
    match state.conf.getOptionFromSect sectionIndex (cString name) with
    | none => .error ⟨state.conf, tokens⟩
    | some ref =>
      match state.conf.load ref with
      | none => .error ⟨state.conf, tokens⟩
      | some opt => yamlParseValue state.conf ref opt tokens
  | tokens => .error ⟨state.conf, tokens⟩

/-- The tokens behind the first `BLOCK_END`; without one the loop does not end. -/
def yamlSkipSection : List YamlToken → Option (List YamlToken)
  | [] => none
  | .blockEnd :: tokens => some tokens
  | _ :: tokens => yamlSkipSection tokens

abbrev YamlResult := Outcome NeverReturns YamlState

/-- One round of the loop over the options of a section. -/
def sectionRound (sectionIndex : Nat) (state : YamlState) : YamlState ⊕ YamlResult :=
  match yamlParseKeyValue sectionIndex state with
  | .next state => .inl state
  | .last state => .inr (.ok state)
  | .error state => .inr (.failed state)

def sectionLoop (sectionIndex : Nat) (state : YamlState) : YamlResult :=
  loop (fun state => state.tokens.length) (sectionRound sectionIndex) (.undefined ⟨⟩) state

def yamlParseSection (sectionName : Bytes) (state : YamlState) : YamlResult :=
  match state.conf.sectionGet (cString sectionName) with
  | none =>
    match yamlSkipSection state.tokens with
    | none => .undefined ⟨⟩
    | some tokens => .ok ⟨state.conf, tokens⟩
  | some sectionIndex =>
    match state.tokens with
    | .value :: .blockMappingStart :: tokens | .value :: .flowMappingStart :: tokens =>
      sectionLoop sectionIndex ⟨state.conf, tokens⟩
    | tokens => .failed ⟨state.conf, tokens⟩

abbrev ConfigResult := Outcome NeverReturns RappConfig

/-- One round of the loop over the sections. -/
def mainRound (state : YamlState) : YamlState ⊕ ConfigResult :=
  match state.tokens with
  | .blockEnd :: _ => .inr (.ok state.conf)
  | .key :: .scalar sectionName :: tokens =>
    match yamlParseSection sectionName ⟨state.conf, tokens⟩ with
    | .ok state => .inl state
    | .failed state => .inr (.failed state.conf)
    | .undefined why => .inr (.undefined why)
  | _ => .inr (.failed state.conf)

def mainLoop (state : YamlState) : ConfigResult :=
  loop (fun state => state.tokens.length) mainRound (.undefined ⟨⟩) state

def configParseMain (conf : RappConfig) (tokens : List YamlToken) : ConfigResult :=
  match yamlParseInit tokens with
  | none => .failed conf
  | some tokens => mainLoop ⟨conf, tokens⟩

/-! ### The loops end -/

theorem yamlListItems_length {opt next : ConfigOption} {tokens rest : List YamlToken}
    (h : yamlListItems opt tokens = .ok (next, rest)) : rest.length < tokens.length := by
  fun_induction yamlListItems opt tokens with
  | case1 opt value tokens result hzero ih =>
    have := ih h
    simp only [List.length_cons]
    omega
  | case3 opt value tokens result hzero ih =>
    have := ih h
    simp only [List.length_cons]
    omega
  | case5 opt value tokens result hzero ih =>
    have := ih h
    simp only [List.length_cons]
    omega
  | case7 opt tokens =>
    cases h
    simp
  | case8 opt tokens =>
    cases h
    simp
  | _ => cases h

/-- What a value that is taken was, and what it leaves. -/
theorem yamlParseValue_next {conf : RappConfig} {ref : OptionRef} {opt : ConfigOption}
    {tokens : List YamlToken} {next : YamlState}
    (h : yamlParseValue conf ref opt tokens = .next next) :
    (∃ value, tokens = .value :: .scalar value :: next.tokens ∧
      (configSetValueFromYamlScalar (wipe opt) value).1 = 0 ∧
      next.conf = conf.store ref (configSetValueFromYamlScalar (wipe opt) value).2) ∨
    ∃ rest new, (tokens = .value :: .blockSequenceStart :: rest ∨
        tokens = .value :: .flowSequenceStart :: rest) ∧
      configSetValueFromYamlList (wipe opt) rest = .ok (new, next.tokens) ∧
      next.conf = conf.store ref new := by
  unfold yamlParseValue at h
  split at h
  · rename_i value rest
    dsimp only at h
    split at h
    · rename_i hzero
      cases h
      exact .inl ⟨value, rfl, hzero, rfl⟩
    · cases h
  · rename_i rest
    split at h
    · rename_i new left hitems
      cases h
      exact .inr ⟨rest, new, .inl rfl, hitems, rfl⟩
    · cases h
    · cases h
  · rename_i rest
    split at h
    · rename_i new left hitems
      cases h
      exact .inr ⟨rest, new, .inr rfl, hitems, rfl⟩
    · cases h
    · cases h
  · cases h

theorem yamlParseValue_length {conf : RappConfig} {ref : OptionRef} {opt : ConfigOption}
    {tokens : List YamlToken} {next : YamlState}
    (h : yamlParseValue conf ref opt tokens = .next next) :
    next.tokens.length < tokens.length := by
  rcases yamlParseValue_next h with ⟨value, rfl, -⟩ | ⟨rest, new, htokens, hitems, -⟩
  · simp only [List.length_cons]
    omega
  · unfold configSetValueFromYamlList at hitems
    split at hitems
    · cases hitems
    · have := yamlListItems_length hitems
      rcases htokens with rfl | rfl <;> simp only [List.length_cons] <;> omega

/-- The option a key names. -/
def optionNamed (conf : RappConfig) (sectionIndex : Nat) (name : Bytes) :
    Option (OptionRef × ConfigOption) :=
  (conf.getOptionFromSect sectionIndex (cString name)).bind fun ref =>
    (conf.load ref).map fun opt => (ref, opt)

theorem yamlParseKeyValue_key (conf : RappConfig) (sectionIndex : Nat) (name : Bytes)
    (tokens : List YamlToken) :
    yamlParseKeyValue sectionIndex ⟨conf, .key :: .scalar name :: tokens⟩ =
      match optionNamed conf sectionIndex name with
      | none => .error ⟨conf, tokens⟩
      | some (ref, opt) => yamlParseValue conf ref opt tokens := by
  simp only [yamlParseKeyValue, optionNamed]
  cases conf.getOptionFromSect sectionIndex (cString name) with
  | none => rfl
  | some ref => cases hload : conf.load ref <;> simp [hload]

theorem yamlParseKeyValue_flowEntry (conf : RappConfig) (sectionIndex : Nat) (name : Bytes)
    (tokens : List YamlToken) :
    yamlParseKeyValue sectionIndex ⟨conf, .flowEntry :: .key :: .scalar name :: tokens⟩ =
      yamlParseKeyValue sectionIndex ⟨conf, .key :: .scalar name :: tokens⟩ := rfl

/-- An entry that is taken begins with its key, which a comma may stand in front of. -/
theorem yamlParseKeyValue_next {sectionIndex : Nat} {state next : YamlState}
    (h : yamlParseKeyValue sectionIndex state = .next next) :
    ∃ name rest, (state.tokens = .key :: .scalar name :: rest ∨
        state.tokens = .flowEntry :: .key :: .scalar name :: rest) ∧
      yamlParseKeyValue sectionIndex ⟨state.conf, .key :: .scalar name :: rest⟩ = .next next := by
  obtain ⟨conf, tokens⟩ := state
  match tokens, h with
  | .key :: .scalar name :: rest, h => exact ⟨name, rest, .inl rfl, h⟩
  | .flowEntry :: .key :: .scalar name :: rest, h =>
    rw [yamlParseKeyValue_flowEntry] at h
    exact ⟨name, rest, .inr rfl, h⟩

theorem yamlParseKeyValue_length {sectionIndex : Nat} {state next : YamlState}
    (h : yamlParseKeyValue sectionIndex state = .next next) :
    next.tokens.length < state.tokens.length := by
  obtain ⟨name, rest, htokens, hkey⟩ := yamlParseKeyValue_next h
  have hrest : next.tokens.length < rest.length := by
    rw [yamlParseKeyValue_key] at hkey
    split at hkey
    · cases hkey
    · exact yamlParseValue_length hkey
  rcases htokens with htokens | htokens <;> rw [htokens] <;> simp only [List.length_cons] <;> omega

theorem sectionRound_shrinks (sectionIndex : Nat) (state next : YamlState)
    (h : sectionRound sectionIndex state = .inl next) :
    next.tokens.length < state.tokens.length := by
  unfold sectionRound at h
  split at h
  · rename_i hnext
    cases h
    exact yamlParseKeyValue_length hnext
  · cases h
  · cases h

theorem yamlSkipSection_length {tokens rest : List YamlToken}
    (h : yamlSkipSection tokens = some rest) : rest.length < tokens.length := by
  fun_induction yamlSkipSection tokens with
  | case1 => cases h
  | case2 tokens =>
    cases h
    simp
  | case3 token tokens hend ih =>
    have := ih h
    simp only [List.length_cons]
    omega

theorem sectionLoop_next {sectionIndex : Nat} {state next : YamlState}
    (h : yamlParseKeyValue sectionIndex state = .next next) :
    sectionLoop sectionIndex state = sectionLoop sectionIndex next :=
  EndlessLoop.loop_next (sectionRound_shrinks sectionIndex) (by rw [sectionRound, h])

theorem sectionLoop_last {sectionIndex : Nat} {state next : YamlState}
    (h : yamlParseKeyValue sectionIndex state = .last next) :
    sectionLoop sectionIndex state = .ok next :=
  EndlessLoop.loop_exit (by rw [sectionRound, h])

theorem sectionLoop_error {sectionIndex : Nat} {state next : YamlState}
    (h : yamlParseKeyValue sectionIndex state = .error next) :
    sectionLoop sectionIndex state = .failed next :=
  EndlessLoop.loop_exit (by rw [sectionRound, h])

theorem yamlParseKeyValue_last {sectionIndex : Nat} {state next : YamlState}
    (h : yamlParseKeyValue sectionIndex state = .last next) :
    next.conf = state.conf ∧
      (state.tokens = .blockEnd :: next.tokens ∨
        state.tokens = .flowMappingEnd :: next.tokens) := by
  have hkey : ∀ {name : Bytes} {rest : List YamlToken},
      yamlParseKeyValue sectionIndex ⟨state.conf, .key :: .scalar name :: rest⟩ ≠ .last next := by
    intro name rest h
    rw [yamlParseKeyValue_key] at h
    split at h
    · cases h
    · rename_i ref opt hnamed
      unfold yamlParseValue at h
      split at h
      · dsimp only at h
        split at h <;> cases h
      · split at h <;> cases h
      · split at h <;> cases h
      · cases h
  obtain ⟨conf, tokens⟩ := state
  match tokens, h with
  | .blockEnd :: rest, h =>
    cases h
    exact ⟨rfl, .inl rfl⟩
  | .flowMappingEnd :: rest, h =>
    cases h
    exact ⟨rfl, .inr rfl⟩
  | .key :: .scalar name :: rest, h => exact absurd h hkey
  | .flowEntry :: .key :: .scalar name :: rest, h =>
    rw [yamlParseKeyValue_flowEntry] at h
    exact absurd h hkey

theorem sectionLoop_length {sectionIndex : Nat} {state next : YamlState}
    (h : sectionLoop sectionIndex state = .ok next) :
    next.tokens.length < state.tokens.length := by
  have hleaves : ∃ left : YamlState, left.tokens.length ≤ state.tokens.length ∧
      sectionRound sectionIndex left = .inr (sectionLoop sectionIndex state) := by
    refine EndlessLoop.loop_leaves (P := fun s => s.tokens.length ≤ state.tokens.length)
      (sectionRound_shrinks sectionIndex) (fun s t hs ht => ?_) (Nat.le_refl _)
    have := sectionRound_shrinks sectionIndex s t ht
    omega
  obtain ⟨left, hle, hleft⟩ := hleaves
  rw [h, sectionRound] at hleft
  split at hleft
  · cases hleft
  · rename_i last hlast
    cases hleft
    have hshorter : next.tokens.length < left.tokens.length := by
      obtain ⟨-, hend | hend⟩ := yamlParseKeyValue_last hlast <;> simp [hend]
    exact hshorter.trans_le hle
  · cases hleft

theorem yamlParseSection_length {sectionName : Bytes} {state next : YamlState}
    (h : yamlParseSection sectionName state = .ok next) :
    next.tokens.length < state.tokens.length := by
  unfold yamlParseSection at h
  split at h
  · split at h
    · cases h
    · rename_i rest hskip
      cases h
      exact yamlSkipSection_length hskip
  · split at h
    · rename_i rest htokens
      have := sectionLoop_length h
      simp only [htokens, List.length_cons] at this ⊢
      omega
    · rename_i rest htokens
      have := sectionLoop_length h
      simp only [htokens, List.length_cons] at this ⊢
      omega
    · cases h

theorem mainRound_shrinks (state next : YamlState) (h : mainRound state = .inl next) :
    next.tokens.length < state.tokens.length := by
  unfold mainRound at h
  split at h
  · cases h
  · rename_i name rest htokens
    split at h
    · rename_i result hsection
      cases h
      have := yamlParseSection_length hsection
      simp only [htokens, List.length_cons] at this ⊢
      omega
    · cases h
    · cases h
  · cases h

/-- A section is read, then the rest of the mapping. -/
theorem mainLoop_section (conf : RappConfig) (name : Bytes) (tokens : List YamlToken) :
    mainLoop ⟨conf, .key :: .scalar name :: tokens⟩ =
      match yamlParseSection name ⟨conf, tokens⟩ with
      | .ok state => mainLoop state
      | .failed state => .failed state.conf
      | .undefined why => .undefined why := by
  cases h : yamlParseSection name ⟨conf, tokens⟩ with
  | ok state => exact EndlessLoop.loop_next mainRound_shrinks (by simp only [mainRound, h])
  | failed state => exact EndlessLoop.loop_exit (by simp only [mainRound, h])
  | undefined why => exact EndlessLoop.loop_exit (by simp only [mainRound, h])

theorem mainLoop_blockEnd (conf : RappConfig) (tokens : List YamlToken) :
    mainLoop ⟨conf, .blockEnd :: tokens⟩ = .ok conf :=
  EndlessLoop.loop_exit rfl

end Rapp
