import Rapp.YamlMentions

/-!
# The mentions that the reader delivers

What the reader takes for a mention depends on where the skip of an undeclared
section ends. Here the mentions of a stream of tokens are those that the rounds
of its loops read, whatever the stream is.
-/
namespace Rapp

open CallOutcome (Outcome run)
open EndlessLoop (visited)
open ByteBlock

/-! ### Values -/

/-- The items that the loop over the values of a list reads; `none` is one it refuses. -/
def tokenItems : List YamlToken → List (Option Bytes)
  | .blockEntry :: .scalar value :: tokens
  | .flowEntry :: .scalar value :: tokens
  | .scalar value :: tokens => some value :: tokenItems tokens
  | .blockEnd :: _ | .flowSequenceEnd :: _ => []
  | _ => [none]

theorem yamlListItems_tokenItems (opt : ConfigOption) (tokens : List YamlToken) :
    (yamlListItems opt tokens).map Prod.fst = run addItem (tokenItems tokens) opt := by
  fun_induction yamlListItems opt tokens with
  | case1 opt value tokens result hzero ih => simpa [tokenItems, addItem, result, hzero] using ih
  | case2 opt value tokens result hzero => simp [tokenItems, addItem, result, hzero]
  | case3 opt value tokens result hzero ih => simpa [tokenItems, addItem, result, hzero] using ih
  | case4 opt value tokens result hzero => simp [tokenItems, addItem, result, hzero]
  | case5 opt value tokens result hzero ih => simpa [tokenItems, addItem, result, hzero] using ih
  | case6 opt value tokens result hzero => simp [tokenItems, addItem, result, hzero]
  | case7 opt tokens => rfl
  | case8 opt tokens => rfl
  | case9 opt tokens h1 h2 h3 h4 h5 => simp_all [tokenItems, addItem]

/-- The form of the value that follows a key. -/
def tokenForm : List YamlToken → ValueForm
  | .value :: .scalar value :: _ => .scalar value
  | .value :: .blockSequenceStart :: tokens | .value :: .flowSequenceStart :: tokens =>
    .list (tokenItems tokens)
  | _ => .other

theorem configSetValueFromYamlList_items {opt next : ConfigOption} {tokens rest : List YamlToken}
    (h : configSetValueFromYamlList (wipe opt) tokens = .ok (next, rest)) :
    (ValueForm.list (tokenItems tokens)).set opt = .ok next := by
  rw [configSetValueFromYamlList] at h
  rw [ValueForm.set]
  split at h
  · cases h
  · rename_i hmulti
    rw [if_neg hmulti, ← yamlListItems_tokenItems, h, Outcome.map_ok]

theorem yamlParseValue_form {conf : RappConfig} {ref : OptionRef} {opt : ConfigOption}
    {tokens : List YamlToken} {next : YamlState}
    (h : yamlParseValue conf ref opt tokens = .next next) :
    ((tokenForm tokens).set opt).map (conf.store ref) = .ok next.conf := by
  rcases yamlParseValue_next h with ⟨value, htokens, hzero, hconf⟩ |
    ⟨rest, new, htokens, hitems, hconf⟩
  · have hform : tokenForm tokens = .scalar value := by rw [htokens, tokenForm]
    rw [hform, ValueForm.set, addItem, if_pos hzero, Outcome.map_ok, hconf]
  · have hform : tokenForm tokens = .list (tokenItems rest) := by
      rcases htokens with rfl | rfl <;> rw [tokenForm]
    rw [hform, configSetValueFromYamlList_items hitems, Outcome.map_ok, hconf]

/-! ### Rounds -/

/-- What a round of the loop over the options of a section reads. -/
def roundMention (sectionIndex : Nat) (state : YamlState) : Option Mention :=
  match state.tokens with
  | .key :: .scalar name :: tokens | .flowEntry :: .key :: .scalar name :: tokens =>
    some ⟨sectionIndex, name, tokenForm tokens⟩
  | _ => none

theorem roundMention_next {sectionIndex : Nat} {state next : YamlState}
    (h : yamlParseKeyValue sectionIndex state = .next next) :
    ∃ mention, roundMention sectionIndex state = some mention ∧
      mention.read state.conf = .ok next.conf := by
  obtain ⟨name, rest, htokens, hkey⟩ := yamlParseKeyValue_next h
  refine ⟨⟨sectionIndex, name, tokenForm rest⟩, ?_, ?_⟩
  · rcases htokens with htokens | htokens <;> rw [roundMention, htokens]
  · rw [yamlParseKeyValue_key] at hkey
    rw [Mention.read, assign]
    split at hkey
    · cases hkey
    · rename_i hnamed
      simp only [hnamed]
      exact yamlParseValue_form hkey

theorem roundMention_last {sectionIndex : Nat} {state next : YamlState}
    (h : yamlParseKeyValue sectionIndex state = .last next) :
    roundMention sectionIndex state = none ∧ next.conf = state.conf := by
  obtain ⟨hconf, hend | hend⟩ := yamlParseKeyValue_last h <;>
    exact ⟨by rw [roundMention, hend], hconf⟩

/-- What the loop over the options of a section reads. -/
def sectionMentions (sectionIndex : Nat) (state : YamlState) : List Mention :=
  (visited (fun state => state.tokens.length) (sectionRound sectionIndex) state).filterMap
    (roundMention sectionIndex)

theorem run_sectionMentions {sectionIndex : Nat} {state next : YamlState}
    (h : sectionLoop sectionIndex state = .ok next) :
    run Mention.read (sectionMentions sectionIndex state) state.conf = .ok next.conf := by
  have hshrinks := sectionRound_shrinks sectionIndex
  induction state using EndlessLoop.loop_induction hshrinks with
  | exit state result hexit =>
    have hround := hexit
    rw [sectionRound] at hround
    split at hround
    · cases hround
    · rename_i last hlast
      obtain ⟨hnone, hconf⟩ := roundMention_last hlast
      cases (sectionLoop_last hlast).symm.trans h
      rw [sectionMentions, EndlessLoop.visited_exit hexit, List.filterMap_cons_none hnone, hconf]
      rfl
    · rename_i error herror
      cases (sectionLoop_error herror).symm.trans h
  | next state middle hround ih =>
    have hparse : yamlParseKeyValue sectionIndex state = .next middle := by
      rw [sectionRound] at hround
      split at hround <;> cases hround
      assumption
    obtain ⟨mention, hmention, hread⟩ := roundMention_next hparse
    rw [sectionLoop_next hparse] at h
    rw [sectionMentions, EndlessLoop.visited_next hshrinks hround,
      List.filterMap_cons_some hmention, CallOutcome.run_cons, hread, Outcome.bind_ok]
    exact ih h

/-- What a round of the loop over the sections reads. -/
def roundMentions (state : YamlState) : List Mention :=
  match state.tokens with
  | .key :: .scalar sectionName :: .value :: .blockMappingStart :: tokens
  | .key :: .scalar sectionName :: .value :: .flowMappingStart :: tokens =>
    match state.conf.sectionGet (cString sectionName) with
    | some sectionIndex => sectionMentions sectionIndex ⟨state.conf, tokens⟩
    | none => []
  | _ => []

theorem roundMentions_undeclared {conf : RappConfig} {name : Bytes}
    (h : conf.sectionGet (cString name) = none) (tokens : List YamlToken) :
    roundMentions ⟨conf, .key :: .scalar name :: tokens⟩ = [] := by
  unfold roundMentions
  split
  · rename_i heq
    cases heq
    simp [h]
  · rename_i heq
    cases heq
    simp [h]
  · rfl

theorem run_roundMentions {state next : YamlState} (h : mainRound state = .inl next) :
    run Mention.read (roundMentions state) state.conf = .ok next.conf := by
  obtain ⟨conf, tokens⟩ := state
  unfold mainRound at h
  split at h
  · cases h
  · rename_i name rest htokens
    obtain rfl : tokens = .key :: .scalar name :: rest := htokens
    split at h
    · rename_i after hsection
      cases h
      unfold yamlParseSection at hsection
      split at hsection
      · rename_i hundeclared
        rw [roundMentions_undeclared hundeclared]
        split at hsection
        · cases hsection
        · cases hsection
          rfl
      · rename_i sectionIndex hdeclared
        split at hsection
        · rename_i inner hinner
          obtain rfl : rest = .value :: .blockMappingStart :: inner := hinner
          simp only [roundMentions, hdeclared]
          exact run_sectionMentions hsection
        · rename_i inner hinner
          obtain rfl : rest = .value :: .flowMappingStart :: inner := hinner
          simp only [roundMentions, hdeclared]
          exact run_sectionMentions hsection
        · cases hsection
    · cases h
    · cases h
  · cases h

/-- What the reader takes for the mentions of a stream of tokens. -/
def delivered (conf : RappConfig) (tokens : List YamlToken) : List Mention :=
  match yamlParseInit tokens with
  | none => []
  | some tokens =>
    (visited (fun state => state.tokens.length) mainRound ⟨conf, tokens⟩).flatMap roundMentions

theorem run_mainMentions {state : YamlState} {next : RappConfig} (h : mainLoop state = .ok next) :
    run Mention.read ((visited (fun state => state.tokens.length) mainRound state).flatMap
      roundMentions) state.conf = .ok next := by
  induction state using EndlessLoop.loop_induction mainRound_shrinks with
  | exit state result hexit =>
    have hround := hexit
    obtain rfl : result = .ok next := (EndlessLoop.loop_exit hexit).symm.trans h
    obtain ⟨conf, tokens⟩ := state
    rw [EndlessLoop.visited_exit hexit]
    unfold mainRound at hround
    split at hround
    · rename_i rest htokens
      obtain rfl : tokens = .blockEnd :: rest := htokens
      cases hround
      rfl
    · split at hround <;> cases hround
    · cases hround
  | next state middle hround ih =>
    have hrest : mainLoop middle = .ok next :=
      (EndlessLoop.loop_next mainRound_shrinks hround).symm.trans h
    rw [EndlessLoop.visited_next mainRound_shrinks hround, List.flatMap_cons,
      CallOutcome.run_append, run_roundMentions hround, Outcome.bind_ok]
    exact ih hrest

/-- A stream that is read to its end is the mentions the reader takes from it. -/
theorem run_delivered {conf next : RappConfig} {tokens : List YamlToken}
    (h : configParseMain conf tokens = .ok next) :
    run Mention.read (delivered conf tokens) conf = .ok next := by
  cases hinit : yamlParseInit tokens with
  | none =>
    rw [configParseMain, hinit] at h
    cases h
  | some inner =>
    have hread : configParseMain conf tokens = mainLoop ⟨conf, inner⟩ := by
      rw [configParseMain, hinit]
    have hmentions : delivered conf tokens = (visited (fun state => state.tokens.length) mainRound
        ⟨conf, inner⟩).flatMap roundMentions := by
      rw [delivered, hinit]
    rw [hmentions]
    exact run_mainMentions (hread.symm.trans h)

/-- The skip of `other: 1` goes on over the section behind it. -/
example :
    let conf := (RappConfig.new.optAdd (ascii "core") (ascii "port") .int none none).2
    let port : List YamlToken := [.key, .scalar (ascii "core"), .value, .blockMappingStart, .key,
      .scalar (ascii "port"), .value, .scalar (ascii "80"), .blockEnd, .blockEnd, .streamEnd]
    let start : List YamlToken := [.streamStart, .documentStart, .blockMappingStart]
    let other : List YamlToken := [.key, .scalar (ascii "other"), .value, .scalar (ascii "1")]
    (delivered conf (start ++ port)).map Mention.name = [ascii "port"] ∧
      (delivered conf (start ++ other ++ port)).map Mention.name = [] := by decide +kernel

end Rapp
