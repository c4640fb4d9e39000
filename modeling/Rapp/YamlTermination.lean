import Rapp.ConfigYaml

/-!
# Loading returns

The reader with a limit on the rounds of each of its loops. Behind the last
token every scan gives a token of no type, and the loop of `yaml_skip_section`
goes on with it. Loading returns when some limit is enough. The loop over the
values of a list stops at every other token and needs no limit.
-/
namespace Rapp

open CallOutcome (Outcome)
open EndlessLoop (rounds Reaches)
open ByteBlock

/-- One scan of `yaml_skip_section`. -/
def skipRound (tokens : List YamlToken) : List YamlToken ⊕ Option (List YamlToken) :=
  if tokens.head? = some .blockEnd then .inr (some tokens.tail) else .inl tokens.tail

def yamlSkipSectionWithin (limit : Nat) (tokens : List YamlToken) : Option (List YamlToken) :=
  rounds skipRound none limit tokens

def sectionLoopWithin (limit sectionIndex : Nat) (state : YamlState) : Option YamlResult :=
  rounds (fun state => (sectionRound sectionIndex state).map id some) none limit state

def yamlParseSectionWithin (limit : Nat) (sectionName : Bytes) (state : YamlState) :
    Option YamlResult :=
  match state.conf.sectionGet (cString sectionName) with
  | none =>
    (yamlSkipSectionWithin limit state.tokens).map fun tokens => .ok ⟨state.conf, tokens⟩
  | some sectionIndex =>
    match state.tokens with
    | .value :: .blockMappingStart :: tokens | .value :: .flowMappingStart :: tokens =>
      sectionLoopWithin limit sectionIndex ⟨state.conf, tokens⟩
    | tokens => some (.failed ⟨state.conf, tokens⟩)

def mainRoundWithin (limit : Nat) (state : YamlState) : YamlState ⊕ Option ConfigResult :=
  match state.tokens with
  | .blockEnd :: _ => .inr (some (.ok state.conf))
  | .key :: .scalar sectionName :: tokens =>
    match yamlParseSectionWithin limit sectionName ⟨state.conf, tokens⟩ with
    | some (.ok state) => .inl state
    | some (.failed state) => .inr (some (.failed state.conf))
    | some (.undefined why) => .inr (some (.undefined why))
    | none => .inr none
  | _ => .inr (some (.failed state.conf))

def configParseMainWithin (limit : Nat) (conf : RappConfig) (tokens : List YamlToken) :
    Option ConfigResult :=
  match yamlParseInit tokens with
  | none => some (.failed conf)
  | some tokens => rounds (mainRoundWithin limit) none limit ⟨conf, tokens⟩

/-- Loading takes finitely many tokens and returns. -/
def Returns (conf : RappConfig) (tokens : List YamlToken) : Prop :=
  ∃ limit result, configParseMainWithin limit conf tokens = some result

/-! ### The loops without a limit -/

theorem skipRound_next {t : YamlToken} (h : t ≠ .blockEnd) (tokens : List YamlToken) :
    skipRound (t :: tokens) = .inl tokens := by
  simp [skipRound, h]

/-- Behind the last token the loop goes round for ever. -/
theorem yamlSkipSectionWithin_nil (limit : Nat) : yamlSkipSectionWithin limit [] = none := by
  induction limit with
  | zero => rfl
  | succ limit ih => exact ih

theorem yamlSkipSectionWithin_next {t : YamlToken} (h : t ≠ .blockEnd) (limit : Nat)
    (tokens : List YamlToken) :
    yamlSkipSectionWithin (limit + 1) (t :: tokens) = yamlSkipSectionWithin limit tokens := by
  rw [yamlSkipSectionWithin, rounds, skipRound_next h]
  rfl

theorem yamlSkipSection_next {t : YamlToken} (h : t ≠ .blockEnd) (tokens : List YamlToken) :
    yamlSkipSection (t :: tokens) = yamlSkipSection tokens :=
  yamlSkipSection.eq_3 t tokens h

theorem yamlSkipSection_of_within {limit : Nat} {tokens rest : List YamlToken}
    (h : yamlSkipSectionWithin limit tokens = some rest) : yamlSkipSection tokens = some rest := by
  induction tokens generalizing limit with
  | nil => cases (yamlSkipSectionWithin_nil limit).symm.trans h
  | cons t tokens ih =>
    cases limit with
    | zero => cases h
    | succ limit =>
      by_cases hend : t = .blockEnd
      · subst hend
        cases h
        rfl
      · rw [yamlSkipSectionWithin_next hend] at h
        rw [yamlSkipSection_next hend]
        exact ih h

theorem yamlSkipSectionWithin_of_skip {limit : Nat} {tokens rest : List YamlToken}
    (h : yamlSkipSection tokens = some rest) (hlimit : tokens.length < limit) :
    yamlSkipSectionWithin limit tokens = some rest := by
  induction tokens generalizing limit with
  | nil => cases h
  | cons t tokens ih =>
    obtain ⟨limit, rfl⟩ : ∃ n, limit = n + 1 := ⟨limit - 1, by omega⟩
    by_cases hend : t = .blockEnd
    · subst hend
      cases h
      rfl
    · rw [yamlSkipSection_next hend] at h
      rw [yamlSkipSectionWithin_next hend]
      exact ih h (by simpa using hlimit)

theorem yamlSkipSection_eq_none {tokens : List YamlToken} :
    yamlSkipSection tokens = none ↔ .blockEnd ∉ tokens := by
  induction tokens with
  | nil => simp [yamlSkipSection]
  | cons t tokens ih =>
    by_cases hend : t = .blockEnd
    · simp [hend, yamlSkipSection]
    · rw [yamlSkipSection_next hend, ih]
      simp [Ne.symm hend]

/-- The loop over the options of a section always ends. -/
theorem sectionLoop_returns (sectionIndex : Nat) (state : YamlState) (why : NeverReturns) :
    sectionLoop sectionIndex state ≠ .undefined why := by
  intro h
  obtain ⟨left, -, hleft⟩ : ∃ left, Reaches (sectionRound sectionIndex) state left ∧
      sectionRound sectionIndex left = .inr (sectionLoop sectionIndex state) :=
    EndlessLoop.loop_leaves_reached (sectionRound_shrinks sectionIndex) state
  rw [h, sectionRound] at hleft
  split at hleft <;> cases hleft

theorem sectionLoop_of_within {limit sectionIndex : Nat} {state : YamlState} {result : YamlResult}
    (h : sectionLoopWithin limit sectionIndex state = some result) :
    sectionLoop sectionIndex state = result := by
  refine EndlessLoop.loop_eq_of_rounds (sectionRound_shrinks sectionIndex) (fun s t hs => ?_)
    (fun s r hs => ?_) h
  · cases hb : sectionRound sectionIndex s <;> simp_all
  · cases hb : sectionRound sectionIndex s <;> simp_all

theorem sectionLoopWithin_eq {limit : Nat} (sectionIndex : Nat) {state : YamlState}
    (hlimit : state.tokens.length < limit) :
    sectionLoopWithin limit sectionIndex state = some (sectionLoop sectionIndex state) := by
  refine EndlessLoop.rounds_eq_of_loop (sectionRound_shrinks sectionIndex) (fun s t _ hs => ?_)
    (fun s r _ hs _ => ?_) hlimit hlimit (sectionLoop_returns sectionIndex state ⟨⟩)
  · rw [hs]
    rfl
  · rw [hs]
    rfl

/-- What the value of a declared section begins with decides whether the loop is entered. -/
theorem yamlParseSection_enters {conf : RappConfig} {sectionName : Bytes} {sectionIndex : Nat}
    (h : conf.sectionGet (cString sectionName) = some sectionIndex) (limit : Nat)
    (tokens : List YamlToken) :
    (∃ inside, inside.length ≤ tokens.length ∧
      yamlParseSection sectionName ⟨conf, tokens⟩ = sectionLoop sectionIndex ⟨conf, inside⟩ ∧
      yamlParseSectionWithin limit sectionName ⟨conf, tokens⟩ =
        sectionLoopWithin limit sectionIndex ⟨conf, inside⟩) ∨
    yamlParseSection sectionName ⟨conf, tokens⟩ = .failed ⟨conf, tokens⟩ ∧
      yamlParseSectionWithin limit sectionName ⟨conf, tokens⟩ =
        some (.failed ⟨conf, tokens⟩) := by
  simp only [yamlParseSection, yamlParseSectionWithin, h]
  rcases tokens with _ | ⟨t, _ | ⟨u, more⟩⟩
  · exact .inr ⟨rfl, rfl⟩
  · cases t <;> exact .inr ⟨rfl, rfl⟩
  · -- Only a value and a mapping's start lead into the section.
    by_cases hvalue : t = .value
    · subst hvalue
      cases u <;> first | exact .inr ⟨rfl, rfl⟩ | exact .inl ⟨more, by simp; omega, rfl, rfl⟩
    · cases t <;> first | exact .inr ⟨rfl, rfl⟩ | exact absurd rfl hvalue

theorem yamlParseSection_of_within {limit : Nat} {sectionName : Bytes} {state : YamlState}
    {result : YamlResult} (h : yamlParseSectionWithin limit sectionName state = some result) :
    yamlParseSection sectionName state = result ∧ result ≠ .undefined ⟨⟩ := by
  obtain ⟨conf, tokens⟩ := state
  cases hget : conf.sectionGet (cString sectionName) with
  | none =>
    rw [yamlParseSectionWithin, hget] at h
    obtain ⟨rest, hrest, rfl⟩ := Option.map_eq_some_iff.mp h
    rw [yamlParseSection, hget]
    simp [yamlSkipSection_of_within hrest]
  | some sectionIndex =>
    rcases yamlParseSection_enters hget limit tokens with ⟨inside, -, hread, hwithin⟩ |
      ⟨hread, hwithin⟩
    · rw [hwithin] at h
      rw [hread, ← sectionLoop_of_within h]
      exact ⟨rfl, sectionLoop_returns _ _ _⟩
    · rw [hwithin] at h
      cases h
      exact ⟨hread, nofun⟩

theorem yamlParseSectionWithin_eq {limit : Nat} {sectionName : Bytes} {state : YamlState}
    (hlimit : state.tokens.length < limit)
    (h : yamlParseSection sectionName state ≠ .undefined ⟨⟩) :
    yamlParseSectionWithin limit sectionName state = some (yamlParseSection sectionName state) := by
  obtain ⟨conf, tokens⟩ := state
  cases hget : conf.sectionGet (cString sectionName) with
  | none =>
    rw [yamlParseSection, hget] at h
    cases hskip : yamlSkipSection tokens with
    | none => simp [hskip] at h
    | some rest =>
      rw [yamlParseSectionWithin, yamlParseSection, hget]
      simp [hskip, yamlSkipSectionWithin_of_skip hskip hlimit]
  | some sectionIndex =>
    rcases yamlParseSection_enters hget limit tokens with ⟨inside, hinside, hread, hwithin⟩ |
      ⟨hread, hwithin⟩
    · rw [hread, hwithin, sectionLoopWithin_eq sectionIndex (hinside.trans_lt hlimit)]
    · rw [hread, hwithin]

/-! ### Loading with a limit and without -/

theorem mainRound_cases (limit : Nat) (state : YamlState) :
    (∃ name tokens, state.tokens = .key :: .scalar name :: tokens) ∨
    ∃ result, mainRound state = .inr result ∧
      mainRoundWithin limit state = .inr (some result) ∧ result ≠ .undefined ⟨⟩ := by
  obtain ⟨conf, tokens⟩ := state
  match tokens with
  | [] => exact .inr ⟨_, rfl, rfl, nofun⟩
  | [t] => cases t <;> exact .inr ⟨_, rfl, rfl, nofun⟩
  | t :: u :: more =>
    by_cases hkey : t = .key
    · subst hkey
      cases u <;> first | exact .inl ⟨_, _, rfl⟩ | exact .inr ⟨_, rfl, rfl, nofun⟩
    · cases t <;> first | exact .inr ⟨_, rfl, rfl, nofun⟩ | exact absurd rfl hkey

theorem mainRound_of_within {limit : Nat} {state next : YamlState}
    (h : mainRoundWithin limit state = .inl next) : mainRound state = .inl next := by
  obtain ⟨conf, tokens⟩ := state
  rcases mainRound_cases limit ⟨conf, tokens⟩ with ⟨name, rest, rfl⟩ | ⟨result, -, hwithin, -⟩
  · simp only [mainRoundWithin] at h
    split at h
    · rename_i hsection
      cases h
      simp [mainRound, (yamlParseSection_of_within hsection).1]
    · cases h
    · cases h
    · cases h
  · cases hwithin.symm.trans h

theorem mainRound_exit_of_within {limit : Nat} {state : YamlState} {result : ConfigResult}
    (h : mainRoundWithin limit state = .inr (some result)) :
    mainRound state = .inr result ∧ result ≠ .undefined ⟨⟩ := by
  obtain ⟨conf, tokens⟩ := state
  rcases mainRound_cases limit ⟨conf, tokens⟩ with ⟨name, rest, rfl⟩ |
    ⟨result, hread, hwithin, hresult⟩
  · simp only [mainRoundWithin] at h
    split at h
    · cases h
    · rename_i hsection
      cases h
      simp [mainRound, (yamlParseSection_of_within hsection).1]
    · rename_i why hsection
      exact absurd rfl (yamlParseSection_of_within hsection).2
    · cases h
  · cases hwithin.symm.trans h
    exact ⟨hread, hresult⟩

theorem mainRoundWithin_eq {limit : Nat} {state : YamlState} (hlimit : state.tokens.length < limit)
    (h : mainRound state ≠ .inr (.undefined ⟨⟩)) :
    mainRoundWithin limit state = (mainRound state).map id some := by
  obtain ⟨conf, tokens⟩ := state
  rcases mainRound_cases limit ⟨conf, tokens⟩ with ⟨name, rest, rfl⟩ |
    ⟨result, hread, hwithin, hresult⟩
  · have hshorter : rest.length < limit := by
      simp only [List.length_cons] at hlimit
      omega
    simp only [mainRound] at h
    have hsection : yamlParseSection name ⟨conf, rest⟩ ≠ .undefined ⟨⟩ := by
      intro hsection
      simp [hsection] at h
    simp only [mainRoundWithin, mainRound, yamlParseSectionWithin_eq hshorter hsection]
    cases yamlParseSection name ⟨conf, rest⟩ <;> rfl
  · rw [hread, hwithin]
    rfl

theorem mainLoop_of_rounds {limit : Nat} {state : YamlState} {result : ConfigResult} {n : Nat}
    (h : rounds (mainRoundWithin limit) none n state = some result) : mainLoop state = result :=
  EndlessLoop.loop_eq_of_rounds mainRound_shrinks (fun _ _ hs => mainRound_of_within hs)
    (fun _ _ hs => (mainRound_exit_of_within hs).1) h

theorem mainLoop_returns {state : YamlState} (h : mainLoop state ≠ .undefined ⟨⟩) :
    rounds (mainRoundWithin (state.tokens.length + 1)) none (state.tokens.length + 1) state =
      some (mainLoop state) := by
  refine EndlessLoop.rounds_eq_of_loop mainRound_shrinks (fun s t hlimit hs => ?_)
    (fun s r hlimit hs hr => ?_) (Nat.lt_succ_self _) (Nat.lt_succ_self _) h
  · rw [mainRoundWithin_eq hlimit (by simp [hs]), hs]
    rfl
  · rw [mainRoundWithin_eq hlimit (by simpa [hs] using hr), hs]
    rfl

theorem returns_iff (conf : RappConfig) (tokens : List YamlToken) :
    Returns conf tokens ↔ configParseMain conf tokens ≠ .undefined ⟨⟩ := by
  simp only [Returns, configParseMainWithin, configParseMain]
  cases yamlParseInit tokens with
  | none => simp
  | some rest =>
    constructor
    · rintro ⟨limit, result, hresult⟩ hundefined
      have hloop : mainLoop ⟨conf, rest⟩ = result := mainLoop_of_rounds hresult
      obtain ⟨left, -, hleft⟩ := EndlessLoop.rounds_leaves hresult
      exact (mainRound_exit_of_within hleft).2 (hloop.symm.trans hundefined)
    · intro h
      exact ⟨_, _, mainLoop_returns h⟩

/-! ### When it returns -/

/-- In front of an undeclared section there is the end of a block collection. -/
def SkipEnds (state : YamlState) : Prop :=
  ∀ name rest, state.tokens = .key :: .scalar name :: rest →
    state.conf.sectionGet (cString name) = none → .blockEnd ∈ rest

theorem yamlParseSection_undefined_iff (sectionName : Bytes) (conf : RappConfig)
    (tokens : List YamlToken) :
    yamlParseSection sectionName ⟨conf, tokens⟩ = .undefined ⟨⟩ ↔
      conf.sectionGet (cString sectionName) = none ∧ .blockEnd ∉ tokens := by
  cases hget : conf.sectionGet (cString sectionName) with
  | none =>
    rw [yamlParseSection, hget, ← yamlSkipSection_eq_none]
    cases yamlSkipSection tokens <;> simp
  | some sectionIndex =>
    rcases yamlParseSection_enters hget 0 tokens with ⟨inside, -, hread, -⟩ | ⟨hread, -⟩
    · simp [hread, sectionLoop_returns]
    · simp [hread]

theorem mainRound_undefined_iff (state : YamlState) :
    mainRound state = .inr (.undefined ⟨⟩) ↔ ¬ SkipEnds state := by
  obtain ⟨conf, tokens⟩ := state
  by_cases hkey : ∃ name rest, tokens = .key :: .scalar name :: rest
  · obtain ⟨name, rest, rfl⟩ := hkey
    have hsection : mainRound ⟨conf, .key :: .scalar name :: rest⟩ = .inr (.undefined ⟨⟩) ↔
        yamlParseSection name ⟨conf, rest⟩ = .undefined ⟨⟩ := by
      simp only [mainRound]
      cases yamlParseSection name ⟨conf, rest⟩ <;> simp
    rw [hsection, yamlParseSection_undefined_iff]
    simp [SkipEnds]
  · have hskip : SkipEnds ⟨conf, tokens⟩ := fun name rest htokens _ =>
      absurd ⟨name, rest, htokens⟩ hkey
    rcases mainRound_cases 0 ⟨conf, tokens⟩ with ⟨name, rest, htokens⟩ | ⟨result, hread, -, hresult⟩
    · exact absurd ⟨name, rest, htokens⟩ hkey
    · simp [hread, hresult, hskip]

/-- Loading returns exactly when every undeclared section it comes to is
followed by the end of a block collection. -/
theorem returns_iff_skipEnds (conf : RappConfig) (tokens : List YamlToken) :
    Returns conf tokens ↔ ∀ start state, yamlParseInit tokens = some start →
      Reaches mainRound ⟨conf, start⟩ state → SkipEnds state := by
  rw [returns_iff, configParseMain]
  cases hinit : yamlParseInit tokens with
  | none => simp
  | some rest =>
    constructor
    · rintro hreturns start state hstart hreached
      cases hstart
      by_contra hskip
      have hstate : mainLoop state = .undefined ⟨⟩ :=
        EndlessLoop.loop_exit ((mainRound_undefined_iff state).mpr hskip)
      exact hreturns ((EndlessLoop.loop_reaches mainRound_shrinks hreached).trans hstate)
    · intro h hundefined
      obtain ⟨left, hreached, hleft⟩ : ∃ left, Reaches mainRound ⟨conf, rest⟩ left ∧
          mainRound left = .inr (mainLoop ⟨conf, rest⟩) :=
        EndlessLoop.loop_leaves_reached mainRound_shrinks _
      have hloop : mainLoop ⟨conf, rest⟩ = .undefined ⟨⟩ := hundefined
      rw [hloop] at hleft
      exact (mainRound_undefined_iff left).mp hleft (h rest left rfl hreached)

/-- `foo: @`, which the scanner refuses behind the colon. -/
theorem not_returns_scannerError :
    ¬ Returns RappConfig.new
      [.streamStart, .documentStart, .blockMappingStart, .key, .scalar (ascii "foo"), .value] := by
  rw [returns_iff]
  decide +kernel

end Rapp
