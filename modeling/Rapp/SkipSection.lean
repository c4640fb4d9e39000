import Mathlib.Algebra.Order.BigOperators.Group.List
import Mathlib.Algebra.Order.Group.Nat
import Mathlib.Data.List.Chain
import Mathlib.Data.List.Dedup
import Rapp.OptionNames
import Rapp.YamlMeaning

/-!
# Skipping a section

An undeclared section is skipped up to the first `BLOCK_END`, whatever its
value is. Its removal changes nothing exactly when the reader gets from there to
the end of the value whatever is declared; otherwise it goes on inside the value,
or behind the section that follows.
-/
namespace Rapp

open CallOutcome (Outcome run)
open ByteBlock

/-- An undeclared entry with this value can be removed from every document
whose other undeclared sections are skipped whole, whatever calls made the configuration. -/
def BlockNode.Neutral (value : BlockNode) : Prop :=
  ∀ (calls : List ConfigCall) (conf : RappConfig),
    run ConfigCall.apply calls RappConfig.new = .ok conf →
    ∀ (doc : YamlDocument) (before after : List YamlSection) (name : Bytes),
      conf.sectionGet (cString name) = none →
      (doc.withSections (before ++ after)).Skips conf →
      before ++ after ≠ [] →
      configParseMain conf (doc.withSections (before ++ ⟨name, value⟩ :: after)).tokens =
        configParseMain conf (doc.withSections (before ++ after)).tokens

/-- A name that no call declares a section of. -/
def Undeclarable (name : Bytes) : Prop := validateName name = false

theorem run_readSection_undeclared {conf : RappConfig} {name : Bytes} (value : BlockNode)
    (h : conf.sectionGet (cString name) = none) (before after : List YamlSection) :
    run readSection (before ++ ⟨name, value⟩ :: after) conf =
      run readSection (before ++ after) conf := by
  rw [CallOutcome.run_append, CallOutcome.run_append]
  cases hbefore : run readSection before conf with
  | ok next =>
    have hkept : (run readSection before conf).Holds fun next =>
        next.sectionGet (cString name) = none :=
      CallOutcome.run_holds _ (fun sect conf h => readSection_sectionGet h) before h
    rw [hbefore] at hkept
    have hskip : readSection ⟨name, value⟩ next = .ok next := by
      rw [readSection, show next.sectionGet (cString name) = none from hkept]
    rw [Outcome.bind_ok, Outcome.bind_ok, CallOutcome.run_cons, hskip, Outcome.bind_ok]
  | failed next => rfl
  | undefined why => rfl

theorem SkippedWhole.neutral {value : BlockNode} (h : SkippedWhole Undeclarable value.tokens) :
    value.Neutral := by
  intro calls conf hcalls doc before after name hname hothers hnonempty
  have hvalue : SkippedWhole (fun name => conf.sectionGet name = none) value.tokens := by
    refine h.mono fun other hother => ?_
    by_contra hget
    exact nomatch hother.symm.trans (validateName_of_sectionGet hcalls hget)
  have hwith : (doc.withSections (before ++ ⟨name, value⟩ :: after)).Skips conf := by
    intro sect hmem hget
    rcases List.mem_append.mp hmem with hbefore | hafter
    · exact hothers sect (List.mem_append_left _ hbefore) hget
    · rcases List.mem_cons.mp hafter with rfl | hafter
      · exact hvalue
      · exact hothers sect (List.mem_append_right _ hafter) hget
  rw [configParseMain_tokens hwith, configParseMain_tokens hothers]
  simp only [readDocument, YamlDocument.withSections, run_readSection_undeclared value hname]
  rfl

/-! ### Flow collections have no end of a block collection -/

mutual

theorem FlowNode.blockEnd_not_mem : ∀ node : FlowNode, .blockEnd ∉ node.tokens
  | .alias => by simp [FlowNode.tokens]
  | .scalar value => by simp [FlowNode.tokens]
  | .anchored content => by simp [FlowNode.tokens, content.blockEnd_not_mem]
  | .tagged content => by simp [FlowNode.tokens, content.blockEnd_not_mem]
  | .sequence entries => by simp [FlowNode.tokens, entries.blockEnd_not_mem]
  | .mapping entries => by simp [FlowNode.tokens, entries.blockEnd_not_mem]

theorem FlowSlot.blockEnd_not_mem : ∀ content : FlowSlot, .blockEnd ∉ content.tokens
  | .empty => by simp [FlowSlot.tokens]
  | .node node => by simp [FlowSlot.tokens, node.blockEnd_not_mem]

theorem FlowEntry.blockEnd_not_mem : ∀ entry : FlowEntry, .blockEnd ∉ entry.tokens
  | .node node => by simp [FlowEntry.tokens, node.blockEnd_not_mem]
  | .key key => by simp [FlowEntry.tokens, key.blockEnd_not_mem]
  | .pair key value => by
    simp [FlowEntry.tokens, key.blockEnd_not_mem, value.blockEnd_not_mem]

theorem FlowEntries.blockEnd_not_mem : ∀ entries : FlowEntries, .blockEnd ∉ entries.tokens
  | .nil => by simp [FlowEntries.tokens]
  | .last entry => by simp [FlowEntries.tokens, entry.blockEnd_not_mem]
  | .cons entry entries => by
    simp [FlowEntries.tokens, entry.blockEnd_not_mem, entries.blockEnd_not_mem]

end

/-! ### Shapes of token lists -/

/-- A key behind the end of a block collection is inside a block collection. -/
def EndsInside (tokens : List YamlToken) : Prop :=
  ∀ xs ys, tokens = xs ++ .blockEnd :: .key :: ys → .blockEnd ∈ ys

theorem endsInside_of_not_mem {tokens : List YamlToken} (h : .blockEnd ∉ tokens) :
    EndsInside tokens := by
  rintro xs ys rfl
  exact absurd (by simp) h

theorem endsInside_concat (front : List YamlToken) : EndsInside (front ++ [.blockEnd]) := by
  intro xs ys h
  have hlast := congrArg List.getLast? h
  rcases ys.eq_nil_or_concat with rfl | ⟨zs, t, rfl⟩
  · simp at hlast
  · have ht : t = .blockEnd := by simpa [List.getLast?_append, List.getLast?_cons] using hlast.symm
    simp [ht]

theorem EndsInside.cons {t : YamlToken} {tokens : List YamlToken} (ht : t ≠ .blockEnd)
    (h : EndsInside tokens) : EndsInside (t :: tokens) := by
  intro xs ys he
  cases xs with
  | nil => exact absurd (List.cons.inj he).1 ht
  | cons x xs => exact h xs ys (List.cons.inj he).2

theorem EndsInside.append {first second : List YamlToken} (h₁ : EndsInside first)
    (h₂ : EndsInside second) (hkey : second.head? ≠ some .key) : EndsInside (first ++ second) := by
  intro xs ys h
  rcases List.append_eq_append_iff.mp h with ⟨zs, rfl, hsecond⟩ | ⟨zs, rfl, hzs⟩
  · exact h₂ zs ys hsecond
  · match zs, hzs with
    | [], hzs => exact h₂ [] ys hzs.symm
    | [_], hzs =>
      obtain ⟨-, hsecond⟩ := List.cons.inj hzs
      exact absurd (congrArg List.head? hsecond).symm hkey
    | t :: u :: zs, hzs =>
      obtain ⟨rfl, hrest⟩ := List.cons.inj hzs
      obtain ⟨rfl, rfl⟩ := List.cons.inj hrest
      exact List.mem_append_left _ (h₁ xs zs rfl)

theorem BlockItems.head_ne_key (items : BlockItems) : items.tokens.head? ≠ some .key := by
  obtain ⟨tokens, htokens⟩ := items.begins
  simp [htokens]

mutual

theorem BlockNode.endsInside : ∀ node : BlockNode, EndsInside node.tokens
  | .flow content => by
    rw [BlockNode.tokens]
    exact endsInside_of_not_mem content.blockEnd_not_mem
  | .anchored node => by
    rw [BlockNode.tokens]
    exact node.endsInside.cons (by simp)
  | .tagged node => by
    rw [BlockNode.tokens]
    exact node.endsInside.cons (by simp)
  | .sequence items => by
    rw [BlockNode.tokens, ← List.cons_append]
    exact endsInside_concat _
  | .mapping entries => by
    rw [BlockNode.tokens, ← List.cons_append]
    exact endsInside_concat _
  | .indentless items => by
    rw [BlockNode.tokens]
    exact items.endsInside

theorem BlockItems.endsInside : ∀ items : BlockItems, EndsInside items.tokens
  | .last node => by
    rw [BlockItems.tokens]
    exact node.endsInside.cons (by simp)
  | .cons node items => by
    rw [BlockItems.tokens]
    exact (node.endsInside.append items.endsInside items.head_ne_key).cons (by simp)

end

/-- No mapping is open directly in front of the end of a block collection, also
when one comes behind the tokens. -/
def Filled (tokens : List YamlToken) : Prop :=
  List.IsChain (fun t u => YamlToken.opens t = true → u ≠ YamlToken.blockEnd)
    (tokens ++ [.blockEnd])

theorem filled_nil : Filled [] := List.isChain_singleton _

theorem Filled.append {first second : List YamlToken} (h₁ : Filled first) (h₂ : Filled second) :
    Filled (first ++ second) := by
  obtain ⟨hfirst, -, hend⟩ := List.isChain_append.mp h₁
  rw [Filled, List.append_assoc]
  refine List.isChain_append.mpr ⟨hfirst, h₂, fun t ht u hu hopens => ?_⟩
  exact absurd rfl (hend t ht .blockEnd rfl hopens)

theorem filled_singleton {t : YamlToken} (h : t.opens = false) : Filled [t] := by
  simp [Filled, h]

theorem Filled.cons {t : YamlToken} {tokens : List YamlToken} (ht : t.opens = false)
    (h : Filled tokens) : Filled (t :: tokens) := (filled_singleton ht).append h

theorem Filled.concat {t : YamlToken} {tokens : List YamlToken} (ht : t.opens = false)
    (h : Filled tokens) : Filled (tokens ++ [t]) := h.append (filled_singleton ht)

theorem Filled.tail {t : YamlToken} {tokens : List YamlToken} (h : Filled (t :: tokens)) :
    Filled tokens := h.of_cons

/-- Tokens behind the start of a mapping. -/
theorem Filled.opened {t : YamlToken} {tokens : List YamlToken} (h : Filled tokens)
    (hnonempty : tokens ≠ []) (hhead : tokens.head? ≠ some .blockEnd) : Filled (t :: tokens) := by
  cases tokens with
  | nil => exact absurd rfl hnonempty
  | cons u tokens =>
    exact List.isChain_cons_cons.mpr ⟨fun _ hu => hhead (by rw [hu]; rfl), h⟩

theorem Filled.not_closed {t : YamlToken} {tokens : List YamlToken} (ht : t.opens = true)
    (h : Filled (t :: .blockEnd :: tokens)) : False :=
  (List.isChain_cons_cons.mp h).1 ht rfl

mutual

theorem FlowNode.filled : ∀ node : FlowNode, Filled node.tokens
  | .alias => by simpa [FlowNode.tokens] using filled_singleton rfl
  | .scalar value => by simpa [FlowNode.tokens] using filled_singleton rfl
  | .anchored content => by
    rw [FlowNode.tokens]
    exact content.filled.cons rfl
  | .tagged content => by
    rw [FlowNode.tokens]
    exact content.filled.cons rfl
  | .sequence entries => by
    rw [FlowNode.tokens]
    exact (entries.filled.concat rfl).cons rfl
  | .mapping entries => by
    rw [FlowNode.tokens]
    refine (entries.filled.concat rfl).opened (by simp) fun hhead => ?_
    exact absurd (List.mem_of_mem_head? hhead) (by simp [entries.blockEnd_not_mem])

theorem FlowSlot.filled : ∀ content : FlowSlot, Filled content.tokens
  | .empty => by
    rw [FlowSlot.tokens]
    exact filled_nil
  | .node node => by
    rw [FlowSlot.tokens]
    exact node.filled

theorem FlowEntry.filled : ∀ entry : FlowEntry, Filled entry.tokens
  | .node node => by
    rw [FlowEntry.tokens]
    exact node.filled
  | .key key => by
    rw [FlowEntry.tokens]
    exact key.filled.cons rfl
  | .pair key value => by
    rw [FlowEntry.tokens]
    exact (key.filled.append (value.filled.cons rfl)).cons rfl

theorem FlowEntries.filled : ∀ entries : FlowEntries, Filled entries.tokens
  | .nil => by
    rw [FlowEntries.tokens]
    exact filled_nil
  | .last entry => by
    rw [FlowEntries.tokens]
    exact entry.filled
  | .cons entry entries => by
    rw [FlowEntries.tokens]
    exact entry.filled.append (entries.filled.cons rfl)

end

mutual

theorem BlockNode.filled : ∀ node : BlockNode, Filled node.tokens
  | .flow content => by
    rw [BlockNode.tokens]
    exact content.filled
  | .anchored node => by
    rw [BlockNode.tokens]
    exact node.filled.cons rfl
  | .tagged node => by
    rw [BlockNode.tokens]
    exact node.filled.cons rfl
  | .sequence items => by
    rw [BlockNode.tokens]
    exact (items.filled.concat rfl).cons rfl
  | .mapping entries => by
    obtain ⟨tokens, htokens⟩ := entries.begins
    rw [BlockNode.tokens]
    exact (entries.filled.concat rfl).opened (by simp) (by simp [htokens])
  | .indentless items => by
    rw [BlockNode.tokens]
    exact items.filled

theorem BlockItems.filled : ∀ items : BlockItems, Filled items.tokens
  | .last node => by
    rw [BlockItems.tokens]
    exact node.filled.cons rfl
  | .cons node items => by
    rw [BlockItems.tokens]
    exact (node.filled.append items.filled).cons rfl

theorem BlockEntry.filled : ∀ entry : BlockEntry, Filled entry.tokens
  | .key key => by
    rw [BlockEntry.tokens]
    exact key.filled.cons rfl
  | .pair key value => by
    rw [BlockEntry.tokens]
    exact (key.filled.append (value.filled.cons rfl)).cons rfl

theorem BlockEntries.filled : ∀ entries : BlockEntries, Filled entries.tokens
  | .last entry => by
    rw [BlockEntries.tokens]
    exact entry.filled
  | .cons entry entries => by
    rw [BlockEntries.tokens]
    exact entry.filled.append entries.filled

end

/-! ### Where the reader goes on -/

theorem NoScalar.append {tokens : List YamlToken} (h : NoScalar tokens) (hne : tokens ≠ [])
    (rest : List YamlToken) : NoScalar (tokens ++ rest) := by
  cases tokens with
  | nil => exact absurd rfl hne
  | cons t tokens => exact h

/-- No scalar among the tokens names an option. -/
def NamesNoOption (conf : RappConfig) (tokens : List YamlToken) : Prop :=
  ∀ sectionIndex name, .scalar name ∈ tokens → optionNamed conf sectionIndex name = none

theorem NamesNoOption.of_subset {conf : RappConfig} {tokens left : List YamlToken}
    (h : NamesNoOption conf tokens) (hsub : left ⊆ tokens) : NamesNoOption conf left :=
  fun sectionIndex name hname => h sectionIndex name (hsub hname)

/-- The reader of a section stops, whatever comes behind the end of the collection. -/
theorem yamlParseKeyValue_noOption {conf : RappConfig} {t : YamlToken} {tokens : List YamlToken}
    (h : NamesNoOption conf tokens) (hmem : .blockEnd ∈ tokens) (hblock : t ≠ .blockEnd)
    (hflow : t ≠ .flowMappingEnd) (sectionIndex : Nat) (rest : List YamlToken) :
    ∃ left, yamlParseKeyValue sectionIndex ⟨conf, t :: (tokens ++ rest)⟩ =
      .error ⟨conf, left⟩ := by
  have hkey : ∀ {tokens}, NamesNoOption conf tokens → .blockEnd ∈ tokens →
      ∃ left, yamlParseKeyValue sectionIndex ⟨conf, .key :: (tokens ++ rest)⟩ =
        .error ⟨conf, left⟩ := by
    intro tokens h hmem
    rcases noScalar_or tokens with hscalar | ⟨name, more, rfl⟩
    · exact ⟨_, yamlParseKeyValue_noScalar sectionIndex _
        (hscalar.append (List.ne_nil_of_mem hmem) rest)⟩
    · rw [List.cons_append, yamlParseKeyValue_key, h sectionIndex name List.mem_cons_self]
      exact ⟨_, rfl⟩
  have hcomma : ∃ left, yamlParseKeyValue sectionIndex ⟨conf, .flowEntry :: (tokens ++ rest)⟩ =
      .error ⟨conf, left⟩ := by
    obtain ⟨u, more, rfl⟩ := List.exists_cons_of_ne_nil (List.ne_nil_of_mem hmem)
    have hcommaKey : u = .key → EntryLeads (yamlParseKeyValue sectionIndex
        ⟨conf, .flowEntry :: .key :: (more ++ rest)⟩) (.failed conf) (more ++ rest) := by
      rintro rfl
      exact EntryLeads.comma
        (hkey (h.of_subset (List.subset_cons_self _ _)) (by simpa using hmem))
    cases u <;> first | exact ⟨_, rfl⟩ | exact hcommaKey rfl
  cases t <;> first | exact ⟨_, rfl⟩ | exact hkey h hmem | exact hcomma |
    exact absurd rfl hblock | exact absurd rfl hflow

theorem mainLoop_refused (conf : RappConfig) {t : YamlToken} (hkey : t ≠ .key)
    (hend : t ≠ .blockEnd) (tokens : List YamlToken) :
    mainLoop ⟨conf, t :: tokens⟩ = .failed conf := by
  refine EndlessLoop.loop_exit ?_
  cases t <;> first | rfl | exact absurd rfl hkey | exact absurd rfl hend

theorem mainLoop_noScalar (conf : RappConfig) {tokens : List YamlToken} (h : NoScalar tokens) :
    mainLoop ⟨conf, .key :: tokens⟩ = .failed conf := by
  refine EndlessLoop.loop_exit ?_
  cases tokens with
  | nil => rfl
  | cons t tokens => cases t <;> first | rfl | exact absurd rfl (h _)

/-- The tokens behind the name of a declared section are those of a mapping, or refused. -/
theorem yamlParseSection_cases {conf : RappConfig} {sectionName : Bytes} {sectionIndex : Nat}
    (h : conf.sectionGet (cString sectionName) = some sectionIndex) {tokens : List YamlToken}
    (hmem : .blockEnd ∈ tokens) :
    (∃ t more, tokens = .value :: t :: more ∧ t.opens = true ∧ ∀ rest,
      yamlParseSection sectionName ⟨conf, tokens ++ rest⟩ =
        sectionLoop sectionIndex ⟨conf, more ++ rest⟩) ∨
    ∀ rest, yamlParseSection sectionName ⟨conf, tokens ++ rest⟩ =
      .failed ⟨conf, tokens ++ rest⟩ := by
  obtain ⟨t, more, rfl⟩ := List.exists_cons_of_ne_nil (List.ne_nil_of_mem hmem)
  by_cases hvalue : t = .value
  · subst hvalue
    have hmore : YamlToken.blockEnd ∈ more := by simpa using hmem
    obtain ⟨u, more, rfl⟩ := List.exists_cons_of_ne_nil (List.ne_nil_of_mem hmore)
    cases hopens : u.opens with
    | true =>
      refine .inl ⟨u, more, rfl, hopens, fun rest => ?_⟩
      rw [yamlParseSection, h]
      cases u <;> first | rfl | cases hopens
    | false =>
      refine .inr fun rest => ?_
      rw [yamlParseSection, h]
      cases u <;> first | rfl | cases hopens
  · refine .inr fun rest => ?_
    rw [yamlParseSection, h]
    cases t <;> first | rfl | exact absurd rfl hvalue

/-- A declared section none of whose keys names an option: it is empty, or the reader stops. -/
theorem mainLoop_noOption {conf : RappConfig} {name : Bytes} {sectionIndex : Nat}
    {tokens : List YamlToken} (hget : conf.sectionGet (cString name) = some sectionIndex)
    (hnames : NamesNoOption conf tokens) (hfilled : Filled tokens) (hmem : .blockEnd ∈ tokens) :
    (∃ t left, tokens = .value :: t :: .flowMappingEnd :: left ∧ t.opens = true ∧
      .blockEnd ∈ left) ∨
    ∀ rest, mainLoop ⟨conf, .key :: .scalar name :: (tokens ++ rest)⟩ = .failed conf := by
  simp only [mainLoop_section]
  rcases yamlParseSection_cases hget hmem with ⟨t, inside, rfl, hopens, hread⟩ | hread
  swap
  · exact .inr fun rest => by rw [hread]
  simp only [hread]
  have hinside : .blockEnd ∈ inside := by
    have hne : t ≠ .blockEnd := by
      rintro rfl
      cases hopens
    simpa [hne.symm] using hmem
  obtain ⟨u, left, rfl⟩ := List.exists_cons_of_ne_nil (List.ne_nil_of_mem hinside)
  have hu : u ≠ .blockEnd := by
    rintro rfl
    exact hfilled.tail.not_closed hopens
  have hleft : .blockEnd ∈ left := by simpa [hu.symm] using hinside
  by_cases hflow : u = .flowMappingEnd
  · subst hflow
    exact .inl ⟨t, left, rfl, hopens, hleft⟩
  · refine .inr fun rest => ?_
    have hleftNames : NamesNoOption conf left :=
      hnames.of_subset fun v hv => by simp [hv]
    obtain ⟨kept, hkept⟩ := yamlParseKeyValue_noOption hleftNames hleft hu hflow sectionIndex rest
    rw [List.cons_append, sectionLoop_error hkept]

theorem Filled.of_suffix {tokens left : List YamlToken} (h : Filled tokens)
    (hleft : left <:+ tokens) : Filled left := by
  obtain ⟨front, rfl⟩ := hleft
  rw [Filled, List.append_assoc] at h
  exact h.right_of_append

theorem EndsInside.of_suffix {tokens left : List YamlToken} (h : EndsInside tokens)
    (hleft : left <:+ tokens) : EndsInside left := by
  obtain ⟨front, rfl⟩ := hleft
  rintro xs ys rfl
  exact h (front ++ xs) ys (by simp)

/-- A reader inside a value that names no option stops there, whatever comes behind,
or it gets to the end of the value. -/
theorem mainLoop_halts_or_resumes {conf : RappConfig} {unknown : Bytes → Prop}
    {tokens : List YamlToken} (hnames : NamesNoOption conf tokens)
    (hunknown : ∀ name, .scalar name ∈ tokens → conf.sectionGet (cString name) = none →
      unknown (cString name))
    (hfilled : Filled tokens) (hends : EndsInside tokens)
    (hkeys : ∀ more, tokens = .key :: more → .blockEnd ∈ more) :
    (∃ result, ∀ rest, mainLoop ⟨conf, tokens ++ rest⟩ = result) ∨ Resumes unknown tokens := by
  induction hlength : tokens.length using Nat.strongRecOn generalizing tokens with
  | ind n ih =>
    have hsuffix : ∀ {left : List YamlToken}, left <:+ tokens → left.length < n →
        (∀ more, left = .key :: more → .blockEnd ∈ more) →
        (∃ result, ∀ rest, mainLoop ⟨conf, left ++ rest⟩ = result) ∨ Resumes unknown left := by
      intro left hleft hshorter hkeys
      exact ih left.length hshorter (hnames.of_subset hleft.subset)
        (fun name hname => hunknown name (hleft.subset hname)) (hfilled.of_suffix hleft)
        (hends.of_suffix hleft) hkeys rfl
    cases tokens with
    | nil => exact .inr .nil
    | cons t more =>
      by_cases hend : t = .blockEnd
      · subst hend
        exact .inl ⟨_, fun rest => mainLoop_blockEnd _ _⟩
      by_cases hkey : t = .key
      swap
      · exact .inl ⟨_, fun rest => mainLoop_refused _ hkey hend _⟩
      subst hkey
      have hmore : .blockEnd ∈ more := hkeys more rfl
      rcases noScalar_or more with hscalar | ⟨name, behind, rfl⟩
      · exact .inl ⟨_, fun rest => mainLoop_noScalar _
          (hscalar.append (List.ne_nil_of_mem hmore) rest)⟩
      have hbehind : .blockEnd ∈ behind := by simpa using hmore
      cases hget : conf.sectionGet (cString name) with
      | none =>
        obtain ⟨front, left, rfl, hfront⟩ := List.eq_append_cons_of_mem hbehind
        have hleft : left <:+ .key :: .scalar name :: (front ++ .blockEnd :: left) :=
          ⟨.key :: .scalar name :: (front ++ [.blockEnd]), by simp⟩
        have hshorter : left.length < n := by
          simp only [← hlength, List.length_cons, List.length_append]
          omega
        have hkeys : ∀ more, left = .key :: more → .blockEnd ∈ more := fun more hmore =>
          hends (.key :: .scalar name :: front) more (by simp [hmore])
        rcases hsuffix hleft hshorter hkeys with ⟨result, hresult⟩ | hresumes
        · refine .inl ⟨result, fun rest => ?_⟩
          rw [← hresult rest, ← mainLoop_undeclared hget hfront (left ++ rest)]
          simp
        · exact .inr (.skip (hunknown name (by simp) hget) hfront hresumes)
      | some sectionIndex =>
        rcases mainLoop_noOption hget (hnames.of_subset fun v hv => by simp [hv])
          hfilled.tail.tail hbehind with ⟨t, left, rfl, hopens, hmem⟩ | hfailed
        · have hleft : left <:+ .key :: .scalar name :: .value :: t :: .flowMappingEnd :: left :=
            ⟨[.key, .scalar name, .value, t, .flowMappingEnd], rfl⟩
          have hshorter : left.length < n := by
            simp only [← hlength, List.length_cons]
            omega
          rcases hsuffix hleft hshorter fun more hmore => by simpa [hmore] using hmem
            with ⟨result, hresult⟩ | hresumes
          · exact .inl ⟨result, fun rest =>
              (mainLoop_emptyMapping hget hopens (left ++ rest)).trans (hresult rest)⟩
          · exact .inr (.empty hopens (List.ne_nil_of_mem hmem) hresumes)
        · exact .inl ⟨_, hfailed⟩

/-! ### A configuration that tells -/

/-- The text of a scalar. -/
def YamlToken.text : YamlToken → Bytes
  | .scalar bytes => cString bytes
  | _ => []

theorem run_apply (calls : List ConfigCall) (conf : RappConfig) :
    ∃ next, run ConfigCall.apply calls conf = .ok next := by
  induction calls generalizing conf with
  | nil => exact ⟨conf, rfl⟩
  | cons call calls ih => exact ih (call.step conf).2

theorem validateName_replicate (n : Nat) : validateName (List.replicate (n + 2) 97) = true := by
  have hhead : (List.replicate (n + 2) (97 : UInt8)).head? = some 97 := rfl
  have hlast : (List.replicate (n + 2) (97 : UInt8)).getLast? = some 97 := by
    rw [List.getLast?_replicate]
    rfl
  rw [validateName, hhead, hlast, List.all_replicate, List.length_replicate]
  simp
  decide

/-- The core section and every name in the tokens are declared, where they can be, with
options that have other names. -/
theorem exists_namesNoOption (tokens : List YamlToken) :
    ∃ calls conf, run ConfigCall.apply calls RappConfig.new = .ok conf ∧
      conf.sectionGet (cString (ascii "core")) ≠ none ∧
      (∀ name, .scalar name ∈ tokens → conf.sectionGet (cString name) = none →
        Undeclarable (cString name)) ∧
      NamesNoOption conf tokens := by
  let names := ((ascii "core" :: tokens.map YamlToken.text).filter validateName).dedup
  let opt : Bytes := List.replicate ((tokens.map fun t => t.text.length).sum + 2) 97
  let calls := names.map fun name => ConfigCall.optAdd name opt .int none none
  have hdeclares : calls.filterMap ConfigCall.declares = names.map fun name => (name, opt) := by
    rw [List.filterMap_map, ← List.filterMap_eq_map]
    refine List.filterMap_congr fun name hname => ?_
    have hvalid : validateName name = true :=
      (List.mem_filter.mp (List.mem_dedup.mp hname)).2
    simp [ConfigCall.declares, hvalid, opt, validateName_replicate]
  obtain ⟨conf, hconf⟩ := run_apply calls RappConfig.new
  have hdeclared : ∀ name, validateName name = true →
      name ∈ ascii "core" :: tokens.map YamlToken.text → conf.sectionGet name ≠ none := by
    intro name hvalid hmem hget
    have hname : name ∈ names := List.mem_dedup.mpr (List.mem_filter.mpr ⟨hmem, hvalid⟩)
    refine sectionGet_eq_none_iff.mp hget ((mem_sections_run hconf name).mpr ⟨opt, ?_⟩)
    rw [hdeclares]
    exact List.mem_map_of_mem hname
  refine ⟨calls, conf, hconf, ?_, ?_, ?_⟩
  · exact hdeclared _ (by decide) List.mem_cons_self
  · intro name hname hget
    by_contra hvalid
    refine hdeclared _ (Bool.not_eq_false _ ▸ hvalid) ?_ hget
    exact List.mem_cons_of_mem _ (List.mem_map_of_mem (f := YamlToken.text) hname)
  · intro sectionIndex name hname
    have honce : ConfigCall.DeclaresOnce calls := by
      rw [ConfigCall.DeclaresOnce, hdeclares]
      exact (List.nodup_dedup _).map fun a b hab => congrArg Prod.fst hab
    by_contra hsome
    obtain ⟨⟨ref, found⟩, hnamed⟩ := Option.ne_none_iff_exists'.mp hsome
    obtain ⟨pointer, hpointer, -⟩ := Option.bind_eq_some_iff.mp hnamed
    obtain ⟨sect, hsect, hfind⟩ := Option.bind_eq_some_iff.mp hpointer
    obtain ⟨optionIndex, hindex, -⟩ := Option.map_eq_some_iff.mp hfind
    obtain ⟨hlt, hsame, -⟩ := List.findIdx?_eq_some_iff_getElem.mp hindex
    have hknown := (namesDiffer_run honce hconf).known
      (sect.name, sect.options.map ConfigOption.name)
      (List.mem_map_of_mem (List.mem_of_getElem? hsect)) (cString name)
      (List.mem_map.mpr ⟨_, List.getElem_mem hlt, of_decide_eq_true hsame⟩)
    rw [hdeclares, List.mem_map] at hknown
    obtain ⟨other, -, hother⟩ := hknown
    have hlength : (cString name).length = opt.length :=
      congrArg (fun entry : Bytes × Bytes => entry.2.length) hother.symm
    have hle : (cString name).length ≤ (tokens.map fun t => t.text.length).sum :=
      List.le_sum_of_mem (List.mem_map_of_mem (f := fun t => t.text.length) hname)
    simp only [opt, List.length_replicate] at hlength
    omega

/-! ### Values that are not skipped whole -/

/-- A document with these sections. -/
def plainDocument (sections : List YamlSection) : YamlDocument where
  directives := []
  explicitStart := true
  sections := sections
  explicitEnd := false
  start := nofun

theorem configParseMain_plain (conf : RappConfig) (sections : List YamlSection) :
    configParseMain conf (plainDocument sections).tokens =
      mainLoop ⟨conf, sections.flatMap YamlSection.tokens ++ [.blockEnd, .streamEnd]⟩ := rfl

/-- `{}`. -/
def emptyMapping : BlockNode := .flow (.node (.mapping .nil))

section CoreSection

variable {conf : RappConfig} (h : conf.sectionGet (cString (ascii "core")) ≠ none)
include h

/-- A document with one section, which is declared. -/
theorem skips_core (value : BlockNode) : (plainDocument [⟨ascii "core", value⟩]).Skips conf := by
  intro sect hmem hnone
  obtain rfl : sect = ⟨ascii "core", value⟩ := List.mem_singleton.mp hmem
  exact absurd hnone h

theorem configParseMain_emptyCore :
    configParseMain conf (plainDocument [⟨ascii "core", emptyMapping⟩]).tokens = .ok conf := by
  rw [configParseMain_tokens (skips_core h emptyMapping)]
  obtain ⟨sectionIndex, hget⟩ := Option.ne_none_iff_exists'.mp h
  simp [readDocument, plainDocument, readSection, hget, emptyMapping, BlockNode.body,
    FlowEntries.assignments]

theorem configParseMain_noMapping :
    configParseMain conf (plainDocument [⟨ascii "core", .flow .empty⟩]).tokens =
      .failed conf := by
  rw [configParseMain_tokens (skips_core h (.flow .empty))]
  obtain ⟨sectionIndex, hget⟩ := Option.ne_none_iff_exists'.mp h
  simp [readDocument, plainDocument, readSection, hget, BlockNode.body]

end CoreSection

/-- `a` is too short for the name of a section. -/
theorem sectionGet_short {calls : List ConfigCall} {conf : RappConfig}
    (hconf : run ConfigCall.apply calls RappConfig.new = .ok conf) :
    conf.sectionGet (cString (ascii "a")) = none := by
  by_contra hget
  exact absurd (validateName_of_sectionGet hconf hget) (by decide)

/-- A value without the end of a block collection takes the one of the document. -/
theorem BlockNode.not_neutral_of_not_mem {value : BlockNode} (h : .blockEnd ∉ value.tokens) :
    ¬ value.Neutral := by
  intro hneutral
  obtain ⟨calls, conf, hconf, hcore, -⟩ := exists_namesNoOption value.tokens
  have hshort := sectionGet_short hconf
  have hsame := hneutral calls conf hconf (plainDocument []) [⟨ascii "core", emptyMapping⟩] []
    (ascii "a") hshort (skips_core hcore emptyMapping) (by simp)
  have hwith : configParseMain conf
      (plainDocument [⟨ascii "core", emptyMapping⟩, ⟨ascii "a", value⟩]).tokens =
      .failed conf := by
    have htokens : [⟨ascii "core", emptyMapping⟩, ⟨ascii "a", value⟩].flatMap YamlSection.tokens ++
        [.blockEnd, .streamEnd] = .key :: .scalar (ascii "core") :: .value ::
          .flowMappingStart :: .flowMappingEnd :: (.key :: .scalar (ascii "a") ::
          (.value :: value.tokens ++ .blockEnd :: [.streamEnd])) := by
      simp [YamlSection.tokens, emptyMapping, BlockNode.tokens, FlowSlot.tokens, FlowNode.tokens,
        FlowEntries.tokens]
    obtain ⟨sectionIndex, hget⟩ := Option.ne_none_iff_exists'.mp hcore
    rw [configParseMain_plain, htokens, mainLoop_emptyMapping hget rfl,
      mainLoop_undeclared hshort (by simp [h])]
    exact mainLoop_refused _ (by simp) (by simp) []
  cases hwith.symm.trans (hsame.trans (configParseMain_emptyCore hcore))

/-- A value whose tokens the reader does not get behind is left too early. -/
theorem BlockNode.Neutral.skippedWhole {value : BlockNode} (h : value.Neutral) :
    SkippedWhole Undeclarable value.tokens := by
  by_cases hmem : .blockEnd ∈ value.tokens
  swap
  · exact absurd h (not_neutral_of_not_mem hmem)
  obtain ⟨front, behind, htokens, hfront⟩ := List.eq_append_cons_of_mem hmem
  obtain ⟨calls, conf, hconf, hcore, hunknown, hnames⟩ := exists_namesNoOption value.tokens
  have hsuffix : behind <:+ value.tokens := ⟨front ++ [.blockEnd], by simp [htokens]⟩
  rcases mainLoop_halts_or_resumes (hnames.of_subset hsuffix.subset)
    (fun name hname => hunknown name (hsuffix.subset hname)) (value.filled.of_suffix hsuffix)
    (value.endsInside.of_suffix hsuffix)
    (fun more hmore => value.endsInside front more (by rw [htokens, hmore]))
    with ⟨result, hresult⟩ | hresumes
  swap
  · exact ⟨front, behind, htokens, hfront, hresumes⟩
  exfalso
  have hshort := sectionGet_short hconf
  -- Whatever section comes behind the value, the reader does not get there.
  have hwith : ∀ sect, configParseMain conf (plainDocument [⟨ascii "a", value⟩, sect]).tokens =
      result := by
    intro sect
    have hsections : [⟨ascii "a", value⟩, sect].flatMap YamlSection.tokens ++
        [.blockEnd, .streamEnd] = .key :: .scalar (ascii "a") ::
          (.value :: front ++ .blockEnd ::
            (behind ++ (sect.tokens ++ [.blockEnd, .streamEnd]))) := by
      simp [YamlSection.tokens, htokens]
    rw [configParseMain_plain, hsections, mainLoop_undeclared hshort (by simp [hfront])]
    exact hresult _
  have hsame : ∀ content : BlockNode, result =
      configParseMain conf (plainDocument [⟨ascii "core", content⟩]).tokens := fun content =>
    (hwith _).symm.trans (h calls conf hconf (plainDocument []) [] [⟨ascii "core", content⟩]
      (ascii "a") hshort (skips_core hcore content) (by simp))
  have hok := (hsame emptyMapping).trans (configParseMain_emptyCore hcore)
  have hfailed := (hsame (.flow .empty)).trans (configParseMain_noMapping hcore)
  cases hok.symm.trans hfailed

/-- Skipping sections with this value is neutral exactly when the reader gets to the end of the
value whatever sections are declared. -/
theorem neutral_iff_skippedWhole (value : BlockNode) :
    value.Neutral ↔ SkippedWhole Undeclarable value.tokens :=
  ⟨BlockNode.Neutral.skippedWhole, SkippedWhole.neutral⟩

/-- `other: 1` in front of a section `core` with `port: 8080`: the port is not read. -/
theorem not_neutral_scalarSection :
    let conf := (RappConfig.new.optAdd (ascii "core") (ascii "port") .int none none).2
    let other := YamlSection.mk (ascii "other") (.flow (.node (.scalar (ascii "1"))))
    let core := YamlSection.mk (ascii "core") (.mapping (.last (.pair
      (.flow (.node (.scalar (ascii "port")))) (.flow (.node (.scalar (ascii "8080")))))))
    conf.sectionGet (cString other.name) = none ∧
      configParseMain conf (plainDocument [other, core]).tokens = .ok conf ∧
      configParseMain conf (plainDocument [core]).tokens =
        .ok (conf.addValueInt (ascii "core") (ascii "port") 8080 true).2 ∧
      configParseMain conf (plainDocument [other, core]).tokens ≠
        configParseMain conf (plainDocument [core]).tokens := by
  decide +kernel

end Rapp
