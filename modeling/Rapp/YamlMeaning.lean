import Rapp.ConfigCalls
import Rapp.YamlDocument

/-!
# What the reader makes of a document

The reader uses a simple part of YAML: sections that are mappings, keys that
are scalars, values that are scalars or sequences of scalars. What is outside
of it ends the run with an error, after the effects of what came before.
-/
namespace Rapp

open CallOutcome (Outcome run)
open ByteBlock

/-! ### The part of a tree that is used -/

def FlowSlot.scalar? : FlowSlot → Option Bytes
  | .node (.scalar value) => some value
  | _ => none

def FlowEntry.scalar? : FlowEntry → Option Bytes
  | .node (.scalar value) => some value
  | _ => none

/-- The items of a sequence; `none` is one that is refused. -/
def FlowEntries.items : FlowEntries → List (Option Bytes)
  | .nil => []
  | .last entry => [entry.scalar?]
  | .cons entry .nil => [entry.scalar?, none]
  | .cons entry entries => entry.scalar? :: entries.items

def BlockNode.scalar? : BlockNode → Option Bytes
  | .flow content => content.scalar?
  | _ => none

def BlockItems.items : BlockItems → List (Option Bytes)
  | .last node => [node.scalar?]
  | .cons node items => node.scalar? :: items.items

inductive ValueForm where
  | scalar (value : Bytes)
  | list (items : List (Option Bytes))
  | other

def FlowSlot.form : FlowSlot → ValueForm
  | .node (.scalar value) => .scalar value
  | .node (.sequence entries) => .list entries.items
  | _ => .other

def BlockNode.form : BlockNode → ValueForm
  | .flow content => content.form
  | .sequence items => .list items.items
  | _ => .other

/-- An option name with its value; `none` is an entry that is refused. -/
abbrev Assignment := Option (Bytes × ValueForm)

def FlowEntry.assignment : FlowEntry → Assignment
  | .pair name value => name.scalar?.map fun text => (text, value.form)
  | _ => none

def FlowEntries.assignments : FlowEntries → List Assignment
  | .nil => []
  | .last entry => [entry.assignment]
  | .cons entry .nil => [entry.assignment, none]
  | .cons entry entries => entry.assignment :: entries.assignments

def BlockEntry.assignment : BlockEntry → Assignment
  | .pair name value => name.scalar?.map fun text => (text, value.form)
  | _ => none

def BlockEntries.assignments : BlockEntries → List Assignment
  | .last entry => [entry.assignment]
  | .cons entry entries => entry.assignment :: entries.assignments

/-- The assignments of a section; `none` when its value is no mapping. -/
def BlockNode.body : BlockNode → Option (List Assignment)
  | .flow (.node (.mapping entries)) => some entries.assignments
  | .mapping entries => some entries.assignments
  | _ => none

/-! ### Its effect -/

abbrev OptionResult := Outcome NeverReturns ConfigOption

def addItem : Option Bytes → ConfigOption → OptionResult
  | none, opt => .failed opt
  | some value, opt =>
    let result := configSetValueFromYamlScalar opt value
    if result.1 = 0 then .ok result.2 else .failed result.2

def ValueForm.set (opt : ConfigOption) : ValueForm → OptionResult
  | .scalar value => addItem (some value) (wipe opt)
  | .list items =>
    if (wipe opt).multivalued = 0 then .failed (wipe opt) else run addItem items (wipe opt)
  | .other => .failed opt

def assign (sectionIndex : Nat) : Assignment → RappConfig → ConfigResult
  | none, conf => .failed conf
  | some (name, form), conf =>
    match optionNamed conf sectionIndex name with
    | none => .failed conf
    | some (ref, opt) => (form.set opt).map (conf.store ref)

/-- An undeclared section has no effect. -/
def readSection (sect : YamlSection) (conf : RappConfig) : ConfigResult :=
  match conf.sectionGet (cString sect.name) with
  | none => .ok conf
  | some sectionIndex =>
    match sect.value.body with
    | none => .failed conf
    | some assignments => run (assign sectionIndex) assignments conf

def readDocument (doc : YamlDocument) (conf : RappConfig) : ConfigResult :=
  if doc.explicitStart = true ∧ doc.directives = [] then run readSection doc.sections conf
  else .failed conf

/-! ### Sequences -/

/-- A call returns what the meaning says, and on success the tokens from `rest` on. -/
structure Leads {σ τ : Type} (outcome : Outcome NeverReturns τ) (state : τ → σ)
    (tokens : τ → List YamlToken) (meaning : Outcome NeverReturns σ) (rest : List YamlToken) :
    Prop where
  state_eq : outcome.map state = meaning
  tokens_eq : ∀ t, outcome = .ok t → tokens t = rest

theorem leads_ok {σ τ : Type} {state : τ → σ} {tokens : τ → List YamlToken} (t : τ) :
    Leads (.ok t) state tokens (.ok (state t)) (tokens t) :=
  ⟨rfl, fun _ h => congrArg tokens (Outcome.ok.inj h).symm⟩

theorem leads_failed {σ τ : Type} {state : τ → σ} {tokens : τ → List YamlToken} (t : τ)
    (rest : List YamlToken) : Leads (.failed t) state tokens (.failed (state t)) rest :=
  ⟨rfl, fun _ h => nomatch h⟩

abbrev ListLeads (result : ListResult) (meaning : OptionResult) (rest : List YamlToken) : Prop :=
  Leads result Prod.fst Prod.snd meaning rest

/-- Tokens that do not begin with a scalar. -/
def NoScalar (tokens : List YamlToken) : Prop := ∀ value, tokens.head? ≠ some (.scalar value)

theorem noScalar_or (tokens : List YamlToken) :
    NoScalar tokens ∨ ∃ value more, tokens = .scalar value :: more := by
  cases tokens with
  | nil => exact .inl nofun
  | cons t tokens =>
    cases t <;> first | exact .inr ⟨_, _, rfl⟩ | exact .inl nofun

theorem yamlListItems_scalar (opt : ConfigOption) (value : Bytes) (tokens : List YamlToken) :
    yamlListItems opt (.scalar value :: tokens) =
      if (configSetValueFromYamlScalar opt value).1 = 0 then
        yamlListItems (configSetValueFromYamlScalar opt value).2 tokens
      else .failed ((configSetValueFromYamlScalar opt value).2, tokens) := by
  rw [yamlListItems]

/-- An item that is a scalar, and what follows it. -/
theorem yamlListItems_item {opt : ConfigOption} {value : Bytes} {tokens rest : List YamlToken}
    {items : List (Option Bytes)}
    (h : ∀ opt, ListLeads (yamlListItems opt tokens) (run addItem items opt) rest) :
    ListLeads (yamlListItems opt (.scalar value :: tokens)) (run addItem (some value :: items) opt)
      rest := by
  rw [yamlListItems_scalar, CallOutcome.run_cons, addItem]
  split
  · exact h _
  · exact leads_failed _ rest

theorem yamlListItems_flowEntry_refused (opt : ConfigOption) {tokens : List YamlToken}
    (h : NoScalar tokens) :
    yamlListItems opt (.flowEntry :: tokens) = .failed (opt, .flowEntry :: tokens) := by
  cases tokens with
  | nil => rfl
  | cons t tokens => cases t <;> first | rfl | exact absurd rfl (h _)

theorem yamlListItems_blockEntry_refused (opt : ConfigOption) {tokens : List YamlToken}
    (h : NoScalar tokens) :
    yamlListItems opt (.blockEntry :: tokens) = .failed (opt, .blockEntry :: tokens) := by
  cases tokens with
  | nil => rfl
  | cons t tokens => cases t <;> first | rfl | exact absurd rfl (h _)

/-- Tokens that begin a node other than a scalar, or a key. -/
def YamlToken.refused : YamlToken → Bool
  | .alias | .anchor | .tag | .flowSequenceStart | .flowMappingStart | .key => true
  | _ => false

theorem FlowNode.begins (node : FlowNode) : (∃ value, node = .scalar value) ∨
    ∃ t tokens, node.tokens = t :: tokens ∧ t.refused = true ∧ t ≠ .key := by
  cases node with
  | scalar value => exact .inl ⟨value, rfl⟩
  | _ => exact .inr ⟨_, _, by rw [FlowNode.tokens], rfl, by simp⟩

theorem FlowEntry.begins (entry : FlowEntry) : (∃ value, entry = .node (.scalar value)) ∨
    (entry.scalar? = none ∧ ∃ t tokens, entry.tokens = t :: tokens ∧ t.refused = true) := by
  cases entry with
  | node node =>
    rcases node.begins with ⟨value, rfl⟩ | ⟨t, tokens, htokens, hrefused, -⟩
    · exact .inl ⟨value, rfl⟩
    · refine .inr ⟨?_, t, tokens, by rw [FlowEntry.tokens, htokens], hrefused⟩
      cases node with
      | scalar value =>
        rw [FlowNode.tokens] at htokens
        obtain ⟨rfl, -⟩ := List.cons.inj htokens
        cases hrefused
      | _ => rfl
  | key key => exact .inr ⟨rfl, _, _, by rw [FlowEntry.tokens], rfl⟩
  | pair key value => exact .inr ⟨rfl, _, _, by rw [FlowEntry.tokens], rfl⟩

theorem yamlListItems_refused (opt : ConfigOption) {t : YamlToken} (tokens : List YamlToken)
    (h : t.refused = true) : yamlListItems opt (t :: tokens) = .failed (opt, t :: tokens) := by
  cases t <;> first | rfl | cases h

theorem noScalar_of_refused {t : YamlToken} (tokens : List YamlToken) (h : t.refused = true) :
    NoScalar (t :: tokens) := by
  intro value hhead
  cases hhead
  cases h

/-- The first entry is read or refused. -/
theorem FlowEntry.listLeads (entry : FlowEntry) {opt : ConfigOption} {more rest : List YamlToken}
    {items : List (Option Bytes)}
    (h : ∀ opt, ListLeads (yamlListItems opt more) (run addItem items opt) rest) :
    ListLeads (yamlListItems opt (entry.tokens ++ more)) (run addItem (entry.scalar? :: items) opt)
      rest := by
  rcases entry.begins with ⟨value, rfl⟩ | ⟨hscalar, t, tokens, htokens, hrefused⟩
  · exact yamlListItems_item h
  · rw [hscalar, htokens, List.cons_append, yamlListItems_refused _ _ hrefused]
    exact leads_failed _ rest

theorem FlowEntries.first {entries : FlowEntries} (h : entries ≠ .nil) :
    ∃ (entry : FlowEntry) (tokens : List YamlToken) (items : List (Option Bytes)),
      entries.tokens = entry.tokens ++ tokens ∧ entries.items = entry.scalar? :: items := by
  match entries, h with
  | .last entry, _ => exact ⟨entry, [], [], by rw [FlowEntries.tokens, List.append_nil], rfl⟩
  | .cons entry .nil, _ => exact ⟨entry, _, [none], by rw [FlowEntries.tokens], rfl⟩
  | .cons entry (.last _), _ => exact ⟨entry, _, _, by rw [FlowEntries.tokens], rfl⟩
  | .cons entry (.cons _ _), _ => exact ⟨entry, _, _, by rw [FlowEntries.tokens], rfl⟩

/-- A flow sequence is read item by item up to its end. -/
theorem FlowEntries.listLeads (entries : FlowEntries) (opt : ConfigOption)
    (rest : List YamlToken) :
    ListLeads (yamlListItems opt (entries.tokens ++ .flowSequenceEnd :: rest))
      (run addItem entries.items opt) rest := by
  fun_induction FlowEntries.items entries generalizing opt with
  | case1 => exact leads_ok (opt, rest)
  | case2 entry => exact entry.listLeads fun opt => leads_ok (opt, rest)
  | case3 entry =>
    rw [FlowEntries.tokens, List.append_assoc]
    exact entry.listLeads fun opt => leads_failed _ rest
  | case4 entry entries hnil ih =>
    rw [FlowEntries.tokens, List.append_assoc]
    refine entry.listLeads fun opt => ?_
    obtain ⟨next, tokens, items, htokens, hitems⟩ := FlowEntries.first hnil
    rcases next.begins with ⟨value, rfl⟩ | ⟨hscalar, t, more, hmore, hrefused⟩
    · have hread := ih opt
      rw [htokens] at hread ⊢
      exact hread
    · have hnone : NoScalar (entries.tokens ++ .flowSequenceEnd :: rest) := by
        rw [htokens, hmore]
        exact noScalar_of_refused _ hrefused
      rw [List.cons_append, yamlListItems_flowEntry_refused opt hnone, hitems, hscalar]
      exact leads_failed _ rest

theorem FlowSlot.noScalar {content : FlowSlot} (h : content.scalar? = none)
    {rest : List YamlToken} (hr : NoScalar rest) : NoScalar (content.tokens ++ rest) := by
  cases content with
  | empty => exact hr
  | node node =>
    rcases node.begins with ⟨value, rfl⟩ | ⟨t, tokens, htokens, hrefused, -⟩
    · cases h
    · rw [FlowSlot.tokens, htokens]
      exact noScalar_of_refused _ hrefused

theorem BlockItems.begins (items : BlockItems) :
    ∃ tokens, items.tokens = .blockEntry :: tokens := by
  cases items <;> exact ⟨_, by rw [BlockItems.tokens]⟩

theorem BlockNode.noScalar {node : BlockNode} (h : node.scalar? = none) {rest : List YamlToken}
    (hr : NoScalar rest) : NoScalar (node.tokens ++ rest) := by
  cases node with
  | flow content => exact FlowSlot.noScalar h hr
  | indentless items =>
    obtain ⟨tokens, htokens⟩ := items.begins
    rw [BlockNode.tokens, htokens]
    exact fun value hv => nomatch hv
  | _ =>
    rw [BlockNode.tokens]
    exact fun value hv => nomatch hv

/-- An item of a block sequence, and the items behind it. -/
theorem BlockNode.listLeads (node : BlockNode) {opt : ConfigOption} {more rest : List YamlToken}
    {items : List (Option Bytes)} (hmore : NoScalar more)
    (h : ∀ opt, ListLeads (yamlListItems opt more) (run addItem items opt) rest) :
    ListLeads (yamlListItems opt (.blockEntry :: (node.tokens ++ more)))
      (run addItem (node.scalar? :: items) opt) rest := by
  cases hscalar : node.scalar? with
  | some value =>
    have htokens : node.tokens = [.scalar value] := by
      match node, hscalar with
      | .flow (.node (.scalar _)), rfl => rfl
    rw [htokens]
    exact yamlListItems_item h
  | none =>
    rw [yamlListItems_blockEntry_refused opt (BlockNode.noScalar hscalar hmore)]
    exact leads_failed _ rest

/-- A block sequence is read item by item up to its end. -/
theorem BlockItems.listLeads (items : BlockItems) (opt : ConfigOption) (rest : List YamlToken) :
    ListLeads (yamlListItems opt (items.tokens ++ .blockEnd :: rest)) (run addItem items.items opt)
      rest := by
  fun_induction BlockItems.items items generalizing opt with
  | case1 node =>
    rw [BlockItems.tokens, List.cons_append]
    exact node.listLeads (fun value hv => nomatch hv) fun opt => leads_ok (opt, rest)
  | case2 node items ih =>
    obtain ⟨tokens, htokens⟩ := items.begins
    have hmore : NoScalar (items.tokens ++ .blockEnd :: rest) := by
      rw [htokens]
      exact fun value hv => nomatch hv
    rw [BlockItems.tokens, List.cons_append, List.append_assoc]
    exact node.listLeads hmore ih

/-! ### Entries of a section -/

/-- The call reads an entry as the meaning says. -/
def EntryLeads (result : KeyValueResult) (meaning : ConfigResult) (rest : List YamlToken) : Prop :=
  match meaning with
  | .ok conf => result = .next ⟨conf, rest⟩
  | .failed conf => ∃ tokens, result = .error ⟨conf, tokens⟩
  | .undefined _ => False

/-- What comes behind an entry of a mapping. -/
def EntryEnds (tokens : List YamlToken) : Prop :=
  ∃ t rest, tokens = t :: rest ∧
    (t = .key ∨ t = .blockEnd ∨ t = .flowEntry ∨ t = .flowMappingEnd)

theorem EntryEnds.noScalar {tokens : List YamlToken} (h : EntryEnds tokens) : NoScalar tokens := by
  obtain ⟨t, rest, rfl, ht⟩ := h
  intro value hv
  cases hv
  simp at ht

theorem yamlListItems_returns (opt : ConfigOption) (tokens : List YamlToken) (why : NeverReturns) :
    yamlListItems opt tokens ≠ .undefined why := by
  fun_induction yamlListItems opt tokens with
  | case1 opt value tokens result hzero ih => exact ih
  | case3 opt value tokens result hzero ih => exact ih
  | case5 opt value tokens result hzero ih => exact ih
  | _ => simp

theorem yamlParseValue_scalar {conf : RappConfig} {ref : OptionRef} {opt : ConfigOption}
    (value : Bytes) (rest : List YamlToken) :
    EntryLeads (yamlParseValue conf ref opt (.value :: .scalar value :: rest))
      (((ValueForm.scalar value).set opt).map (conf.store ref)) rest := by
  rw [yamlParseValue, ValueForm.set, addItem]
  split
  · rfl
  · exact ⟨rest, rfl⟩

theorem yamlParseValue_list {conf : RappConfig} {ref : OptionRef} {opt : ConfigOption}
    {start : YamlToken} (hstart : start = .blockSequenceStart ∨ start = .flowSequenceStart)
    {tokens rest : List YamlToken} {items : List (Option Bytes)}
    (h : ListLeads (yamlListItems (wipe opt) tokens) (run addItem items (wipe opt)) rest) :
    EntryLeads (yamlParseValue conf ref opt (.value :: start :: tokens))
      (((ValueForm.list items).set opt).map (conf.store ref)) rest := by
  have hblock : yamlParseValue conf ref opt (.value :: start :: tokens) =
      yamlParseValue conf ref opt (.value :: .blockSequenceStart :: tokens) := by
    rcases hstart with rfl | rfl <;> rfl
  rw [hblock, yamlParseValue, ValueForm.set, configSetValueFromYamlList]
  by_cases hmulti : (wipe opt).multivalued = 0
  · rw [if_pos hmulti, if_pos hmulti]
    exact ⟨tokens, rfl⟩
  · rw [if_neg hmulti, if_neg hmulti, ← h.state_eq]
    cases hitems : yamlListItems (wipe opt) tokens with
    | ok result =>
      have hrest := h.tokens_eq result hitems
      rw [← hrest]
      rfl
    | failed result => exact ⟨_, rfl⟩
    | undefined why => exact absurd hitems (yamlListItems_returns _ _ why)

/-- Tokens that do not begin with a value the reader takes. -/
def NoValue (tokens : List YamlToken) : Prop :=
  NoScalar tokens ∧ tokens.head? ≠ some .blockSequenceStart ∧
    tokens.head? ≠ some .flowSequenceStart

theorem EntryEnds.noValue {tokens : List YamlToken} (h : EntryEnds tokens) : NoValue tokens := by
  refine ⟨h.noScalar, ?_, ?_⟩ <;> obtain ⟨t, rest, rfl, ht⟩ := h <;> rintro ⟨⟩ <;> simp at ht

theorem yamlParseValue_noValue {conf : RappConfig} {ref : OptionRef} {opt : ConfigOption}
    {tokens : List YamlToken} (h : NoValue tokens) :
    yamlParseValue conf ref opt (.value :: tokens) = .error ⟨conf, .value :: tokens⟩ := by
  obtain ⟨hscalar, hblock, hflow⟩ := h
  cases tokens with
  | nil => rfl
  | cons t tokens =>
    cases t <;> first | rfl | exact absurd rfl (hscalar _) | exact absurd rfl hblock |
      exact absurd rfl hflow

theorem FlowSlot.noValue {content : FlowSlot} (h : content.form = .other)
    {rest : List YamlToken} (hr : NoValue rest) : NoValue (content.tokens ++ rest) := by
  match content, h with
  | .empty, _ => exact hr
  | .node .alias, _ => exact ⟨nofun, nofun, nofun⟩
  | .node (.anchored _), _ => exact ⟨nofun, nofun, nofun⟩
  | .node (.tagged _), _ => exact ⟨nofun, nofun, nofun⟩
  | .node (.mapping _), _ => exact ⟨nofun, nofun, nofun⟩

theorem BlockNode.noValue {node : BlockNode} (h : node.form = .other) {rest : List YamlToken}
    (hr : NoValue rest) : NoValue (node.tokens ++ rest) := by
  match node, h with
  | .flow content, h => exact FlowSlot.noValue h hr
  | .anchored _, _ => exact ⟨nofun, nofun, nofun⟩
  | .tagged _, _ => exact ⟨nofun, nofun, nofun⟩
  | .mapping _, _ => exact ⟨nofun, nofun, nofun⟩
  | .indentless items, _ =>
    obtain ⟨tokens, htokens⟩ := items.begins
    rw [BlockNode.tokens, htokens]
    exact ⟨nofun, nofun, nofun⟩

theorem map_set_other {conf : RappConfig} {ref : OptionRef} {opt : ConfigOption}
    (h : conf.load ref = some opt) :
    (ValueForm.other.set opt).map (conf.store ref) = .failed conf := by
  rw [ValueForm.set, Outcome.map_failed, store_load h]

theorem FlowSlot.valueLeads {conf : RappConfig} {ref : OptionRef} {opt : ConfigOption}
    (h : conf.load ref = some opt) (content : FlowSlot) {rest : List YamlToken}
    (hr : EntryEnds rest) :
    EntryLeads (yamlParseValue conf ref opt (.value :: (content.tokens ++ rest)))
      ((content.form.set opt).map (conf.store ref)) rest := by
  cases hform : content.form with
  | scalar value =>
    match content, hform with
    | .node (.scalar _), rfl => exact yamlParseValue_scalar value rest
  | list items =>
    match content, hform with
    | .node (.sequence entries), rfl =>
      rw [FlowSlot.tokens, FlowNode.tokens, List.cons_append, List.append_assoc]
      exact yamlParseValue_list (.inr rfl) (entries.listLeads (wipe opt) rest)
  | other =>
    rw [map_set_other h, yamlParseValue_noValue (FlowSlot.noValue hform hr.noValue)]
    exact ⟨_, rfl⟩

theorem BlockNode.valueLeads {conf : RappConfig} {ref : OptionRef} {opt : ConfigOption}
    (h : conf.load ref = some opt) (node : BlockNode) {rest : List YamlToken}
    (hr : EntryEnds rest) :
    EntryLeads (yamlParseValue conf ref opt (.value :: (node.tokens ++ rest)))
      ((node.form.set opt).map (conf.store ref)) rest := by
  cases node with
  | flow content => exact content.valueLeads h hr
  | sequence items =>
    rw [BlockNode.tokens, List.cons_append, List.append_assoc]
    exact yamlParseValue_list (.inl rfl) (items.listLeads (wipe opt) rest)
  | _ =>
    rw [yamlParseValue_noValue (BlockNode.noValue rfl hr.noValue)]
    exact map_set_other h ▸ ⟨_, rfl⟩

theorem yamlParseKeyValue_noScalar (sectionIndex : Nat) (conf : RappConfig)
    {tokens : List YamlToken} (h : NoScalar tokens) :
    yamlParseKeyValue sectionIndex ⟨conf, .key :: tokens⟩ = .error ⟨conf, .key :: tokens⟩ := by
  cases tokens with
  | nil => rfl
  | cons t tokens => cases t <;> first | rfl | exact absurd rfl (h _)

theorem yamlParseValue_ends {conf : RappConfig} {ref : OptionRef} {opt : ConfigOption}
    {tokens : List YamlToken} (h : EntryEnds tokens) :
    yamlParseValue conf ref opt tokens = .error ⟨conf, tokens⟩ := by
  obtain ⟨t, rest, rfl, rfl | rfl | rfl | rfl⟩ := h <;> rfl

/-- The tokens of a key: the scalar it is, or no scalar. -/
def KeyTokens (name : Option Bytes) (tokens : List YamlToken) : Prop :=
  match name with
  | some value => tokens = [.scalar value]
  | none => ∀ rest, NoScalar rest → NoScalar (tokens ++ rest)

theorem FlowSlot.keyTokens (key : FlowSlot) : KeyTokens key.scalar? key.tokens := by
  cases hscalar : key.scalar? with
  | none => exact fun rest hr => FlowSlot.noScalar hscalar hr
  | some value =>
    match key, hscalar with
    | .node (.scalar _), rfl => rfl

theorem BlockNode.keyTokens (key : BlockNode) : KeyTokens key.scalar? key.tokens := by
  cases hscalar : key.scalar? with
  | none => exact fun rest hr => BlockNode.noScalar hscalar hr
  | some value =>
    match key, hscalar with
    | .flow (.node (.scalar _)), rfl => rfl

/-- A key without a value is refused. -/
theorem keyLeads (sectionIndex : Nat) (conf : RappConfig) {name : Option Bytes}
    {tokens rest : List YamlToken} (h : KeyTokens name tokens) (hr : EntryEnds rest) :
    EntryLeads (yamlParseKeyValue sectionIndex ⟨conf, .key :: (tokens ++ rest)⟩)
      (assign sectionIndex none conf) rest := by
  cases name with
  | none =>
    rw [yamlParseKeyValue_noScalar sectionIndex conf (h rest hr.noScalar)]
    exact ⟨_, rfl⟩
  | some value =>
    cases h
    rw [List.singleton_append, yamlParseKeyValue_key]
    split
    · exact ⟨_, rfl⟩
    · rw [yamlParseValue_ends hr]
      exact ⟨_, rfl⟩

/-- A key with a value is an assignment, or refused. -/
theorem pairLeads (sectionIndex : Nat) (conf : RappConfig) {name : Option Bytes}
    {keyTokens valueTokens rest : List YamlToken} {form : ValueForm} (h : KeyTokens name keyTokens)
    (hv : ∀ ref opt, conf.load ref = some opt →
      EntryLeads (yamlParseValue conf ref opt (.value :: (valueTokens ++ rest)))
        ((form.set opt).map (conf.store ref)) rest) :
    EntryLeads (yamlParseKeyValue sectionIndex
        ⟨conf, .key :: (keyTokens ++ .value :: (valueTokens ++ rest))⟩)
      (assign sectionIndex (name.map fun text => (text, form)) conf) rest := by
  cases name with
  | none =>
    have hvalue : NoScalar (.value :: (valueTokens ++ rest)) := fun value hv => nomatch hv
    rw [yamlParseKeyValue_noScalar sectionIndex conf (h _ hvalue)]
    exact ⟨_, rfl⟩
  | some value =>
    cases h
    rw [List.singleton_append, yamlParseKeyValue_key, Option.map_some, assign]
    cases hnamed : optionNamed conf sectionIndex value with
    | none => exact ⟨_, rfl⟩
    | some found =>
      obtain ⟨ref, opt⟩ := found
      obtain ⟨ref', -, hload⟩ := Option.bind_eq_some_iff.mp hnamed
      obtain ⟨opt', hopt, heq⟩ := Option.map_eq_some_iff.mp hload
      cases heq
      exact hv ref opt hopt

theorem BlockEntry.leads (sectionIndex : Nat) (conf : RappConfig) (entry : BlockEntry)
    (rest : List YamlToken) (hr : EntryEnds rest) :
    EntryLeads (yamlParseKeyValue sectionIndex ⟨conf, entry.tokens ++ rest⟩)
      (assign sectionIndex entry.assignment conf) rest := by
  cases entry with
  | key key => exact keyLeads sectionIndex conf key.keyTokens hr
  | pair key value =>
    rw [BlockEntry.tokens, List.cons_append, List.append_assoc, List.cons_append]
    exact pairLeads sectionIndex conf key.keyTokens fun ref opt h => value.valueLeads h hr

/-- A comma in front of a key changes nothing. -/
theorem EntryLeads.comma {sectionIndex : Nat} {conf : RappConfig} {tokens rest : List YamlToken}
    {meaning : ConfigResult}
    (h : EntryLeads (yamlParseKeyValue sectionIndex ⟨conf, .key :: tokens⟩) meaning rest) :
    EntryLeads (yamlParseKeyValue sectionIndex ⟨conf, .flowEntry :: .key :: tokens⟩) meaning
      rest := by
  rcases noScalar_or tokens with hscalar | ⟨value, more, rfl⟩
  · have hcomma : yamlParseKeyValue sectionIndex ⟨conf, .flowEntry :: .key :: tokens⟩ =
        .error ⟨conf, .flowEntry :: .key :: tokens⟩ := by
      cases tokens with
      | nil => rfl
      | cons t tokens => cases t <;> first | rfl | exact absurd rfl (hscalar _)
    rw [yamlParseKeyValue_noScalar sectionIndex conf hscalar] at h
    rw [hcomma]
    cases meaning with
    | ok next => cases h
    | failed next =>
      obtain ⟨tokens, htokens⟩ := h
      cases htokens
      exact ⟨_, rfl⟩
    | undefined why => exact h
  · exact h

theorem yamlParseKeyValue_refused (sectionIndex : Nat) (conf : RappConfig) {t : YamlToken}
    {front : List YamlToken} (tokens : List YamlToken) (hfront : front = [] ∨ front = [.flowEntry])
    (h : (t.refused = true ∧ t ≠ .key) ∨ ∃ value, t = .scalar value) :
    ∃ left, yamlParseKeyValue sectionIndex ⟨conf, front ++ t :: tokens⟩ = .error ⟨conf, left⟩ := by
  rcases hfront with rfl | rfl <;> rcases h with ⟨hrefused, hkey⟩ | ⟨value, rfl⟩
  · cases t <;> first | exact ⟨_, rfl⟩ | exact absurd rfl hkey | cases hrefused
  · exact ⟨_, rfl⟩
  · cases t <;> first | exact ⟨_, rfl⟩ | exact absurd rfl hkey
  · exact ⟨_, rfl⟩

/-- An entry of a flow mapping, the first one or one behind a comma. -/
theorem FlowEntry.leads (sectionIndex : Nat) (conf : RappConfig) (entry : FlowEntry)
    {front : List YamlToken} (rest : List YamlToken) (hfront : front = [] ∨ front = [.flowEntry])
    (hr : EntryEnds rest) :
    EntryLeads (yamlParseKeyValue sectionIndex ⟨conf, front ++ (entry.tokens ++ rest)⟩)
      (assign sectionIndex entry.assignment conf) rest := by
  have hcomma : ∀ {tokens : List YamlToken} {meaning : ConfigResult},
      EntryLeads (yamlParseKeyValue sectionIndex ⟨conf, .key :: tokens⟩) meaning rest →
      EntryLeads (yamlParseKeyValue sectionIndex ⟨conf, front ++ .key :: tokens⟩) meaning rest := by
    intro tokens meaning h
    rcases hfront with rfl | rfl
    · exact h
    · exact h.comma
  cases entry with
  | node node =>
    rw [FlowEntry.tokens]
    rcases node.begins with ⟨value, rfl⟩ | ⟨t, tokens, htokens, hrefused, hkey⟩
    · exact yamlParseKeyValue_refused sectionIndex conf rest hfront (.inr ⟨value, rfl⟩)
    · rw [htokens]
      exact yamlParseKeyValue_refused sectionIndex conf _ hfront (.inl ⟨hrefused, hkey⟩)
  | key key =>
    rw [FlowEntry.tokens, List.cons_append]
    exact hcomma (keyLeads sectionIndex conf key.keyTokens hr)
  | pair key value =>
    rw [FlowEntry.tokens, List.cons_append, List.append_assoc, List.cons_append]
    exact hcomma (pairLeads sectionIndex conf key.keyTokens fun ref opt h => value.valueLeads h hr)

/-! ### Sections -/

abbrev SectionLeads (result : YamlResult) (meaning : ConfigResult) (rest : List YamlToken) : Prop :=
  Leads result YamlState.conf YamlState.tokens meaning rest

/-- One round of the loop over the options, and the rounds behind it. -/
theorem sectionLoop_entry {sectionIndex : Nat} {conf : RappConfig}
    {tokens more rest : List YamlToken} {entry : Assignment} {entries : List Assignment}
    (hentry : EntryLeads (yamlParseKeyValue sectionIndex ⟨conf, tokens⟩)
      (assign sectionIndex entry conf) more)
    (h : ∀ conf, SectionLeads (sectionLoop sectionIndex ⟨conf, more⟩)
      (run (assign sectionIndex) entries conf) rest) :
    SectionLeads (sectionLoop sectionIndex ⟨conf, tokens⟩)
      (run (assign sectionIndex) (entry :: entries) conf) rest := by
  rw [CallOutcome.run_cons]
  cases hmeaning : assign sectionIndex entry conf with
  | ok next =>
    rw [hmeaning] at hentry
    rw [sectionLoop_next hentry]
    exact h next
  | failed next =>
    rw [hmeaning] at hentry
    obtain ⟨left, hleft⟩ := hentry
    rw [sectionLoop_error hleft]
    exact leads_failed _ rest
  | undefined why =>
    rw [hmeaning] at hentry
    exact hentry.elim

theorem sectionLoop_blockEnd (sectionIndex : Nat) (rest : List YamlToken) (conf : RappConfig) :
    SectionLeads (sectionLoop sectionIndex ⟨conf, .blockEnd :: rest⟩) (.ok conf) rest := by
  have hlast : sectionLoop sectionIndex ⟨conf, .blockEnd :: rest⟩ = .ok ⟨conf, rest⟩ :=
    sectionLoop_last rfl
  rw [hlast]
  exact leads_ok (⟨conf, rest⟩ : YamlState)

theorem sectionLoop_flowEnd (sectionIndex : Nat) (rest : List YamlToken) (conf : RappConfig) :
    SectionLeads (sectionLoop sectionIndex ⟨conf, .flowMappingEnd :: rest⟩) (.ok conf) rest := by
  have hlast : sectionLoop sectionIndex ⟨conf, .flowMappingEnd :: rest⟩ = .ok ⟨conf, rest⟩ :=
    sectionLoop_last rfl
  rw [hlast]
  exact leads_ok (⟨conf, rest⟩ : YamlState)

theorem BlockEntry.begins (entry : BlockEntry) : ∃ tokens, entry.tokens = .key :: tokens := by
  cases entry <;> exact ⟨_, by rw [BlockEntry.tokens]⟩

theorem BlockEntries.begins (entries : BlockEntries) :
    ∃ tokens, entries.tokens = .key :: tokens := by
  cases entries with
  | last entry =>
    rw [BlockEntries.tokens]
    exact entry.begins
  | cons entry entries =>
    obtain ⟨tokens, htokens⟩ := entry.begins
    exact ⟨_, by rw [BlockEntries.tokens, htokens, List.cons_append]⟩

theorem BlockEntries.leads (sectionIndex : Nat) (entries : BlockEntries) (conf : RappConfig)
    (rest : List YamlToken) :
    SectionLeads (sectionLoop sectionIndex ⟨conf, entries.tokens ++ .blockEnd :: rest⟩)
      (run (assign sectionIndex) entries.assignments conf) rest := by
  fun_induction BlockEntries.assignments entries generalizing conf with
  | case1 entry =>
    rw [BlockEntries.tokens]
    have hentry := entry.leads sectionIndex conf (.blockEnd :: rest) ⟨_, _, rfl, by simp⟩
    exact sectionLoop_entry hentry (sectionLoop_blockEnd sectionIndex rest)
  | case2 entry entries ih =>
    rw [BlockEntries.tokens, List.append_assoc]
    obtain ⟨tokens, htokens⟩ := entries.begins
    have hends : EntryEnds (entries.tokens ++ .blockEnd :: rest) :=
      ⟨.key, _, by rw [htokens, List.cons_append], by simp⟩
    exact sectionLoop_entry (entry.leads sectionIndex conf _ hends) ih

theorem FlowEntries.leads (sectionIndex : Nat) (entries : FlowEntries) (conf : RappConfig)
    {front : List YamlToken} (rest : List YamlToken)
    (hfront : front = [] ∨ (front = [.flowEntry] ∧ entries ≠ .nil)) :
    SectionLeads
      (sectionLoop sectionIndex ⟨conf, front ++ (entries.tokens ++ .flowMappingEnd :: rest)⟩)
      (run (assign sectionIndex) entries.assignments conf) rest := by
  fun_induction FlowEntries.assignments entries generalizing conf front with
  | case1 =>
    obtain rfl : front = [] := by simpa using hfront
    exact sectionLoop_flowEnd sectionIndex rest conf
  | case2 entry =>
    rw [FlowEntries.tokens]
    have hentry := entry.leads sectionIndex conf (.flowMappingEnd :: rest)
      (hfront.imp_right And.left) ⟨_, _, rfl, by simp⟩
    exact sectionLoop_entry hentry (sectionLoop_flowEnd sectionIndex rest)
  | case3 entry =>
    rw [FlowEntries.tokens, List.append_assoc]
    have hentry := entry.leads sectionIndex conf (.flowEntry :: .flowMappingEnd :: rest)
      (hfront.imp_right And.left) ⟨_, _, rfl, by simp⟩
    have hcomma : ∀ conf, EntryLeads (yamlParseKeyValue sectionIndex
        ⟨conf, .flowEntry :: .flowMappingEnd :: rest⟩) (assign sectionIndex none conf)
        (.flowMappingEnd :: rest) :=
      fun conf => ⟨_, rfl⟩
    exact sectionLoop_entry hentry fun conf =>
      sectionLoop_entry (hcomma conf) (sectionLoop_flowEnd sectionIndex rest)
  | case4 entry entries hnil ih =>
    rw [FlowEntries.tokens, List.append_assoc]
    have hentry := entry.leads sectionIndex conf
      (.flowEntry :: (entries.tokens ++ .flowMappingEnd :: rest)) (hfront.imp_right And.left)
      ⟨_, _, rfl, by simp⟩
    exact sectionLoop_entry hentry fun conf => ih conf (.inr ⟨rfl, hnil⟩)

/-- What comes behind a section. -/
def SectionEnds (tokens : List YamlToken) : Prop :=
  ∃ t rest, tokens = t :: rest ∧ (t = .key ∨ t = .blockEnd)

theorem SectionEnds.entryEnds {tokens : List YamlToken} (h : SectionEnds tokens) :
    EntryEnds tokens := by
  obtain ⟨t, rest, rfl, ht⟩ := h
  exact ⟨t, rest, rfl, ht.imp_right .inl⟩

/-- Tokens that do not begin with a mapping. -/
def NoMapping (tokens : List YamlToken) : Prop :=
  tokens.head? ≠ some .blockMappingStart ∧ tokens.head? ≠ some .flowMappingStart

theorem BlockNode.noMapping {node : BlockNode} (h : node.body = none) {rest : List YamlToken}
    (hr : EntryEnds rest) : NoMapping (node.tokens ++ rest) := by
  match node, h with
  | .flow .empty, _ =>
    obtain ⟨t, rest, rfl, rfl | rfl | rfl | rfl⟩ := hr <;> exact ⟨nofun, nofun⟩
  | .flow (.node .alias), _ => exact ⟨nofun, nofun⟩
  | .flow (.node (.scalar _)), _ => exact ⟨nofun, nofun⟩
  | .flow (.node (.anchored _)), _ => exact ⟨nofun, nofun⟩
  | .flow (.node (.tagged _)), _ => exact ⟨nofun, nofun⟩
  | .flow (.node (.sequence _)), _ => exact ⟨nofun, nofun⟩
  | .anchored _, _ => exact ⟨nofun, nofun⟩
  | .tagged _, _ => exact ⟨nofun, nofun⟩
  | .sequence _, _ => exact ⟨nofun, nofun⟩
  | .indentless items, _ =>
    obtain ⟨tokens, htokens⟩ := items.begins
    rw [BlockNode.tokens, htokens]
    exact ⟨nofun, nofun⟩

/-- The scan of a declared section is over when its value is no mapping. -/
theorem yamlParseSection_noMapping {sectionName : Bytes} {conf : RappConfig} {sectionIndex : Nat}
    (h : conf.sectionGet (cString sectionName) = some sectionIndex) {tokens : List YamlToken}
    (ht : NoMapping tokens) :
    yamlParseSection sectionName ⟨conf, .value :: tokens⟩ = .failed ⟨conf, .value :: tokens⟩ := by
  rw [yamlParseSection, h]
  cases tokens with
  | nil => rfl
  | cons t tokens =>
    cases t <;> first | rfl | exact absurd rfl ht.1 | exact absurd rfl ht.2

theorem yamlParseSection_declared {sect : YamlSection} {conf : RappConfig} {sectionIndex : Nat}
    (h : conf.sectionGet (cString sect.name) = some sectionIndex) {rest : List YamlToken}
    (hr : SectionEnds rest) :
    SectionLeads (yamlParseSection sect.name ⟨conf, .value :: (sect.value.tokens ++ rest)⟩)
      (readSection sect conf) rest := by
  rw [readSection, h]
  cases hbody : sect.value.body with
  | none =>
    rw [yamlParseSection_noMapping h (BlockNode.noMapping hbody hr.entryEnds)]
    exact leads_failed _ rest
  | some assignments =>
    match hvalue : sect.value, hbody with
    | .flow (.node (.mapping entries)), rfl =>
      rw [BlockNode.tokens, FlowSlot.tokens, FlowNode.tokens, List.cons_append, List.append_assoc,
        yamlParseSection, h]
      exact entries.leads sectionIndex conf rest (.inl rfl)
    | .mapping entries, rfl =>
      rw [BlockNode.tokens, List.cons_append, List.append_assoc, yamlParseSection, h]
      exact entries.leads sectionIndex conf rest

/-! ### Sections that are skipped -/

/-- A start of a mapping. -/
def YamlToken.opens : YamlToken → Bool
  | .blockMappingStart | .flowMappingStart => true
  | _ => false

/-- Tokens between the end of a block collection and the end of a skipped value that the
reader passes over as well: entries of an unknown name up to the next end, and
entries with an empty mapping in front of such an entry. -/
inductive Resumes (unknown : Bytes → Prop) : List YamlToken → Prop where
  | nil : Resumes unknown []
  | skip {name : Bytes} {front tokens : List YamlToken} (hname : unknown (cString name))
      (hfront : .blockEnd ∉ front) (h : Resumes unknown tokens) :
      Resumes unknown (.key :: .scalar name :: (front ++ .blockEnd :: tokens))
  | empty {name : Bytes} {t : YamlToken} {tokens : List YamlToken} (ht : t.opens = true)
      (hne : tokens ≠ []) (h : Resumes unknown tokens) :
      Resumes unknown (.key :: .scalar name :: .value :: t :: .flowMappingEnd :: tokens)

/-- The reader that skips up to the first end of a block collection gets to the end of
the value. In a block collection without another one inside that is its own. -/
def SkippedWhole (unknown : Bytes → Prop) (tokens : List YamlToken) : Prop :=
  ∃ front behind, tokens = front ++ .blockEnd :: behind ∧ .blockEnd ∉ front ∧
    Resumes unknown behind

theorem Resumes.mono {unknown unknown' : Bytes → Prop} (hsub : ∀ name, unknown name → unknown' name)
    {tokens : List YamlToken} (h : Resumes unknown tokens) : Resumes unknown' tokens := by
  induction h with
  | nil => exact .nil
  | skip hname hfront _ ih => exact .skip (hsub _ hname) hfront ih
  | empty ht hne _ ih => exact .empty ht hne ih

theorem SkippedWhole.mono {unknown unknown' : Bytes → Prop}
    (hsub : ∀ name, unknown name → unknown' name) {tokens : List YamlToken}
    (h : SkippedWhole unknown tokens) : SkippedWhole unknown' tokens := by
  obtain ⟨front, behind, htokens, hfront, hbehind⟩ := h
  exact ⟨front, behind, htokens, hfront, hbehind.mono hsub⟩

theorem yamlSkipSection_append {front : List YamlToken} (h : .blockEnd ∉ front)
    (tokens : List YamlToken) : yamlSkipSection (front ++ tokens) = yamlSkipSection tokens := by
  induction front with
  | nil => rfl
  | cons t front ih =>
    have ht : t ≠ .blockEnd := fun he => h (by simp [he])
    have hfront : .blockEnd ∉ front := fun hmem => h (by simp [hmem])
    cases t <;> first | exact ih hfront | exact absurd rfl ht

/-- An undeclared section is skipped up to the first end of a block collection. -/
theorem mainLoop_undeclared {conf : RappConfig} {name : Bytes}
    (h : conf.sectionGet (cString name) = none) {front : List YamlToken}
    (hfront : .blockEnd ∉ front) (behind : List YamlToken) :
    mainLoop ⟨conf, .key :: .scalar name :: (front ++ .blockEnd :: behind)⟩ =
      mainLoop ⟨conf, behind⟩ := by
  have hskip : yamlSkipSection (front ++ .blockEnd :: behind) = some behind :=
    yamlSkipSection_append hfront _
  rw [mainLoop_section, yamlParseSection, h]
  simp only [hskip]

/-- A declared section with an empty mapping has no effect. -/
theorem mainLoop_emptyMapping {conf : RappConfig} {name : Bytes} {sectionIndex : Nat}
    (h : conf.sectionGet (cString name) = some sectionIndex) {t : YamlToken} (ht : t.opens = true)
    (rest : List YamlToken) :
    mainLoop ⟨conf, .key :: .scalar name :: .value :: t :: .flowMappingEnd :: rest⟩ =
      mainLoop ⟨conf, rest⟩ := by
  have hsection : yamlParseSection name ⟨conf, .value :: t :: .flowMappingEnd :: rest⟩ =
      .ok ⟨conf, rest⟩ := by
    rw [yamlParseSection, h]
    cases t <;> first | exact sectionLoop_last rfl | cases ht
  rw [mainLoop_section, hsection]

/-- What resumes ends at the end of the value, from a key or in the middle of a skip. -/
theorem Resumes.mainLoop_eq {conf : RappConfig} {tokens : List YamlToken}
    (h : Resumes (fun name => conf.sectionGet name = none) tokens) :
    (∀ rest, mainLoop ⟨conf, tokens ++ rest⟩ = mainLoop ⟨conf, rest⟩) ∧
    (tokens ≠ [] → ∃ front behind, tokens = front ++ .blockEnd :: behind ∧ .blockEnd ∉ front ∧
      ∀ rest, mainLoop ⟨conf, behind ++ rest⟩ = mainLoop ⟨conf, rest⟩) := by
  induction h with
  | nil => exact ⟨fun rest => rfl, fun hne => absurd rfl hne⟩
  | @skip name front tokens hname hfront _ ih =>
    refine ⟨fun rest => ?_, fun _ => ⟨.key :: .scalar name :: front, tokens, rfl, ?_, ih.1⟩⟩
    · rw [List.cons_append, List.cons_append, List.append_assoc, List.cons_append,
        mainLoop_undeclared hname hfront, ih.1]
    · simp [hfront]
  | @empty name t tokens ht hne _ ih =>
    obtain ⟨front, behind, htokens, hfront, hbehind⟩ := ih.2 hne
    have hstart : t ≠ .blockEnd := by
      rintro rfl
      cases ht
    have hskipped : .blockEnd ∉ .value :: t :: .flowMappingEnd :: front := by
      simp [hstart.symm, hfront]
    refine ⟨fun rest => ?_, fun _ => ⟨.key :: .scalar name :: .value :: t :: .flowMappingEnd ::
      front, behind, by simp [htokens], by simp [hstart.symm, hfront], hbehind⟩⟩
    cases hget : conf.sectionGet (cString name) with
    | some sectionIndex => exact (mainLoop_emptyMapping hget ht _).trans (ih.1 rest)
    | none =>
      have hskip := mainLoop_undeclared hget hskipped (behind ++ rest)
      rw [← hbehind rest, ← hskip, htokens]
      simp

/-- An undeclared section that is skipped whole. -/
theorem mainLoop_skipped {conf : RappConfig} {sect : YamlSection}
    (hget : conf.sectionGet (cString sect.name) = none)
    (h : SkippedWhole (fun name => conf.sectionGet name = none) sect.value.tokens)
    (rest : List YamlToken) :
    mainLoop ⟨conf, sect.tokens ++ rest⟩ = mainLoop ⟨conf, rest⟩ := by
  obtain ⟨front, behind, htokens, hfront, hbehind⟩ := h
  have hsect : sect.tokens ++ rest =
      .key :: .scalar sect.name :: (.value :: front ++ .blockEnd :: (behind ++ rest)) := by
    simp [YamlSection.tokens, htokens]
  rw [hsect, mainLoop_undeclared hget (by simp [hfront]), hbehind.mainLoop_eq.1]

/-! ### Documents -/

theorem map_name_store (conf : RappConfig) (ref : OptionRef) (opt : ConfigOption) :
    (conf.store ref opt).sections.map ConfigSection.name =
      conf.sections.map ConfigSection.name := by
  refine List.ext_getElem? fun i => ?_
  rw [RappConfig.store, List.getElem?_map, List.getElem?_map, List.getElem?_modify]
  by_cases hi : ref.sectionIndex = i <;> cases conf.sections[i]? <;> simp [hi]

theorem sectionGet_eq (conf : RappConfig) (name : Bytes) :
    conf.sectionGet name = (conf.sections.map ConfigSection.name).findIdx? fun n => n = name := by
  rw [RappConfig.sectionGet, List.findIdx?_map]
  rfl

theorem sectionGet_store (conf : RappConfig) (ref : OptionRef) (opt : ConfigOption)
    (name : Bytes) : (conf.store ref opt).sectionGet name = conf.sectionGet name := by
  rw [sectionGet_eq, sectionGet_eq, map_name_store]

theorem assign_sectionGet {sectionIndex : Nat} {entry : Assignment} {conf : RappConfig}
    {name : Bytes} {found : Option Nat} (h : conf.sectionGet name = found) :
    (assign sectionIndex entry conf).Holds fun next => next.sectionGet name = found := by
  cases entry with
  | none => exact h
  | some entry =>
    rw [assign]
    split
    · exact h
    · have hany : ∀ x : OptionResult, x.Holds fun _ => True := by
        intro x
        cases x <;> trivial
      exact (hany _).map fun opt _ => (sectionGet_store conf _ opt name).trans h

theorem readSection_sectionGet {sect : YamlSection} {conf : RappConfig} {name : Bytes}
    {found : Option Nat} (h : conf.sectionGet name = found) :
    (readSection sect conf).Holds fun next => next.sectionGet name = found := by
  rw [readSection]
  split
  · exact h
  · split
    · exact h
    · exact CallOutcome.run_holds _ (fun entry conf h => assign_sectionGet h) _ h

theorem sections_end (sections : List YamlSection) (rest : List YamlToken) :
    SectionEnds (sections.flatMap YamlSection.tokens ++ .blockEnd :: rest) := by
  cases sections with
  | nil => exact ⟨_, _, rfl, .inr rfl⟩
  | cons sect sections => exact ⟨_, _, rfl, .inl rfl⟩

/-- Sections that are declared, or skipped whole, are read one after the other. -/
theorem mainLoop_sections {sections : List YamlSection} {conf : RappConfig}
    (h : ∀ sect ∈ sections, conf.sectionGet (cString sect.name) = none →
      SkippedWhole (fun name => conf.sectionGet name = none) sect.value.tokens)
    (rest : List YamlToken) :
    mainLoop ⟨conf, sections.flatMap YamlSection.tokens ++ .blockEnd :: rest⟩ =
      run readSection sections conf := by
  induction sections generalizing conf with
  | nil => exact mainLoop_blockEnd conf rest
  | cons sect sections ih =>
    have hothers : ∀ other ∈ sections, conf.sectionGet (cString other.name) = none →
        SkippedWhole (fun name => conf.sectionGet name = none) other.value.tokens :=
      fun other hmem => h other (List.mem_cons_of_mem _ hmem)
    rw [List.flatMap_cons, List.append_assoc, CallOutcome.run_cons]
    cases hget : conf.sectionGet (cString sect.name) with
    | none =>
      rw [mainLoop_skipped hget (h sect List.mem_cons_self hget), readSection, hget]
      exact ih hothers
    | some sectionIndex =>
      have hleads := yamlParseSection_declared hget (sections_end sections rest)
      have htokens : sect.tokens ++ (sections.flatMap YamlSection.tokens ++ .blockEnd :: rest) =
          .key :: .scalar sect.name :: .value :: (sect.value.tokens ++
            (sections.flatMap YamlSection.tokens ++ .blockEnd :: rest)) := by
        simp [YamlSection.tokens]
      rw [htokens, mainLoop_section, ← hleads.state_eq]
      cases hsection : yamlParseSection sect.name _ with
      | ok state =>
        have hrest := hleads.tokens_eq state hsection
        have hsame : ∀ name, state.conf.sectionGet name = conf.sectionGet name := by
          intro name
          have hholds : (readSection sect conf).Holds fun next =>
              next.sectionGet name = conf.sectionGet name := readSection_sectionGet rfl
          rw [← hleads.state_eq, hsection] at hholds
          exact hholds
        obtain ⟨next, tokens⟩ := state
        cases hrest
        refine ih fun other hmem hnone => ?_
        refine (hothers other hmem ((hsame _).symm.trans hnone)).mono fun name hname => ?_
        exact (hsame name).trans hname
      | failed state => rfl
      | undefined why => rfl

theorem yamlParseInit_head (doc : YamlDocument) (tokens : List YamlToken) :
    yamlParseInit (doc.head ++ tokens) =
      if doc.explicitStart = true ∧ doc.directives = [] then some tokens else none := by
  cases hdirectives : doc.directives with
  | nil =>
    cases hstart : doc.explicitStart <;>
      simp [YamlDocument.head, hdirectives, hstart, yamlParseInit]
  | cons directive directives =>
    cases directive <;> simp [YamlDocument.head, hdirectives, Directive.token, yamlParseInit]

/-- Every section is declared or skipped whole. -/
def YamlDocument.Skips (conf : RappConfig) (doc : YamlDocument) : Prop :=
  ∀ sect ∈ doc.sections, conf.sectionGet (cString sect.name) = none →
    SkippedWhole (fun name => conf.sectionGet name = none) sect.value.tokens

theorem YamlDocument.Skips.congr {conf next : RappConfig} {doc : YamlDocument}
    (h : doc.Skips conf) (hsame : ∀ name, next.sectionGet name = conf.sectionGet name) :
    doc.Skips next := by
  intro sect hsect hnone
  refine (h sect hsect ((hsame _).symm.trans hnone)).mono fun name hname => ?_
  exact (hsame name).trans hname

/-- What the reader makes of a document whose undeclared sections are skipped whole. -/
theorem configParseMain_tokens {doc : YamlDocument} {conf : RappConfig} (h : doc.Skips conf) :
    configParseMain conf doc.tokens = readDocument doc conf := by
  rw [configParseMain, YamlDocument.tokens, yamlParseInit_head, readDocument]
  by_cases hstart : doc.explicitStart = true ∧ doc.directives = []
  · rw [if_pos hstart, if_pos hstart]
    exact mainLoop_sections h _
  · rw [if_neg hstart, if_neg hstart]

end Rapp
