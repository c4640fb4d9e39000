import Rapp.ConfigYaml

/-!
# YAML documents

Documents as trees, and the tokens the scanner of libyaml emits for them. Flow
collections hold flow collections only; a block collection is closed by
`BLOCK_END` except a sequence at the indentation of its key, which has neither
a start nor an end.
-/
namespace Rapp

open ByteBlock

mutual

inductive FlowNode where
  | alias
  | scalar (value : Bytes)
  | anchored (content : FlowSlot)
  | tagged (content : FlowSlot)
  | sequence (entries : FlowEntries)
  | mapping (entries : FlowEntries)

/-- A place for a node. -/
inductive FlowSlot where
  | empty
  | node (node : FlowNode)

inductive FlowEntry where
  | node (node : FlowNode)
  | key (key : FlowSlot)
  | pair (key value : FlowSlot)

/-- `cons` of `nil` is a trailing comma. -/
inductive FlowEntries where
  | nil
  | last (entry : FlowEntry)
  | cons (entry : FlowEntry) (entries : FlowEntries)

end

mutual

inductive BlockNode where
  | flow (content : FlowSlot)
  | anchored (node : BlockNode)
  | tagged (node : BlockNode)
  | sequence (items : BlockItems)
  | mapping (entries : BlockEntries)
  | indentless (items : BlockItems)

inductive BlockItems where
  | last (node : BlockNode)
  | cons (node : BlockNode) (items : BlockItems)

inductive BlockEntry where
  | key (key : BlockNode)
  | pair (key value : BlockNode)

inductive BlockEntries where
  | last (entry : BlockEntry)
  | cons (entry : BlockEntry) (entries : BlockEntries)

end

mutual

def FlowNode.tokens : FlowNode → List YamlToken
  | .alias => [.alias]
  | .scalar value => [.scalar value]
  | .anchored content => .anchor :: content.tokens
  | .tagged content => .tag :: content.tokens
  | .sequence entries => .flowSequenceStart :: (entries.tokens ++ [.flowSequenceEnd])
  | .mapping entries => .flowMappingStart :: (entries.tokens ++ [.flowMappingEnd])

def FlowSlot.tokens : FlowSlot → List YamlToken
  | .empty => []
  | .node node => node.tokens

def FlowEntry.tokens : FlowEntry → List YamlToken
  | .node node => node.tokens
  | .key key => .key :: key.tokens
  | .pair key value => .key :: (key.tokens ++ .value :: value.tokens)

def FlowEntries.tokens : FlowEntries → List YamlToken
  | .nil => []
  | .last entry => entry.tokens
  | .cons entry entries => entry.tokens ++ .flowEntry :: entries.tokens

end

mutual

def BlockNode.tokens : BlockNode → List YamlToken
  | .flow content => content.tokens
  | .anchored node => .anchor :: node.tokens
  | .tagged node => .tag :: node.tokens
  | .sequence items => .blockSequenceStart :: (items.tokens ++ [.blockEnd])
  | .mapping entries => .blockMappingStart :: (entries.tokens ++ [.blockEnd])
  | .indentless items => items.tokens

def BlockItems.tokens : BlockItems → List YamlToken
  | .last node => .blockEntry :: node.tokens
  | .cons node items => .blockEntry :: (node.tokens ++ items.tokens)

def BlockEntry.tokens : BlockEntry → List YamlToken
  | .key key => .key :: key.tokens
  | .pair key value => .key :: (key.tokens ++ .value :: value.tokens)

def BlockEntries.tokens : BlockEntries → List YamlToken
  | .last entry => entry.tokens
  | .cons entry entries => entry.tokens ++ entries.tokens

end

/-- An entry of the top-level mapping. -/
structure YamlSection where
  name : Bytes
  value : BlockNode

def YamlSection.tokens (sect : YamlSection) : List YamlToken :=
  .key :: .scalar sect.name :: .value :: sect.value.tokens

inductive Directive where
  | version
  | tag

def Directive.token : Directive → YamlToken
  | .version => .versionDirective
  | .tag => .tagDirective

structure YamlDocument where
  directives : List Directive
  explicitStart : Bool
  sections : List YamlSection
  explicitEnd : Bool
  start : directives ≠ [] → explicitStart = true

namespace YamlDocument

def head (doc : YamlDocument) : List YamlToken :=
  .streamStart :: (doc.directives.map Directive.token ++
    (if doc.explicitStart then [.documentStart] else []) ++ [.blockMappingStart])

def foot (doc : YamlDocument) : List YamlToken :=
  .blockEnd :: ((if doc.explicitEnd then [.documentEnd] else []) ++ [.streamEnd])

def tokens (doc : YamlDocument) : List YamlToken :=
  doc.head ++ (doc.sections.flatMap YamlSection.tokens ++ doc.foot)

def withSections (doc : YamlDocument) (sections : List YamlSection) : YamlDocument :=
  { doc with sections := sections }

end YamlDocument

end Rapp
