import RagParsers.Caption.Config

/-! `CaptionFootnoteParser`: the planning pass records what each anchor takes, the merge pass
builds the output. -/

namespace RagParsers

namespace CaptionFootnoteParser

def anchorTypes : List String := ["image", "table", "equation"]

/-- An entry `merge_info[anchor] = (caption_idx, footnote_idx)`. -/
structure MergeEntry where
  anchor : Nat
  caption : Option Nat
  footnote : Option Nat
  deriving DecidableEq, Repr

def MergeEntry.roles (e : MergeEntry) : List Nat := e.caption.toList ++ e.footnote.toList

/-- `merge_info` and `merged_indices` during the first pass. -/
structure PlanState where
  mergeInfo : List MergeEntry
  mergedIndices : List Nat
  deriving DecidableEq, Repr

/-- `nodes[j]` as a caption of a `nodeType` anchor: untaken text that `_is_caption` accepts. -/
def captionCandidate (nodes : List DocNode) (merged : List Nat) (nodeType : String) (j : Nat) :
    Option Nat :=
  match nodes[j]? with
  | some n => if n.metadata.type = "text" ∧ j ∉ merged ∧ isCaption n nodeType then some j else none
  | none => none

/-- `nodes[j]` as a footnote: untaken text that `_is_footnote` accepts. -/
def footnoteCandidate (nodes : List DocNode) (merged : List Nat) (j : Nat) : Option Nat :=
  match nodes[j]? with
  | some n => if n.metadata.type = "text" ∧ j ∉ merged ∧ isFootnote n then some j else none
  | none => none

/-- `node.text.strip() if node.text else ''` -/
def contentAt (nodes : List DocNode) (j : Nat) : String :=
  match nodes[j]? with
  | some n => strip n.text
  | none => ""

/-- 2 for each content keyword the text starts with, 3 for each pattern matching at its start. -/
def captionScore (config : TypeConfig) (content : String) : Nat :=
  2 * (config.contentKeywords.filter (startswith content)).length +
    3 * (config.patterns.filter (·.matches true content.data)).length

/-- Between two candidates the higher score wins and a tie goes to the one before the anchor. -/
def chooseCaption (nodes : List DocNode) (nodeType : String) :
    Option Nat → Option Nat → Option Nat
  | some p, some q =>
    let config := typeConfig nodeType
    if captionScore config (contentAt nodes p) ≥ captionScore config (contentAt nodes q) then
      some p else some q
  | some p, none => some p
  | none, q => q

/-- The caption of the anchor at `i`, among `nodes[i-1]` and `nodes[i+1]`. -/
def captionIdx (nodes : List DocNode) (merged : List Nat) (nodeType : String) (i : Nat) :
    Option Nat :=
  let prev := if i > 0 then captionCandidate nodes merged nodeType (i - 1) else none
  let next := if i + 1 < nodes.length then captionCandidate nodes merged nodeType (i + 1) else none
  chooseCaption nodes nodeType prev next

/-- Where a footnote is looked for: after the anchor, or after a caption that follows it. -/
def checkStart (i : Nat) : Option Nat → Nat
  | some c => if c > i then c + 1 else i + 1
  | none => i + 1

def footnoteIdx (nodes : List DocNode) (merged : List Nat) (i : Nat) (caption : Option Nat) :
    Option Nat :=
  if checkStart i caption < nodes.length then footnoteCandidate nodes merged (checkStart i caption)
  else none

def PlanState.record (st : PlanState) (i : Nat) (caption footnote : Option Nat) : PlanState where
  mergeInfo := if caption.isSome ∨ footnote.isSome then st.mergeInfo ++ [⟨i, caption, footnote⟩]
    else st.mergeInfo
  mergedIndices := st.mergedIndices ++ caption.toList ++ footnote.toList

def planStep (nodes : List DocNode) (st : PlanState) (i : Nat) : PlanState :=
  match nodes[i]? with
  | none => st
  | some node =>
    let nodeType := node.metadata.type
    if nodeType ∉ anchorTypes then st else
    let caption := captionIdx nodes st.mergedIndices nodeType i
    st.record i caption (footnoteIdx nodes st.mergedIndices i caption)

def planUpTo (nodes : List DocNode) (k : Nat) : PlanState :=
  (List.range k).foldl (planStep nodes) ⟨[], []⟩

def planningPass (nodes : List DocNode) : PlanState := planUpTo nodes nodes.length

/-- `metadata['<type>_caption'] = text` -/
def setCaption (m : Metadata) (nodeType text : String) : Metadata :=
  if nodeType = "image" then { m with imageCaption := some text }
  else if nodeType = "table" then { m with tableCaption := some text }
  else if nodeType = "equation" then { m with equationCaption := some text }
  else m

@[simp] theorem setCaption_type (m : Metadata) (nodeType text : String) :
    (setCaption m nodeType text).type = m.type := by
  unfold setCaption; split_ifs <;> rfl

/-- `metadata['footnote'] = text` and `metadata['<type>_footnote'] = text` -/
def setFootnote (m : Metadata) (nodeType text : String) : Metadata :=
  let m := { m with footnote := some text }
  if nodeType = "image" then { m with imageFootnote := some text }
  else if nodeType = "table" then { m with tableFootnote := some text }
  else if nodeType = "equation" then { m with equationFootnote := some text }
  else m

@[simp] theorem setFootnote_type (m : Metadata) (nodeType text : String) :
    (setFootnote m nodeType text).type = m.type := by
  unfold setFootnote; split_ifs <;> rfl

/-- `node.text.strip() if node.text else ''` for a caption or footnote node that may be absent. -/
def strippedText : Option DocNode → String
  | some n => strip n.text
  | none => ""

@[simp] theorem strippedText_some (n : DocNode) : strippedText (some n) = strip n.text := rfl
@[simp] theorem strippedText_none : strippedText none = "" := rfl

/-- `_merge_caption_footnote(node, caption_node, footnote_node)` -/
def mergeCaptionFootnote (saveImage : Bool) (node : DocNode)
    (captionNode footnoteNode : Option DocNode) : DocNode :=
  let captionText := strippedText captionNode
  let footnoteText := strippedText footnoteNode
  let nodeType := node.metadata.type
  let m := if captionText ≠ "" then setCaption node.metadata nodeType captionText
    else node.metadata
  let m := if footnoteText ≠ "" then setFootnote m nodeType footnoteText else m
  let head :=
    if nodeType = "image" then
      if saveImage then
        if captionText ≠ "" then ["![" ++ captionText ++ "](" ++ node.metadata.imagePath ++ ")"]
        else ["![](" ++ node.metadata.imagePath ++ ")"]
      else if captionText ≠ "" then [captionText] else []
    else
      (if captionText ≠ "" then [captionText] else []) ++ (if node.text ≠ "" then [node.text] else [])
  let textParts := head ++ if footnoteText ≠ "" then [footnoteText] else []
  { text := "\n".intercalate textParts, metadata := m }

@[simp] theorem mergeCaptionFootnote_type (saveImage : Bool) (b : DocNode) (c f : Option DocNode) :
    (mergeCaptionFootnote saveImage b c f).metadata.type = b.metadata.type := by
  unfold mergeCaptionFootnote; dsimp only; split_ifs <;> simp

/-- What the second pass emits for the node at `i` when nobody took it. -/
def emitted (saveImage : Bool) (nodes : List DocNode) (st : PlanState) (i : Nat) (node : DocNode) :
    DocNode :=
  match st.mergeInfo.find? (·.anchor = i) with
  | some e => mergeCaptionFootnote saveImage node (e.caption.bind (nodes[·]?)) (e.footnote.bind (nodes[·]?))
  | none => node

@[simp] theorem emitted_type (saveImage : Bool) (nodes : List DocNode) (st : PlanState) (i : Nat)
    (node : DocNode) : (emitted saveImage nodes st i node).metadata.type = node.metadata.type := by
  unfold emitted; split <;> simp

def mergeStep (saveImage : Bool) (nodes : List DocNode) (st : PlanState) (result : List DocNode)
    (i : Nat) : List DocNode :=
  match nodes[i]? with
  | none => result
  | some node =>
    if i ∈ st.mergedIndices then result
    else result ++ [(emitted saveImage nodes st i node).setIndex result.length]

def mergePass (saveImage : Bool) (nodes : List DocNode) (st : PlanState) : List DocNode :=
  (List.range nodes.length).foldl (mergeStep saveImage nodes st) []

/-- `_parse_nodes(nodes)` -/
def parseNodes (saveImage : Bool) (nodes : List DocNode) : List DocNode :=
  if nodes = [] then nodes else mergePass saveImage nodes (planningPass nodes)

/-- `forward(nodes)` -/
def forward (saveImage : Bool) (nodes : List DocNode) : List DocNode := parseNodes saveImage nodes

end CaptionFootnoteParser

end RagParsers
