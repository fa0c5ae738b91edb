import RagParsers.Layout.Patterns
import RagParsers.DocNode
import RagParsers.Sorting
import Mathlib.Data.List.Lex
import Mathlib.Data.Char

/-! `LayoutNodeParser`: `forward` sorts, groups and numbers; `_parse_nodes` looks at each node alone. -/

namespace RagParsers

namespace LayoutNodeParser

def isDotChar (c : Char) : Bool := c = '.' || c = '．'

/-- `re.sub(rf"{DOT}$", '', s)`: a dot at the end, or before a final newline, is removed. -/
def subTrailingDot (s : List Char) : List Char :=
  match s.reverse with
  | c :: rest =>
    if isDotChar c then rest.reverse
    else match rest with
      | d :: rest' => if c = '\n' && isDotChar d then rest'.reverse ++ ['\n'] else s
      | [] => s
  | [] => s

/-- `len([seg for seg in re.sub(rf"{DOT}$", '', group.strip()).split(DOT) if seg.strip()])` -/
def letterLevel (group : List Char) : Nat :=
  (((subTrailingDot (stripChars group)).splitOnP isDotChar).filter
    fun s => !(stripChars s).isEmpty).length

/-- `text.strip().split('\n')[0].strip()` -/
def firstLineOf (text : String) : List Char := stripChars (firstLine (stripChars text.data))

/-- The body of `_calculate_level_by_regex` once `first_line` is taken. -/
def levelOfLine (firstLine : List Char) : Nat :=
  match numberPatternsWithLevel.find? (·.1.matches false firstLine) with
  | some (_, level) => level
  | none =>
    match letterPatterns.findSome? fun p => Re.matchGroup false p.pre p.group p.post firstLine with
    | some indexStr => letterLevel indexStr
    | none =>
      match normalPatternsWithLevel.find? (·.1.matches false firstLine) with
      | some (_, level) => level
      | none => 0

/-- `_calculate_level_by_regex(text)` -/
def calculateLevelByRegex (text : String) : Nat :=
  if text = "" then 0 else levelOfLine (firstLineOf text)

theorem calculateLevelByRegex_eq (text : String) :
    calculateLevelByRegex text = levelOfLine (firstLineOf text) := by
  unfold calculateLevelByRegex
  split_ifs with h
  · subst h
    decide
  · rfl

/-- `_match(node, patterns)`: some pattern matches at the start of the stripped text. -/
def matchAny (node : DocNode) (patterns : List Re) : Bool :=
  patterns.any (·.matches false (strip node.text).data)

/-- The body of the loop of `_parse_nodes`, for one node. -/
def parseNode (node : DocNode) : DocNode :=
  if node.level > 1 then node
  else if matchAny node (timePatterns ++ tocPatterns) then node.setTextLevel 0
  else if node.level = 1 ∧ node.metadata.type = "text" then
    let regexLevel := calculateLevelByRegex node.text
    if regexLevel > 0 then node.setTextLevel regexLevel else node
  else node

/-- `_parse_nodes(nodes)` -/
def parseNodes (nodes : List DocNode) : List DocNode := nodes.map parseNode

/-- `x.metadata.get("file_name", "")`, compared as Python compares strings. -/
def fileKey (b : DocNode) : List Char := b.metadata.fileName.data

/-- `forward(document)` -/
def forward (document : List DocNode) : List DocNode :=
  let nodes := pySorted fileKey document
  resetNodeIndex ((groupBy fileKey nodes).flatMap fun group =>
    parseNodes (pySorted DocNode.indexKey group))

section ParseNode

variable (b : DocNode) (k : Nat)

theorem parseNode_eq_or : parseNode b = b ∨ ∃ l : Int, parseNode b = b.setTextLevel l := by
  unfold parseNode
  dsimp only
  split_ifs
  all_goals first | exact .inl rfl | exact .inr ⟨_, rfl⟩

@[simp] theorem parseNode_text : (parseNode b).text = b.text := by
  rcases parseNode_eq_or b with h | ⟨l, h⟩ <;> rw [h]; rfl

@[simp] theorem parseNode_type : (parseNode b).metadata.type = b.metadata.type := by
  rcases parseNode_eq_or b with h | ⟨l, h⟩ <;> rw [h]; rfl

@[simp] theorem parseNode_styleName :
    (parseNode b).metadata.styleName = b.metadata.styleName := by
  rcases parseNode_eq_or b with h | ⟨l, h⟩ <;> rw [h]; rfl

@[simp] theorem parseNode_fileName : (parseNode b).metadata.fileName = b.metadata.fileName := by
  rcases parseNode_eq_or b with h | ⟨l, h⟩ <;> rw [h]; rfl

@[simp] theorem parseNode_indexKey : (parseNode b).indexKey = b.indexKey := by
  rcases parseNode_eq_or b with h | ⟨l, h⟩ <;> rw [h]; rfl

/-- On a node that is not text, `_parse_nodes` only sets a level of at most 1 to 0. -/
theorem level_parseNode_of_ne_text (h : b.metadata.type ≠ "text") :
    (parseNode b).level =
      if ¬ 1 < b.level ∧ matchAny b (timePatterns ++ tocPatterns) then 0 else b.level := by
  unfold parseNode
  split_ifs with h1 h2 h3 <;> simp_all

theorem parseNode_setIndex : parseNode (b.setIndex k) = (parseNode b).setIndex k := by
  unfold parseNode matchAny
  simp only [DocNode.setIndex_level, DocNode.setIndex_text, DocNode.setIndex_type]
  split_ifs <;> rfl

/-- A second look at a node changes nothing: a level it set is final or read again the same. -/
theorem parseNode_parseNode : parseNode (parseNode b) = parseNode b := by
  have hm : ∀ l : Int, matchAny (b.setTextLevel l) (timePatterns ++ tocPatterns) =
      matchAny b (timePatterns ++ tocPatterns) := fun _ => rfl
  by_cases h1 : b.level > 1
  · simp [parseNode, h1]
  by_cases h2 : matchAny b (timePatterns ++ tocPatterns) = true
  · simp [parseNode, h1, h2, hm]
  by_cases h3 : b.level = 1 ∧ b.metadata.type = "text"
  · by_cases h4 : calculateLevelByRegex b.text > 0
    · simp [parseNode, h1, h2, h3, h4, hm]
    · simp [parseNode, h1, h2, h3, h4]
  · simp [parseNode, h1, h2, h3]

end ParseNode

end LayoutNodeParser

end RagParsers
