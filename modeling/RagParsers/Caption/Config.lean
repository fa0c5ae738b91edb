import RagParsers.Regex
import RagParsers.DocNode

/-! `TYPE_CONFIG` and the two single-node tests `_is_caption` and `_is_footnote`. -/

namespace RagParsers

/-- `<label>\s*\d+[\.\-\d]*`, the numbering pattern of every caption label. -/
def captionPattern (label : String) : Re :=
  .seqs [.str label, .star .space, .plus .digit, .star (.set false [.lit '.', .lit '-', .digit])]

/-- An entry of `TYPE_CONFIG`. -/
structure TypeConfig where
  patterns : List Re
  contentKeywords : List String
  styleExclude : List String
  styleKeywords : List String

def imageConfig : TypeConfig where
  patterns := [captionPattern "图", captionPattern "Figure", captionPattern "Fig."]
  contentKeywords := ["图", "figure", "fig"]
  styleExclude := ["表", "table", "tab", "公式", "equation", "eq"]
  styleKeywords := ["图", "figure", "caption", "图题", "图标题", "figure caption", "题注"]

def tableConfig : TypeConfig where
  patterns := [captionPattern "表", captionPattern "Table", captionPattern "Tab."]
  contentKeywords := ["表", "table", "tab"]
  styleExclude := ["图", "figure", "fig", "公式", "equation", "eq"]
  styleKeywords := ["表", "table", "caption", "表题", "表标题", "table caption", "题注"]

def equationConfig : TypeConfig where
  patterns := [captionPattern "公式", captionPattern "Equation", captionPattern "Eq."]
  contentKeywords := ["公式", "equation", "eq"]
  styleExclude := ["表", "table", "tab", "图", "figure", "fig"]
  styleKeywords := ["公式", "equation", "caption", "公式题", "equation caption", "题注"]

/-- `TYPE_CONFIG.get(t, TYPE_CONFIG['table'])` -/
def typeConfig (t : String) : TypeConfig :=
  if t = "image" then imageConfig else if t = "equation" then equationConfig else tableConfig

/-- `_is_caption(node, target_type)` -/
def isCaption (node : DocNode) (targetType : String) : Bool :=
  if node.metadata.type ≠ "text" then false else
  let content := strip node.text
  if content = "" then false else
  let config := typeConfig targetType
  let styleName := lower node.metadata.styleName
  if config.styleExclude.any (strIn · styleName) then false
  else if config.styleKeywords.any (strIn · styleName) then true
  else config.patterns.any (·.search true content.data)

/-- `<label>\s*[：:]\s*` -/
def notePattern (label : String) : Re :=
  .seqs [.str label, .star .space, .set false [.lit '：', .lit ':'], .star .space]

/-- `footnote_config['start_patterns']` -/
def footnoteStartPatterns : List Re := [notePattern "注", notePattern "Note", notePattern "说明"]

/-- `footnote_config['marker_patterns']` -/
def footnoteMarkerPatterns : List Re :=
  [.set false ("*★☆※".data.map .lit), .set false ("①②③④⑤⑥⑦⑧⑨⑩".data.map .lit),
   .seqs [.lit '[', .plus .digit, .lit ']'], .seqs [.lit '(', .plus .digit, .lit ')']]

/-- `footnote_config['style_keywords']` -/
def footnoteStyleKeywords : List String := ["footnote", "脚注", "尾注", "note", "说明"]

/-- `_is_footnote(node)` -/
def isFootnote (node : DocNode) : Bool :=
  if node.metadata.type ≠ "text" then false else
  let content := strip node.text
  if content = "" then false else
  if footnoteStyleKeywords.any (strIn · (lower node.metadata.styleName)) then true
  else if footnoteStartPatterns.any (·.search true content.data) then true
  else footnoteMarkerPatterns.any (·.search false content.data)

theorem isCaption_spec {node : DocNode} {t : String} (h : isCaption node t = true) :
    node.metadata.type = "text" ∧ strip node.text ≠ "" := by
  unfold isCaption at h
  by_cases h1 : node.metadata.type = "text"
  · by_cases h2 : strip node.text = ""
    · simp [h1, h2] at h
    · exact ⟨h1, h2⟩
  · simp [h1] at h

/-- An excluded style keyword makes `_is_caption` refuse the node, whatever its text. -/
theorem isCaption_eq_false_of_excluded {b : DocNode} {t w : String}
    (hw : w ∈ (typeConfig t).styleExclude) (hs : strIn w (lower b.metadata.styleName) = true) :
    isCaption b t = false := by
  have hex : (typeConfig t).styleExclude.any (strIn · (lower b.metadata.styleName)) = true :=
    List.any_eq_true.mpr ⟨w, hw, hs⟩
  simp [isCaption, hex]

theorem isFootnote_spec {node : DocNode} (h : isFootnote node = true) :
    node.metadata.type = "text" ∧ strip node.text ≠ "" := by
  unfold isFootnote at h
  by_cases h1 : node.metadata.type = "text"
  · by_cases h2 : strip node.text = ""
    · simp [h1, h2] at h
    · exact ⟨h1, h2⟩
  · simp [h1] at h

/-- `_is_caption` as one condition: its guards hold and a keyword or a pattern is found. -/
theorem isCaption_eq_true_iff_search (b : DocNode) (t : String) :
    isCaption b t = true ↔ b.metadata.type = "text" ∧ strip b.text ≠ "" ∧
      (typeConfig t).styleExclude.any (strIn · (lower b.metadata.styleName)) = false ∧
      ((typeConfig t).styleKeywords.any (strIn · (lower b.metadata.styleName)) = true ∨
        (typeConfig t).patterns.any (·.search true (strip b.text).data) = true) := by
  unfold isCaption
  split_ifs <;> simp_all

theorem isFootnote_eq_true_iff_search (b : DocNode) :
    isFootnote b = true ↔ b.metadata.type = "text" ∧ strip b.text ≠ "" ∧
      (footnoteStyleKeywords.any (strIn · (lower b.metadata.styleName)) = true ∨
        footnoteStartPatterns.any (·.search true (strip b.text).data) = true ∨
        footnoteMarkerPatterns.any (·.search false (strip b.text).data) = true) := by
  unfold isFootnote
  split_ifs <;> simp_all

end RagParsers
