import RagParsers.PyStr

/-! Document nodes, with the metadata keys the two parsers read or write. -/

namespace RagParsers

/-- The metadata keys the parsers read or write. A key read with a string default (`type`,
`file_name`, `image_path`, `style_dict['style_name']`) holds that default when absent, and
`styleName` also when the caption parser's `try` swallows a malformed `style_dict`. -/
structure Metadata where
  type : String := ""
  styleName : String := ""
  imagePath : String := ""
  fileName : String := ""
  index : Option Int := none
  textLevel : Option Int := none
  imageCaption : Option String := none
  tableCaption : Option String := none
  equationCaption : Option String := none
  footnote : Option String := none
  imageFootnote : Option String := none
  tableFootnote : Option String := none
  equationFootnote : Option String := none
  deriving DecidableEq, Repr

structure DocNode where
  text : String
  metadata : Metadata
  deriving DecidableEq, Repr

namespace DocNode

/-- `int(node.metadata.get("text_level", 0))` -/
def level (b : DocNode) : Int := b.metadata.textLevel.getD 0

/-- `node.metadata.get("index", 0)` -/
def indexKey (b : DocNode) : Int := b.metadata.index.getD 0

def setIndex (b : DocNode) (k : Nat) : DocNode :=
  { b with metadata := { b.metadata with index := some k } }

def setTextLevel (b : DocNode) (l : Int) : DocNode :=
  { b with metadata := { b.metadata with textLevel := some l } }

variable (b : DocNode) (k m : Nat) (l : Int)

@[simp] theorem setIndex_text : (b.setIndex k).text = b.text := rfl
@[simp] theorem setIndex_type : (b.setIndex k).metadata.type = b.metadata.type := rfl
@[simp] theorem setIndex_styleName : (b.setIndex k).metadata.styleName = b.metadata.styleName := rfl
@[simp] theorem setIndex_fileName : (b.setIndex k).metadata.fileName = b.metadata.fileName := rfl
@[simp] theorem setIndex_level : (b.setIndex k).level = b.level := rfl
@[simp] theorem setIndex_indexKey : (b.setIndex k).indexKey = k := rfl
@[simp] theorem setIndex_setIndex : (b.setIndex k).setIndex m = b.setIndex m := rfl
@[simp] theorem setTextLevel_text : (b.setTextLevel l).text = b.text := rfl
@[simp] theorem setTextLevel_type : (b.setTextLevel l).metadata.type = b.metadata.type := rfl
@[simp] theorem setTextLevel_fileName :
    (b.setTextLevel l).metadata.fileName = b.metadata.fileName := rfl
@[simp] theorem setTextLevel_level : (b.setTextLevel l).level = l := rfl
@[simp] theorem setTextLevel_setTextLevel (l' : Int) :
    (b.setTextLevel l).setTextLevel l' = b.setTextLevel l' := rfl
@[simp] theorem setTextLevel_indexKey : (b.setTextLevel l).indexKey = b.indexKey := rfl

theorem setIndex_of_index {b : DocNode} {k : Nat} (h : b.metadata.index = some (k : Int)) :
    b.setIndex k = b := by
  obtain ⟨text, m⟩ := b
  cases m
  simp_all [setIndex]

theorem setTextLevel_setIndex : (b.setTextLevel l).setIndex k = (b.setIndex k).setTextLevel l :=
  rfl

end DocNode

/-- `_reset_node_index`: each node's index set to its position. -/
def resetNodeIndex (nodes : List DocNode) : List DocNode :=
  nodes.mapIdx fun index node => node.setIndex index

@[simp] theorem length_resetNodeIndex (nodes : List DocNode) :
    (resetNodeIndex nodes).length = nodes.length := List.length_mapIdx

theorem getElem?_resetNodeIndex (nodes : List DocNode) (k : Nat) :
    (resetNodeIndex nodes)[k]? = nodes[k]?.map (·.setIndex k) :=
  (List.mapIdx_eq_iff.mp rfl) k

/-- Numbering a list whose nodes already carry their positions changes nothing. -/
theorem resetNodeIndex_of_indexed {nodes : List DocNode}
    (h : ∀ (k : Nat) (b : DocNode), nodes[k]? = some b → b.metadata.index = some (k : Int)) :
    resetNodeIndex nodes = nodes := by
  refine List.ext_getElem? fun k => ?_
  rw [getElem?_resetNodeIndex]
  cases hk : nodes[k]? with
  | none => rfl
  | some b => rw [Option.map_some', DocNode.setIndex_of_index (h k b hk)]

theorem map_resetNodeIndex {α : Type} (f : DocNode → α) (hf : ∀ b (k : Nat), f (b.setIndex k) = f b)
    (nodes : List DocNode) : (resetNodeIndex nodes).map f = nodes.map f :=
  List.ext_getElem? fun k => by
    rw [List.getElem?_map, getElem?_resetNodeIndex, Option.map_map, List.getElem?_map]
    exact Option.map_congr fun b _ => hf b k

/-- Numbering commutes with a map that never reads the index. -/
theorem resetNodeIndex_map (f : DocNode → DocNode)
    (hf : ∀ b (k : Nat), f (b.setIndex k) = (f b).setIndex k) (nodes : List DocNode) :
    resetNodeIndex (nodes.map f) = (resetNodeIndex nodes).map f :=
  List.ext_getElem? fun k => by
    rw [getElem?_resetNodeIndex, List.getElem?_map, List.getElem?_map, getElem?_resetNodeIndex,
      Option.map_map, Option.map_map]
    exact Option.map_congr fun b _ => (hf b k).symm

@[simp] theorem resetNodeIndex_resetNodeIndex (nodes : List DocNode) :
    resetNodeIndex (resetNodeIndex nodes) = resetNodeIndex nodes :=
  List.ext_getElem? fun k => by
    rw [getElem?_resetNodeIndex, getElem?_resetNodeIndex, Option.map_map]
    rfl

/-- Numbering the join of two numbered lists forgets their own numbering. -/
theorem resetNodeIndex_append_resetNodeIndex (as bs : List DocNode) :
    resetNodeIndex (resetNodeIndex as ++ resetNodeIndex bs) = resetNodeIndex (as ++ bs) :=
  List.ext_getElem? fun k => by
    rw [getElem?_resetNodeIndex, getElem?_resetNodeIndex]
    by_cases hk : k < as.length
    · rw [List.getElem?_append_left (by simpa using hk), List.getElem?_append_left hk,
        getElem?_resetNodeIndex, Option.map_map]
      rfl
    · rw [List.getElem?_append_right (by simpa using Nat.le_of_not_lt hk),
        List.getElem?_append_right (Nat.le_of_not_lt hk), getElem?_resetNodeIndex, Option.map_map,
        length_resetNodeIndex]
      rfl

theorem resetNodeIndex_append_resetNodeIndex_right (as bs : List DocNode) :
    resetNodeIndex (as ++ resetNodeIndex bs) = resetNodeIndex (as ++ bs) := by
  rw [← resetNodeIndex_append_resetNodeIndex, resetNodeIndex_resetNodeIndex,
    resetNodeIndex_append_resetNodeIndex]

end RagParsers
