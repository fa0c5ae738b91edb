import RagParsers.Caption.Output
import RagParsers.Caption.Congr
import RagParsers.Layout.Forward

/-! The two parsers in either order, on the nodes of one file in index order: the same nodes,
and the same levels exactly when the layout pass judges each merged anchor's own text and its
merged text alike. -/

namespace RagParsers

open LayoutNodeParser CaptionFootnoteParser

/-- The level `int(text_level)` reads, an absent one as 0, written back. -/
def normLevel (b : DocNode) : DocNode := b.setTextLevel b.level

/-- A node without its level. -/
def eraseLevel (b : DocNode) : DocNode := { b with metadata := { b.metadata with textLevel := none } }

theorem normLevel_setIndex (b : DocNode) (k : Nat) :
    normLevel (b.setIndex k) = (normLevel b).setIndex k := rfl

theorem eraseLevel_setIndex (b : DocNode) (k : Nat) :
    eraseLevel (b.setIndex k) = (eraseLevel b).setIndex k := rfl

/-- Numbered lists agree under a map that commutes with numbering when their nodes do. -/
theorem map_resetNodeIndex_congr (G : DocNode → DocNode)
    (hG : ∀ b (k : Nat), G (b.setIndex k) = (G b).setIndex k) {l₁ l₂ : List DocNode}
    (h : l₁.map (fun b => G (b.setIndex 0)) = l₂.map (fun b => G (b.setIndex 0))) :
    (resetNodeIndex l₁).map G = (resetNodeIndex l₂).map G := by
  have key : ∀ l : List DocNode,
      (resetNodeIndex l).map G = resetNodeIndex (l.map fun b => G (b.setIndex 0)) := fun l =>
    List.ext_getElem? fun k => by
      rw [List.getElem?_map, getElem?_resetNodeIndex, getElem?_resetNodeIndex, List.getElem?_map,
        Option.map_map, Option.map_map]
      refine Option.map_congr fun b _ => ?_
      simp only [Function.comp, hG, DocNode.setIndex_setIndex]
  rw [key, key, h]

theorem planEquiv_layout (xs : List DocNode) : PlanEquiv xs (resetNodeIndex (xs.map parseNode)) := by
  refine ⟨by simp, fun j a b ha hb => ?_⟩
  rw [getElem?_resetNodeIndex, List.getElem?_map, ha] at hb
  obtain rfl := Option.some.inj hb.symm
  exact ⟨by simp, by simp, by simp⟩

theorem text_getElem?_layout (xs : List DocNode) (j : Nat) :
    (resetNodeIndex (xs.map parseNode))[j]?.map (·.text) = xs[j]?.map (·.text) := by
  rw [getElem?_resetNodeIndex, List.getElem?_map, Option.map_map, Option.map_map]
  exact Option.map_congr fun b _ => by simp

theorem normLevel_eq_normLevel_iff {a b : DocNode} :
    normLevel a = normLevel b ↔ eraseLevel a = eraseLevel b ∧ a.level = b.level := by
  have hsplit : ∀ b : DocNode, normLevel b = (eraseLevel b).setTextLevel b.level := fun _ => rfl
  refine ⟨fun h => ⟨show eraseLevel (normLevel a) = eraseLevel (normLevel b) from congrArg _ h,
    by simpa [normLevel] using congrArg DocNode.level h⟩,
    fun ⟨he, hl⟩ => ?_⟩
  rw [hsplit a, hsplit b, he, hl]

@[simp] theorem level_normLevel (b : DocNode) : (normLevel b).level = b.level := rfl

@[simp] theorem eraseLevel_parseNode (b : DocNode) : eraseLevel (parseNode b) = eraseLevel b := by
  rcases parseNode_eq_or b with h | ⟨l, h⟩ <;> rw [h]
  rfl

theorem eraseLevel_mergeCaptionFootnote_parseNode (saveImage : Bool) (x : DocNode)
    (c f : Option DocNode) :
    eraseLevel (mergeCaptionFootnote saveImage (parseNode x) c f) =
      eraseLevel (parseNode (mergeCaptionFootnote saveImage x c f)) := by
  rw [eraseLevel_parseNode]
  rcases parseNode_eq_or x with h | ⟨l, h⟩ <;> rw [h]
  rw [mergeCaptionFootnote_setTextLevel]
  rfl

/-- A merged anchor gets one level in both orders exactly when the layout pass judges its own
text and its merged text alike, or its level is above 1 or 0. -/
theorem level_parseNode_mergeCaptionFootnote_iff (saveImage : Bool) {x : DocNode}
    (hx : x.metadata.type ∈ anchorTypes) (c f : Option DocNode) :
    (parseNode x).level = (parseNode (mergeCaptionFootnote saveImage x c f)).level ↔
      (x.level ≤ 1 → x.level ≠ 0 → matchAny x (timePatterns ++ tocPatterns) =
        matchAny (mergeCaptionFootnote saveImage x c f) (timePatterns ++ tocPatterns)) := by
  have hne : x.metadata.type ≠ "text" := fun h => by simp [h, anchorTypes] at hx
  rw [level_parseNode_of_ne_text x hne, level_parseNode_of_ne_text _ (by simpa using hne),
    mergeCaptionFootnote_level]
  cases matchAny x (timePatterns ++ tocPatterns) <;>
    cases matchAny (mergeCaptionFootnote saveImage x c f) (timePatterns ++ tocPatterns) <;>
    by_cases h1 : 1 < x.level <;> simp [h1] <;> omega

section Compose

variable (saveImage : Bool) {xs : List DocNode} (G : DocNode → DocNode)

theorem map_emittedNodes_layout
    (hanchor : ∀ e ∈ (planningPass xs).mergeInfo, ∀ x, xs[e.anchor]? = some x →
      G (mergeCaptionFootnote saveImage (parseNode x) (e.caption.bind (xs[·]?))
          (e.footnote.bind (xs[·]?))) =
        G (parseNode (mergeCaptionFootnote saveImage x (e.caption.bind (xs[·]?))
          (e.footnote.bind (xs[·]?)))))
    (hG : ∀ b (k : Nat), G (b.setIndex k) = (G b).setIndex k) :
    (emittedNodes saveImage (resetNodeIndex (xs.map parseNode)) (planningPass xs)).map
        (fun b => G (b.setIndex 0)) =
      ((emittedNodes saveImage xs (planningPass xs)).map parseNode).map
        (fun b => G (b.setIndex 0)) := by
  have hbind : ∀ o : Option Nat,
      (o.bind fun j => (resetNodeIndex (xs.map parseNode))[j]?).map (·.text) =
        (o.bind (xs[·]?)).map (·.text) := fun o => by
    cases o <;> simp only [Option.none_bind, Option.some_bind, Option.map_none',
      text_getElem?_layout]
  simp only [emittedNodes, length_resetNodeIndex, List.length_map, List.map_filterMap, List.map_map,
    Option.map_map]
  refine List.filterMap_congr fun i _ => ?_
  rw [getElem?_resetNodeIndex, List.getElem?_map]
  cases hx : xs[i]? with
  | none => rfl
  | some x =>
    simp only [Option.map_some', Function.comp, Option.some.injEq]
    unfold emitted
    split
    · rename_i e he
      have hi : e.anchor = i := by simpa using List.find?_some he
      rw [mergeCaptionFootnote_setIndex, DocNode.setIndex_setIndex,
        mergeCaptionFootnote_congr _ _ _ _ (hbind e.caption) (hbind e.footnote), hG, hG,
        hanchor e (List.mem_of_find?_eq_some he) x (hi ▸ hx)]
    · rw [DocNode.setIndex_setIndex]

theorem fileName_emittedNodes :
    ∀ y ∈ emittedNodes saveImage xs (planningPass xs), ∃ x ∈ xs,
      y.metadata.fileName = x.metadata.fileName := by
  intro y hy
  obtain ⟨i, -, hi⟩ := List.mem_filterMap.mp hy
  obtain ⟨x, hx, rfl⟩ := Option.map_eq_some'.mp hi
  refine ⟨x, List.mem_iff_getElem?.mpr ⟨i, hx⟩, ?_⟩
  unfold emitted
  split <;> simp

theorem sorted_captionForward
    (hfile : ∀ x ∈ xs, ∀ y ∈ xs, x.metadata.fileName = y.metadata.fileName) :
    (CaptionFootnoteParser.forward saveImage xs).Sorted fun a b => sortKey a ≤ sortKey b := by
  rw [CaptionFootnoteParser.forward, parseNodes_eq]
  refine sorted_resetNodeIndex (List.pairwise_of_forall_mem_list fun a ha b hb => ?_)
  obtain ⟨a, ha', rfl⟩ := List.mem_map.mp ha
  obtain ⟨b, hb', rfl⟩ := List.mem_map.mp hb
  obtain ⟨x, hx, hax⟩ := fileName_emittedNodes saveImage a ha'
  obtain ⟨y, hy, hby⟩ := fileName_emittedNodes saveImage b hb'
  simp only [fileKey, hax, hby, hfile x hx y hy, le_refl]

/-- Both orders agree under a map that commutes with numbering and with the merge of an anchor. -/
theorem map_forward_comm (hG : ∀ b (k : Nat), G (b.setIndex k) = (G b).setIndex k)
    (hanchor : ∀ e ∈ (planningPass xs).mergeInfo, ∀ x, xs[e.anchor]? = some x →
      G (mergeCaptionFootnote saveImage (parseNode x) (e.caption.bind (xs[·]?))
          (e.footnote.bind (xs[·]?))) =
        G (parseNode (mergeCaptionFootnote saveImage x (e.caption.bind (xs[·]?))
          (e.footnote.bind (xs[·]?)))))
    (hsorted : xs.Sorted fun a b => sortKey a ≤ sortKey b)
    (hfile : ∀ x ∈ xs, ∀ y ∈ xs, x.metadata.fileName = y.metadata.fileName) :
    (CaptionFootnoteParser.forward saveImage (LayoutNodeParser.forward xs)).map G =
      (LayoutNodeParser.forward (CaptionFootnoteParser.forward saveImage xs)).map G := by
  rw [LayoutNodeParser.forward_of_sorted hsorted,
    LayoutNodeParser.forward_of_sorted (sorted_captionForward saveImage hfile),
    CaptionFootnoteParser.forward, CaptionFootnoteParser.forward, parseNodes_eq, parseNodes_eq,
    ← planningPass_congr (planEquiv_layout xs), ← resetNodeIndex_map _ parseNode_setIndex,
    resetNodeIndex_resetNodeIndex]
  exact map_resetNodeIndex_congr G hG (map_emittedNodes_layout saveImage G hanchor hG)

theorem anchor_of_mem_mergeInfo {e : MergeEntry} (he : e ∈ (planningPass xs).mergeInfo) {x : DocNode}
    (hx : xs[e.anchor]? = some x) : x.metadata.type ∈ anchorTypes := by
  obtain ⟨a, ha, hat, -⟩ := ((planInv_planningPass xs).shape e he).anchor
  rw [hx, Option.some.injEq] at ha
  exact ha ▸ hat

/-- Layout pass first: a merged anchor keeps the level the layout pass gave it alone. -/
theorem level_forward_layout_first {e : MergeEntry} (he : e ∈ (planningPass xs).mergeInfo)
    {a : DocNode} (ha : xs[e.anchor]? = some a) (hsorted : xs.Sorted fun a b => sortKey a ≤ sortKey b) :
    (CaptionFootnoteParser.forward saveImage (LayoutNodeParser.forward xs))[((List.range
        e.anchor).filter (· ∉ (planningPass xs).mergedIndices)).length]?.map DocNode.level =
      some (parseNode a).level := by
  have h := planInv_planningPass xs
  have hP := planningPass_congr (planEquiv_layout xs)
  have hn : (resetNodeIndex (xs.map parseNode))[e.anchor]? = some ((parseNode a).setIndex e.anchor) := by
    rw [getElem?_resetNodeIndex, List.getElem?_map, ha]
    rfl
  have hout := getElem?_parseNodes_of_not_mem saveImage hn (hP ▸ h.anchor_not_mem_merged he)
  rw [← hP, emitted, find?_anchor h.anchors_nodup he] at hout
  rw [LayoutNodeParser.forward_of_sorted hsorted, CaptionFootnoteParser.forward, hout]
  simp

/-- Caption parser first: a merged anchor gets the level the layout pass gives the merged node. -/
theorem level_forward_caption_first {e : MergeEntry} (he : e ∈ (planningPass xs).mergeInfo)
    {a : DocNode} (ha : xs[e.anchor]? = some a)
    (hfile : ∀ x ∈ xs, ∀ y ∈ xs, x.metadata.fileName = y.metadata.fileName) :
    (LayoutNodeParser.forward (CaptionFootnoteParser.forward saveImage xs))[((List.range
        e.anchor).filter (· ∉ (planningPass xs).mergedIndices)).length]?.map DocNode.level =
      some (parseNode (mergeCaptionFootnote saveImage a (e.caption.bind (xs[·]?))
        (e.footnote.bind (xs[·]?)))).level := by
  have h := planInv_planningPass xs
  have hout := getElem?_parseNodes_of_not_mem saveImage ha (h.anchor_not_mem_merged he)
  rw [emitted, find?_anchor h.anchors_nodup he] at hout
  rw [LayoutNodeParser.forward_of_sorted (sorted_captionForward saveImage hfile),
    getElem?_resetNodeIndex, List.getElem?_map, CaptionFootnoteParser.forward, hout]
  simp [parseNode_setIndex]

/-- On one file in index order, both orders give the same nodes but for their levels, and the
same levels exactly when every merged anchor with a level in `(0, 1]` gets the same date and
table-of-contents verdict on its own text as on its merged text. -/
theorem forward_comm (xs : List DocNode)
    (hfile : ∀ x ∈ xs, ∀ y ∈ xs, x.metadata.fileName = y.metadata.fileName)
    (hidx : (xs.map DocNode.indexKey).Sorted (· < ·)) :
    (CaptionFootnoteParser.forward saveImage (LayoutNodeParser.forward xs)).map eraseLevel =
      (LayoutNodeParser.forward (CaptionFootnoteParser.forward saveImage xs)).map eraseLevel ∧
    ((∀ e ∈ (planningPass xs).mergeInfo, ∀ a ∈ xs[e.anchor]?, a.level ≤ 1 → a.level ≠ 0 →
        matchAny a (timePatterns ++ tocPatterns) =
          matchAny (mergeCaptionFootnote saveImage a (e.caption.bind (xs[·]?))
            (e.footnote.bind (xs[·]?))) (timePatterns ++ tocPatterns)) ↔
      (CaptionFootnoteParser.forward saveImage (LayoutNodeParser.forward xs)).map normLevel =
        (LayoutNodeParser.forward (CaptionFootnoteParser.forward saveImage xs)).map normLevel) := by
  have hsorted : xs.Sorted fun a b => sortKey a ≤ sortKey b := by
    rw [List.Sorted, List.pairwise_map] at hidx
    exact hidx.imp_of_mem fun ha hb hab =>
      (Prod.Lex.le_iff _ _).mpr (.inr ⟨congrArg String.data (hfile _ ha _ hb), le_of_lt hab⟩)
  refine ⟨map_forward_comm saveImage eraseLevel eraseLevel_setIndex
    (fun e _ x _ => eraseLevel_mergeCaptionFootnote_parseNode saveImage x _ _) hsorted hfile,
    fun hsame => ?_, fun heq e he a ha => ?_⟩
  · refine map_forward_comm saveImage normLevel normLevel_setIndex (fun e he x hx => ?_) hsorted hfile
    rw [normLevel_eq_normLevel_iff, mergeCaptionFootnote_level]
    exact ⟨eraseLevel_mergeCaptionFootnote_parseNode saveImage x _ _,
      (level_parseNode_mergeCaptionFootnote_iff saveImage (anchor_of_mem_mergeInfo he hx) _ _).mpr
        (hsame e he x hx)⟩
  · -- the two outputs agree on levels at the anchor's position
    have hlev := congrArg (fun l => (l.map DocNode.level)[((List.range e.anchor).filter
      (· ∉ (planningPass xs).mergedIndices)).length]?) heq
    simp only [List.map_map, Function.comp_def, level_normLevel, List.getElem?_map] at hlev
    rw [level_forward_layout_first saveImage he ha hsorted,
      level_forward_caption_first saveImage he ha hfile] at hlev
    exact (level_parseNode_mergeCaptionFootnote_iff saveImage (anchor_of_mem_mergeInfo he ha) _ _).mp
      (Option.some.inj hlev)

end Compose

/-- A table after its caption, marked as a heading candidate. -/
def captionedTable : List DocNode :=
  [{ text := "Table 1.", metadata := { type := "text", index := some 0 } },
   { text := "5", metadata := { type := "table", index := some 1, textLevel := some 1 } }]

/-- The same table with a caption that ends without a dot. -/
def plainCaptionedTable : List DocNode :=
  [{ text := "Table 1", metadata := { type := "text", index := some 0 } },
   { text := "5", metadata := { type := "table", index := some 1, textLevel := some 1 } }]

/-- `Table 1\n5` is no table-of-contents line, so the orders agree; `Table 1.\n5` is one. -/
theorem forward_comm_captionedTables :
    ((∀ x ∈ plainCaptionedTable, ∀ y ∈ plainCaptionedTable,
        x.metadata.fileName = y.metadata.fileName) ∧
      (plainCaptionedTable.map DocNode.indexKey).Sorted (· < ·) ∧
      (∀ e ∈ (planningPass plainCaptionedTable).mergeInfo, ∀ a ∈ plainCaptionedTable[e.anchor]?,
        a.level ≤ 1 → a.level ≠ 0 → matchAny a (timePatterns ++ tocPatterns) =
          matchAny (mergeCaptionFootnote true a (e.caption.bind (plainCaptionedTable[·]?))
            (e.footnote.bind (plainCaptionedTable[·]?))) (timePatterns ++ tocPatterns)) ∧
      (CaptionFootnoteParser.forward true (LayoutNodeParser.forward plainCaptionedTable)).map
          normLevel =
        (LayoutNodeParser.forward (CaptionFootnoteParser.forward true plainCaptionedTable)).map
          normLevel) ∧
    ((∀ x ∈ captionedTable, ∀ y ∈ captionedTable, x.metadata.fileName = y.metadata.fileName) ∧
      (captionedTable.map DocNode.indexKey).Sorted (· < ·) ∧
      ¬ (∀ e ∈ (planningPass captionedTable).mergeInfo, ∀ a ∈ captionedTable[e.anchor]?,
        a.level ≤ 1 → a.level ≠ 0 → matchAny a (timePatterns ++ tocPatterns) =
          matchAny (mergeCaptionFootnote true a (e.caption.bind (captionedTable[·]?))
            (e.footnote.bind (captionedTable[·]?))) (timePatterns ++ tocPatterns)) ∧
      (CaptionFootnoteParser.forward true (LayoutNodeParser.forward captionedTable)).map
          normLevel ≠
        (LayoutNodeParser.forward (CaptionFootnoteParser.forward true captionedTable)).map
          normLevel) := by
  have hplain := (forward_comm true plainCaptionedTable (by decide) (by decide)).2
  have hdot := (forward_comm true captionedTable (by decide) (by decide)).2
  refine ⟨⟨by decide, by decide, ?plain, hplain.mp ?plain⟩,
    ⟨by decide, by decide, ?dot, mt hdot.mpr ?dot⟩⟩
  all_goals decide

/-- Merged first, `Table 1.\n5` reads as a table-of-contents line and its level goes to 0;
with the layout pass first, the level 1 stays. -/
theorem forward_order_captionedTable :
    (∀ x ∈ captionedTable, ∀ y ∈ captionedTable, x.metadata.fileName = y.metadata.fileName) ∧
    (captionedTable.map DocNode.indexKey).Sorted (· < ·) ∧
    (CaptionFootnoteParser.forward true (LayoutNodeParser.forward captionedTable)).map
        (·.metadata.textLevel) = [some 1] ∧
    (LayoutNodeParser.forward (CaptionFootnoteParser.forward true captionedTable)).map
        (·.metadata.textLevel) = [some 0] ∧
    (CaptionFootnoteParser.forward true (LayoutNodeParser.forward captionedTable)).map normLevel ≠
      (LayoutNodeParser.forward (CaptionFootnoteParser.forward true captionedTable)).map normLevel := by
  decide

end RagParsers
