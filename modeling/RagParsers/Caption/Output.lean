import RagParsers.Caption.Plan
import Mathlib.Data.List.Basic

/-! The second pass of `CaptionFootnoteParser`: one node per untaken index, numbered by position. -/

namespace RagParsers

namespace CaptionFootnoteParser

variable {saveImage : Bool} {nodes : List DocNode} {st : PlanState}

/-- The nodes the second pass emits, in input order, before they are numbered. -/
def emittedNodes (saveImage : Bool) (nodes : List DocNode) (st : PlanState) : List DocNode :=
  ((List.range nodes.length).filter (· ∉ st.mergedIndices)).filterMap fun i =>
    nodes[i]?.map (emitted saveImage nodes st i)

theorem foldl_mergeStep (is : List Nat) (acc : List DocNode) :
    is.foldl (mergeStep saveImage nodes st) acc =
      acc ++ ((is.filter (· ∉ st.mergedIndices)).filterMap fun i =>
        nodes[i]?.map (emitted saveImage nodes st i)).mapIdx
          fun k b => b.setIndex (acc.length + k) := by
  induction is generalizing acc with
  | nil => simp
  | cons i is ih =>
    rw [List.foldl_cons, ih]
    unfold mergeStep
    rcases hn : nodes[i]? with _ | node
    · by_cases hm : i ∈ st.mergedIndices <;> simp [hm, hn]
    · by_cases hm : i ∈ st.mergedIndices
      · simp [hm]
      · simp only [hm, if_false, List.filter_cons, decide_not, decide_False, Bool.not_false,
          if_true, List.filterMap_cons, hn, Option.map_some', List.mapIdx_cons,
          List.append_assoc, List.singleton_append, List.length_append, List.length_singleton,
          Nat.add_zero]
        congr 3
        funext k b
        rw [Nat.add_assoc, Nat.add_comm 1 k]

theorem mergePass_eq : mergePass saveImage nodes st = resetNodeIndex (emittedNodes saveImage nodes st) := by
  rw [mergePass, foldl_mergeStep]
  simp [resetNodeIndex, emittedNodes]

/-- `_parse_nodes` is the second pass over the plan of the first, also on empty input. -/
theorem parseNodes_eq (saveImage : Bool) (nodes : List DocNode) :
    parseNodes saveImage nodes = resetNodeIndex (emittedNodes saveImage nodes (planningPass nodes)) := by
  unfold parseNodes
  split_ifs with h
  · subst h; rfl
  · exact mergePass_eq

theorem getElem?_filterMap_of_isSome {α β : Type} {f : α → Option β} :
    ∀ {l : List α}, (∀ x ∈ l, (f x).isSome) → ∀ k : Nat, (l.filterMap f)[k]? = l[k]?.bind f
  | [], _, k => by simp
  | x :: l, h, k => by
    obtain ⟨y, hy⟩ := Option.isSome_iff_exists.mp (h x (List.mem_cons_self x l))
    cases k with
    | zero => simp [List.filterMap_cons, hy]
    | succ k =>
      simp only [List.filterMap_cons, hy, List.getElem?_cons_succ]
      exact getElem?_filterMap_of_isSome (fun z hz => h z (List.mem_cons_of_mem x hz)) k

theorem length_filterMap_of_isSome {α β : Type} {f : α → Option β} {l : List α}
    (h : ∀ x ∈ l, (f x).isSome) : (l.filterMap f).length = l.length := by
  induction l with
  | nil => rfl
  | cons x l ih =>
    obtain ⟨y, hy⟩ := Option.isSome_iff_exists.mp (h x (List.mem_cons_self x l))
    simp [List.filterMap_cons, hy, ih fun z hz => h z (List.mem_cons_of_mem x hz)]

theorem filterMap_getElem?_range {α : Type} (l : List α) :
    (List.range l.length).filterMap (l[·]?) = l :=
  List.ext_getElem? fun k => by
    rw [getElem?_filterMap_of_isSome (fun i hi => by simp [List.mem_range.mp hi]) k]
    by_cases hk : k < l.length
    · simp [hk]
    · rw [List.getElem?_eq_none (by simpa using Nat.le_of_not_lt hk),
        List.getElem?_eq_none (Nat.le_of_not_lt hk)]
      rfl

theorem filter_filterMap_range {α : Type} {l : List α} {C : List Nat} {p : α → Bool}
    (hC : ∀ j ∈ C, ∀ x, l[j]? = some x → p x = false) :
    (((List.range l.length).filter (· ∉ C)).filterMap (l[·]?)).filter p = l.filter p := by
  conv_rhs => rw [← filterMap_getElem?_range l]
  rw [List.filter_filterMap, List.filter_filterMap, List.filterMap_filter]
  refine List.filterMap_congr fun i _ => ?_
  by_cases hi : i ∈ C
  · cases hx : l[i]? with
    | none => simp [hi, hx]
    | some x => simp [hi, hx, Option.filter, hC i hi x hx]
  · simp [hi]

theorem isSome_getElem?_range {i : Nat} (h : i ∈ (List.range nodes.length).filter (· ∉ st.mergedIndices))
    (g : DocNode → DocNode) : (nodes[i]?.map g).isSome := by
  simp only [List.mem_filter, List.mem_range] at h
  simp [h.1]

theorem length_filter_not_mem {n : Nat} {C : List Nat} (hC : C.Nodup) (hlt : ∀ j ∈ C, j < n) :
    ((List.range n).filter (· ∉ C)).length = n - C.length := by
  have hperm : List.Perm ((List.range n).filter (· ∈ C)) C :=
    (List.perm_ext_iff_of_nodup ((List.nodup_range n).filter _) hC).mpr fun j => by
      simp only [List.mem_filter, List.mem_range, decide_eq_true_eq]
      exact ⟨fun h => h.2, fun h => ⟨hlt j h, h⟩⟩
  have := @List.length_eq_length_filter_add ℕ (List.range n) (fun j => decide (j ∈ C))
  simp only [Bool.not_eq_true', decide_eq_false_iff_not, List.length_range] at this
  rw [hperm.length_eq] at this
  simp only [decide_not]
  omega

theorem length_flatMap_roles (es : List MergeEntry) :
    (es.flatMap MergeEntry.roles).length =
      (es.filterMap (·.caption)).length + (es.filterMap (·.footnote)).length := by
  induction es with
  | nil => rfl
  | cons e es ih =>
    cases hc : e.caption <;> cases hf : e.footnote <;>
      simp [MergeEntry.roles, List.filterMap_cons, hc, hf, ih] <;> omega

theorem PlanInv.mem_merged {k : Nat} (h : PlanInv nodes k st) {j : Nat} (hj : j ∈ st.mergedIndices) :
    ∃ n, nodes[j]? = some n ∧ n.metadata.type = "text" := by
  rw [h.merged_eq, List.mem_flatMap] at hj
  obtain ⟨e, he, hj⟩ := hj
  have hs := h.shape e he
  rcases List.mem_append.mp hj with hj | hj
  · obtain ⟨a, -, -, hcap⟩ := hs.anchor
    obtain ⟨n, hn, hcn⟩ := hcap j (Option.mem_toList.mp hj)
    exact ⟨n, hn, (isCaption_spec hcn).1⟩
  · obtain ⟨n, hn, hfn⟩ := hs.footnote_ok j (Option.mem_toList.mp hj)
    exact ⟨n, hn, (isFootnote_spec hfn).1⟩

theorem PlanInv.anchor_not_mem_merged {k : Nat} (h : PlanInv nodes k st) {e : MergeEntry}
    (he : e ∈ st.mergeInfo) : e.anchor ∉ st.mergedIndices := fun hm => by
  obtain ⟨a, ha, hat, -⟩ := (h.shape e he).anchor
  obtain ⟨n, hn, ht⟩ := h.mem_merged hm
  rw [ha, Option.some.injEq] at hn
  subst hn
  simp [ht, anchorTypes] at hat

theorem index_parseNodes {k : Nat} {out : DocNode} (hk : (parseNodes saveImage nodes)[k]? = some out) :
    out.metadata.index = some k := by
  rw [parseNodes_eq, getElem?_resetNodeIndex, Option.map_eq_some'] at hk
  obtain ⟨b, -, rfl⟩ := hk
  rfl

/-- The output has one node for each index the first pass did not take. -/
theorem length_parseNodes (saveImage : Bool) (nodes : List DocNode) :
    (parseNodes saveImage nodes).length = nodes.length - (planningPass nodes).mergedIndices.length := by
  have h := planInv_planningPass nodes
  have hlt : ∀ j ∈ (planningPass nodes).mergedIndices, j < nodes.length := fun j hj => by
    obtain ⟨n, hn, -⟩ := h.mem_merged hj
    exact (List.getElem?_eq_some_iff.mp hn).1
  rw [parseNodes_eq, length_resetNodeIndex, emittedNodes,
    length_filterMap_of_isSome fun i hi => isSome_getElem?_range hi _,
    length_filter_not_mem h.nodup hlt]

theorem find?_anchor {es : List MergeEntry} {e : MergeEntry} (hnd : (es.map (·.anchor)).Nodup)
    (he : e ∈ es) : es.find? (·.anchor = e.anchor) = some e := by
  induction es with
  | nil => simp at he
  | cons e' es ih =>
    rw [List.map_cons, List.nodup_cons] at hnd
    by_cases hk : e'.anchor = e.anchor
    · rcases List.mem_cons.mp he with rfl | he
      · simp
      · exact absurd (hk ▸ List.mem_map_of_mem _ he) hnd.1
    · rw [List.find?_cons_of_neg _ (by simpa using hk)]
      exact ih hnd.2 ((List.mem_cons.mp he).resolve_left fun h => hk (h ▸ rfl))

theorem getElem?_filter_range {C : List Nat} {i : Nat} (hC : i ∉ C) :
    ∀ {n : Nat}, i < n →
      ((List.range n).filter (· ∉ C))[((List.range i).filter (· ∉ C)).length]? = some i
  | 0, h => absurd h (Nat.not_lt_zero i)
  | m + 1, h => by
    rw [List.range_succ, List.filter_append]
    rcases Nat.lt_succ_iff_lt_or_eq.mp h with h | rfl
    · have ih := getElem?_filter_range hC h
      rw [List.getElem?_append_left (List.getElem?_eq_some_iff.mp ih).1, ih]
    · simp [hC]

/-- An untaken index gives the output node at the number of untaken indices below it. -/
theorem getElem?_parseNodes_of_not_mem (saveImage : Bool) {i : Nat} {n : DocNode}
    (hn : nodes[i]? = some n) (hi : i ∉ (planningPass nodes).mergedIndices) :
    (parseNodes saveImage nodes)[((List.range i).filter
        (· ∉ (planningPass nodes).mergedIndices)).length]? =
      some ((emitted saveImage nodes (planningPass nodes) i n).setIndex
        ((List.range i).filter (· ∉ (planningPass nodes).mergedIndices)).length) := by
  rw [parseNodes_eq, getElem?_resetNodeIndex, emittedNodes,
    getElem?_filterMap_of_isSome (fun i hi => isSome_getElem?_range hi _),
    getElem?_filter_range hi (List.getElem?_eq_some_iff.mp hn).1]
  simp [hn]

/-- The claim structure of `_parse_nodes`: taken nodes are text, each taken once by a neighbour
anchor, and the output is one numbered node per untaken index, merged for an anchor with a plan. -/
theorem parseNodes_partition (saveImage : Bool) (nodes : List DocNode) :
    let st := planningPass nodes
    (∀ j ∈ st.mergedIndices, ∃ n, nodes[j]? = some n ∧ n.metadata.type = "text") ∧
    (∀ i n, nodes[i]? = some n → n.metadata.type ≠ "text" → i ∉ st.mergedIndices) ∧
    (st.mergeInfo.flatMap MergeEntry.roles).Nodup ∧
    (∀ j, j ∈ st.mergedIndices ↔ j ∈ st.mergeInfo.flatMap MergeEntry.roles) ∧
    (∀ e ∈ st.mergeInfo, (∃ a, nodes[e.anchor]? = some a ∧ a.metadata.type ∈ anchorTypes) ∧
      (∀ c ∈ e.caption, c + 1 = e.anchor ∨ c = e.anchor + 1) ∧
      ∀ f ∈ e.footnote, f = if e.caption = some (e.anchor + 1) then e.anchor + 2 else e.anchor + 1) ∧
    parseNodes saveImage nodes = resetNodeIndex (emittedNodes saveImage nodes st) ∧
    (∀ e ∈ st.mergeInfo, ∀ a, nodes[e.anchor]? = some a →
      let k := ((List.range e.anchor).filter (· ∉ st.mergedIndices)).length
      (parseNodes saveImage nodes)[k]? = some ((mergeCaptionFootnote saveImage a
        (e.caption.bind (nodes[·]?)) (e.footnote.bind (nodes[·]?))).setIndex k)) ∧
    (∀ i n, nodes[i]? = some n → i ∉ st.mergedIndices → (∀ e ∈ st.mergeInfo, e.anchor ≠ i) →
      let k := ((List.range i).filter (· ∉ st.mergedIndices)).length
      (parseNodes saveImage nodes)[k]? = some (n.setIndex k)) ∧
    (∀ (k : Nat) (out : DocNode), (parseNodes saveImage nodes)[k]? = some out →
      out.metadata.index = some k) ∧
    (parseNodes saveImage nodes).length = nodes.length -
      (st.mergeInfo.filterMap (·.caption)).length - (st.mergeInfo.filterMap (·.footnote)).length := by
  intro st
  have h := planInv_planningPass nodes
  have htext := fun j (hj : j ∈ st.mergedIndices) => h.mem_merged hj
  refine ⟨htext, ?_, h.merged_eq ▸ h.nodup, fun j => by rw [h.merged_eq], fun e he =>
    ⟨(h.shape e he).anchor.imp fun a ha => ⟨ha.1, ha.2.1⟩, (h.shape e he).caption_pos,
      (h.shape e he).footnote_pos⟩, parseNodes_eq saveImage nodes, fun e he a ha => ?_,
    fun i n hn hi hno => ?_, ?_, ?_⟩
  · intro i n hn hty hi
    obtain ⟨n', hn', ht'⟩ := htext i hi
    rw [hn, Option.some.injEq] at hn'
    exact hty (hn' ▸ ht')
  · have hout := getElem?_parseNodes_of_not_mem saveImage ha (h.anchor_not_mem_merged he)
    rwa [emitted, find?_anchor h.anchors_nodup he] at hout
  · have hout := getElem?_parseNodes_of_not_mem saveImage hn hi
    rwa [emitted, List.find?_eq_none.mpr fun e he => by simpa using hno e he] at hout
  · exact fun k out => index_parseNodes
  · rw [length_parseNodes, h.merged_eq, length_flatMap_roles, Nat.sub_sub]

/-- A merged node's metadata as the spec words it: the anchor's keys, the position as index,
the stripped caption and footnote under the keys of the anchor's type. -/
def mergedMetadata (m : Metadata) (k : Nat) (caption footnote : Option String) : Metadata :=
  { m with
    index := some k
    imageCaption := if m.type = "image" then caption.or m.imageCaption else m.imageCaption
    tableCaption := if m.type = "table" then caption.or m.tableCaption else m.tableCaption
    equationCaption :=
      if m.type = "equation" then caption.or m.equationCaption else m.equationCaption
    footnote := footnote.or m.footnote
    imageFootnote := if m.type = "image" then footnote.or m.imageFootnote else m.imageFootnote
    tableFootnote := if m.type = "table" then footnote.or m.tableFootnote else m.tableFootnote
    equationFootnote :=
      if m.type = "equation" then footnote.or m.equationFootnote else m.equationFootnote }

theorem infix_intercalate {sep p : String} {parts : List String} (hp : p ∈ parts) :
    p.data <:+: (sep.intercalate parts).data := by
  cases parts with
  | nil => simp at hp
  | cons a as =>
    rw [data_intercalate]
    rcases List.mem_cons.mp hp with rfl | hp
    · exact (List.prefix_append _ _).isInfix
    · refine List.IsInfix.trans ?_ (List.suffix_append _ _).isInfix
      obtain ⟨l₁, l₂, h⟩ := List.append_of_mem hp
      rw [h, List.flatMap_append, List.flatMap_cons]
      exact ⟨(l₁.flatMap fun b => sep.data ++ b.data) ++ sep.data,
        l₂.flatMap fun b => sep.data ++ b.data, by simp⟩

theorem suffix_intercalate (sep p : String) (parts : List String) :
    p.data <:+ (sep.intercalate (parts ++ [p])).data := by
  cases parts with
  | nil => simp [data_intercalate]
  | cons a as =>
    rw [List.cons_append, data_intercalate, List.flatMap_append]
    exact ⟨a.data ++ (as.flatMap fun b => sep.data ++ b.data) ++ sep.data, by simp⟩

variable {node : DocNode} {cap foot : Option DocNode}

theorem setIndex_mergeCaptionFootnote_metadata (k : Nat) (hc : ∀ c ∈ cap, strip c.text ≠ "")
    (hf : ∀ f ∈ foot, strip f.text ≠ "") :
    ((mergeCaptionFootnote saveImage node cap foot).setIndex k).metadata =
      mergedMetadata node.metadata k (cap.map (strip ·.text)) (foot.map (strip ·.text)) := by
  rcases cap with _ | c <;> rcases foot with _ | f <;>
    simp only [mergeCaptionFootnote, strippedText_some, strippedText_none, ne_eq, not_true_eq_false,
      if_false, hc, hf, Option.mem_def, not_false_eq_true, if_true, Option.map_some', Option.map_none',
      mergedMetadata, Option.or_some, Option.none_or, DocNode.setIndex, setCaption, setFootnote] <;>
    by_cases hi : node.metadata.type = "image" <;> by_cases ht : node.metadata.type = "table" <;>
    by_cases he : node.metadata.type = "equation" <;> simp [hi, ht, he]

theorem mergeCaptionFootnote_caption {c : DocNode} (hc : strip c.text ≠ "") :
    (strip c.text).data <:+: (mergeCaptionFootnote saveImage node (some c) foot).text.data := by
  simp only [mergeCaptionFootnote, strippedText_some, ne_eq, hc, not_false_eq_true, if_true]
  by_cases hi : node.metadata.type = "image"
  · by_cases hs : saveImage = true
    · simp only [hi, hs, if_true]
      have hpart : (strip c.text).data <:+:
          ("![" ++ strip c.text ++ "](" ++ node.metadata.imagePath ++ ")").data :=
        ⟨"![".data, ("](" ++ node.metadata.imagePath ++ ")").data, by simp⟩
      exact hpart.trans (infix_intercalate (by simp))
    · simp only [hi, hs, if_true, if_false]
      exact infix_intercalate (by simp)
  · simp only [hi, if_false]
    exact infix_intercalate (by simp)

theorem mergeCaptionFootnote_footnote {f : DocNode} (hf : strip f.text ≠ "") :
    (strip f.text).data <:+ (mergeCaptionFootnote saveImage node cap (some f)).text.data := by
  simp only [mergeCaptionFootnote, strippedText_some, ne_eq, hf, not_false_eq_true, if_true]
  exact suffix_intercalate _ _ _

theorem mergeCaptionFootnote_own (h : node.metadata.type ≠ "image") :
    node.text.data <:+: (mergeCaptionFootnote saveImage node cap foot).text.data := by
  by_cases he : node.text = ""
  · simp [he]
  · simp only [mergeCaptionFootnote, h, if_false, ne_eq, he, not_false_eq_true, if_true]
    exact infix_intercalate (by simp)

theorem forall_mem_bind_getElem? {o : Option Nat} {P Q : DocNode → Prop}
    (h : ∀ c ∈ o, ∃ n, nodes[c]? = some n ∧ P n) (hPQ : ∀ n, P n → Q n) :
    ∀ n ∈ o.bind (nodes[·]?), Q n := by
  intro cn hcn
  obtain ⟨c, hc, hcn⟩ := Option.mem_bind_iff.mp hcn
  obtain ⟨n, hn, hok⟩ := h c hc
  rw [Option.mem_def, hn, Option.some.injEq] at hcn
  exact hcn ▸ hPQ n hok

theorem bind_getElem?_of_mem {o : Option Nat} {c : Nat} {n : DocNode} (hc : c ∈ o)
    (hn : nodes[c]? = some n) : o.bind (nodes[·]?) = some n := by
  simp [Option.mem_def.mp hc, hn]

/-- A merged node carries the anchor's metadata with the caption and footnote keys set, and its
text holds the caption, ends with the footnote, and keeps a table's or equation's own text. -/
theorem parseNodes_merged_node (saveImage : Bool) (nodes : List DocNode) (e : MergeEntry)
    (he : e ∈ (planningPass nodes).mergeInfo) :
    ∃ (a : DocNode) (k : Nat) (out : DocNode), nodes[e.anchor]? = some a ∧
      k = ((List.range e.anchor).filter (· ∉ (planningPass nodes).mergedIndices)).length ∧
      (parseNodes saveImage nodes)[k]? = some out ∧
      out.metadata = mergedMetadata a.metadata k ((e.caption.bind (nodes[·]?)).map (strip ·.text))
        ((e.footnote.bind (nodes[·]?)).map (strip ·.text)) ∧
      (∀ c ∈ e.caption, ∃ cn, nodes[c]? = some cn ∧ (strip cn.text).data <:+: out.text.data) ∧
      (∀ f ∈ e.footnote, ∃ fn, nodes[f]? = some fn ∧ (strip fn.text).data <:+ out.text.data) ∧
      (a.metadata.type = "table" ∨ a.metadata.type = "equation" →
        a.text.data <:+: out.text.data) := by
  have h := planInv_planningPass nodes
  have hs := h.shape e he
  obtain ⟨a, ha, -, hcapok⟩ := hs.anchor
  have hout := getElem?_parseNodes_of_not_mem saveImage ha (h.anchor_not_mem_merged he)
  simp only [emitted, find?_anchor h.anchors_nodup he] at hout
  have hcap := forall_mem_bind_getElem? hcapok fun n hn => (isCaption_spec hn).2
  have hfoot := forall_mem_bind_getElem? hs.footnote_ok fun n hn => (isFootnote_spec hn).2
  refine ⟨a, _, _, ha, rfl, hout, ?_, fun c hc => ?_, fun f hf => ?_, fun ht => ?_⟩
  · exact setIndex_mergeCaptionFootnote_metadata _ hcap hfoot
  · obtain ⟨n, hn, -⟩ := hcapok c hc
    have hb := bind_getElem?_of_mem hc hn
    exact ⟨n, hn, hb ▸ mergeCaptionFootnote_caption (hcap n (hb ▸ rfl))⟩
  · obtain ⟨n, hn, -⟩ := hs.footnote_ok f hf
    have hb := bind_getElem?_of_mem hf hn
    exact ⟨n, hn, hb ▸ mergeCaptionFootnote_footnote (hfoot n (hb ▸ rfl))⟩
  · exact mergeCaptionFootnote_own (by rcases ht with ht | ht <;> simp [ht])

/-- An image between its caption and a note. -/
def captionedImage : List DocNode :=
  [{ text := "Figure 1. A cat", metadata := { type := "text" } },
   { text := "", metadata := { type := "image", imagePath := "a.png" } },
   { text := "注：样本", metadata := { type := "text" } }]

theorem parseNodes_merged_node_captionedImage :
    ⟨1, some 0, some 2⟩ ∈ (planningPass captionedImage).mergeInfo ∧
    ∃ (a : DocNode) (k : Nat) (out : DocNode), captionedImage[1]? = some a ∧
      k = ((List.range 1).filter (· ∉ (planningPass captionedImage).mergedIndices)).length ∧
      (parseNodes true captionedImage)[k]? = some out ∧
      out.metadata = mergedMetadata a.metadata k (captionedImage[0]?.map (strip ·.text))
        (captionedImage[2]?.map (strip ·.text)) ∧
      (∀ c ∈ some 0, ∃ cn, captionedImage[c]? = some cn ∧
        (strip cn.text).data <:+: out.text.data) ∧
      (∀ f ∈ some 2, ∃ fn, captionedImage[f]? = some fn ∧
        (strip fn.text).data <:+ out.text.data) ∧
      (a.metadata.type = "table" ∨ a.metadata.type = "equation" →
        a.text.data <:+: out.text.data) :=
  ⟨by decide, parseNodes_merged_node true captionedImage ⟨1, some 0, some 2⟩ (by decide)⟩

/-- No text is lost: every stripped input text stands in an output node, but an image's own text
when the image takes a caption or a footnote. -/
theorem strip_text_infix_parseNodes (saveImage : Bool) (nodes : List DocNode) (j : Nat) (n : DocNode)
    (hn : nodes[j]? = some n)
    (hkeep : n.metadata.type = "image" → ∀ e ∈ (planningPass nodes).mergeInfo, e.anchor ≠ j) :
    ∃ out ∈ parseNodes saveImage nodes, (strip n.text).data <:+: out.text.data := by
  have h := planInv_planningPass nodes
  by_cases hj : j ∈ (planningPass nodes).mergedIndices
  · -- a taken node stands in the node merged for its anchor
    rw [h.merged_eq, List.mem_flatMap] at hj
    obtain ⟨e, he, hj⟩ := hj
    have hs := h.shape e he
    obtain ⟨a, ha, -, hcapok⟩ := hs.anchor
    have hout := getElem?_parseNodes_of_not_mem saveImage ha (h.anchor_not_mem_merged he)
    simp only [emitted, find?_anchor h.anchors_nodup he] at hout
    refine ⟨_, List.getElem?_mem hout, ?_⟩
    rw [DocNode.setIndex_text]
    rcases List.mem_append.mp hj with hc | hf
    · rw [Option.mem_toList] at hc
      obtain ⟨n', hn', hcn⟩ := hcapok j hc
      obtain rfl : n = n' := Option.some.inj (hn.symm.trans hn')
      rw [bind_getElem?_of_mem hc hn]
      exact mergeCaptionFootnote_caption (isCaption_spec hcn).2
    · rw [Option.mem_toList] at hf
      obtain ⟨n', hn', hfn⟩ := hs.footnote_ok j hf
      obtain rfl : n = n' := Option.some.inj (hn.symm.trans hn')
      rw [bind_getElem?_of_mem hf hn]
      exact (mergeCaptionFootnote_footnote (isFootnote_spec hfn).2).isInfix
  · -- an untaken node is emitted as it is, or merged with its own text kept
    have hout := getElem?_parseNodes_of_not_mem saveImage hn hj
    refine ⟨_, List.getElem?_mem hout, (infix_stripChars n.text.data).trans ?_⟩
    rw [DocNode.setIndex_text, emitted]
    split
    next e he =>
      have hanchor : e.anchor = j := by simpa using List.find?_some he
      exact mergeCaptionFootnote_own fun hi => hkeep hi e (List.mem_of_find?_eq_some he) hanchor
    next => exact List.infix_refl _

theorem strip_text_infix_parseNodes_captionedImage :
    ∃ out ∈ parseNodes true captionedImage, (strip "Figure 1. A cat").data <:+: out.text.data :=
  strip_text_infix_parseNodes true captionedImage 0 ⟨"Figure 1. A cat", { type := "text" }⟩ rfl
    fun h => absurd h (by decide)

/-- Every node that is not text stays, in input order. -/
theorem filter_type_parseNodes (saveImage : Bool) (nodes : List DocNode) :
    ((parseNodes saveImage nodes).map (·.metadata.type)).filter (· != "text") =
      (nodes.map (·.metadata.type)).filter (· != "text") := by
  have htypes : (parseNodes saveImage nodes).map (·.metadata.type) =
      ((List.range (nodes.map (·.metadata.type)).length).filter
        (· ∉ (planningPass nodes).mergedIndices)).filterMap ((nodes.map (·.metadata.type))[·]?) := by
    rw [parseNodes_eq, map_resetNodeIndex (·.metadata.type) (fun _ _ => rfl), emittedNodes,
      List.map_filterMap, List.length_map]
    exact List.filterMap_congr fun i _ => by
      rw [List.getElem?_map, Option.map_map]
      exact Option.map_congr fun b _ => emitted_type _ _ _ _ _
  rw [htypes]
  refine filter_filterMap_range fun j hj x hx => ?_
  obtain ⟨n, hn, ht⟩ := (planInv_planningPass nodes).mem_merged hj
  rw [List.getElem?_map, hn, Option.map_some', Option.some.injEq] at hx
  simp [← hx, ht]

/-- A node with the text of an image left out. -/
def eraseImageText (b : DocNode) : DocNode :=
  if b.metadata.type = "image" then { b with text := "" } else b

theorem eraseImageText_setIndex (b : DocNode) (k : Nat) :
    eraseImageText (b.setIndex k) = (eraseImageText b).setIndex k := by
  simp only [eraseImageText, DocNode.setIndex_type]
  split_ifs <;> rfl

theorem eraseImageText_mergeCaptionFootnote (node : DocNode) (cap foot : Option DocNode) :
    eraseImageText (mergeCaptionFootnote true node cap foot) =
      eraseImageText (mergeCaptionFootnote false node cap foot) := by
  by_cases h : node.metadata.type = "image"
  · simp only [eraseImageText, mergeCaptionFootnote_type, if_pos h]
    rfl
  · simp only [eraseImageText, mergeCaptionFootnote_type, if_neg h, mergeCaptionFootnote]

/-- The two settings of `save_image` give the same nodes, up to the text of images. -/
theorem parseNodes_map_eraseImageText (nodes : List DocNode) :
    (parseNodes true nodes).map eraseImageText = (parseNodes false nodes).map eraseImageText := by
  rw [parseNodes_eq, parseNodes_eq, ← resetNodeIndex_map _ eraseImageText_setIndex,
    ← resetNodeIndex_map _ eraseImageText_setIndex]
  refine congrArg resetNodeIndex ?_
  simp only [emittedNodes, List.map_filterMap]
  refine congrArg (List.filterMap · _) (funext fun i => ?_)
  cases nodes[i]? with
  | none => rfl
  | some node =>
    simp only [Option.map_some', emitted]
    cases (planningPass nodes).mergeInfo.find? (·.anchor = i) with
    | none => rfl
    | some e => exact congrArg some (eraseImageText_mergeCaptionFootnote _ _ _)

example : (parseNodes true captionedImage).map (·.text) ≠ (parseNodes false captionedImage).map (·.text) := by
  decide

end CaptionFootnoteParser

end RagParsers
