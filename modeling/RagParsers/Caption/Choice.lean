import RagParsers.Caption.Plan

/-! What each anchor takes over the whole run: the rule of one step, read off the final plan. -/

namespace RagParsers

namespace CaptionFootnoteParser

/-- The nodes the anchors before `i` took in a plan. -/
def takenBefore (st : PlanState) (i : Nat) : List Nat :=
  (st.mergeInfo.filter (·.anchor < i)).flatMap MergeEntry.roles

/-- The record a plan keeps for the anchor at `i`, as the second pass looks it up. -/
def recordOf (st : PlanState) (i : Nat) : Option MergeEntry := st.mergeInfo.find? (·.anchor = i)

/-- `merge_info[i][0]`, or `None` when `i` has no record. -/
def captionOf (st : PlanState) (i : Nat) : Option Nat := (recordOf st i).bind (·.caption)

/-- `merge_info[i][1]`, or `None` when `i` has no record. -/
def footnoteOf (st : PlanState) (i : Nat) : Option Nat := (recordOf st i).bind (·.footnote)

variable {nodes : List DocNode} {t : String} {i j : Nat}

theorem planStep_of_anchor {st : PlanState} {a : DocNode} (ha : nodes[i]? = some a)
    (hat : a.metadata.type ∈ anchorTypes) :
    planStep nodes st i = st.record i (captionIdx nodes st.mergedIndices a.metadata.type i)
      (footnoteIdx nodes st.mergedIndices i (captionIdx nodes st.mergedIndices a.metadata.type i)) := by
  simp [planStep, ha, hat]

theorem planStep_mergeInfo (nodes : List DocNode) (st : PlanState) (i : Nat) :
    ∃ l, (planStep nodes st i).mergeInfo = st.mergeInfo ++ l ∧ ∀ e ∈ l, e.anchor = i := by
  unfold planStep
  split
  · exact ⟨[], by simp, by simp⟩
  · dsimp only
    split_ifs
    · unfold PlanState.record
      split_ifs
      · exact ⟨[_], rfl, by simp⟩
      · exact ⟨[], by simp, by simp⟩
    · exact ⟨[], by simp, by simp⟩

theorem planUpTo_add_mergeInfo (nodes : List DocNode) (m : Nat) : ∀ k, ∃ l,
    (planUpTo nodes (m + k)).mergeInfo = (planUpTo nodes m).mergeInfo ++ l ∧ ∀ e ∈ l, m ≤ e.anchor
  | 0 => ⟨[], by simp, by simp⟩
  | k + 1 => by
    obtain ⟨l, hl, hm⟩ := planUpTo_add_mergeInfo nodes m k
    obtain ⟨l', hl', hk⟩ := planStep_mergeInfo nodes (planUpTo nodes (m + k)) (m + k)
    refine ⟨l ++ l', by rw [← Nat.add_assoc, planUpTo_succ, hl', hl, List.append_assoc], ?_⟩
    intro e he
    rcases List.mem_append.mp he with he | he
    · exact hm e he
    · rw [hk e he]
      omega

theorem find?_anchor_eq_none {es : List MergeEntry} (h : ∀ e ∈ es, e.anchor ≠ i) :
    es.find? (·.anchor = i) = none :=
  List.find?_eq_none.mpr fun e he => by simpa using h e he

theorem recordOf_planUpTo_add {m : Nat} (hi : i < m) (k : Nat) :
    recordOf (planUpTo nodes (m + k)) i = recordOf (planUpTo nodes m) i := by
  obtain ⟨l, hl, hm⟩ := planUpTo_add_mergeInfo nodes m k
  rw [recordOf, hl, List.find?_append,
    find?_anchor_eq_none fun e (he : e ∈ l) => by have := hm e he; omega, Option.or_none]
  rfl

theorem captionOf_record {st : PlanState} (hst : ∀ e ∈ st.mergeInfo, e.anchor < i)
    (cap foot : Option Nat) :
    captionOf (st.record i cap foot) i = cap ∧ footnoteOf (st.record i cap foot) i = foot := by
  have hnone := find?_anchor_eq_none fun e he => (hst e he).ne
  unfold captionOf footnoteOf recordOf PlanState.record
  split_ifs with h
  · simp [List.find?_append, hnone]
  · rw [not_or, Option.not_isSome_iff_eq_none, Option.not_isSome_iff_eq_none] at h
    simp [hnone, h]

/-- What the anchors before `i` took is what the first pass had taken when it reached `i`. -/
theorem takenBefore_planningPass (hi : i ≤ nodes.length) :
    takenBefore (planningPass nodes) i = (planUpTo nodes i).mergedIndices := by
  obtain ⟨l, hl, hm⟩ := planUpTo_add_mergeInfo nodes i (nodes.length - i)
  have h := planInv_planUpTo nodes i
  rw [takenBefore, planningPass, show nodes.length = i + (nodes.length - i) by omega, hl,
    List.filter_append, List.filter_eq_self.mpr fun e he => by simpa using h.anchor_lt e he,
    List.filter_eq_nil_iff.mpr fun e he => by simpa using hm e he, List.append_nil, h.merged_eq]

/-- The final plan keeps, for every anchor, what its own step found in the state it met. -/
theorem planningPass_replay {a : DocNode} (ha : nodes[i]? = some a)
    (hat : a.metadata.type ∈ anchorTypes) :
    captionOf (planningPass nodes) i =
        captionIdx nodes (takenBefore (planningPass nodes) i) a.metadata.type i ∧
      footnoteOf (planningPass nodes) i =
        footnoteIdx nodes (takenBefore (planningPass nodes) i) i (captionOf (planningPass nodes) i) := by
  have hi : i < nodes.length := (List.getElem?_eq_some_iff.mp ha).1
  have hrec : recordOf (planningPass nodes) i = recordOf (planUpTo nodes (i + 1)) i := by
    rw [planningPass, show nodes.length = i + 1 + (nodes.length - (i + 1)) by omega]
    exact recordOf_planUpTo_add (Nat.lt_succ_self i) _
  have hst := captionOf_record (planInv_planUpTo nodes i).anchor_lt
    (captionIdx nodes (planUpTo nodes i).mergedIndices a.metadata.type i)
    (footnoteIdx nodes (planUpTo nodes i).mergedIndices i
      (captionIdx nodes (planUpTo nodes i).mergedIndices a.metadata.type i))
  rw [← planStep_of_anchor ha hat, ← planUpTo_succ, captionOf, footnoteOf, ← hrec] at hst
  rw [takenBefore_planningPass hi.le, captionOf, footnoteOf, hst.1]
  exact ⟨rfl, hst.2⟩

/-- `chooseCaption` returns a candidate that scores at least as high as either. -/
theorem chooseCaption_best {p q : Option Nat} (hj : j ∈ p ∨ j ∈ q)
    (hpq : ∀ x ∈ p, ∀ y ∈ q, x < y) :
    ∃ c, chooseCaption nodes t p q = some c ∧
      (captionScore (typeConfig t) (contentAt nodes j) <
          captionScore (typeConfig t) (contentAt nodes c) ∨
        captionScore (typeConfig t) (contentAt nodes j) =
          captionScore (typeConfig t) (contentAt nodes c) ∧ c ≤ j) := by
  match p, q with
  | some p, some q =>
    have hlt := hpq p rfl q rfl
    simp only [Option.mem_def, Option.some.injEq] at hj
    simp only [chooseCaption]
    split_ifs with hs
    · refine ⟨p, rfl, ?_⟩
      rcases hj with rfl | rfl
      · exact .inr ⟨rfl, le_rfl⟩
      · exact (lt_or_eq_of_le hs).imp id fun h => ⟨h, hlt.le⟩
    · refine ⟨q, rfl, ?_⟩
      rcases hj with rfl | rfl
      · exact .inl (Nat.lt_of_not_le hs)
      · exact .inr ⟨rfl, le_rfl⟩
  | some p, none =>
    obtain rfl : p = j := by simpa using hj
    exact ⟨p, rfl, .inr ⟨rfl, le_rfl⟩⟩
  | none, q => exact ⟨j, by simpa using hj, .inr ⟨rfl, le_rfl⟩⟩

/-- An anchor beside a caption candidate no earlier anchor took gets a caption scoring at least
as high, the one before it on a tie. -/
theorem captionOf_planningPass_best (nodes : List DocNode) (i j : Nat) (a n : DocNode)
    (ha : nodes[i]? = some a) (hat : a.metadata.type ∈ anchorTypes)
    (hj : j + 1 = i ∨ j = i + 1) (hn : nodes[j]? = some n) (hnt : n.metadata.type = "text")
    (hcap : isCaption n a.metadata.type = true) (hfree : j ∉ takenBefore (planningPass nodes) i) :
    ∃ c, captionOf (planningPass nodes) i = some c ∧
      (captionScore (typeConfig a.metadata.type) (contentAt nodes j) <
          captionScore (typeConfig a.metadata.type) (contentAt nodes c) ∨
        captionScore (typeConfig a.metadata.type) (contentAt nodes j) =
          captionScore (typeConfig a.metadata.type) (contentAt nodes c) ∧ c ≤ j) := by
  have hcand : captionCandidate nodes (takenBefore (planningPass nodes) i) a.metadata.type j =
      some j := by
    simp [captionCandidate, hn, hnt, hfree, hcap]
  have hjl : j < nodes.length := (List.getElem?_eq_some_iff.mp hn).1
  rw [(planningPass_replay ha hat).1]
  refine chooseCaption_best ?_ ?_
  · rcases hj with rfl | rfl
    · exact .inl (by simp [hcand])
    · exact .inr (by simp [hjl, hcand])
  · intro x hx y hy
    have hx' : x + 1 = i := by
      split_ifs at hx
      · obtain ⟨rfl, -⟩ := captionCandidate_spec hx
        omega
      · simp at hx
    have hy' : y = i + 1 := by
      split_ifs at hy
      · exact (captionCandidate_spec hy).1
      · simp at hy
    omega

/-- Two equally scored caption candidates around an image. -/
def tiedCaptions : List DocNode :=
  [{ text := "Figure 1", metadata := { type := "text" } },
   { text := "", metadata := { type := "image", imagePath := "a.png" } },
   { text := "Figure 2", metadata := { type := "text" } }]

theorem captionOf_planningPass_best_tie :
    ∃ c, captionOf (planningPass tiedCaptions) 1 = some c ∧
      (captionScore (typeConfig "image") (contentAt tiedCaptions 2) <
          captionScore (typeConfig "image") (contentAt tiedCaptions c) ∨
        captionScore (typeConfig "image") (contentAt tiedCaptions 2) =
          captionScore (typeConfig "image") (contentAt tiedCaptions c) ∧ c ≤ 2) :=
  captionOf_planningPass_best tiedCaptions 1 2
    ⟨"", { type := "image", imagePath := "a.png" }⟩ ⟨"Figure 2", { type := "text" }⟩ rfl (by decide)
    (.inr rfl) rfl rfl (by decide) (by decide)

/-- The node at `checkStart` is the anchor's footnote when `_is_footnote` accepts it and no
earlier anchor took it. -/
theorem footnoteOf_planningPass (nodes : List DocNode) (i : Nat) (a f : DocNode)
    (ha : nodes[i]? = some a) (hat : a.metadata.type ∈ anchorTypes)
    (hf : nodes[checkStart i (captionOf (planningPass nodes) i)]? = some f)
    (hft : f.metadata.type = "text") (hfn : isFootnote f = true)
    (hfree : checkStart i (captionOf (planningPass nodes) i) ∉ takenBefore (planningPass nodes) i) :
    footnoteOf (planningPass nodes) i = some (checkStart i (captionOf (planningPass nodes) i)) := by
  have hlt := (List.getElem?_eq_some_iff.mp hf).1
  rw [(planningPass_replay ha hat).2, footnoteIdx, if_pos hlt]
  simp [footnoteCandidate, hf, hft, hfree, hfn]

/-- An image, its caption after it, and a note after the caption. -/
def figureThenNote : List DocNode :=
  [{ text := "", metadata := { type := "image", imagePath := "a.png" } },
   { text := "Figure 1", metadata := { type := "text" } },
   { text := "Note: in mm", metadata := { type := "text" } }]

theorem footnoteOf_planningPass_afterCaption :
    footnoteOf (planningPass figureThenNote) 0 =
      some (checkStart 0 (captionOf (planningPass figureThenNote) 0)) :=
  footnoteOf_planningPass figureThenNote 0 ⟨"", { type := "image", imagePath := "a.png" }⟩
    ⟨"Note: in mm", { type := "text" }⟩ rfl (by decide) (by decide) rfl (by decide) (by decide)

theorem mem_mergeInfo_of_captionOf {st : PlanState} {c : Nat} (h : captionOf st i = some c) :
    ∃ e ∈ st.mergeInfo, e.anchor = i ∧ e.caption = some c := by
  obtain ⟨e, he, hc⟩ := Option.bind_eq_some.mp h
  exact ⟨e, List.mem_of_find?_eq_some he, by simpa using List.find?_some he, hc⟩

theorem excluded_of_styleKeyword : ∀ t ∈ anchorTypes, ∀ t' ∈ anchorTypes, t' ≠ t →
    ∀ k ∈ (typeConfig t).styleKeywords, k ∉ ["caption", "题注"] →
      ∃ w ∈ (typeConfig t').styleExclude, strIn w k = true := by
  decide

/-- A caption whose style names one anchor type was taken by an anchor of that type. -/
theorem anchor_type_of_styled_caption (nodes : List DocNode) (i c : Nat) (a n : DocNode)
    (ha : nodes[i]? = some a) (hn : nodes[c]? = some n)
    (hc : captionOf (planningPass nodes) i = some c) (t : String) (ht : t ∈ anchorTypes)
    (k : String) (hk : k ∈ (typeConfig t).styleKeywords) (hshared : k ∉ ["caption", "题注"])
    (hs : strIn k (lower n.metadata.styleName) = true) : a.metadata.type = t := by
  obtain ⟨e, he, rfl, hec⟩ := mem_mergeInfo_of_captionOf hc
  obtain ⟨a', ha', hat, hcap⟩ := ((planInv_planningPass nodes).shape e he).anchor
  obtain ⟨n', hn', hcn⟩ := hcap c hec
  obtain rfl : a = a' := Option.some.inj (ha.symm.trans ha')
  obtain rfl : n = n' := Option.some.inj (hn.symm.trans hn')
  by_contra hne
  obtain ⟨w, hw, hwk⟩ := excluded_of_styleKeyword t ht _ hat hne k hk hshared
  rw [isCaption_eq_false_of_excluded hw (strIn_trans hwk hs)] at hcn
  exact Bool.false_ne_true hcn

/-- An image with a figure-styled caption after it. -/
def styledFigure : List DocNode :=
  [{ text := "", metadata := { type := "image", imagePath := "a.png" } },
   { text := "Source: survey", metadata := { type := "text", styleName := "Figure Caption" } }]

theorem anchor_type_of_styled_caption_figureCaption :
    captionOf (planningPass styledFigure) 0 = some 1 ∧
      (⟨"", { type := "image", imagePath := "a.png" }⟩ : DocNode).metadata.type = "image" :=
  ⟨by decide, anchor_type_of_styled_caption styledFigure 0 1 _
    ⟨"Source: survey", { type := "text", styleName := "Figure Caption" }⟩ rfl rfl (by decide)
    "image" (by decide) "figure" (by decide) (by decide) (by decide)⟩

end CaptionFootnoteParser

end RagParsers
