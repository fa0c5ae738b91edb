import RagParsers.Caption.Output
import RagParsers.Caption.Choice

/-! Running `CaptionFootnoteParser` twice: nothing marks a merged anchor as done. -/

namespace RagParsers

namespace CaptionFootnoteParser

/-- The anchor at `i`, of type `t`, has no neighbour the first pass could take for it. -/
def NoCandidates (nodes : List DocNode) (i : Nat) (t : String) : Prop :=
  (∀ p, 0 < i → nodes[i - 1]? = some p → isCaption p t = false) ∧
  (∀ q, nodes[i + 1]? = some q → isCaption q t = false ∧ isFootnote q = false)

/-- No anchor has a neighbour the first pass could take. -/
def Settled (nodes : List DocNode) : Prop :=
  ∀ i a, nodes[i]? = some a → a.metadata.type ∈ anchorTypes → NoCandidates nodes i a.metadata.type

variable {nodes : List DocNode} {t : String} {i j k : Nat}

theorem PlanState.mergeInfo_prefix_record (st : PlanState) (i : Nat) (c f : Option Nat) :
    st.mergeInfo <+: (st.record i c f).mergeInfo := by
  unfold PlanState.record
  split_ifs
  · exact List.prefix_append _ _
  · exact List.prefix_refl _

theorem planStep_mergeInfo_prefix (st : PlanState) (i : Nat) :
    st.mergeInfo <+: (planStep nodes st i).mergeInfo := by
  unfold planStep
  split
  · exact List.prefix_refl _
  · dsimp only
    split_ifs
    · exact st.mergeInfo_prefix_record _ _ _
    · exact List.prefix_refl _

theorem captionCandidate_eq_none :
    captionCandidate nodes [] t j = none ↔ ∀ p, nodes[j]? = some p → isCaption p t = false := by
  unfold captionCandidate
  cases hj : nodes[j]? with
  | none => simp
  | some p =>
    simp only [Option.some.injEq, forall_eq', List.not_mem_nil, not_false_eq_true, true_and,
      ite_eq_right_iff, reduceCtorEq, imp_false, not_and, Bool.not_eq_true]
    exact ⟨fun h => Bool.eq_false_iff.mpr fun hc =>
      Bool.false_ne_true ((h (isCaption_spec hc).1).symm.trans hc), fun h _ => h⟩

theorem footnoteCandidate_eq_none :
    footnoteCandidate nodes [] j = none ↔ ∀ q, nodes[j]? = some q → isFootnote q = false := by
  unfold footnoteCandidate
  cases hj : nodes[j]? with
  | none => simp
  | some q =>
    simp only [Option.some.injEq, forall_eq', List.not_mem_nil, not_false_eq_true, true_and,
      ite_eq_right_iff, reduceCtorEq, imp_false, not_and, Bool.not_eq_true]
    exact ⟨fun h => Bool.eq_false_iff.mpr fun hf =>
      Bool.false_ne_true ((h (isFootnote_spec hf).1).symm.trans hf), fun h _ => h⟩

theorem chooseCaption_eq_none {p q : Option Nat} :
    chooseCaption nodes t p q = none ↔ p = none ∧ q = none := by
  match p, q with
  | some p, some q =>
    simp only [chooseCaption]
    split_ifs <;> simp
  | some p, none => simp [chooseCaption]
  | none, q => simp [chooseCaption]

theorem captionIdx_eq_none :
    captionIdx nodes [] t i = none ↔
      (∀ p, 0 < i → nodes[i - 1]? = some p → isCaption p t = false) ∧
      ∀ q, nodes[i + 1]? = some q → isCaption q t = false := by
  simp only [captionIdx, chooseCaption_eq_none]
  refine and_congr ?_ ?_
  · split_ifs with hi
    · rw [captionCandidate_eq_none]
      exact ⟨fun h p _ => h p, fun h p => h p hi⟩
    · exact ⟨fun _ p hi' => absurd hi' hi, fun _ => rfl⟩
  · split_ifs with hi
    · exact captionCandidate_eq_none
    · simp [List.getElem?_eq_none (Nat.le_of_not_lt hi)]

theorem footnoteIdx_none_eq_none :
    footnoteIdx nodes [] i none = none ↔ ∀ q, nodes[i + 1]? = some q → isFootnote q = false := by
  simp only [footnoteIdx, checkStart]
  split_ifs with hi
  · exact footnoteCandidate_eq_none
  · simp [List.getElem?_eq_none (Nat.le_of_not_lt hi)]

theorem record_empty_mergeInfo {c f : Option Nat} :
    (PlanState.record ⟨[], []⟩ i c f).mergeInfo = [] ↔ c = none ∧ f = none := by
  cases c <;> cases f <;> simp [PlanState.record]

/-- With nothing taken yet, a step records nothing unless it is at an anchor with a candidate. -/
theorem planStep_empty_eq_nil :
    (planStep nodes ⟨[], []⟩ i).mergeInfo = [] ↔
      ∀ a, nodes[i]? = some a → a.metadata.type ∈ anchorTypes →
        NoCandidates nodes i a.metadata.type := by
  unfold planStep
  cases ha : nodes[i]? with
  | none => simp
  | some a =>
    by_cases hat : a.metadata.type ∈ anchorTypes
    · simp only [hat, not_true_eq_false, if_false, record_empty_mergeInfo, Option.some.injEq,
        forall_eq', forall_const, NoCandidates, imp_and, forall_and]
      rw [← and_assoc, ← captionIdx_eq_none, ← footnoteIdx_none_eq_none]
      exact and_congr_right fun h => h ▸ Iff.rfl
    · simp [hat]

theorem PlanInv.eq_empty {st : PlanState} (h : PlanInv nodes k st) (hm : st.mergeInfo = []) :
    st = ⟨[], []⟩ := by
  have hi := h.merged_eq
  rw [hm, List.flatMap_nil] at hi
  cases st
  simp_all

theorem PlanInv.mergeInfo_eq_nil {st : PlanState} (h : PlanInv nodes k st)
    (hm : st.mergedIndices = []) : st.mergeInfo = [] := by
  rw [h.merged_eq, List.flatMap_eq_nil_iff] at hm
  exact List.eq_nil_iff_forall_not_mem.mpr fun e he => (h.shape e he).roles_ne (hm e he)

theorem mergeInfo_planUpTo_eq_nil :
    (planUpTo nodes k).mergeInfo = [] ↔ ∀ i < k, ∀ a, nodes[i]? = some a →
      a.metadata.type ∈ anchorTypes → NoCandidates nodes i a.metadata.type := by
  induction k with
  | zero => simp [planUpTo]
  | succ k ih =>
    have hempty := fun h => (planInv_planUpTo nodes k).eq_empty h
    rw [planUpTo_succ]
    constructor
    · intro h
      have hk : (planUpTo nodes k).mergeInfo = [] :=
        List.prefix_nil.mp (h ▸ planStep_mergeInfo_prefix _ k)
      rw [hempty hk] at h
      intro i hi
      rcases Nat.lt_succ_iff_lt_or_eq.mp hi with hi | rfl
      · exact ih.mp hk i hi
      · exact planStep_empty_eq_nil.mp h
    · intro h
      rw [hempty (ih.mpr fun i hi => h i (Nat.lt_succ_of_lt hi))]
      exact planStep_empty_eq_nil.mpr (h k (Nat.lt_succ_self k))

/-- The first pass records nothing exactly when no anchor has a candidate neighbour. -/
theorem mergeInfo_planningPass_eq_nil : (planningPass nodes).mergeInfo = [] ↔ Settled nodes := by
  rw [planningPass, mergeInfo_planUpTo_eq_nil]
  exact ⟨fun h i a ha => h i (List.getElem?_eq_some_iff.mp ha).1 a ha, fun h i _ => h i⟩

theorem emitted_empty (saveImage : Bool) (nodes : List DocNode) (i : Nat) :
    emitted saveImage nodes ⟨[], []⟩ i = id := rfl

theorem emittedNodes_empty (saveImage : Bool) (nodes : List DocNode) :
    emittedNodes saveImage nodes ⟨[], []⟩ = nodes := by
  refine List.ext_getElem? fun k => ?_
  rw [emittedNodes, getElem?_filterMap_of_isSome fun i hi => isSome_getElem?_range hi _]
  by_cases hk : k < nodes.length
  · simp [List.getElem?_range hk, emitted_empty]
  · have hr : (List.range nodes.length)[k]? = none :=
      List.getElem?_eq_none (by simpa using Nat.le_of_not_lt hk)
    simp [hr, List.getElem?_eq_none (Nat.le_of_not_lt hk)]

/-- When no anchor has a candidate neighbour, `_parse_nodes` only numbers the nodes. -/
theorem parseNodes_of_settled (saveImage : Bool) (hs : Settled nodes) :
    parseNodes saveImage nodes = resetNodeIndex nodes := by
  rw [parseNodes_eq, (planInv_planningPass nodes).eq_empty (mergeInfo_planningPass_eq_nil.mpr hs),
    emittedNodes_empty]

theorem settled_of_length_parseNodes (saveImage : Bool)
    (h : (parseNodes saveImage nodes).length = nodes.length) : Settled nodes := by
  rcases Nat.eq_zero_or_pos nodes.length with hnil | hpos
  · intro i a ha
    simp [List.eq_nil_of_length_eq_zero hnil] at ha
  · have hlen := length_parseNodes saveImage nodes
    exact mergeInfo_planningPass_eq_nil.mp
      ((planInv_planningPass nodes).mergeInfo_eq_nil (List.eq_nil_of_length_eq_zero (by omega)))

/-- On numbered nodes, `_parse_nodes` changes nothing exactly when no anchor has a candidate. -/
theorem parseNodes_eq_self_iff (saveImage : Bool)
    (hidx : ∀ (k : Nat) (b : DocNode), nodes[k]? = some b → b.metadata.index = some (k : Int)) :
    parseNodes saveImage nodes = nodes ↔ Settled nodes :=
  ⟨fun heq => settled_of_length_parseNodes saveImage (congrArg List.length heq), fun hs => by
    rw [parseNodes_of_settled saveImage hs, resetNodeIndex_of_indexed hidx]⟩

/-- `_parse_nodes` only numbers the nodes exactly when no anchor has a candidate neighbour. -/
theorem parseNodes_eq_resetNodeIndex_iff (saveImage : Bool) (nodes : List DocNode) :
    parseNodes saveImage nodes = resetNodeIndex nodes ↔ Settled nodes :=
  ⟨fun heq => settled_of_length_parseNodes saveImage (by rw [heq, length_resetNodeIndex]),
    parseNodes_of_settled saveImage⟩

/-- A second run changes nothing exactly when no anchor of the first output has a candidate. -/
theorem parseNodes_idempotent_iff (saveImage : Bool) (nodes : List DocNode) :
    parseNodes saveImage (parseNodes saveImage nodes) = parseNodes saveImage nodes ↔
      Settled (parseNodes saveImage nodes) :=
  parseNodes_eq_self_iff saveImage fun _ _ => index_parseNodes

/-- Of two tied caption candidates, the first run takes the one before, the second the other. -/
theorem parseNodes_rerun_tiedCaptions :
    (parseNodes true tiedCaptions).map (·.text) = ["![Figure 1](a.png)", "Figure 2"] ∧
    (parseNodes true (parseNodes true tiedCaptions)).map (·.text) = ["![Figure 2](a.png)"] ∧
    parseNodes true (parseNodes true tiedCaptions) ≠ parseNodes true tiedCaptions := by
  decide

end CaptionFootnoteParser

end RagParsers
