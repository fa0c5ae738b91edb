import RagParsers.Caption.Output

/-! Parsing a document in parts: no step reaches across a node that is no anchor and no caption,
and the plan of the whole is the plans of the parts. -/

namespace RagParsers

namespace CaptionFootnoteParser

/-- An entry of a plan made on the nodes after the first `d`, read in the whole list. -/
def MergeEntry.shift (d : Nat) (e : MergeEntry) : MergeEntry :=
  ⟨d + e.anchor, e.caption.map (d + ·), e.footnote.map (d + ·)⟩

/-- The plan of the first `d` nodes followed by a plan of the rest, moved by `d`. -/
def PlanState.join (a b : PlanState) (d : Nat) : PlanState :=
  ⟨a.mergeInfo ++ b.mergeInfo.map (·.shift d), a.mergedIndices ++ b.mergedIndices.map (d + ·)⟩

@[simp] theorem PlanState.join_empty (a : PlanState) (d : Nat) : a.join ⟨[], []⟩ d = a := by
  simp [PlanState.join]

variable {xs ys : List DocNode} {merged : List Nat} {t : String} {i j : Nat}

section Left

theorem captionCandidate_append_left (h : j < xs.length) :
    captionCandidate (xs ++ ys) merged t j = captionCandidate xs merged t j := by
  simp only [captionCandidate, List.getElem?_append_left h]

theorem footnoteCandidate_append_left (h : j < xs.length) :
    footnoteCandidate (xs ++ ys) merged j = footnoteCandidate xs merged j := by
  simp only [footnoteCandidate, List.getElem?_append_left h]

theorem contentAt_append_left (h : j < xs.length) : contentAt (xs ++ ys) j = contentAt xs j := by
  simp only [contentAt, List.getElem?_append_left h]

theorem captionCandidate_lt {nodes : List DocNode} {c : Nat}
    (h : captionCandidate nodes merged t j = some c) : c < nodes.length := by
  obtain ⟨rfl, -, n, hn, -⟩ := captionCandidate_spec h
  exact (List.getElem?_eq_some_iff.mp hn).1

theorem chooseCaption_append_left {p q : Option Nat} (hp : ∀ a ∈ p, a < xs.length)
    (hq : ∀ a ∈ q, a < xs.length) : chooseCaption (xs ++ ys) t p q = chooseCaption xs t p q := by
  match p, q with
  | some p, some q =>
    simp only [chooseCaption, contentAt_append_left (hp p rfl), contentAt_append_left (hq q rfl)]
  | some _, none => rfl
  | none, _ => rfl

theorem captionIdx_append_left (h : i + 1 < xs.length) :
    captionIdx (xs ++ ys) merged t i = captionIdx xs merged t i := by
  have hlen : i + 1 < (xs ++ ys).length := by rw [List.length_append]; omega
  unfold captionIdx
  simp only [if_pos h, if_pos hlen, captionCandidate_append_left h,
    captionCandidate_append_left (show i - 1 < xs.length by omega)]
  refine chooseCaption_append_left (fun a ha => ?_) (fun a ha => captionCandidate_lt ha)
  split_ifs at ha
  · exact captionCandidate_lt ha
  · cases ha

theorem footnoteIdx_append_left {cap : Option Nat} (h : checkStart i cap < xs.length) :
    footnoteIdx (xs ++ ys) merged i cap = footnoteIdx xs merged i cap := by
  have hlen : checkStart i cap < (xs ++ ys).length := by rw [List.length_append]; omega
  simp only [footnoteIdx, if_pos h, if_pos hlen, footnoteCandidate_append_left h]

variable {b : DocNode} (hlast : xs[xs.length - 1]? = some b) (hba : b.metadata.type ∉ anchorTypes)
  (hbc : ∀ t ∈ anchorTypes, isCaption b t = false)
include hlast hba hbc

/-- Before the cut, the whole list and its first part make the same steps. -/
theorem planStep_append_left (st : PlanState) (hi : i < xs.length) :
    planStep (xs ++ ys) st i = planStep xs st i := by
  unfold planStep
  rw [List.getElem?_append_left hi]
  rcases hn : xs[i]? with _ | node
  · rfl
  dsimp only
  split_ifs with hat
  swap
  · rfl
  have hi1 : i + 1 < xs.length := by
    refine lt_of_le_of_ne hi fun h => ?_
    rw [show i = xs.length - 1 by omega, hlast, Option.some.injEq] at hn
    exact hba (hn ▸ hat)
  have hcs : checkStart i (captionIdx xs st.mergedIndices node.metadata.type i) < xs.length := by
    cases hc : captionIdx xs st.mergedIndices node.metadata.type i with
    | none => simpa [checkStart] using hi1
    | some c =>
      obtain ⟨hpos, -, n, hn', hcap⟩ := captionIdx_spec hc
      have hne : c ≠ xs.length - 1 := fun e => by
        rw [e, hlast, Option.some.injEq] at hn'
        subst hn'
        exact Bool.false_ne_true ((hbc _ hat).symm.trans hcap)
      have := (List.getElem?_eq_some_iff.mp hn').1
      simp only [checkStart]
      split_ifs <;> omega
  rw [captionIdx_append_left hi1, footnoteIdx_append_left hcs]

theorem planUpTo_append_left : ∀ {k : Nat}, k ≤ xs.length → planUpTo (xs ++ ys) k = planUpTo xs k
  | 0, _ => rfl
  | k + 1, hk => by
    rw [planUpTo_succ, planUpTo_succ, planUpTo_append_left (by omega),
      planStep_append_left hlast hba hbc _ (by omega)]

end Left

section Right

variable {A S : PlanState} (hA : ∀ m ∈ A.mergedIndices, m < xs.length)
include hA

theorem mem_join_shift :
    xs.length + j ∈ (A.join S xs.length).mergedIndices ↔ j ∈ S.mergedIndices := by
  simp only [PlanState.join, List.mem_append, List.mem_map, Nat.add_left_cancel_iff,
    exists_eq_right]
  exact ⟨fun h => h.resolve_left fun hm => by have := hA _ hm; omega, .inr⟩

theorem captionCandidate_append_right :
    captionCandidate (xs ++ ys) (A.join S xs.length).mergedIndices t (xs.length + j) =
      (captionCandidate ys S.mergedIndices t j).map (xs.length + ·) := by
  unfold captionCandidate
  rw [List.getElem?_append_right (by omega), Nat.add_sub_cancel_left]
  cases ys[j]? with
  | none => rfl
  | some n => simp only [mem_join_shift hA]; split_ifs <;> rfl

theorem footnoteCandidate_append_right :
    footnoteCandidate (xs ++ ys) (A.join S xs.length).mergedIndices (xs.length + j) =
      (footnoteCandidate ys S.mergedIndices j).map (xs.length + ·) := by
  unfold footnoteCandidate
  rw [List.getElem?_append_right (by omega), Nat.add_sub_cancel_left]
  cases ys[j]? with
  | none => rfl
  | some n => simp only [mem_join_shift hA]; split_ifs <;> rfl

omit hA in
theorem contentAt_append_right : contentAt (xs ++ ys) (xs.length + j) = contentAt ys j := by
  simp only [contentAt, List.getElem?_append_right (Nat.le_add_right _ _), Nat.add_sub_cancel_left]

omit hA in
theorem chooseCaption_append_right {p q : Option Nat} :
    chooseCaption (xs ++ ys) t (p.map (xs.length + ·)) (q.map (xs.length + ·)) =
      (chooseCaption ys t p q).map (xs.length + ·) := by
  match p, q with
  | some p, some q =>
    simp only [chooseCaption, Option.map_some', contentAt_append_right]
    split_ifs <;> rfl
  | some _, none => rfl
  | none, _ => rfl

omit hA in
theorem checkStart_shift {cap : Option Nat} (d : Nat) :
    checkStart (d + j) (cap.map (d + ·)) = d + checkStart j cap := by
  cases cap with
  | none => simp only [checkStart, Option.map_none']; omega
  | some c => simp only [checkStart, Option.map_some']; split_ifs <;> omega

theorem footnoteIdx_append_right {cap : Option Nat} :
    footnoteIdx (xs ++ ys) (A.join S xs.length).mergedIndices (xs.length + j)
        (cap.map (xs.length + ·)) =
      (footnoteIdx ys S.mergedIndices j cap).map (xs.length + ·) := by
  unfold footnoteIdx
  rw [checkStart_shift, List.length_append, footnoteCandidate_append_right hA]
  by_cases h : checkStart j cap < ys.length
  · rw [if_pos (by omega), if_pos h]
  · rw [if_neg (by omega), if_neg h]; rfl

omit hA in
theorem record_join {cap foot : Option Nat} (d : Nat) :
    (A.join S d).record (d + j) (cap.map (d + ·)) (foot.map (d + ·)) = A.join (S.record j cap foot) d := by
  cases cap <;> cases foot <;> simp [PlanState.record, PlanState.join, MergeEntry.shift]

variable {b : DocNode} (hlast : xs[xs.length - 1]? = some b)
  (hbc : ∀ t ∈ anchorTypes, isCaption b t = false) (hL : 0 < xs.length)
include hlast hbc hL

theorem captionIdx_append_right (ht : t ∈ anchorTypes) :
    captionIdx (xs ++ ys) (A.join S xs.length).mergedIndices t (xs.length + j) =
      (captionIdx ys S.mergedIndices t j).map (xs.length + ·) := by
  unfold captionIdx
  have hprev : (if xs.length + j > 0 then captionCandidate (xs ++ ys)
      (A.join S xs.length).mergedIndices t (xs.length + j - 1) else none) =
      (if j > 0 then captionCandidate ys S.mergedIndices t (j - 1) else none).map
        (xs.length + ·) := by
    rw [if_pos (by omega)]
    cases j with
    | zero =>
      simp only [captionCandidate, Nat.add_zero, List.getElem?_append_left (by omega : xs.length - 1 < xs.length),
        hlast, hbc t ht, Bool.false_eq_true, and_false, if_false, lt_irrefl, Option.map_none']
    | succ j =>
      rw [if_pos (Nat.succ_pos j), Nat.add_succ_sub_one, Nat.add_sub_cancel,
        captionCandidate_append_right hA]
  have hnext : (if xs.length + j + 1 < (xs ++ ys).length then captionCandidate (xs ++ ys)
      (A.join S xs.length).mergedIndices t (xs.length + j + 1) else none) =
      (if j + 1 < ys.length then captionCandidate ys S.mergedIndices t (j + 1) else none).map
        (xs.length + ·) := by
    rw [List.length_append, Nat.add_assoc, captionCandidate_append_right hA]
    by_cases h : j + 1 < ys.length
    · rw [if_pos (by omega), if_pos h]
    · rw [if_neg (by omega), if_neg h]; rfl
  simp only [hprev, hnext, chooseCaption_append_right]

/-- After the cut, a step of the whole list is the step of the second part, moved. -/
theorem planStep_append_right (j : Nat) :
    planStep (xs ++ ys) (A.join S xs.length) (xs.length + j) = A.join (planStep ys S j) xs.length := by
  unfold planStep
  rw [List.getElem?_append_right (by omega), Nat.add_sub_cancel_left]
  rcases ys[j]? with _ | node
  · rfl
  dsimp only
  split_ifs with hat
  · rw [captionIdx_append_right hA hlast hbc hL hat, footnoteIdx_append_right hA, record_join]
  · rfl

end Right

theorem lt_of_mem_planningPass {m : Nat} (hm : m ∈ (planningPass xs).mergedIndices) :
    m < xs.length := by
  obtain ⟨n, hn, -⟩ := (planInv_planningPass xs).mem_merged hm
  exact (List.getElem?_eq_some_iff.mp hn).1

section Run

variable {b : DocNode} (hlast : xs[xs.length - 1]? = some b)
  (hba : b.metadata.type ∉ anchorTypes) (hbc : ∀ t ∈ anchorTypes, isCaption b t = false)
  (hL : 0 < xs.length)
include hlast hba hbc hL

theorem planUpTo_append : ∀ k : Nat,
    planUpTo (xs ++ ys) (xs.length + k) = (planningPass xs).join (planUpTo ys k) xs.length
  | 0 => by rw [Nat.add_zero, planUpTo_append_left hlast hba hbc le_rfl]; exact (PlanState.join_empty _ _).symm
  | k + 1 => by
    rw [← Nat.add_assoc, planUpTo_succ, planUpTo_append k,
      planStep_append_right (fun m hm => lt_of_mem_planningPass hm) hlast hbc hL, ← planUpTo_succ]

/-- The plan of the whole is the first part's plan, then the second's moved past the first. -/
theorem planningPass_append :
    planningPass (xs ++ ys) = (planningPass xs).join (planningPass ys) xs.length := by
  rw [planningPass, List.length_append, planUpTo_append hlast hba hbc hL]
  rfl

end Run

section Emit

variable (saveImage : Bool) {A B : PlanState}

theorem bind_getElem?_append_left {o : Option Nat} (h : ∀ c ∈ o, c < xs.length) :
    o.bind ((xs ++ ys)[·]?) = o.bind (xs[·]?) := by
  cases o with
  | none => rfl
  | some c => exact List.getElem?_append_left (h c rfl)

theorem bind_getElem?_append_right {o : Option Nat} :
    (o.map (xs.length + ·)).bind ((xs ++ ys)[·]?) = o.bind (ys[·]?) := by
  cases o with
  | none => rfl
  | some c =>
    show (xs ++ ys)[xs.length + c]? = ys[c]?
    rw [List.getElem?_append_right (Nat.le_add_right _ _), Nat.add_sub_cancel_left]

theorem mem_join_left (hi : i < xs.length) :
    i ∈ (A.join B xs.length).mergedIndices ↔ i ∈ A.mergedIndices := by
  simp only [PlanState.join, List.mem_append, List.mem_map]
  exact ⟨fun h => h.resolve_right fun ⟨a, _, ha⟩ => by omega, .inl⟩

theorem emitted_append_left (hA : ∀ e ∈ A.mergeInfo, (∀ c ∈ e.caption, c < xs.length) ∧
      ∀ f ∈ e.footnote, f < xs.length) (hi : i < xs.length) (node : DocNode) :
    emitted saveImage (xs ++ ys) (A.join B xs.length) i node = emitted saveImage xs A i node := by
  have hB : (B.mergeInfo.map (·.shift xs.length)).find? (·.anchor = i) = none :=
    List.find?_eq_none.mpr fun e he => by
      obtain ⟨e', -, rfl⟩ := List.mem_map.mp he
      simp only [MergeEntry.shift, decide_eq_true_eq]
      omega
  unfold emitted
  simp only [PlanState.join, List.find?_append, hB, Option.or_none]
  cases hf : A.mergeInfo.find? (·.anchor = i) with
  | none => rfl
  | some e =>
    obtain ⟨hc, hfo⟩ := hA e (List.mem_of_find?_eq_some hf)
    simp only [bind_getElem?_append_left hc, bind_getElem?_append_left hfo]

theorem emitted_append_right (hA : ∀ e ∈ A.mergeInfo, e.anchor < xs.length) (j : Nat)
    (node : DocNode) :
    emitted saveImage (xs ++ ys) (A.join B xs.length) (xs.length + j) node =
      emitted saveImage ys B j node := by
  have hA' : A.mergeInfo.find? (·.anchor = xs.length + j) = none :=
    List.find?_eq_none.mpr fun e he => by
      have := hA e he
      simp only [decide_eq_true_eq]
      omega
  have hp : ((fun e : MergeEntry => decide (e.anchor = xs.length + j)) ∘ MergeEntry.shift xs.length) =
      fun e => decide (e.anchor = j) := by
    funext e
    simp [MergeEntry.shift]
  unfold emitted
  simp only [PlanState.join, List.find?_append, hA', Option.none_or, List.find?_map, hp]
  cases B.mergeInfo.find? (·.anchor = j) with
  | none => rfl
  | some e => simp only [Option.map_some', MergeEntry.shift, bind_getElem?_append_right]

/-- The second pass over the whole emits what it emits over each part. -/
theorem emittedNodes_append (hAm : ∀ m ∈ A.mergedIndices, m < xs.length)
    (hA : ∀ e ∈ A.mergeInfo, e.anchor < xs.length ∧ (∀ c ∈ e.caption, c < xs.length) ∧
      ∀ f ∈ e.footnote, f < xs.length) :
    emittedNodes saveImage (xs ++ ys) (A.join B xs.length) =
      emittedNodes saveImage xs A ++ emittedNodes saveImage ys B := by
  have hleft : (List.range xs.length).filter (· ∉ (A.join B xs.length).mergedIndices) =
      (List.range xs.length).filter (· ∉ A.mergedIndices) :=
    List.filter_congr fun i hi => by simp only [mem_join_left (List.mem_range.mp hi)]
  have hright : (List.range ys.length).filter
      ((· ∉ (A.join B xs.length).mergedIndices) ∘ (xs.length + ·)) =
      (List.range ys.length).filter (· ∉ B.mergedIndices) :=
    List.filter_congr fun j _ => by simp only [Function.comp_apply, mem_join_shift hAm]
  unfold emittedNodes
  rw [List.length_append, List.range_add, List.filter_append, List.filterMap_append,
    List.filter_map, List.filterMap_map, hleft, hright]
  congr 1
  · refine List.filterMap_congr fun i hi => ?_
    have hi := List.mem_range.mp (List.mem_filter.mp hi).1
    rw [List.getElem?_append_left hi]
    cases xs[i]? with
    | none => rfl
    | some n =>
      simp only [Option.map_some', emitted_append_left saveImage (fun e he => (hA e he).2) hi]
  · refine List.filterMap_congr fun j _ => ?_
    simp only [Function.comp_apply]
    rw [List.getElem?_append_right (Nat.le_add_right _ _), Nat.add_sub_cancel_left]
    cases ys[j]? with
    | none => rfl
    | some n =>
      simp only [Option.map_some', emitted_append_right saveImage (fun e he => (hA e he).1)]

end Emit

theorem PlanInv.lt_of_mem_roles {nodes : List DocNode} {k : Nat} {st : PlanState}
    (h : PlanInv nodes k st) {e : MergeEntry} (he : e ∈ st.mergeInfo) :
    (∀ c ∈ e.caption, c < nodes.length) ∧ ∀ f ∈ e.footnote, f < nodes.length := by
  have hlt : ∀ c ∈ e.roles, c < nodes.length := fun c hc => by
    obtain ⟨n, hn, -⟩ := h.mem_merged (h.merged_eq ▸ List.mem_flatMap.mpr ⟨e, he, hc⟩)
    exact (List.getElem?_eq_some_iff.mp hn).1
  exact ⟨fun c hc => hlt c (List.mem_append_left _ (Option.mem_toList.mpr hc)),
    fun f hf => hlt f (List.mem_append_right _ (Option.mem_toList.mpr hf))⟩

/-- A node that is no anchor and no caption of any type cuts the input: the parser run on the
two parts gives the run on the whole, numbered through. -/
theorem parseNodes_append (saveImage : Bool) (xs ys : List DocNode) (b : DocNode)
    (hb : xs.getLast? = some b) (hba : b.metadata.type ∉ anchorTypes)
    (hbc : ∀ t ∈ anchorTypes, isCaption b t = false) :
    parseNodes saveImage (xs ++ ys) =
      resetNodeIndex (parseNodes saveImage xs ++ parseNodes saveImage ys) := by
  have hlast : xs[xs.length - 1]? = some b := List.getLast?_eq_getElem? xs ▸ hb
  have hL : 0 < xs.length := List.length_pos.mpr fun h => by simp [h] at hb
  have h := planInv_planningPass xs
  rw [parseNodes_eq, parseNodes_eq, parseNodes_eq, resetNodeIndex_append_resetNodeIndex,
    planningPass_append hlast hba hbc hL,
    emittedNodes_append saveImage (fun m hm => lt_of_mem_planningPass hm)
      fun e he => ⟨h.anchor_lt e he, h.lt_of_mem_roles he⟩]

/-- A page with a captioned image, ending in a paragraph. -/
def figurePage : List DocNode :=
  [{ text := "Figure 1", metadata := { type := "text" } },
   { text := "", metadata := { type := "image", imagePath := "a.png" } },
   { text := "Body", metadata := { type := "text" } }]

/-- A page with a table and its note. -/
def tablePage : List DocNode :=
  [{ text := "| a |", metadata := { type := "table" } },
   { text := "注：单位 mm", metadata := { type := "text" } }]

theorem parseNodes_append_pages :
    parseNodes true (figurePage ++ tablePage) =
      resetNodeIndex (parseNodes true figurePage ++ parseNodes true tablePage) :=
  parseNodes_append true figurePage tablePage ⟨"Body", { type := "text" }⟩ rfl (by decide)
    (by decide)

end CaptionFootnoteParser

end RagParsers
