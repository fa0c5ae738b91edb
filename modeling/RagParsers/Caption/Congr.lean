import RagParsers.Caption.Parser

/-! What `CaptionFootnoteParser` reads of a node: the plan sees only texts, types and style names. -/

namespace RagParsers

namespace CaptionFootnoteParser

/-- Two nodes the first pass cannot tell apart. -/
def SamePlanView (a b : DocNode) : Prop :=
  a.text = b.text ∧ a.metadata.type = b.metadata.type ∧ a.metadata.styleName = b.metadata.styleName

/-- Two lists the first pass cannot tell apart. -/
structure PlanEquiv (xs ys : List DocNode) : Prop where
  length_eq : xs.length = ys.length
  view : ∀ (j : Nat) (a b : DocNode), xs[j]? = some a → ys[j]? = some b → SamePlanView a b

variable {xs ys : List DocNode} {merged : List Nat} {t : String} {i j : Nat}

theorem isCaption_congr {a b : DocNode} (h : SamePlanView a b) : isCaption a t = isCaption b t := by
  obtain ⟨h1, h2, h3⟩ := h
  simp only [isCaption, h1, h2, h3]

theorem isFootnote_congr {a b : DocNode} (h : SamePlanView a b) : isFootnote a = isFootnote b := by
  obtain ⟨h1, h2, h3⟩ := h
  simp only [isFootnote, h1, h2, h3]

theorem PlanEquiv.cases (h : PlanEquiv xs ys) (j : Nat) :
    (xs[j]? = none ∧ ys[j]? = none) ∨
      ∃ a b, xs[j]? = some a ∧ ys[j]? = some b ∧ SamePlanView a b := by
  by_cases hj : j < xs.length
  · have hx := List.getElem?_eq_getElem hj
    have hy := List.getElem?_eq_getElem (h.length_eq ▸ hj)
    exact .inr ⟨_, _, hx, hy, h.view j _ _ hx hy⟩
  · exact .inl ⟨List.getElem?_eq_none (Nat.le_of_not_lt hj),
      List.getElem?_eq_none (h.length_eq ▸ Nat.le_of_not_lt hj)⟩

theorem captionCandidate_congr (h : PlanEquiv xs ys) :
    captionCandidate xs merged t j = captionCandidate ys merged t j := by
  unfold captionCandidate
  rcases h.cases j with ⟨hx, hy⟩ | ⟨a, b, hx, hy, hab⟩
  · rw [hx, hy]
  · simp only [hx, hy, hab.2.1, isCaption_congr hab]

theorem footnoteCandidate_congr (h : PlanEquiv xs ys) :
    footnoteCandidate xs merged j = footnoteCandidate ys merged j := by
  unfold footnoteCandidate
  rcases h.cases j with ⟨hx, hy⟩ | ⟨a, b, hx, hy, hab⟩
  · rw [hx, hy]
  · simp only [hx, hy, hab.2.1, isFootnote_congr hab]

theorem contentAt_congr (h : PlanEquiv xs ys) : contentAt xs j = contentAt ys j := by
  unfold contentAt
  rcases h.cases j with ⟨hx, hy⟩ | ⟨a, b, hx, hy, hab⟩
  · rw [hx, hy]
  · simp only [hx, hy, hab.1]

theorem chooseCaption_congr (h : PlanEquiv xs ys) {p q : Option Nat} :
    chooseCaption xs t p q = chooseCaption ys t p q := by
  cases p <;> cases q <;> simp only [chooseCaption, contentAt_congr h]

theorem planStep_congr (h : PlanEquiv xs ys) : planStep xs = planStep ys := by
  funext st i
  unfold planStep
  rcases h.cases i with ⟨hx, hy⟩ | ⟨a, b, hx, hy, hab⟩
  · rw [hx, hy]
  · simp only [hx, hy, hab.2.1, captionIdx, footnoteIdx, h.length_eq, captionCandidate_congr h,
      footnoteCandidate_congr h, chooseCaption_congr h]

/-- Lists the first pass cannot tell apart get the same plan. -/
theorem planningPass_congr (h : PlanEquiv xs ys) : planningPass xs = planningPass ys := by
  rw [planningPass, planningPass, planUpTo, planUpTo, planStep_congr h, h.length_eq]

section Merge

variable (m : Metadata) (nodeType text : String) (saveImage : Bool) (b : DocNode)
  (c f : Option DocNode)

@[simp] theorem setCaption_textLevel : (setCaption m nodeType text).textLevel = m.textLevel := by
  unfold setCaption; split_ifs <;> rfl

@[simp] theorem setCaption_fileName : (setCaption m nodeType text).fileName = m.fileName := by
  unfold setCaption; split_ifs <;> rfl

@[simp] theorem setFootnote_textLevel : (setFootnote m nodeType text).textLevel = m.textLevel := by
  unfold setFootnote; split_ifs <;> rfl

@[simp] theorem setFootnote_fileName : (setFootnote m nodeType text).fileName = m.fileName := by
  unfold setFootnote; split_ifs <;> rfl

theorem setCaption_index (i : Option Int) :
    setCaption { m with index := i } nodeType text = { setCaption m nodeType text with index := i } := by
  unfold setCaption; split_ifs <;> rfl

theorem setFootnote_index (i : Option Int) :
    setFootnote { m with index := i } nodeType text = { setFootnote m nodeType text with index := i } := by
  unfold setFootnote; split_ifs <;> rfl

theorem setCaption_setTextLevel (l : Option Int) :
    setCaption { m with textLevel := l } nodeType text =
      { setCaption m nodeType text with textLevel := l } := by
  unfold setCaption; split_ifs <;> rfl

theorem setFootnote_setTextLevel (l : Option Int) :
    setFootnote { m with textLevel := l } nodeType text =
      { setFootnote m nodeType text with textLevel := l } := by
  unfold setFootnote; split_ifs <;> rfl

@[simp] theorem mergeCaptionFootnote_level :
    (mergeCaptionFootnote saveImage b c f).level = b.level := by
  unfold mergeCaptionFootnote DocNode.level; dsimp only; split_ifs <;> simp

@[simp] theorem mergeCaptionFootnote_fileName :
    (mergeCaptionFootnote saveImage b c f).metadata.fileName = b.metadata.fileName := by
  unfold mergeCaptionFootnote; dsimp only; split_ifs <;> simp

/-- `_merge_caption_footnote` never reads the index. -/
theorem mergeCaptionFootnote_setIndex (k : Nat) :
    mergeCaptionFootnote saveImage (b.setIndex k) c f = (mergeCaptionFootnote saveImage b c f).setIndex k := by
  by_cases hc : strippedText c = "" <;> by_cases hf : strippedText f = "" <;>
    simp only [mergeCaptionFootnote, hc, hf, ne_eq, not_true_eq_false, not_false_eq_true, if_true,
      if_false, DocNode.setIndex, setCaption_index, setFootnote_index]

/-- Nor the level: it copies it. -/
theorem mergeCaptionFootnote_setTextLevel (l : Int) :
    mergeCaptionFootnote saveImage (b.setTextLevel l) c f =
      (mergeCaptionFootnote saveImage b c f).setTextLevel l := by
  by_cases hc : strippedText c = "" <;> by_cases hf : strippedText f = "" <;>
    simp only [mergeCaptionFootnote, hc, hf, ne_eq, not_true_eq_false, not_false_eq_true, if_true,
      if_false, DocNode.setTextLevel, setCaption_setTextLevel, setFootnote_setTextLevel]

theorem strippedText_congr {c c' : Option DocNode} (h : c.map (·.text) = c'.map (·.text)) :
    strippedText c = strippedText c' := by
  cases c <;> cases c' <;>
    simp only [Option.map_none', Option.map_some', Option.some.injEq, reduceCtorEq] at h ⊢
  rw [strippedText_some, strippedText_some, h]

/-- Of the caption and the footnote it reads only the text. -/
theorem mergeCaptionFootnote_congr {c' f' : Option DocNode} (hc : c.map (·.text) = c'.map (·.text))
    (hf : f.map (·.text) = f'.map (·.text)) :
    mergeCaptionFootnote saveImage b c f = mergeCaptionFootnote saveImage b c' f' := by
  simp only [mergeCaptionFootnote, strippedText_congr hc, strippedText_congr hf]

end Merge

end CaptionFootnoteParser

end RagParsers
