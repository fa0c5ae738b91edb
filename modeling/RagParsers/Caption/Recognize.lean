import RagParsers.Caption.Config
import RagParsers.Caption.Plan

/-! `_is_caption` and `_is_footnote` search their patterns anywhere in the stripped text, the
labels in any case. Read back from the matcher, the patterns find nothing but such a label or a
footnote marker, so the two tests accept exactly the shapes `CaptionLike` and `FootnoteLike`. -/

namespace RagParsers

section Reading

variable {ic : Bool} {n : Nat} {t : List Char}

/-- Under `re.IGNORECASE` a literal string reads every text that folds to the same characters. -/
theorem mem_run_lits_of_caseFold :
    ∀ {l lab : List Char}, lab.map caseFold = l.map caseFold →
      t ∈ (Re.seqs (l.map .lit)).run true n (lab ++ t)
  | [], lab, h => by
    rw [List.map_eq_nil_iff.mp h]
    exact List.mem_singleton_self t
  | c :: cs, d :: lab, h => by
    obtain ⟨hd, hlab⟩ := List.cons.inj h
    exact mem_run_seqs_cons_of (mem_charStep.mpr ⟨d, rfl, by simp [ClassItem.test, hd]⟩)
      (mem_run_lits_of_caseFold hlab)
  | _ :: _, [], h => nomatch h

theorem mem_run_str_of_caseFold {l : String} {lab : List Char}
    (h : lab.map caseFold = l.data.map caseFold) : t ∈ (Re.str l).run true n (lab ++ t) :=
  mem_run_lits_of_caseFold h

end Reading

namespace CaptionFootnoteParser

/-- The text holds, somewhere, `label` in any case, then blanks and a decimal digit. -/
def HoldsNumberedLabel (label : String) (s : List Char) : Prop :=
  ∃ pre lab w dg rest, s = pre ++ (lab ++ (w ++ dg :: rest)) ∧
    lab.map caseFold = label.data.map caseFold ∧ (∀ c ∈ w, isSpace c = true) ∧ isDecimal dg = true

/-- The text holds, somewhere, `label` in any case, then blanks and a colon. -/
def HoldsNoteLabel (label : String) (s : List Char) : Prop :=
  ∃ pre lab w colon rest, s = pre ++ (lab ++ (w ++ colon :: rest)) ∧
    lab.map caseFold = label.data.map caseFold ∧ (∀ c ∈ w, isSpace c = true) ∧ colon ∈ ['：', ':']

/-- The text holds, somewhere, one of `*★☆※`, a circled number up to ⑩, or digits in square or
round brackets. -/
def HoldsMarker (s : List Char) : Prop :=
  ∃ pre mk rest, s = pre ++ (mk ++ rest) ∧
    ((∃ c, mk = [c] ∧ (c ∈ "*★☆※".data ∨ c ∈ "①②③④⑤⑥⑦⑧⑨⑩".data)) ∨
      ∃ ds, ds ≠ [] ∧ (∀ c ∈ ds, isDecimal c = true) ∧
        (mk = '[' :: (ds ++ [']']) ∨ mk = '(' :: (ds ++ [')'])))

/-- What `_is_caption` accepts for the type `t`, said without the patterns. -/
def CaptionLike (t : String) (b : DocNode) : Prop :=
  b.metadata.type = "text" ∧ strip b.text ≠ "" ∧
    (typeConfig t).styleExclude.any (strIn · (lower b.metadata.styleName)) = false ∧
    ((typeConfig t).styleKeywords.any (strIn · (lower b.metadata.styleName)) = true ∨
      ∃ label, captionPattern label ∈ (typeConfig t).patterns ∧
        HoldsNumberedLabel label (strip b.text).data)

/-- What `_is_footnote` accepts, said without the patterns. -/
def FootnoteLike (b : DocNode) : Prop :=
  b.metadata.type = "text" ∧ strip b.text ≠ "" ∧
    (footnoteStyleKeywords.any (strIn · (lower b.metadata.styleName)) = true ∨
      (∃ label ∈ ["注", "Note", "说明"], HoldsNoteLabel label (strip b.text).data) ∨
        HoldsMarker (strip b.text).data)

theorem strip_ne_empty {b : DocNode} {pre u : List Char} (hs : (strip b.text).data = pre ++ u)
    (hu : u ≠ []) : strip b.text ≠ "" := fun h => by
  rw [h] at hs
  exact hu (List.append_eq_nil.mp hs.symm).2

theorem mem_run_captionPattern {label : String} {lab w rest : List Char} {dg : Char}
    (hlab : lab.map caseFold = label.data.map caseFold) (hw : ∀ c ∈ w, isSpace c = true)
    (hdg : isDecimal dg = true) :
    rest ∈ (captionPattern label).run true n (lab ++ (w ++ dg :: rest)) :=
  mem_run_seqs_cons_of (mem_run_str_of_caseFold hlab)
    <| mem_run_seqs_cons_of (mem_run_rep_of_charStep run_space hw (Nat.zero_le _) (by simp))
    <| mem_run_seqs_cons_of (mem_run_plus_digit (List.cons_ne_nil dg []) (by simpa using hdg))
      mem_run_rep_zero

theorem mem_run_notePattern {label : String} {lab w rest : List Char} {colon : Char}
    (hlab : lab.map caseFold = label.data.map caseFold) (hw : ∀ c ∈ w, isSpace c = true)
    (hcolon : colon ∈ ['：', ':']) :
    rest ∈ (notePattern label).run true n (lab ++ (w ++ colon :: rest)) := by
  have hc : [ClassItem.lit '：', .lit ':'].any (·.test true colon) = true := by
    simp only [List.mem_cons, List.mem_singleton, List.not_mem_nil, or_false] at hcolon
    rcases hcolon with rfl | rfl <;> decide
  exact mem_run_seqs_cons_of (mem_run_str_of_caseFold hlab)
    <| mem_run_seqs_cons_of (mem_run_rep_of_charStep run_space hw (Nat.zero_le _) (by simp))
    <| mem_run_seqs_cons_of (mem_charStep.mpr ⟨colon, rfl, by simp [hc]⟩) mem_run_rep_zero

theorem mem_run_bracketed {n : Nat} {o c : Char} {ds rest : List Char} (hds : ds ≠ [])
    (hdig : ∀ d ∈ ds, isDecimal d = true) :
    rest ∈ (Re.seqs [.lit o, .plus .digit, .lit c]).run false n (o :: (ds ++ c :: rest)) :=
  mem_run_seqs_cons_of mem_run_lit <| mem_run_seqs_cons_of (mem_run_plus_digit hds hdig) mem_run_lit

theorem footnoteStartPatterns_eq : footnoteStartPatterns = ["注", "Note", "说明"].map notePattern :=
  rfl

section Inversion

variable {n : Nat} {s t : List Char}

theorem toNat_ofNat_of_lt {m : Nat} (h : m < 0xD800) : (Char.ofNat m).toNat = m := by
  rw [Char.ofNat, dif_pos (Or.inl h)]
  rfl

/-- Case folding sends no other character to a colon. -/
theorem eq_of_caseFold_eq_colon {c d : Char} (hd : d = ':' ∨ d = '：') (h : caseFold c = d) :
    c = d := by
  unfold caseFold at h
  split_ifs at h with h₁
  · have hc : 65 ≤ c.toNat ∧ c.toNat ≤ 90 := h₁
    have := congrArg Char.toNat h
    rw [toNat_ofNat_of_lt (by omega)] at this
    rcases hd with rfl | rfl <;> simp at this <;> omega
  all_goals first | exact h | (rcases hd with rfl | rfl <;> exact absurd h (by decide))

theorem lits_of_mem_run : ∀ {l s : List Char}, t ∈ (Re.seqs (l.map .lit)).run true n s →
    ∃ lab, s = lab ++ t ∧ lab.map caseFold = l.map caseFold
  | [], s, h => ⟨[], by simpa using (List.mem_singleton.mp h).symm, rfl⟩
  | c :: cs, s, h => by
    obtain ⟨u, hu, h₁⟩ := mem_run_seqs_cons.mp h
    rw [Re.lit, run_set, mem_charStep] at hu
    obtain ⟨d, rfl, hd⟩ := hu
    obtain ⟨lab, rfl, hlab⟩ := lits_of_mem_run h₁
    simp [ClassItem.test] at hd
    exact ⟨d :: lab, rfl, by simp [hd, hlab]⟩

theorem label_of_mem_run_captionPattern {label : String} (h : t ∈ (captionPattern label).run true n s) :
    ∃ lab w dg rest, s = lab ++ (w ++ dg :: rest) ∧ lab.map caseFold = label.data.map caseFold ∧
      (∀ c ∈ w, isSpace c = true) ∧ isDecimal dg = true := by
  obtain ⟨u, hu, h₁⟩ := mem_run_seqs_cons.mp h
  obtain ⟨lab, rfl, hlab⟩ := lits_of_mem_run hu
  obtain ⟨v, hv, h₂⟩ := mem_run_seqs_cons.mp h₁
  obtain ⟨w, rfl, hw⟩ := blanks_of_mem_run_star_space hv
  obtain ⟨x, hx, -⟩ := mem_run_seqs_cons.mp h₂
  obtain ⟨ds, rfl, hlo, -, hds⟩ := run_of_mem_run_rep run_digit hx (by simp)
  obtain ⟨dg, ds, rfl⟩ := List.exists_cons_of_ne_nil (List.length_pos.mp hlo)
  exact ⟨lab, w, dg, ds ++ x, by simp, hlab, hw, hds dg (List.mem_cons_self _ _)⟩

theorem label_of_mem_run_notePattern {label : String} (h : t ∈ (notePattern label).run true n s) :
    ∃ lab w colon rest, s = lab ++ (w ++ colon :: rest) ∧ lab.map caseFold = label.data.map caseFold ∧
      (∀ c ∈ w, isSpace c = true) ∧ colon ∈ ['：', ':'] := by
  obtain ⟨u, hu, h₁⟩ := mem_run_seqs_cons.mp h
  obtain ⟨lab, rfl, hlab⟩ := lits_of_mem_run hu
  obtain ⟨v, hv, h₂⟩ := mem_run_seqs_cons.mp h₁
  obtain ⟨w, rfl, hw⟩ := blanks_of_mem_run_star_space hv
  obtain ⟨x, hx, -⟩ := mem_run_seqs_cons.mp h₂
  rw [run_set, mem_charStep] at hx
  obtain ⟨colon, rfl, hc⟩ := hx
  refine ⟨lab, w, colon, x, rfl, hlab, hw, ?_⟩
  simp [ClassItem.test] at hc
  rcases hc with hc | hc
  · simp [eq_of_caseFold_eq_colon (.inr rfl) (hc.symm.trans (by decide))]
  · simp [eq_of_caseFold_eq_colon (.inl rfl) (hc.symm.trans (by decide))]

theorem bracketed_of_mem_run {o c : Char}
    (h : t ∈ (Re.seqs [.lit o, .plus .digit, .lit c]).run false n s) :
    ∃ ds, ds ≠ [] ∧ (∀ d ∈ ds, isDecimal d = true) ∧ s = o :: (ds ++ c :: t) := by
  obtain ⟨u, hu, h₁⟩ := mem_run_seqs_cons.mp h
  obtain ⟨v, hv, h₂⟩ := mem_run_seqs_cons.mp h₁
  obtain ⟨ds, rfl, hlo, -, hds⟩ := run_of_mem_run_rep run_digit hv (by simp)
  rw [eq_of_mem_run_lit hu, eq_of_mem_run_lit h₂]
  exact ⟨ds, List.length_pos.mp hlo, hds, rfl⟩

theorem holdsMarker_of_search {r : Re} (hr : r ∈ footnoteMarkerPatterns) (h : r.search false s = true) :
    HoldsMarker s := by
  obtain ⟨pre, u, t, rfl, ht⟩ := exists_of_search h
  simp only [footnoteMarkerPatterns, List.mem_cons, List.mem_singleton, List.not_mem_nil, or_false] at hr
  rcases hr with rfl | rfl | rfl | rfl
  · rw [run_set_lits, mem_charStep] at ht
    obtain ⟨c, rfl, hc⟩ := ht
    exact ⟨pre, [c], t, rfl, .inl ⟨c, rfl, .inl (List.any_beq'.mp hc)⟩⟩
  · rw [run_set_lits, mem_charStep] at ht
    obtain ⟨c, rfl, hc⟩ := ht
    exact ⟨pre, [c], t, rfl, .inl ⟨c, rfl, .inr (List.any_beq'.mp hc)⟩⟩
  · obtain ⟨ds, hds, hdig, rfl⟩ := bracketed_of_mem_run ht
    exact ⟨pre, '[' :: (ds ++ [']']), t, by simp, .inr ⟨ds, hds, hdig, .inl rfl⟩⟩
  · obtain ⟨ds, hds, hdig, rfl⟩ := bracketed_of_mem_run ht
    exact ⟨pre, '(' :: (ds ++ [')']), t, by simp, .inr ⟨ds, hds, hdig, .inr rfl⟩⟩

end Inversion

theorem captionPattern_of_mem_patterns {t : String} {r : Re} (hr : r ∈ (typeConfig t).patterns) :
    ∃ label, r = captionPattern label := by
  unfold typeConfig at hr
  split_ifs at hr <;>
    simp only [imageConfig, equationConfig, tableConfig, List.mem_cons, List.mem_singleton,
      List.not_mem_nil, or_false] at hr <;>
    rcases hr with rfl | rfl | rfl <;> exact ⟨_, rfl⟩

/-- The caption patterns of a type find exactly a label of the type, then blanks and a digit. -/
theorem search_captionPatterns_iff (t : String) (s : List Char) :
    (typeConfig t).patterns.any (·.search true s) = true ↔
      ∃ label, captionPattern label ∈ (typeConfig t).patterns ∧ HoldsNumberedLabel label s := by
  refine ⟨fun h => ?_, fun ⟨label, hlabel, pre, lab, w, dg, rest, hs, hlab, hw, hdg⟩ => ?_⟩
  · obtain ⟨r, hr, hs⟩ := List.any_eq_true.mp h
    obtain ⟨label, rfl⟩ := captionPattern_of_mem_patterns hr
    obtain ⟨pre, u, t', hpre, ht⟩ := exists_of_search hs
    obtain ⟨lab, w, dg, rest, rfl, hlab, hw, hdg⟩ := label_of_mem_run_captionPattern ht
    exact ⟨label, hr, pre, lab, w, dg, rest, hpre, hlab, hw, hdg⟩
  · exact List.any_eq_true.mpr ⟨_, hlabel, search_of_mem (hs ▸ List.suffix_append pre _)
      (mem_run_captionPattern hlab hw hdg)⟩

/-- The start patterns find exactly `注`, `Note` or `说明`, then blanks and a colon. -/
theorem search_footnoteStartPatterns_iff (s : List Char) :
    footnoteStartPatterns.any (·.search true s) = true ↔
      ∃ label ∈ ["注", "Note", "说明"], HoldsNoteLabel label s := by
  refine ⟨fun h => ?_, fun ⟨label, hlabel, pre, lab, w, colon, rest, hs, hlab, hw, hcolon⟩ => ?_⟩
  · obtain ⟨r, hr, hs⟩ := List.any_eq_true.mp h
    rw [footnoteStartPatterns_eq, List.mem_map] at hr
    obtain ⟨label, hlabel, rfl⟩ := hr
    obtain ⟨pre, u, t, hpre, ht⟩ := exists_of_search hs
    obtain ⟨lab, w, colon, rest, rfl, hlab, hw, hc⟩ := label_of_mem_run_notePattern ht
    exact ⟨label, hlabel, pre, lab, w, colon, rest, hpre, hlab, hw, hc⟩
  · exact List.any_eq_true.mpr ⟨_, footnoteStartPatterns_eq ▸ List.mem_map_of_mem notePattern hlabel,
      search_of_mem (hs ▸ List.suffix_append pre _) (mem_run_notePattern hlab hw hcolon)⟩

/-- The marker patterns find exactly a footnote marker. -/
theorem search_footnoteMarkerPatterns_iff (s : List Char) :
    footnoteMarkerPatterns.any (·.search false s) = true ↔ HoldsMarker s := by
  refine ⟨fun h => ?_, fun ⟨pre, mk, rest, hs, hmk⟩ => ?_⟩
  · obtain ⟨r, hr, hs⟩ := List.any_eq_true.mp h
    exact holdsMarker_of_search hr hs
  obtain ⟨r, hr, hrun⟩ : ∃ r ∈ footnoteMarkerPatterns, rest ∈ r.run false s.length (mk ++ rest) := by
    rcases hmk with ⟨c, rfl, hc | hc⟩ | ⟨ds, hds, hdig, rfl | rfl⟩
    · exact ⟨_, List.mem_cons_self _ _, mem_run_set_lits hc⟩
    · exact ⟨_, List.mem_cons_of_mem _ (List.mem_cons_self _ _), mem_run_set_lits hc⟩
    all_goals simp only [List.cons_append, List.append_assoc, List.singleton_append]
    · exact ⟨_, List.mem_cons_of_mem _ (List.mem_cons_of_mem _ (List.mem_cons_self _ _)),
        mem_run_bracketed hds hdig⟩
    · exact ⟨_, List.mem_cons_of_mem _ (List.mem_cons_of_mem _ (List.mem_cons_of_mem _
        (List.mem_cons_self _ _))), mem_run_bracketed hds hdig⟩
  exact List.any_eq_true.mpr ⟨r, hr, search_of_mem (hs ▸ List.suffix_append pre _) hrun⟩

theorem isCaption_of_label (b : DocNode) (t label : String) (pre lab w rest : List Char)
    (dg : Char) (ht : b.metadata.type = "text")
    (hex : (typeConfig t).styleExclude.any (strIn · (lower b.metadata.styleName)) = false)
    (hlabel : captionPattern label ∈ (typeConfig t).patterns)
    (hlab : lab.map caseFold = label.data.map caseFold)
    (hs : (strip b.text).data = pre ++ (lab ++ (w ++ dg :: rest)))
    (hw : ∀ c ∈ w, isSpace c = true) (hdg : isDecimal dg = true) :
    isCaption b t = true := by
  rw [isCaption_eq_true_iff_search, search_captionPatterns_iff]
  exact ⟨ht, strip_ne_empty hs (by simp), hex,
    .inr ⟨label, hlabel, pre, lab, w, dg, rest, hs, hlab, hw, hdg⟩⟩

theorem isCaption_of_label_upperCase :
    isCaption ⟨"FIGURE 3: overview", { type := "text" }⟩ "image" = true :=
  isCaption_of_label _ "image" "Figure" [] "FIGURE".data " ".data ": overview".data '3' rfl
    (by decide) (by simp [typeConfig, imageConfig]) (by decide) (by decide) (by decide) (by decide)

theorem isFootnote_of_noteLabel (b : DocNode) (label : String) (pre lab w rest : List Char)
    (colon : Char) (ht : b.metadata.type = "text") (hlabel : label ∈ ["注", "Note", "说明"])
    (hlab : lab.map caseFold = label.data.map caseFold) (hw : ∀ c ∈ w, isSpace c = true)
    (hcolon : colon ∈ ['：', ':']) (hs : (strip b.text).data = pre ++ (lab ++ (w ++ colon :: rest))) :
    isFootnote b = true := by
  rw [isFootnote_eq_true_iff_search, search_footnoteStartPatterns_iff]
  exact ⟨ht, strip_ne_empty hs (by simp),
    .inr (.inl ⟨label, hlabel, pre, lab, w, colon, rest, hs, hlab, hw, hcolon⟩)⟩

theorem isFootnote_of_noteLabel_upperCase :
    isFootnote ⟨"NOTE : values in mm", { type := "text" }⟩ = true :=
  isFootnote_of_noteLabel _ "Note" [] "NOTE".data " ".data " values in mm".data ':' rfl
    (by decide) (by decide) (by decide) (by decide) (by decide)

theorem isFootnote_of_marker (b : DocNode) (pre mk rest : List Char)
    (ht : b.metadata.type = "text") (hs : (strip b.text).data = pre ++ (mk ++ rest))
    (hmk : (∃ c, mk = [c] ∧ (c ∈ "*★☆※".data ∨ c ∈ "①②③④⑤⑥⑦⑧⑨⑩".data)) ∨
      ∃ ds, ds ≠ [] ∧ (∀ c ∈ ds, isDecimal c = true) ∧
        (mk = '[' :: (ds ++ [']']) ∨ mk = '(' :: (ds ++ [')']))) :
    isFootnote b = true := by
  have hmk0 : mk ≠ [] := by rcases hmk with ⟨c, rfl, -⟩ | ⟨ds, -, -, rfl | rfl⟩ <;> simp
  rw [isFootnote_eq_true_iff_search, search_footnoteMarkerPatterns_iff]
  exact ⟨ht, strip_ne_empty hs fun h => hmk0 (List.append_eq_nil.mp h).1, .inr (.inr ⟨pre, mk, rest, hs, hmk⟩)⟩

theorem isFootnote_of_marker_numbered :
    isFootnote ⟨"Results of model (1)", { type := "text" }⟩ = true :=
  isFootnote_of_marker _ "Results of model ".data "(1)".data [] rfl (by decide)
    (.inr ⟨"1".data, by decide, by decide, .inr (by decide)⟩)

/-- `_is_caption` accepts nothing else: a node it accepts has a trusted style name or a label of
the type in its text. -/
theorem label_of_isCaption (b : DocNode) (t : String) (h : isCaption b t = true) :
    b.metadata.type = "text" ∧ strip b.text ≠ "" ∧ (typeConfig t).styleExclude.any (strIn · (lower b.metadata.styleName)) = false ∧
      ((typeConfig t).styleKeywords.any (strIn · (lower b.metadata.styleName)) = true ∨
        ∃ label, captionPattern label ∈ (typeConfig t).patterns ∧
          HoldsNumberedLabel label (strip b.text).data) := by
  rwa [isCaption_eq_true_iff_search, search_captionPatterns_iff] at h

/-- A sentence that mentions a figure by its number. -/
def figureMention : DocNode := ⟨"as shown in Fig. 3", { type := "text" }⟩

theorem label_of_isCaption_figureMention :
    isCaption figureMention "image" = true ∧ figureMention.metadata.type = "text" ∧
      strip figureMention.text ≠ "" ∧
      (typeConfig "image").styleExclude.any (strIn · (lower figureMention.metadata.styleName)) = false ∧
      ((typeConfig "image").styleKeywords.any (strIn · (lower figureMention.metadata.styleName)) = true ∨
        ∃ label, captionPattern label ∈ (typeConfig "image").patterns ∧
          HoldsNumberedLabel label (strip figureMention.text).data) :=
  have h : isCaption figureMention "image" = true := by decide
  ⟨h, label_of_isCaption figureMention "image" h⟩

/-- `_is_footnote` accepts nothing else: a node it accepts has a trusted style name, a note label
or a marker in its text. -/
theorem label_of_isFootnote (b : DocNode) (h : isFootnote b = true) :
    b.metadata.type = "text" ∧ strip b.text ≠ "" ∧ (footnoteStyleKeywords.any (strIn · (lower b.metadata.styleName)) = true ∨
      (∃ label ∈ ["注", "Note", "说明"], HoldsNoteLabel label (strip b.text).data) ∨
        HoldsMarker (strip b.text).data) := by
  rwa [isFootnote_eq_true_iff_search, search_footnoteStartPatterns_iff,
    search_footnoteMarkerPatterns_iff] at h

/-- A sentence that cites a reference by its number. -/
def citation : DocNode := ⟨"see [12]", { type := "text" }⟩

theorem label_of_isFootnote_citation :
    isFootnote citation = true ∧ citation.metadata.type = "text" ∧ strip citation.text ≠ "" ∧
      (footnoteStyleKeywords.any (strIn · (lower citation.metadata.styleName)) = true ∨
        (∃ label ∈ ["注", "Note", "说明"], HoldsNoteLabel label (strip citation.text).data) ∨
          HoldsMarker (strip citation.text).data) :=
  have h : isFootnote citation = true := by decide
  ⟨h, label_of_isFootnote citation h⟩

theorem isCaption_eq_true_iff (b : DocNode) (t : String) : isCaption b t = true ↔ CaptionLike t b := by
  rw [isCaption_eq_true_iff_search, search_captionPatterns_iff]
  rfl

theorem isFootnote_eq_true_iff (b : DocNode) : isFootnote b = true ↔ FootnoteLike b := by
  rw [isFootnote_eq_true_iff_search, search_footnoteStartPatterns_iff,
    search_footnoteMarkerPatterns_iff]
  rfl

/-- The parser merges away only a node that reads as a caption of an anchor beside it, for the
anchor's type, or as a footnote: ordinary text is never absorbed. -/
theorem reads_of_mem_mergedIndices (nodes : List DocNode) (j : Nat)
    (hj : j ∈ (planningPass nodes).mergedIndices) :
    ∃ n, nodes[j]? = some n ∧
      ((∃ i a, nodes[i]? = some a ∧ a.metadata.type ∈ anchorTypes ∧ (j + 1 = i ∨ j = i + 1) ∧
          CaptionLike a.metadata.type n) ∨ FootnoteLike n) := by
  have h := planInv_planningPass nodes
  rw [h.merged_eq, List.mem_flatMap] at hj
  obtain ⟨e, he, hj⟩ := hj
  have hs := h.shape e he
  rcases List.mem_append.mp hj with hc | hf
  · rw [Option.mem_toList] at hc
    obtain ⟨a, ha, hat, hcap⟩ := hs.anchor
    obtain ⟨n, hn, hnc⟩ := hcap j hc
    rw [isCaption_eq_true_iff_search, search_captionPatterns_iff] at hnc
    exact ⟨n, hn, .inl ⟨e.anchor, a, ha, hat, hs.caption_pos j hc, hnc⟩⟩
  · rw [Option.mem_toList] at hf
    obtain ⟨n, hn, hnf⟩ := hs.footnote_ok j hf
    rw [isFootnote_eq_true_iff_search, search_footnoteStartPatterns_iff,
      search_footnoteMarkerPatterns_iff] at hnf
    exact ⟨n, hn, .inr hnf⟩

/-- An image after the sentence that mentions it. -/
def mentionedFigure : List DocNode := [figureMention, ⟨"", { type := "image" }⟩]

theorem reads_of_mem_mergedIndices_mentionedFigure :
    0 ∈ (planningPass mentionedFigure).mergedIndices ∧ ∃ n, mentionedFigure[0]? = some n ∧
      ((∃ i a, mentionedFigure[i]? = some a ∧ a.metadata.type ∈ anchorTypes ∧ (0 + 1 = i ∨ 0 = i + 1) ∧
          CaptionLike a.metadata.type n) ∨ FootnoteLike n) :=
  have h : 0 ∈ (planningPass mentionedFigure).mergedIndices := by decide
  ⟨h, reads_of_mem_mergedIndices mentionedFigure 0 h⟩

end CaptionFootnoteParser

end RagParsers
