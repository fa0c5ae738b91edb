import RagParsers.Layout.Deepest
import RagParsers.Layout.Demote

/-! The heading rule: what `_parse_nodes` does to a heading of level 1, said without its patterns. -/

namespace RagParsers

namespace LayoutNodeParser

/-- The stripped text is a date or a table-of-contents line. -/
def DateOrToc (b : DocNode) : Prop := DateText (strip b.text).data ∨ TocText (strip b.text).data

/-- The deepest label the first line of `s` can be read as starting with has level `k`. -/
def DeepestLabel (s : String) (k : Nat) : Prop := LabelAt s k ∧ ∀ k', LabelAt s k' → k' ≤ k

/-- The level the heading rule gives a heading of level 1. -/
def HeadingRule (b : DocNode) (l : Int) : Prop :=
  (DateOrToc b ∧ l = 0) ∨
    (¬ DateOrToc b ∧ b.metadata.type = "text" ∧ ∃ k, DeepestLabel b.text k ∧ l = k) ∨
    (¬ DateOrToc b ∧ (b.metadata.type = "text" → ∀ k, ¬ LabelAt b.text k) ∧ l = 1)

theorem DeepestLabel.unique {s : String} {k k' : Nat} (h : DeepestLabel s k)
    (h' : DeepestLabel s k') : k = k' :=
  Nat.le_antisymm (h'.2 k h.1) (h.2 k' h'.1)

/-- The heading rule names one level. -/
theorem HeadingRule.unique {b : DocNode} {l l' : Int} (h : HeadingRule b l) (h' : HeadingRule b l') :
    l = l' := by
  rcases h with ⟨hd, rfl⟩ | ⟨hd, ht, k, hk, rfl⟩ | ⟨hd, hn, rfl⟩ <;>
    rcases h' with ⟨hd', rfl⟩ | ⟨hd', ht', k', hk', rfl⟩ | ⟨hd', hn', rfl⟩
  all_goals first
    | rfl
    | contradiction
    | rw [hk.unique hk']
    | exact absurd hk.1 (hn' ht k)
    | exact absurd hk'.1 (hn ht' k')

/-- `_parse_nodes` gives a heading of level 1 the level the heading rule names. -/
theorem headingRule_parseNode (b : DocNode) (hl : b.level = 1) : HeadingRule b (parseNode b).level := by
  by_cases hd : DateOrToc b
  · rw [parseNode_of_matchAny hl.le ((matchAny_eq_true_iff b).mpr hd), DocNode.setTextLevel_level]
    exact .inl ⟨hd, rfl⟩
  have hm : matchAny b (timePatterns ++ tocPatterns) = false :=
    Bool.eq_false_iff.mpr (mt (matchAny_eq_true_iff b).mp hd)
  -- every reading of the first line is at most as deep as the level computed for it
  have hdeep : ∀ k, LabelAt b.text k → k ≤ calculateLevelByRegex b.text := by
    rintro _ ⟨lam, r, hlam, hline, hr, rfl⟩
    rw [calculateLevelByRegex_eq, hline]
    exact le_levelOfLine_of_read hlam hr
  rw [parseNode, if_neg (by omega), if_neg (by simp [hm])]
  dsimp only
  by_cases ht : b.metadata.type = "text"
  · rw [if_pos ⟨hl, ht⟩]
    split_ifs with hpos
    · have hread : LabelAt b.text (calculateLevelByRegex b.text) := by
        rw [calculateLevelByRegex_eq] at hpos ⊢
        exact label_of_levelOfLine_pos (fun _ _ h => isSpace_of_stripChars_eq_cons h) hpos
      exact .inr (.inl ⟨hd, ht, _, ⟨hread, hdeep⟩, DocNode.setTextLevel_level _ _⟩)
    · refine .inr (.inr ⟨hd, fun _ k hk => ?_, hl⟩)
      have hle := hdeep k hk
      obtain ⟨lam, -, -, -, -, rfl⟩ := hk
      have := lam.level_pos
      omega
  · rw [if_neg fun h => ht h.2]
    exact .inr (.inr ⟨hd, fun h => absurd h ht, hl⟩)

/-- The heading rule names exactly the level `_parse_nodes` gives a heading of level 1. -/
theorem parseNode_level_eq_iff_headingRule (b : DocNode) (hl : b.level = 1) (l : Int) :
    (parseNode b).level = l ↔ HeadingRule b l :=
  ⟨fun h => h ▸ headingRule_parseNode b hl, (headingRule_parseNode b hl).unique⟩

theorem parseNode_level_eq_iff_headingRule_deepLetter :
    (headingNode "A.1.2.3.4 Intro").level = 1 ∧ HeadingRule (headingNode "A.1.2.3.4 Intro") 5 :=
  ⟨rfl, (parseNode_level_eq_iff_headingRule (headingNode "A.1.2.3.4 Intro") rfl 5).mp (by decide)⟩

end LayoutNodeParser

end RagParsers
