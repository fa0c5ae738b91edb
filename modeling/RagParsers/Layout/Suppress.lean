import RagParsers.Layout.Grammar

/-! Dates and table-of-contents lines, which `_parse_nodes` sets to level 0. -/

namespace RagParsers

namespace LayoutNodeParser

/-- A node of level at most 1 that a date or table-of-contents pattern reads becomes body text. -/
theorem parseNode_of_matchAny {b : DocNode} (hl : b.level ≤ 1)
    (hm : matchAny b (timePatterns ++ tocPatterns) = true) : parseNode b = b.setTextLevel 0 := by
  rw [parseNode, if_neg (not_lt.mpr hl), if_pos hm]

theorem matchAny_of_mem {b : DocNode} {r : Re} (hr : r ∈ timePatterns ++ tocPatterns)
    (hm : r.matches false (strip b.text).data = true) :
    matchAny b (timePatterns ++ tocPatterns) = true :=
  List.any_eq_true.mpr ⟨r, hr, hm⟩

section Toc

variable {n : Nat} {t : List Char}

theorem mem_run_star_any {p : List Char} (hp : ∀ c ∈ p, c ≠ '\n') {g : Bool} :
    t ∈ (Re.rep .any 0 none g).run false n (p ++ t) :=
  mem_run_rep_of_charStep run_any (fun c hc => bne_iff_ne.mpr (hp c hc)) (Nat.zero_le _) (by simp)

theorem str_fulu : Re.str "附录" = .seqs [.lit '附', .lit '录'] := rfl

theorem mem_run_tocHead {h : List Char}
    (hh : (∃ c, h = [c] ∧ (isArNum c = true ∨ c ∈ ['I', 'V', 'X'] ∨ isCnNum c = true)) ∨
      h = "附录".data) :
    t ∈ (Re.alt arNum (.alt (.plus (.set false [.lit 'I', .lit 'V', .lit 'X']))
      (.alt (.str "附录") cnNum))).run false n (h ++ t) := by
  rcases hh with ⟨c, rfl, hc | hc | hc⟩ | rfl
  · exact List.mem_append_left _ (by rw [run_arNum]; exact mem_charStep.mpr ⟨c, rfl, hc⟩)
  · exact List.mem_append_right _ (List.mem_append_left _ (mem_run_rep_of_charStep
      (run_set_lits ['I', 'V', 'X']) (List.forall_mem_singleton.mpr
        (List.any_eq_true.mpr ⟨c, hc, beq_self_eq_true c⟩)) (by simp) (by simp)))
  · exact List.mem_append_right _ (List.mem_append_right _ (List.mem_append_right _
      (by rw [run_cnNum]; exact mem_charStep.mpr ⟨c, rfl, hc⟩)))
  · refine List.mem_append_right _ (List.mem_append_right _ (List.mem_append_left _ ?_))
    rw [str_fulu]
    exact mem_run_seqs_cons_of mem_run_lit mem_run_lit

/-- A node marked as a level-1 heading. -/
def headingNode (text : String) : DocNode :=
  { text := text, metadata := { type := "text", textLevel := some 1 } }

end Toc

section Date

variable {n : Nat} {t : List Char}

theorem mem_run_digitDate {y m d : List Char} (hy : y.length = 4)
    (hm : 1 ≤ m.length ∧ m.length ≤ 2) (hd : 1 ≤ d.length ∧ d.length ≤ 2)
    (hdig : ∀ c ∈ y ++ m ++ d, isDecimal c = true) :
    t ∈ digitDate.run false n (y ++ '年' :: (m ++ '月' :: (d ++ '日' :: t))) :=
  mem_run_seqs_cons_of (mem_run_rep_of_charStep run_digit (fun c hc => hdig c (by simp [hc]))
      hy.ge (by simp [hy]))
    <| mem_run_seqs_cons_of mem_run_lit
    <| mem_run_seqs_cons_of (mem_run_rep_of_charStep run_digit (fun c hc => hdig c (by simp [hc]))
      hm.1 (by simp [hm.2]))
    <| mem_run_seqs_cons_of mem_run_lit
    <| mem_run_seqs_cons_of (mem_run_rep_of_charStep run_digit (fun c hc => hdig c (by simp [hc]))
      hd.1 (by simp [hd.2])) mem_run_lit

end Date

end LayoutNodeParser

end RagParsers
