import RagParsers.Layout.Level

/-! A positive level reads a label of that level, as the patterns read labels (`Label.Read`),
followed by content: `1. 2 Scope` is at level 2, and `1.2.3` reads as `1.2` then `.3`. -/

namespace RagParsers

namespace LayoutNodeParser

/-- What `CONTENT_PATTERN` reads at its start: blanks, then no digit and no closing bracket. -/
def ContentAfter (r : List Char) : Prop :=
  ∃ w c v, r = w ++ c :: v ∧ (∀ x ∈ w, isSpace x = true) ∧ isDecimal c = false ∧ isCloser c = false

/-- A group `num_block` reads: a dot, blanks, then one to three digits. -/
def ReadGroup (p : Char × List Char) : Prop :=
  isDotChar p.1 = true ∧ (1 ≤ (p.2.dropWhile isSpace).length ∧ (p.2.dropWhile isSpace).length ≤ 3) ∧
    ∀ c ∈ p.2.dropWhile isSpace, isArNum c = true

instance : DecidablePred ReadGroup := fun _ => inferInstanceAs (Decidable (_ ∧ _ ∧ _))

/-- A label as the level patterns read it: a decimal label has at most three blocks after its
first group. -/
def Label.Read : Label → Prop
  | .decimal first gs => ((1 ≤ first.length ∧ first.length ≤ 2) ∧ ∀ c ∈ first, isArNum c = true) ∧
      gs ≠ [] ∧ gs.length ≤ 3 ∧ ∀ p ∈ gs, ReadGroup p
  | lam => lam.Valid

instance : DecidablePred Label.Read
  | .decimal .. => inferInstanceAs (Decidable (_ ∧ _))
  | .decimalDot f d => inferInstanceAs (Decidable (Label.decimalDot f d).Valid)
  | .letter x gs => inferInstanceAs (Decidable (Label.letter x gs).Valid)
  | .ordinal ws₁ num ws₂ m => inferInstanceAs (Decidable (Label.ordinal ws₁ num ws₂ m).Valid)

/-- The first line of `s` can be read as starting with a label of level `k`, then content. -/
def LabelAt (s : String) (k : Nat) : Prop :=
  ∃ (lam : Label) (r : List Char), lam.Read ∧ firstLineOf s = lam.text ++ r ∧ ContentAfter r ∧
    lam.level = k

theorem ContentAfter.blanks {w r : List Char} (hw : ∀ x ∈ w, isSpace x = true) (hr : ContentAfter r) :
    ContentAfter (w ++ r) := by
  obtain ⟨w', c, v, rfl, hw', hc⟩ := hr
  exact ⟨w ++ w', c, v, by simp, fun x hx => (List.mem_append.mp hx).elim (hw x) (hw' x), hc⟩

theorem eq_nil_of_blanks {w v : List Char} (hw : ∀ x ∈ w, isSpace x = true)
    (hs : ∀ c u, w ++ v = c :: u → isSpace c = false) : w = [] := by
  cases w with
  | nil => rfl
  | cons c w => simpa [hw c (List.mem_cons_self c w)] using hs c (w ++ v) rfl

section Reading

variable {n : Nat} {ic : Bool} {s t : List Char}

theorem blanks_of_mem_run_sepLoose (h : t ∈ sepLoose.run ic n s) :
    ∃ w, s = w ++ t ∧ ∀ c ∈ w, isSpace c = true := by
  obtain ⟨w, hs, -, -, hw⟩ := run_of_mem_run_rep run_space h fun _ _ => Nat.zero_le _
  exact ⟨w, hs, hw⟩

theorem digits_of_mem_run_rep_arNum {lo : Nat} {hi : Option Nat} {g : Bool}
    (h : t ∈ (Re.rep arNum lo hi g).run false n s) (hlo : ∀ h ∈ hi, lo ≤ h) :
    ∃ p, s = p ++ t ∧ lo ≤ p.length ∧ (∀ h ∈ hi, p.length ≤ h) ∧ ∀ c ∈ p, isArNum c = true :=
  run_of_mem_run_rep run_arNum h hlo

theorem dot_of_mem_run_dot (h : t ∈ dot.run false n s) : ∃ d, s = d :: t ∧ isDotChar d = true := by
  rw [run_dot] at h
  exact mem_charStep.mp h

theorem contentAfter_of_mem_run_contentPattern (h : t ∈ contentPattern.run false n s) :
    ContentAfter s := by
  obtain ⟨u, hu, h₁⟩ := mem_run_seqs_cons.mp h
  obtain ⟨v, hv, -⟩ := mem_run_seqs_cons.mp h₁
  obtain ⟨w, rfl, hw⟩ := blanks_of_mem_run_star_space hu
  rw [run_invalidFollow, mem_charStep] at hv
  obtain ⟨c, rfl, hc⟩ := hv
  simp only [Bool.not_or, Bool.and_eq_true, Bool.not_eq_true'] at hc
  exact ⟨w, c, v, rfl, hw, hc.1, hc.2⟩

/-- Blanks then content, as `SEP_LOOSE` and `CONTENT_PATTERN` read them one after the other. -/
theorem contentAfter_of_mem_run_tail (h : t ∈ (Re.seqs [sepLoose, contentPattern]).run false n s) :
    ContentAfter s := by
  obtain ⟨u, hu, h₁⟩ := mem_run_seqs_cons.mp h
  obtain ⟨w, rfl, hw⟩ := blanks_of_mem_run_sepLoose hu
  exact (contentAfter_of_mem_run_contentPattern h₁).blanks hw

theorem dropWhile_blanks_digits {w g : List Char} (hw : ∀ c ∈ w, isSpace c = true)
    (hg : ∀ c ∈ g, isArNum c = true) (hne : g ≠ []) : (w ++ g).dropWhile isSpace = g := by
  obtain ⟨c, g', rfl⟩ := List.exists_cons_of_ne_nil hne
  exact (takeWhile_dropWhile_of_split hw fun d v h => by
    cases h
    exact isSpace_of_isDecimal (isDecimal_of_isArNum (hg c (List.mem_cons_self _ _)))).2

theorem group_of_mem_run_numBlock (h : t ∈ numBlock.run false n s) :
    ∃ p, ReadGroup p ∧ s = p.1 :: (p.2 ++ t) := by
  obtain ⟨u, hu, h₁⟩ := mem_run_seqs_cons.mp h
  obtain ⟨v, hv, h₂⟩ := mem_run_seqs_cons.mp h₁
  obtain ⟨d, rfl, hd⟩ := dot_of_mem_run_dot hu
  obtain ⟨w, rfl, hw⟩ := blanks_of_mem_run_star_space hv
  obtain ⟨g, rfl, hlo, hhi, hg⟩ := digits_of_mem_run_rep_arNum h₂ (by simp)
  have hne : g ≠ [] := List.length_pos.mp hlo
  have hdrop := dropWhile_blanks_digits hw hg hne
  exact ⟨(d, w ++ g), ⟨hd, by rw [hdrop]; exact ⟨hlo, hhi 3 rfl⟩, by rw [hdrop]; exact hg⟩, by simp⟩

theorem groups_of_mem_run_numBlocks :
    ∀ {m : Nat} {s : List Char}, t ∈ (Re.seqs (List.replicate m numBlock)).run false n s →
      ∃ gs, gs.length = m ∧ (∀ p ∈ gs, ReadGroup p) ∧ s = groupsText gs ++ t
  | 0, s, h => ⟨[], rfl, by simp, by simp [Re.seqs, Re.run] at h; simp [h]⟩
  | m + 1, s, h => by
    rw [List.replicate_succ] at h
    obtain ⟨u, hu, h₁⟩ := mem_run_seqs_cons.mp h
    obtain ⟨p, hp, rfl⟩ := group_of_mem_run_numBlock hu
    obtain ⟨gs, hlen, hgs, rfl⟩ := groups_of_mem_run_numBlocks h₁
    exact ⟨p :: gs, by simp [hlen], List.forall_mem_cons.mpr ⟨hp, hgs⟩, by simp⟩

theorem group_of_mem_run_dotDigits (h : t ∈ (Re.seq dot (.plus arNum)).run false n s) :
    ∃ d g, s = d :: (g ++ t) ∧ isDotChar d = true ∧ g ≠ [] ∧ ∀ c ∈ g, isArNum c = true := by
  obtain ⟨u, hu, h₁⟩ := mem_run_seq.mp h
  obtain ⟨d, rfl, hd⟩ := dot_of_mem_run_dot hu
  obtain ⟨g, rfl, hlo, -, hg⟩ := digits_of_mem_run_rep_arNum h₁ (by simp)
  exact ⟨d, g, rfl, hd, List.length_pos.mp hlo, hg⟩

theorem groups_of_iterate_dotDigits : ∀ {k : Nat} {s : List Char},
    Iterate ((Re.seq dot (.plus arNum)).run false n) k s t →
      ∃ gs, LetterGroups gs ∧ s = groupsText gs ++ t
  | 0, s, h => ⟨[], by simp [LetterGroups], by simp [Iterate] at h; simp [h]⟩
  | k + 1, s, ⟨u, hu, h₁⟩ => by
    obtain ⟨d, g, rfl, hd, hg⟩ := group_of_mem_run_dotDigits hu
    obtain ⟨gs, hgs, rfl⟩ := groups_of_iterate_dotDigits h₁
    exact ⟨(d, g) :: gs, List.forall_mem_cons.mpr ⟨⟨hd, hg⟩, hgs⟩, by simp⟩

theorem consuming_dotDigits : Consuming ((Re.seq dot (.plus arNum)).run false n) := fun s t hst => by
  obtain ⟨d, g, rfl, -, hne, -⟩ := group_of_mem_run_dotDigits hst
  have := List.length_pos.mpr hne
  simp
  omega

theorem groups_of_mem_run_star_dotDigits (h : t ∈ (Re.star (.seq dot (.plus arNum))).run false n s) :
    ∃ gs, LetterGroups gs ∧ s = groupsText gs ++ t := by
  rw [Re.star, run_rep, mem_repeatRun consuming_dotDigits (by simp)] at h
  obtain ⟨k, -, -, h⟩ := h
  exact groups_of_iterate_dotDigits h

end Reading

theorem exists_mem_run_of_find? {ps : List (Re × Nat)} {l : List Char} {pat : Re} {k : Nat}
    (h : ps.find? (·.1.matches false l) = some (pat, k)) :
    (pat, k) ∈ ps ∧ ∃ t, t ∈ pat.run false l.length l :=
  ⟨List.mem_of_find?_eq_some h, exists_mem_run_of_matches (List.find?_some h :)⟩

section Families

variable {n : Nat} {s t : List Char}

theorem first_of_mem_run_numberHead (hs : ∀ c u, s = c :: u → isSpace c = false)
    (h : t ∈ (Re.seqs [.bol, .star .space, .rep arNum 1 (some 2) true]).run false n s) :
    ∃ first, s = first ++ t ∧ (1 ≤ first.length ∧ first.length ≤ 2) ∧ ∀ c ∈ first, isArNum c = true := by
  obtain ⟨u, hu, h₁⟩ := mem_run_seqs_cons.mp h
  obtain rfl := eq_of_mem_run_bol hu
  obtain ⟨v, hv, h₂⟩ := mem_run_seqs_cons.mp h₁
  obtain ⟨w, rfl, hw⟩ := blanks_of_mem_run_star_space hv
  obtain rfl := eq_nil_of_blanks hw hs
  obtain ⟨first, rfl, hlo, hhi, hd⟩ := digits_of_mem_run_rep_arNum h₂ (by simp)
  exact ⟨first, rfl, ⟨hlo, hhi 2 rfl⟩, hd⟩

/-- The number pattern of level `k` reads a label of level `k`, then content. -/
theorem label_of_mem_run_numberPattern {k : Nat} (hk : 1 ≤ k ∧ k ≤ 4)
    (hs : ∀ c u, s = c :: u → isSpace c = false) (h : t ∈ (numberPattern k).run false n s) :
    ∃ (lam : Label) (r : List Char), lam.Read ∧ s = lam.text ++ r ∧ ContentAfter r ∧ lam.level = k := by
  rw [run_numberPattern, List.mem_flatMap] at h
  obtain ⟨u, hu, h₁⟩ := h
  obtain ⟨first, rfl, hfirst⟩ := first_of_mem_run_numberHead hs hu
  split_ifs at h₁ with hk1
  · obtain ⟨v, hv, h₂⟩ := mem_run_seqs_cons.mp h₁
    obtain ⟨d, rfl, hd⟩ := dot_of_mem_run_dot hv
    exact ⟨.decimalDot first d, v, ⟨hfirst, hd⟩, by simp [Label.text],
      contentAfter_of_mem_run_tail h₂, by simp [Label.level, Label.depth, hk1]⟩
  · obtain ⟨v, hv, h₂⟩ := mem_run_seqs_append.mp h₁
    obtain ⟨gs, hlen, hgs, rfl⟩ := groups_of_mem_run_numBlocks hv
    refine ⟨.decimal first gs, v, ⟨hfirst, List.ne_nil_of_length_pos (by omega), by omega, hgs⟩,
      by simp [Label.text], contentAfter_of_mem_run_tail h₂, ?_⟩
    simp only [Label.level, Label.depth]
    omega

/-- The letter pattern reads a letter label as its group, with content after it. -/
theorem label_of_matchGroup_letter {l g : List Char} (hl : ∀ c u, l = c :: u → isSpace c = false)
    (h : Re.matchGroup false .bol letterNumberGroup (.seq sepLoose contentPattern) l = some g) :
    ∃ x gs r, (Label.letter x gs).Valid ∧ g = (Label.letter x gs).text ∧ l = g ++ r ∧
      ContentAfter r := by
  obtain ⟨u, hu, h₁⟩ := List.exists_of_findSome?_eq_some h
  obtain rfl := eq_of_mem_run_bol hu
  obtain ⟨v, hv, rfl⟩ := Option.map_eq_some'.mp h₁
  have hpost : (Re.seq sepLoose contentPattern).run false u.length v ≠ [] := by
    simpa [List.isEmpty_iff] using List.find?_some hv
  obtain ⟨t', ht'⟩ := List.exists_mem_of_ne_nil _ hpost
  have hcontent := contentAfter_of_mem_run_tail ht'
  obtain ⟨u₁, hu₁, h₂⟩ := mem_run_seqs_cons.mp (List.mem_of_find?_eq_some hv)
  obtain ⟨w, rfl, hw⟩ := blanks_of_mem_run_star_space hu₁
  obtain rfl := eq_nil_of_blanks hw hl
  obtain ⟨u₂, hu₂, h₃⟩ := mem_run_seqs_cons.mp h₂
  rw [run_letter, mem_charStep] at hu₂
  obtain ⟨x, rfl, hx⟩ := hu₂
  obtain ⟨u₃, hu₃, h₄⟩ := mem_run_seqs_cons.mp h₃
  obtain ⟨d, rfl, hd⟩ := dot_of_mem_run_dot hu₃
  obtain ⟨u₄, hu₄, h₅⟩ := mem_run_seqs_cons.mp h₄
  obtain ⟨g₁, rfl, hlo, -, hg₁⟩ := digits_of_mem_run_rep_arNum hu₄ (by simp)
  obtain ⟨gs, hgs, rfl⟩ := groups_of_mem_run_star_dotDigits h₅
  have hsplit : [] ++ x :: d :: (g₁ ++ (groupsText gs ++ v)) =
      (Label.letter x ((d, g₁) :: gs)).text ++ v := by
    simp [Label.text]
  refine ⟨x, (d, g₁) :: gs, v, ⟨hx, List.cons_ne_nil _ _,
    List.forall_mem_cons.mpr ⟨⟨hd, List.length_pos.mp hlo, hg₁⟩, hgs⟩⟩, ?_, ?_, hcontent⟩
  · rw [hsplit, List.length_append, Nat.add_sub_cancel, List.take_left]
  · rw [hsplit, List.length_append, Nat.add_sub_cancel, List.take_left]

/-- A template reads an ordinal label with one of its markers, then content. -/
theorem label_of_mem_run_normalPattern {markers : String} {k : Nat}
    (hmk : ∀ m ∈ markers.data, m ∈ Label.markers ∧ (Label.ordinal [] [] [] m).level = k)
    (hs : ∀ c u, s = c :: u → isSpace c = false)
    (h : t ∈ (Re.seq (normalTemplate markers) contentPattern).run false n s) :
    ∃ (lam : Label) (r : List Char), lam.Read ∧ s = lam.text ++ r ∧ ContentAfter r ∧ lam.level = k := by
  obtain ⟨u, hu, h₁⟩ := mem_run_seq.mp h
  obtain ⟨u₁, hu₁, h₂⟩ := mem_run_seqs_cons.mp hu
  obtain rfl := eq_of_mem_run_bol hu₁
  obtain ⟨u₂, hu₂, h₃⟩ := mem_run_seqs_cons.mp h₂
  obtain ⟨w, rfl, hw⟩ := blanks_of_mem_run_star_space hu₂
  obtain rfl := eq_nil_of_blanks hw hs
  obtain ⟨u₃, hu₃, h₄⟩ := mem_run_seqs_cons.mp h₃
  rw [run_lit, mem_charStep] at hu₃
  obtain ⟨c, rfl, hc⟩ := hu₃
  obtain rfl : '第' = c := beq_iff_eq.mp hc
  obtain ⟨u₄, hu₄, h₅⟩ := mem_run_seqs_cons.mp h₄
  obtain ⟨ws₁, rfl, hws₁⟩ := blanks_of_mem_run_star_space hu₄
  obtain ⟨u₅, hu₅, h₆⟩ := mem_run_seqs_cons.mp h₅
  obtain ⟨num, rfl, hlo, -, hnum⟩ := run_of_mem_run_rep run_cnNum hu₅ (by simp)
  obtain ⟨u₆, hu₆, h₇⟩ := mem_run_seqs_cons.mp h₆
  obtain ⟨ws₂, rfl, hws₂⟩ := blanks_of_mem_run_star_space hu₆
  have h₈ : u ∈ (Re.set false (markers.data.map .lit)).run false n u₆ := h₇
  rw [run_set_lits, mem_charStep] at h₈
  obtain ⟨m, rfl, hm⟩ := h₈
  obtain ⟨m', hm', hmm⟩ := List.any_eq_true.mp hm
  obtain rfl : m' = m := beq_iff_eq.mp hmm
  obtain ⟨hmark, hlevel⟩ := hmk m' hm'
  exact ⟨.ordinal ws₁ num ws₂ m', u, ⟨hws₁, ⟨List.length_pos.mp hlo, hnum⟩, hws₂, hmark⟩,
    by simp [Label.text], contentAfter_of_mem_run_contentPattern h₁, hlevel⟩

end Families

section Building

variable {n : Nat} {t : List Char}

theorem mem_run_dot {d : Char} (hd : isDotChar d = true) : t ∈ dot.run false n (d :: t) := by
  rw [run_dot]
  exact mem_charStep.mpr ⟨d, rfl, hd⟩

theorem exists_mem_run_contentPattern (n : Nat) {r : List Char} (hr : ContentAfter r) :
    ∃ t, t ∈ contentPattern.run false n r := by
  obtain ⟨w, c, v, rfl, hw, hd, hc⟩ := hr
  exact ⟨v, mem_run_seqs_cons_of (mem_run_star_space_of_blanks hw)
    (mem_run_seqs_cons_of (by simp [run_invalidFollow, charStep, hd, hc]) mem_run_rep_zero)⟩

theorem exists_mem_run_tail (n : Nat) {r : List Char} (hr : ContentAfter r) :
    ∃ t, t ∈ (Re.seqs [sepLoose, contentPattern]).run false n r := by
  obtain ⟨t, ht⟩ := exists_mem_run_contentPattern n hr
  exact ⟨t, mem_run_seqs_cons_of mem_run_rep_zero (mem_run_seqs_singleton ht)⟩

theorem mem_run_numBlock {p : Char × List Char} (hp : ReadGroup p) :
    t ∈ numBlock.run false n (p.1 :: (p.2 ++ t)) := by
  obtain ⟨hd, hlen, hg⟩ := hp
  rw [← List.takeWhile_append_dropWhile isSpace p.2, List.append_assoc]
  exact mem_run_seqs_cons_of (mem_run_dot hd)
    (mem_run_seqs_cons_of (mem_run_star_space_of_blanks fun c hc => List.mem_takeWhile_imp hc)
      (mem_run_rep_of_charStep run_arNum hg hlen.1 fun h hh => by cases hh; exact hlen.2))

theorem mem_run_numBlocks : ∀ {gs : List (Char × List Char)}, (∀ p ∈ gs, ReadGroup p) →
    t ∈ (Re.seqs (List.replicate gs.length numBlock)).run false n (groupsText gs ++ t)
  | [], _ => by simp
  | p :: gs, h => by
    rw [List.forall_mem_cons] at h
    simp only [List.length_cons, List.replicate_succ, groupsText_cons, List.cons_append,
      List.append_assoc]
    exact mem_run_seqs_cons_of (mem_run_numBlock h.1) (mem_run_numBlocks h.2)

theorem mem_run_numberHead {first u : List Char}
    (hfirst : (1 ≤ first.length ∧ first.length ≤ 2) ∧ ∀ c ∈ first, isArNum c = true) :
    u ∈ (Re.seqs [.bol, .star .space, .rep arNum 1 (some 2) true]).run false (first ++ u).length
      (first ++ u) :=
  mem_run_seqs_cons_of mem_run_bol (mem_run_seqs_cons_of mem_run_rep_zero (mem_run_seqs_singleton
    (mem_run_rep_of_charStep run_arNum hfirst.2 hfirst.1.1 fun h hh => by cases hh; exact hfirst.1.2)))

theorem iterate_dotDigits : ∀ {gs : List (Char × List Char)}, LetterGroups gs →
    Iterate ((Re.seq dot (.plus arNum)).run false n) gs.length (groupsText gs ++ t) t
  | [], _ => by simp [Iterate]
  | (d, g) :: gs, h => by
    rw [LetterGroups, List.forall_mem_cons] at h
    obtain ⟨⟨hd, hne, hg⟩, hgs⟩ := h
    refine ⟨groupsText gs ++ t, ?_, iterate_dotDigits hgs⟩
    simp only [groupsText_cons, List.cons_append, List.append_assoc]
    exact mem_run_seq.mpr ⟨_, mem_run_dot hd,
      mem_run_rep_of_charStep run_arNum hg (List.length_pos.mpr hne) (by simp)⟩

theorem mem_run_star_dotDigits {gs : List (Char × List Char)} (hgs : LetterGroups gs) :
    t ∈ (Re.star (.seq dot (.plus arNum))).run false n (groupsText gs ++ t) := by
  rw [Re.star, run_rep, mem_repeatRun consuming_dotDigits (by simp)]
  exact ⟨gs.length, Nat.zero_le _, by simp, iterate_dotDigits hgs⟩

theorem mem_run_letterNumberGroup {x : Char} {gs : List (Char × List Char)} (hx : isLetter x = true)
    (hne : gs ≠ []) (hgs : LetterGroups gs) :
    t ∈ letterNumberGroup.run false n (x :: (groupsText gs ++ t)) := by
  obtain ⟨⟨d, g⟩, gs, rfl⟩ := List.exists_cons_of_ne_nil hne
  rw [LetterGroups, List.forall_mem_cons] at hgs
  obtain ⟨⟨hd, hg, hgd⟩, hgs⟩ := hgs
  simp only [groupsText_cons, List.cons_append, List.append_assoc]
  exact mem_run_seqs_cons_of mem_run_rep_zero
    (mem_run_seqs_cons_of (by rw [run_letter]; exact mem_charStep.mpr ⟨x, rfl, hx⟩)
      (mem_run_seqs_cons_of (mem_run_dot hd)
        (mem_run_seqs_cons_of (mem_run_rep_of_charStep run_arNum hgd (List.length_pos.mpr hg) (by simp))
          (mem_run_seqs_singleton (mem_run_star_dotDigits hgs)))))

end Building

section Families

variable {first r : List Char}

/-- The number pattern of a decimal label's depth reads the label and the content after it. -/
theorem matches_numberPattern_read {gs : List (Char × List Char)}
    (hfirst : (1 ≤ first.length ∧ first.length ≤ 2) ∧ ∀ c ∈ first, isArNum c = true)
    (hne : gs ≠ []) (hgs : ∀ p ∈ gs, ReadGroup p) (hr : ContentAfter r) :
    (numberPattern (gs.length + 1)).matches false (first ++ (groupsText gs ++ r)) = true := by
  obtain ⟨t, ht⟩ := exists_mem_run_tail (first ++ (groupsText gs ++ r)).length hr
  have hlen := List.length_pos.mpr hne
  refine matches_of_mem (t := t) ?_
  rw [run_numberPattern, if_neg (by omega), Nat.add_sub_cancel, List.mem_flatMap]
  exact ⟨_, mem_run_numberHead hfirst, mem_run_seqs_append.mpr ⟨_, mem_run_numBlocks hgs, ht⟩⟩

theorem matches_numberPattern_one_read {d : Char}
    (hfirst : (1 ≤ first.length ∧ first.length ≤ 2) ∧ ∀ c ∈ first, isArNum c = true)
    (hd : isDotChar d = true) (hr : ContentAfter r) :
    (numberPattern 1).matches false (first ++ d :: r) = true := by
  obtain ⟨t, ht⟩ := exists_mem_run_tail (first ++ d :: r).length hr
  refine matches_of_mem (t := t) ?_
  rw [run_numberPattern, if_pos rfl, List.mem_flatMap]
  exact ⟨_, mem_run_numberHead hfirst, mem_run_seqs_cons_of (mem_run_dot hd) ht⟩

/-- The letter pattern has a group on a letter label followed by content. -/
theorem matchGroup_letter_isSome {x : Char} {gs : List (Char × List Char)} (hx : isLetter x = true)
    (hne : gs ≠ []) (hgs : LetterGroups gs) (hr : ContentAfter r) :
    (Re.matchGroup false .bol letterNumberGroup (.seq sepLoose contentPattern)
      (x :: (groupsText gs ++ r))).isSome = true := by
  obtain ⟨t, ht⟩ := exists_mem_run_tail (x :: (groupsText gs ++ r)).length hr
  have hfind : ((letterNumberGroup.run false (x :: (groupsText gs ++ r)).length
      (x :: (groupsText gs ++ r))).find? fun v =>
        !((Re.seq sepLoose contentPattern).run false (x :: (groupsText gs ++ r)).length v).isEmpty).isSome :=
    List.find?_isSome.mpr ⟨r, mem_run_letterNumberGroup hx hne hgs,
      by simpa [List.isEmpty_iff] using List.ne_nil_of_mem ht⟩
  obtain ⟨v, hv⟩ := Option.isSome_iff_exists.mp hfind
  simp only [Re.matchGroup, run_bol, if_true, List.findSome?_cons, hv, Option.map_some',
    Option.isSome_some]

theorem matches_normalPattern_read {ws₁ num ws₂ : List Char} {m : Char}
    (hv : (Label.ordinal ws₁ num ws₂ m).Valid) (hr : ContentAfter r) {markers : String}
    (hm : m ∈ markers.data) :
    (Re.seq (normalTemplate markers) contentPattern).matches false
      ((Label.ordinal ws₁ num ws₂ m).text ++ r) = true := by
  obtain ⟨hws₁, ⟨hne, hnum⟩, hws₂, -⟩ := hv
  obtain ⟨t, ht⟩ := exists_mem_run_contentPattern ((Label.ordinal ws₁ num ws₂ m).text ++ r).length hr
  refine matches_of_mem (t := t) (mem_run_seq.mpr ⟨r, ?_, ht⟩)
  simp only [Label.text, List.cons_append, List.append_assoc, List.singleton_append]
  exact mem_run_seqs_cons_of mem_run_bol (mem_run_seqs_cons_of mem_run_rep_zero
    (mem_run_seqs_cons_of mem_run_lit (mem_run_seqs_cons_of (mem_run_star_space_of_blanks hws₁)
      (mem_run_seqs_cons_of (mem_run_rep_of_charStep run_cnNum hnum (List.length_pos.mpr hne) (by simp))
        (mem_run_seqs_cons_of (mem_run_star_space_of_blanks hws₂)
          (mem_run_seqs_singleton (mem_run_set_lits hm)))))))

end Families

theorem letterPatterns_findSome? (l : List Char) :
    letterPatterns.findSome? (fun p => Re.matchGroup false p.pre p.group p.post l) =
      Re.matchGroup false .bol letterNumberGroup (.seq sepLoose contentPattern) l := by
  simp only [letterPatterns, generateLetterNumberPatterns, List.findSome?_cons, List.findSome?_nil]
  cases Re.matchGroup false .bol letterNumberGroup (.seq sepLoose contentPattern) l <;> rfl

/-- A stripped line with a positive level starts with a label of that level, then content. -/
theorem label_of_levelOfLine_pos {l : List Char} (hl : ∀ c u, l = c :: u → isSpace c = false)
    (hpos : 0 < levelOfLine l) :
    ∃ (lam : Label) (r : List Char), lam.Read ∧ l = lam.text ++ r ∧ ContentAfter r ∧
      lam.level = levelOfLine l := by
  generalize hk : levelOfLine l = k at hpos ⊢
  unfold levelOfLine at hk
  split at hk
  next pat k' hfind =>
    subst hk
    obtain ⟨hmem, t, ht⟩ := exists_mem_run_of_find? hfind
    simp only [numberPatternsWithLevel_eq, List.mem_cons, Prod.mk.injEq, List.mem_singleton,
      List.not_mem_nil, or_false] at hmem
    rcases hmem with ⟨rfl, rfl⟩ | ⟨rfl, rfl⟩ | ⟨rfl, rfl⟩ | ⟨rfl, rfl⟩ <;>
      exact label_of_mem_run_numberPattern (by omega) hl ht
  next =>
    split at hk
    next g hg =>
      subst hk
      rw [letterPatterns_findSome?] at hg
      obtain ⟨x, gs, r, hv, rfl, hsplit, hc⟩ := label_of_matchGroup_letter hl hg
      exact ⟨.letter x gs, r, hv, hsplit, hc, (letterLevel_letter hv.1 hv.2.1 hv.2.2).symm⟩
    next =>
      split at hk
      next pat k' hfind =>
        subst hk
        obtain ⟨hmem, t, ht⟩ := exists_mem_run_of_find? hfind
        simp only [normalPatternsWithLevel_eq, List.mem_cons, Prod.mk.injEq, List.mem_singleton,
          List.not_mem_nil, or_false] at hmem
        rcases hmem with ⟨rfl, rfl⟩ | ⟨rfl, rfl⟩ | ⟨rfl, rfl⟩ <;>
          exact label_of_mem_run_normalPattern (by decide) hl ht
      next => omega

theorem label_of_calculateLevelByRegex_pos (s : String) (hpos : 0 < calculateLevelByRegex s) :
    ∃ (lam : Label) (r : List Char), lam.Read ∧ firstLineOf s = lam.text ++ r ∧ ContentAfter r ∧
      lam.level = calculateLevelByRegex s := by
  rw [calculateLevelByRegex_eq] at hpos ⊢
  exact label_of_levelOfLine_pos (fun _ _ h => isSpace_of_stripChars_eq_cons h) hpos

theorem label_of_calculateLevelByRegex_pos_blankInLabel :
    0 < calculateLevelByRegex "1. 2 Scope" ∧
      ∃ (lam : Label) (r : List Char), lam.Read ∧ firstLineOf "1. 2 Scope" = lam.text ++ r ∧ ContentAfter r ∧
        lam.level = calculateLevelByRegex "1. 2 Scope" :=
  ⟨by decide, label_of_calculateLevelByRegex_pos "1. 2 Scope" (by decide)⟩

end LayoutNodeParser

end RagParsers
