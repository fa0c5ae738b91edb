import RagParsers.Layout.Grammar

/-! The level `_calculate_level_by_regex` gives a first line that starts with a numbering label
(`Label`) followed by content. -/

namespace RagParsers

namespace LayoutNodeParser

/-- A numbering label, in the forms the level patterns read. -/
inductive Label where
  /-- `g₁.g₂ … .gₖ` with `k ≥ 2`: one or two digits, then groups of a dot and one to three digits -/
  | decimal (first : List Char) (groups : List (Char × List Char))
  /-- `g₁.` -/
  | decimalDot (first : List Char) (dot : Char)
  /-- `x.g₁ … .gₖ`: a letter, then groups of a dot and one or more digits -/
  | letter (x : Char) (groups : List (Char × List Char))
  /-- `第`, blanks, a numeral, blanks and a marker -/
  | ordinal (ws₁ num ws₂ : List Char) (marker : Char)
  deriving DecidableEq, Repr

namespace Label

def text : Label → List Char
  | decimal first gs => first ++ groupsText gs
  | decimalDot first d => first ++ [d]
  | letter x gs => x :: groupsText gs
  | ordinal ws₁ num ws₂ m => '第' :: (ws₁ ++ (num ++ (ws₂ ++ [m])))

/-- The markers of `NORMAL_TEMPLATES`. -/
def markers : List Char := "篇卷章节条".data

def Valid : Label → Prop
  | decimal first gs => ((1 ≤ first.length ∧ first.length ≤ 2) ∧ ∀ c ∈ first, isArNum c = true) ∧
      gs ≠ [] ∧ BlockGroups gs
  | decimalDot first d => ((1 ≤ first.length ∧ first.length ≤ 2) ∧ ∀ c ∈ first, isArNum c = true) ∧
      isDotChar d = true
  | letter x gs => isLetter x = true ∧ gs ≠ [] ∧ LetterGroups gs
  | ordinal ws₁ num ws₂ m => (∀ c ∈ ws₁, isSpace c = true) ∧ (num ≠ [] ∧ ∀ c ∈ num, isCnNum c = true) ∧
      (∀ c ∈ ws₂, isSpace c = true) ∧ m ∈ markers

instance : DecidablePred Valid
  | decimal .. => inferInstanceAs (Decidable (_ ∧ _))
  | decimalDot .. => inferInstanceAs (Decidable (_ ∧ _))
  | letter .. => inferInstanceAs (Decidable (_ ∧ _))
  | ordinal .. => inferInstanceAs (Decidable (_ ∧ _))

/-- The depth a label states. -/
def depth : Label → Nat
  | decimal _ gs => gs.length + 1
  | decimalDot .. => 1
  | letter _ gs => gs.length + 1
  | ordinal _ _ _ m => if m = '节' then 2 else if m = '条' then 3 else 1

/-- The level it is to get: the number patterns stop at depth 4. -/
def level (lam : Label) : Nat :=
  match lam with
  | decimal .. | decimalDot .. => min lam.depth 4
  | _ => lam.depth

theorem level_pos (lam : Label) : 0 < lam.level := by
  cases lam <;> simp only [level, depth] <;> (try split_ifs) <;> omega

end Label

/-- What the level patterns need after a label: a first character that is no decimal digit and
no closing bracket (the content `CONTENT_PATTERN` asks for), a first non-blank character that is
no digit, and no dot with blanks and a digit after it (a deeper pattern would read on). -/
def FollowsLabel (r : List Char) : Prop :=
  r.head?.any (fun c => !isDecimal c && !isCloser c) = true ∧
  (r.dropWhile isSpace).head?.all (fun c => !isArNum c) = true ∧
  (r.head?.any isDotChar && (r.tail.dropWhile isSpace).head?.any isArNum) = false

instance : DecidablePred FollowsLabel := fun _ => inferInstanceAs (Decidable (_ ∧ _ ∧ _))

section FollowsLabel

variable {r : List Char}

theorem FollowsLabel.exists_cons (hr : FollowsLabel r) :
    ∃ c u, r = c :: u ∧ isDecimal c = false ∧ isCloser c = false := by
  rcases r with _ | ⟨c, u⟩
  · simp [FollowsLabel] at hr
  · simp only [FollowsLabel, List.head?_cons, Option.any_some, Bool.and_eq_true,
      Bool.not_eq_true'] at hr
    exact ⟨c, u, rfl, hr.1⟩

theorem FollowsLabel.not_isArNum (hr : FollowsLabel r) : ∀ c u, r = c :: u → isArNum c = false := by
  obtain ⟨c, u, rfl, hd, -⟩ := hr.exists_cons
  rintro c' u' ⟨⟩
  exact Bool.eq_false_iff.mpr fun ha => by simp [isDecimal_of_isArNum ha] at hd

theorem FollowsLabel.visible (hr : FollowsLabel r) : (r.dropWhile isSpace).head?.any isArNum = false := by
  have h := hr.2.1
  revert h
  cases r.dropWhile isSpace <;> simp

theorem FollowsLabel.noBlock (hr : FollowsLabel r) :
    ∀ d u, r = d :: u → isDotChar d = true → (u.dropWhile isSpace).head?.any isArNum = false := by
  rintro d u rfl hd
  simpa [hd] using hr.2.2

theorem FollowsLabel.noDotDigit (hr : FollowsLabel r) :
    ∀ d u, r = d :: u → isDotChar d = true → u.head?.any isArNum = false := by
  rintro d u rfl hd
  have h := hr.noBlock d u rfl hd
  rcases u with _ | ⟨c, w⟩
  · rfl
  · cases hc : isArNum c
    · simp [hc]
    · rw [List.dropWhile_cons_of_neg (by simp [isSpace_of_isDecimal (isDecimal_of_isArNum hc)])] at h
      simp [hc] at h

theorem FollowsLabel.run_contentPattern_ne_nil {n : Nat} (hr : FollowsLabel r) :
    contentPattern.run false n r ≠ [] := by
  obtain ⟨c, u, rfl, hd, hc⟩ := hr.exists_cons
  exact LayoutNodeParser.run_contentPattern_ne_nil hd hc

theorem FollowsLabel.run_tail_ne_nil {n : Nat} (hr : FollowsLabel r) :
    (Re.seqs [sepLoose, contentPattern]).run false n r ≠ [] := by
  obtain ⟨c, u, rfl, hd, hc⟩ := hr.exists_cons
  exact run_sepLoose_contentPattern_ne_nil hd hc

end FollowsLabel

theorem numberPatternsWithLevel_eq : numberPatternsWithLevel =
    [(numberPattern 4, 4), (numberPattern 3, 3), (numberPattern 2, 2), (numberPattern 1, 1)] := rfl

theorem normalPatternsWithLevel_eq : normalPatternsWithLevel =
    [(.seq (normalTemplate "篇卷章") contentPattern, 1), (.seq (normalTemplate "节") contentPattern, 2),
     (.seq (normalTemplate "条") contentPattern, 3)] := rfl

section Decimal

variable {first : List Char} {gs : List (Char × List Char)} {r : List Char}

/-- On a decimal label, the pattern of level `k ≥ 2` matches exactly up to the label's depth. -/
theorem matches_numberPattern_decimal
    (hfirst : (1 ≤ first.length ∧ first.length ≤ 2) ∧ ∀ c ∈ first, isArNum c = true)
    (hgs : BlockGroups gs) (hr : FollowsLabel r) (k : Nat) (hk : 2 ≤ k) :
    (numberPattern k).matches false (first ++ (groupsText gs ++ r)) = decide (k ≤ gs.length + 1) := by
  obtain ⟨j, rfl⟩ : ∃ j, k = j + 2 := ⟨k - 2, by omega⟩
  have hrest := not_isArNum_groupsText_append (fun p hp => (hgs p hp).1) hr.not_isArNum
  rw [Re.matches, run_numberPattern, if_neg (by omega), show j + 2 - 1 = j + 1 by omega,
    flatMap_run_numberHead (fun c u => run_numberRest_of_isArNum j) hfirst.2 hfirst.1 hrest,
    run_seqs_append, flatMap_run_numBlocks (fun c u hc =>
      run_sepLoose_contentPattern_of_isDecimal (isDecimal_of_isArNum hc)) hr.not_isArNum (run_numBlock_eq_nil hr.noBlock) (j + 1) hgs]
  by_cases hj : j + 1 ≤ gs.length
  · rw [if_pos hj, decide_eq_true (by omega)]
    have hne : (Re.seqs [sepLoose, contentPattern]).run false (first ++ (groupsText gs ++ r)).length
        (groupsText (gs.drop (j + 1)) ++ r) ≠ [] := by
      cases hd : gs.drop (j + 1) with
      | nil => exact hr.run_tail_ne_nil
      | cons p ps =>
        obtain ⟨-, h1, -, h2⟩ := isDotChar_classes
          (hgs p (List.mem_of_mem_drop (hd ▸ List.mem_cons_self p ps))).1
        exact run_sepLoose_contentPattern_ne_nil h1 h2
    simpa [List.isEmpty_iff] using hne
  · rw [if_neg hj, decide_eq_false (by omega)]
    rfl

theorem matches_numberPattern_decimalDot {d : Char}
    (hfirst : (1 ≤ first.length ∧ first.length ≤ 2) ∧ ∀ c ∈ first, isArNum c = true)
    (hd : isDotChar d = true) (hr : FollowsLabel r) (k : Nat) (hk : 1 ≤ k) :
    (numberPattern k).matches false (first ++ d :: r) = decide (k = 1) := by
  have hdr : ∀ c u, d :: r = c :: u → isArNum c = false := by
    rintro c u ⟨⟩; exact (isDotChar_classes hd).1
  rw [Re.matches, run_numberPattern]
  split_ifs with h1
  · have hK : ∀ n c u, isArNum c = true →
        (Re.seqs [dot, sepLoose, contentPattern]).run false n (c :: u) = [] := fun n c u hc => by
      have hc' : isDotChar c = false :=
        Bool.eq_false_iff.mpr fun hd' => by simp [(isDotChar_classes hd').1] at hc
      rw [run_seqs_cons, run_dot]
      simp [charStep, hc']
    rw [flatMap_run_numberHead (hK _) hfirst.2 hfirst.1 hdr, run_seqs_cons, run_dot]
    simp only [charStep, hd, if_true, List.flatMap_singleton, h1]
    simpa [List.isEmpty_iff] using hr.run_tail_ne_nil
  · obtain ⟨j, rfl⟩ : ∃ j, k = j + 2 := ⟨k - 2, by omega⟩
    have hblock : ∀ n, numBlock.run false n (d :: r) = [] := fun n =>
      run_numBlock_eq_nil fun d' u h _ => by cases h; exact hr.visible
    rw [show j + 2 - 1 = j + 1 by omega,
      flatMap_run_numberHead (fun c u => run_numberRest_of_isArNum j) hfirst.2 hfirst.1 hdr,
      run_seqs_append, ← List.nil_append (d :: r), ← groupsText_nil,
      flatMap_run_numBlocks (fun c u hc => run_sepLoose_contentPattern_of_isDecimal
        (isDecimal_of_isArNum hc)) hdr (hblock _) (j + 1) (fun p hp => absurd hp (List.not_mem_nil p))]
    simp

end Decimal

section Letter

variable {x : Char} {gs : List (Char × List Char)} {r : List Char}

/-- `match.group(1)` of the letter pattern on a letter label is the whole label. -/
theorem matchGroup_letterNumber (hx : isLetter x = true) (hgs : gs ≠ []) (hv : LetterGroups gs)
    (hr : FollowsLabel r) :
    Re.matchGroup false .bol letterNumberGroup (.seq sepLoose contentPattern)
      (x :: (groupsText gs ++ r)) = some (x :: groupsText gs) := by
  have hhead : (letterNumberGroup.run false (x :: (groupsText gs ++ r)).length
      (x :: (groupsText gs ++ r))).head? = some r :=
    head?_run_letterNumberGroup hx hgs hv hr.not_isArNum hr.noDotDigit
  have hfind : (letterNumberGroup.run false (x :: (groupsText gs ++ r)).length
      (x :: (groupsText gs ++ r))).find? (fun v =>
        !((Re.seq sepLoose contentPattern).run false (x :: (groupsText gs ++ r)).length v).isEmpty) =
      some r := by
    revert hhead
    cases letterNumberGroup.run false (x :: (groupsText gs ++ r)).length (x :: (groupsText gs ++ r)) with
    | nil => rintro ⟨⟩
    | cons a l =>
      rintro ⟨⟩
      rw [List.find?_cons_of_pos]
      simpa [List.isEmpty_iff] using hr.run_tail_ne_nil
  simp only [Re.matchGroup, run_bol, if_true, List.findSome?_cons, hfind, Option.map_some']
  rw [← List.cons_append, List.take_left' (by simp only [List.length_cons, List.length_append]; omega)]

theorem subTrailingDot_concat (init : List Char) {e : Char} (he : isDotChar e = false)
    (hn : e ≠ '\n') : subTrailingDot (init ++ [e]) = init ++ [e] := by
  unfold subTrailingDot
  rw [List.reverse_concat]
  simp only [he, Bool.false_eq_true, if_false]
  split <;> simp [hn]

theorem splitOnP_groupsText (hgs : ∀ p ∈ gs, isDotChar p.1 = true ∧ ∀ c ∈ p.2, isDotChar c = false) :
    ∀ {pre : List Char}, (∀ c ∈ pre, isDotChar c = false) →
      (pre ++ groupsText gs).splitOnP isDotChar = pre :: gs.map Prod.snd := by
  induction gs with
  | nil =>
    intro pre hpre
    simpa using List.splitOnP_eq_single isDotChar pre fun c hc => by simp [hpre c hc]
  | cons p gs ih =>
    intro pre hpre
    obtain ⟨hd, hg⟩ := hgs p (List.mem_cons_self _ _)
    rw [groupsText_cons, List.splitOnP_first isDotChar pre (fun c hc => by simp [hpre c hc]) p.1 hd, List.map_cons,
      ih (fun q hq => hgs q (List.mem_cons_of_mem _ hq)) hg]

theorem letterLevel_letter (hx : isLetter x = true) (hgs : gs ≠ []) (hv : LetterGroups gs) :
    letterLevel (x :: groupsText gs) = gs.length + 1 := by
  have hdigit : ∀ c, isArNum c = true → isSpace c = false ∧ isDotChar c = false := fun c hc =>
    ⟨isSpace_of_isDecimal (isDecimal_of_isArNum hc),
      Bool.eq_false_iff.mpr fun hd => by simp [(isDotChar_classes hd).1] at hc⟩
  have hns : ∀ c ∈ x :: groupsText gs, isSpace c = false := by
    simp only [List.mem_cons, groupsText, List.mem_flatMap]
    rintro c (rfl | ⟨p, hp, rfl | hc⟩)
    · exact (isLetter_classes hx).1
    · exact (isDotChar_classes (hv p hp).1).2.2.1
    · exact (hdigit c ((hv p hp).2.2 c hc)).1
  obtain ⟨init, e, he, hlast⟩ : ∃ init e, isArNum e = true ∧ x :: groupsText gs = init ++ [e] := by
    obtain ⟨gs', p, rfl⟩ := (List.eq_nil_or_concat gs).resolve_left hgs
    obtain ⟨-, hne, hg⟩ := hv p (by simp)
    obtain ⟨g', e, hpe⟩ := (List.eq_nil_or_concat p.2).resolve_left hne
    refine ⟨x :: (groupsText gs' ++ p.1 :: g'), e, hg e (by simp [hpe]), ?_⟩
    simp [groupsText, List.flatMap_append, hpe]
  have hsplit := splitOnP_groupsText
    (fun p hp => ⟨(hv p hp).1, fun c hc => (hdigit c ((hv p hp).2.2 c hc)).2⟩)
    (show ∀ c ∈ [x], isDotChar c = false by simpa using (isLetter_classes hx).2.2)
  rw [letterLevel, stripChars_of_forall hns, hlast,
    subTrailingDot_concat init (hdigit e he).2 (by rintro rfl; exact absurd he (by decide)), ← hlast,
    show x :: groupsText gs = [x] ++ groupsText gs from rfl, hsplit, List.filter_eq_self.mpr]
  · simp
  · simp only [List.mem_cons, List.mem_map]
    rintro a (rfl | ⟨p, hp, rfl⟩)
    · have : stripChars [x] = [x] := stripChars_of_forall (by simpa using (isLetter_classes hx).1)
      simp [this]
    · rw [stripChars_of_forall fun c hc => (hdigit c ((hv p hp).2.2 c hc)).1]
      simpa [List.isEmpty_iff] using (hv p hp).2.1

end Letter

section Ordinal

variable {ws₁ num ws₂ r : List Char} {m : Char}

theorem markers_classes : ∀ c ∈ Label.markers, isSpace c = false ∧ isCnNum c = false := by decide

/-- A template matches an ordinal label exactly when its marker is one of the template's. -/
theorem matches_normalPattern_ordinal (hv : (Label.ordinal ws₁ num ws₂ m).Valid)
    (hr : FollowsLabel r) (markers : String)
    (hmk : ∀ c ∈ markers.data, isSpace c = false ∧ isCnNum c = false) :
    (Re.seq (normalTemplate markers) contentPattern).matches false
      ((Label.ordinal ws₁ num ws₂ m).text ++ r) = decide (m ∈ markers.data) := by
  obtain ⟨hws₁, hnum, hws₂, hm⟩ := hv
  have hl : (Label.ordinal ws₁ num ws₂ m).text ++ r = '第' :: (ws₁ ++ (num ++ (ws₂ ++ m :: r))) := by
    simp [Label.text]
  rw [Re.matches, run_seq, flatMap_run_normalTemplate _ hmk hl hws₁ hnum hws₂ (markers_classes m hm)]
  by_cases hmem : m ∈ markers.data
  · simpa [hmem, List.isEmpty_iff] using hr.run_contentPattern_ne_nil
  · simp [hmem]

end Ordinal

theorem matches_numberPattern_eq_false {l : List Char}
    (hl : ∀ c u, l = c :: u → isSpace c = false ∧ isArNum c = false) (k : Nat) :
    (numberPattern k).matches false l = false := by
  rw [Re.matches, run_numberPattern_eq_nil hl]
  rfl

theorem matchGroup_letterNumber_eq_none {l : List Char}
    (hl : ∀ c u, l = c :: u → isSpace c = false ∧ isLetter c = false) :
    Re.matchGroup false .bol letterNumberGroup (.seq sepLoose contentPattern) l = none := by
  simp only [Re.matchGroup, run_bol, if_true, List.findSome?_cons, run_letterNumberGroup_eq_nil hl]
  rfl

/-- A line that starts with a label followed by content gets the label's level. -/
theorem levelOfLine_label {lam : Label} {r : List Char} (hlam : lam.Valid) (hr : FollowsLabel r) :
    levelOfLine (lam.text ++ r) = lam.level := by
  unfold levelOfLine
  cases lam with
  | decimal first gs =>
    obtain ⟨hfirst, hne, hgs⟩ := hlam
    have hlen := List.length_pos.mpr hne
    simp only [Label.text, List.append_assoc, numberPatternsWithLevel_eq, List.find?_cons,
      matches_numberPattern_decimal hfirst hgs hr 4 (by omega),
      matches_numberPattern_decimal hfirst hgs hr 3 (by omega),
      matches_numberPattern_decimal hfirst hgs hr 2 (by omega), Label.level, Label.depth]
    by_cases h4 : 4 ≤ gs.length + 1
    · simp [h4]
    by_cases h3 : 3 ≤ gs.length + 1
    · simp [h4, h3]; omega
    · simp [h4, h3, show 2 ≤ gs.length + 1 by omega]; omega
  | decimalDot first d =>
    obtain ⟨hfirst, hd⟩ := hlam
    simp only [Label.text, List.append_assoc, List.singleton_append, numberPatternsWithLevel_eq,
      List.find?_cons, matches_numberPattern_decimalDot hfirst hd hr 4 (by omega),
      matches_numberPattern_decimalDot hfirst hd hr 3 (by omega),
      matches_numberPattern_decimalDot hfirst hd hr 2 (by omega),
      matches_numberPattern_decimalDot hfirst hd hr 1 le_rfl]
    rfl
  | letter x gs =>
    obtain ⟨hx, hne, hv⟩ := hlam
    have hstart : ∀ c u, x :: (groupsText gs ++ r) = c :: u →
        isSpace c = false ∧ isArNum c = false := by
      rintro c u ⟨⟩; exact ⟨(isLetter_classes hx).1, (isLetter_classes hx).2.1⟩
    simp only [Label.text, List.cons_append, numberPatternsWithLevel_eq, List.find?_cons,
      matches_numberPattern_eq_false hstart,
      List.find?_nil, letterPatterns, generateLetterNumberPatterns, List.findSome?_cons,
      matchGroup_letterNumber hx hne hv hr, letterLevel_letter hx hne hv]
    rfl
  | ordinal ws₁ num ws₂ m =>
    -- the line starts with `第`
    have hstart : ∀ c u, (Label.ordinal ws₁ num ws₂ m).text ++ r = c :: u →
        isSpace c = false ∧ isArNum c = false ∧ isLetter c = false := by
      rintro c u ⟨⟩; decide
    simp only [numberPatternsWithLevel_eq, List.find?_cons, List.find?_nil,
      matches_numberPattern_eq_false fun c u h => ⟨(hstart c u h).1, (hstart c u h).2.1⟩,
      letterPatterns, generateLetterNumberPatterns, List.findSome?_cons,
      matchGroup_letterNumber_eq_none fun c u h => ⟨(hstart c u h).1, (hstart c u h).2.2⟩,
      normalPatternsWithLevel_eq, matches_normalPattern_ordinal hlam hr "篇卷章" (by decide),
      matches_normalPattern_ordinal hlam hr "节" (by decide),
      matches_normalPattern_ordinal hlam hr "条" (by decide)]
    have hcases : ∀ c ∈ Label.markers, c = '篇' ∨ c = '卷' ∨ c = '章' ∨ c = '节' ∨ c = '条' := by
      decide
    rcases hcases m hlam.2.2.2 with rfl | rfl | rfl | rfl | rfl <;> rfl

/-- A first line that starts with a numbering label followed by content gets its level. -/
theorem calculateLevelByRegex_label (s : String) (lam : Label) (r : List Char) (hlam : lam.Valid)
    (hl : firstLineOf s = lam.text ++ r) (hr : FollowsLabel r) :
    calculateLevelByRegex s = lam.level := by
  rw [calculateLevelByRegex_eq, hl, levelOfLine_label hlam hr]

theorem calculateLevelByRegex_sectionTitle : calculateLevelByRegex "1.2 Scope" = 2 :=
  calculateLevelByRegex_label "1.2 Scope" (.decimal ['1'] [('.', ['2'])]) " Scope".data (by decide)
    (by decide) (by decide)

/-- `1.2.3` alone states depth 3, but every pattern wants content after it: level 2. -/
theorem calculateLevelByRegex_label_at_end :
    (Label.decimal ['1'] [('.', ['2']), ('.', ['3'])]).Valid ∧
      firstLineOf "1.2.3" = (Label.decimal ['1'] [('.', ['2']), ('.', ['3'])]).text ++ [] ∧
      (Label.decimal ['1'] [('.', ['2']), ('.', ['3'])]).level = 3 ∧
      calculateLevelByRegex "1.2.3" = 2 := by
  decide

/-- Only a line starting with a digit, an ASCII letter or `第` gets a level: not `一、`. -/
theorem calculateLevelByRegex_eq_zero (s : String) (c : Char) (u : List Char)
    (hl : firstLineOf s = c :: u) (hc : isArNum c = false ∧ isLetter c = false ∧ c ≠ '第') :
    calculateLevelByRegex s = 0 := by
  have hsp := isSpace_of_stripChars_eq_cons hl
  have hstart : ∀ d v, c :: u = d :: v →
      isSpace d = false ∧ isArNum d = false ∧ isLetter d = false ∧ d ≠ '第' := by
    rintro d v ⟨⟩; exact ⟨hsp, hc⟩
  have hnormal : ∀ markers : String,
      (Re.seq (normalTemplate markers) contentPattern).matches false (c :: u) = false := fun _ => by
    rw [Re.matches, run_seq,
      run_normalTemplate_eq_nil fun d v h => ⟨(hstart d v h).1, (hstart d v h).2.2.2⟩]
    rfl
  rw [calculateLevelByRegex_eq, hl]
  simp only [levelOfLine, numberPatternsWithLevel_eq, List.find?_cons, List.find?_nil,
    matches_numberPattern_eq_false fun d v h => ⟨(hstart d v h).1, (hstart d v h).2.1⟩,
    letterPatterns, generateLetterNumberPatterns, List.findSome?_cons, List.findSome?_nil,
    matchGroup_letterNumber_eq_none fun d v h => ⟨(hstart d v h).1, (hstart d v h).2.2.1⟩,
    normalPatternsWithLevel_eq, hnormal]

theorem calculateLevelByRegex_cnEnumeration : calculateLevelByRegex "一、总则" = 0 :=
  calculateLevelByRegex_eq_zero "一、总则" '一' "、总则".data (by decide) (by decide)

theorem le_of_find?_eq_some {ps : List (Re × Nat)} {q : Re × Nat → Bool} {r : Re} {k m : Nat}
    (h : ps.find? q = some (r, k)) (hps : ∀ p ∈ ps, p.2 ≤ m) : k ≤ m :=
  hps _ (List.mem_of_find?_eq_some h)

/-- Only the letter pattern gives a level above 4 (`A.1.2.3.4` is at level 5). -/
theorem calculateLevelByRegex_le_four (s : String) :
    calculateLevelByRegex s ≤ 4 ∨ ∃ c u, firstLineOf s = c :: u ∧ isLetter c = true := by
  by_cases hletter : ∃ c u, firstLineOf s = c :: u ∧ isLetter c = true
  · exact .inr hletter
  refine .inl ?_
  have hstart : ∀ c u, firstLineOf s = c :: u → isSpace c = false ∧ isLetter c = false :=
    fun c u h => ⟨isSpace_of_stripChars_eq_cons h, Bool.eq_false_iff.mpr fun hc => hletter ⟨c, u, h, hc⟩⟩
  have hnone : letterPatterns.findSome? (fun p => Re.matchGroup false p.pre p.group p.post
      (firstLineOf s)) = none := by
    simp only [letterPatterns, generateLetterNumberPatterns, List.findSome?_cons,
      List.findSome?_nil, matchGroup_letterNumber_eq_none hstart]
  rw [calculateLevelByRegex_eq]
  unfold levelOfLine
  split
  next h => exact le_of_find?_eq_some h (by simp [numberPatternsWithLevel_eq])
  next =>
    rw [hnone]
    dsimp only
    split
    next h => exact le_of_find?_eq_some h (by simp [normalPatternsWithLevel_eq])
    next => omega

example : calculateLevelByRegex "A.1.2.3.4 Intro" = 5 := by decide

/-- `_parse_nodes` sets no level above 4 but on a text node whose first line starts with a letter. -/
theorem parseNode_level_le (b : DocNode) :
    (parseNode b).level ≤ max b.level 4 ∨ ∃ c u, firstLineOf b.text = c :: u ∧ isLetter c = true := by
  unfold parseNode
  split_ifs
  · exact .inl (le_max_left _ _)
  · exact .inl (by simp [DocNode.level, DocNode.setTextLevel])
  · rcases calculateLevelByRegex_le_four b.text with hle | hletter
    · refine .inl ?_
      dsimp only
      split_ifs
      · simp only [DocNode.level, DocNode.setTextLevel, Option.getD_some]
        omega
      · exact le_max_left _ _
    · exact .inr hletter
  · exact .inl (le_max_left _ _)

end LayoutNodeParser

end RagParsers
