import RagParsers.Layout.Read

/-! A line gets the level of the deepest label it can be read as starting with. The letter pattern
needs the order in which the matcher backtracks (`Letter`). -/

namespace RagParsers

namespace LayoutNodeParser

section First

variable {α β : Type}

/-- A search in which one element alone can succeed finds what that element gives. -/
theorem findSome?_eq_of_unique {f : α → Option β} {l : List α} {u : α}
    (hl : ∀ a ∈ l, (f a).isSome → a = u) (hu : u ∈ l) : l.findSome? f = f u := by
  cases h : l.findSome? f with
  | none => exact (List.findSome?_eq_none_iff.mp h u hu).symm
  | some b =>
    obtain ⟨a, ha, hab⟩ := List.exists_of_findSome?_eq_some h
    rw [← hl a ha (by simp [hab]), hab]

theorem find?_flatMap_of_unique {P : β → Bool} {F : α → List β} {l : List α} {u : α}
    (hl : ∀ a ∈ l, (∃ b ∈ F a, P b = true) → a = u) (hu : u ∈ l) :
    (l.flatMap F).find? P = (F u).find? P := by
  rw [List.find?_flatMap]
  refine findSome?_eq_of_unique (fun a ha h => hl a ha ?_) hu
  obtain ⟨b, hb⟩ := Option.isSome_iff_exists.mp h
  exact ⟨b, List.mem_of_find?_eq_some hb, List.find?_some hb⟩

theorem le_of_find?_of_antitone {ps : List (Re × Nat)} {q : Re × Nat → Bool} {p : Re × Nat}
    {r : Re} {k : Nat} (hps : ps.Pairwise fun a b => b.2 ≤ a.2) (hp : p ∈ ps) (hq : q p = true)
    (h : ps.find? q = some (r, k)) : p.2 ≤ k := by
  obtain ⟨-, as, bs, rfl, has⟩ := List.find?_eq_some.mp h
  rcases List.mem_append.mp hp with hp | hp
  · simpa [hq] using has p hp
  · rcases List.mem_cons.mp hp with rfl | hp
    · exact le_rfl
    · exact (List.pairwise_cons.mp (List.pairwise_append.mp hps).2.1).1 p hp

end First

section Letter

variable {n : Nat}

theorem not_isDotChar_of_isArNum {c : Char} (hc : isArNum c = true) : isDotChar c = false :=
  Bool.eq_false_iff.mpr fun hd => by simp [(isDotChar_classes hd).1] at hc

/-- Of the rests `{DOT}{AR_NUM}+` leaves, one at most does not start with a digit. -/
theorem eq_of_mem_run_dotDigits {s u₁ u₂ : List Char}
    (h₁ : u₁ ∈ (Re.seq dot (.plus arNum)).run false n s) (h₂ : u₂ ∈ (Re.seq dot (.plus arNum)).run false n s)
    (hu₁ : ∀ c w, u₁ = c :: w → isArNum c = false) (hu₂ : ∀ c w, u₂ = c :: w → isArNum c = false) :
    u₁ = u₂ := by
  obtain ⟨d₁, g₁, rfl, -, -, hg₁⟩ := group_of_mem_run_dotDigits h₁
  obtain ⟨d₂, g₂, h, -, -, hg₂⟩ := group_of_mem_run_dotDigits h₂
  have := congrArg (List.dropWhile isArNum) (List.cons.inj h).2
  rwa [(takeWhile_dropWhile_of_split hg₁ hu₁).2, (takeWhile_dropWhile_of_split hg₂ hu₂).2] at this

theorem optionalRun_dotDigits_of_isArNum {fuel : Nat} {hi : Option Nat} {g : Bool} {c : Char}
    {w : List Char} (hc : isArNum c = true) :
    optionalRun ((Re.seq dot (.plus arNum)).run false n) g hi fuel (c :: w) = [c :: w] :=
  optionalRun_of_step_eq_nil (run_dotDigits_eq_nil fun d u h hd => by
    cases h
    simp [(isDotChar_classes hd).1] at hc)

theorem length_le_of_mem_optionalRun {step : List Char → List (List Char)} {g : Bool} :
    ∀ {hi : Option Nat} {fuel : Nat} {s t : List Char}, t ∈ optionalRun step g hi fuel s →
      t.length ≤ s.length
  | _, 0, s, t, h => by simp [optionalRun] at h; simp [h]
  | hi, fuel + 1, s, t, h => by
    have hmore : ∀ t ∈ ((step s).filter (·.length < s.length)).flatMap
        (optionalRun step g (hi.map (· - 1)) fuel), t.length ≤ s.length := fun t ht => by
      obtain ⟨u, hu, ht⟩ := List.mem_flatMap.mp ht
      have h₁ := length_le_of_mem_optionalRun ht
      have h₂ := (List.mem_filter.mp hu).2
      simp only [decide_eq_true_eq] at h₂
      omega
    unfold optionalRun at h
    split_ifs at h
    · rw [List.mem_singleton.mp h]
    · rcases List.mem_append.mp h with h | h
      · exact hmore t h
      · rw [List.mem_singleton.mp h]
    · rcases List.mem_cons.mp h with rfl | h
      · exact le_rfl
      · exact hmore t h

theorem find?_flatMap_dotDigits (P : List Char → Bool) {s : List Char} {l : List (List Char)} {F : List Char → List (List Char)}
    (hl : ∀ u ∈ l, u ∈ (Re.seq dot (.plus arNum)).run false n s)
    (hdigit : ∀ c w, isArNum c = true → ∀ t ∈ F (c :: w), P t = false)
    (hF : ∀ u t, t ∈ F u → P t = true → ∃ v, (F u).find? P = some v ∧ v.length ≤ t.length)
    {t : List Char} (ht : t ∈ l.flatMap F) (hPt : P t = true) :
    ∃ v, (l.flatMap F).find? P = some v ∧ v.length ≤ t.length := by
  obtain ⟨u, hu, htu⟩ := List.mem_flatMap.mp ht
  have hstart : ∀ {u}, (∃ t ∈ F u, P t = true) → ∀ c w, u = c :: w → isArNum c = false := by
    rintro u ⟨t, ht, hPt⟩ c w rfl
    exact Bool.eq_false_iff.mpr fun hc => by simp [hdigit c w hc t ht] at hPt
  rw [find?_flatMap_of_unique (fun a ha h => eq_of_mem_run_dotDigits (hl a ha) (hl u hu) (hstart h)
    (hstart ⟨t, htu, hPt⟩)) hu]
  exact hF u t htu hPt

/-- The greedy `(?:{DOT}{AR_NUM}+)*` lists first a shortest rest that passes such a test. -/
theorem find?_optionalRun_dotDigits (P : List Char → Bool)
    (hP : ∀ c u, P (c :: u) = true → isArNum c = false) :
    ∀ {fuel : Nat} {s t : List Char}, t ∈ optionalRun ((Re.seq dot (.plus arNum)).run false n) true none fuel s →
      P t = true →
      ∃ v, (optionalRun ((Re.seq dot (.plus arNum)).run false n) true none fuel s).find? P = some v ∧
        v.length ≤ t.length
  | 0, s, t, ht, hPt => by
    obtain rfl : t = s := by simpa [optionalRun] using ht
    exact ⟨t, by simp [optionalRun, hPt], le_rfl⟩
  | fuel + 1, s, t, ht, hPt => by
    have hR : optionalRun ((Re.seq dot (.plus arNum)).run false n) true none (fuel + 1) s =
        (((Re.seq dot (.plus arNum)).run false n s).filter (·.length < s.length)).flatMap
          (optionalRun ((Re.seq dot (.plus arNum)).run false n) true none fuel) ++ [s] := by
      simp [optionalRun]
    obtain ⟨v, hv⟩ := Option.isSome_iff_exists.mp (List.find?_isSome.mpr ⟨t, ht, hPt⟩)
    rw [hR, List.mem_append, List.mem_singleton] at ht
    rcases ht with ht | rfl
    · obtain ⟨v', hv', hle⟩ := find?_flatMap_dotDigits P (fun u hu => (List.mem_filter.mp hu).1)
        (fun c w hc t ht => by
          rw [optionalRun_dotDigits_of_isArNum hc, List.mem_singleton] at ht
          subst ht
          exact Bool.eq_false_iff.mpr fun h => by simp [hP c w h] at hc)
        (fun u t ht hPt => find?_optionalRun_dotDigits P hP ht hPt) ht hPt
      exact ⟨v', by rw [hR, List.find?_append, hv']; rfl, hle⟩
    · exact ⟨v, hv, length_le_of_mem_optionalRun (List.mem_of_find?_eq_some hv)⟩

theorem run_star_dotDigits (w : List Char) :
    (Re.star (.seq dot (.plus arNum))).run false n w =
      optionalRun ((Re.seq dot (.plus arNum)).run false n) true none w.length w := by
  simp [Re.star, run_rep, repeatRun, mandatoryRun]

theorem run_letterNumberGroup_cons {x : Char} (hx : isLetter x = true) (l : List Char) :
    letterNumberGroup.run false n (x :: l) =
      ((Re.seq dot (.plus arNum)).run false n l).flatMap ((Re.star (.seq dot (.plus arNum))).run false n) := by
  rw [letterNumberGroup, run_seqs_cons, run_star_space,
    repeatRun_charStep_of_not (by rintro c u ⟨⟩; exact (isLetter_classes hx).1),
    List.flatMap_singleton, run_seqs_cons, run_letter]
  simp only [charStep, hx, if_true, List.flatMap_singleton]
  rw [run_seq, List.flatMap_assoc]
  rfl

theorem find?_run_letterNumberGroup (P : List Char → Bool)
    (hP : ∀ c u, P (c :: u) = true → isArNum c = false) {x : Char} {l t : List Char} (hx : isLetter x = true)
    (ht : t ∈ letterNumberGroup.run false n (x :: l)) (hPt : P t = true) :
    ∃ v, (letterNumberGroup.run false n (x :: l)).find? P = some v ∧ v.length ≤ t.length := by
  rw [run_letterNumberGroup_cons hx] at ht ⊢
  refine find?_flatMap_dotDigits P (fun u hu => hu) (fun c w hc t ht => ?_)
    (fun u t ht hPt => ?_) ht hPt
  · rw [run_star_dotDigits, optionalRun_dotDigits_of_isArNum hc, List.mem_singleton] at ht
    subst ht
    exact Bool.eq_false_iff.mpr fun h => by simp [hP c w h] at hc
  · rw [run_star_dotDigits] at ht ⊢
    exact find?_optionalRun_dotDigits P hP ht hPt

end Letter

theorem not_isArNum_of_run_post {n : Nat} {c : Char} {u : List Char}
    (h : (!((Re.seq sepLoose contentPattern).run false n (c :: u)).isEmpty) = true) : isArNum c = false :=
  Bool.eq_false_iff.mpr fun hc => by
    have hnil : (Re.seq sepLoose contentPattern).run false n (c :: u) = [] :=
      run_sepLoose_contentPattern_of_isDecimal (isDecimal_of_isArNum hc)
    simp [hnil] at h

theorem countP_isDotChar_groupsText : ∀ {gs : List (Char × List Char)}, LetterGroups gs →
    (groupsText gs).countP isDotChar = gs.length
  | [], _ => rfl
  | p :: gs, hgs => by
    rw [LetterGroups, List.forall_mem_cons] at hgs
    obtain ⟨⟨hd, -, hg⟩, hgs⟩ := hgs
    have hg0 : p.2.countP isDotChar = 0 :=
      List.countP_eq_zero.mpr fun c hc => by simp [not_isDotChar_of_isArNum (hg c hc)]
    simp only [groupsText_cons, List.countP_cons, List.countP_append, hd, hg0,
      countP_isDotChar_groupsText hgs, if_true, List.length_cons]
    omega

/-- The letter pattern's group has at least as many groups as every letter label of the line. -/
theorem le_letterLevel_of_matchGroup {x : Char} {gs : List (Char × List Char)} {r g : List Char}
    (hx : isLetter x = true) (hne : gs ≠ []) (hgs : LetterGroups gs) (hr : ContentAfter r)
    (h : Re.matchGroup false .bol letterNumberGroup (.seq sepLoose contentPattern)
      (x :: (groupsText gs ++ r)) = some g) :
    gs.length + 1 ≤ letterLevel g := by
  obtain ⟨t, ht⟩ := exists_mem_run_contentPattern (x :: (groupsText gs ++ r)).length hr
  obtain ⟨v, hv, hvr⟩ := find?_run_letterNumberGroup
    (fun v => !((Re.seq sepLoose contentPattern).run false (x :: (groupsText gs ++ r)).length v).isEmpty)
    (fun c u => not_isArNum_of_run_post) hx (mem_run_letterNumberGroup hx hne hgs :
      r ∈ letterNumberGroup.run false (x :: (groupsText gs ++ r)).length (x :: (groupsText gs ++ r)))
    (by simpa [List.isEmpty_iff] using List.ne_nil_of_mem (mem_run_seq.mpr ⟨r, mem_run_rep_zero, ht⟩))
  have htake : Re.matchGroup false .bol letterNumberGroup (.seq sepLoose contentPattern)
      (x :: (groupsText gs ++ r)) = some ((x :: (groupsText gs ++ r)).take
        ((x :: (groupsText gs ++ r)).length - v.length)) := by
    simp only [Re.matchGroup, run_bol, if_true, List.findSome?_cons, hv, Option.map_some']
  obtain ⟨x', gs', r', hv', rfl, hsplit, -⟩ :=
    label_of_matchGroup_letter (by rintro c u ⟨⟩; exact (isLetter_classes hx).1) h
  have hsplit' : (x :: groupsText gs) ++ r = (x' :: groupsText gs') ++ r' := hsplit
  -- the rest after the group taken is the one found, no longer than `r`
  have hlen₁ := congrArg List.length (Option.some.inj (h.symm.trans htake))
  have hlen₂ := congrArg List.length hsplit'
  simp only [Label.text, List.length_take, List.length_append, List.length_cons] at hlen₁ hlen₂
  have hpre : x :: groupsText gs <+: x' :: groupsText gs' :=
    List.prefix_of_prefix_length_le (List.prefix_append _ r)
      (by rw [hsplit']; exact List.prefix_append _ r') (by simp only [List.length_cons]; omega)
  have hcount := hpre.sublist.countP_le isDotChar
  simp only [List.countP_cons, countP_isDotChar_groupsText hgs, countP_isDotChar_groupsText hv'.2.2,
    (isLetter_classes hx).2.2, (isLetter_classes hv'.1).2.2] at hcount
  show _ ≤ letterLevel (x' :: groupsText gs')
  rw [letterLevel_letter hv'.1 hv'.2.1 hv'.2.2]
  omega

section Families

theorem mem_numberPatternsWithLevel {k : Nat} (hk : 1 ≤ k ∧ k ≤ 4) :
    (numberPattern k, k) ∈ numberPatternsWithLevel := by
  rcases (by omega : k = 1 ∨ k = 2 ∨ k = 3 ∨ k = 4) with rfl | rfl | rfl | rfl <;>
    simp [numberPatternsWithLevel_eq]

theorem le_levelOfLine_of_number {l : List Char} (k : Nat) (hk : 1 ≤ k ∧ k ≤ 4)
    (hm : (numberPattern k).matches false l = true) : k ≤ levelOfLine l := by
  unfold levelOfLine
  split
  next h =>
    exact le_of_find?_of_antitone (by simp [numberPatternsWithLevel_eq])
      (mem_numberPatternsWithLevel hk) hm h
  next h => exact absurd hm (List.find?_eq_none.mp h _ (mem_numberPatternsWithLevel hk))

theorem le_levelOfLine_of_letter {x : Char} {gs : List (Char × List Char)} {r : List Char}
    (hv : (Label.letter x gs).Valid) (hr : ContentAfter r) :
    (Label.letter x gs).level ≤ levelOfLine ((Label.letter x gs).text ++ r) := by
  obtain ⟨hx, hne, hgs⟩ := hv
  have hstart : ∀ c u, x :: (groupsText gs ++ r) = c :: u → isSpace c = false ∧ isArNum c = false := by
    rintro c u ⟨⟩; exact ⟨(isLetter_classes hx).1, (isLetter_classes hx).2.1⟩
  obtain ⟨g, hg⟩ := Option.isSome_iff_exists.mp (matchGroup_letter_isSome hx hne hgs hr)
  simp only [levelOfLine, Label.text, List.cons_append, numberPatternsWithLevel_eq, List.find?_cons,
    matches_numberPattern_eq_false hstart, List.find?_nil, letterPatterns_findSome?, hg]
  exact le_letterLevel_of_matchGroup hx hne hgs hr hg

theorem template_markers_classes {markers : String} (h : markers.data <:+: Label.markers) :
    ∀ c ∈ markers.data, isSpace c = false ∧ isCnNum c = false :=
  fun c hc => markers_classes c (h.subset hc)

/-- A template matches an ordinal label exactly when the marker is one of the template's. -/
theorem matches_normalPattern_ordinal_of_contentAfter {ws₁ num ws₂ r : List Char} {m : Char}
    (hv : (Label.ordinal ws₁ num ws₂ m).Valid) (hr : ContentAfter r) (markers : String)
    (hmk : ∀ c ∈ markers.data, isSpace c = false ∧ isCnNum c = false) :
    (Re.seq (normalTemplate markers) contentPattern).matches false
      ((Label.ordinal ws₁ num ws₂ m).text ++ r) = decide (m ∈ markers.data) := by
  by_cases hmem : m ∈ markers.data
  · simpa [hmem] using matches_normalPattern_read hv hr hmem
  · obtain ⟨hws₁, hnum, hws₂, hm⟩ := hv
    have hl : (Label.ordinal ws₁ num ws₂ m).text ++ r = '第' :: (ws₁ ++ (num ++ (ws₂ ++ m :: r))) := by
      simp [Label.text]
    rw [Re.matches, run_seq, flatMap_run_normalTemplate _ hmk hl hws₁ hnum hws₂ (markers_classes m hm)]
    simp [hmem]

theorem le_levelOfLine_of_ordinal {ws₁ num ws₂ r : List Char} {m : Char}
    (hv : (Label.ordinal ws₁ num ws₂ m).Valid) (hr : ContentAfter r) :
    (Label.ordinal ws₁ num ws₂ m).level ≤ levelOfLine ((Label.ordinal ws₁ num ws₂ m).text ++ r) := by
  -- the line starts with `第`
  have hstart : ∀ c u, (Label.ordinal ws₁ num ws₂ m).text ++ r = c :: u →
      isSpace c = false ∧ isArNum c = false ∧ isLetter c = false := by
    rintro c u ⟨⟩; decide
  simp only [levelOfLine, numberPatternsWithLevel_eq, List.find?_cons, List.find?_nil,
    matches_numberPattern_eq_false fun c u h => ⟨(hstart c u h).1, (hstart c u h).2.1⟩,
    letterPatterns_findSome?,
    matchGroup_letterNumber_eq_none fun c u h => ⟨(hstart c u h).1, (hstart c u h).2.2⟩,
    normalPatternsWithLevel_eq,
    matches_normalPattern_ordinal_of_contentAfter hv hr "篇卷章"
      (template_markers_classes ⟨[], "节条".data, rfl⟩),
    matches_normalPattern_ordinal_of_contentAfter hv hr "节"
      (template_markers_classes ⟨"篇卷章".data, "条".data, rfl⟩),
    matches_normalPattern_ordinal_of_contentAfter hv hr "条"
      (template_markers_classes ⟨"篇卷章节".data, [], rfl⟩)]
  have hcases : ∀ c ∈ Label.markers, c = '篇' ∨ c = '卷' ∨ c = '章' ∨ c = '节' ∨ c = '条' := by
    decide
  rcases hcases m hv.2.2.2 with rfl | rfl | rfl | rfl | rfl <;> exact le_of_eq rfl

end Families

/-- A line gets at least the level of every label it can be read as starting with. -/
theorem le_levelOfLine_of_read {lam : Label} {r : List Char} (hlam : lam.Read) (hr : ContentAfter r) :
    lam.level ≤ levelOfLine (lam.text ++ r) := by
  cases lam with
  | decimal first gs =>
    obtain ⟨hfirst, hne, hlen, hgs⟩ := hlam
    have hpos := List.length_pos.mpr hne
    have := le_levelOfLine_of_number (gs.length + 1) ⟨by omega, by omega⟩ (by
      simpa [Label.text] using matches_numberPattern_read hfirst hne hgs hr)
    simp only [Label.level, Label.depth, Label.text, List.append_assoc]
    omega
  | decimalDot first d =>
    obtain ⟨hfirst, hd⟩ := hlam
    simpa [Label.level, Label.depth] using le_levelOfLine_of_number 1 ⟨le_rfl, by omega⟩
      (by simpa [Label.text] using matches_numberPattern_one_read hfirst hd hr)
  | letter x gs => exact le_levelOfLine_of_letter hlam hr
  | ordinal ws₁ num ws₂ m => exact le_levelOfLine_of_ordinal hlam hr

theorem le_calculateLevelByRegex_of_read (s : String) (lam : Label) (r : List Char) (hlam : lam.Read)
    (hl : firstLineOf s = lam.text ++ r) (hr : ContentAfter r) : lam.level ≤ calculateLevelByRegex s := by
  rw [calculateLevelByRegex_eq, hl]
  exact le_levelOfLine_of_read hlam hr

theorem le_calculateLevelByRegex_of_read_deepLetter :
    (Label.letter 'A' [('.', ['1']), ('.', ['2']), ('.', ['3']), ('.', ['4'])]).Read ∧
      firstLineOf "A.1.2.3.4 Intro" =
        (Label.letter 'A' [('.', ['1']), ('.', ['2']), ('.', ['3']), ('.', ['4'])]).text ++ " Intro".data ∧
      ContentAfter " Intro".data ∧
      (Label.letter 'A' [('.', ['1']), ('.', ['2']), ('.', ['3']), ('.', ['4'])]).level ≤
        calculateLevelByRegex "A.1.2.3.4 Intro" :=
  have hr : ContentAfter " Intro".data :=
    ⟨[' '], 'I', "ntro".data, by decide, by decide, by decide, by decide⟩
  ⟨by decide, by decide, hr, le_calculateLevelByRegex_of_read "A.1.2.3.4 Intro"
    (Label.letter 'A' [('.', ['1']), ('.', ['2']), ('.', ['3']), ('.', ['4'])]) " Intro".data
    (by decide) (by decide) hr⟩

end LayoutNodeParser

end RagParsers
