import RagParsers.Layout.Parser

/-! How the level patterns run over a labelled line, piece by piece: a greedy run of one class ends
where the class ends. -/

namespace RagParsers

namespace LayoutNodeParser

/-- `AR_NUM` -/
def isArNum (c : Char) : Bool := ('0' ≤ c && c ≤ '9') || ('０' ≤ c && c ≤ '９')

/-- `LETTER` -/
def isLetter (c : Char) : Bool := ('a' ≤ c && c ≤ 'z') || ('A' ≤ c && c ≤ 'Z')

def isCnNum (c : Char) : Bool := cnNumChars.any (· == c)

/-- The closing brackets that `INVALID_FOLLOW` excludes besides the digits. -/
def isCloser (c : Char) : Bool := [')', '）', ']', '】', '\x7d'].any (· == c)

section Classes

variable {n : Nat} {ic : Bool}

theorem run_dot : dot.run false n = charStep isDotChar := by
  funext s; rw [dot, run_set]; congr 1; funext c
  by_cases h1 : c = '.'
  · subst h1; decide
  by_cases h2 : c = '．'
  · subst h2; decide
  simp [ClassItem.test, isDotChar, h1, h2, Ne.symm h1, Ne.symm h2]

theorem run_arNum : arNum.run false n = charStep isArNum := by
  funext s; rw [arNum, run_set]; congr 1; funext c; simp [ClassItem.test, isArNum]

theorem run_letter : letter.run false n = charStep isLetter := by
  funext s; rw [letter, run_set]; congr 1; funext c; simp [ClassItem.test, isLetter]

theorem run_cnNum : cnNum.run false n = charStep isCnNum := run_set_lits cnNumChars

theorem run_invalidFollow :
    invalidFollow.run false n = charStep fun c => !(isDecimal c || isCloser c) := by
  funext s; rw [invalidFollow, run_set]; congr 1; funext c; simp [ClassItem.test, isCloser]

theorem run_lit (c : Char) : (Re.lit c).run false n = charStep (c == ·) := by
  funext s; rw [Re.lit, run_set]; congr 1; funext d; simp [ClassItem.test]

theorem run_star_space : (Re.star Re.space).run ic n = repeatRun (charStep isSpace) 0 none true := by
  rw [Re.star, run_rep, run_space]

theorem run_sepLoose : sepLoose.run ic n = repeatRun (charStep isSpace) 0 (some 1) true := by
  rw [sepLoose, Re.opt, run_rep, run_space]

theorem run_rep_arNum (lo : Nat) (hi : Option Nat) (g : Bool) :
    (Re.rep arNum lo hi g).run false n = repeatRun (charStep isArNum) lo hi g := by
  rw [run_rep, run_arNum]

theorem flatMap_run_star_space {α : Type} {s : List Char} {K : List Char → List α}
    (hK : ∀ c u, isSpace c = true → K (c :: u) = []) :
    ((Re.star Re.space).run ic n s).flatMap K = K (s.dropWhile isSpace) := by
  rw [run_star_space, flatMap_repeatRun_charStep hK (by simp)]
  simp

end Classes

section Disjoint

variable {c : Char}

theorem isDecimal_of_isArNum (h : isArNum c = true) : isDecimal c = true := by
  simp only [isArNum, Bool.or_eq_true, Bool.and_eq_true, decide_eq_true_eq] at h
  unfold isDecimal isDecimalCode
  apply List.any_eq_true.mpr
  rcases h with ⟨h1, h2⟩ | ⟨h1, h2⟩
  · have : 48 ≤ c.toNat ∧ c.toNat ≤ 57 := ⟨h1, h2⟩
    exact ⟨(0x30, 10), by decide, by simp only [Bool.and_eq_true, decide_eq_true_eq]; omega⟩
  · have : 0xFF10 ≤ c.toNat ∧ c.toNat ≤ 0xFF19 := ⟨h1, h2⟩
    exact ⟨(0xFF10, 10), by decide, by simp only [Bool.and_eq_true, decide_eq_true_eq]; omega⟩

theorem isSpace_of_isDecimal (h : isDecimal c = true) : isSpace c = false :=
  Bool.eq_false_iff.mpr fun hs => by simp [isDecimal_of_isSpace hs] at h

theorem not_isArNum_of_isSpace (h : isSpace c = true) : isArNum c = false :=
  Bool.eq_false_iff.mpr fun ha => by simp [isSpace_of_isDecimal (isDecimal_of_isArNum ha)] at h

theorem isDotChar_classes (h : isDotChar c = true) :
    isArNum c = false ∧ isDecimal c = false ∧ isSpace c = false ∧ isCloser c = false := by
  simp only [isDotChar, Bool.or_eq_true, decide_eq_true_eq] at h
  rcases h with rfl | rfl <;> decide

theorem isLetter_classes (h : isLetter c = true) :
    isSpace c = false ∧ isArNum c = false ∧ isDotChar c = false := by
  simp only [isLetter, Bool.or_eq_true, Bool.and_eq_true, decide_eq_true_eq] at h
  have hc : (97 ≤ c.toNat ∧ c.toNat ≤ 122) ∨ (65 ≤ c.toNat ∧ c.toNat ≤ 90) := by
    rcases h with ⟨h1, h2⟩ | ⟨h1, h2⟩
    · exact .inl ⟨h1, h2⟩
    · exact .inr ⟨h1, h2⟩
  refine ⟨Bool.eq_false_iff.mpr fun hs => ?_, Bool.eq_false_iff.mpr fun ha => ?_,
    Bool.eq_false_iff.mpr fun hd => ?_⟩
  · have := toNat_of_isSpace hs
    omega
  · simp only [isArNum, Bool.or_eq_true, Bool.and_eq_true, decide_eq_true_eq] at ha
    rcases ha with ⟨h1, h2⟩ | ⟨h1, h2⟩
    · have : 48 ≤ c.toNat ∧ c.toNat ≤ 57 := ⟨h1, h2⟩
      omega
    · have : 0xFF10 ≤ c.toNat ∧ c.toNat ≤ 0xFF19 := ⟨h1, h2⟩
      omega
  · simp only [isDotChar, Bool.or_eq_true, decide_eq_true_eq] at hd
    rcases hd with rfl | rfl <;> exact absurd hc (by decide)

theorem isSpace_of_isCnNum (h : isCnNum c = true) : isSpace c = false := by
  have hall : ∀ d ∈ cnNumChars, isSpace d = false := by decide
  simp only [isCnNum, List.any_eq_true, beq_iff_eq] at h
  obtain ⟨d, hd, rfl⟩ := h
  exact hall d hd

theorem not_isCnNum_of_isSpace (h : isSpace c = true) : isCnNum c = false :=
  Bool.eq_false_iff.mpr fun hc => by simp [isSpace_of_isCnNum hc] at h

end Disjoint

section Content

variable {n : Nat} {c : Char} {u : List Char}

/-- `CONTENT_PATTERN` matches at a character that is no decimal digit and no closing bracket. -/
theorem run_contentPattern_ne_nil (hd : isDecimal c = false) (hc : isCloser c = false) :
    contentPattern.run false n (c :: u) ≠ [] :=
  List.ne_nil_of_mem (mem_run_seqs_cons.mpr ⟨_, mem_repeatRun_zero,
    mem_run_seqs_cons.mpr ⟨u, by simp [run_invalidFollow, charStep, hd, hc], mem_repeatRun_zero⟩⟩)

theorem run_sepLoose_contentPattern_ne_nil (hd : isDecimal c = false) (hc : isCloser c = false) :
    (Re.seqs [sepLoose, contentPattern]).run false n (c :: u) ≠ [] := by
  obtain ⟨t, ht⟩ := List.exists_mem_of_ne_nil _
    (show contentPattern.run false n (c :: u) ≠ [] from run_contentPattern_ne_nil hd hc)
  exact List.ne_nil_of_mem (mem_run_seq.mpr ⟨_, mem_repeatRun_zero, ht⟩)

theorem run_contentPattern_of_isDecimal (h : isDecimal c = true) :
    contentPattern.run false n (c :: u) = [] := by
  rw [contentPattern, run_seqs_cons, run_star_space,
    repeatRun_charStep_of_not (by rintro d v ⟨⟩; exact isSpace_of_isDecimal h)]
  simp [run_seqs_cons, run_invalidFollow, charStep, h]

theorem run_sepLoose_contentPattern_of_isDecimal (h : isDecimal c = true) :
    (Re.seqs [sepLoose, contentPattern]).run false n (c :: u) = [] := by
  rw [run_seqs_cons, run_seqs_singleton, run_sepLoose,
    repeatRun_charStep_of_not (by rintro d v ⟨⟩; exact isSpace_of_isDecimal h)]
  simp [run_contentPattern_of_isDecimal h]

end Content

/-- The text of groups, each a dot and its digits. -/
def groupsText (gs : List (Char × List Char)) : List Char := gs.flatMap fun p => p.1 :: p.2

@[simp] theorem groupsText_nil : groupsText [] = [] := rfl

@[simp] theorem groupsText_cons (p : Char × List Char) (gs : List (Char × List Char)) :
    groupsText (p :: gs) = p.1 :: (p.2 ++ groupsText gs) := by
  simp [groupsText]

/-- The groups a decimal label has after its first: each a dot and one to three digits. -/
def BlockGroups (gs : List (Char × List Char)) : Prop :=
  ∀ p ∈ gs, isDotChar p.1 = true ∧ (1 ≤ p.2.length ∧ p.2.length ≤ 3) ∧ ∀ c ∈ p.2, isArNum c = true

instance : DecidablePred BlockGroups := fun gs =>
  inferInstanceAs (Decidable (∀ p ∈ gs, _))

theorem not_isArNum_groupsText_append {gs : List (Char × List Char)} {r : List Char}
    (hgs : ∀ p ∈ gs, isDotChar p.1 = true) (hr : ∀ c u, r = c :: u → isArNum c = false) :
    ∀ c u, groupsText gs ++ r = c :: u → isArNum c = false := by
  rcases gs with _ | ⟨p, gs⟩
  · exact hr
  · rintro c u ⟨⟩
    exact (isDotChar_classes (hgs p (List.mem_cons_self _ _))).1

section Blocks

variable {n : Nat}

theorem run_numBlock_of_not_dot {c : Char} {u : List Char} (h : isDotChar c = false) :
    numBlock.run false n (c :: u) = [] := by
  simp [numBlock, run_seqs_cons, run_dot, charStep, h]

/-- What follows the first group in a pattern of a level above 1 cannot start with a digit. -/
theorem run_numberRest_of_isArNum (j : Nat) {c : Char} {u : List Char} (hc : isArNum c = true) :
    (Re.seqs (List.replicate (j + 1) numBlock ++ [sepLoose, contentPattern])).run false n (c :: u) = [] := by
  rw [run_seqs_append, List.replicate_succ, run_seqs_cons, run_numBlock_of_not_dot]
  · rfl
  · exact Bool.eq_false_iff.mpr fun hd => by simp [(isDotChar_classes hd).1] at hc

theorem run_numBlock_eq_nil {r : List Char}
    (h : ∀ d u, r = d :: u → isDotChar d = true → (u.dropWhile isSpace).head?.any isArNum = false) :
    numBlock.run false n r = [] := by
  rcases r with _ | ⟨d, u⟩
  · simp [numBlock, run_seqs_cons, run_dot, charStep]
  by_cases hd : isDotChar d = true
  · rw [numBlock, run_seqs_cons, run_dot]
    simp only [charStep, hd, if_true, List.flatMap_singleton]
    rw [run_seqs_cons, run_seqs_singleton, run_rep_arNum, flatMap_run_star_space fun c v hc =>
        repeatRun_charStep_succ_of_not (by rintro e w ⟨⟩; exact not_isArNum_of_isSpace hc)]
    exact repeatRun_charStep_succ_of_not fun c w hw => by simpa [hw] using h d u rfl hd
  · exact run_numBlock_of_not_dot (Bool.eq_false_iff.mpr hd)

/-- A number block reads one group: its dot and all of its one to three digits. -/
theorem flatMap_run_numBlock {α : Type} {K : List Char → List α}
    (hK : ∀ c u, isArNum c = true → K (c :: u) = []) {d : Char} {g rest : List Char}
    (hd : isDotChar d = true) (hg : ∀ c ∈ g, isArNum c = true) (hlen : 1 ≤ g.length ∧ g.length ≤ 3)
    (hrest : ∀ c u, rest = c :: u → isArNum c = false) :
    (numBlock.run false n (d :: (g ++ rest))).flatMap K = K rest := by
  obtain ⟨htake, hdrop⟩ := takeWhile_dropWhile_of_split hg hrest
  have hs : ∀ c u, g ++ rest = c :: u → isSpace c = false := fun c u h => by
    obtain ⟨c', g', rfl⟩ := List.exists_cons_of_length_pos hlen.1
    cases h
    exact isSpace_of_isDecimal (isDecimal_of_isArNum (hg c (by simp)))
  rw [numBlock, flatMap_run_seqs_cons, run_dot]
  simp only [charStep, hd, if_true, List.flatMap_singleton]
  rw [flatMap_run_seqs_cons, run_star_space, repeatRun_charStep_of_not hs, List.flatMap_singleton,
    run_seqs_singleton, run_rep_arNum, flatMap_repeatRun_charStep hK (by simp), htake, hdrop,
    if_pos ⟨hlen.1, fun h hh => by cases hh; exact hlen.2⟩]

/-- `m` number blocks read the first `m` groups, and nothing more before a rest with no block. -/
theorem flatMap_run_numBlocks {α : Type} {K : List Char → List α}
    (hK : ∀ c u, isArNum c = true → K (c :: u) = []) {r : List Char}
    (hr : ∀ c u, r = c :: u → isArNum c = false) (hblock : numBlock.run false n r = []) :
    ∀ (m : Nat) {gs : List (Char × List Char)}, BlockGroups gs →
      ((Re.seqs (List.replicate m numBlock)).run false n (groupsText gs ++ r)).flatMap K =
        if m ≤ gs.length then K (groupsText (gs.drop m) ++ r) else []
  | 0, gs, _ => by simp
  | m + 1, [], _ => by simp [List.replicate_succ, flatMap_run_seqs_cons, hblock]
  | m + 1, p :: gs, hgs => by
    have hK' : ∀ c u, isArNum c = true →
        ((Re.seqs (List.replicate m numBlock)).run false n (c :: u)).flatMap K = [] := by
      intro c u hc
      cases m with
      | zero => simpa using hK c u hc
      | succ m =>
        rw [List.replicate_succ, flatMap_run_seqs_cons, run_numBlock_of_not_dot]
        · rfl
        · exact Bool.eq_false_iff.mpr fun hd => by simp [(isDotChar_classes hd).1] at hc
    obtain ⟨hd, hlen, hg⟩ := hgs p (List.mem_cons_self _ _)
    have hgs' : BlockGroups gs := fun q hq => hgs q (List.mem_cons_of_mem _ hq)
    rw [groupsText_cons, List.cons_append, List.append_assoc, List.replicate_succ,
      flatMap_run_seqs_cons, flatMap_run_numBlock hK' hd hg hlen
        (not_isArNum_groupsText_append (fun q hq => (hgs' q hq).1) hr),
      flatMap_run_numBlocks hK hr hblock m hgs']
    simp

/-- Every number pattern starts with the same three pieces, then a dot or its number blocks. -/
theorem run_numberPattern (level : Nat) (s : List Char) :
    (numberPattern level).run false n s =
      ((Re.seqs [.bol, .star .space, .rep arNum 1 (some 2) true]).run false n s).flatMap
        (if level = 1 then (Re.seqs [dot, sepLoose, contentPattern]).run false n
         else (Re.seqs (List.replicate (level - 1) numBlock ++ [sepLoose, contentPattern])).run false n) := by
  unfold numberPattern
  split_ifs
  · exact run_seqs_append [_, _, _] _
  · rw [List.append_assoc, run_seqs_append]

/-- The start of a number pattern reads the first group, of one or two digits. -/
theorem flatMap_run_numberHead {α : Type} {K : List Char → List α}
    (hK : ∀ c u, isArNum c = true → K (c :: u) = []) {first rest : List Char}
    (hfirst : ∀ c ∈ first, isArNum c = true) (hlen : 1 ≤ first.length ∧ first.length ≤ 2)
    (hrest : ∀ c u, rest = c :: u → isArNum c = false) :
    ((Re.seqs [.bol, .star .space, .rep arNum 1 (some 2) true]).run false (first ++ rest).length
      (first ++ rest)).flatMap K = K rest := by
  obtain ⟨htake, hdrop⟩ := takeWhile_dropWhile_of_split hfirst hrest
  have hs : ∀ c u, first ++ rest = c :: u → isSpace c = false := fun c u h => by
    obtain ⟨c', f', rfl⟩ := List.exists_cons_of_length_pos hlen.1
    cases h
    exact isSpace_of_isDecimal (isDecimal_of_isArNum (hfirst c (by simp)))
  rw [flatMap_run_seqs_cons, run_bol, if_pos rfl, List.flatMap_singleton, flatMap_run_seqs_cons,
    run_star_space, repeatRun_charStep_of_not hs, List.flatMap_singleton, run_seqs_singleton,
    run_rep_arNum, flatMap_repeatRun_charStep hK (by simp), htake, hdrop,
    if_pos ⟨hlen.1, fun h hh => by cases hh; exact hlen.2⟩]

theorem run_numberPattern_eq_nil {s : List Char}
    (hs : ∀ c u, s = c :: u → isSpace c = false ∧ isArNum c = false) (level : Nat) :
    (numberPattern level).run false n s = [] := by
  suffices h : (Re.seqs [.bol, .star .space, .rep arNum 1 (some 2) true]).run false n s = [] by
    rw [run_numberPattern, h]; rfl
  rw [run_seqs_cons, run_bol]
  split_ifs
  · rw [List.flatMap_singleton, run_seqs_cons, run_star_space,
      repeatRun_charStep_of_not fun c u h => (hs c u h).1, List.flatMap_singleton,
      run_seqs_singleton, run_rep_arNum]
    exact repeatRun_charStep_succ_of_not fun c u h => (hs c u h).2
  · rfl

end Blocks

/-- Groups after a letter: each a dot and one or more digits. -/
def LetterGroups (gs : List (Char × List Char)) : Prop :=
  ∀ p ∈ gs, isDotChar p.1 = true ∧ p.2 ≠ [] ∧ ∀ c ∈ p.2, isArNum c = true

instance : DecidablePred LetterGroups := fun gs =>
  inferInstanceAs (Decidable (∀ p ∈ gs, _))

section Letter

variable {n : Nat} {r : List Char}

theorem head?_run_dotDigits {d : Char} {g rest : List Char} (hd : isDotChar d = true)
    (hg : g ≠ [] ∧ ∀ c ∈ g, isArNum c = true) (hrest : ∀ c u, rest = c :: u → isArNum c = false) :
    ((Re.seq dot (.plus arNum)).run false n (d :: (g ++ rest))).head? = some rest := by
  obtain ⟨htake, hdrop⟩ := takeWhile_dropWhile_of_split hg.2 hrest
  rw [run_seq, run_dot]
  simp only [charStep, hd, if_true, List.flatMap_singleton]
  rw [Re.plus, run_rep_arNum, head?_repeatRun_charStep (by rw [htake]; exact List.length_pos.mpr hg.1),
    hdrop]

theorem run_dotDigits_eq_nil
    (hr : ∀ d u, r = d :: u → isDotChar d = true → u.head?.any isArNum = false) :
    (Re.seq dot (.plus arNum)).run false n r = [] := by
  rcases r with _ | ⟨d, u⟩
  · rfl
  by_cases hd : isDotChar d = true
  · rw [run_seq, run_dot]
    simp only [charStep, hd, if_true, List.flatMap_singleton]
    rw [Re.plus, run_rep_arNum]
    exact repeatRun_charStep_succ_of_not fun c w hw => by simpa [hw] using hr d u rfl hd
  · simp [run_seq, run_dot, charStep, hd]

/-- The greedy `(?:{DOT}{AR_NUM}+)*` reads every group first. -/
theorem head?_optionalRun_dotDigits (hr₁ : ∀ c u, r = c :: u → isArNum c = false)
    (hr₂ : ∀ d u, r = d :: u → isDotChar d = true → u.head?.any isArNum = false) :
    ∀ {gs : List (Char × List Char)} {fuel : Nat}, LetterGroups gs →
      (groupsText gs ++ r).length ≤ fuel →
      (optionalRun ((Re.seq dot (.plus arNum)).run false n) true none fuel
        (groupsText gs ++ r)).head? = some r
  | [], fuel, _, _ => by
    rw [groupsText_nil, List.nil_append, optionalRun_of_step_eq_nil (run_dotDigits_eq_nil hr₂)]
    rfl
  | p :: gs, 0, _, h => by simp at h
  | p :: gs, fuel + 1, hgs, h => by
    obtain ⟨hd, hg⟩ := hgs p (List.mem_cons_self _ _)
    have hgs' : LetterGroups gs := fun q hq => hgs q (List.mem_cons_of_mem _ hq)
    rw [groupsText_cons, List.cons_append, List.append_assoc,
      head?_optionalRun_of_head? (head?_run_dotDigits hd hg
        (not_isArNum_groupsText_append (fun q hq => (hgs' q hq).1) hr₁)) (by simp; omega)]
    exact head?_optionalRun_dotDigits hr₁ hr₂ hgs' (by simp at h ⊢; omega)

/-- The first match of the letter group spans the letter and all of its groups. -/
theorem head?_run_letterNumberGroup {x : Char} {gs : List (Char × List Char)}
    (hx : isLetter x = true) (hgs : gs ≠ []) (hv : LetterGroups gs)
    (hr₁ : ∀ c u, r = c :: u → isArNum c = false)
    (hr₂ : ∀ d u, r = d :: u → isDotChar d = true → u.head?.any isArNum = false) :
    (letterNumberGroup.run false n (x :: (groupsText gs ++ r))).head? = some r := by
  obtain ⟨p, gs, rfl⟩ := List.exists_cons_of_ne_nil hgs
  obtain ⟨hd, hg⟩ := hv p (List.mem_cons_self _ _)
  have hv' : LetterGroups gs := fun q hq => hv q (List.mem_cons_of_mem _ hq)
  obtain ⟨htake, hdrop⟩ := takeWhile_dropWhile_of_split hg.2
    (not_isArNum_groupsText_append (fun q hq => (hv' q hq).1) hr₁)
  rw [letterNumberGroup, run_seqs_cons, run_star_space,
    repeatRun_charStep_of_not (by rintro c u ⟨⟩; exact (isLetter_classes hx).1),
    List.flatMap_singleton, run_seqs_cons, run_letter]
  simp only [charStep, hx, if_true, List.flatMap_singleton, groupsText_cons, List.cons_append,
    List.append_assoc]
  rw [run_seqs_cons, run_dot]
  simp only [charStep, hd, if_true, List.flatMap_singleton]
  rw [run_seqs_cons, run_seqs_singleton, Re.plus, run_rep_arNum, Re.star, run_rep]
  refine @head?_flatMap_of_head? _ _ _ _ (groupsText gs ++ r) _ ?_ ?_
  · rw [head?_repeatRun_charStep (by rw [htake]; exact List.length_pos.mpr hg.1), hdrop]
  · simp only [repeatRun, mandatoryRun, List.flatMap_singleton, Option.map_none']
    exact head?_optionalRun_dotDigits hr₁ hr₂ hv' le_rfl

theorem run_letterNumberGroup_eq_nil {s : List Char}
    (hs : ∀ c u, s = c :: u → isSpace c = false ∧ isLetter c = false) :
    letterNumberGroup.run false n s = [] := by
  rw [letterNumberGroup, run_seqs_cons, run_star_space,
    repeatRun_charStep_of_not fun c u h => (hs c u h).1, List.flatMap_singleton, run_seqs_cons,
    run_letter]
  rcases s with _ | ⟨c, u⟩
  · rfl
  · simp [charStep, (hs c u rfl).2]

end Letter

/-- A template reads `第`, the numeral with the blanks around it, and one of its own markers. -/
theorem flatMap_run_normalTemplate {α : Type} (K : List Char → List α) {markers : String}
    (hmk : ∀ c ∈ markers.data, isSpace c = false ∧ isCnNum c = false)
    {ws₁ num ws₂ r l : List Char} {m : Char} (hl : l = '第' :: (ws₁ ++ (num ++ (ws₂ ++ m :: r))))
    (hws₁ : ∀ c ∈ ws₁, isSpace c = true) (hnum : num ≠ [] ∧ ∀ c ∈ num, isCnNum c = true)
    (hws₂ : ∀ c ∈ ws₂, isSpace c = true) (hm : isSpace m = false ∧ isCnNum m = false) :
    ((normalTemplate markers).run false l.length l).flatMap K =
      if m ∈ markers.data then K r else [] := by
  subst hl
  generalize hN : ('第' :: (ws₁ ++ (num ++ (ws₂ ++ m :: r)))).length = N
  let marker : Re := .set false (markers.data.map .lit)
  have hmarker : ∀ c u, ((Re.seqs [marker]).run false N (c :: u)).flatMap K =
      if c ∈ markers.data then K u else [] := fun c u => by
    rw [run_seqs_singleton]
    by_cases hc : c ∈ markers.data <;> simp [marker, run_set_lits, charStep, hc]
  have hX : ∀ c u, ws₂ ++ m :: r = c :: u → isCnNum c = false := by
    intro c u h
    rcases ws₂ with _ | ⟨d, ws⟩ <;> cases h
    · exact hm.2
    · exact not_isCnNum_of_isSpace (hws₂ c (List.mem_cons_self _ _))
  -- the blanks before the marker
  have h3 : ((Re.seqs [.star .space, marker]).run false N (ws₂ ++ m :: r)).flatMap K =
      if m ∈ markers.data then K r else [] := by
    rw [flatMap_run_seqs_cons, flatMap_run_star_space fun c u hc => by
        rw [hmarker, if_neg fun hmem => by simp [(hmk c hmem).1] at hc],
      (takeWhile_dropWhile_of_split hws₂ fun c u h => by cases h; exact hm.1).2, hmarker]
  -- the numeral
  have h2 : ((Re.seqs [.plus cnNum, .star .space, marker]).run false N
      (num ++ (ws₂ ++ m :: r))).flatMap K = if m ∈ markers.data then K r else [] := by
    obtain ⟨htake, hdrop⟩ := takeWhile_dropWhile_of_split hnum.2 hX
    rw [flatMap_run_seqs_cons, Re.plus, run_rep, run_cnNum,
      flatMap_repeatRun_charStep (fun c u hc => ?_) (by simp), htake, hdrop,
      if_pos ⟨List.length_pos.mpr hnum.1, by simp⟩, h3]
    rw [flatMap_run_seqs_cons, run_star_space,
      repeatRun_charStep_of_not (by rintro d v ⟨⟩; exact isSpace_of_isCnNum hc),
      List.flatMap_singleton, hmarker, if_neg fun hmem => by simp [(hmk c hmem).2] at hc]
  -- `第` and the blanks after it
  have hnum₀ : ∀ c u, num ++ (ws₂ ++ m :: r) = c :: u → isSpace c = false := fun c u h => by
    obtain ⟨d, ns, rfl⟩ := List.exists_cons_of_ne_nil hnum.1
    cases h
    exact isSpace_of_isCnNum (hnum.2 c (List.mem_cons_self _ _))
  rw [normalTemplate, flatMap_run_seqs_cons, run_bol, if_pos hN, List.flatMap_singleton,
    flatMap_run_seqs_cons, run_star_space, repeatRun_charStep_of_not (by rintro c u ⟨⟩; decide),
    List.flatMap_singleton, flatMap_run_seqs_cons, run_lit]
  simp only [charStep, beq_self_eq_true, if_true, List.flatMap_singleton]
  rw [flatMap_run_seqs_cons, flatMap_run_star_space fun c u hc => ?_,
    (takeWhile_dropWhile_of_split hws₁ hnum₀).2]
  · exact h2
  · rw [flatMap_run_seqs_cons, Re.plus, run_rep, run_cnNum,
      repeatRun_charStep_succ_of_not (by rintro d v ⟨⟩; exact not_isCnNum_of_isSpace hc)]
    rfl

theorem run_normalTemplate_eq_nil {n : Nat} {s : List Char}
    (hs : ∀ c u, s = c :: u → isSpace c = false ∧ c ≠ '第') (markers : String) :
    (normalTemplate markers).run false n s = [] := by
  rw [normalTemplate, run_seqs_cons, run_bol]
  split_ifs
  · rw [List.flatMap_singleton, run_seqs_cons, run_star_space,
      repeatRun_charStep_of_not fun c u h => (hs c u h).1, List.flatMap_singleton, run_seqs_cons,
      run_lit]
    rcases s with _ | ⟨c, u⟩
    · rfl
    · simp [charStep, Ne.symm (hs c u rfl).2]
  · rfl

end LayoutNodeParser

end RagParsers
