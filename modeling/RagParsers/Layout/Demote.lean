import RagParsers.Layout.Suppress

/-! What the date and table-of-contents patterns read (`DateText`, `TocText`), in both directions. -/

namespace RagParsers

namespace LayoutNodeParser

/-- A date `Y年M月D日` of `TIME_PATTERNS`: in decimal digits (four, then one or two, one or two),
or in native numerals (four of `零○0０〇ＯΟ一二三四五六七八九十`, then one or two and one to three
of `一二三四五六七八九十`). -/
def YmdDate (D : List Char) : Prop :=
  ∃ y m d, D = y ++ '年' :: (m ++ '月' :: (d ++ ['日'])) ∧ y.length = 4 ∧
    (1 ≤ m.length ∧ m.length ≤ 2) ∧
    ((1 ≤ d.length ∧ d.length ≤ 2 ∧ ∀ c ∈ y ++ m ++ d, isDecimal c = true) ∨
      (1 ≤ d.length ∧ d.length ≤ 3 ∧ (∀ c ∈ y, c ∈ "零○0０〇ＯΟ一二三四五六七八九十".data) ∧
        ∀ c ∈ m ++ d, c ∈ "一二三四五六七八九十".data))

/-- A date `Y.M.D` of `TIME_PATTERNS`: four, then one or two, one or two decimal digits, with
`.`, `．` or `-` between. -/
def DottedDate (D : List Char) : Prop :=
  ∃ y s₁ m s₂ d, D = y ++ s₁ :: (m ++ s₂ :: d) ∧ y.length = 4 ∧ (1 ≤ m.length ∧ m.length ≤ 2) ∧
    (1 ≤ d.length ∧ d.length ≤ 2) ∧ (∀ c ∈ y ++ m ++ d, isDecimal c = true) ∧
    s₁ ∈ ['.', '．', '-'] ∧ s₂ ∈ ['.', '．', '-']

/-- What `TIME_PATTERNS` read: a date between blanks, or a date `Y年M月D日` after a first line of
at most 100 characters and blanks that hold a newline, then blanks. -/
def DateText (s : List Char) : Prop :=
  (∃ w D w', s = w ++ (D ++ w') ∧ (∀ c ∈ w, isSpace c = true) ∧ (YmdDate D ∨ DottedDate D) ∧
      ∀ c ∈ w', isSpace c = true) ∨
    ∃ p w D w', s = p ++ (w ++ (D ++ w')) ∧ p.length ≤ 100 ∧ (∀ c ∈ p, c ≠ '\n') ∧
      (∀ c ∈ w, isSpace c = true) ∧ '\n' ∈ w ∧ YmdDate D ∧ ∀ c ∈ w', isSpace c = true

/-- A page number that ends a line, `\s+\d+\s*$`: blanks, digits, blanks. -/
def PageNumberEnd (u : List Char) : Prop :=
  ∃ w ds w', u = w ++ (ds ++ w') ∧ w ≠ [] ∧ (∀ c ∈ w, isSpace c = true) ∧ ds ≠ [] ∧
    (∀ c ∈ ds, isDecimal c = true) ∧ ∀ c ∈ w', isSpace c = true

/-- What `TOC_PATTERNS` read: a line that ends in a dot of `[.．·]`, blanks and a number; a line
that starts with a digit of `AR_NUM`, a letter of `[IVX]`, `附录` or a numeral of `CN_NUM` and
ends in a page number; or a line that starts with a title in `《》` and ends in a page number. -/
def TocText (s : List Char) : Prop :=
  (∃ p d w ds w', s = p ++ d :: (w ++ (ds ++ w')) ∧ (∀ c ∈ p, c ≠ '\n') ∧ d ∈ ['.', '．', '·'] ∧
      (∀ c ∈ w, isSpace c = true) ∧ ds ≠ [] ∧ (∀ c ∈ ds, isDecimal c = true) ∧
      ∀ c ∈ w', isSpace c = true) ∨
    (∃ w h m u, s = w ++ (h ++ (m ++ u)) ∧ (∀ c ∈ w, isSpace c = true) ∧
      ((∃ c, h = [c] ∧ (isArNum c = true ∨ c ∈ ['I', 'V', 'X'] ∨ isCnNum c = true)) ∨
        h = "附录".data) ∧ (∀ c ∈ m, c ≠ '\n') ∧ PageNumberEnd u) ∨
    ∃ w m₁ m₂ u, s = w ++ '《' :: (m₁ ++ '》' :: (m₂ ++ u)) ∧ (∀ c ∈ w, isSpace c = true) ∧
      (∀ c ∈ m₁ ++ m₂, c ≠ '\n') ∧ PageNumberEnd u

section Reading

variable {n : Nat} {s t : List Char}

theorem isSpace_newline : isSpace '\n' = true := by decide

theorem blanks_of_mem_run_eol {ic : Bool} (h : t ∈ Re.eol.run ic n s) : ∀ c ∈ s, isSpace c = true := by
  simp only [Re.run] at h
  split_ifs at h with he
  · rcases he with rfl | rfl
    exacts [List.forall_mem_nil _, List.forall_mem_singleton.mpr isSpace_newline]
  · simp at h

theorem blanks_of_mem_run_end (h : t ∈ (Re.seqs [.star .space, .eol]).run false n s) :
    ∀ c ∈ s, isSpace c = true := by
  obtain ⟨u, hu, k⟩ := mem_run_seqs_cons.mp h
  obtain ⟨w, rfl, hw⟩ := blanks_of_mem_run_star_space hu
  exact List.forall_mem_append.mpr ⟨hw, blanks_of_mem_run_eol k⟩

theorem line_of_mem_run_rep_any {lo : Nat} {hi : Option Nat} {g : Bool}
    (h : t ∈ (Re.rep .any lo hi g).run false n s) (hlo : ∀ h ∈ hi, lo ≤ h) :
    ∃ p, s = p ++ t ∧ (∀ h ∈ hi, p.length ≤ h) ∧ ∀ c ∈ p, c ≠ '\n' := by
  obtain ⟨p, rfl, -, hhi, hp⟩ := run_of_mem_run_rep run_any h hlo
  exact ⟨p, rfl, hhi, fun c hc => bne_iff_ne.mp (hp c hc)⟩

theorem mem_of_mem_run_set_lits (cs : List Char) (h : t ∈ (Re.set false (cs.map .lit)).run false n s) :
    ∃ c ∈ cs, s = c :: t := by
  rw [run_set_lits, mem_charStep] at h
  obtain ⟨c, rfl, hc⟩ := h
  exact ⟨c, List.any_beq'.mp hc, rfl⟩

/-- `<A>{4}年<B>{1,2}月<C>{1,k}日` reads three runs of its classes between the three marks. -/
theorem ymd_of_mem_run {A B C : Re} {P Q R : Char → Bool} {k : Nat} (hA : A.run false n = charStep P)
    (hB : B.run false n = charStep Q) (hC : C.run false n = charStep R) (hk : 1 ≤ k)
    (h : t ∈ (Re.seqs [.rep A 4 (some 4) true, .lit '年', .rep B 1 (some 2) true, .lit '月',
      .rep C 1 (some k) true, .lit '日']).run false n s) :
    ∃ y m d, s = y ++ '年' :: (m ++ '月' :: (d ++ '日' :: t)) ∧ y.length = 4 ∧
      (1 ≤ m.length ∧ m.length ≤ 2) ∧ (1 ≤ d.length ∧ d.length ≤ k) ∧
      (∀ c ∈ y, P c = true) ∧ (∀ c ∈ m, Q c = true) ∧ ∀ c ∈ d, R c = true := by
  obtain ⟨u₁, h₁, k₁⟩ := mem_run_seqs_cons.mp h
  obtain ⟨y, rfl, hy₁, hy₂, hy⟩ := run_of_mem_run_rep hA h₁ (by simp)
  obtain ⟨u₂, h₂, k₂⟩ := mem_run_seqs_cons.mp k₁
  obtain rfl := eq_of_mem_run_lit h₂
  obtain ⟨u₃, h₃, k₃⟩ := mem_run_seqs_cons.mp k₂
  obtain ⟨m, rfl, hm₁, hm₂, hm⟩ := run_of_mem_run_rep hB h₃ (by simp)
  obtain ⟨u₄, h₄, k₄⟩ := mem_run_seqs_cons.mp k₃
  obtain rfl := eq_of_mem_run_lit h₄
  obtain ⟨u₅, h₅, k₅⟩ := mem_run_seqs_cons.mp k₄
  obtain ⟨d, rfl, hd₁, hd₂, hd⟩ := run_of_mem_run_rep hC h₅ (by simpa using hk)
  obtain rfl := eq_of_mem_run_lit k₅
  have hy₄ := hy₂ 4 rfl
  exact ⟨y, m, d, rfl, by omega, ⟨hm₁, hm₂ 2 rfl⟩, ⟨hd₁, hd₂ k rfl⟩, hy, hm, hd⟩

theorem ymd_of_mem_run_digitDate (h : t ∈ digitDate.run false n s) : ∃ D, s = D ++ t ∧ YmdDate D := by
  obtain ⟨y, m, d, rfl, hy, hm, hd, hyc, hmc, hdc⟩ :=
    ymd_of_mem_run run_digit run_digit run_digit (by decide) h
  exact ⟨_, by simp, y, m, d, rfl, hy, hm,
    .inl ⟨hd.1, hd.2, List.forall_mem_append.mpr ⟨List.forall_mem_append.mpr ⟨hyc, hmc⟩, hdc⟩⟩⟩

theorem ymd_of_mem_run_cnDate (h : t ∈ cnDate.run false n s) : ∃ D, s = D ++ t ∧ YmdDate D := by
  obtain ⟨y, m, d, rfl, hy, hm, hd, hyc, hmc, hdc⟩ :=
    ymd_of_mem_run (run_set_lits _) (run_set_lits _) (run_set_lits _) (by decide) h
  exact ⟨_, by simp, y, m, d, rfl, hy, hm, .inr ⟨hd.1, hd.2, fun c hc => List.any_beq'.mp (hyc c hc),
    List.forall_mem_append.mpr
      ⟨fun c hc => List.any_beq'.mp (hmc c hc), fun c hc => List.any_beq'.mp (hdc c hc)⟩⟩⟩

theorem dotted_of_mem_run (h : t ∈ (Re.seqs [.rep .digit 4 (some 4) true,
    .set false [.lit '.', .lit '．', .lit '-'], .rep .digit 1 (some 2) true,
    .set false [.lit '.', .lit '．', .lit '-'], .rep .digit 1 (some 2) true]).run false n s) :
    ∃ D, s = D ++ t ∧ DottedDate D := by
  obtain ⟨u₁, h₁, k₁⟩ := mem_run_seqs_cons.mp h
  obtain ⟨y, rfl, hy₁, hy₂, hy⟩ := run_of_mem_run_rep run_digit h₁ (by simp)
  obtain ⟨u₂, h₂, k₂⟩ := mem_run_seqs_cons.mp k₁
  obtain ⟨s₁, hs₁, rfl⟩ := mem_of_mem_run_set_lits ['.', '．', '-'] h₂
  obtain ⟨u₃, h₃, k₃⟩ := mem_run_seqs_cons.mp k₂
  obtain ⟨m, rfl, hm₁, hm₂, hm⟩ := run_of_mem_run_rep run_digit h₃ (by simp)
  obtain ⟨u₄, h₄, k₄⟩ := mem_run_seqs_cons.mp k₃
  obtain ⟨s₂, hs₂, rfl⟩ := mem_of_mem_run_set_lits ['.', '．', '-'] h₄
  obtain ⟨d, rfl, hd₁, hd₂, hd⟩ := run_of_mem_run_rep run_digit k₄ (by simp)
  have hy₄ := hy₂ 4 rfl
  exact ⟨_, by simp, y, s₁, m, s₂, d, rfl, by omega, ⟨hm₁, hm₂ 2 rfl⟩, ⟨hd₁, hd₂ 2 rfl⟩,
    List.forall_mem_append.mpr ⟨List.forall_mem_append.mpr ⟨hy, hm⟩, hd⟩, hs₁, hs₂⟩

variable {date : Re} {P : List Char → Prop}

theorem sole_of_mem_run (hdate : ∀ {u v : List Char}, v ∈ date.run false n u → ∃ D, u = D ++ v ∧ P D)
    (h : t ∈ (soleDate date).run false n s) :
    ∃ w D w', s = w ++ (D ++ w') ∧ (∀ c ∈ w, isSpace c = true) ∧ P D ∧ ∀ c ∈ w', isSpace c = true := by
  obtain ⟨u₁, h₁, k₁⟩ := mem_run_seqs_cons.mp h
  obtain rfl := eq_of_mem_run_bol h₁
  obtain ⟨u₂, h₂, k₂⟩ := mem_run_seqs_cons.mp k₁
  obtain ⟨w, rfl, hw⟩ := blanks_of_mem_run_star_space h₂
  obtain ⟨u₃, h₃, k₃⟩ := mem_run_seqs_cons.mp k₂
  obtain ⟨D, rfl, hD⟩ := hdate h₃
  exact ⟨w, D, u₃, rfl, hw, hD, blanks_of_mem_run_end k₃⟩

/-- `.{0,100}?\s*\n\s*(<date>)\s*\n?$` reads a date after a short first line and a newline. -/
theorem trailing_of_mem_run (hdate : ∀ {u v : List Char}, v ∈ date.run false n u → ∃ D, u = D ++ v ∧ P D)
    (h : t ∈ (trailingDate date).run false n s) :
    ∃ p w D w', s = p ++ (w ++ (D ++ w')) ∧ p.length ≤ 100 ∧ (∀ c ∈ p, c ≠ '\n') ∧
      (∀ c ∈ w, isSpace c = true) ∧ '\n' ∈ w ∧ P D ∧ ∀ c ∈ w', isSpace c = true := by
  obtain ⟨u₁, h₁, k₁⟩ := mem_run_seqs_cons.mp h
  obtain ⟨p, rfl, hp₁, hp⟩ := line_of_mem_run_rep_any h₁ (by simp)
  obtain ⟨u₂, h₂, k₂⟩ := mem_run_seqs_cons.mp k₁
  obtain ⟨w₁, rfl, hw₁⟩ := blanks_of_mem_run_star_space h₂
  obtain ⟨u₃, h₃, k₃⟩ := mem_run_seqs_cons.mp k₂
  obtain rfl := eq_of_mem_run_lit h₃
  obtain ⟨u₄, h₄, k₄⟩ := mem_run_seqs_cons.mp k₃
  obtain ⟨w₂, rfl, hw₂⟩ := blanks_of_mem_run_star_space h₄
  obtain ⟨u₅, h₅, k₅⟩ := mem_run_seqs_cons.mp k₄
  obtain ⟨D, rfl, hD⟩ := hdate h₅
  obtain ⟨u₆, h₆, k₆⟩ := mem_run_seqs_cons.mp k₅
  obtain ⟨w₃, rfl, hw₃⟩ := blanks_of_mem_run_star_space h₆
  obtain ⟨u₇, h₇, k₇⟩ := mem_run_seqs_cons.mp k₆
  obtain ⟨nl, rfl, -, -, hnl⟩ := run_of_mem_run_rep (run_lit '\n') h₇ (by simp)
  have hnl' : ∀ c ∈ nl, isSpace c = true := fun c hc => beq_iff_eq.mp (hnl c hc) ▸ isSpace_newline
  exact ⟨p, w₁ ++ '\n' :: w₂, D, w₃ ++ (nl ++ u₇), by simp, hp₁ 100 rfl, hp,
    List.forall_mem_append.mpr ⟨hw₁, List.forall_mem_cons.mpr ⟨isSpace_newline, hw₂⟩⟩, by simp, hD,
    List.forall_mem_append.mpr ⟨hw₃, List.forall_mem_append.mpr ⟨hnl', blanks_of_mem_run_eol k₇⟩⟩⟩

theorem pageNumberEnd_of_mem_run
    (h : t ∈ (Re.seqs [.plus .space, .plus .digit, .star .space, .eol]).run false n s) :
    PageNumberEnd s := by
  obtain ⟨u₁, h₁, k₁⟩ := mem_run_seqs_cons.mp h
  obtain ⟨w, rfl, hw₁, -, hw⟩ := run_of_mem_run_rep run_space h₁ (by simp)
  obtain ⟨u₂, h₂, k₂⟩ := mem_run_seqs_cons.mp k₁
  obtain ⟨ds, rfl, hds₁, -, hds⟩ := run_of_mem_run_rep run_digit h₂ (by simp)
  exact ⟨w, ds, u₂, rfl, List.length_pos.mp hw₁, hw, List.length_pos.mp hds₁, hds,
    blanks_of_mem_run_end k₂⟩

theorem tocHead_of_mem_run
    (h : t ∈ (Re.alt arNum (.alt (.plus (.set false [.lit 'I', .lit 'V', .lit 'X']))
      (.alt (.str "附录") cnNum))).run false n s) :
    ∃ hd m, s = hd ++ (m ++ t) ∧
      ((∃ c, hd = [c] ∧ (isArNum c = true ∨ c ∈ ['I', 'V', 'X'] ∨ isCnNum c = true)) ∨
        hd = "附录".data) ∧ ∀ c ∈ m, c ≠ '\n' := by
  rcases List.mem_append.mp h with h | h
  · rw [run_arNum, mem_charStep] at h
    obtain ⟨c, rfl, hc⟩ := h
    exact ⟨[c], [], rfl, .inl ⟨c, rfl, .inl hc⟩, by simp⟩
  rcases List.mem_append.mp h with h | h
  · obtain ⟨p, rfl, hlo, -, hp⟩ := run_of_mem_run_rep (run_set_lits ['I', 'V', 'X']) h (by simp)
    obtain ⟨c, m, rfl⟩ := List.exists_cons_of_ne_nil (List.length_pos.mp hlo)
    refine ⟨[c], m, rfl, .inl ⟨c, rfl, .inr (.inl (List.any_beq'.mp (hp c (List.mem_cons_self _ _))))⟩,
      fun x hx => ?_⟩
    have hx' := List.any_beq'.mp (hp x (List.mem_cons_of_mem _ hx))
    simp only [List.mem_cons, List.mem_singleton, List.not_mem_nil, or_false] at hx'
    rcases hx' with rfl | rfl | rfl <;> decide
  rcases List.mem_append.mp h with h | h
  · rw [str_fulu] at h
    obtain ⟨u, hu, k⟩ := mem_run_seqs_cons.mp h
    rw [eq_of_mem_run_lit hu, eq_of_mem_run_lit k]
    exact ⟨"附录".data, [], rfl, .inr rfl, by simp⟩
  · rw [run_cnNum, mem_charStep] at h
    obtain ⟨c, rfl, hc⟩ := h
    exact ⟨[c], [], rfl, .inl ⟨c, rfl, .inr (.inr hc)⟩, by simp⟩

end Reading

/-- What a time or contents pattern matches is a date or a table-of-contents line. -/
theorem dateText_or_tocText_of_matches {r : Re} {s : List Char} (hr : r ∈ timePatterns ++ tocPatterns)
    (h : r.matches false s = true) : DateText s ∨ TocText s := by
  obtain ⟨t, ht⟩ := exists_mem_run_of_matches h
  simp only [timePatterns, tocPatterns, List.cons_append, List.nil_append, List.mem_cons,
    List.mem_singleton, List.not_mem_nil, or_false] at hr
  rcases hr with rfl | rfl | rfl | rfl | rfl | rfl | rfl | rfl
  · exact .inl (.inr (trailing_of_mem_run ymd_of_mem_run_digitDate ht))
  · exact .inl (.inl (sole_of_mem_run (fun h => (ymd_of_mem_run_digitDate h).imp
      fun _ hD => ⟨hD.1, .inl hD.2⟩) ht))
  · exact .inl (.inr (trailing_of_mem_run ymd_of_mem_run_cnDate ht))
  · exact .inl (.inl (sole_of_mem_run (fun h => (ymd_of_mem_run_cnDate h).imp
      fun _ hD => ⟨hD.1, .inl hD.2⟩) ht))
  · exact .inl (.inl (sole_of_mem_run (fun h => (dotted_of_mem_run h).imp
      fun _ hD => ⟨hD.1, .inr hD.2⟩) ht))
  · obtain ⟨u₁, h₁, k₁⟩ := mem_run_seqs_cons.mp ht
    obtain ⟨p, rfl, -, hp⟩ := line_of_mem_run_rep_any h₁ (by simp)
    obtain ⟨u₂, h₂, k₂⟩ := mem_run_seqs_cons.mp k₁
    obtain ⟨d, hd, rfl⟩ := mem_of_mem_run_set_lits ['.', '．', '·'] h₂
    obtain ⟨u₃, h₃, k₃⟩ := mem_run_seqs_cons.mp k₂
    obtain ⟨w, rfl, hw⟩ := blanks_of_mem_run_star_space h₃
    obtain ⟨u₄, h₄, k₄⟩ := mem_run_seqs_cons.mp k₃
    obtain ⟨ds, rfl, hds₁, -, hds⟩ := run_of_mem_run_rep run_digit h₄ (by simp)
    exact .inr (.inl ⟨p, d, w, ds, u₄, rfl, hp, hd, hw, List.length_pos.mp hds₁, hds,
      blanks_of_mem_run_end k₄⟩)
  · obtain ⟨u₁, h₁, k₁⟩ := mem_run_seqs_cons.mp ht
    obtain rfl := eq_of_mem_run_bol h₁
    obtain ⟨u₂, h₂, k₂⟩ := mem_run_seqs_cons.mp k₁
    obtain ⟨w, rfl, hw⟩ := blanks_of_mem_run_star_space h₂
    obtain ⟨u₃, h₃, k₃⟩ := mem_run_seqs_cons.mp k₂
    obtain ⟨hd, m₀, rfl, hhd, hm₀⟩ := tocHead_of_mem_run h₃
    obtain ⟨u₄, h₄, k₄⟩ := mem_run_seqs_cons.mp k₃
    obtain ⟨m, rfl, -, hm⟩ := line_of_mem_run_rep_any h₄ (by simp)
    exact .inr (.inr (.inl ⟨w, hd, m₀ ++ m, u₄, by simp, hw, hhd,
      List.forall_mem_append.mpr ⟨hm₀, hm⟩, pageNumberEnd_of_mem_run k₄⟩))
  · obtain ⟨u₁, h₁, k₁⟩ := mem_run_seqs_cons.mp ht
    obtain rfl := eq_of_mem_run_bol h₁
    obtain ⟨u₂, h₂, k₂⟩ := mem_run_seqs_cons.mp k₁
    obtain ⟨w, rfl, hw⟩ := blanks_of_mem_run_star_space h₂
    obtain ⟨u₃, h₃, k₃⟩ := mem_run_seqs_cons.mp k₂
    obtain rfl := eq_of_mem_run_lit h₃
    obtain ⟨u₄, h₄, k₄⟩ := mem_run_seqs_cons.mp k₃
    obtain ⟨m₁, rfl, -, hm₁⟩ := line_of_mem_run_rep_any h₄ (by simp)
    obtain ⟨u₅, h₅, k₅⟩ := mem_run_seqs_cons.mp k₄
    obtain rfl := eq_of_mem_run_lit h₅
    obtain ⟨u₆, h₆, k₆⟩ := mem_run_seqs_cons.mp k₅
    obtain ⟨m₂, rfl, -, hm₂⟩ := line_of_mem_run_rep_any h₆ (by simp)
    exact .inr (.inr (.inr ⟨w, m₁, m₂, u₆, rfl, hw, List.forall_mem_append.mpr ⟨hm₁, hm₂⟩,
      pageNumberEnd_of_mem_run k₆⟩))

section Building

variable {n : Nat} {t : List Char}

theorem mem_run_end {w : List Char} (hw : ∀ c ∈ w, isSpace c = true) :
    [] ∈ (Re.seqs [.star .space, .eol]).run false n w := by
  rw [← List.append_nil w]
  exact mem_run_seqs_cons_of (mem_run_star_space_of_blanks hw) mem_run_eol

theorem mem_run_cnDate {y m d : List Char} (hy : y.length = 4) (hm : 1 ≤ m.length ∧ m.length ≤ 2)
    (hd : 1 ≤ d.length ∧ d.length ≤ 3) (hyc : ∀ c ∈ y, c ∈ "零○0０〇ＯΟ一二三四五六七八九十".data)
    (hmd : ∀ c ∈ m ++ d, c ∈ "一二三四五六七八九十".data) :
    t ∈ cnDate.run false n (y ++ '年' :: (m ++ '月' :: (d ++ '日' :: t))) :=
  mem_run_seqs_cons_of (mem_run_rep_of_charStep (run_set_lits _)
      (fun c hc => List.any_beq'.mpr (hyc c hc)) hy.ge (by simp [hy]))
    <| mem_run_seqs_cons_of mem_run_lit
    <| mem_run_seqs_cons_of (mem_run_rep_of_charStep (run_set_lits _)
      (fun c hc => List.any_beq'.mpr (hmd c (List.mem_append_left _ hc))) hm.1 (by simp [hm.2]))
    <| mem_run_seqs_cons_of mem_run_lit
    <| mem_run_seqs_cons_of (mem_run_rep_of_charStep (run_set_lits _)
      (fun c hc => List.any_beq'.mpr (hmd c (List.mem_append_right _ hc))) hd.1 (by simp [hd.2]))
      mem_run_lit

theorem mem_run_of_ymdDate {D : List Char} (hD : YmdDate D) :
    (∀ {t}, t ∈ digitDate.run false n (D ++ t)) ∨ ∀ {t}, t ∈ cnDate.run false n (D ++ t) := by
  obtain ⟨y, m, d, rfl, hy, hm, ⟨hd₁, hd₂, hdig⟩ | ⟨hd₁, hd₂, hyc, hmd⟩⟩ := hD
  · exact .inl fun {t} => by simpa using mem_run_digitDate (t := t) hy hm ⟨hd₁, hd₂⟩ hdig
  · exact .inr fun {t} => by simpa using mem_run_cnDate (t := t) hy hm ⟨hd₁, hd₂⟩ hyc hmd

theorem mem_run_of_dottedDate {D : List Char} (hD : DottedDate D) :
    t ∈ (Re.seqs [.rep .digit 4 (some 4) true, .set false [.lit '.', .lit '．', .lit '-'],
      .rep .digit 1 (some 2) true, .set false [.lit '.', .lit '．', .lit '-'],
      .rep .digit 1 (some 2) true]).run false n (D ++ t) := by
  obtain ⟨y, s₁, m, s₂, d, rfl, hy, hm, hd, hdig, hs₁, hs₂⟩ := hD
  simp only [List.forall_mem_append] at hdig
  simp only [List.append_assoc, List.cons_append]
  exact mem_run_seqs_cons_of (mem_run_rep_of_charStep run_digit hdig.1.1 hy.ge (by simp [hy]))
    <| mem_run_seqs_cons_of (@mem_run_set_lits _ _ ['.', '．', '-'] _ hs₁)
    <| mem_run_seqs_cons_of (mem_run_rep_of_charStep run_digit hdig.1.2 hm.1 (by simp [hm.2]))
    <| mem_run_seqs_cons_of (@mem_run_set_lits _ _ ['.', '．', '-'] _ hs₂)
    <| mem_run_seqs_singleton (mem_run_rep_of_charStep run_digit hdig.2 hd.1 (by simp [hd.2]))

variable {date : Re} {D : List Char}

theorem mem_run_soleDate {w w' : List Char} (hw : ∀ c ∈ w, isSpace c = true)
    (hD : ∀ {t}, t ∈ date.run false (w ++ (D ++ w')).length (D ++ t))
    (hw' : ∀ c ∈ w', isSpace c = true) :
    [] ∈ (soleDate date).run false (w ++ (D ++ w')).length (w ++ (D ++ w')) :=
  mem_run_seqs_cons_of mem_run_bol <| mem_run_seqs_cons_of (mem_run_star_space_of_blanks hw)
    <| mem_run_seqs_cons_of hD (mem_run_end hw')

theorem mem_run_trailingDate {p w w' : List Char} (hp₁ : p.length ≤ 100) (hp : ∀ c ∈ p, c ≠ '\n')
    (hw : ∀ c ∈ w, isSpace c = true) (hnl : '\n' ∈ w) (hD : ∀ {t}, t ∈ date.run false n (D ++ t))
    (hw' : ∀ c ∈ w', isSpace c = true) :
    [] ∈ (trailingDate date).run false n (p ++ (w ++ (D ++ w'))) := by
  obtain ⟨w₁, w₂, rfl⟩ := List.append_of_mem hnl
  simp only [List.forall_mem_append, List.forall_mem_cons] at hw
  rw [← List.append_nil w']
  simp only [List.append_assoc, List.cons_append]
  exact mem_run_seqs_cons_of (mem_run_rep_of_charStep run_any (fun c hc => bne_iff_ne.mpr (hp c hc))
      (Nat.zero_le _) (by simpa using hp₁))
    <| mem_run_seqs_cons_of (mem_run_star_space_of_blanks hw.1)
    <| mem_run_seqs_cons_of mem_run_lit
    <| mem_run_seqs_cons_of (mem_run_star_space_of_blanks hw.2.2)
    <| mem_run_seqs_cons_of hD
    <| mem_run_seqs_cons_of (mem_run_star_space_of_blanks hw')
    <| mem_run_seqs_cons_of mem_run_rep_zero mem_run_eol

theorem mem_run_pageNumberEnd {u : List Char} (hu : PageNumberEnd u) :
    [] ∈ (Re.seqs [.plus .space, .plus .digit, .star .space, .eol]).run false n u := by
  obtain ⟨w, ds, w', rfl, hw, hws, hds, hdig, hw'⟩ := hu
  exact mem_run_seqs_cons_of (mem_run_rep_of_charStep run_space hws (List.length_pos.mpr hw) (by simp))
    <| mem_run_seqs_cons_of (mem_run_plus_digit hds hdig) (mem_run_end hw')

end Building

/-- Every date and every table-of-contents line is matched by one of the patterns. -/
theorem matches_of_dateText_or_tocText {s : List Char} (h : DateText s ∨ TocText s) :
    ∃ r ∈ timePatterns ++ tocPatterns, r.matches false s = true := by
  have hT : ∀ {i : Nat} (hi : i < timePatterns.length), timePatterns[i] ∈ timePatterns ++ tocPatterns :=
    fun hi => List.mem_append_left _ (List.getElem_mem hi)
  have hC : ∀ {i : Nat} (hi : i < tocPatterns.length), tocPatterns[i] ∈ timePatterns ++ tocPatterns :=
    fun hi => List.mem_append_right _ (List.getElem_mem hi)
  rcases h with (⟨w, D, w', rfl, hw, hD | hD, hw'⟩ | ⟨p, w, D, w', rfl, hp₁, hp, hw, hnl, hD, hw'⟩) |
    ⟨p, d, w, ds, w', rfl, hp, hd, hw, hds, hdig, hw'⟩ | ⟨w, h, m, u, rfl, hw, hh, hm, hu⟩ |
      ⟨w, m₁, m₂, u, rfl, hw, hm, hu⟩
  · rcases mem_run_of_ymdDate hD with hD | hD
    · exact ⟨_, hT (i := 1) (by decide), matches_of_mem (mem_run_soleDate hw hD hw')⟩
    · exact ⟨_, hT (i := 3) (by decide), matches_of_mem (mem_run_soleDate hw hD hw')⟩
  · exact ⟨_, hT (i := 4) (by decide),
      matches_of_mem (mem_run_soleDate hw (mem_run_of_dottedDate hD) hw')⟩
  · rcases mem_run_of_ymdDate hD with hD | hD
    · exact ⟨_, hT (i := 0) (by decide),
        matches_of_mem (mem_run_trailingDate hp₁ hp hw hnl hD hw')⟩
    · exact ⟨_, hT (i := 2) (by decide),
        matches_of_mem (mem_run_trailingDate hp₁ hp hw hnl hD hw')⟩
  · refine ⟨_, hC (i := 0) (by decide), matches_of_mem (?_ : [] ∈ _)⟩
    rw [← List.append_nil w']
    exact mem_run_seqs_cons_of (mem_run_star_any hp)
      <| mem_run_seqs_cons_of (@mem_run_set_lits _ _ ['.', '．', '·'] _ hd)
      <| mem_run_seqs_cons_of (mem_run_star_space_of_blanks hw)
      <| mem_run_seqs_cons_of (mem_run_plus_digit hds hdig)
      <| mem_run_seqs_cons_of (mem_run_star_space_of_blanks hw') mem_run_eol
  · refine ⟨_, hC (i := 1) (by decide), matches_of_mem (?_ : [] ∈ _)⟩
    exact mem_run_seqs_cons_of mem_run_bol
      <| mem_run_seqs_cons_of (mem_run_star_space_of_blanks hw)
      <| mem_run_seqs_cons_of (mem_run_tocHead hh)
      <| mem_run_seqs_cons_of (mem_run_star_any hm) (mem_run_pageNumberEnd hu)
  · refine ⟨_, hC (i := 2) (by decide), matches_of_mem (?_ : [] ∈ _)⟩
    simp only [List.forall_mem_append] at hm
    exact mem_run_seqs_cons_of mem_run_bol
      <| mem_run_seqs_cons_of (mem_run_star_space_of_blanks hw)
      <| mem_run_seqs_cons_of mem_run_lit
      <| mem_run_seqs_cons_of (mem_run_star_any hm.1)
      <| mem_run_seqs_cons_of mem_run_lit
      <| mem_run_seqs_cons_of (mem_run_star_any hm.2) (mem_run_pageNumberEnd hu)

/-- `_match(node, TIME_PATTERNS + TOC_PATTERNS)` holds exactly on dates and contents lines. -/
theorem matchAny_eq_true_iff (b : DocNode) :
    matchAny b (timePatterns ++ tocPatterns) = true ↔
      DateText (strip b.text).data ∨ TocText (strip b.text).data := by
  constructor
  · intro hm
    obtain ⟨r, hr, h⟩ := List.any_eq_true.mp hm
    exact dateText_or_tocText_of_matches hr h
  · intro h
    obtain ⟨r, hr, hm⟩ := matches_of_dateText_or_tocText h
    exact matchAny_of_mem hr hm

/-- A heading of level 1 becomes body text exactly when it is a date or a contents line. -/
theorem parseNode_level_eq_zero_iff (b : DocNode) (hl : b.level = 1) :
    (parseNode b).level = 0 ↔ DateText (strip b.text).data ∨ TocText (strip b.text).data := by
  rw [← matchAny_eq_true_iff]
  constructor
  · intro h0
    by_contra hm
    rw [parseNode, if_neg (by omega), if_neg hm] at h0
    dsimp only at h0
    split_ifs at h0
    · rw [DocNode.setTextLevel_level] at h0
      omega
    all_goals omega
  · intro hm
    rw [parseNode_of_matchAny hl.le hm, DocNode.setTextLevel_level]

theorem parseNode_level_eq_zero_iff_citedStandard :
    (headingNode "《建筑设计防火规范》 12").level = 1 ∧
      (parseNode (headingNode "《建筑设计防火规范》 12")).level = 0 :=
  ⟨rfl, (parseNode_level_eq_zero_iff (headingNode "《建筑设计防火规范》 12") rfl).mpr (.inr (.inr (.inr
    ⟨[], "建筑设计防火规范".data, [], " 12".data, by decide, by simp, by simp,
      [' '], ['1', '2'], [], rfl, by simp, by decide, by simp, by decide, by simp⟩)))⟩

end LayoutNodeParser

end RagParsers
