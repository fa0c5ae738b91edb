import RagParsers.Layout.Patterns
import RagParsers.Caption.Config

/-! What a pattern reads, said by its syntax tree alone: for a valid pattern the backtracking
matcher finds exactly these ends, whatever its fuel and its order of trial. -/

namespace RagParsers

/-- `k` readings by `R` in a row lead from `s` to `t`. -/
def Chain (R : List Char → List Char → Prop) : Nat → List Char → List Char → Prop
  | 0, s, t => t = s
  | k + 1, s, t => ∃ u, R s u ∧ Chain R k u t

/-- What a pattern reads: from `s` it can stop at the rest `t`. -/
def Re.Reads (ic : Bool) (n : Nat) : Re → List Char → List Char → Prop
  | .eps, s, t => t = s
  | .any, s, t => ∃ c, s = c :: t ∧ c ≠ '\n'
  | .set neg items, s, t => ∃ c, s = c :: t ∧ (items.any (·.test ic c) != neg) = true
  | .seq a b, s, t => ∃ u, a.Reads ic n s u ∧ b.Reads ic n u t
  | .alt a b, s, t => a.Reads ic n s t ∨ b.Reads ic n s t
  | .rep a lo hi _, s, t => ∃ k, lo ≤ k ∧ (∀ h ∈ hi, k ≤ h) ∧ Chain (a.Reads ic n) k s t
  | .bol, s, t => t = s ∧ s.length = n
  | .eol, s, t => t = s ∧ (s = [] ∨ s = ['\n'])

/-- No repetition demands more iterations than it allows. -/
def Re.valid : Re → Bool
  | .seq a b | .alt a b => a.valid && b.valid
  | .rep a lo (some h) _ => decide (lo ≤ h) && a.valid
  | .rep a _ none _ => a.valid
  | _ => true

/-- Every pattern the two parsers compile. -/
def parserPatterns : List Re :=
  LayoutNodeParser.timePatterns ++ LayoutNodeParser.tocPatterns ++
    LayoutNodeParser.normalPatternsWithLevel.map Prod.fst ++
    LayoutNodeParser.numberPatternsWithLevel.map Prod.fst ++
    LayoutNodeParser.letterPatterns.flatMap (fun p => [p.pre, p.group, p.post]) ++
    imageConfig.patterns ++ tableConfig.patterns ++ equationConfig.patterns ++
    footnoteStartPatterns ++ footnoteMarkerPatterns

theorem valid_of_mem_parserPatterns : ∀ r ∈ parserPatterns, r.valid = true := by decide

section Matcher

variable {step : List Char → List (List Char)} {ic : Bool} {n : Nat} {s t : List Char}

/-- The iterations of `step` that consume, the only ones `optionalRun` follows. -/
def shrinking (step : List Char → List (List Char)) (s : List Char) : List (List Char) :=
  (step s).filter (·.length < s.length)

theorem consuming_shrinking : Consuming (shrinking step) := fun _ _ h =>
  of_decide_eq_true (List.mem_filter.mp h).2

theorem optionalRun_shrinking {g : Bool} {fuel : Nat} :
    ∀ {hi}, optionalRun (shrinking step) g hi fuel = optionalRun step g hi fuel := by
  induction fuel with
  | zero => intros; rfl
  | succ fuel ih =>
    intros; funext s
    simp only [optionalRun, shrinking, List.filter_filter, Bool.and_self, ih]

theorem Iterate.mono {step' : List Char → List (List Char)} (h : ∀ s t, t ∈ step s → t ∈ step' s) :
    ∀ {k s}, Iterate step k s t → Iterate step' k s t
  | 0, _, hit => hit
  | _ + 1, _, ⟨u, hu, hit⟩ => ⟨u, h _ _ hu, hit.mono h⟩

theorem exists_iterate_shrinking (hs : ∀ s t, t ∈ step s → t <:+ s) :
    ∀ {k s}, Iterate step k s t → ∃ j ≤ k, Iterate (shrinking step) j s t
  | 0, _, hit => ⟨0, le_rfl, hit⟩
  | k + 1, s, ⟨u, hu, hit⟩ => by
    obtain ⟨j, hj, hit'⟩ := exists_iterate_shrinking hs hit
    by_cases hlt : u.length < s.length
    · exact ⟨j + 1, by omega, u, List.mem_filter.mpr ⟨hu, decide_eq_true hlt⟩, hit'⟩
    · obtain rfl : u = s := (hs s u hu).eq_of_length_le (Nat.le_of_not_lt hlt)
      exact ⟨j, by omega, hit'⟩

/-- `optionalRun` reaches every end a run of at most `hi` iterations reaches. -/
theorem mem_optionalRun_of_suffix (hs : ∀ s t, t ∈ step s → t <:+ s) {g : Bool} {hi : Option Nat}
    {fuel : Nat} (hfuel : s.length ≤ fuel) :
    t ∈ optionalRun step g hi fuel s ↔ ∃ k, (∀ h ∈ hi, k ≤ h) ∧ Iterate step k s t := by
  rw [← optionalRun_shrinking, mem_optionalRun consuming_shrinking hfuel]
  constructor
  · exact fun ⟨k, hk, hit⟩ => ⟨k, hk, hit.mono fun _ _ h => (List.mem_filter.mp h).1⟩
  · rintro ⟨k, hk, hit⟩
    obtain ⟨j, hj, hit'⟩ := exists_iterate_shrinking hs hit
    exact ⟨j, fun h hh => hj.trans (hk h hh), hit'⟩

theorem mem_repeatRun_of_suffix (hs : ∀ s t, t ∈ step s → t <:+ s) {lo : Nat} {hi : Option Nat}
    {g : Bool} (hlo : ∀ h ∈ hi, lo ≤ h) :
    t ∈ repeatRun step lo hi g s ↔ ∃ k, lo ≤ k ∧ (∀ h ∈ hi, k ≤ h) ∧ Iterate step k s t := by
  simp only [repeatRun, List.mem_flatMap, mem_mandatoryRun]
  rw [← iterate_split hlo]
  exact exists_congr fun u => and_congr_right fun _ => mem_optionalRun_of_suffix hs le_rfl

theorem iterate_iff_chain {R : List Char → List Char → Prop} (h : ∀ s t, t ∈ step s ↔ R s t) :
    ∀ {k s}, Iterate step k s t ↔ Chain R k s t
  | 0, _ => Iff.rfl
  | _ + 1, _ => exists_congr fun u => and_congr (h _ u) (iterate_iff_chain h)

theorem Chain.suffix {R : List Char → List Char → Prop} (hR : ∀ s t, R s t → t <:+ s) :
    ∀ {k s}, Chain R k s t → t <:+ s
  | 0, _, h => h ▸ List.suffix_refl _
  | _ + 1, _, ⟨_, hu, h⟩ => (h.suffix hR).trans (hR _ _ hu)

theorem Re.Reads.suffix {r : Re} : ∀ {s t}, r.Reads ic n s t → t <:+ s := by
  induction r with
  | any | set => rintro _ t ⟨c, rfl, -⟩; exact List.suffix_cons c t
  | seq a b iha ihb => rintro _ _ ⟨u, ha, hb⟩; exact (ihb hb).trans (iha ha)
  | alt a b iha ihb => rintro _ _ (h | h); exacts [iha h, ihb h]
  | rep a lo hi g iha => rintro _ _ ⟨k, -, -, h⟩; exact h.suffix fun _ _ => iha
  | eps => rintro _ _ rfl; exact List.suffix_refl _
  | bol | eol => rintro _ _ ⟨rfl, -⟩; exact List.suffix_refl _

/-- The backtracking matcher finds exactly the ends the pattern can read to. -/
theorem mem_run_iff_reads {r : Re} (hr : r.valid = true) :
    ∀ {s t}, t ∈ r.run ic n s ↔ r.Reads ic n s t := by
  induction r with
  | eps | any | set => simp [Re.run, Re.Reads]
  | seq a b iha ihb =>
    intros
    obtain ⟨ha, hb⟩ := Bool.and_eq_true_iff.mp hr
    simp only [Re.run, Re.Reads, List.mem_flatMap, iha ha, ihb hb]
  | alt a b iha ihb =>
    intros
    obtain ⟨ha, hb⟩ := Bool.and_eq_true_iff.mp hr
    simp only [Re.run, Re.Reads, List.mem_append, iha ha, ihb hb]
  | rep a lo hi g iha =>
    have hv : (∀ h ∈ hi, lo ≤ h) ∧ a.valid = true := by
      cases hi <;> simpa [Re.valid] using hr
    have hreads : ∀ s t, t ∈ a.run ic n s ↔ a.Reads ic n s t := fun _ _ => iha hv.2
    intros
    rw [run_rep, mem_repeatRun_of_suffix (fun _ _ h => Re.Reads.suffix ((hreads _ _).mp h)) hv.1]
    simp only [Re.Reads, iterate_iff_chain hreads]
  | bol | eol => intros; simp only [Re.run, Re.Reads]; split_ifs with h <;> simp [h]

/-- `re.match(r, s)` finds a match exactly when `r` reads a prefix of `s`. -/
theorem matches_eq_true_iff_reads {r : Re} (hr : r.valid = true) (s : List Char) :
    r.matches ic s = true ↔ ∃ t, r.Reads ic s.length s t := by
  rw [Re.matches, Bool.not_eq_true', List.isEmpty_eq_false_iff_exists_mem]
  exact exists_congr fun _ => mem_run_iff_reads hr

/-- `re.search(r, s)` finds a match exactly when `r` reads a prefix of a suffix of `s`. -/
theorem search_eq_true_iff_reads {r : Re} (hr : r.valid = true) (s : List Char) :
    r.search ic s = true ↔ ∃ pre u t, s = pre ++ u ∧ r.Reads ic s.length u t := by
  constructor
  · intro h
    obtain ⟨pre, u, t, hs, ht⟩ := exists_of_search h
    exact ⟨pre, u, t, hs, (mem_run_iff_reads hr).mp ht⟩
  · rintro ⟨pre, u, t, rfl, ht⟩
    exact search_of_mem (List.suffix_append pre u) ((mem_run_iff_reads hr).mpr ht)

/-- The matcher, `re.match` and `re.search` of a valid pattern mean what the pattern reads. -/
theorem run_matches_search_iff_reads {r : Re} (hr : r.valid = true) :
    (∀ n s t, t ∈ r.run ic n s ↔ r.Reads ic n s t) ∧
      (∀ s, r.matches ic s = true ↔ ∃ t, r.Reads ic s.length s t) ∧
      ∀ s, r.search ic s = true ↔ ∃ pre u t, s = pre ++ u ∧ r.Reads ic s.length u t :=
  ⟨fun _ _ _ => mem_run_iff_reads hr, matches_eq_true_iff_reads hr, search_eq_true_iff_reads hr⟩

theorem run_matches_search_iff_reads_timePattern :
    (LayoutNodeParser.trailingDate LayoutNodeParser.digitDate).valid = true ∧
      ((∀ n s t, t ∈ (LayoutNodeParser.trailingDate LayoutNodeParser.digitDate).run false n s ↔
          (LayoutNodeParser.trailingDate LayoutNodeParser.digitDate).Reads false n s t) ∧
        (∀ s, (LayoutNodeParser.trailingDate LayoutNodeParser.digitDate).matches false s = true ↔
          ∃ t, (LayoutNodeParser.trailingDate LayoutNodeParser.digitDate).Reads false s.length s t) ∧
        ∀ s, (LayoutNodeParser.trailingDate LayoutNodeParser.digitDate).search false s = true ↔
          ∃ pre u t, s = pre ++ u ∧
            (LayoutNodeParser.trailingDate LayoutNodeParser.digitDate).Reads false s.length u t) :=
  have hv := valid_of_mem_parserPatterns _ (by simp [parserPatterns, LayoutNodeParser.timePatterns])
  ⟨hv, run_matches_search_iff_reads hv⟩

end Matcher

end RagParsers
