import RagParsers.Caption.Parser
import Mathlib.Data.List.Nodup

/-! The invariant of the planning pass, and from it the shape of the whole plan. -/

namespace RagParsers

namespace CaptionFootnoteParser

variable {nodes : List DocNode} {merged : List Nat} {t : String} {i j c f : Nat}

theorem captionCandidate_spec (h : captionCandidate nodes merged t j = some c) :
    c = j ∧ j ∉ merged ∧ ∃ n, nodes[j]? = some n ∧ isCaption n t = true := by
  unfold captionCandidate at h
  split at h
  · split_ifs at h with hc
    cases h
    exact ⟨rfl, hc.2.1, _, ‹_›, hc.2.2⟩
  · cases h

theorem footnoteCandidate_spec (h : footnoteCandidate nodes merged j = some f) :
    f = j ∧ j ∉ merged ∧ ∃ n, nodes[j]? = some n ∧ isFootnote n = true := by
  unfold footnoteCandidate at h
  split at h
  · split_ifs at h with hc
    cases h
    exact ⟨rfl, hc.2.1, _, ‹_›, hc.2.2⟩
  · cases h

theorem chooseCaption_mem {p q : Option Nat} (h : chooseCaption nodes t p q = some c) :
    p = some c ∨ q = some c := by
  match p, q with
  | some p, some q =>
    simp only [chooseCaption] at h
    split_ifs at h <;> simp_all
  | some p, none => exact .inl h
  | none, q => exact .inr h

/-- The caption of an anchor is an untaken neighbour that `_is_caption` accepts. -/
theorem captionIdx_spec (h : captionIdx nodes merged t i = some c) :
    (c + 1 = i ∨ c = i + 1) ∧ c ∉ merged ∧ ∃ n, nodes[c]? = some n ∧ isCaption n t = true := by
  rcases chooseCaption_mem h with hp | hq
  · split_ifs at hp with hi
    obtain ⟨rfl, hm, hn⟩ := captionCandidate_spec hp
    exact ⟨.inl (by omega), hm, hn⟩
  · split_ifs at hq
    obtain ⟨rfl, hm, hn⟩ := captionCandidate_spec hq
    exact ⟨.inr rfl, hm, hn⟩

theorem checkStart_eq {cap : Option Nat} (hc : ∀ c ∈ cap, c + 1 = i ∨ c = i + 1) :
    checkStart i cap = if cap = some (i + 1) then i + 2 else i + 1 := by
  cases cap with
  | none => simp [checkStart]
  | some c =>
    have hc' := hc c rfl
    simp only [checkStart, Option.some.injEq]
    split_ifs <;> omega

/-- The footnote of an anchor is the untaken node at `checkStart`, accepted by `_is_footnote`. -/
theorem footnoteIdx_spec {cap : Option Nat} (h : footnoteIdx nodes merged i cap = some f) :
    f = checkStart i cap ∧ f ∉ merged ∧ ∃ n, nodes[f]? = some n ∧ isFootnote n = true := by
  unfold footnoteIdx at h
  split_ifs at h
  obtain ⟨rfl, hm, hn⟩ := footnoteCandidate_spec h
  exact ⟨rfl, hm, hn⟩

/-- The plan entry of an anchor: what the code takes for it and why. -/
structure EntryShape (nodes : List DocNode) (e : MergeEntry) : Prop where
  anchor : ∃ a, nodes[e.anchor]? = some a ∧ a.metadata.type ∈ anchorTypes ∧
    (∀ c ∈ e.caption, ∃ n, nodes[c]? = some n ∧ isCaption n a.metadata.type = true)
  footnote_ok : ∀ f ∈ e.footnote, ∃ n, nodes[f]? = some n ∧ isFootnote n = true
  caption_pos : ∀ c ∈ e.caption, c + 1 = e.anchor ∨ c = e.anchor + 1
  footnote_pos : ∀ f ∈ e.footnote,
    f = if e.caption = some (e.anchor + 1) then e.anchor + 2 else e.anchor + 1
  roles_ne : e.roles ≠ []

/-- What the first pass keeps after the first `k` nodes. -/
structure PlanInv (nodes : List DocNode) (k : Nat) (st : PlanState) : Prop where
  merged_eq : st.mergedIndices = st.mergeInfo.flatMap MergeEntry.roles
  nodup : st.mergedIndices.Nodup
  shape : ∀ e ∈ st.mergeInfo, EntryShape nodes e
  anchor_lt : ∀ e ∈ st.mergeInfo, e.anchor < k
  anchors_nodup : (st.mergeInfo.map (·.anchor)).Nodup

theorem PlanInv.init : PlanInv nodes 0 ⟨[], []⟩ :=
  ⟨rfl, List.nodup_nil, by simp, by simp, List.nodup_nil⟩

theorem PlanInv.mono {k : Nat} {st : PlanState} (h : PlanInv nodes k st) :
    PlanInv nodes (k + 1) st :=
  { h with anchor_lt := fun e he => Nat.lt_succ_of_lt (h.anchor_lt e he) }

theorem nodup_append_toList {l : List Nat} {x y : Option Nat} (hl : l.Nodup)
    (hx : ∀ a ∈ x, a ∉ l) (hy : ∀ b ∈ y, b ∉ l) (hxy : ∀ a ∈ x, ∀ b ∈ y, a ≠ b) :
    (l ++ x.toList ++ y.toList).Nodup := by
  cases x <;> cases y <;> simp_all [List.nodup_append]

/-- Recording one anchor's caption and footnote keeps the invariant. -/
theorem PlanInv.record {k : Nat} {st : PlanState} {a : DocNode} {cap foot : Option Nat}
    (h : PlanInv nodes k st) (ha : nodes[k]? = some a) (hat : a.metadata.type ∈ anchorTypes)
    (hc : ∀ c ∈ cap, (c + 1 = k ∨ c = k + 1) ∧ c ∉ st.mergedIndices ∧
      ∃ n, nodes[c]? = some n ∧ isCaption n a.metadata.type = true)
    (hf : ∀ f ∈ foot, f = checkStart k cap ∧ f ∉ st.mergedIndices ∧
      ∃ n, nodes[f]? = some n ∧ isFootnote n = true) :
    PlanInv nodes (k + 1) (st.record k cap foot) := by
  have hstart := checkStart_eq fun c h => (hc c h).1
  have hne : ∀ c ∈ cap, ∀ f ∈ foot, c ≠ f := by
    rintro c hcm f hfm rfl
    obtain rfl := Option.mem_def.mp hcm
    have h1 := (hc c rfl).1
    have h2 := (hf c hfm).1
    simp only [hstart, Option.some.injEq] at h2
    split_ifs at h2 <;> omega
  by_cases hsome : cap.isSome ∨ foot.isSome
  · have hentry : EntryShape nodes ⟨k, cap, foot⟩ :=
      ⟨⟨a, ha, hat, fun c h => (hc c h).2.2⟩, fun f h => (hf f h).2.2,
        fun c h => (hc c h).1, fun f h => (hf f h).1.trans hstart,
        by cases cap <;> cases foot <;> simp [MergeEntry.roles] at hsome ⊢⟩
    have hinfo : (st.record k cap foot).mergeInfo = st.mergeInfo ++ [⟨k, cap, foot⟩] :=
      if_pos hsome
    refine ⟨?_, ?_, ?_, ?_, ?_⟩
    · rw [hinfo]
      simp [PlanState.record, h.merged_eq, MergeEntry.roles]
    · exact nodup_append_toList h.nodup (fun c hc' => (hc c hc').2.1)
        (fun f hf' => (hf f hf').2.1) hne
    · rw [hinfo]
      intro e he
      rcases List.mem_append.mp he with he | he
      · exact h.shape e he
      · exact (List.mem_singleton.mp he) ▸ hentry
    · rw [hinfo]
      intro e he
      rcases List.mem_append.mp he with he | he
      · exact Nat.lt_succ_of_lt (h.anchor_lt e he)
      · exact (List.mem_singleton.mp he) ▸ Nat.lt_succ_self k
    · rw [hinfo, List.map_append, List.map_singleton, List.nodup_append]
      refine ⟨h.anchors_nodup, List.nodup_singleton _, ?_⟩
      simp only [List.disjoint_singleton, List.mem_map, not_exists, not_and]
      exact fun e he hek => absurd (h.anchor_lt e he) (by omega)
  · rw [not_or, Option.not_isSome_iff_eq_none, Option.not_isSome_iff_eq_none] at hsome
    obtain ⟨rfl, rfl⟩ := hsome
    simpa [PlanState.record] using h.mono

/-- One step of the first pass keeps the invariant. -/
theorem PlanInv.step {k : Nat} {st : PlanState} (h : PlanInv nodes k st) :
    PlanInv nodes (k + 1) (planStep nodes st k) := by
  unfold planStep
  split
  · exact h.mono
  · rename_i a ha
    by_cases hat : a.metadata.type ∈ anchorTypes
    · simp only [hat, not_true_eq_false, if_false]
      exact h.record ha hat (fun c hc => captionIdx_spec hc) (fun f hf => footnoteIdx_spec hf)
    · simp only [hat, not_false_eq_true, if_true]
      exact h.mono

theorem planUpTo_succ (k : Nat) : planUpTo nodes (k + 1) = planStep nodes (planUpTo nodes k) k := by
  rw [planUpTo, List.range_succ, List.foldl_append, List.foldl_cons, List.foldl_nil, planUpTo]

/-- The invariant holds after every prefix of the first pass. -/
theorem planInv_planUpTo (nodes : List DocNode) (k : Nat) : PlanInv nodes k (planUpTo nodes k) := by
  induction k with
  | zero => exact PlanInv.init
  | succ k ih => exact planUpTo_succ k ▸ ih.step

theorem planInv_planningPass (nodes : List DocNode) :
    PlanInv nodes nodes.length (planningPass nodes) :=
  planInv_planUpTo nodes nodes.length

end CaptionFootnoteParser

end RagParsers
