import Mathlib.Data.List.Sort
import Mathlib.Data.Prod.Lex

/-! `sorted` and `itertools.groupby`: a sort by one key, cut into runs, each run sorted by a second
key, is one stable sort by the pair. -/

namespace RagParsers

section Sorting

variable {α κ : Type} [LinearOrder κ] (key : α → κ)

/-- `sorted(l, key=key)`: insertion keeps equal keys in input order, as Python's sort does. -/
def pySorted (l : List α) : List α := l.insertionSort fun a b => key a ≤ key b

/-- `itertools.groupby(l, key=key)`: the maximal runs of consecutive equal keys. -/
def groupBy : List α → List (List α)
  | [] => []
  | a :: l =>
    match groupBy l with
    | (b :: g) :: gs => if key a = key b then (a :: b :: g) :: gs else [a] :: (b :: g) :: gs
    | gs => [a] :: gs

variable {key}

theorem sorted_pySorted (l : List α) : (pySorted key l).Sorted fun a b => key a ≤ key b :=
  @List.sorted_insertionSort _ _ _ ⟨fun a b => le_total (key a) (key b)⟩
    ⟨fun _ _ _ => le_trans⟩ l

theorem perm_pySorted (l : List α) : (pySorted key l).Perm l := List.perm_insertionSort _ l

/-- Stability: the elements of one key keep their input order. -/
theorem filter_pySorted (l : List α) (k : κ) :
    (pySorted key l).filter (key · = k) = l.filter (key · = k) := by
  have hpw : (l.filter (key · = k)).Pairwise fun a b => key a ≤ key b :=
    List.pairwise_of_forall_mem_list fun a ha b hb => by
      rw [of_decide_eq_true (List.mem_filter.mp ha).2, of_decide_eq_true (List.mem_filter.mp hb).2]
  have hsub := (List.sublist_insertionSort hpw (List.filter_sublist l)).filter (key · = k)
  rw [List.filter_filter, List.filter_congr fun a _ => Bool.and_self _] at hsub
  exact (hsub.eq_of_length ((perm_pySorted l).filter _).length_eq.symm).symm

/-- A stable sort is determined by its key. -/
theorem eq_of_sorted_of_filter_eq :
    ∀ {l₁ l₂ : List α}, l₁.Sorted (fun a b => key a ≤ key b) →
      l₂.Sorted (fun a b => key a ≤ key b) →
      (∀ k, l₁.filter (key · = k) = l₂.filter (key · = k)) → l₁ = l₂
  | [], [], _, _, _ => rfl
  | [], b :: _, _, _, hf => by simpa using (hf (key b)).symm
  | a :: _, [], _, _, hf => by simpa using hf (key a)
  | a :: t, b :: u, h₁, h₂, hf => by
    have hmem : ∀ {l₁ l₂ : List α} {x : α}, (∀ k, l₁.filter (key · = k) = l₂.filter (key · = k)) →
        x ∈ l₁ → x ∈ l₂ := fun hf hx => by
      have := hf (key _) ▸ List.mem_filter.mpr ⟨hx, decide_eq_true rfl⟩
      exact (List.mem_filter.mp this).1
    have hle : ∀ {x y : α} {l₁ l₂ : List α}, (x :: l₁).Sorted (fun a b => key a ≤ key b) →
        (∀ k, (x :: l₁).filter (key · = k) = (y :: l₂).filter (key · = k)) → key x ≤ key y :=
      fun hs hf => by
        rcases List.mem_cons.mp (hmem (fun k => (hf k).symm) (List.mem_cons_self _ _)) with h | h
        · rw [h]
        · exact List.rel_of_sorted_cons hs _ h
    have hab : key a = key b := le_antisymm (hle h₁ hf) (hle h₂ fun k => (hf k).symm)
    have heq : a = b := by
      have := hf (key a)
      simp only [List.filter_cons, hab, decide_True, if_true, List.cons.injEq] at this
      exact this.1
    subst heq
    have htail : ∀ k, t.filter (key · = k) = u.filter (key · = k) := fun k => by
      have := hf k
      simp only [List.filter_cons] at this
      split_ifs at this
      · exact List.cons_injective this
      · exact this
    rw [eq_of_sorted_of_filter_eq h₁.of_cons h₂.of_cons htail]

theorem filter_pySorted_of_imp {P : α → Bool} {k : κ} (hP : ∀ a, P a = true → key a = k)
    (l : List α) : (pySorted key l).filter P = l.filter P := by
  have hsplit : ∀ l' : List α, l'.filter P = (l'.filter (key · = k)).filter P := fun l' => by
    rw [List.filter_filter]
    exact List.filter_congr fun a _ => by by_cases h : P a <;> simp [h, hP a]
  rw [hsplit, filter_pySorted, ← hsplit]

theorem flatten_groupBy (l : List α) : (groupBy key l).flatten = l := by
  induction l with
  | nil => rfl
  | cons a l ih =>
    unfold groupBy
    split
    · rename_i b g gs h
      rw [h] at ih
      split_ifs <;> simpa using ih
    · simpa using ih

theorem key_eq_of_mem_groupBy {l : List α} :
    ∀ g ∈ groupBy key l, ∀ a ∈ g, ∀ b ∈ g, key a = key b := by
  induction l with
  | nil => simp [groupBy]
  | cons a l ih =>
    unfold groupBy
    split
    · rename_i b g gs h
      rw [h] at ih
      have hg := ih _ (List.mem_cons_self _ _)
      split_ifs with hab
      · have hall : ∀ x ∈ a :: b :: g, key x = key b := fun x hx => by
          rcases List.mem_cons.mp hx with rfl | hx
          · exact hab
          · exact hg x hx b (List.mem_cons_self _ _)
        intro g' hg'
        rcases List.mem_cons.mp hg' with rfl | hg'
        · exact fun x hx y hy => (hall x hx).trans (hall y hy).symm
        · exact ih g' (List.mem_cons_of_mem _ hg')
      · intro g' hg'
        rcases List.mem_cons.mp hg' with rfl | hg'
        · simp
        · exact ih g' hg'
    · intro g' hg'
      rcases List.mem_cons.mp hg' with rfl | hg'
      · simp
      · exact ih g' hg'

theorem ne_nil_of_mem_groupBy {l : List α} : ∀ g ∈ groupBy key l, g ≠ [] := by
  induction l with
  | nil => simp [groupBy]
  | cons a l ih =>
    unfold groupBy
    split
    · rename_i b g gs h
      rw [h] at ih
      split_ifs
      · exact List.forall_mem_cons.mpr ⟨List.cons_ne_nil _ _, fun g' hg' => ih g' (List.mem_cons_of_mem _ hg')⟩
      · exact List.forall_mem_cons.mpr ⟨List.cons_ne_nil _ _, ih⟩
    · exact List.forall_mem_cons.mpr ⟨List.cons_ne_nil _ _, ih⟩

/-- The groups of a sorted list have increasing keys. -/
theorem pairwise_groupBy {l : List α} (h : l.Sorted fun a b => key a ≤ key b) :
    (groupBy key l).Pairwise fun g₁ g₂ => ∀ a ∈ g₁, ∀ b ∈ g₂, key a < key b := by
  induction l with
  | nil => exact List.Pairwise.nil
  | cons a l ih =>
    have ih := ih h.of_cons
    have hle : ∀ g ∈ groupBy key l, ∀ y ∈ g, key a ≤ key y := fun g hg y hy =>
      List.rel_of_sorted_cons h y (@flatten_groupBy _ _ _ key l ▸ List.mem_flatten.mpr ⟨g, hg, hy⟩)
    unfold groupBy
    split
    · rename_i b g gs hgs
      rw [hgs] at ih hle
      have hkey := @key_eq_of_mem_groupBy _ _ _ key l
      rw [hgs] at hkey
      obtain ⟨hbg, hgs'⟩ := List.pairwise_cons.mp ih
      split_ifs with hab
      · refine List.pairwise_cons.mpr ⟨fun g' hg' x hx y hy => ?_, hgs'⟩
        rcases List.mem_cons.mp hx with rfl | hx
        · exact hab ▸ hbg g' hg' b (List.mem_cons_self _ _) y hy
        · exact hbg g' hg' x hx y hy
      · refine List.pairwise_cons.mpr ⟨fun g' hg' x hx y hy => ?_, ih⟩
        rw [List.mem_singleton.mp hx]
        refine lt_of_le_of_ne (hle g' hg' y hy) fun hay => hab ?_
        rcases List.mem_cons.mp hg' with rfl | hg'
        · exact hay.trans (hkey _ (List.mem_cons_self _ _) y hy b (List.mem_cons_self _ _))
        · exact absurd (hay ▸ hbg g' hg' b (List.mem_cons_self _ _) y hy)
            (not_lt_of_le (hle _ (List.mem_cons_self _ _) b (List.mem_cons_self _ _)))
    · rename_i hne
      have hnil : groupBy key l = [] := by
        rcases hgl : groupBy key l with _ | ⟨_ | ⟨b, g⟩, gs⟩
        · rfl
        · exact absurd rfl (@ne_nil_of_mem_groupBy _ _ _ key l _ (hgl ▸ List.mem_cons_self _ _))
        · exact absurd hgl (hne b g gs)
      simp [hnil]

section Lex

variable {β : Type} [LinearOrder β] {key₁ : α → κ} {key₂ : α → β}

variable (key₁ key₂) in
/-- The key `(key₁(a), key₂(a))`, compared as Python compares tuples. -/
def lexKey (a : α) : Lex (κ × β) := toLex (key₁ a, key₂ a)

omit [LinearOrder κ] [LinearOrder β] in
theorem lexKey_eq {a : α} {k : Lex (κ × β)} (h : lexKey key₁ key₂ a = k) :
    key₁ a = (ofLex k).1 ∧ key₂ a = (ofLex k).2 := by
  subst h
  exact ⟨rfl, rfl⟩

theorem sorted_flatMap_groupBy {l : List α} (h : l.Sorted fun a b => key₁ a ≤ key₁ b) :
    ((groupBy key₁ l).flatMap (pySorted key₂)).Sorted
      fun a b => lexKey key₁ key₂ a ≤ lexKey key₁ key₂ b := by
  rw [List.Sorted, List.pairwise_flatMap]
  refine ⟨fun g hg => (sorted_pySorted g).imp_of_mem fun ha hb hab => ?_, ?_⟩
  · have hk := key_eq_of_mem_groupBy g hg _ ((perm_pySorted g).subset ha) _
      ((perm_pySorted g).subset hb)
    exact (Prod.Lex.le_iff _ _).mpr (.inr ⟨hk, hab⟩)
  · exact (pairwise_groupBy h).imp fun H a ha b hb => (Prod.Lex.le_iff _ _).mpr
      (.inl (H a ((perm_pySorted _).subset ha) b ((perm_pySorted _).subset hb)))

/-- Sorting a list sorted by `key₁` run by run on `key₂` is one stable sort by both keys. -/
theorem flatMap_groupBy_pySorted {l : List α} (h : l.Sorted fun a b => key₁ a ≤ key₁ b) :
    (groupBy key₁ l).flatMap (pySorted key₂) = pySorted (lexKey key₁ key₂) l := by
  refine eq_of_sorted_of_filter_eq (sorted_flatMap_groupBy h) (sorted_pySorted l) fun k => ?_
  rw [filter_pySorted, List.filter_flatMap]
  conv_rhs => rw [← @flatten_groupBy _ _ _ key₁ l, List.filter_flatten, ← List.flatMap_def]
  exact List.flatMap_congr fun g _ =>
    filter_pySorted_of_imp (fun a ha => (lexKey_eq (of_decide_eq_true ha)).2) g

/-- Sorting by `key₁` first changes nothing in a stable sort by `(key₁, key₂)`. -/
theorem pySorted_lexKey_pySorted (l : List α) :
    pySorted (lexKey key₁ key₂) (pySorted key₁ l) = pySorted (lexKey key₁ key₂) l :=
  eq_of_sorted_of_filter_eq (sorted_pySorted _) (sorted_pySorted _) fun k => by
    rw [filter_pySorted, filter_pySorted,
      filter_pySorted_of_imp (fun a ha => (lexKey_eq (of_decide_eq_true ha)).1)]

end Lex

end Sorting

end RagParsers
