import RagParsers.Layout.Parser

/-! `LayoutNodeParser.forward` is one stable sort by `(file_name, index)`, the single-node rule and
the numbering. -/

namespace RagParsers

namespace LayoutNodeParser

/-- The key `(file_name, index)`. -/
def sortKey : DocNode → Lex (List Char × Int) := lexKey fileKey DocNode.indexKey

/-- A node without the two keys `forward` may change. -/
def eraseLevelIndex (b : DocNode) : DocNode :=
  { b with metadata := { b.metadata with textLevel := none, index := none } }

@[simp] theorem eraseLevelIndex_parseNode (b : DocNode) :
    eraseLevelIndex (parseNode b) = eraseLevelIndex b := by
  rcases parseNode_eq_or b with h | ⟨l, h⟩ <;> rw [h]
  rfl

theorem forward_eq (document : List DocNode) :
    forward document = resetNodeIndex ((pySorted sortKey document).map parseNode) := by
  unfold forward parseNodes
  dsimp only
  rw [← List.map_flatMap, flatMap_groupBy_pySorted (sorted_pySorted document),
    pySorted_lexKey_pySorted]
  rfl

/-- On nodes already in `(file_name, index)` order, `forward` sorts nothing. -/
theorem forward_of_sorted {nodes : List DocNode} (h : nodes.Sorted fun a b => sortKey a ≤ sortKey b) :
    forward nodes = resetNodeIndex (nodes.map parseNode) := by
  rw [forward_eq, pySorted, h.insertionSort_eq]

theorem fileKey_le_of_sortKey_le {a b : DocNode} (h : sortKey a ≤ sortKey b) :
    fileKey a ≤ fileKey b := by
  rcases (Prod.Lex.le_iff _ _).mp h with h | ⟨h, -⟩
  · exact le_of_lt h
  · exact le_of_eq h

theorem sorted_resetNodeIndex {nodes : List DocNode}
    (h : (nodes.map fileKey).Sorted (· ≤ ·)) :
    (resetNodeIndex nodes).Sorted fun a b => sortKey a ≤ sortKey b := by
  rw [List.Sorted, List.pairwise_map] at h
  rw [List.Sorted, List.pairwise_iff_getElem]
  intro i j hi hj hij
  have hfile := List.pairwise_iff_getElem.mp h i j (by simpa using hi) (by simpa using hj) hij
  simp only [resetNodeIndex, List.getElem_mapIdx]
  refine (Prod.Lex.le_iff _ _).mpr ?_
  rcases lt_or_eq_of_le hfile with hlt | heq
  · exact .inl hlt
  · exact .inr ⟨heq, by simp only [DocNode.setIndex_indexKey]; omega⟩

theorem sorted_forward (document : List DocNode) :
    (forward document).Sorted fun a b => sortKey a ≤ sortKey b := by
  rw [forward_eq]
  refine sorted_resetNodeIndex ?_
  rw [List.map_map, List.Sorted, List.pairwise_map]
  exact (sorted_pySorted document).imp fun h => by
    simpa [fileKey] using fileKey_le_of_sortKey_le h

/-- A second run of `forward` returns the first run's output. -/
theorem forward_forward (document : List DocNode) :
    forward (forward document) = forward document := by
  rw [forward_eq (forward document), pySorted, (sorted_forward document).insertionSort_eq,
    forward_eq, ← resetNodeIndex_map _ parseNode_setIndex, List.map_map,
    resetNodeIndex_resetNodeIndex]
  congr 1
  exact List.map_congr_left fun b _ => parseNode_parseNode b

theorem pySorted_eq_of_filter_fileKey {xs ys : List DocNode}
    (h : ∀ f, xs.filter (fileKey · = f) = ys.filter (fileKey · = f)) :
    pySorted sortKey xs = pySorted sortKey ys := by
  have hkey : ∀ (l : List DocNode) k,
      l.filter (sortKey · = k) = (l.filter (fileKey · = (ofLex k).1)).filter (sortKey · = k) :=
    fun l k => by
      rw [List.filter_filter]
      refine List.filter_congr fun a _ => ?_
      by_cases hk : sortKey a = k
      · have hfile : fileKey a = (ofLex k).1 := hk ▸ rfl
        simp [hk, hfile]
      · simp [hk]
  have hfilter : ∀ k, xs.filter (sortKey · = k) = ys.filter (sortKey · = k) := fun k => by
    rw [hkey xs, hkey ys, h]
  refine eq_of_sorted_of_filter_eq (sorted_pySorted xs) (sorted_pySorted ys) fun k => ?_
  rw [filter_pySorted, filter_pySorted]
  convert hfilter k

/-- `forward` sees each file's nodes in input order, however the files interleave. -/
theorem forward_eq_of_filter_fileKey {xs ys : List DocNode}
    (h : ∀ f, xs.filter (fileKey · = f) = ys.filter (fileKey · = f)) : forward xs = forward ys := by
  rw [forward_eq, forward_eq, pySorted_eq_of_filter_fileKey h]

theorem forward_eq_of_filter_fileKey_interleaved :
    forward [⟨"x", { fileName := "a" }⟩, ⟨"y", { fileName := "b" }⟩, ⟨"z", { fileName := "a" }⟩] =
      forward [⟨"y", { fileName := "b" }⟩, ⟨"x", { fileName := "a" }⟩, ⟨"z", { fileName := "a" }⟩] :=
  forward_eq_of_filter_fileKey fun f => by
    by_cases ha : "a".data = f
    · subst ha
      decide
    · by_cases hb : "b".data = f
      · subst hb
        decide
      · simp [fileKey, List.filter_cons, ha, hb]

theorem pySorted_append {xs ys : List DocNode} (h : ∀ a ∈ xs, ∀ b ∈ ys, fileKey a < fileKey b) :
    pySorted sortKey (xs ++ ys) = pySorted sortKey xs ++ pySorted sortKey ys := by
  have hsorted : (pySorted sortKey xs ++ pySorted sortKey ys).Sorted
      fun a b => sortKey a ≤ sortKey b :=
    List.pairwise_append.mpr ⟨sorted_pySorted xs, sorted_pySorted ys, fun a ha b hb =>
      (Prod.Lex.le_iff _ _).mpr
        (.inl (h a ((perm_pySorted xs).subset ha) b ((perm_pySorted ys).subset hb)))⟩
  refine eq_of_sorted_of_filter_eq (sorted_pySorted _) hsorted fun k => ?_
  rw [List.filter_append, filter_pySorted, filter_pySorted, filter_pySorted, List.filter_append]

/-- Documents whose file names sort apart give what each gives, numbered through. -/
theorem forward_append {xs ys : List DocNode} (h : ∀ a ∈ xs, ∀ b ∈ ys, fileKey a < fileKey b) :
    forward (xs ++ ys) = resetNodeIndex (forward xs ++ forward ys) := by
  rw [forward_eq, forward_eq, forward_eq, resetNodeIndex_append_resetNodeIndex, pySorted_append h,
    List.map_append]

theorem forward_flatMap {P : List Char → List DocNode} (hP : ∀ f, ∀ b ∈ P f, fileKey b = f) :
    ∀ {fs : List (List Char)}, fs.Sorted (· < ·) →
      forward (fs.flatMap P) = resetNodeIndex (fs.flatMap fun f => forward (P f))
  | [], _ => by simp [forward_eq, pySorted, resetNodeIndex]
  | f :: fs, hs => by
    have hlt : ∀ a ∈ P f, ∀ b ∈ fs.flatMap P, fileKey a < fileKey b := fun a ha b hb => by
      obtain ⟨g, hg, hb⟩ := List.mem_flatMap.mp hb
      rw [hP f a ha, hP g b hb]
      exact List.rel_of_sorted_cons hs g hg
    rw [List.flatMap_cons, List.flatMap_cons, forward_append hlt, forward_flatMap hP hs.of_cons,
      resetNodeIndex_append_resetNodeIndex_right]

theorem filter_flatMap_files {xs : List DocNode} {fs : List (List Char)} (hfs : fs.Nodup)
    (hcover : ∀ b ∈ xs, fileKey b ∈ fs) (g : List Char) :
    (fs.flatMap fun f => xs.filter (fileKey · = f)).filter (fileKey · = g) =
      xs.filter (fileKey · = g) := by
  have hother : ∀ l : List (List Char), g ∉ l →
      (l.flatMap fun f => (xs.filter (fileKey · = f)).filter (fileKey · = g)) = [] :=
    fun l hg => List.flatMap_eq_nil_iff.mpr fun f hf => by
      rw [List.filter_filter]
      refine List.filter_eq_nil_iff.mpr fun b _ hb => hg ?_
      obtain ⟨hbg, hbf⟩ : fileKey b = g ∧ fileKey b = f := by simpa using hb
      exact hbg ▸ hbf ▸ hf
  rw [List.filter_flatMap]
  by_cases hg : g ∈ fs
  · obtain ⟨l₁, l₂, rfl⟩ := List.append_of_mem hg
    have hnd := List.nodup_cons.mp (List.nodup_middle.mp hfs)
    rw [List.flatMap_append, List.flatMap_cons, hother l₁ fun h => hnd.1 (List.mem_append_left _ h),
      hother l₂ fun h => hnd.1 (List.mem_append_right _ h), List.filter_filter]
    simp
  · rw [hother fs hg, eq_comm, List.filter_eq_nil_iff]
    exact fun b hb hbg => hg (of_decide_eq_true hbg ▸ hcover b hb)

/-- Each file runs alone, in increasing file-name order, the outputs joined and numbered. -/
theorem forward_eq_flatMap_files (xs : List DocNode) (fs : List (List Char))
    (hfs : fs.Sorted (· < ·)) (hcover : ∀ b ∈ xs, fileKey b ∈ fs) :
    forward xs = resetNodeIndex (fs.flatMap fun f => forward (xs.filter (fileKey · = f))) := by
  rw [← forward_flatMap (fun f b hb => of_decide_eq_true (List.mem_filter.mp hb).2) hfs,
    forward_eq, forward_eq,
    pySorted_eq_of_filter_fileKey fun g => (filter_flatMap_files hfs.nodup hcover g).symm]

theorem forward_eq_flatMap_files_twoFiles :
    forward [⟨"x", { fileName := "b" }⟩, ⟨"1 Scope", { fileName := "a", textLevel := some 1 }⟩,
        ⟨"y", { fileName := "b" }⟩] =
      resetNodeIndex (["a".data, "b".data].flatMap fun f =>
        forward ([⟨"x", { fileName := "b" }⟩, ⟨"1 Scope", { fileName := "a", textLevel := some 1 }⟩,
          ⟨"y", { fileName := "b" }⟩].filter (fileKey · = f))) :=
  forward_eq_flatMap_files _ _ (by decide) (by decide)

end LayoutNodeParser

end RagParsers
