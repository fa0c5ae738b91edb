import RagParsers.PyStr

/-! The fragment of Python's `re` the parsers use. `Re.run` lists where a match can end, in the
order the backtracking tries them; a position is the unread rest of the subject. -/

namespace RagParsers

inductive ClassItem where
  | lit (c : Char)
  | range (lo hi : Char)
  | digit
  | space
  deriving DecidableEq, Repr

/-- Case folding of `re.IGNORECASE`, exact for the literals of the patterns (ASCII and caseless
CJK characters): besides the ASCII capitals, the dotted capital I and the dotless i fold to `i`,
KELVIN SIGN to `k` and the long s to `s`. -/
def caseFold (c : Char) : Char :=
  if 'A' ≤ c ∧ c ≤ 'Z' then Char.ofNat (c.toNat + 32)
  else if c = '\u0130' ∨ c = '\u0131' then 'i'
  else if c = '\u212A' then 'k'
  else if c = '\u017F' then 's'
  else c

/-- With `ic` (`re.IGNORECASE`) a literal compares folded; no pattern puts a cased range under
`re.IGNORECASE`. -/
def ClassItem.test (ic : Bool) (c : Char) : ClassItem → Bool
  | .lit p => if ic then caseFold p == caseFold c else p == c
  | .range lo hi => lo ≤ c && c ≤ hi
  | .digit => isDecimal c
  | .space => isSpace c

inductive Re where
  | eps
  | any
  | set (negated : Bool) (items : List ClassItem)
  | seq (a b : Re)
  | alt (a b : Re)
  | rep (a : Re) (lo : Nat) (hi : Option Nat) (greedy : Bool)
  | bol
  | eol
  deriving Repr

/-- One character satisfying `P`. -/
def charStep (P : Char → Bool) : List Char → List (List Char)
  | c :: t => if P c then [t] else []
  | [] => []

def mandatoryRun (step : List Char → List (List Char)) : Nat → List Char → List (List Char)
  | 0, s => [s]
  | k + 1, s => (step s).flatMap (mandatoryRun step k)

/-- The iterations after the mandatory ones: at most `hi` more, each consuming input. The fuel
only bounds their number: started at the input's length it is never the reason to stop. -/
def optionalRun (step : List Char → List (List Char)) (greedy : Bool) :
    Option Nat → Nat → List Char → List (List Char)
  | _, 0, s => [s]
  | hi, fuel + 1, s =>
    if hi = some 0 then [s] else
    let more := ((step s).filter (·.length < s.length)).flatMap
      (optionalRun step greedy (hi.map (· - 1)) fuel)
    if greedy then more ++ [s] else s :: more

def repeatRun (step : List Char → List (List Char)) (lo : Nat) (hi : Option Nat)
    (greedy : Bool) (s : List Char) : List (List Char) :=
  (mandatoryRun step lo s).flatMap fun t => optionalRun step greedy (hi.map (· - lo)) t.length t

/-- `n` is the length of the whole subject, which `^` needs. -/
def Re.run (ic : Bool) (n : Nat) : Re → List Char → List (List Char)
  | .eps, s => [s]
  | .any, s => charStep (· != '\n') s
  | .set neg items, s => charStep (fun c => items.any (·.test ic c) != neg) s
  | .seq a b, s => (a.run ic n s).flatMap (b.run ic n)
  | .alt a b, s => a.run ic n s ++ b.run ic n s
  | .rep a lo hi greedy, s => repeatRun (a.run ic n) lo hi greedy s
  | .bol, s => if s.length = n then [s] else []
  | .eol, s => if s = [] ∨ s = ['\n'] then [s] else []

/-- `re.match(r, s)` finds a match. -/
def Re.matches (ic : Bool) (r : Re) (s : List Char) : Bool := !(r.run ic s.length s).isEmpty

/-- `re.search(r, s)` finds a match. -/
def Re.search (ic : Bool) (r : Re) (s : List Char) : Bool :=
  s.tails.any fun t => !(r.run ic s.length t).isEmpty

/-- `m.group(1)` for `m = re.match(pre (g) post, s)`: the text `g` spans in the first match the
backtracking finds. -/
def Re.matchGroup (ic : Bool) (pre g post : Re) (s : List Char) : Option (List Char) :=
  (pre.run ic s.length s).findSome? fun u =>
    ((g.run ic s.length u).find? fun v => !(post.run ic s.length v).isEmpty).map
      fun v => u.take (u.length - v.length)

def Re.lit (c : Char) : Re := .set false [.lit c]
def Re.digit : Re := .set false [.digit]
def Re.space : Re := .set false [.space]
def Re.star (a : Re) : Re := .rep a 0 none true
def Re.plus (a : Re) : Re := .rep a 1 none true
def Re.opt (a : Re) : Re := .rep a 0 (some 1) true

def Re.seqs : List Re → Re
  | [] => .eps
  | [a] => a
  | a :: as => .seq a (Re.seqs as)

def Re.str (s : String) : Re := .seqs (s.data.map .lit)

section Run

variable {ic : Bool} {n : Nat} {s t : List Char}

@[simp] theorem mem_charStep {P : Char → Bool} :
    t ∈ charStep P s ↔ ∃ c, s = c :: t ∧ P c = true := by
  cases s with
  | nil => simp [charStep]
  | cons c u =>
    by_cases h : P c = true
    · simp only [charStep, h, if_true, List.mem_singleton, List.cons.injEq]
      exact ⟨fun ht => ⟨c, ⟨rfl, ht.symm⟩, h⟩, fun ⟨_, ⟨_, hu⟩, _⟩ => hu.symm⟩
    · simp [charStep, h]

theorem run_set (neg : Bool) (items : List ClassItem) :
    (Re.set neg items).run ic n s = charStep (fun c => items.any (·.test ic c) != neg) s := rfl

theorem run_seq (a b : Re) : (a.seq b).run ic n s = (a.run ic n s).flatMap (b.run ic n) := rfl

theorem mem_run_seq {a b : Re} : t ∈ (a.seq b).run ic n s ↔ ∃ u ∈ a.run ic n s, t ∈ b.run ic n u :=
  List.mem_flatMap

theorem run_seqs_cons (a : Re) (as : List Re) :
    (Re.seqs (a :: as)).run ic n s = (a.run ic n s).flatMap ((Re.seqs as).run ic n) := by
  cases as with
  | nil => simp [Re.seqs, Re.run]
  | cons b bs => rfl

theorem mem_run_seqs_cons {a : Re} {as : List Re} :
    t ∈ (Re.seqs (a :: as)).run ic n s ↔ ∃ u ∈ a.run ic n s, t ∈ (Re.seqs as).run ic n u := by
  rw [run_seqs_cons, List.mem_flatMap]

theorem run_rep (a : Re) (lo : Nat) (hi : Option Nat) (g : Bool) :
    (a.rep lo hi g).run ic n = repeatRun (a.run ic n) lo hi g := rfl

/-- `k` iterations of `step` lead from `s` to `t`. -/
def Iterate (step : List Char → List (List Char)) : Nat → List Char → List Char → Prop
  | 0, s, t => t = s
  | k + 1, s, t => ∃ u ∈ step s, Iterate step k u t

/-- Every iteration of `step` consumes input. -/
def Consuming (step : List Char → List (List Char)) : Prop :=
  ∀ s t, t ∈ step s → t.length < s.length

variable {step : List Char → List (List Char)}

theorem mem_mandatoryRun : ∀ {k s}, t ∈ mandatoryRun step k s ↔ Iterate step k s t
  | 0, s => by simp [mandatoryRun, Iterate]
  | k + 1, s => by simp [mandatoryRun, Iterate, mem_mandatoryRun]

theorem iterate_add : ∀ {a b s}, Iterate step (a + b) s t ↔ ∃ u, Iterate step a s u ∧ Iterate step b u t
  | 0, b, s => by simp [Iterate]
  | a + 1, b, s => by
    rw [Nat.add_right_comm]
    simp only [Iterate, iterate_add]
    exact ⟨fun ⟨v, hv, u, hu, ht⟩ => ⟨u, ⟨v, hv, hu⟩, ht⟩, fun ⟨u, ⟨v, hv, hu⟩, ht⟩ => ⟨v, hv, u, hu, ht⟩⟩

theorem mem_optionalRun (hc : Consuming step) {g : Bool} :
    ∀ {fuel hi s}, s.length ≤ fuel →
      (t ∈ optionalRun step g hi fuel s ↔ ∃ k, (∀ h ∈ hi, k ≤ h) ∧ Iterate step k s t)
  | 0, hi, s, hs => by
    have hnil : ∀ k, Iterate step (k + 1) s t → False := fun k ⟨u, hu, _⟩ => by
      have := hc s u hu; omega
    simp only [optionalRun, List.mem_singleton]
    exact ⟨fun h => ⟨0, by simp, h⟩, fun ⟨k, _, hk⟩ => by
      cases k with
      | zero => exact hk
      | succ k => exact (hnil k hk).elim⟩
  | fuel + 1, hi, s, hs => by
    by_cases h0 : hi = some 0
    · subst h0
      simp only [optionalRun, if_true, List.mem_singleton, Option.mem_def, Option.some.injEq,
        forall_eq', Nat.le_zero]
      exact ⟨fun h => ⟨0, rfl, h⟩, fun ⟨k, hk, h⟩ => by subst hk; exact h⟩
    · have step_iff : (∃ u ∈ (step s).filter (·.length < s.length),
          t ∈ optionalRun step g (hi.map (· - 1)) fuel u) ↔
          ∃ k, (∀ h ∈ hi, k + 1 ≤ h) ∧ Iterate step (k + 1) s t := by
        simp only [List.mem_filter, decide_eq_true_eq]
        constructor
        · rintro ⟨u, ⟨hu, hlen⟩, ht⟩
          obtain ⟨k, hk, hit⟩ := (mem_optionalRun hc (by omega)).mp ht
          refine ⟨k, fun h hh => ?_, u, hu, hit⟩
          have := hk (h - 1) (Option.mem_map_of_mem _ hh)
          have : h ≠ 0 := fun e => h0 (e ▸ hh)
          omega
        · rintro ⟨k, hk, u, hu, hit⟩
          have hlen := hc s u hu
          refine ⟨u, ⟨hu, hlen⟩, (mem_optionalRun hc (by omega)).mpr ⟨k, fun h hh => ?_, hit⟩⟩
          obtain ⟨h', hh', rfl⟩ := Option.mem_map.mp hh
          have := hk h' hh'
          omega
      have split : (∃ k, (∀ h ∈ hi, k ≤ h) ∧ Iterate step k s t) ↔
          t = s ∨ ∃ k, (∀ h ∈ hi, k + 1 ≤ h) ∧ Iterate step (k + 1) s t :=
        ⟨fun ⟨k, hk, hit⟩ => by
          cases k with
          | zero => exact .inl hit
          | succ k => exact .inr ⟨k, hk, hit⟩,
        fun h => h.elim (fun h => ⟨0, by simp, h⟩) fun ⟨k, hk, hit⟩ => ⟨k + 1, hk, hit⟩⟩
      rw [split, ← step_iff]
      cases g <;> simp [optionalRun, h0, or_comm]

/-- Iterations split into the `lo` mandatory ones and at most `hi - lo` more. -/
theorem iterate_split {lo : Nat} {hi : Option Nat} (hlo : ∀ h ∈ hi, lo ≤ h) :
    (∃ u, Iterate step lo s u ∧ ∃ j, (∀ h ∈ hi.map (· - lo), j ≤ h) ∧ Iterate step j u t) ↔
      ∃ k, lo ≤ k ∧ (∀ h ∈ hi, k ≤ h) ∧ Iterate step k s t := by
  constructor
  · rintro ⟨u, hu, j, hj, hit⟩
    refine ⟨lo + j, by omega, fun h hh => ?_, iterate_add.mpr ⟨u, hu, hit⟩⟩
    have := hj (h - lo) (Option.mem_map_of_mem _ hh)
    have := hlo h hh
    omega
  · rintro ⟨k, hk, hkh, hit⟩
    obtain ⟨u, hu, hit⟩ := iterate_add.mp (show Iterate step (lo + (k - lo)) s t by
      rwa [Nat.add_sub_cancel' hk])
    refine ⟨u, hu, k - lo, fun h hh => ?_, hit⟩
    obtain ⟨h', hh', rfl⟩ := Option.mem_map.mp hh
    have := hkh h' hh'
    omega

theorem mem_repeatRun (hc : Consuming step) {lo : Nat} {hi : Option Nat} {g : Bool}
    (hlo : ∀ h ∈ hi, lo ≤ h) :
    t ∈ repeatRun step lo hi g s ↔ ∃ k, lo ≤ k ∧ (∀ h ∈ hi, k ≤ h) ∧ Iterate step k s t := by
  simp only [repeatRun, List.mem_flatMap, mem_mandatoryRun]
  rw [← iterate_split hlo]
  exact exists_congr fun u => and_congr_right fun _ => mem_optionalRun hc le_rfl

variable {P : Char → Bool} {lo : Nat} {hi : Option Nat} {g : Bool}

theorem consuming_charStep (P : Char → Bool) : Consuming (charStep P) := by
  intro s t h
  obtain ⟨c, rfl, -⟩ := mem_charStep.mp h
  simp

theorem iterate_charStep :
    ∀ {k s}, Iterate (charStep P) k s t ↔ ∃ p, s = p ++ t ∧ p.length = k ∧ ∀ c ∈ p, P c = true
  | 0, s => by
    simp only [Iterate, List.length_eq_zero]
    exact ⟨fun h => ⟨[], by simp [h], rfl, by simp⟩, fun ⟨p, hs, hp, _⟩ => by simp [hs, hp]⟩
  | k + 1, s => by
    simp only [Iterate, mem_charStep, iterate_charStep]
    constructor
    · rintro ⟨u, ⟨c, rfl, hc⟩, p, rfl, hp, hall⟩
      exact ⟨c :: p, rfl, by simp [hp], List.forall_mem_cons.mpr ⟨hc, hall⟩⟩
    · rintro ⟨p, rfl, hp, hall⟩
      cases p with
      | nil => simp at hp
      | cons c p =>
        exact ⟨p ++ t, ⟨c, rfl, hall c (by simp)⟩, p, rfl, by simpa using hp,
          fun d hd => hall d (by simp [hd])⟩

theorem mem_repeatRun_charStep (hlo : ∀ h ∈ hi, lo ≤ h) :
    t ∈ repeatRun (charStep P) lo hi g s ↔
      ∃ p, s = p ++ t ∧ lo ≤ p.length ∧ (∀ h ∈ hi, p.length ≤ h) ∧ ∀ c ∈ p, P c = true := by
  rw [mem_repeatRun (consuming_charStep P) hlo]
  constructor
  · rintro ⟨k, hk, hkh, hit⟩
    obtain ⟨p, rfl, rfl, hall⟩ := iterate_charStep.mp hit
    exact ⟨p, rfl, hk, hkh, hall⟩
  · rintro ⟨p, rfl, hk, hkh, hall⟩
    exact ⟨p.length, hk, hkh, iterate_charStep.mpr ⟨p, rfl, rfl, hall⟩⟩

/-- A split of `s` into a run of `P`-characters and a rest that does not start with one is the
split into `takeWhile` and `dropWhile`. -/
theorem takeWhile_dropWhile_of_split {p u : List Char} (hp : ∀ c ∈ p, P c = true)
    (hu : ∀ c u', u = c :: u' → P c = false) :
    (p ++ u).takeWhile P = p ∧ (p ++ u).dropWhile P = u := by
  rw [List.takeWhile_append_of_pos hp, List.dropWhile_append_of_pos hp]
  cases u with
  | nil => simp
  | cons c u' => simp [hu c u' rfl]

theorem run_seqs_append (as bs : List Re) :
    (Re.seqs (as ++ bs)).run ic n s = ((Re.seqs as).run ic n s).flatMap ((Re.seqs bs).run ic n) := by
  induction as generalizing s with
  | nil => simp [Re.seqs, Re.run]
  | cons a as ih =>
    rw [List.cons_append, run_seqs_cons, run_seqs_cons, List.flatMap_assoc]
    congr 1
    funext u
    exact ih

theorem mem_optionalRun_self : s ∈ optionalRun step g hi fuel s := by
  cases fuel with
  | zero => simp [optionalRun]
  | succ fuel =>
    unfold optionalRun
    split_ifs <;> simp_all

/-- A repetition that cannot start has only the empty run. -/
theorem repeatRun_charStep_of_not (hs : ∀ c u, s = c :: u → P c = false) :
    repeatRun (charStep P) 0 hi g s = [s] := by
  have hstep : charStep P s = [] := by
    cases s with
    | nil => rfl
    | cons c u => simp [charStep, hs c u rfl]
  unfold repeatRun
  rw [mandatoryRun, List.flatMap_singleton]
  cases s.length with
  | zero => rfl
  | succ k =>
    unfold optionalRun
    split_ifs <;> simp [hstep]

/-- A greedy repetition of one class tries the longest run first. -/
theorem head?_optionalRun_charStep : ∀ {fuel s}, s.length ≤ fuel →
    (optionalRun (charStep P) true none fuel s).head? = some (s.dropWhile P)
  | 0, s, h => by simp [List.length_eq_zero.mp (Nat.le_zero.mp h), optionalRun]
  | fuel + 1, [], _ => by simp [optionalRun, charStep]
  | fuel + 1, c :: u, h => by
    by_cases hc : P c = true
    · have ih := @head?_optionalRun_charStep fuel u (by simpa using h)
      simp [optionalRun, charStep, hc, List.dropWhile_cons_of_pos hc, ih]
    · simp [optionalRun, charStep, hc, List.dropWhile_cons_of_neg hc]

theorem repeatRun_succ (lo : Nat) :
    repeatRun step (lo + 1) hi g s = (step s).flatMap (repeatRun step lo (hi.map (· - 1)) g) := by
  show _ = (step s).flatMap fun u => repeatRun step lo _ g u
  simp only [repeatRun, mandatoryRun, List.flatMap_assoc, Option.map_map, Function.comp_def,
    Nat.sub_sub, Nat.add_comm 1 lo]

theorem optionalRun_of_step_eq_nil (h : step s = []) : optionalRun step g hi fuel s = [s] := by
  cases fuel with
  | zero => rfl
  | succ fuel => cases g <;> simp [optionalRun, h]

/-- A run of one class followed by a continuation that fails wherever a character of the class
comes next: only the longest run goes on. -/
theorem flatMap_optionalRun_charStep {α : Type} {K : List Char → List α}
    (hK : ∀ c u, P c = true → K (c :: u) = []) :
    ∀ {fuel hi s}, s.length ≤ fuel →
      (optionalRun (charStep P) g hi fuel s).flatMap K =
        if ∀ h ∈ hi, (s.takeWhile P).length ≤ h then K (s.dropWhile P) else []
  | 0, hi, s, h => by simp [List.length_eq_zero.mp (Nat.le_zero.mp h), optionalRun]
  | fuel + 1, hi, [], _ => by simp [optionalRun_of_step_eq_nil (show charStep P [] = [] from rfl)]
  | fuel + 1, hi, c :: u, h => by
    by_cases hc : P c = true
    · have hu : u.length ≤ fuel := by simpa using h
      rw [List.takeWhile_cons_of_pos hc, List.dropWhile_cons_of_pos hc]
      rcases hi with _ | _ | hi
      · have ih := @flatMap_optionalRun_charStep _ _ hK fuel none u hu
        cases g <;> simp [optionalRun, charStep, hc, ih, hK c u hc]
      · simp [optionalRun, hK c u hc]
      · have ih := @flatMap_optionalRun_charStep _ _ hK fuel (some hi) u hu
        cases g <;> simp [optionalRun, charStep, hc, ih, hK c u hc]
    · simp [optionalRun_of_step_eq_nil (show charStep P (c :: u) = [] by simp [charStep, hc]),
        List.takeWhile_cons_of_neg hc, List.dropWhile_cons_of_neg hc]

theorem flatMap_repeatRun_charStep {α : Type} {K : List Char → List α}
    (hK : ∀ c u, P c = true → K (c :: u) = []) :
    ∀ {lo hi s}, (∀ h ∈ hi, lo ≤ h) →
      (repeatRun (charStep P) lo hi g s).flatMap K =
        if lo ≤ (s.takeWhile P).length ∧ ∀ h ∈ hi, (s.takeWhile P).length ≤ h then
          K (s.dropWhile P) else []
  | 0, hi, s, _ => by
    simp [repeatRun, mandatoryRun, flatMap_optionalRun_charStep hK le_rfl]
  | lo + 1, hi, [], _ => by simp [repeatRun_succ, charStep]
  | lo + 1, hi, c :: u, hlo => by
    by_cases hc : P c = true
    · have ih := @flatMap_repeatRun_charStep _ _ hK lo (hi.map (· - 1)) u fun h' hh' => by
        obtain ⟨h, hh, rfl⟩ := Option.mem_map.mp hh'
        have := hlo h hh
        omega
      rw [repeatRun_succ, List.takeWhile_cons_of_pos hc, List.dropWhile_cons_of_pos hc]
      simp only [charStep, hc, if_true, List.flatMap_singleton, ih, List.length_cons]
      rcases hi with _ | h
      · simp
      · have := hlo h rfl
        simp only [Option.map_some', Option.mem_def, Option.some.injEq, forall_eq']
        split_ifs <;> first | rfl | omega
    · simp [repeatRun_succ, charStep, hc]

theorem head?_flatMap_of_head? {α β : Type} {l : List α} {f : α → List β} {a : α} {b : β}
    (hl : l.head? = some a) (hf : (f a).head? = some b) : (l.flatMap f).head? = some b := by
  cases l with
  | nil => cases hl
  | cons x l =>
    cases hl
    simp [hf]

theorem head?_repeatRun_charStep : ∀ {lo s}, lo ≤ (s.takeWhile P).length →
    (repeatRun (charStep P) lo none true s).head? = some (s.dropWhile P)
  | 0, s, _ => by simp [repeatRun, mandatoryRun, head?_optionalRun_charStep le_rfl]
  | lo + 1, [], h => by simp at h
  | lo + 1, c :: u, h => by
    by_cases hc : P c = true
    · rw [List.takeWhile_cons_of_pos hc, List.length_cons] at h
      simp [repeatRun_succ, charStep, hc, List.dropWhile_cons_of_pos hc,
        head?_repeatRun_charStep (Nat.le_of_succ_le_succ h)]
    · simp [List.takeWhile_cons_of_neg hc] at h

/-- The greedy loop first goes on from the first position its step reaches. -/
theorem head?_optionalRun_of_head? {u : List Char} (hu : (step s).head? = some u)
    (hlt : u.length < s.length) :
    (optionalRun step true none (fuel + 1) s).head? = (optionalRun step true none fuel u).head? := by
  obtain ⟨rest, hrest⟩ : ∃ rest, step s = u :: rest := by
    cases h : step s with
    | nil => simp [h] at hu
    | cons v rest => simp only [h, List.head?_cons, Option.some.injEq] at hu; exact ⟨rest, hu ▸ rfl⟩
  obtain ⟨v, hv⟩ : ∃ v, (optionalRun step true none fuel u).head? = some v := by
    cases h : optionalRun step true none fuel u with
    | nil => exact absurd (h ▸ mem_optionalRun_self) (List.not_mem_nil u)
    | cons v _ => exact ⟨v, rfl⟩
  simp [optionalRun, hrest, hlt, hv]

theorem mem_repeatRun_zero : s ∈ repeatRun step 0 hi g s := by
  simp [repeatRun, mandatoryRun, mem_optionalRun_self]

/-- A repetition whose first iteration is mandatory and cannot start has no run. -/
theorem repeatRun_charStep_succ_of_not (hs : ∀ c u, s = c :: u → P c = false) :
    repeatRun (charStep P) (lo + 1) hi g s = [] := by
  rw [repeatRun_succ]
  cases s with
  | nil => rfl
  | cons c u => simp [charStep, hs c u rfl]

theorem flatMap_run_seqs_cons {α : Type} (a : Re) (as : List Re) (K : List Char → List α) :
    ((Re.seqs (a :: as)).run ic n s).flatMap K =
      (a.run ic n s).flatMap fun u => ((Re.seqs as).run ic n u).flatMap K := by
  rw [run_seqs_cons, List.flatMap_assoc]

@[simp] theorem run_seqs_nil : (Re.seqs []).run ic n s = [s] := rfl

theorem run_seqs_singleton (a : Re) : (Re.seqs [a]).run ic n = a.run ic n := rfl

theorem run_bol (s : List Char) : Re.bol.run ic n s = if s.length = n then [s] else [] := rfl

end Run

section Reading

variable {ic : Bool} {n : Nat} {s t : List Char}

theorem matches_of_mem {r : Re} (h : t ∈ r.run ic s.length s) : r.matches ic s = true := by
  rw [Re.matches, Bool.not_eq_true', List.isEmpty_eq_false_iff_exists_mem]
  exact ⟨t, h⟩

theorem search_of_mem {r : Re} {u : List Char} (hu : u <:+ s) (h : t ∈ r.run ic s.length u) :
    r.search ic s = true :=
  List.any_eq_true.mpr ⟨u, (List.mem_tails _ _).mpr hu, by
    rw [Bool.not_eq_true', List.isEmpty_eq_false_iff_exists_mem]; exact ⟨t, h⟩⟩

theorem run_any : Re.any.run ic n = charStep (· != '\n') := rfl

theorem run_digit : Re.digit.run ic n = charStep isDecimal := by
  funext s; rw [Re.digit, run_set]; congr 1; funext c; simp [ClassItem.test]

theorem run_space : Re.space.run ic n = charStep isSpace := by
  funext s; rw [Re.space, run_set]; congr 1; funext c; simp [ClassItem.test]

/-- A class of literals tests membership. -/
theorem run_set_lits (cs : List Char) :
    (Re.set false (cs.map .lit)).run false n = charStep fun c => cs.any (· == c) := by
  funext s; rw [run_set]; congr 1; funext c
  rw [Bool.bne_false]
  induction cs with
  | nil => rfl
  | cons a cs ih => rw [List.map_cons, List.any_cons, ih]; rfl

theorem mem_run_set_lits {cs : List Char} {c : Char} (hc : c ∈ cs) :
    t ∈ (Re.set false (cs.map .lit)).run false n (c :: t) := by
  rw [run_set_lits]
  exact mem_charStep.mpr ⟨c, rfl, List.any_eq_true.mpr ⟨c, hc, beq_self_eq_true c⟩⟩

/-- A repetition of a one-character pattern can read any run of its characters of a length it
allows. -/
theorem mem_run_rep_of_charStep {a : Re} {P : Char → Bool} (ha : a.run ic n = charStep P)
    {lo : Nat} {hi : Option Nat} {g : Bool} {p : List Char} (hp : ∀ c ∈ p, P c = true)
    (hlo : lo ≤ p.length) (hhi : ∀ h ∈ hi, p.length ≤ h) :
    t ∈ (a.rep lo hi g).run ic n (p ++ t) := by
  rw [run_rep, ha]
  exact (mem_repeatRun_charStep fun h hh => hlo.trans (hhi h hh)).mpr ⟨p, rfl, hlo, hhi, hp⟩

theorem mem_run_plus_digit {ds : List Char} (hds : ds ≠ []) (hdig : ∀ c ∈ ds, isDecimal c = true) :
    t ∈ (Re.plus .digit).run ic n (ds ++ t) :=
  mem_run_rep_of_charStep run_digit hdig (List.length_pos.mpr hds) (by simp)

theorem mem_run_star_space_of_blanks {w : List Char} (hw : ∀ c ∈ w, isSpace c = true) :
    t ∈ (Re.star .space).run ic n (w ++ t) :=
  mem_run_rep_of_charStep run_space hw (Nat.zero_le _) (by simp)

theorem mem_run_rep_zero {a : Re} {hi : Option Nat} {g : Bool} : t ∈ (a.rep 0 hi g).run ic n t :=
  mem_repeatRun_zero

theorem mem_run_lit {c : Char} : t ∈ (Re.lit c).run ic n (c :: t) :=
  mem_charStep.mpr ⟨c, rfl, by cases ic <;> simp [ClassItem.test]⟩

theorem mem_run_eol : [] ∈ Re.eol.run ic n [] := by simp [Re.run]

theorem mem_run_bol : s ∈ Re.bol.run ic s.length s := by simp [Re.run]

theorem mem_run_seqs_singleton {a : Re} (h : t ∈ a.run ic n s) : t ∈ (Re.seqs [a]).run ic n s := h

/-- One piece of a sequence read, the rest read after it. -/
theorem mem_run_seqs_cons_of {a : Re} {as : List Re} {u : List Char} (hu : u ∈ a.run ic n s)
    (ht : t ∈ (Re.seqs as).run ic n u) : t ∈ (Re.seqs (a :: as)).run ic n s :=
  mem_run_seqs_cons.mpr ⟨u, hu, ht⟩

end Reading

section ReadingBack

variable {ic : Bool} {n : Nat} {s t : List Char}

theorem eq_of_mem_run_bol (h : t ∈ Re.bol.run ic n s) : t = s := by
  rw [run_bol] at h
  split_ifs at h
  · exact List.mem_singleton.mp h
  · simp at h

/-- A repetition of a one-character pattern reads a run of its characters, of a length it
allows. -/
theorem run_of_mem_run_rep {a : Re} {P : Char → Bool} (ha : a.run ic n = charStep P) {lo : Nat}
    {hi : Option Nat} {g : Bool} (h : t ∈ (a.rep lo hi g).run ic n s) (hlo : ∀ h ∈ hi, lo ≤ h) :
    ∃ p, s = p ++ t ∧ lo ≤ p.length ∧ (∀ h ∈ hi, p.length ≤ h) ∧ ∀ c ∈ p, P c = true := by
  rw [run_rep, ha] at h
  exact (mem_repeatRun_charStep hlo).mp h

theorem blanks_of_mem_run_star_space (h : t ∈ (Re.star .space).run ic n s) :
    ∃ w, s = w ++ t ∧ ∀ c ∈ w, isSpace c = true := by
  obtain ⟨w, hs, -, -, hw⟩ := run_of_mem_run_rep run_space h (by simp)
  exact ⟨w, hs, hw⟩

theorem mem_run_seqs_append {as bs : List Re} :
    t ∈ (Re.seqs (as ++ bs)).run ic n s ↔ ∃ u ∈ (Re.seqs as).run ic n s, t ∈ (Re.seqs bs).run ic n u := by
  rw [run_seqs_append, List.mem_flatMap]

theorem exists_mem_run_of_matches {r : Re} (h : r.matches ic s = true) :
    ∃ t, t ∈ r.run ic s.length s := by
  unfold Re.matches at h
  cases hr : r.run ic s.length s with
  | nil => simp [hr] at h
  | cons t _ => exact ⟨t, List.mem_cons_self _ _⟩

theorem eq_of_mem_run_lit {c : Char} (h : t ∈ (Re.lit c).run false n s) : s = c :: t := by
  rw [Re.lit, run_set, mem_charStep] at h
  obtain ⟨d, rfl, hd⟩ := h
  simp only [List.any_cons, List.any_nil, ClassItem.test, Bool.false_eq_true, if_false, Bool.or_false,
    bne_iff_ne, ne_eq, beq_eq_false_iff_ne, not_not] at hd
  rw [hd]

/-- `re.search` finds the pattern at the start of some suffix. -/
theorem exists_of_search {r : Re} (h : r.search ic s = true) :
    ∃ pre u t, s = pre ++ u ∧ t ∈ r.run ic s.length u := by
  obtain ⟨u, hu, hne⟩ := List.any_eq_true.mp h
  rw [Bool.not_eq_true', List.isEmpty_eq_false_iff_exists_mem] at hne
  obtain ⟨t, ht⟩ := hne
  obtain ⟨pre, rfl⟩ := (List.mem_tails _ _).mp hu
  exact ⟨pre, u, t, rfl, ht⟩

end ReadingBack

end RagParsers
