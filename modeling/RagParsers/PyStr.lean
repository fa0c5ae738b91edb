import Mathlib.Data.List.Infix
import Mathlib.Data.List.DropRight

/-! The `str` primitives the parsers use, with the character tables of Python 3.11. -/

namespace RagParsers

/-- Code points of the characters that `str.isspace`, `str.strip()` and the class `\s` treat as
whitespace. -/
def spaceCodes : List Nat :=
  [0x9, 0xA, 0xB, 0xC, 0xD, 0x1C, 0x1D, 0x1E, 0x1F, 0x20, 0x85, 0xA0, 0x1680, 0x2000, 0x2001,
   0x2002, 0x2003, 0x2004, 0x2005, 0x2006, 0x2007, 0x2008, 0x2009, 0x200A, 0x2028, 0x2029,
   0x202F, 0x205F, 0x3000]

def isSpace (c : Char) : Bool := spaceCodes.contains c.toNat

/-- First code point and length of each run of Unicode decimal digits (category Nd): the
characters of the class `\d`. -/
def decimalRuns : List (Nat × Nat) :=
  [(0x30, 10), (0x660, 10), (0x6F0, 10), (0x7C0, 10), (0x966, 10), (0x9E6, 10), (0xA66, 10),
   (0xAE6, 10), (0xB66, 10), (0xBE6, 10), (0xC66, 10), (0xCE6, 10), (0xD66, 10), (0xDE6, 10),
   (0xE50, 10), (0xED0, 10), (0xF20, 10), (0x1040, 10), (0x1090, 10), (0x17E0, 10), (0x1810, 10),
   (0x1946, 10), (0x19D0, 10), (0x1A80, 10), (0x1A90, 10), (0x1B50, 10), (0x1BB0, 10),
   (0x1C40, 10), (0x1C50, 10), (0xA620, 10), (0xA8D0, 10), (0xA900, 10), (0xA9D0, 10),
   (0xA9F0, 10), (0xAA50, 10), (0xABF0, 10), (0xFF10, 10), (0x104A0, 10), (0x10D30, 10),
   (0x11066, 10), (0x110F0, 10), (0x11136, 10), (0x111D0, 10), (0x112F0, 10), (0x11450, 10),
   (0x114D0, 10), (0x11650, 10), (0x116C0, 10), (0x11730, 10), (0x118E0, 10), (0x11950, 10),
   (0x11C50, 10), (0x11D50, 10), (0x11DA0, 10), (0x16A60, 10), (0x16AC0, 10), (0x16B50, 10),
   (0x1D7CE, 50), (0x1E140, 10), (0x1E2F0, 10), (0x1E950, 10), (0x1FBF0, 10)]

def isDecimalCode (n : Nat) : Bool := decimalRuns.any fun r => r.1 ≤ n && n < r.1 + r.2

def isDecimal (c : Char) : Bool := isDecimalCode c.toNat

theorem toNat_of_isSpace {c : Char} (h : isSpace c = true) : c.toNat ≤ 0x20 ∨ 0x85 ≤ c.toNat := by
  have hall : ∀ n ∈ spaceCodes, n ≤ 0x20 ∨ 0x85 ≤ n := by decide
  exact hall _ (List.elem_iff.mp h)

theorem isDecimalCode_of_space : ∀ n ∈ spaceCodes, isDecimalCode n = false := by decide

theorem isDecimal_of_isSpace {c : Char} (h : isSpace c = true) : isDecimal c = false :=
  isDecimalCode_of_space _ (List.elem_iff.mp h)

/-- `s.strip()`: whitespace removed from both ends. -/
def stripChars (s : List Char) : List Char :=
  ((s.dropWhile isSpace).reverse.dropWhile isSpace).reverse

def strip (s : String) : String := ⟨stripChars s.data⟩

theorem dropWhile_isSpace_of_forall : ∀ {s : List Char}, (∀ c ∈ s, isSpace c = false) →
    s.dropWhile isSpace = s
  | [], _ => rfl
  | c :: s, h => by simp [h c (List.mem_cons_self c s)]

/-- A stripped text starts with no whitespace. -/
theorem isSpace_of_stripChars_eq_cons {s u : List Char} {c : Char} (h : stripChars s = c :: u) :
    isSpace c = false := by
  obtain ⟨t, ht⟩ : c :: u <+: s.dropWhile isSpace := h ▸ List.rdropWhile_prefix isSpace _
  have := List.head_dropWhile_not isSpace s (by rw [← ht]; simp)
  simpa only [← ht, List.cons_append, List.head_cons] using this

theorem infix_stripChars (s : List Char) : stripChars s <:+: s :=
  (List.rdropWhile_prefix isSpace _).isInfix.trans (List.dropWhile_suffix isSpace).isInfix

theorem stripChars_of_forall {s : List Char} (h : ∀ c ∈ s, isSpace c = false) :
    stripChars s = s := by
  rw [stripChars, dropWhile_isSpace_of_forall h,
    dropWhile_isSpace_of_forall fun c hc => h c (List.mem_reverse.mp hc), List.reverse_reverse]

/-- `str.lower()` as the keyword tests see it. The only characters whose lower case holds an
ASCII letter are the ASCII capitals, KELVIN SIGN and the dotted capital I, and no character
lowers to a CJK character; every other character is kept, which no `in` test against the
lower-case ASCII and CJK keywords can tell apart from its lower case. -/
def lowerChar (c : Char) : List Char :=
  if 'A' ≤ c ∧ c ≤ 'Z' then [Char.ofNat (c.toNat + 32)]
  else if c = '\u212A' then ['k']
  else if c = '\u0130' then ['i', '\u0307']
  else [c]

def lower (s : String) : String := ⟨s.data.flatMap lowerChar⟩

/-- Python's `sub in s`. -/
def strIn (sub s : String) : Bool := s.data.tails.any sub.data.isPrefixOf

theorem strIn_eq_true_iff (sub s : String) : strIn sub s = true ↔ sub.data <:+: s.data := by
  simp only [strIn, List.any_eq_true, List.mem_tails, List.isPrefixOf_iff_prefix,
    List.infix_iff_prefix_suffix]
  exact ⟨fun ⟨u, hu, hp⟩ => ⟨u, hp, hu⟩, fun ⟨u, hp, hu⟩ => ⟨u, hu, hp⟩⟩

theorem strIn_trans {w k s : String} (hw : strIn w k = true) (hk : strIn k s = true) :
    strIn w s = true :=
  (strIn_eq_true_iff w s).mpr (((strIn_eq_true_iff w k).mp hw).trans ((strIn_eq_true_iff k s).mp hk))

/-- Python's `s.startswith(pre)`. -/
def startswith (s pre : String) : Bool := pre.data.isPrefixOf s.data

/-- `s.split('\n')[0]`. -/
def firstLine (s : List Char) : List Char := s.takeWhile (· ≠ '\n')

/-- `sep.join(parts)` reads the first part, then each later part after a separator. -/
theorem data_intercalate (sep a : String) (as : List String) :
    (sep.intercalate (a :: as)).data = a.data ++ as.flatMap fun b => sep.data ++ b.data := by
  suffices h : ∀ acc : String, (String.intercalate.go acc sep as).data =
      acc.data ++ as.flatMap fun b => sep.data ++ b.data from h a
  induction as with
  | nil => simp [String.intercalate.go]
  | cons b bs ih =>
    intro acc
    simp [String.intercalate.go, ih]

end RagParsers
