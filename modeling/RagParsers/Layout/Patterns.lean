import RagParsers.Regex

/-! The patterns of `layout.py`, none compiled with a flag. The letter pattern is kept split at the
group whose text is read (`GroupedRe`). -/

namespace RagParsers

namespace LayoutNodeParser

/-- `DOT = r"[\.．]"` -/
def dot : Re := .set false [.lit '.', .lit '．']

/-- The numerals of `CN_NUM`. -/
def cnNumChars : List Char := "一二三四五六七八九十百千万零壹贰叁肆伍陆柒捌玖拾佰仟".data

/-- `CN_NUM` -/
def cnNum : Re := .set false (cnNumChars.map .lit)

/-- `AR_NUM = r"[0-9０-９]"` -/
def arNum : Re := .set false [.range '0' '9', .range '０' '９']

/-- `LETTER = r"[a-zA-Z]"` -/
def letter : Re := .set false [.range 'a' 'z', .range 'A' 'Z']

/-- `SEP_LOOSE = r"\s?"` -/
def sepLoose : Re := .opt .space

/-- `INVALID_FOLLOW = r"[^\d\)）\]】\}]"` -/
def invalidFollow : Re := .set true [.digit, .lit ')', .lit '）', .lit ']', .lit '】', .lit '\x7d']

/-- `CONTENT_PATTERN = rf"(?:\s*({INVALID_FOLLOW}.*))"` -/
def contentPattern : Re := .seqs [.star .space, invalidFollow, .star .any]

/-- A key of `NORMAL_TEMPLATES`: `rf"^(\s*第\s*{CN_NUM}+\s*([<markers>]))"`. -/
def normalTemplate (markers : String) : Re :=
  .seqs [.bol, .star .space, .lit '第', .star .space, .plus cnNum, .star .space,
    .set false (markers.data.map .lit)]

/-- `NORMAL_TEMPLATES`, in insertion order. -/
def normalTemplates : List (Re × Nat) :=
  [(normalTemplate "篇卷章", 1), (normalTemplate "节", 2), (normalTemplate "条", 3)]

/-- The group of `LETTER_NUMBER_PATTERN = rf"^(\s*{LETTER}{DOT}{AR_NUM}+(?:{DOT}{AR_NUM}+)*)"`. -/
def letterNumberGroup : Re :=
  .seqs [.star .space, letter, dot, .plus arNum, .star (.seq dot (.plus arNum))]

/-- `\d{4}年\d{1,2}月\d{1,2}日` -/
def digitDate : Re :=
  .seqs [.rep .digit 4 (some 4) true, .lit '年', .rep .digit 1 (some 2) true, .lit '月',
    .rep .digit 1 (some 2) true, .lit '日']

/-- The native-numeral date; its year class holds U+25CB, U+3007, U+FF2F and U+039F. -/
def cnDate : Re :=
  let yearDigit : Re := .set false ("零○0０〇ＯΟ一二三四五六七八九十".data.map .lit)
  let cnDigit : Re := .set false ("一二三四五六七八九十".data.map .lit)
  .seqs [.rep yearDigit 4 (some 4) true, .lit '年', .rep cnDigit 1 (some 2) true, .lit '月',
    .rep cnDigit 1 (some 3) true, .lit '日']

/-- `.{0,100}?\s*\n\s*(<date>)\s*\n?$` -/
def trailingDate (date : Re) : Re :=
  .seqs [.rep .any 0 (some 100) false, .star .space, .lit '\n', .star .space, date, .star .space,
    .opt (.lit '\n'), .eol]

/-- `^\s*(<date>)\s*$` -/
def soleDate (date : Re) : Re := .seqs [.bol, .star .space, date, .star .space, .eol]

/-- `TIME_PATTERNS` -/
def timePatterns : List Re :=
  let sep : Re := .set false [.lit '.', .lit '．', .lit '-']
  [trailingDate digitDate, soleDate digitDate, trailingDate cnDate, soleDate cnDate,
   soleDate (.seqs [.rep .digit 4 (some 4) true, sep, .rep .digit 1 (some 2) true, sep,
     .rep .digit 1 (some 2) true])]

/-- `TOC_PATTERNS`; the first class holds the middle dot U+00B7. -/
def tocPatterns : List Re :=
  let pageNumber : Re := .seqs [.plus .space, .plus .digit, .star .space, .eol]
  [.seqs [.star .any, .set false [.lit '.', .lit '．', .lit '·'], .star .space, .plus .digit,
     .star .space, .eol],
   .seqs [.bol, .star .space,
     .alt arNum (.alt (.plus (.set false [.lit 'I', .lit 'V', .lit 'X'])) (.alt (.str "附录") cnNum)),
     .rep .any 0 none false, pageNumber],
   .seqs [.bol, .star .space, .lit '《', .rep .any 0 none false, .lit '》', .rep .any 0 none false,
     pageNumber]]

/-- `_generate_normal_patterns_with_level()` -/
def generateNormalPatternsWithLevel : List (Re × Nat) :=
  normalTemplates.map fun (template, level) => (.seq template contentPattern, level)

/-- `num_block = rf"({DOT}\s*{AR_NUM}{{1,3}})"` -/
def numBlock : Re := .seqs [dot, .star .space, .rep arNum 1 (some 3) true]

/-- The pattern of one level in `_generate_number_patterns_with_level`. -/
def numberPattern (level : Nat) : Re :=
  if level = 1 then
    .seqs [.bol, .star .space, .rep arNum 1 (some 2) true, dot, sepLoose, contentPattern]
  else
    .seqs ([.bol, .star .space, .rep arNum 1 (some 2) true] ++ List.replicate (level - 1) numBlock ++
      [sepLoose, contentPattern])

/-- `_generate_number_patterns_with_level(max_level)`: deepest level first. -/
def generateNumberPatternsWithLevel (maxLevel : Nat) : List (Re × Nat) :=
  ((List.range maxLevel).map fun i => (numberPattern (i + 1), i + 1)).reverse

/-- A pattern `pre(group)post` whose first group's text is read. -/
structure GroupedRe where
  pre : Re
  group : Re
  post : Re

/-- `_generate_letter_number_patterns()`: `f"{LETTER_NUMBER_PATTERN}{SEP_LOOSE}{CONTENT_PATTERN}"`. -/
def generateLetterNumberPatterns : List GroupedRe :=
  [⟨.bol, letterNumberGroup, .seq sepLoose contentPattern⟩]

def normalPatternsWithLevel : List (Re × Nat) := generateNormalPatternsWithLevel

def numberPatternsWithLevel : List (Re × Nat) := generateNumberPatternsWithLevel 4

def letterPatterns : List GroupedRe := generateLetterNumberPatterns

end LayoutNodeParser

end RagParsers
